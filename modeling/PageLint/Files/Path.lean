import PageLint.Config
import PageLint.Text.Display
import PageLint.Text.Search

/-!
# Paths

A path is an optional root and a list of parts. Reading a path drops empty parts and single dots,
so doubled slashes and trailing ones make no difference; double dots stay. Two slashes in front
are a root of their own, three or more are one.

The report of a document stands beside it: the source extension gives way to the report
extension, which is otherwise added.
-/

namespace PageLint

/-- A path: its root, which is empty for a relative path, and its parts. -/
structure Path where
  root : String := ""
  parts : List String := []
  deriving DecidableEq, Repr, Inhabited

namespace Path

/-- The root of a path text. -/
def rootOf (text : List Char) : String :=
  match (text.takeWhile (· == '/')).length with
  | 0 => ""
  | 2 => "//"
  | _ => "/"

/-- The parts of a path text that say something. -/
def partsOf (text : List Char) : List String :=
  ((Text.splitOnChar '/' text).filter fun p => !p.isEmpty && p != ['.']).map String.ofList

/-- Reads a path. -/
def ofText (text : String) : Path := { root := rootOf text.toList, parts := partsOf text.toList }

/-- The text of a path; an empty path is a single dot. -/
def text (p : Path) : String :=
  let full := p.root ++ String.intercalate "/" p.parts
  if full.isEmpty then "." else full

/-- The last part of a path. -/
def name (p : Path) : String := p.parts.getLast?.getD ""

/-- A path read again from its text. A last part that holds a slash, as a new name may, is taken
apart. -/
def reread (p : Path) : Path := ofText p.text

/-- A path one step further down. -/
def child (p : Path) (name : String) : Path := { p with parts := p.parts ++ [name] }

/-- Why the last part of a path cannot be replaced. -/
inductive Fault where
  /-- The path has no last part. -/
  | emptyName (path : Path)
  /-- The new name is not a single part. -/
  | invalidName (name : String)
  deriving DecidableEq, Repr

/-- The wording of a fault. -/
def Fault.message : Fault → String
  | emptyName path => "PosixPath(" ++ Text.displayText path.text ++ ") has an empty name"
  | invalidName name => "Invalid name " ++ Text.displayText name

/-- Whether a text is a single part without a root and without a slash at its end. -/
def isSingleName (name : String) : Bool :=
  name.toList.getLast? != some '/' && (rootOf name.toList).isEmpty
    && (partsOf name.toList).length == 1

/-- A path with another last part. -/
def withName (p : Path) (name : String) : Except Fault Path :=
  if p.name.isEmpty then .error (.emptyName p)
  else if isSingleName name then .ok { p with parts := p.parts.dropLast ++ [name] }
  else .error (.invalidName name)

/-- Whether the name of a path ends with an extension, in lower case. -/
def hasExtension (p : Path) (extension : String) : Bool :=
  extension.toList.isSuffixOf (lowered p.name).toList

/-- The name of a report, given the name of its document. -/
def reportName (config : Config) (p : Path) : String :=
  if p.hasExtension config.sourceExtension then
    let extension := config.sourceExtension.toList.length
    let stem := if extension == 0 then [] else p.name.toList.take (p.name.toList.length - extension)
    String.ofList stem ++ config.reportExtension
  else p.name ++ config.reportExtension

/-- The path of the report of a document. -/
def report (config : Config) (p : Path) : Except Fault Path := p.withName (p.reportName config)

end Path

end PageLint
