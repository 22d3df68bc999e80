import PageLint.Json
import PageLint.Text.Lower

/-!
# Configuration

The settings of a run: how long an expression may get, which words start an expression statement,
which elements never have contents, how far down a doctype may stand, and the file extensions.

Settings are read from an object, whose unknown keys are ignored. The two sets of words are given
as a list, as a string that stands for its characters or as an object that stands for its keys,
and are lowered. Truth values count as the integers one and zero. A value of any other type than its
setting has is of no use to a run that looks at it, and settings do not hold it: the default stands
in for it, which is not seen by a run that does not look. `Scope` holds the settings in force
together with those to return to.
-/

namespace PageLint

/-- The settings of a run. -/
structure Config where
  doctypeMaxLine : Int := 3
  maxExpressionTokens : Int := 1000
  expressionKeywords : List String := ["else", "if", "new"]
  voidElements : List String := []
  sourceExtension : String := ".html"
  reportExtension : String := ".txt"
  deriving DecidableEq, Repr, Inhabited

/-- The elements that never have contents in HTML. -/
def htmlVoidElements : List String :=
  ["area", "base", "br", "col", "embed", "hr", "img", "input", "link", "meta", "param", "source",
    "track", "wbr"]

namespace Config

/-- Why settings are refused. -/
inductive Fault where
  /-- A set of words is given by a value that holds no items. -/
  | noItems (value : Json)
  /-- An item of a set of words is not a text. -/
  | notText (item : Json)

/-- The name of the type of a value. -/
def typeName : Json → String
  | .null => "NoneType"
  | .bool _ => "bool"
  | .int _ => "int"
  | .string _ => "str"
  | .array _ => "list"
  | .object _ => "dict"

/-- The wording of a fault. -/
def Fault.message : Fault → String
  | noItems value => "'" ++ typeName value ++ "' object is not iterable"
  | notText item => "'" ++ typeName item ++ "' object has no attribute 'lower'"

/-- The items of a value. -/
def items : Json → Except Fault (List Json)
  | .array items => .ok items
  | .string s => .ok (s.toList.map fun c => .string (String.singleton c))
  | .object fields => .ok (fields.map fun f => .string f.1)
  | value => .error (.noItems value)

/-- An item of a set of words, in lower case. -/
def word : Json → Except Fault String
  | .string s => .ok (lowered s)
  | item => .error (.notText item)

/-- A set of words in ascending order, each once. -/
def wordSet (words : List String) : List String :=
  (words.mergeSort fun a b => decide (a ≤ b)).eraseDups

/-- The set of words that a value gives. -/
def words (value : Json) : Except Fault (List String) := do
  let ws ← (← items value).mapM word
  return wordSet ws

/-- The set of words under a key, or the default when the key is missing. -/
def wordsAt (fields : List (String × Json)) (key : String) (default : List String) :
    Except Fault (List String) :=
  match fields.lookup key with
  | some value => words value
  | none => .ok default

/-- The integer that a value counts as, if it counts as one. -/
def integer? : Json → Option Int
  | .int n => some n
  | .bool b => some (if b then 1 else 0)
  | _ => none

/-- The text that a value is, if it is one. -/
def text? : Json → Option String
  | .string s => some s
  | _ => none

/-- What is read from the value under a key, or the default when the key is missing. -/
def valueAt {α : Type} (read? : Json → Option α) (fields : List (String × Json)) (key : String)
    (default : α) : α :=
  ((fields.lookup key).bind read?).getD default

/-- The settings given by the fields of an object; missing ones keep their default, as do those for
which a value of no use is given. -/
def ofFields (fields : List (String × Json)) : Except Fault Config := do
  let standard : Config := {}
  let expressionKeywords ← wordsAt fields "expression_keywords" standard.expressionKeywords
  let voidElements ← wordsAt fields "void_elements" standard.voidElements
  return {
    doctypeMaxLine := valueAt integer? fields "doctype_max_line" standard.doctypeMaxLine
    maxExpressionTokens :=
      valueAt integer? fields "max_expression_tokens" standard.maxExpressionTokens
    expressionKeywords
    voidElements
    sourceExtension := valueAt text? fields "source_extension" standard.sourceExtension
    reportExtension := valueAt text? fields "report_extension" standard.reportExtension }

/-- The settings as an object. -/
def toJson (c : Config) : Json :=
  .object
    [("doctype_max_line", .int c.doctypeMaxLine),
      ("max_expression_tokens", .int c.maxExpressionTokens),
      ("expression_keywords", .array (c.expressionKeywords.map .string)),
      ("void_elements", .array (c.voidElements.map .string)),
      ("source_extension", .string c.sourceExtension),
      ("report_extension", .string c.reportExtension)]

/-! ## Scopes -/

/-- The settings in force, and those in force before each scope that is still entered, innermost
first. -/
structure Scope where
  active : Config := {}
  outer : List Config := []
  deriving Inhabited

namespace Scope

/-- Puts settings in force in the current scope. -/
def set (s : Scope) (c : Config) : Scope := { s with active := c }

/-- Puts the default settings in force in the current scope. -/
def reset (s : Scope) : Scope := s.set {}

/-- Enters a scope with its own settings. -/
def enter (s : Scope) (c : Config) : Scope := { active := c, outer := s.active :: s.outer }

/-- Leaves the innermost scope; the settings from before it are in force again. -/
def leave (s : Scope) : Scope :=
  match s.outer with
  | [] => s
  | c :: outer => { active := c, outer }

end Scope

end Config

end PageLint
