import PageLint.Text.Decimal

/-!
# Diagnostics

A rule that finds something wrong reports a finding. A collector numbers findings from one in the
order in which they come, and keeps them in that order; other orders and groups are views of it.
-/

namespace PageLint

/-- The family of rules that a diagnostic belongs to. -/
inductive Category where
  | identifier
  | constant
  | assignment
  | function
  | dataInput
  | dataOutput
  | htmlStructure
  | general
  deriving DecidableEq, Repr, Inhabited

namespace Category

/-- All categories. -/
def all : List Category :=
  [identifier, constant, assignment, function, dataInput, dataOutput, htmlStructure, general]

/-- The name of a category. -/
def label : Category → String
  | identifier => "IDENTIFIER"
  | constant => "CONSTANT"
  | assignment => "ASSIGNMENT"
  | function => "FUNCTION"
  | dataInput => "DATA_INPUT"
  | dataOutput => "DATA_OUTPUT"
  | htmlStructure => "HTML_STRUCTURE"
  | general => "GENERAL"

/-- The category with a given name. -/
def ofLabel? (label : String) : Option Category := all.find? fun c => c.label == label

end Category

/-- Something wrong at a line, not yet numbered. -/
structure Finding where
  line : Int
  description : String
  category : Category := .general
  deriving DecidableEq, Repr, Inhabited

/-- A numbered finding. -/
structure Diagnostic where
  line : Int
  number : Int
  description : String
  category : Category := .general
  deriving DecidableEq, Repr, Inhabited

/-- A diagnostic as one line of text. -/
def Diagnostic.text (d : Diagnostic) : String :=
  "Error " ++ Text.intText d.number ++ ": " ++ d.description ++ " at line " ++ Text.intText d.line

/-- Diagnostics in ascending order of their lines, those of one line in the order given. -/
def sortByLine (ds : List Diagnostic) : List Diagnostic :=
  ds.mergeSort fun a b => decide (a.line ≤ b.line)

/-! ## Groups by line -/

/-- Adds a diagnostic to the group of its line, or as a new group at the end. -/
def addToGroup (d : Diagnostic) : List (Int × List Diagnostic) → List (Int × List Diagnostic)
  | [] => [(d.line, [d])]
  | (line, group) :: groups =>
    if line == d.line then (line, group ++ [d]) :: groups
    else (line, group) :: addToGroup d groups

/-- Diagnostics grouped by line, the groups in the order of their first member. -/
def groupByLine (ds : List Diagnostic) : List (Int × List Diagnostic) :=
  ds.foldl (fun groups d => addToGroup d groups) []

/-! ## Collectors -/

/-- The diagnostics of a run in the order in which they came, and the number of the next one. -/
structure Collector where
  diagnostics : List Diagnostic := []
  nextNumber : Int := 1
  deriving DecidableEq, Repr, Inhabited

namespace Collector

/-- The diagnostic that a finding becomes next. -/
def next (c : Collector) (f : Finding) : Diagnostic :=
  { line := f.line, number := c.nextNumber, description := f.description, category := f.category }

/-- Adds a finding under the next number. -/
def add (c : Collector) (f : Finding) : Collector :=
  { diagnostics := c.diagnostics ++ [c.next f], nextNumber := c.nextNumber + 1 }

/-- Adds findings one after the other. -/
def addAll (c : Collector) (fs : List Finding) : Collector := fs.foldl add c

/-- A collector with nothing in it. -/
def clear (_ : Collector) : Collector := {}

/-- The number of diagnostics. -/
def count (c : Collector) : Nat := c.diagnostics.length

/-- Whether anything has been collected. -/
def hasErrors (c : Collector) : Bool := !c.diagnostics.isEmpty

/-- The diagnostics in ascending order of their lines. -/
def sortedByLine (c : Collector) : List Diagnostic := sortByLine c.diagnostics

/-- The diagnostics grouped by line. -/
def byLine (c : Collector) : List (Int × List Diagnostic) := groupByLine c.diagnostics

/-- The diagnostics of a category. -/
def byCategory (c : Collector) (category : Category) : List Diagnostic :=
  c.diagnostics.filter fun d => d.category == category

end Collector

end PageLint
