import PageLint.Diagnostic
import PageLint.Text.Lines

/-!
# Reports

A source with its line numbers, and beneath each line the diagnostics of that line in the order in
which they were found. Diagnostics of other lines follow at the end, in ascending order of their
lines.
-/

namespace PageLint.Report

/-- A diagnostic as an entry of a report. -/
def diagnosticEntry (d : Diagnostic) : String := "     " ++ d.text

/-- A source line as an entry of a report. -/
def lineEntry (number : Nat) (line : String) : String :=
  String.ofList (Text.paddedDecimal 4 number) ++ " " ++ line

/-- The entries for the source lines from a number on, with the diagnostics of each line. -/
def lineEntries (groups : List (Int × List Diagnostic)) (number : Nat) :
    List String → List String
  | [] => []
  | line :: lines =>
    lineEntry number line :: (((groups.lookup (number : Int)).getD []).map diagnosticEntry
      ++ lineEntries groups (number + 1) lines)

/-- The entries for groups whose line is none of the first `count`. -/
def otherEntries (groups : List (Int × List Diagnostic)) (count : Nat) : List String :=
  let others := groups.filter fun g => !(decide (1 ≤ g.1) && decide (g.1 ≤ (count : Int)))
  (others.mergeSort fun a b => decide (a.1 ≤ b.1)).flatMap fun g => g.2.map diagnosticEntry

/-- All entries of a report. -/
def entries (source : String) (ds : List Diagnostic) : List String :=
  let lines := Text.sourceLines source
  let groups := groupByLine ds
  lineEntries groups 1 lines ++ otherEntries groups lines.length

/-- The text of a report; each entry ends with a newline. -/
def format (source : String) (ds : List Diagnostic) : String :=
  String.join ((entries source ds).map fun entry => entry ++ "\n")

end PageLint.Report
