import PageLint.Rule.Pass

/-!
# Collecting findings

A collector gives the findings that it gets consecutive numbers and keeps what it has. Running
passes is collecting what each of them finds, one after the other.

* `Collector.Reached` — the states of a collector that adding and clearing lead to
* `numberFrom` — findings with consecutive numbers
* `Collector.addAll_diagnostics` — what a collector holds after more findings
* `runPasses_collector` — the findings that passes hand to a collector
-/

namespace PageLint

/-- Findings as diagnostics with consecutive numbers. -/
def numberFrom (number : Int) : List Finding → List Diagnostic
  | [] => []
  | f :: fs =>
    { line := f.line, number, description := f.description, category := f.category } ::
      numberFrom (number + 1) fs

/-- A diagnostic without its number. -/
def Diagnostic.finding (d : Diagnostic) : Finding :=
  { line := d.line, description := d.description, category := d.category }

theorem map_finding_numberFrom (number : Int) (fs : List Finding) :
    (numberFrom number fs).map Diagnostic.finding = fs := by
  induction fs generalizing number with
  | nil => rfl
  | cons f fs ih => rw [numberFrom, List.map_cons, ih, Diagnostic.finding]

namespace Collector

/-- The states of a collector that starts empty and is added to and cleared. -/
inductive Reached : Collector → Prop where
  | empty : Reached {}
  | add {c : Collector} (h : Reached c) (f : Finding) : Reached (c.add f)
  | clear {c : Collector} (h : Reached c) : Reached c.clear

theorem Reached.nextNumber_eq {c : Collector} (h : c.Reached) : c.nextNumber = c.count + 1 := by
  induction h with
  | empty => rfl
  | add h f ih => simp [Collector.add, ih, count]
  | clear h ih => rfl

theorem addAll_append (c : Collector) (fs gs : List Finding) :
    c.addAll (fs ++ gs) = (c.addAll fs).addAll gs :=
  List.foldl_append

/-- **A collector keeps what it has** and numbers what it gets from its next number on. -/
theorem addAll_eq (c : Collector) (fs : List Finding) :
    c.addAll fs = { diagnostics := c.diagnostics ++ numberFrom c.nextNumber fs
                    nextNumber := c.nextNumber + fs.length } := by
  induction fs generalizing c with
  | nil => simp [addAll, numberFrom]
  | cons f fs ih =>
    show (c.add f).addAll fs = _
    rw [ih]
    simp only [Collector.add, next, numberFrom, List.append_assoc, List.singleton_append,
      List.length_cons]
    congr 1
    omega

theorem addAll_diagnostics (c : Collector) (fs : List Finding) :
    (c.addAll fs).diagnostics = c.diagnostics ++ numberFrom c.nextNumber fs := by
  rw [addAll_eq]

end Collector

/-- What passes find in a document, one after the other. -/
def findingsOf (config : Config) (ids : List String) (document : Document) (passes : List Pass) :
    List Finding :=
  passes.flatMap fun pass => (pass.run config ids document).1

/-- Passes hand the collector what each of them finds, in order. -/
theorem runPasses_collector (config : Config) (ids : List String) (document : Document)
    (passes : List Pass) (c : Collector) :
    (runPasses config ids document passes c).1 =
      c.addAll (findingsOf config ids document passes) := by
  induction passes generalizing c with
  | nil => rfl
  | cons pass passes ih =>
    rw [runPasses, findingsOf, List.flatMap_cons, Collector.addAll_append, ← findingsOf]
    exact ih _

end PageLint
