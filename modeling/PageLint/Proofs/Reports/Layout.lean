import PageLint.Proofs.Reports.Order

/-!
# The layout of a report

A report is its numbered lines, each with the diagnostics of the line beneath it, and behind them
the diagnostics of all other lines, sorted by line. The diagnostics beneath its lines come sorted by
line too, so what a report shows is what it is given, each diagnostic once.

* `Report.onLines_eq` — the diagnostics beneath lines, sorted by line
* `Report.entries_perm` — the entries of a report in any order
* `Report.format_layout` — the text of a report
-/

namespace PageLint.Report

/-! ## Beneath the lines -/

/-- Numbered lines, and beneath each one its diagnostics in order. -/
def beneath (ds : List Diagnostic) (lines : List (String × Nat)) : List String :=
  lines.flatMap fun (line, number) =>
    lineEntry number line :: (ds.filter fun d => d.line == (number : Int)).map diagnosticEntry

theorem lineEntries_eq (ds : List Diagnostic) (number : Nat) (lines : List String) :
    lineEntries (groupByLine ds) number lines = beneath ds (lines.zipIdx number) := by
  induction lines generalizing number with
  | nil => rfl
  | cons line lines ih =>
    rw [lineEntries, ih, getD_lookup_groupByLine, beneath, beneath, List.zipIdx_cons,
      List.flatMap_cons, List.cons_append]

/-- The diagnostics of so many lines from a number on, line by line. -/
def onLines (ds : List Diagnostic) (number count : Nat) : List Diagnostic :=
  (List.range' number count).flatMap fun n : Nat => ds.filter fun d => d.line == (n : Int)

/-- The lines from a number on, each as a group of diagnostics. -/
theorem groupedByLine_range' (ds : List Diagnostic) (number count : Nat) :
    GroupedByLine (ds.filter fun d => isWithin number (number + count - 1) d.line)
      ((List.range' number count).map fun n : Nat =>
        ((n : Int), ds.filter fun d => d.line == (n : Int))) where
  distinct := by
    rw [List.map_map]
    exact List.Nodup.map (fun m n h => Int.ofNat_inj.1 h) List.nodup_range'
  complete := by
    intro d hd
    have hwithin := isWithin_iff.1 (List.mem_filter.1 hd).2
    rw [List.map_map]
    refine List.mem_map.2 ⟨d.line.toNat, List.mem_range'_1.2 ?_, ?_⟩
    · omega
    · show ((d.line.toNat : Nat) : Int) = d.line
      omega
  group := by
    intro g hg
    obtain ⟨n, hn, rfl⟩ := List.mem_map.1 hg
    have hrange := List.mem_range'_1.1 hn
    rw [List.filter_filter]
    refine List.filter_congr fun d _ => ?_
    rw [Bool.eq_iff_iff, Bool.and_eq_true, isWithin_iff, beq_iff_eq]
    omega

/-- **The diagnostics beneath lines are sorted by line.** -/
theorem onLines_eq (ds : List Diagnostic) (number count : Nat) :
    onLines ds number count =
      sortByLine (ds.filter fun d => isWithin number (number + count - 1) d.line) := by
  have hascending : ((List.range' number count).map fun n : Nat =>
      ((n : Int), ds.filter fun d => d.line == (n : Int))).Pairwise fun g g' => g.1 ≤ g'.1 := by
    refine List.pairwise_map.2 ((List.pairwise_lt_range' 1).imp fun h => ?_)
    exact Int.ofNat_le.2 (Nat.le_of_lt h)
  have hsorted := (groupedByLine_range' ds number count).stablySorted hascending
  rw [List.flatMap_map] at hsorted
  exact stablySorted_iff.1 hsorted

/-- The diagnostics beneath the first lines, and the others behind them, are all diagnostics. -/
theorem onLines_append_perm (ds : List Diagnostic) (count : Nat) :
    (onLines ds 1 count ++ sortByLine (ds.filter fun d => !isWithin 1 count d.line)).Perm ds := by
  have hlast : ((1 : Nat) : Int) + count - 1 = count := by omega
  rw [onLines_eq, hlast]
  exact ((sortByLine_perm _).append (sortByLine_perm _)).trans (List.filter_append_perm _ ds)

/-! ## All entries -/

/-- The entries of numbered lines. -/
def numbered (lines : List (String × Nat)) : List String :=
  lines.map fun (line, number) => lineEntry number line

/-- Beneath numbered lines stand the diagnostics of these lines. -/
theorem beneath_perm (ds : List Diagnostic) (number : Nat) (lines : List String) :
    (beneath ds (lines.zipIdx number)).Perm
      (numbered (lines.zipIdx number) ++
        (onLines ds number lines.length).map diagnosticEntry) := by
  induction lines generalizing number with
  | nil => exact .nil
  | cons line lines ih =>
    rw [List.zipIdx_cons, beneath, List.flatMap_cons, ← beneath, numbered, List.map_cons,
      ← numbered, onLines, List.length_cons, List.range'_succ, List.flatMap_cons, ← onLines,
      List.map_append, List.cons_append, List.cons_append]
    exact .cons _ (((ih (number + 1)).append_left _).trans (List.perm_append_comm_assoc _ _ _))

theorem entries_eq_append (source : String) (ds : List Diagnostic) :
    entries source ds = beneath ds ((Text.sourceLines source).zipIdx 1) ++
      (sortByLine (ds.filter fun d =>
        !isWithin 1 (Text.sourceLines source).length d.line)).map diagnosticEntry := by
  rw [entries, lineEntries_eq, otherEntries_eq]

/-- **A report has an entry for each line and each diagnostic**, and no others. -/
theorem entries_perm (source : String) (ds : List Diagnostic) :
    (entries source ds).Perm
      (numbered ((Text.sourceLines source).zipIdx 1) ++ ds.map diagnosticEntry) := by
  rw [entries_eq_append]
  refine ((beneath_perm ds 1 _).append_right _).trans ?_
  rw [List.append_assoc, ← List.map_append]
  exact ((onLines_append_perm ds _).map _).append_left _

/-- **The layout of a report.** For any source and any diagnostics, a report is the numbered lines
of the source, each with the diagnostics of the line in the order given, and then the diagnostics of
all other lines, sorted by line. Each diagnostic is shown once, and there is nothing else. A line
stands behind its number of at least four digits, and a diagnostic is indented by five spaces. -/
theorem format_layout (source : String) (ds : List Diagnostic) : ∃ others,
    StablySorted (ds.filter fun d => !isWithin 1 (Text.sourceLines source).length d.line) others ∧
    format source ds = String.join
      ((beneath ds ((Text.sourceLines source).zipIdx 1) ++ others.map diagnosticEntry).map
        fun entry => entry ++ "\n") ∧
    (onLines ds 1 (Text.sourceLines source).length ++ others).Perm ds ∧
    (entries source ds).Perm
      (numbered ((Text.sourceLines source).zipIdx 1) ++ ds.map diagnosticEntry) ∧
    (∀ (number : Nat) (line : String), lineEntry number line =
      String.ofList (Text.paddedDecimal 4 number) ++ " " ++ line) ∧
    ∀ d : Diagnostic, diagnosticEntry d =
      "     Error " ++ Text.intText d.number ++ ": " ++ d.description ++ " at line " ++
        Text.intText d.line := by
  refine ⟨_, stablySorted_sortByLine _, ?_, onLines_append_perm ds _, entries_perm source ds,
    fun _ _ => rfl, fun d => ?_⟩
  · rw [format, entries_eq_append]
  · have hindent : "     Error " = "     " ++ "Error " := by decide
    simp only [diagnosticEntry, Diagnostic.text, hindent, String.append_assoc]

set_option maxRecDepth 2000 in
/-- Diagnostics on a line of the source, before its lines and behind them. -/
example :
    format "<p>\r\na"
      [{ line := 2, number := 1, description := "b" },
        { line := 30, number := 2, description := "c" },
        { line := 2, number := 3, description := "d" },
        { line := -1, number := 4, description := "e" },
        { line := 30, number := 5, description := "f" }] =
      "0001 <p>\n0002 a\n     Error 1: b at line 2\n     Error 3: d at line 2\n" ++
        "     Error 4: e at line -1\n     Error 2: c at line 30\n     Error 5: f at line 30\n" := by
  cbv

end PageLint.Report
