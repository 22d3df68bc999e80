import Mathlib.Data.List.Induction
import Mathlib.Data.List.Nodup
import PageLint.Proofs.Tables
import PageLint.Report

/-!
# Diagnostics in the order of their lines

There is one way to put diagnostics in ascending order of their lines and leave those of each line
as they are, and sorting them finds it. Diagnostics that are grouped by line come in the same order
when the groups are put in ascending order.

* `StablySorted` — ascending lines, each with its diagnostics in the order given
* `stablySorted_iff` — sorting gives this order, and nothing else is such an order
* `GroupedByLine` — one group for each line, with its diagnostics in the order given
* `GroupedByLine.stablySorted` — groups in ascending order
-/

namespace PageLint

/-! ## Sorting -/

/-- Diagnostics in ascending order of their lines, those of each line in the order given. -/
structure StablySorted (ds sorted : List Diagnostic) : Prop where
  ascending : sorted.Pairwise fun d e => d.line ≤ e.line
  kept : ∀ line, (sorted.filter fun d => d.line == line) = ds.filter fun d => d.line == line

theorem sortByLine_perm (ds : List Diagnostic) : (sortByLine ds).Perm ds := List.mergeSort_perm ..

section Keys

variable {α : Type} (key : α → Int)

theorem key_le_trans (a b c : α) (hab : decide (key a ≤ key b) = true)
    (hbc : decide (key b ≤ key c) = true) : decide (key a ≤ key c) = true := by
  simp only [decide_eq_true_eq] at *
  omega

theorem key_le_total (a b : α) : (decide (key a ≤ key b) || decide (key b ≤ key a)) = true := by
  simp only [Bool.or_eq_true, decide_eq_true_eq]
  omega

theorem pairwise_mergeSort_key (as : List α) :
    (as.mergeSort fun a b => decide (key a ≤ key b)).Pairwise fun a b => key a ≤ key b :=
  (List.pairwise_mergeSort (key_le_trans key) (key_le_total key) as).imp of_decide_eq_true

end Keys

theorem stablySorted_sortByLine (ds : List Diagnostic) : StablySorted ds (sortByLine ds) := by
  refine ⟨pairwise_mergeSort_key Diagnostic.line ds, fun line => ?_⟩
  -- What is in order already stays in order, and the diagnostics of one line are.
  have hline : ∀ d ∈ ds.filter fun d => d.line == line, d.line = line := fun d hd =>
    eq_of_beq (List.mem_filter.1 hd).2
  have hordered : (ds.filter fun d => d.line == line).Pairwise
      fun a b => decide (a.line ≤ b.line) = true :=
    List.pairwise_of_forall_mem_list fun a ha b hb => by
      rw [hline a ha, hline b hb]
      exact decide_eq_true (Int.le_refl line)
  have hsublist := (List.sublist_mergeSort (key_le_trans Diagnostic.line)
    (key_le_total Diagnostic.line) hordered List.filter_sublist).filter fun d => d.line == line
  rw [List.filter_filter] at hsublist
  simp only [Bool.and_self] at hsublist
  exact (hsublist.eq_of_length ((sortByLine_perm ds).filter _).length_eq.symm).symm

namespace StablySorted

variable {ds sorted sorted' : List Diagnostic}

theorem mem_iff (h : StablySorted ds sorted) (d : Diagnostic) : d ∈ sorted ↔ d ∈ ds := by
  have hkept := congrArg (d ∈ ·) (h.kept d.line)
  simpa [List.mem_filter] using hkept

/-- The first of the diagnostics is the first on its line, and no line comes before. -/
theorem head_unique {d e : Diagnostic} (h : StablySorted ds (d :: sorted))
    (h' : StablySorted ds (e :: sorted')) : d = e := by
  have hde : d.line ≤ e.line := by
    rcases List.mem_cons.1 ((h.mem_iff e).2 ((h'.mem_iff e).1 List.mem_cons_self)) with rfl | he
    · exact Int.le_refl _
    · exact List.rel_of_pairwise_cons h.ascending he
  have hed : e.line ≤ d.line := by
    rcases List.mem_cons.1 ((h'.mem_iff d).2 ((h.mem_iff d).1 List.mem_cons_self)) with rfl | hd
    · exact Int.le_refl _
    · exact List.rel_of_pairwise_cons h'.ascending hd
  have hline : e.line = d.line := Int.le_antisymm hed hde
  have hfirst := (h.kept d.line).trans (h'.kept d.line).symm
  rw [List.filter_cons_of_pos (by simp), List.filter_cons_of_pos (by simp [hline])] at hfirst
  exact (List.cons_eq_cons.1 hfirst).1

/-- **There is one such order.** -/
theorem unique (h : StablySorted ds sorted) (h' : StablySorted ds sorted') :
    sorted = sorted' := by
  induction sorted generalizing ds sorted' with
  | nil =>
    cases sorted' with
    | nil => rfl
    | cons e _ => exact absurd ((h.mem_iff e).2 ((h'.mem_iff e).1 List.mem_cons_self)) (by simp)
  | cons d sorted ih =>
    cases sorted' with
    | nil => exact absurd ((h'.mem_iff d).2 ((h.mem_iff d).1 List.mem_cons_self)) (by simp)
    | cons e sorted' =>
      obtain rfl := h.head_unique h'
      -- Behind it the same diagnostics are sorted twice.
      have htail : StablySorted sorted' sorted :=
        ⟨h.ascending.of_cons, fun line => by
          have hkept := (h.kept line).trans (h'.kept line).symm
          simp only [List.filter_cons] at hkept
          split at hkept
          · exact (List.cons_eq_cons.1 hkept).2
          · exact hkept⟩
      rw [ih htail ⟨h'.ascending.of_cons, fun _ => rfl⟩]

end StablySorted

/-- **Sorting by line gives the one order** in which lines ascend and each line is left as it is. -/
theorem stablySorted_iff {ds sorted : List Diagnostic} :
    StablySorted ds sorted ↔ sorted = sortByLine ds :=
  ⟨fun h => h.unique (stablySorted_sortByLine ds), fun h => h ▸ stablySorted_sortByLine ds⟩

/-! ## Groups -/

theorem lookup_addToGroup (d : Diagnostic) (groups : List (Int × List Diagnostic)) (line : Int) :
    (addToGroup d groups).lookup line =
      if d.line = line then some ((groups.lookup line).getD [] ++ [d]) else groups.lookup line := by
  induction groups with
  | nil =>
    rw [addToGroup, List.lookup_cons]
    by_cases h : d.line = line
    · simp [h]
    · simp [h, beq_eq_false_iff_ne.2 (Ne.symm h)]
  | cons g groups ih =>
    obtain ⟨key, group⟩ := g
    rw [addToGroup]
    by_cases hkey : key = d.line
    · rw [if_pos (by simpa using hkey), List.lookup_cons, List.lookup_cons, hkey]
      by_cases h : d.line = line
      · simp [h]
      · simp [h, beq_eq_false_iff_ne.2 (Ne.symm h)]
    · rw [if_neg (by simpa using hkey), List.lookup_cons, List.lookup_cons, ih]
      by_cases h : line = key
      · simp [h, Ne.symm hkey]
      · simp [beq_eq_false_iff_ne.2 h]

/-- A diagnostic makes a new group when its line has none. -/
theorem keys_addToGroup (d : Diagnostic) (groups : List (Int × List Diagnostic)) :
    (addToGroup d groups).map Prod.fst =
      if d.line ∈ groups.map Prod.fst then groups.map Prod.fst
      else groups.map Prod.fst ++ [d.line] := by
  induction groups with
  | nil => rfl
  | cons g groups ih =>
    obtain ⟨key, group⟩ := g
    rw [addToGroup]
    by_cases hkey : key = d.line
    · simp [hkey]
    · rw [if_neg (by simpa using hkey), List.map_cons, List.map_cons, ih]
      simp only [List.mem_cons, Ne.symm hkey, false_or]
      split <;> rfl

theorem groupByLine_concat (ds : List Diagnostic) (d : Diagnostic) :
    groupByLine (ds ++ [d]) = addToGroup d (groupByLine ds) := by
  rw [groupByLine, List.foldl_concat, ← groupByLine]

/-- The group of a line holds the diagnostics of the line in order. -/
theorem getD_lookup_groupByLine (ds : List Diagnostic) (line : Int) :
    ((groupByLine ds).lookup line).getD [] = ds.filter fun d => d.line == line := by
  induction ds using List.reverseRecOn with
  | nil => rfl
  | append_singleton ds d ih =>
    rw [groupByLine_concat, lookup_addToGroup, List.filter_append, ← ih]
    by_cases h : d.line = line <;> simp [h]

/-- One group for each line that is named, with the diagnostics of the line in the order given. -/
structure GroupedByLine (ds : List Diagnostic) (groups : List (Int × List Diagnostic)) : Prop where
  distinct : (groups.map Prod.fst).Nodup
  complete : ∀ d ∈ ds, d.line ∈ groups.map Prod.fst
  group : ∀ g ∈ groups, g.2 = ds.filter fun d => d.line == g.1

theorem nodup_keys_groupByLine (ds : List Diagnostic) :
    ((groupByLine ds).map Prod.fst).Nodup := by
  induction ds using List.reverseRecOn with
  | nil => exact List.nodup_nil
  | append_singleton ds d ih =>
    rw [groupByLine_concat, keys_addToGroup]
    split
    · exact ih
    · rename_i hnew
      rw [← List.concat_eq_append]
      exact List.Nodup.concat hnew ih

theorem groupedByLine_groupByLine (ds : List Diagnostic) : GroupedByLine ds (groupByLine ds) where
  distinct := nodup_keys_groupByLine ds
  complete := by
    intro d hd
    by_contra hnone
    have hlookup : (groupByLine ds).lookup d.line = none :=
      List.lookup_eq_none_iff.2 fun g hg => bne_iff_ne.2 fun heq =>
        hnone (List.mem_map.2 ⟨g, hg, heq.symm⟩)
    have hgroup := getD_lookup_groupByLine ds d.line
    rw [hlookup, Option.getD_none] at hgroup
    have hmem : d ∈ ds.filter fun e => e.line == d.line :=
      List.mem_filter.2 ⟨hd, beq_self_eq_true _⟩
    rw [← hgroup] at hmem
    cases hmem
  group := by
    intro g hg
    have hlookup := lookup_of_perm (.refl (groupByLine ds)) (nodup_keys_groupByLine ds) hg
    rw [← getD_lookup_groupByLine, hlookup, Option.getD_some]

namespace GroupedByLine

variable {ds : List Diagnostic} {groups groups' : List (Int × List Diagnostic)}

theorem perm (h : GroupedByLine ds groups) (hp : groups'.Perm groups) :
    GroupedByLine ds groups' where
  distinct := ((hp.map Prod.fst).nodup_iff).2 h.distinct
  complete := fun d hd => (hp.map Prod.fst).mem_iff.2 (h.complete d hd)
  group := fun g hg => h.group g (hp.mem_iff.1 hg)

/-- Leaving groups out is leaving the diagnostics of their lines out. -/
theorem filter (h : GroupedByLine ds groups) (p : Int → Bool) :
    GroupedByLine (ds.filter fun d => p d.line) (groups.filter fun g => p g.1) where
  distinct := h.distinct.sublist (List.filter_sublist.map _)
  complete := by
    intro d hd
    obtain ⟨hd, hp⟩ := List.mem_filter.1 hd
    obtain ⟨g, hg, hline⟩ := List.mem_map.1 (h.complete d hd)
    exact List.mem_map.2 ⟨g, List.mem_filter.2 ⟨hg, by rwa [hline]⟩, hline⟩
  group := by
    intro g hg
    obtain ⟨hg, hp⟩ := List.mem_filter.1 hg
    rw [h.group g hg, List.filter_filter]
    refine List.filter_congr fun d _ => ?_
    by_cases hline : d.line = g.1
    · simp [hline, hp]
    · simp [hline]

theorem line_of_mem (h : GroupedByLine ds groups) {g : Int × List Diagnostic} (hg : g ∈ groups) :
    ∀ d ∈ g.2, d.line = g.1 := by
  intro d hd
  rw [h.group g hg] at hd
  exact eq_of_beq (List.mem_filter.1 hd).2

/-- The diagnostics of a line are those of its group. -/
theorem filter_flatMap (h : GroupedByLine ds groups) (line : Int) :
    ((groups.flatMap Prod.snd).filter fun d => d.line == line) =
      ds.filter fun d => d.line == line := by
  have hother : ∀ gs : List (Int × List Diagnostic), gs ⊆ groups → line ∉ gs.map Prod.fst →
      ((gs.flatMap Prod.snd).filter fun d => d.line == line) = [] := by
    intro gs hgs hline
    refine List.filter_eq_nil_iff.2 fun d hd hdline => hline ?_
    obtain ⟨g, hg, hd⟩ := List.mem_flatMap.1 hd
    rw [← eq_of_beq hdline, h.line_of_mem (hgs hg) d hd]
    exact List.mem_map_of_mem hg
  by_cases hline : line ∈ groups.map Prod.fst
  · -- The group of the line, and those before and behind it, which are of other lines.
    obtain ⟨g, hg, rfl⟩ := List.mem_map.1 hline
    obtain ⟨before, after, hsplit⟩ := List.append_of_mem hg
    have hdistinct := h.distinct
    rw [hsplit, List.map_append, List.map_cons] at hdistinct
    obtain ⟨-, hrest, hdisjoint⟩ := List.nodup_append.1 hdistinct
    have hbefore := hother before (by simp [hsplit])
      fun hmem => hdisjoint _ hmem _ List.mem_cons_self rfl
    have hafter := hother after (by simp [hsplit]) (List.nodup_cons.1 hrest).1
    have hself : (g.2.filter fun d => d.line == g.1) = g.2 :=
      List.filter_eq_self.2 fun d hd => beq_iff_eq.2 (h.line_of_mem hg d hd)
    rw [hsplit, List.flatMap_append, List.flatMap_cons, List.filter_append, List.filter_append,
      hbefore, hafter, hself, List.nil_append, List.append_nil, h.group g hg]
  · rw [hother groups (List.Subset.refl _) hline]
    refine (List.filter_eq_nil_iff.2 fun d hd hdline => hline ?_).symm
    rw [← eq_of_beq hdline]
    exact h.complete d hd

/-- **Groups in ascending order**, one after the other, are the diagnostics sorted by line. -/
theorem stablySorted (h : GroupedByLine ds groups)
    (hascending : groups.Pairwise fun g g' => g.1 ≤ g'.1) :
    StablySorted ds (groups.flatMap Prod.snd) := by
  refine ⟨List.pairwise_flatMap.2 ⟨fun g hg => ?_, ?_⟩, h.filter_flatMap⟩
  · exact List.pairwise_of_forall_mem_list fun d hd e he =>
      Int.le_of_eq ((h.line_of_mem hg d hd).trans (h.line_of_mem hg e he).symm)
  · refine hascending.imp_of_mem fun hg hg' hle d hd e he => ?_
    rwa [h.line_of_mem hg d hd, h.line_of_mem hg' e he]

end GroupedByLine

/-- Groups in ascending order of their lines. -/
def sortGroups (groups : List (Int × List Diagnostic)) : List (Int × List Diagnostic) :=
  groups.mergeSort fun g g' => decide (g.1 ≤ g'.1)

theorem sortGroups_perm (groups : List (Int × List Diagnostic)) :
    (sortGroups groups).Perm groups := List.mergeSort_perm ..

/-- Diagnostics are sorted by line group by group. -/
theorem GroupedByLine.flatMap_sortGroups {ds : List Diagnostic}
    {groups : List (Int × List Diagnostic)} (h : GroupedByLine ds groups) :
    (sortGroups groups).flatMap Prod.snd = sortByLine ds :=
  stablySorted_iff.1 ((h.perm (sortGroups_perm groups)).stablySorted
    (pairwise_mergeSort_key Prod.fst groups))

/-! ## Behind the lines of a report -/

/-- Whether a line is between two others. -/
def isWithin (first last line : Int) : Bool := decide (first ≤ line) && decide (line ≤ last)

theorem isWithin_iff {first last line : Int} :
    isWithin first last line = true ↔ first ≤ line ∧ line ≤ last := by
  simp [isWithin]

/-- **Behind the lines of a report** stand the diagnostics of other lines, sorted by line. -/
theorem Report.otherEntries_eq (ds : List Diagnostic) (count : Nat) :
    otherEntries (groupByLine ds) count =
      (sortByLine (ds.filter fun d => !isWithin 1 count d.line)).map diagnosticEntry := by
  have hothers := (groupedByLine_groupByLine ds).filter fun line => !isWithin 1 count line
  rw [← hothers.flatMap_sortGroups, List.map_flatMap]
  rfl

end PageLint
