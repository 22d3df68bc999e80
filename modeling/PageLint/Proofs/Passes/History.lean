import PageLint.Proofs.Passes.Collecting
import PageLint.Proofs.Reports.Order

/-!
# Collectors over time

Whatever happens to a collector, it holds what has been found since it was cleared, in the order in
which it came and numbered from one. Each of its other views shows the diagnostics of its one list:
sorted by line, grouped by line, and by category.

* `Collector.Step`, `Collector.after` — what may happen to a collector
* `Collector.Step.follow`, `Collector.after_eq` — what steps have found since the last clearing
* `Collector.Ordered`, `Collector.Appends` — the numbers and the views of a collector, and where
  findings go
* `Collector.after_ordered` — they are in order after any steps
-/

namespace PageLint

/-! ## Categories -/

/-- What two tests that exclude each other leave is what the test leaves that one of them holds. -/
theorem filter_append_filter_perm {p q r : Diagnostic → Bool} (hp : ∀ d, p d = (p d && r d))
    (hq : ∀ d, q d = (!p d && r d)) (ds : List Diagnostic) :
    (ds.filter p ++ ds.filter q).Perm (ds.filter r) := by
  have hp' : ds.filter p = (ds.filter r).filter p := by
    rw [List.filter_filter]
    exact List.filter_congr fun d _ => hp d
  have hq' : ds.filter q = (ds.filter r).filter fun d => !p d := by
    rw [List.filter_filter]
    exact List.filter_congr fun d _ => hq d
  rw [hp', hq']
  exact List.filter_append_perm p _

/-- The diagnostics of several categories, one category after the other. -/
theorem flatMap_filter_category_perm {categories : List Category} (hnd : categories.Nodup)
    (ds : List Diagnostic) :
    (categories.flatMap fun category => ds.filter fun d => d.category == category).Perm
      (ds.filter fun d => categories.contains d.category) := by
  induction categories with
  | nil => simp
  | cons category categories ih =>
    obtain ⟨hnew, hnd⟩ := List.nodup_cons.1 hnd
    rw [List.flatMap_cons]
    refine ((ih hnd).append_left _).trans (filter_append_filter_perm (fun d => ?_) (fun d => ?_) ds)
    · by_cases h : d.category = category <;> simp [h]
    · by_cases h : d.category = category
      · simp [h, hnew]
      · simp [h]

theorem Category.mem_all (category : Category) : category ∈ all := by
  cases category <;> decide

namespace Collector

/-! ## Steps -/

/-- What may happen to a collector. -/
inductive Step where
  | add (f : Finding)
  | clear
  /-- All passes run over a document. -/
  | validate (config : Config) (ids : List String) (document : Document)
  /-- Some passes run over a document, in any order; so does a run that is broken off. -/
  | run (config : Config) (ids : List String) (document : Document) (passes : List Pass)

/-- A collector after one more step. -/
def step (c : Collector) : Step → Collector
  | .add f => c.add f
  | .clear => c.clear
  | .validate config ids document => (PageLint.validate config ids document c).1
  | .run config ids document passes => (runPasses config ids document passes c).1

/-- A collector that starts empty, after some steps. -/
def after (steps : List Step) : Collector := steps.foldl step {}

/-- What has been found since the last clearing, in order, when one more step is taken. -/
def Step.follow (found : List Finding) : Step → List Finding
  | .add f => found ++ [f]
  | .clear => []
  | .validate config ids document => found ++ findingsOf config ids document Pass.all
  | .run config ids document passes => found ++ findingsOf config ids document passes

/-- What steps have found since the last clearing, in order. -/
def foundBy (steps : List Step) : List Finding := steps.foldl Step.follow []

/-- **Every step is adding or clearing**: passes only add what they find. -/
theorem step_addAll (found : List Finding) (s : Step) :
    (addAll {} found).step s = addAll {} (s.follow found) := by
  cases s with
  | add f => rw [Step.follow, addAll_append]; rfl
  | clear => rfl
  | validate config ids document =>
    rw [step, PageLint.validate, runPasses_collector, Step.follow, addAll_append]
  | run config ids document passes =>
    rw [step, runPasses_collector, Step.follow, addAll_append]

/-- A collector holds what its steps have found. -/
theorem after_eq (steps : List Step) : after steps = addAll {} (foundBy steps) := by
  suffices ∀ found, steps.foldl step (addAll {} found) =
      addAll {} (steps.foldl Step.follow found) from this []
  induction steps with
  | nil => exact fun _ => rfl
  | cons s steps ih =>
    intro found
    rw [List.foldl_cons, List.foldl_cons, step_addAll, ih]

theorem Reached.addAll {c : Collector} (h : c.Reached) (fs : List Finding) :
    (c.addAll fs).Reached := by
  induction fs generalizing c with
  | nil => exact h
  | cons f fs ih => exact ih (h.add f)

theorem after_reached (steps : List Step) : (after steps).Reached := by
  rw [after_eq]
  exact Reached.empty.addAll _

/-! ## Numbers and views -/

/-- The numbers and the views of a collector are in order. -/
structure Ordered (c : Collector) : Prop where
  /-- The diagnostics are numbered from one in the order in which they came. -/
  numbers : c.diagnostics.map Diagnostic.number =
    (List.range c.count).map fun i : Nat => (i : Int) + 1
  next : c.nextNumber = c.count + 1
  sorted : StablySorted c.diagnostics c.sortedByLine
  grouped : GroupedByLine c.diagnostics c.byLine
  /-- The groups in ascending order of their lines, one after the other, are sorted by line. -/
  ascending : ∃ groups : List (Int × List Diagnostic), groups.Perm c.byLine ∧
    groups.Pairwise (fun g g' => g.1 < g'.1) ∧ groups.flatMap Prod.snd = c.sortedByLine
  /-- The diagnostics of a category are those of the collector in the order in which they came. -/
  category : ∀ category, (c.byCategory category).Sublist c.diagnostics ∧
    ∀ d, d ∈ c.byCategory category ↔ d ∈ c.diagnostics ∧ d.category = category
  /-- Over all categories they are the diagnostics of the collector, each once. -/
  categories : (Category.all.flatMap c.byCategory).Perm c.diagnostics

theorem Reached.numbers_eq {c : Collector} (h : c.Reached) : c.diagnostics.map Diagnostic.number =
    (List.range c.count).map fun i : Nat => (i : Int) + 1 := by
  induction h with
  | empty => rfl
  | @add c h f ih =>
    have hcount : (c.add f).count = c.count + 1 := by
      rw [count, Collector.add, List.length_append, List.length_singleton, ← count]
    rw [hcount, List.range_succ, List.map_append, ← ih, Collector.add, List.map_append]
    show _ ++ [c.nextNumber] = _
    rw [h.nextNumber_eq]
    rfl
  | clear h ih => rfl

theorem sortGroups_byLine (c : Collector) :
    (sortGroups c.byLine).Pairwise fun g g' => g.1 < g'.1 := by
  have hdistinct : ((sortGroups c.byLine).map Prod.fst).Nodup :=
    (((sortGroups_perm _).map Prod.fst).nodup_iff).2 (nodup_keys_groupByLine _)
  exact ((pairwise_mergeSort_key Prod.fst c.byLine).and (List.pairwise_map.1 hdistinct)).imp
    fun h => Int.lt_iff_le_and_ne.2 h

theorem byCategory_perm (c : Collector) :
    (Category.all.flatMap c.byCategory).Perm c.diagnostics := by
  have hall : (c.diagnostics.filter fun d => Category.all.contains d.category) = c.diagnostics :=
    List.filter_eq_self.2 fun d _ => List.contains_iff_mem.2 (Category.mem_all d.category)
  have hperm := flatMap_filter_category_perm (by decide : Category.all.Nodup) c.diagnostics
  rw [hall] at hperm
  exact hperm

theorem Reached.ordered {c : Collector} (h : c.Reached) : c.Ordered where
  numbers := h.numbers_eq
  next := h.nextNumber_eq
  sorted := stablySorted_sortByLine _
  grouped := groupedByLine_groupByLine _
  ascending := ⟨sortGroups _, sortGroups_perm _, sortGroups_byLine _,
    (groupedByLine_groupByLine _).flatMap_sortGroups⟩
  category := fun category => ⟨List.filter_sublist, fun d => by simp [byCategory]⟩
  categories := byCategory_perm _

/-- What comes to a collector goes behind what it has, with the numbers that follow. -/
structure Appends (c : Collector) : Prop where
  added : ∀ f, (c.add f).diagnostics = c.diagnostics ++
    [{ line := f.line
       number := c.count + 1
       description := f.description
       category := f.category }]
  validated : ∀ config ids document, (PageLint.validate config ids document c).1.diagnostics =
    c.diagnostics ++ numberFrom (c.count + 1) (findingsOf config ids document Pass.all)
  cleared : c.clear.diagnostics = []

theorem Reached.appends {c : Collector} (h : c.Reached) : c.Appends where
  added := fun f => by rw [← h.nextNumber_eq]; rfl
  validated := fun config ids document => by
    rw [PageLint.validate, runPasses_collector, addAll_diagnostics, h.nextNumber_eq]
  cleared := rfl

/-- **A collector is in order at all times**: after any steps it holds what has been found since it
was cleared, in the order in which it came and numbered from one, and what comes next goes behind
it. The next number follows, and the views by line and by category show the diagnostics, sorted by
line without changing the order on a line, or in the order in which they came. -/
theorem after_ordered (steps : List Step) :
    (after steps).Ordered ∧ (after steps).Appends ∧
      (after steps).diagnostics = numberFrom 1 (foundBy steps) := by
  refine ⟨(after_reached steps).ordered, (after_reached steps).appends, ?_⟩
  rw [after_eq, addAll_diagnostics]
  rfl

end Collector

end PageLint
