import PageLint.Proofs.Passes.Validators

/-!
# Passes do not depend on each other

Passes share a collector and may be run in any order and again and again. Each of them still reports
what it reports on its own: to an empty collector, used for the first time.

* `runValidators` — passes that are kept, run in an order
* `PassesIndependent` — what they leave in the collector
* `runValidators_independent` — they are independent over every tree
-/

namespace PageLint

/-- Runs validators in an order; one that comes up again is used as it was left. -/
def runValidators (config : Config) (ids : List String) (document : Document) :
    List Nat → (Nat → Validator) → Collector →
      Except Validator.Fault ((Nat → Validator) × Collector)
  | [], validators, c => .ok (validators, c)
  | i :: order, validators, c =>
    match (validators i).validate config ids document c with
    | .error fault => .error fault
    | .ok (v, c) => runValidators config ids document order (Function.update validators i v) c

/-- What a pass reports that is used for the first time, alone and with an empty collector. -/
def Pass.reportAlone (config : Config) (ids : List String) (document : Document) (pass : Pass) :
    Except Validator.Fault (List Diagnostic) :=
  (Validator.validate config ids document { pass } {}).map fun r => r.2.diagnostics

/-- What validators run in an order leave in a collector, told by what each pass reports alone. -/
structure PassesIndependent (config : Config) (ids : List String) (document : Document)
    (order : List Nat) (validators : Nat → Validator) (c : Collector)
    (reports : Pass → List Diagnostic) : Prop where
  /-- Every pass has a report of its own. -/
  alone : ∀ pass : Pass, pass.reportAlone config ids document = .ok (reports pass)
  /-- What was there stays, and the reports follow in order, with consecutive numbers. -/
  collected : ∃ validators' last, runValidators config ids document order validators c =
      .ok (validators', last) ∧
    last.diagnostics = c.diagnostics ++ numberFrom (c.count + 1)
      (order.flatMap fun i => (reports (validators i).pass).map Diagnostic.finding)
  /-- Passes that are not kept leave the same. -/
  unkept :
    (runPasses config ids document (order.map fun i => (validators i).pass) c).1.diagnostics =
    c.diagnostics ++ numberFrom (c.count + 1)
      (order.flatMap fun i => (reports (validators i).pass).map Diagnostic.finding)
  /-- A pass that looks at one node at a time reports what it finds at each, in preorder. -/
  node_by_node : ∀ (pass : Pass) rule, pass.rule? ids = some rule →
    reports pass = numberFrom 1 (document.toNode.preorder.flatMap rule)

theorem runValidators_eq {document : Document} (htree : document.TreeShaped) (config : Config)
    (ids : List String) (order : List Nat) (validators : Nat → Validator) (c : Collector) :
    ∃ validators', runValidators config ids document order validators c =
      .ok (validators',
        c.addAll (findingsOf config ids document (order.map fun i => (validators i).pass))) := by
  induction order generalizing validators c with
  | nil => exact ⟨validators, rfl⟩
  | cons i order ih =>
    obtain ⟨v, hrun, hpass⟩ := (validators i).validate_eq htree config ids c
    obtain ⟨validators', hrest⟩ := ih (Function.update validators i v)
      (c.addAll ((validators i).pass.run config ids document).1)
    -- The validator that has run is still the same pass.
    have hsame : ∀ j, (Function.update validators i v j).pass = (validators j).pass := by
      intro j
      by_cases hj : j = i
      · rw [hj, Function.update_self, hpass]
      · rw [Function.update_of_ne hj]
    refine ⟨validators', ?_⟩
    rw [runValidators, hrun, List.map_cons, findingsOf, List.flatMap_cons,
      Collector.addAll_append, ← findingsOf]
    simp only [hsame] at hrest
    exact hrest

/-- **Passes do not depend on each other.** Over a tree, whatever the collector holds and whatever
the validators remember, each run adds what the pass reports alone. -/
theorem runValidators_independent {document : Document} (htree : document.TreeShaped)
    (config : Config) (ids : List String) (order : List Nat) (validators : Nat → Validator)
    {c : Collector} (hc : c.Reached) : ∃ reports,
      PassesIndependent config ids document order validators c reports := by
  let reports (pass : Pass) : List Diagnostic := numberFrom 1 (pass.run config ids document).1
  have hfindings : (order.flatMap fun i => (reports (validators i).pass).map Diagnostic.finding) =
      findingsOf config ids document (order.map fun i => (validators i).pass) := by
    simp only [reports, map_finding_numberFrom, findingsOf, List.flatMap_map]
  refine ⟨reports, ?_, ?_, ?_, ?_⟩
  · intro pass
    obtain ⟨v, hrun, -⟩ := Validator.validate_eq htree config ids { pass } {}
    rw [Pass.reportAlone, hrun]
    simp only [Except.map, Collector.addAll_diagnostics, List.nil_append]
    rfl
  · obtain ⟨validators', hrun⟩ := runValidators_eq htree config ids order validators c
    refine ⟨validators', _, hrun, ?_⟩
    rw [Collector.addAll_diagnostics, hc.nextNumber_eq, hfindings]
  · rw [runPasses_collector, Collector.addAll_diagnostics, hc.nextNumber_eq, hfindings]
  · intro pass rule hrule
    show numberFrom 1 _ = _
    rw [Pass.run_of_rule? hrule, Node.walk_eq_preorder htree.distinct]

/-- A page with a chain of assignments, the second of which has an operator that is not allowed. -/
def chainedPage : Document :=
  let site : Site := { location := { line := 2, column := 1 } }
  let name (s : String) : Identifier := { site, name := s }
  { site
    children :=
      [.tag { site with label := some 0 } "body" []
        [.script site
          [.assignment site (name "a") "=" (some (.assignment site (name "b") "**="
            (some (.identifier (name "1")))))]]
        false false] }

/-- The pass over assignments is run twice around the pass over the skeleton, with places that it
remembers from another document and something in the collector. -/
theorem chainedPage_independent : chainedPage.TreeShaped ∧
    (Collector.add {} { line := 1, description := "noted before" }).Reached ∧
    ∃ reports, PassesIndependent {} [] chainedPage [0, 1, 0]
      (fun i => if i = 0 then { pass := .assignments, chained := [3, 4] } else { pass := .skeleton })
      (Collector.add {} { line := 1, description := "noted before" }) reports := by
  have htree : chainedPage.TreeShaped := by
    refine ⟨?_, ?_, ?_⟩
    · have hlabels : labelsOf chainedPage.toNode.preorder = [0] := by
        simp [Document.toNode, chainedPage, Node.preorder_eq, Node.children, labelsOf, Node.label,
          Node.site, List.filterMap_cons]
      rw [Node.Distinct, hlabels]
      decide
    · simp [chainedPage, Node.isTag, Node.kind]
    · simp [chainedPage]
  have hc : (Collector.add {} { line := 1, description := "noted before" }).Reached :=
    .add .empty _
  exact ⟨htree, hc, runValidators_independent htree {} [] [0, 1, 0] _ hc⟩

end PageLint
