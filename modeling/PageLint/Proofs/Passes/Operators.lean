import PageLint.Proofs.Passes.Validators

/-!
# Each link of a chain once

A chain of assignments is checked when its outermost assignment is met, and its links are remembered
and passed over when the walk comes to them. Looking at every node of the page by itself, without
chains and without remembering anything, gives the same reports: no link is lost and none is
reported twice, wherever in the page chains stand and whatever stands between their links.

* `Node.Misassigns` — an assignment whose operator is not allowed
* `Document.misassignments` — the reports of a check that knows no chains
* `misassignments_reported` — the pass over assignments gives these reports
-/

namespace PageLint

/-! ## The plain check -/

/-- An assignment whose operator is not allowed. -/
def Node.Misassigns : Node → Prop
  | .assignment _ _ operator _ => operator ∉ Rule.allowedOperators
  | _ => False

instance : DecidablePred Node.Misassigns := fun n =>
  match n with
  | .assignment _ _ operator _ => inferInstanceAs (Decidable (operator ∉ Rule.allowedOperators))
  | .document .. | .tag .. | .attr .. | .text .. | .script .. | .varDecl .. | .constDecl .. |
    .function .. | .call .. | .identifier .. | .expression .. | .plain .. => .isFalse id

/-- The operator of an assignment. -/
def Node.assignmentOperator : Node → String
  | .assignment _ _ operator _ => operator
  | _ => ""

/-- The report of an assignment whose operator is not allowed. -/
def Node.misassignment (n : Node) : Finding :=
  { line := n.line
    description := "Invalid assignment operator: " ++ n.assignmentOperator
    category := .assignment }

/-- The reports of a check that looks at each node of a page by itself, in preorder. -/
def Document.misassignments (d : Document) : List Finding :=
  (d.toNode.preorder.filter Node.Misassigns).map Node.misassignment

/-- At a single node the pass finds what the plain check reports. -/
theorem Rule.operatorFindings_eq (n : Node) :
    operatorFindings n = if n.Misassigns then [n.misassignment] else [] := by
  cases n with
  | assignment site target operator value =>
    by_cases h : operator ∈ allowedOperators
    · simp [operatorFindings, Node.Misassigns, h]
    · simp only [operatorFindings, Node.Misassigns, List.contains_eq_mem, decide_eq_true_eq, h,
        if_false, not_false_eq_true, if_true]
      rfl
  | _ => rfl

theorem Rule.flatMap_operatorFindings (ns : List Node) :
    ns.flatMap operatorFindings = (ns.filter Node.Misassigns).map Node.misassignment := by
  induction ns with
  | nil => rfl
  | cons n ns ih =>
    rw [List.flatMap_cons, ih, operatorFindings_eq]
    by_cases h : n.Misassigns
    · rw [if_pos h, List.filter_cons_of_pos (by simpa using h), List.map_cons]
      rfl
    · rw [if_neg h, List.filter_cons_of_neg (by simpa using h), List.nil_append]

/-! ## The pass -/

/-- **Every assignment whose operator is not allowed is reported once**, in preorder and at its
line, in a page whose nodes are each reached along one path. A pass that is kept reports the same
to the collector it gets, whatever it remembers. -/
theorem misassignments_reported {d : Document} (h : d.toNode.Distinct) (config : Config)
    (ids : List String) :
    (Pass.run config ids d .assignments).1 = d.misassignments ∧
    ∀ (v : Validator) (c : Collector), v.pass = .assignments →
      ∃ v' c', v.validate config ids d c = .ok (v', c') ∧ v'.pass = .assignments ∧
        c'.diagnostics = c.diagnostics ++ numberFrom c.nextNumber d.misassignments := by
  have hrun : (Pass.run config ids d .assignments).1 = d.misassignments := by
    rw [Pass.run, Node.assignments_eq_flatMap h, Rule.flatMap_operatorFindings]
    rfl
  refine ⟨hrun, fun v c hv => ?_⟩
  obtain ⟨v', hvalidate, hpass⟩ := Validator.validate_of_assignments h config ids hv c
  refine ⟨v', _, hvalidate, hpass.trans hv, ?_⟩
  rw [Collector.addAll_diagnostics, hv, hrun]

/-- A page with a function that holds a chain on three lines, whose first and last operators are not
allowed; the links of the chain are shared nodes. -/
def misassignedPage : Document :=
  let site (line : Int) (label : Option Nat) : Site := { location := { line, column := 1 }, label }
  let name (s : String) : Identifier := { site := site 9 none, name := s }
  { site := site 1 none
    children :=
      [.tag (site 1 none) "body" []
        [.script (site 2 none) [.function (site 3 none) "f" []
          [.assignment (site 4 (some 0)) (name "a") "^=" (some (.assignment (site 5 (some 1))
            (name "b") "=" (some (.assignment (site 6 (some 2)) (name "c") "|="
              (some (.identifier (name "1")))))))]]]
        false false] }

theorem misassignedPage_reported : misassignedPage.toNode.Distinct ∧
    (Pass.run {} [] misassignedPage .assignments).1 =
      [⟨4, "Invalid assignment operator: ^=", .assignment⟩,
        ⟨6, "Invalid assignment operator: |=", .assignment⟩] ∧
    ∃ v' c', Validator.validate {} [] misassignedPage
        { pass := .assignments, chained := [5, 6] } {} = .ok (v', c') ∧ v'.pass = .assignments ∧
      c'.diagnostics = [⟨4, 1, "Invalid assignment operator: ^=", .assignment⟩,
        ⟨6, 2, "Invalid assignment operator: |=", .assignment⟩] := by
  have hdistinct : misassignedPage.toNode.Distinct := by
    have hlabels : labelsOf misassignedPage.toNode.preorder = [0, 1, 2] := by
      simp [Document.toNode, misassignedPage, Node.preorder_eq, Node.children, labelsOf, Node.label,
        Node.site, List.filterMap_cons]
    rw [Node.Distinct, hlabels]
    decide
  have hreports : misassignedPage.misassignments =
      [⟨4, "Invalid assignment operator: ^=", .assignment⟩,
        ⟨6, "Invalid assignment operator: |=", .assignment⟩] := by
    rw [Document.misassignments, ← Rule.flatMap_operatorFindings]
    simp [Document.toNode, misassignedPage, Node.preorder_eq, Node.children, Rule.operatorFindings,
      Rule.allowedOperators]
  obtain ⟨hrun, hkept⟩ := misassignments_reported hdistinct {} []
  rw [hreports] at hrun hkept
  exact ⟨hdistinct, hrun, hkept { pass := .assignments, chained := [5, 6] } {} rfl⟩

/-- An assignment in two places of a page is reported once, at the first. -/
example :
    let shared : Node := .assignment { location := { line := 1, column := 1 }, label := some 0 }
      { site := { location := { line := 1, column := 1 } }, name := "a" } "^=" none
    let page : Document :=
      { site := { location := { line := 1, column := 1 } }
        children := [.script { location := { line := 1, column := 1 } } [shared, shared]] }
    (Pass.run {} [] page .assignments).1.length = 1 := by
  decide +kernel

end PageLint
