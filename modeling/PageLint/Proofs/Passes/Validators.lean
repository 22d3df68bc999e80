import Mathlib.Logic.Function.Basic
import PageLint.Proofs.Passes.Collecting
import PageLint.Proofs.Passes.Walks

/-!
# Passes that are used again

A pass can be kept and run again. During a run it has a collector to report to, goes over the nodes
one by one and remembers those it has to pass over; what it remembers from a run before is
forgotten when a run starts. Nodes are told apart by their place in the preorder of the document.

Over a tree such a run reports what the pass finds, no matter what has been left behind.

* `Validator` — a pass with what it keeps
* `Validator.validate` — one run, node by node
* `Validator.validate_eq` — a run reports what the pass finds
-/

namespace PageLint

/-! ## Trees -/

/-- A document in which no node is reached along two paths, with tags at its top level and a tag as
its root. -/
structure Document.TreeShaped (d : Document) : Prop where
  distinct : d.toNode.Distinct
  children_tags : ∀ n ∈ d.children, n.isTag = true
  root_tag : ∀ n ∈ d.root, n.isTag = true

/-- Nodes side by side with their places in the preorder, the first of which is given. -/
def placedFrom (place : Nat) : List Node → List (Node × Nat)
  | [] => []
  | n :: ns => (n, place) :: placedFrom (place + n.preorder.length) ns

theorem placedFrom_append (place : Nat) (ns ms : List Node) : placedFrom place (ns ++ ms) =
    placedFrom place ns ++ placedFrom (place + (ns.flatMap Node.preorder).length) ms := by
  induction ns generalizing place with
  | nil => rfl
  | cons n ns ih =>
    rw [List.cons_append, placedFrom, placedFrom, ih, List.flatMap_cons, List.length_append,
      Nat.add_assoc]
    rfl

-- The zero of a sum is the one that the lemmas of the library on sums of numbers speak of.
attribute [local instance (high)] Zero.ofOfNat0

theorem sum_placedFrom (place : Nat) (ns : List Node) :
    ((placedFrom place ns).map fun p => sizeOf p.1).sum = (ns.map sizeOf).sum := by
  induction ns generalizing place with
  | nil => rfl
  | cons n ns ih =>
    rw [placedFrom, List.map_cons, List.map_cons, List.sum_cons, List.sum_cons, ih]

/-- The nodes of a walk with their places; a node at a place that has been visited is skipped. -/
def placedWalk (visited : List Nat) (pending : List (Node × Nat)) : List (Node × Nat) :=
  match pending with
  | [] => []
  | (n, place) :: pending =>
    if visited.contains place then placedWalk visited pending
    else
      (n, place) :: placedWalk (place :: visited) (placedFrom (place + 1) n.children ++ pending)
termination_by (pending.map fun p => sizeOf p.1).sum
decreasing_by
  · have := Visit.sizeOf_pos n
    simp only [List.map_cons, List.sum_cons]
    omega
  · have := n.sum_sizeOf_children_lt
    simp only [List.map_append, List.map_cons, List.sum_append_nat, List.sum_cons, sum_placedFrom]
    omega

/-- **A walk over a tree goes from place to place.** -/
theorem placedWalk_eq (visited : List Nat) (place : Nat) (ns : List Node)
    (h : ∀ p ∈ visited, p < place) :
    placedWalk visited (placedFrom place ns) = (ns.flatMap Node.preorder).zipIdx place := by
  induction hsize : (ns.map sizeOf).sum using Nat.strongRecOn generalizing visited place ns with
  | ind size ih =>
    cases ns with
    | nil =>
      rw [placedFrom, placedWalk]
      rfl
    | cons n ns =>
      have hfresh : visited.contains place = false := by
        rw [List.contains_eq_mem, decide_eq_false_iff_not]
        intro hmem
        exact Nat.lt_irrefl place (h place hmem)
      have hpending : placedFrom (place + 1) n.children ++
            placedFrom (place + n.preorder.length) ns =
          placedFrom (place + 1) (n.children ++ ns) := by
        rw [placedFrom_append, Node.preorder_eq, List.length_cons]
        congr 2
        omega
      have hsmaller : ((n.children ++ ns).map sizeOf).sum < size := by
        have := n.sum_sizeOf_children_lt
        rw [← hsize, List.map_append, List.map_cons, List.sum_append_nat, List.sum_cons]
        omega
      have hvisited : ∀ p ∈ place :: visited, p < place + 1 := by
        intro p hp
        rcases List.mem_cons.1 hp with rfl | hp
        · exact Nat.lt_succ_self p
        · exact Nat.lt_succ_of_lt (h p hp)
      rw [placedFrom, placedWalk, hfresh, if_neg Bool.false_ne_true, hpending,
        ih _ hsmaller _ _ _ hvisited rfl, List.flatMap_cons, Node.preorder_eq, List.cons_append,
        List.zipIdx_cons, List.flatMap_append]

/-! ## Runs -/

/-- What a pass looks for at each node, for the passes that look at one node at a time. -/
def Pass.rule? (ids : List String) : Pass → Option (Node → List Finding)
  | identifiers => some Rule.identifierRule
  | constants => some Rule.constantRule
  | functions => some Rule.functionRule
  | dataInput => some (Rule.dataInputRule ids)
  | dataOutput => some (Rule.dataOutputRule ids)
  | assignments | doctype | skeleton => none

/-- A pass that is kept: whether it is running, with a collector to report to, and the places of the
links of chains that it has checked. -/
structure Validator where
  pass : Pass
  running : Bool := false
  chained : List Nat := []
  deriving DecidableEq, Repr

namespace Validator

/-- Why a run breaks off. -/
inductive Fault where
  | idle (fault : Pass.IdleFault)
  | lack (lack : Node.Lack)
  deriving DecidableEq, Repr

/-- Hands findings to the collector of the run. -/
def report (v : Validator) (fs : List Finding) (c : Collector) : Except Fault Collector :=
  if v.running then .ok (c.addAll fs) else .error (.idle v.pass.idleFault)

/-- Checks a chain link by link and remembers the links. -/
def checkChain (v : Validator) (c : Collector) (place : Nat) :
    List Node → Except Fault (Validator × Collector)
  | [] => .ok (v, c)
  | link :: links =>
    match v.report (Rule.operatorFindings link) c with
    | .error fault => .error fault
    | .ok c => checkChain { v with chained := place :: v.chained } c (place + 1) links

/-- Visits the node at a place. -/
def visit (ids : List String) (v : Validator) (c : Collector) (n : Node) (place : Nat) :
    Except Fault (Validator × Collector) :=
  match v.pass.rule? ids with
  | some rule => (v.report (rule n) c).map fun c => (v, c)
  | none =>
    if v.chained.contains place then .ok (v, c)
    else
      match n.links with
      | [] => .ok (v, c)
      | [link] => (v.report (Rule.operatorFindings link) c).map fun c => (v, c)
      | links => v.checkChain c place links

/-- Visits nodes at their places, one after the other. -/
def visitAll (ids : List String) (v : Validator) (c : Collector) :
    List (Node × Nat) → Except Fault (Validator × Collector)
  | [] => .ok (v, c)
  | (n, place) :: rest =>
    match v.visit ids c n place with
    | .error fault => .error fault
    | .ok (v, c) => visitAll ids v c rest

/-- A run over a document. What the pass remembers is forgotten before and after it. -/
def validate (config : Config) (ids : List String) (document : Document) (v : Validator)
    (c : Collector) : Except Fault (Validator × Collector) :=
  match v.pass with
  | .doctype => .ok (v, c.addAll (Rule.doctypeFindings config document))
  | .skeleton =>
    match Rule.skeletonLack? document with
    | some lack => .error (.lack lack)
    | none => .ok (v, c.addAll (Rule.skeletonFindings document))
  | _ =>
    let started := { v with running := true, chained := [] }
    (started.visitAll ids c (placedWalk [] [(document.toNode, 0)])).map fun (v, c) =>
      ({ v with running := false, chained := [] }, c)

/-! ## Passes that look at one node at a time -/

theorem visitAll_append (ids : List String) (v : Validator) (c : Collector)
    (ps qs : List (Node × Nat)) : v.visitAll ids c (ps ++ qs) =
      (v.visitAll ids c ps).bind fun r => r.1.visitAll ids r.2 qs := by
  induction ps generalizing v c with
  | nil => rfl
  | cons p ps ih =>
    rw [List.cons_append, visitAll, visitAll]
    cases v.visit ids c p.1 p.2 with
    | error fault => rfl
    | ok r => exact ih r.1 r.2

theorem visitAll_rule {ids : List String} {v : Validator} (hv : v.running = true)
    {rule : Node → List Finding} (hrule : v.pass.rule? ids = some rule) (c : Collector)
    (ns : List Node) (place : Nat) :
    v.visitAll ids c (ns.zipIdx place) = .ok (v, c.addAll (ns.flatMap rule)) := by
  induction ns generalizing c place with
  | nil => rfl
  | cons n ns ih =>
    have hvisit : v.visit ids c n place = .ok (v, c.addAll (rule n)) := by
      rw [visit, hrule]
      simp only [report, hv, if_true]
      rfl
    rw [List.zipIdx_cons, visitAll, hvisit, List.flatMap_cons, Collector.addAll_append]
    exact ih _ _

/-! ## Assignments -/

/-- A pass over assignments that is running. -/
structure Checking (v : Validator) : Prop where
  pass : v.pass = .assignments
  running : v.running = true

/-- Over the nodes from a place on the pass reports findings, and remembers no place behind them. -/
def Reports (ids : List String) (v : Validator) (place : Nat) (ns : List Node)
    (fs : List Finding) : Prop :=
  ∀ c, ∃ v', v.visitAll ids c (ns.zipIdx place) = .ok (v', c.addAll fs) ∧ v'.Checking ∧
    ∀ p ∈ v'.chained, p < place + ns.length

section Assignments

variable {ids : List String} {v : Validator} {place : Nat}

theorem Reports.nil (hv : v.Checking) (hplace : ∀ p ∈ v.chained, p < place) :
    v.Reports ids place [] [] :=
  fun _ => ⟨v, rfl, hv, hplace⟩

theorem Reports.append {ns ms : List Node} {fs gs : List Finding} (h : v.Reports ids place ns fs)
    (h' : ∀ v' : Validator, v'.Checking → (∀ p ∈ v'.chained, p < place + ns.length) →
      v'.Reports ids (place + ns.length) ms gs) :
    v.Reports ids place (ns ++ ms) (fs ++ gs) := by
  intro c
  obtain ⟨mid, hmid, hchecking, hplace⟩ := h c
  obtain ⟨last, hlast, hchecking', hplace'⟩ := h' mid hchecking hplace (c.addAll fs)
  refine ⟨last, ?_, hchecking', ?_⟩
  · rw [List.zipIdx_append, visitAll_append, hmid, Collector.addAll_append]
    exact hlast
  · rwa [List.length_append, ← Nat.add_assoc]

/-- A first node after which the pass is in another state. -/
theorem Reports.cons {v' : Validator} {n : Node} {ns : List Node} {fs gs : List Finding}
    (hvisit : ∀ c, v.visit ids c n place = .ok (v', c.addAll fs))
    (h : v'.Reports ids (place + 1) ns gs) : v.Reports ids place (n :: ns) (fs ++ gs) := by
  intro c
  obtain ⟨last, hlast, hchecking, hplace⟩ := h (c.addAll fs)
  refine ⟨last, ?_, hchecking, ?_⟩
  · rw [List.zipIdx_cons, visitAll, hvisit, Collector.addAll_append]
    exact hlast
  · intro p hp
    have := hplace p hp
    rw [List.length_cons]
    omega

/-- A node that is no assignment is passed over, and so is a link that has been checked. -/
theorem visit_skip (hv : v.Checking) {n : Node} (h : n.links = [] ∨ place ∈ v.chained)
    (c : Collector) : v.visit ids c n place = .ok (v, c.addAll []) := by
  rw [visit, hv.pass]
  simp only [Pass.rule?]
  rcases h with h | h
  · rw [h]
    simp only [ite_self]
    rfl
  · rw [if_pos (List.contains_iff_mem.2 h)]
    rfl

theorem checkChain_eq (place : Nat) (hv : v.Checking) (c : Collector) (links : List Node) :
    ∃ v' : Validator,
    v.checkChain c place links = .ok (v', c.addAll (links.flatMap Rule.operatorFindings)) ∧
    v'.Checking ∧
    ∀ p, p ∈ v'.chained ↔ p ∈ v.chained ∨ place ≤ p ∧ p < place + links.length := by
  induction links generalizing v place c with
  | nil =>
    refine ⟨v, rfl, hv, fun p => ?_⟩
    grind
  | cons link links ih =>
    have hv' : Checking { v with chained := place :: v.chained } := ⟨hv.pass, hv.running⟩
    obtain ⟨v', hchain, hchecking, hplaces⟩ :=
      ih (place + 1) hv' (c.addAll (Rule.operatorFindings link))
    refine ⟨v', ?_, hchecking, fun p => ?_⟩
    · rw [checkChain, report, if_pos hv.running, List.flatMap_cons, Collector.addAll_append]
      exact hchain
    · rw [hplaces, List.mem_cons, List.length_cons]
      grind

/-- The outermost assignment of a chain is checked with all its links, whose places are remembered
when there are several. -/
theorem visit_outermost (ids : List String) (hv : v.Checking)
    (hplace : ∀ p ∈ v.chained, p < place) {n : Node} (hn : n.isAssignment = true) (c : Collector) :
    ∃ v' : Validator,
      v.visit ids c n place = .ok (v', c.addAll (n.links.flatMap Rule.operatorFindings)) ∧
      v'.Checking ∧ ∀ p, place < p → (p ∈ v'.chained ↔ p < place + n.links.length) := by
  have hnot : v.chained.contains place = false := by
    rw [List.contains_eq_mem, decide_eq_false_iff_not]
    exact fun hmem => Nat.lt_irrefl place (hplace place hmem)
  obtain ⟨inner, hinner⟩ := Node.links_eq_cons hn
  rw [visit, hv.pass, hinner]
  simp only [Pass.rule?, hnot, Bool.false_eq_true, if_false]
  cases inner with
  | nil =>
    refine ⟨v, ?_, hv, fun p hp => ?_⟩
    · simp [report, hv.running, Except.map]
    · have := hplace p
      simp only [List.length_cons, List.length_nil]
      constructor
      · intro hmem
        have := this hmem
        omega
      · omega
  | cons m ms =>
    obtain ⟨v', hchain, hchecking, hplaces⟩ := checkChain_eq place hv c (n :: m :: ms)
    refine ⟨v', hchain, hchecking, fun p hp => ?_⟩
    rw [hplaces]
    constructor
    · rintro (hmem | hmem)
      · have := hplace p hmem
        omega
      · exact hmem.2
    · intro hlt
      exact Or.inr ⟨Nat.le_of_lt hp, hlt⟩

/-- Nodes side by side that are each reported in full. -/
theorem reports_flatMap {ns : List Node}
    (hns : ∀ n ∈ ns, ∀ (v : Validator) (place : Nat), v.Checking →
      (∀ p ∈ v.chained, p < place) →
      v.Reports ids place n.preorder (n.preorder.flatMap Rule.operatorFindings))
    (hv : v.Checking) (hplace : ∀ p ∈ v.chained, p < place) :
    v.Reports ids place (ns.flatMap Node.preorder)
      ((ns.flatMap Node.preorder).flatMap Rule.operatorFindings) := by
  induction ns generalizing v place with
  | nil => exact Reports.nil hv hplace
  | cons n ns ih =>
    rw [List.flatMap_cons, List.flatMap_append]
    refine (hns n List.mem_cons_self v place hv hplace).append fun v' hv' hplace' => ?_
    exact ih (fun m hm => hns m (List.mem_cons_of_mem n hm)) hv' hplace'

/-- Under a node that is no assignment the pass reports what is found under its children. -/
theorem reports_of_children {n : Node} (hn : n.isAssignment = false)
    (hchildren : ∀ c ∈ n.children, ∀ (v : Validator) (place : Nat), v.Checking →
      (∀ p ∈ v.chained, p < place) →
      v.Reports ids place c.preorder (c.preorder.flatMap Rule.operatorFindings))
    (hv : v.Checking) (hplace : ∀ p ∈ v.chained, p < place) :
    v.Reports ids place n.preorder (n.preorder.flatMap Rule.operatorFindings) := by
  have hunder : v.Reports ids (place + 1) (n.children.flatMap Node.preorder)
      ((n.children.flatMap Node.preorder).flatMap Rule.operatorFindings) :=
    reports_flatMap hchildren hv fun p hp => Nat.lt_succ_of_lt (hplace p hp)
  rw [Node.preorder_eq, List.flatMap_cons, Node.operatorFindings_eq_nil hn]
  exact Reports.cons (visit_skip hv (Or.inl (Node.links_eq_nil hn))) hunder

/-- The value of an assignment whose chain has been checked. -/
theorem reports_value {n : Node} (hn : n.isAssignment = true)
    (hchildren : ∀ c ∈ n.children, ∀ (v : Validator) (place : Nat), v.Checking →
      (∀ p, place ≤ p → (p ∈ v.chained ↔ p < place + c.links.length)) →
      v.Reports ids place c.preorder ((Rule.behindLinks c).flatMap Rule.operatorFindings))
    (hv : v.Checking)
    (hplace : ∀ p, place < p → (p ∈ v.chained ↔ p < place + n.links.length)) :
    v.Reports ids (place + 1) (n.children.flatMap Node.preorder)
      ((Rule.behindLinks n).flatMap Rule.operatorFindings) := by
  cases n with
  | assignment s t o value =>
    cases value with
    | none =>
      have hbehind : Rule.behindLinks (.assignment s t o none) = [] := by
        simp [Rule.behindLinks, Node.links_assignment, Node.preorder_eq, Node.children]
      rw [hbehind]
      refine Reports.nil hv fun p hp => Nat.lt_of_not_le fun hle => ?_
      have := (hplace p hle).1 hp
      simp only [Node.links_assignment, Option.toList_none, List.flatMap_nil, List.length_cons,
        List.length_nil] at this
      omega
    | some value =>
      rw [Rule.behindLinks_assignment]
      have hlinks : (Node.assignment s t o (some value)).links.length = 1 + value.links.length := by
        simp [Node.links_assignment, Nat.add_comm]
      rw [hlinks] at hplace
      have hvalue := hchildren value (by simp [Node.children]) v (place + 1) hv fun p hp => by
        rw [hplace p hp, Nat.add_assoc]
      simpa [Node.children] using hvalue
  | _ => simp [Node.isAssignment, Node.kind] at hn

end Assignments

/-- **What a running pass over assignments reports at a node and under it.** A chain that is met at
its outermost assignment is checked as a whole; where that has happened, what comes behind its links
is left. -/
theorem reports_preorder (ids : List String) (n : Node) :
    (∀ (v : Validator) (place : Nat), v.Checking → (∀ p ∈ v.chained, p < place) →
      v.Reports ids place n.preorder (n.preorder.flatMap Rule.operatorFindings)) ∧
    ∀ (v : Validator) (place : Nat), v.Checking →
      (∀ p, place ≤ p → (p ∈ v.chained ↔ p < place + n.links.length)) →
      v.Reports ids place n.preorder ((Rule.behindLinks n).flatMap Rule.operatorFindings) := by
  -- The places that are remembered are those of the links, which come right behind the node.
  induction n using Node.inductionOnChildren with
  | step n ih =>
    by_cases hn : n.isAssignment = true
    · have hchildren := fun c hc => (ih c hc).2
      constructor
      · intro v place hv hplace c
        obtain ⟨v', hvisit, hv', hplace'⟩ := visit_outermost ids hv hplace hn c
        obtain ⟨last, hlast, hchecking, hbehind⟩ :=
          reports_value hn hchildren hv' hplace' (c.addAll (n.links.flatMap Rule.operatorFindings))
        refine ⟨last, ?_, hchecking, ?_⟩
        · rw [← Collector.addAll_append, ← List.flatMap_append, Rule.links_append_behindLinks]
            at hlast
          rw [Node.preorder_eq, List.zipIdx_cons, visitAll, hvisit, ← Node.preorder_eq]
          exact hlast
        · intro p hp
          have := hbehind p hp
          rw [Node.preorder_eq, List.length_cons]
          omega
      · intro v place hv hplace
        have hchecked : place ∈ v.chained := by
          obtain ⟨inner, hinner⟩ := Node.links_eq_cons hn
          refine (hplace place (Nat.le_refl place)).2 ?_
          rw [hinner, List.length_cons]
          omega
        rw [Node.preorder_eq]
        refine Reports.cons (visit_skip hv (Or.inr hchecked)) ?_
        exact reports_value hn hchildren hv fun p hp => hplace p (Nat.le_of_lt hp)
    · rw [Bool.not_eq_true] at hn
      have hchildren := fun c hc => (ih c hc).1
      constructor
      · intro v place hv hplace
        exact reports_of_children hn hchildren hv hplace
      · intro v place hv hplace
        rw [Rule.behindLinks_eq_preorder hn]
        refine reports_of_children hn hchildren hv fun p hp => Nat.lt_of_not_le fun hle => ?_
        have := (hplace p hle).1 hp
        rw [Node.links_eq_nil hn, List.length_nil] at this
        omega

/-! ## Whole runs -/

theorem placedWalk_root (n : Node) : placedWalk [] [(n, 0)] = n.preorder.zipIdx := by
  have := placedWalk_eq [] 0 [n] (by simp)
  rwa [List.flatMap_singleton] at this

end Validator

theorem Pass.run_of_rule? {ids : List String} {pass : Pass} {rule : Node → List Finding}
    (h : pass.rule? ids = some rule) (config : Config) (document : Document) :
    (pass.run config ids document).1 = document.toNode.walk.flatMap rule := by
  cases pass <;> first | simp [rule?] at h; done | (obtain rfl := Option.some.inj h; rfl)

/-- Nothing stands in the way of the pass over the skeleton when there are tags where they
belong. -/
theorem Document.TreeShaped.skeletonLack? {d : Document} (h : d.TreeShaped) :
    Rule.skeletonLack? d = none := by
  have hname : ∀ n : Node, n.isTag = true → n.nameLack? = none := by
    intro n hn
    cases n <;> first | rfl | simp [Node.isTag, Node.kind] at hn
  have hlack : ∀ n : Node, n.isTag = true → n.tagLack? "child_tags" = none := by
    intro n hn
    rw [Node.tagLack?, if_pos hn]
  rw [Rule.skeletonLack?, Rule.htmlLack?, Rule.htmlTag?]
  cases hroot : d.root with
  | some root => simp [hlack root (h.root_tag root hroot)]
  | none =>
    have hnames : (d.children.takeWhile fun n => !Rule.isHtml n).findSome? Node.nameLack? = none :=
      List.findSome?_eq_none_iff.2 fun n hn =>
        hname n (h.children_tags n ((List.takeWhile_sublist _).subset hn))
    simp only [hnames, Option.none_or]
    cases hfind : d.children.find? Rule.isHtml with
    | none => rfl
    | some n => exact hlack n (h.children_tags n (List.mem_of_find?_eq_some hfind))

namespace Validator

/-- A run of a pass that looks at one node at a time. -/
theorem validate_of_rule? {document : Document} (htree : document.TreeShaped) (config : Config)
    {ids : List String} {v : Validator} {rule : Node → List Finding}
    (hrule : v.pass.rule? ids = some rule) (c : Collector) :
    v.validate config ids document c =
      .ok ({ v with running := false, chained := [] },
        c.addAll (v.pass.run config ids document).1) := by
  obtain ⟨pass, running, chained⟩ := v
  have hwalk := visitAll_rule (v := { pass, running := true, chained := [] }) rfl hrule c
    document.toNode.preorder 0
  rw [Pass.run_of_rule? hrule, Node.walk_eq_preorder htree.distinct]
  cases pass <;> first
    | (simp [Pass.rule?] at hrule; done)
    | (rw [validate]; simp only [placedWalk_root, hwalk]; rfl)

/-- A run of the pass over assignments. -/
theorem validate_of_assignments {document : Document} (hdistinct : document.toNode.Distinct)
    (config : Config) (ids : List String) {v : Validator} (hv : v.pass = .assignments)
    (c : Collector) : ∃ v' : Validator,
      v.validate config ids document c = .ok (v', c.addAll (v.pass.run config ids document).1) ∧
      v'.pass = v.pass := by
  obtain ⟨pass, running, chained⟩ := v
  obtain rfl : pass = .assignments := hv
  have hstarted : Checking { pass := .assignments, running := true, chained := [] } := ⟨rfl, rfl⟩
  obtain ⟨v', hwalk, hchecking, -⟩ :=
    (reports_preorder ids document.toNode).1 _ 0 hstarted (by simp) c
  refine ⟨{ v' with running := false, chained := [] }, ?_, hchecking.pass⟩
  rw [validate]
  simp only [placedWalk_root, hwalk, Pass.run, Node.assignments_eq_flatMap hdistinct]
  rfl

/-- **A run reports what the pass finds**, whatever the runs before have left behind. -/
theorem validate_eq {document : Document} (htree : document.TreeShaped) (config : Config)
    (ids : List String) (v : Validator) (c : Collector) : ∃ v' : Validator,
      v.validate config ids document c = .ok (v', c.addAll (v.pass.run config ids document).1) ∧
      v'.pass = v.pass := by
  cases hrule : v.pass.rule? ids with
  | some rule => exact ⟨_, validate_of_rule? htree config hrule c, rfl⟩
  | none =>
    obtain ⟨pass, running, chained⟩ := v
    cases pass with
    | doctype => exact ⟨_, rfl, rfl⟩
    | skeleton =>
      refine ⟨_, ?_, rfl⟩
      rw [validate]
      simp only [htree.skeletonLack?]
      rfl
    | assignments => exact validate_of_assignments htree.distinct config ids rfl c
    | _ => simp [Pass.rule?] at hrule

end Validator

end PageLint
