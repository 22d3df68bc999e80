import Mathlib.Data.List.Basic
import PageLint.Rule.Assignment

/-!
# Walks over trees

In a tree no node is reached along two paths, so no two nodes on a walk carry the same label. A walk
then meets all nodes in preorder, and the links of a chain of assignments come one right after the
other: what is found at the assignments is what is wrong with each of them, in preorder.

* `Node.Distinct` — no two nodes under a node carry the same label
* `Node.visits_eq_preorder`, `Node.walk_eq_preorder` — a walk over a tree is its preorder
* `Node.assignments_eq_flatMap` — chains are checked link by link, as the links come in preorder
-/

namespace PageLint

/-! ## Labels -/

/-- The labels of the nodes of a list. -/
def labelsOf (ns : List Node) : List Nat := ns.filterMap Node.label

theorem labelsOf_append (ns ms : List Node) : labelsOf (ns ++ ms) = labelsOf ns ++ labelsOf ms :=
  List.filterMap_append

/-- No two of the nodes at and under a node carry the same label. -/
def Node.Distinct (n : Node) : Prop := (labelsOf n.preorder).Nodup

theorem Node.Distinct.children {n : Node} (h : n.Distinct) :
    (labelsOf (n.children.flatMap Node.preorder)).Nodup := by
  rw [Distinct, preorder_eq, ← List.singleton_append, labelsOf_append] at h
  exact (List.nodup_append.1 h).2.1

theorem Node.Distinct.child {n c : Node} (h : n.Distinct) (hc : c ∈ n.children) : c.Distinct := by
  obtain ⟨front, back, hsplit⟩ := List.append_of_mem hc
  have hchildren := h.children
  rw [hsplit, List.flatMap_append, List.flatMap_cons, labelsOf_append, labelsOf_append] at hchildren
  exact (List.nodup_append.1 (List.nodup_append.1 hchildren).2.1).1

/-! ## Visits by recursion -/

/-- Every node, when a node follows from its children. -/
theorem Node.inductionOnChildren {motive : Node → Prop}
    (step : ∀ n : Node, (∀ c ∈ n.children, motive c) → motive n) (n : Node) : motive n :=
  step n fun c hc =>
    have : sizeOf c < sizeOf n := Node.sizeOf_lt_of_mem_children hc
    Node.inductionOnChildren step c
termination_by sizeOf n

/-- A visit and the visits to all nodes under the visited one, by recursion. -/
def Visit.preorder (v : Visit) : List Visit :=
  v :: v.node.children.attach.flatMap fun c =>
    Visit.preorder { node := c.val, inChain := v.node.isAssignment }
termination_by sizeOf v.node
decreasing_by exact Node.sizeOf_lt_of_mem_children c.property

theorem Visit.preorder_eq (v : Visit) : v.preorder = v :: v.next.flatMap Visit.preorder := by
  rw [Visit.preorder, Visit.next, List.flatMap_map]
  congr 1
  rw [List.flatMap_subtype (g := fun c => Visit.preorder
    { node := c, inChain := v.node.isAssignment }) fun _ _ => rfl, List.unattach_attach]

/-- The nodes of the visits by recursion are those of the preorder. -/
theorem Visit.map_node_preorder (v : Visit) : v.preorder.map Visit.node = v.node.preorder := by
  obtain ⟨n, inChain⟩ := v
  induction n using Node.inductionOnChildren generalizing inChain with
  | step n ih =>
    rw [Visit.preorder_eq, Node.preorder_eq, Visit.next, List.flatMap_map, List.map_cons,
      List.map_flatMap]
    exact congrArg _ (List.flatMap_congr fun c hc => ih c hc _)

/-- The nodes at and under pending visits, in preorder. -/
def pendingNodes (pending : List Visit) : List Node := pending.flatMap fun v => v.node.preorder

theorem pendingNodes_cons (v : Visit) (pending : List Visit) :
    pendingNodes (v :: pending) = v.node :: pendingNodes (v.next ++ pending) := by
  rw [pendingNodes, List.flatMap_cons, Node.preorder_eq, pendingNodes, List.flatMap_append,
    Visit.next, List.flatMap_map]
  rfl

/-- **Where labels are distinct, a walk skips nothing.** -/
theorem walkFrom_eq_preorder (seen : List Nat) (pending : List Visit) :
    (labelsOf (pendingNodes pending)).Nodup → (∀ k ∈ labelsOf (pendingNodes pending), k ∉ seen) →
      walkFrom seen pending = pending.flatMap Visit.preorder := by
  have hspread : ∀ (v : Visit) (pending : List Visit), (v :: pending).flatMap Visit.preorder =
      v :: (v.next ++ pending).flatMap Visit.preorder := by
    intro v pending
    rw [List.flatMap_cons, Visit.preorder_eq, List.flatMap_append]
    rfl
  fun_induction walkFrom seen pending with
  | case1 seen => intro _ _; rfl
  | case2 seen v pending hlabel ih =>
    intro hnodup hseen
    have hsame : labelsOf (pendingNodes (v :: pending)) =
        labelsOf (pendingNodes (v.next ++ pending)) := by
      rw [pendingNodes_cons, labelsOf, List.filterMap_cons_none hlabel, labelsOf]
    rw [hsame] at hnodup hseen
    rw [hspread, ih hnodup hseen]
  | case3 seen v pending k hlabel hmem ih =>
    intro hnodup hseen
    have hk : k ∈ labelsOf (pendingNodes (v :: pending)) := by
      rw [pendingNodes_cons, labelsOf, List.filterMap_cons_some hlabel]
      exact List.mem_cons_self
    exact absurd (List.contains_iff_mem.1 hmem) (hseen k hk)
  | case4 seen v pending k hlabel hmem ih =>
    intro hnodup hseen
    have hcons : labelsOf (pendingNodes (v :: pending)) =
        k :: labelsOf (pendingNodes (v.next ++ pending)) := by
      rw [pendingNodes_cons, labelsOf, List.filterMap_cons_some hlabel, labelsOf]
    rw [hcons] at hnodup hseen
    obtain ⟨hk, hrest⟩ := List.nodup_cons.1 hnodup
    have hfresh : ∀ l ∈ labelsOf (pendingNodes (v.next ++ pending)), l ∉ k :: seen := by
      intro l hl hmem
      rcases List.mem_cons.1 hmem with rfl | hmem
      · exact hk hl
      · exact hseen l (List.mem_cons_of_mem k hl) hmem
    rw [hspread, ih hrest hfresh]

namespace Node

theorem visits_eq_preorder {n : Node} (h : n.Distinct) :
    n.visits = Visit.preorder { node := n } := by
  have hpending : pendingNodes [{ node := n }] = n.preorder := by
    rw [pendingNodes, List.flatMap_singleton]
  rw [visits, walkFrom_eq_preorder [] _ (by rwa [hpending]) (by simp), List.flatMap_singleton]

/-- **A walk over a tree is its preorder.** -/
theorem walk_eq_preorder {n : Node} (h : n.Distinct) : n.walk = n.preorder := by
  rw [walk, visits_eq_preorder h, Visit.map_node_preorder]

/-! ## Chains of assignments -/

theorem links_eq_nil {n : Node} (h : n.isAssignment = false) : n.links = [] := by
  cases n <;> first | (simp [isAssignment, kind] at h; done) | (rw [links] <;> simp)

theorem operatorFindings_eq_nil {n : Node} (h : n.isAssignment = false) :
    Rule.operatorFindings n = [] := by
  cases n <;> first | rfl | simp [isAssignment, kind] at h

theorem links_assignment (s : Site) (t : Identifier) (o : String) (value : Option Node) :
    (assignment s t o value).links = assignment s t o value :: value.toList.flatMap links := by
  cases value with
  | none =>
    rw [links]
    rfl
  | some v =>
    rw [links]
    simp

theorem links_eq_cons {n : Node} (h : n.isAssignment = true) : ∃ inner, n.links = n :: inner := by
  cases n with
  | assignment s t o value => exact ⟨_, links_assignment s t o value⟩
  | _ => simp [isAssignment, kind] at h

/-- The links of a chain stand in front of the preorder of its outermost assignment. -/
theorem links_prefix_preorder (n : Node) : n.links <+: n.preorder := by
  fun_induction links n with
  | case1 s t o v ih =>
    rw [preorder_eq]
    refine List.cons_prefix_cons.2 ⟨rfl, ?_⟩
    simpa [children] using ih
  | case2 s t o =>
    rw [preorder_eq]
    simp [children]
  | case3 => exact List.nil_prefix

end Node

namespace Rule

/-- Over these visits the pass over assignments finds something and remembers labels among those
given, whatever comes behind. -/
def Finds (chained : List Nat) (vs : List Visit) (fs : List Finding) (labels : List Nat) : Prop :=
  ∀ rest, ∃ chained', (∀ k ∈ chained', k ∈ chained ∨ k ∈ labels) ∧
    (assignmentsFrom chained (vs ++ rest)).1 = fs ++ (assignmentsFrom chained' rest).1

theorem Finds.nil (chained labels : List Nat) : Finds chained [] [] labels :=
  fun _ => ⟨chained, fun _ hk => Or.inl hk, rfl⟩

theorem Finds.append {chained labels labels' : List Nat} {vs vs' : List Visit}
    {fs fs' : List Finding} (h : Finds chained vs fs labels)
    (h' : ∀ chained', (∀ k ∈ chained', k ∈ chained ∨ k ∈ labels) → Finds chained' vs' fs' labels') :
    Finds chained (vs ++ vs') (fs ++ fs') (labels ++ labels') := by
  intro rest
  obtain ⟨mid, hmid, hfirst⟩ := h (vs' ++ rest)
  obtain ⟨last, hlast, hsecond⟩ := h' mid hmid rest
  refine ⟨last, fun k hk => ?_, ?_⟩
  · rw [List.mem_append]
    rcases hlast k hk with hk | hk
    · exact (hmid k hk).imp_right Or.inl
    · exact Or.inr (Or.inr hk)
  · rw [List.append_assoc, hfirst, hsecond, List.append_assoc]

/-- Nodes whose preorder is told, one after the other. -/
theorem finds_flatMap {ns : List Node} {inChain : Bool}
    (hns : ∀ n ∈ ns, ∀ chained, (∀ k ∈ labelsOf n.preorder, k ∉ chained) →
      Finds chained (Visit.preorder { node := n, inChain }) (n.preorder.flatMap operatorFindings)
        (labelsOf n.preorder))
    {chained : List Nat} (hnodup : (labelsOf (ns.flatMap Node.preorder)).Nodup)
    (hfresh : ∀ k ∈ labelsOf (ns.flatMap Node.preorder), k ∉ chained) :
    Finds chained (ns.flatMap fun n => Visit.preorder { node := n, inChain })
      ((ns.flatMap Node.preorder).flatMap operatorFindings)
      (labelsOf (ns.flatMap Node.preorder)) := by
  induction ns generalizing chained with
  | nil => exact Finds.nil chained _
  | cons n ns ih =>
    simp only [List.flatMap_cons, labelsOf_append, List.flatMap_append] at hnodup hfresh ⊢
    obtain ⟨-, hrest, hdisjoint⟩ := List.nodup_append.1 hnodup
    have hn : ∀ k ∈ labelsOf n.preorder, k ∉ chained :=
      fun k hk => hfresh k (List.mem_append_left _ hk)
    refine (hns n List.mem_cons_self chained hn).append fun chained' hsub => ?_
    refine ih (fun m hm => hns m (List.mem_cons_of_mem n hm)) hrest ?_
    intro k hk hmem
    rcases hsub k hmem with hmem | hmem
    · exact hfresh k (List.mem_append_right _ hk) hmem
    · exact hdisjoint k hmem k hk rfl

/-- What follows the links of a chain in preorder. -/
def behindLinks (n : Node) : List Node := n.preorder.drop n.links.length

theorem links_append_behindLinks (n : Node) : n.links ++ behindLinks n = n.preorder := by
  obtain ⟨back, hback⟩ := Node.links_prefix_preorder n
  rw [behindLinks, ← hback, List.drop_left]

theorem behindLinks_eq_preorder {n : Node} (h : n.isAssignment = false) :
    behindLinks n = n.preorder := by
  rw [behindLinks, Node.links_eq_nil h]
  rfl

theorem behindLinks_assignment (s : Site) (t : Identifier) (o : String) (value : Node) :
    behindLinks (.assignment s t o (some value)) = behindLinks value := by
  simp [behindLinks, Node.links_assignment, Node.preorder_eq (.assignment ..), Node.children]

/-- The outermost assignment of a chain is checked with all its links. -/
theorem assignmentsFrom_outermost {chained : List Nat} {n : Node} (hn : n.isAssignment = true)
    (hlabel : ∀ k ∈ n.label, k ∉ chained) : ∃ chained',
      (∀ k ∈ chained', k ∈ chained ∨ k ∈ labelsOf n.links) ∧ ∀ vs,
        (assignmentsFrom chained ({ node := n } :: vs)).1 =
          n.links.flatMap operatorFindings ++ (assignmentsFrom chained' vs).1 := by
  obtain ⟨inner, hinner⟩ := Node.links_eq_cons hn
  have hunchecked : isChecked chained { node := n } = false := by
    cases hk : n.label with
    | none => simp [isChecked, hk]
    | some k => simpa [isChecked, hk] using hlabel k hk
  by_cases hone : n.links.length = 1
  · refine ⟨chained, fun k hk => Or.inl hk, fun vs => ?_⟩
    have hself : n.links = [n] := by
      rw [hinner] at hone ⊢
      simpa using hone
    rw [assignmentsFrom]
    simp [hself, hunchecked]
  · refine ⟨labelsOf n.links ++ chained, fun k hk => (List.mem_append.1 hk).symm, fun vs => ?_⟩
    have hinner' : inner ≠ [] := by
      rintro rfl
      exact hone (by rw [hinner]; rfl)
    rw [assignmentsFrom]
    simp [hinner, hunchecked, hinner', labelsOf]

/-- A node that has been checked is passed over, and so is one that is no assignment. -/
theorem assignmentsFrom_skip {chained : List Nat} {v : Visit}
    (h : v.node.isAssignment = false ∨ v.inChain = true) (vs : List Visit) :
    assignmentsFrom chained (v :: vs) = assignmentsFrom chained vs := by
  rw [assignmentsFrom]
  rcases h with h | h
  · simp [Node.links_eq_nil h]
  · simp [isChecked, h]

theorem Finds.skip {chained labels : List Nat} {v : Visit} {vs : List Visit} {fs : List Finding}
    (h : v.node.isAssignment = false ∨ v.inChain = true) (hvs : Finds chained vs fs labels) :
    Finds chained (v :: vs) fs labels := by
  intro rest
  rw [List.cons_append, assignmentsFrom_skip h]
  exact hvs rest

theorem Finds.mono {chained labels labels' : List Nat} {vs : List Visit} {fs : List Finding}
    (h : Finds chained vs fs labels) (hsub : ∀ k ∈ labels, k ∈ labels') :
    Finds chained vs fs labels' := by
  intro rest
  obtain ⟨chained', hk, heq⟩ := h rest
  exact ⟨chained', fun k hmem => (hk k hmem).imp_right (hsub k), heq⟩

/-- A node that is no assignment adds nothing to what is found under it. -/
theorem finds_of_children {n : Node} (hn : n.isAssignment = false) (hdistinct : n.Distinct)
    (hchildren : ∀ c ∈ n.children, ∀ chained, (∀ k ∈ labelsOf c.preorder, k ∉ chained) →
      Finds chained (Visit.preorder { node := c }) (c.preorder.flatMap operatorFindings)
        (labelsOf c.preorder))
    {chained : List Nat} (hfresh : ∀ k ∈ labelsOf n.preorder, k ∉ chained) (inChain : Bool) :
    Finds chained (Visit.preorder { node := n, inChain }) (n.preorder.flatMap operatorFindings)
      (labelsOf n.preorder) := by
  have hsub : ∀ k ∈ labelsOf (n.children.flatMap Node.preorder), k ∈ labelsOf n.preorder := by
    intro k hk
    rw [Node.preorder_eq, ← List.singleton_append, labelsOf_append]
    exact List.mem_append_right _ hk
  have hunder := finds_flatMap hchildren hdistinct.children fun k hk => hfresh k (hsub k hk)
  have hfs : n.preorder.flatMap operatorFindings =
      (n.children.flatMap Node.preorder).flatMap operatorFindings := by
    rw [Node.preorder_eq, List.flatMap_cons, Node.operatorFindings_eq_nil hn, List.nil_append]
  rw [Visit.preorder_eq, Visit.next, List.flatMap_map, hn, hfs]
  exact (hunder.mono hsub).skip (Or.inl hn)

/-- The value of an assignment is met as a link that has been told, or as no link at all. -/
theorem finds_value {n : Node} (hn : n.isAssignment = true)
    (hchildren : ∀ c ∈ n.children, ∀ chained, (∀ k ∈ labelsOf (behindLinks c), k ∉ chained) →
      Finds chained (Visit.preorder { node := c, inChain := true })
        ((behindLinks c).flatMap operatorFindings) (labelsOf c.preorder))
    (chained : List Nat) (hfresh : ∀ k ∈ labelsOf (behindLinks n), k ∉ chained) :
    Finds chained (Visit.next { node := n } |>.flatMap Visit.preorder)
      ((behindLinks n).flatMap operatorFindings) (labelsOf n.preorder) := by
  cases n with
  | assignment s t o value =>
    cases value with
    | none =>
      simpa [behindLinks, Node.preorder_eq, Node.links_assignment, Visit.next, Node.children]
        using Finds.nil chained _
    | some v =>
      have hsub : ∀ k ∈ labelsOf v.preorder,
          k ∈ labelsOf (Node.assignment s t o (some v)).preorder := by
        intro k hk
        rw [Node.preorder_eq, ← List.singleton_append, labelsOf_append]
        exact List.mem_append_right _ (by simpa [Node.children] using hk)
      rw [behindLinks_assignment] at hfresh ⊢
      have hv := hchildren v (by simp [Node.children]) chained hfresh
      simpa [Visit.next, Node.children, hn] using hv.mono hsub
  | _ => simp [Node.isAssignment, Node.kind] at hn

/-- A chain is told as a whole at its outermost assignment. -/
theorem finds_outermost {n : Node} (hn : n.isAssignment = true) (hdistinct : n.Distinct)
    (hvalue : ∀ chained, (∀ k ∈ labelsOf (behindLinks n), k ∉ chained) →
      Finds chained (Visit.next { node := n } |>.flatMap Visit.preorder)
        ((behindLinks n).flatMap operatorFindings) (labelsOf n.preorder))
    {chained : List Nat} (hfresh : ∀ k ∈ labelsOf n.preorder, k ∉ chained) :
    Finds chained (Visit.preorder { node := n }) (n.preorder.flatMap operatorFindings)
      (labelsOf n.preorder) := by
  intro rest
  have hsplit : labelsOf n.preorder = labelsOf n.links ++ labelsOf (behindLinks n) := by
    rw [← labelsOf_append, links_append_behindLinks]
  have hlabel : ∀ k ∈ n.label, k ∉ chained := by
    intro k hk
    refine hfresh k ?_
    rw [Node.preorder_eq, labelsOf, List.filterMap_cons_some hk]
    exact List.mem_cons_self
  obtain ⟨mid, hmid, hhead⟩ := assignmentsFrom_outermost hn hlabel
  have hbehind : ∀ k ∈ labelsOf (behindLinks n), k ∉ mid := by
    intro k hk hmem
    rcases hmid k hmem with hmem | hmem
    · exact hfresh k (hsplit ▸ List.mem_append_right _ hk) hmem
    · rw [Node.Distinct, hsplit] at hdistinct
      exact (List.nodup_append.1 hdistinct).2.2 k hmem k hk rfl
  obtain ⟨last, hlast, hrest⟩ := hvalue mid hbehind rest
  refine ⟨last, fun k hk => ?_, ?_⟩
  · rcases hlast k hk with hk | hk
    · exact (hmid k hk).imp_right fun hk => hsplit ▸ List.mem_append_left _ hk
    · exact Or.inr hk
  · rw [Visit.preorder_eq, List.cons_append, hhead, hrest, ← List.append_assoc,
      ← List.flatMap_append, links_append_behindLinks]

/-- **What the pass finds at a node and under it.** A chain that is met at its outermost assignment
is told as a whole; where the assignment around it has told it, what comes behind its links is
left. -/
theorem finds_preorder (n : Node) : n.Distinct →
    (∀ chained, (∀ k ∈ labelsOf n.preorder, k ∉ chained) →
      Finds chained (Visit.preorder { node := n }) (n.preorder.flatMap operatorFindings)
        (labelsOf n.preorder)) ∧
    ∀ chained, (∀ k ∈ labelsOf (behindLinks n), k ∉ chained) →
      Finds chained (Visit.preorder { node := n, inChain := true })
        ((behindLinks n).flatMap operatorFindings) (labelsOf n.preorder) := by
  -- Both together: the value of an assignment is met inside a chain, its other nodes are not.
  induction n using Node.inductionOnChildren with
  | step n ih =>
    intro hdistinct
    by_cases hn : n.isAssignment = true
    · have hvalue := finds_value hn fun c hc => (ih c hc (hdistinct.child hc)).2
      constructor
      · intro chained hfresh
        exact finds_outermost hn hdistinct hvalue hfresh
      · intro chained hfresh
        rw [Visit.preorder_eq]
        exact (hvalue chained hfresh).skip (Or.inr rfl)
    · rw [Bool.not_eq_true] at hn
      have hchildren : ∀ c ∈ n.children, ∀ chained, (∀ k ∈ labelsOf c.preorder, k ∉ chained) →
          Finds chained (Visit.preorder { node := c }) (c.preorder.flatMap operatorFindings)
            (labelsOf c.preorder) :=
        fun c hc => (ih c hc (hdistinct.child hc)).1
      rw [behindLinks_eq_preorder hn]
      constructor
      · intro chained hfresh
        exact finds_of_children hn hdistinct hchildren hfresh false
      · intro chained hfresh
        exact finds_of_children hn hdistinct hchildren hfresh true

end Rule

/-- **Assignments are checked one by one**: over a tree, what the pass finds is what is wrong with
the operator of each assignment, in preorder. -/
theorem Node.assignments_eq_flatMap {n : Node} (h : n.Distinct) :
    (Rule.assignmentsFrom [] n.visits).1 = n.preorder.flatMap Rule.operatorFindings := by
  obtain ⟨chained, -, hfound⟩ := (Rule.finds_preorder n h).1 [] (by simp) []
  rw [List.append_nil, ← visits_eq_preorder h] at hfound
  rw [hfound, Rule.assignmentsFrom, List.append_nil]

end PageLint
