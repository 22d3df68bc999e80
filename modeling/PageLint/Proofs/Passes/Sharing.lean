import PageLint.Proofs.Passes.Walks

/-!
# Walks over shared nodes

A tree whose nodes are shared is the unfolding of a graph: a shared node stands in it once for each
path that leads to it. Which node of the graph stands at a place is told by the nearest label above
and the way from there, its `Identity`. Recursion meets a shared node again on every path; the walk
with a list of pending nodes meets the same nodes in the same order, but each of them once.

The walk tells nodes apart by their labels alone. What carries the proof is `Ready`: when siblings
are pending, whatever stands under them and has been met before was met with everything under it,
and those of them without a label are new.

* `Node.Coherent` — a label names one node
* `Occurrence.preorder` — the nodes met by recursion, each with its identity
* `Node.Coherent.faithful` — equal identities are equal nodes
* `Occurrence.walks` — one pending node, with everything under it
* `Node.walk_eq_eraseDupsBy`, `Node.walk_meets_once` — a walk is the recursion without what was met
  before
-/

namespace PageLint

/-- A label names one node: nodes with the same label are equal, with all nodes under them. -/
def Node.Coherent (n : Node) : Prop :=
  ∀ a ∈ n.preorder, ∀ b ∈ n.preorder, ∀ k, a.label = some k → b.label = some k → a = b

/-! ## Identities -/

/-- Which node stands at a place of a tree: the nearest label at or above the place, and the way
back up to it, as places among the children. Without such a label the way leads to the top. -/
structure Identity where
  anchor : Option Nat
  way : List Nat
  deriving DecidableEq, Repr

/-- A node met in a tree, with its identity. -/
@[ext]
structure Occurrence where
  identity : Identity
  node : Node
  labelled : ∀ k, node.label = some k ↔ identity = ⟨some k, []⟩

namespace Occurrence

/-- The node at the top of a tree. -/
def top (n : Node) : Occurrence where
  identity := ⟨n.label, []⟩
  node := n
  labelled k := by simp

/-- A node met as a child of a met node. -/
def child (o : Occurrence) (i : Nat) (c : Node) : Occurrence where
  identity := if c.label.isSome then ⟨c.label, []⟩ else ⟨o.identity.anchor, i :: o.identity.way⟩
  node := c
  labelled k := by cases h : c.label <;> simp

theorem identity_child_of_some {o : Occurrence} {i k : Nat} {c : Node}
    (h : (o.child i c).node.label = some k) : (o.child i c).identity = ⟨some k, []⟩ :=
  ((o.child i c).labelled k).1 h

theorem identity_child_of_none {o : Occurrence} {i : Nat} {c : Node}
    (h : (o.child i c).node.label = none) :
    (o.child i c).identity = ⟨o.identity.anchor, i :: o.identity.way⟩ :=
  if_neg (by simpa [child] using h)

/-- A way that is not empty ends at the child, and starts where the way of the node above does. -/
theorem identity_child_eq {o : Occurrence} {i j : Nat} {c : Node} {a : Option Nat} {w : List Nat}
    (h : (o.child i c).identity = ⟨a, j :: w⟩) : i = j ∧ o.identity = ⟨a, w⟩ := by
  cases hc : (o.child i c).node.label with
  | some k => simp [identity_child_of_some hc] at h
  | none =>
    rw [identity_child_of_none hc] at h
    cases h
    exact ⟨rfl, rfl⟩

/-- The nodes met directly under a met node. -/
def next (o : Occurrence) : List Occurrence := o.node.children.mapIdx o.child

theorem getElem_next (o : Occurrence) {i : Nat} (h : i < o.next.length) :
    o.next[i] = o.child i (o.node.children.get ⟨i, by simpa [next] using h⟩) :=
  List.getElem_mapIdx

theorem mem_next {o p : Occurrence} :
    p ∈ o.next ↔ ∃ i c, o.node.children[i]? = some c ∧ o.child i c = p := by
  simp [next, List.mem_iff_getElem?]

theorem map_node_next (o : Occurrence) : o.next.map node = o.node.children := by
  refine List.ext_getElem (by simp [next]) fun i h h' => ?_
  simp [next, child]

theorem sizeOf_lt_of_mem_next {o p : Occurrence} (h : p ∈ o.next) :
    sizeOf p.node < sizeOf o.node := by
  have hp : p.node ∈ o.next.map node := List.mem_map_of_mem h
  rw [map_node_next] at hp
  exact Node.sizeOf_lt_of_mem_children hp

theorem identity_of_mem_next {o p : Occurrence} (h : p ∈ o.next) {a : Option Nat} {i : Nat}
    {w : List Nat} (hp : p.identity = ⟨a, i :: w⟩) : o.identity = ⟨a, w⟩ := by
  obtain ⟨j, c, -, rfl⟩ := mem_next.1 h
  exact (identity_child_eq hp).2

/-- A met node and all nodes met under it, by recursion. -/
def preorder (o : Occurrence) : List Occurrence :=
  o :: o.next.attach.flatMap fun p => p.val.preorder
termination_by sizeOf o.node
decreasing_by exact sizeOf_lt_of_mem_next p.property

theorem preorder_eq (o : Occurrence) : o.preorder = o :: o.next.flatMap preorder := by
  rw [preorder, List.flatMap_subtype fun _ _ => rfl, List.unattach_attach]

/-- Every met node, when a met node follows from those met under it. -/
theorem inductionOnNext {motive : Occurrence → Prop}
    (step : ∀ o : Occurrence, (∀ p ∈ o.next, motive p) → motive o) (o : Occurrence) : motive o :=
  step o fun p hp =>
    have : sizeOf p.node < sizeOf o.node := sizeOf_lt_of_mem_next hp
    inductionOnNext step p
termination_by sizeOf o.node

/-- The nodes met by recursion are those of the preorder. -/
theorem map_node_preorder (o : Occurrence) : o.preorder.map node = o.node.preorder := by
  induction o using inductionOnNext with
  | step o ih =>
    rw [preorder_eq, Node.preorder_eq, ← map_node_next, List.map_cons, List.map_flatMap,
      List.flatMap_map]
    exact congrArg _ (List.flatMap_congr ih)

theorem self_mem_preorder (o : Occurrence) : o ∈ o.preorder := by
  rw [preorder_eq]
  exact List.mem_cons_self

theorem mem_preorder_of_next {o p e : Occurrence} (hp : p ∈ o.next) (he : e ∈ p.preorder) :
    e ∈ o.preorder := by
  rw [preorder_eq]
  exact List.mem_cons_of_mem _ (List.mem_flatMap_of_mem hp he)

/-- What holds of a met node and passes from each node to those directly under it holds of all. -/
theorem forall_preorder {P : Occurrence → Prop} (step : ∀ o p, p ∈ o.next → P o → P p)
    {o : Occurrence} (ho : P o) : ∀ e ∈ o.preorder, P e := by
  induction o using inductionOnNext with
  | step o ih =>
    intro e he
    rw [preorder_eq, List.mem_cons, List.mem_flatMap] at he
    rcases he with rfl | ⟨p, hp, he⟩
    · exact ho
    · exact ih p hp (step o p hp ho) e he

theorem preorder_subset {o p : Occurrence} (hp : p ∈ o.preorder) : p.preorder ⊆ o.preorder := by
  induction o using inductionOnNext with
  | step o ih =>
    intro e he
    rw [preorder_eq, List.mem_cons, List.mem_flatMap] at hp
    rcases hp with rfl | ⟨q, hq, hp⟩
    · exact he
    · exact mem_preorder_of_next hq (ih q hq hp he)

theorem next_subset_preorder (o : Occurrence) : o.next ⊆ o.preorder :=
  fun p hp => mem_preorder_of_next hp p.self_mem_preorder

/-- A node met under another is met as the child of one. -/
theorem exists_parent {o e : Occurrence} (he : e ∈ o.preorder) :
    e = o ∨ ∃ p ∈ o.preorder, e ∈ p.next := by
  have hall : ∀ e ∈ o.preorder, e ∈ o.preorder ∧ (e = o ∨ ∃ p ∈ o.preorder, e ∈ p.next) :=
    forall_preorder (fun p q hq hp => ⟨preorder_subset hp.1 (p.next_subset_preorder hq),
      Or.inr ⟨p, hp.1, hq⟩⟩) ⟨o.self_mem_preorder, Or.inl rfl⟩
  exact (hall e he).2

theorem sizeOf_le_of_mem_preorder {o e : Occurrence} (he : e ∈ o.preorder) :
    sizeOf e.node ≤ sizeOf o.node :=
  forall_preorder (P := fun e => sizeOf e.node ≤ sizeOf o.node)
    (fun _ _ hp ho => Nat.le_trans (Nat.le_of_lt (sizeOf_lt_of_mem_next hp)) ho) (Nat.le_refl _)
    e he

/-- No node stands under itself. -/
theorem ne_of_mem_preorder_next {o p e : Occurrence} (hp : p ∈ o.next) (he : e ∈ p.preorder) :
    e ≠ o := by
  rintro rfl
  exact Nat.not_lt_of_ge (sizeOf_le_of_mem_preorder he) (sizeOf_lt_of_mem_next hp)

end Occurrence

/-! ## Equal identities -/

/-- The node at the end of a way that leads back up to a node. -/
def Node.below? (n : Node) : List Nat → Option Node
  | [] => some n
  | i :: w => (n.below? w).bind (·.children[i]?)

/-- Among met nodes the identity tells which node it is. -/
def Faithful (os : List Occurrence) : Prop :=
  ∀ d ∈ os, ∀ e ∈ os, d.identity = e.identity → d = e

theorem Faithful.subset {os os' : List Occurrence} (h : Faithful os) (hsub : os' ⊆ os) :
    Faithful os' :=
  fun d hd e he => h d (hsub hd) e (hsub he)

/-- A met node is found again from the node that its identity starts at. -/
theorem Occurrence.exists_anchor {n : Node} {e : Occurrence} (he : e ∈ (top n).preorder) :
    ∃ a ∈ n.preorder, a.label = e.identity.anchor ∧ (e.identity.anchor = none → a = n) ∧
      a.below? e.identity.way = some e.node := by
  have hall : ∀ e ∈ (top n).preorder, e ∈ (top n).preorder ∧
      ∃ a ∈ n.preorder, a.label = e.identity.anchor ∧ (e.identity.anchor = none → a = n) ∧
        a.below? e.identity.way = some e.node := by
    refine forall_preorder ?_ ⟨self_mem_preorder _, n, n.self_mem_preorder, rfl, fun _ => rfl, rfl⟩
    rintro p q hq ⟨hp, a, ha, hlabel, hnone, hway⟩
    have hmem : q ∈ (top n).preorder := preorder_subset hp (p.next_subset_preorder hq)
    have hnode : q.node ∈ n.preorder := by
      rw [← show (top n).node = n from rfl, ← map_node_preorder]
      exact List.mem_map_of_mem hmem
    refine ⟨hmem, ?_⟩
    obtain ⟨i, c, hi, rfl⟩ := mem_next.1 hq
    -- A label starts a new way, from the child itself; otherwise the way gets one step longer.
    cases hc : (p.child i c).node.label with
    | some k =>
      rw [identity_child_of_some hc]
      exact ⟨c, hnode, hc, by simp, rfl⟩
    | none =>
      rw [identity_child_of_none hc]
      refine ⟨a, ha, hlabel, hnone, ?_⟩
      rw [Node.below?, hway, Option.bind_some, hi]
      rfl
  exact (hall e he).2

/-- **Where a label names one node, an identity does.** -/
theorem Node.Coherent.faithful {n : Node} (h : n.Coherent) :
    Faithful (Occurrence.top n).preorder := by
  intro d hd e he heq
  obtain ⟨a, ha, hlabel, hnone, hway⟩ := Occurrence.exists_anchor hd
  obtain ⟨b, hb, hlabel', hnone', hway'⟩ := Occurrence.exists_anchor he
  rw [heq] at hlabel hnone hway
  have hab : a = b := by
    cases hanchor : e.identity.anchor with
    | none => rw [hnone hanchor, hnone' hanchor]
    | some k => exact h a ha b hb k (hlabel.trans hanchor) (hlabel'.trans hanchor)
  rw [hab, hway'] at hway
  exact Occurrence.ext heq (Option.some.inj hway).symm

/-! ## Removing what was met before -/

/-- Whether two met nodes are the same node. -/
def Occurrence.same (o p : Occurrence) : Bool := o.identity == p.identity

/-- The met nodes that are new, each the first time only, when some have been met already. -/
def unmet (ids : List Identity) (os : List Occurrence) : List Occurrence :=
  (os.filter fun o => o.identity ∉ ids).eraseDupsBy Occurrence.same

theorem unmet_nil_left (os : List Occurrence) : unmet [] os = os.eraseDupsBy Occurrence.same := by
  simp [unmet]

theorem unmet_cons_of_mem {ids : List Identity} {o : Occurrence} (h : o.identity ∈ ids)
    (os : List Occurrence) : unmet ids (o :: os) = unmet ids os := by
  simp [unmet, h]

theorem unmet_cons_of_not_mem {ids : List Identity} {o : Occurrence} (h : o.identity ∉ ids)
    (os : List Occurrence) : unmet ids (o :: os) = o :: unmet (ids ++ [o.identity]) os := by
  rw [unmet, List.filter_cons_of_pos (by simpa using h), List.eraseDupsBy_cons, List.filter_filter]
  congr 2
  refine List.filter_congr fun p _ => ?_
  simp [Occurrence.same, and_comm]

theorem unmet_congr {ids ids' : List Identity} (h : ∀ i, i ∈ ids ↔ i ∈ ids')
    (os : List Occurrence) : unmet ids os = unmet ids' os := by
  simp only [unmet, h]

theorem unmet_append (ids : List Identity) (os os' : List Occurrence) :
    unmet ids (os ++ os') =
      unmet ids os ++ unmet (ids ++ os.map Occurrence.identity) os' := by
  induction os generalizing ids with
  | nil => simp [unmet]
  | cons o os ih =>
    by_cases h : o.identity ∈ ids
    · have hids : ∀ i, i ∈ ids ++ os.map Occurrence.identity ↔
          i ∈ ids ++ (o :: os).map Occurrence.identity := by
        grind
      rw [List.cons_append, unmet_cons_of_mem h, unmet_cons_of_mem h, ih, unmet_congr hids]
    · rw [List.cons_append, unmet_cons_of_not_mem h, unmet_cons_of_not_mem h, ih, List.cons_append]
      simp

theorem unmet_eq_nil {ids : List Identity} {os : List Occurrence}
    (h : ∀ o ∈ os, o.identity ∈ ids) : unmet ids os = [] := by
  rw [unmet, List.filter_eq_nil_iff.2 (by simpa using h)]
  rfl

/-! ## Pending siblings -/

/-- The labels that a walk has seen are those of the nodes met. -/
def Marks (seen : List Nat) (ids : List Identity) : Prop :=
  ∀ k, k ∈ seen ↔ (⟨some k, []⟩ : Identity) ∈ ids

theorem Marks.congr {seen : List Nat} {ids ids' : List Identity} (h : Marks seen ids)
    (hids : ∀ i, i ∈ ids ↔ i ∈ ids') : Marks seen ids' :=
  fun k => (h k).trans (hids _)

/-- Siblings that a walk can go on with when some nodes have been met. -/
structure Ready (ids : List Identity) (os : List Occurrence) : Prop where
  /-- What has been met was met with everything under it. -/
  settled : ∀ o ∈ os, ∀ d ∈ o.preorder, d.identity ∈ ids → ∀ e ∈ d.preorder, e.identity ∈ ids
  /-- No node is met before the one above it. -/
  rooted : ∀ a i w, ⟨a, i :: w⟩ ∈ ids ++ os.map Occurrence.identity → ⟨a, w⟩ ∈ ids
  /-- A sibling without a label is new, -/
  fresh : ∀ o ∈ os, o.node.label = none → o.identity ∉ ids
  /-- and does not stand under a sibling before it. -/
  apart : os.Pairwise fun o p => p.node.label = none → ∀ e ∈ o.preorder, e.identity ≠ p.identity

namespace Ready

variable {ids : List Identity} {o : Occurrence} {os : List Occurrence}

theorem head (h : Ready ids (o :: os)) : Ready ids [o] where
  settled p hp := h.settled p (List.mem_cons.2 (Or.inl (List.mem_singleton.1 hp)))
  rooted a i w hmem := h.rooted a i w (by
    rw [List.map_cons, List.mem_append] at hmem ⊢
    exact hmem.imp_right fun h => List.mem_cons.2 (Or.inl (List.mem_singleton.1 h)))
  fresh p hp := h.fresh p (List.mem_cons.2 (Or.inl (List.mem_singleton.1 hp)))
  apart := List.pairwise_singleton ..

/-- Once a sibling has been met with everything under it, the others are ready. -/
theorem tail (h : Ready ids (o :: os))
    (hfaithful : Faithful ((o :: os).flatMap Occurrence.preorder)) :
    Ready (ids ++ o.preorder.map Occurrence.identity) os where
  settled p hp d hd hmem e he := by
    rw [List.mem_append] at hmem ⊢
    rcases hmem with hmem | hmem
    · exact Or.inl (h.settled p (List.mem_cons_of_mem _ hp) d hd hmem e he)
    · obtain ⟨d', hd', heq⟩ := List.mem_map.1 hmem
      have hsame : d' = d := hfaithful d' (List.mem_flatMap_of_mem List.mem_cons_self hd') d
        (List.mem_flatMap_of_mem (List.mem_cons_of_mem _ hp) hd) heq
      exact Or.inr (List.mem_map_of_mem (Occurrence.preorder_subset (hsame ▸ hd') he))
  rooted a i w hmem := by
    have hhere := h.rooted a i w
    simp only [List.map_cons, List.mem_append, List.mem_cons, List.mem_map] at hmem hhere ⊢
    rcases hmem with (hmem | ⟨e, he, heq⟩) | hmem
    · exact Or.inl (hhere (Or.inl hmem))
    · rcases Occurrence.exists_parent he with rfl | ⟨p, hp, hep⟩
      · exact Or.inl (hhere (Or.inr (Or.inl heq.symm)))
      · exact Or.inr ⟨p, hp, Occurrence.identity_of_mem_next hep heq⟩
    · exact Or.inl (hhere (Or.inr (Or.inr hmem)))
  fresh p hp hnone hmem := by
    rcases List.mem_append.1 hmem with hmem | hmem
    · exact h.fresh p (List.mem_cons_of_mem _ hp) hnone hmem
    · obtain ⟨e, he, heq⟩ := List.mem_map.1 hmem
      exact (List.pairwise_cons.1 h.apart).1 p hp hnone e he heq
  apart := (List.pairwise_cons.1 h.apart).2

/-- When a new node is met, its children are ready. -/
theorem next (h : Ready ids [o]) (hnew : o.identity ∉ ids) (hfaithful : Faithful o.preorder) :
    Ready (ids ++ [o.identity]) o.next where
  settled p hp d hd hmem e he := by
    rw [List.mem_append, List.mem_singleton] at hmem ⊢
    rcases hmem with hmem | hmem
    · exact Or.inl (h.settled o List.mem_cons_self d (Occurrence.mem_preorder_of_next hp hd) hmem
        e he)
    · have hsame := hfaithful d (Occurrence.mem_preorder_of_next hp hd) o o.self_mem_preorder hmem
      exact absurd hsame (Occurrence.ne_of_mem_preorder_next hp hd)
  rooted a i w hmem := by
    simp only [List.mem_append, List.mem_singleton, List.mem_map] at hmem ⊢
    rcases hmem with (hmem | hmem) | ⟨p, hp, heq⟩
    · exact Or.inl (h.rooted a i w (List.mem_append_left _ hmem))
    · exact Or.inl (h.rooted a i w (by simp [hmem]))
    · exact Or.inr (Occurrence.identity_of_mem_next hp heq).symm
  fresh p hp hnone hmem := by
    obtain ⟨i, c, -, rfl⟩ := Occurrence.mem_next.1 hp
    rw [Occurrence.identity_child_of_none hnone, List.mem_append, List.mem_singleton] at hmem
    rcases hmem with hmem | hmem
    · exact hnew (h.rooted _ i _ (List.mem_append_left _ hmem))
    · exact List.cons_ne_self _ _ (congrArg Identity.way hmem)
  apart := by
    refine List.pairwise_iff_getElem.2 fun i j hi hj hij hnone e he heq => ?_
    have hp : o.next[i] ∈ o.next := List.getElem_mem hi
    rw [Occurrence.getElem_next] at hnone heq
    rw [Occurrence.identity_child_of_none hnone] at heq
    rcases Occurrence.exists_parent he with rfl | ⟨q, hq, heq'⟩
    · -- Two children of one node stand at different places.
      rw [Occurrence.getElem_next] at heq
      exact Nat.ne_of_lt hij (Occurrence.identity_child_eq heq).1
    · -- The node above would be the met one, under its own child.
      have hsame := hfaithful q (Occurrence.mem_preorder_of_next hp hq) o o.self_mem_preorder
        (Occurrence.identity_of_mem_next heq' heq)
      exact Occurrence.ne_of_mem_preorder_next hp hq hsame

end Ready

/-! ## The walk over pending siblings -/

/-- Over these visits a walk meets what is new among the met nodes, and goes on with whatever comes
behind. -/
def Walks (seen : List Nat) (ids : List Identity) (vs : List Visit) (os : List Occurrence) : Prop :=
  ∃ seen', Marks seen' (ids ++ os.map Occurrence.identity) ∧
    ∀ rest, (walkFrom seen (vs ++ rest)).map Visit.node =
      (unmet ids os).map Occurrence.node ++ (walkFrom seen' rest).map Visit.node

theorem Walks.nil {seen : List Nat} {ids : List Identity} (h : Marks seen ids) :
    Walks seen ids [] [] :=
  ⟨seen, by simpa using h, fun rest => by simp [unmet]⟩

theorem Walks.append {seen : List Nat} {ids : List Identity} {vs vs' : List Visit}
    {os os' : List Occurrence} (h : Walks seen ids vs os)
    (h' : ∀ seen', Marks seen' (ids ++ os.map Occurrence.identity) →
      Walks seen' (ids ++ os.map Occurrence.identity) vs' os') :
    Walks seen ids (vs ++ vs') (os ++ os') := by
  obtain ⟨mid, hmid, hfirst⟩ := h
  obtain ⟨last, hlast, hsecond⟩ := h' mid hmid
  refine ⟨last, ?_, fun rest => ?_⟩
  · rwa [List.map_append, ← List.append_assoc]
  · rw [List.append_assoc, hfirst, hsecond, unmet_append, List.map_append, List.append_assoc]

/-- A node that has been met is passed over, with everything under it. -/
theorem Walks.skip {seen : List Nat} {ids : List Identity} {v : Visit} {os : List Occurrence}
    {k : Nat} (hmarks : Marks seen ids) (hlabel : v.node.label = some k) (hk : k ∈ seen)
    (hos : ∀ e ∈ os, e.identity ∈ ids) : Walks seen ids [v] os := by
  refine ⟨seen, hmarks.congr fun i => ?_, fun rest => ?_⟩
  · simp only [List.mem_append, List.mem_map]
    grind
  · rw [List.singleton_append, walkFrom, hlabel, unmet_eq_nil hos]
    simp [hk]

/-- A new node is met, and the walk goes on with its children. -/
theorem Walks.meet {seen : List Nat} {ids : List Identity} {v : Visit} {o : Occurrence}
    {os : List Occurrence} (hmarks : Marks seen ids) (hv : v.node = o.node)
    (hnew : o.identity ∉ ids)
    (hnext : ∀ seen', Marks seen' (ids ++ [o.identity]) →
      Walks seen' (ids ++ [o.identity]) v.next os) : Walks seen ids [v] (o :: os) := by
  have hcase : ∃ seen', Marks seen' (ids ++ [o.identity]) ∧
      ∀ rest, walkFrom seen (v :: rest) = v :: walkFrom seen' (v.next ++ rest) := by
    cases hlabel : o.node.label with
    | none =>
      refine ⟨seen, fun k => ?_, fun rest => ?_⟩
      · have hne : o.identity ≠ ⟨some k, []⟩ := fun h => by
          simp [(o.labelled k).2 h] at hlabel
        simp [hmarks k, hne.symm]
      · rw [walkFrom, hv, hlabel]
    | some k =>
      have hid : o.identity = ⟨some k, []⟩ := (o.labelled k).1 hlabel
      have hk : k ∉ seen := fun h => hnew (hid ▸ (hmarks k).1 h)
      refine ⟨k :: seen, fun l => ?_, fun rest => ?_⟩
      · simp [hmarks l, hid, or_comm]
      · rw [walkFrom, hv, hlabel]
        simp [hk]
  obtain ⟨mid, hmid, hstep⟩ := hcase
  obtain ⟨last, hlast, hrest⟩ := hnext mid hmid
  refine ⟨last, by simpa using hlast, fun rest => ?_⟩
  rw [List.singleton_append, hstep, List.map_cons, hrest, unmet_cons_of_not_mem hnew,
    List.map_cons, List.cons_append, hv]

theorem Occurrence.walks_siblings {os : List Occurrence}
    (hone : ∀ o ∈ os, Faithful o.preorder → ∀ (v : Visit) (seen : List Nat) (ids : List Identity),
      v.node = o.node → Marks seen ids → Ready ids [o] → Walks seen ids [v] o.preorder)
    (hfaithful : Faithful (os.flatMap preorder)) {vs : List Visit} {seen : List Nat}
    {ids : List Identity} (hvs : vs.map Visit.node = os.map node) (hmarks : Marks seen ids)
    (hready : Ready ids os) : Walks seen ids vs (os.flatMap preorder) := by
  induction os generalizing vs seen ids with
  | nil =>
    rw [List.map_eq_nil_iff.1 hvs]
    exact Walks.nil hmarks
  | cons o os ih =>
    obtain ⟨v, vs, rfl, hv, hvs⟩ := List.map_eq_cons_iff.1 hvs
    rw [List.flatMap_cons, ← List.singleton_append]
    refine (hone o List.mem_cons_self ?_ v seen ids hv hmarks hready.head).append
      fun seen' hmarks' => ?_
    · exact hfaithful.subset (List.subset_append_left ..)
    · exact ih (fun p hp => hone p (List.mem_cons_of_mem _ hp))
        (hfaithful.subset (List.subset_append_right ..)) hvs hmarks' (hready.tail hfaithful)

/-- **One pending node**: a walk meets what is new at and under it. -/
theorem Occurrence.walks (o : Occurrence) (hfaithful : Faithful o.preorder) :
    ∀ (v : Visit) (seen : List Nat) (ids : List Identity), v.node = o.node → Marks seen ids →
      Ready ids [o] → Walks seen ids [v] o.preorder := by
  induction o using inductionOnNext with
  | step o ih =>
    intro v seen ids hv hmarks hready
    by_cases hmet : o.identity ∈ ids
    · have hlabel : ∃ k, o.node.label = some k := by
        cases hlabel : o.node.label with
        | none => exact absurd hmet (hready.fresh o List.mem_cons_self hlabel)
        | some k => exact ⟨k, rfl⟩
      obtain ⟨k, hlabel⟩ := hlabel
      have hk : k ∈ seen := (hmarks k).2 ((o.labelled k).1 hlabel ▸ hmet)
      exact Walks.skip hmarks (hv ▸ hlabel) hk
        (hready.settled o List.mem_cons_self o o.self_mem_preorder hmet)
    · rw [preorder_eq]
      refine Walks.meet hmarks hv hmet fun seen' hmarks' => ?_
      have hbelow : Faithful (o.next.flatMap preorder) := by
        rw [preorder_eq] at hfaithful
        exact hfaithful.subset (List.subset_cons_self ..)
      have hvs : v.next.map Visit.node = o.next.map node := by
        rw [map_node_next, Visit.next, List.map_map, hv]
        exact List.map_id _
      exact walks_siblings ih hbelow hvs hmarks' (hready.next hmet hfaithful)

/-- **A walk is the recursion without what was met before.** -/
theorem Node.walk_eq_eraseDupsBy {n : Node} (h : n.Coherent) :
    n.walk = ((Occurrence.top n).preorder.eraseDupsBy Occurrence.same).map Occurrence.node := by
  have hready : Ready [] [Occurrence.top n] :=
    { settled := by simp
      rooted := by simp [Occurrence.top]
      fresh := by simp
      apart := List.pairwise_singleton .. }
  obtain ⟨seen', -, hwalk⟩ := Occurrence.walks (Occurrence.top n) h.faithful { node := n } [] []
    rfl (by simp [Marks]) hready
  have hall := hwalk []
  rw [unmet_nil_left, List.append_nil, walkFrom, List.map_nil, List.append_nil] at hall
  exact hall

/-- **Every node is met once, where the recursion first meets it.** A walk is what the recursion
meets, without the nodes that it has met before; over a tree it is all that the recursion meets. -/
theorem Node.walk_meets_once (n : Node) (h : n.Coherent) :
    (Occurrence.top n).preorder.map Occurrence.node = n.preorder ∧
      n.walk = ((Occurrence.top n).preorder.eraseDupsBy Occurrence.same).map Occurrence.node ∧
      (n.Distinct → n.walk = n.preorder) :=
  ⟨Occurrence.map_node_preorder _, walk_eq_eraseDupsBy h, walk_eq_preorder⟩

/-- A paragraph that stands in several places. -/
def sharedParagraph : Node :=
  .tag { location := .unknown, label := some 1 } "p" [] [.text { location := .unknown } "x"]
    false false

/-- A division around the paragraph. -/
def sharingDivision : Node :=
  .tag { location := .unknown } "div" [] [sharedParagraph, .text { location := .unknown } "y"]
    false false

/-- A page with the paragraph before, inside and after the division. -/
def sharingPage : Node :=
  .document { location := .unknown } [sharedParagraph, sharingDivision, sharedParagraph] none none

theorem sharingPage_meets_once : sharingPage.Coherent ∧ ¬ sharingPage.Distinct ∧
    sharingPage.walk = ((Occurrence.top sharingPage).preorder.eraseDupsBy Occurrence.same).map
      Occurrence.node := by
  have hpreorder : sharingPage.preorder =
      let x := Node.text { location := .unknown } "x"
      let y := Node.text { location := .unknown } "y"
      [sharingPage, sharedParagraph, x, sharingDivision, sharedParagraph, x, y,
        sharedParagraph, x] := by
    simp [Node.preorder_eq, sharingPage, sharingDivision, sharedParagraph, Node.children]
  have hcoherent : sharingPage.Coherent := by
    intro a ha b hb k hka hkb
    have honly : ∀ c ∈ sharingPage.preorder, c.label = some k → c = sharedParagraph := by
      rw [hpreorder]
      simp [Node.label, Node.site, sharingPage, sharingDivision]
    rw [honly a ha hka, honly b hb hkb]
  refine ⟨hcoherent, ?_, (Node.walk_meets_once sharingPage hcoherent).2.1⟩
  rw [Node.Distinct, hpreorder]
  decide

end PageLint
