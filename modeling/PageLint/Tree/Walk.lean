import PageLint.Tree.Node

/-!
# Walks

Two ways through a tree, both giving every node before the nodes under it and the children of a
node in order. `Node.preorder` recurses. `Node.walk` keeps a list of nodes still to visit and
visits a labelled node once only; on a tree without shared nodes the two agree.

`walkFrom` ends because the nodes still to visit get smaller together: a node is replaced by its
children.
-/

namespace PageLint

namespace Node

/-- A node and all nodes under it, by recursion. -/
def preorder (n : Node) : List Node :=
  n :: n.children.attach.flatMap fun c => c.val.preorder
termination_by sizeOf n
decreasing_by exact sizeOf_lt_of_mem_children c.property

theorem preorder_eq (n : Node) : n.preorder = n :: n.children.flatMap preorder := by
  rw [preorder, List.flatMap_subtype fun _ _ => rfl, List.unattach_attach]

theorem self_mem_preorder (n : Node) : n ∈ n.preorder := by
  rw [preorder_eq]
  exact List.mem_cons_self

theorem mem_preorder_of_mem_children {c n : Node} (h : c ∈ n.children) : c ∈ n.preorder := by
  rw [preorder_eq]
  exact List.mem_cons_of_mem _ (List.mem_flatMap.2 ⟨c, h, c.self_mem_preorder⟩)

end Node

/-- A node met on a walk, and whether it was met as the value of an assignment. -/
structure Visit where
  node : Node
  inChain : Bool := false
  deriving Inhabited

namespace Visit

/-- The visits to the nodes under a visited node. -/
def next (v : Visit) : List Visit :=
  v.node.children.map fun c => { node := c, inChain := v.node.isAssignment }

-- The zero of a sum is the one that the lemmas of the library on sums of numbers speak of.
attribute [local instance (high)] Zero.ofOfNat0

/-- How much is left to walk. -/
noncomputable def sizeLeft (pending : List Visit) : Nat :=
  (pending.map fun v => sizeOf v.node).sum

theorem sizeLeft_cons (v : Visit) (pending : List Visit) :
    sizeLeft (v :: pending) = sizeOf v.node + sizeLeft pending :=
  List.sum_cons

theorem sizeLeft_append (as bs : List Visit) : sizeLeft (as ++ bs) = sizeLeft as + sizeLeft bs := by
  rw [sizeLeft, List.map_append, List.sum_append_nat, ← sizeLeft, ← sizeLeft]

theorem sizeLeft_next_lt (v : Visit) : sizeLeft v.next < sizeOf v.node := by
  rw [sizeLeft, next, List.map_map]
  exact v.node.sum_sizeOf_children_lt

theorem sizeOf_pos (n : Node) : 0 < sizeOf n :=
  Nat.zero_lt_of_lt n.sum_sizeOf_children_lt

end Visit

/-- The visits of a walk with nodes still pending, where labelled nodes have been seen. -/
def walkFrom (seen : List Nat) (pending : List Visit) : List Visit :=
  match pending with
  | [] => []
  | v :: pending =>
    match v.node.label with
    | none => v :: walkFrom seen (v.next ++ pending)
    | some k =>
      if seen.contains k then walkFrom seen pending
      else v :: walkFrom (k :: seen) (v.next ++ pending)
termination_by Visit.sizeLeft pending
decreasing_by
  · have := v.sizeLeft_next_lt
    rw [Visit.sizeLeft_append, Visit.sizeLeft_cons]; omega
  · have := Visit.sizeOf_pos v.node
    rw [Visit.sizeLeft_cons]; omega
  · have := v.sizeLeft_next_lt
    rw [Visit.sizeLeft_append, Visit.sizeLeft_cons]; omega

/-- The visits to a node and all nodes under it, each labelled node once. -/
def Node.visits (n : Node) : List Visit := walkFrom [] [{ node := n }]

/-- The nodes of a walk. -/
def Node.walk (n : Node) : List Node := n.visits.map Visit.node

end PageLint
