import Mathlib.Data.List.Flatten
import PageLint.Proofs.Grammar.Sites

/-!
# Statements of a tree

The statements of a document are the nodes that stand directly in its scripts and functions. They
are listed in preorder, and where the offsets of the tokens go up, so do those of the statements:
each of them starts with a token of its own.

* `Node.statements` — the statements of a tree, in preorder
* `Node.statements_sublist` — they come in the order of a walk
* `harvestOf_statements` — the offsets of the statements of a script go up
* `Page.Shows.statements` — the statements of a document are those of its scripts
-/

namespace PageLint

/-- Whether the nodes directly under a node are statements. -/
def Node.holdsStatements (n : Node) : Bool := n.kind == .script || n.kind == .function

/-- The statements of the scripts and functions of a tree, in preorder. -/
def Node.statements (n : Node) : List Node :=
  n.children.attach.flatMap fun c =>
    (if n.holdsStatements then [c.val] else []) ++ c.val.statements
termination_by sizeOf n
decreasing_by exact Node.sizeOf_lt_of_mem_children c.property

namespace Node

theorem statements_eq (n : Node) : n.statements =
    n.children.flatMap fun c => (if n.holdsStatements then [c] else []) ++ c.statements := by
  have hunattach := List.flatMap_subtype (l := n.children.attach)
    (f := fun c => (if n.holdsStatements then [c.val] else []) ++ c.val.statements)
    (g := fun c => (if n.holdsStatements then [c] else []) ++ c.statements) fun _ _ => rfl
  rw [statements, hunattach, List.unattach_attach]

/-- Under a node that holds no statements there are those of its children. -/
theorem statements_of_other {n : Node} (h : n.holdsStatements = false) :
    n.statements = n.children.flatMap statements := by
  simp only [statements_eq n, h, Bool.false_eq_true, if_false, List.nil_append]

/-- In a script or function, each statement is followed by those inside it. -/
theorem statements_of_holds {n : Node} (h : n.holdsStatements = true) :
    n.statements = n.children.flatMap fun c => c :: c.statements := by
  simp only [statements_eq n, h, if_true, List.singleton_append]

/-- **Statements come in the order of a walk.** -/
theorem statements_sublist (n : Node) : n.statements.Sublist (n.children.flatMap preorder) := by
  induction n using Node.inductionOnChildren with
  | step n ih =>
    rw [statements_eq]
    refine List.Sublist.flatMap_right _ fun c hc => ?_
    rw [preorder_eq]
    split
    · exact (ih c hc).cons_cons c
    · exact (ih c hc).cons c

end Node

/-! ## Statements of code -/

section Code

variable {limit : Int} {ts : List Token} {n : Node}

theorem Value.statements_eq_nil (k : Nat) (h : Value limit (Arguments limit k) ts n) :
    n.statements = [] := by
  refine Value.induction (motive := fun _ _ n => n.statements = []) ?_ ?_ ?_ ?_ k h
  · intro k t ts i _
    exact Node.statements_of_other rfl
  · intro t ts callee _
    exact Node.statements_of_other rfl
  · intro k t before inner after callee arguments _ along
    rw [Node.statements_of_other rfl]
    refine List.flatMap_eq_nil_iff.2 fun c hc => ?_
    exact (along.exists_piece c hc).elim fun _ h => h.2
  · intro k t ts operands operators along _ _ _
    rw [Node.statements_of_other rfl]
    refine List.flatMap_eq_nil_iff.2 fun c hc => ?_
    exact (along.exists_piece c hc).elim fun _ h => h.2.2

theorem Chain.statements_eq_nil (h : Chain limit ts n) : n.statements = [] := by
  induction h with
  | value form => exact Value.statements_eq_nil maxCallDepth form
  | last => exact Node.statements_of_other rfl
  | link _ _ _ ih =>
    rw [Node.statements_of_other rfl]
    exact (List.flatMap_singleton ..).trans ih

theorem Simple.statements_eq_nil (h : Simple limit ts n) : n.statements = [] := by
  have hvalues : ∀ {us : List Token} {ns : List Node}, Along (OuterValue limit) us ns →
      ns.flatMap Node.statements = [] := by
    intro us ns along
    refine List.flatMap_eq_nil_iff.2 fun c hc => ?_
    obtain ⟨_, -, form⟩ := along.exists_piece c hc
    exact Value.statements_eq_nil maxCallDepth form
  cases h with
  | varDecl along => exact (Node.statements_of_other rfl).trans (hvalues along)
  | constDecl along => exact (Node.statements_of_other rfl).trans (hvalues along)
  | chain form => exact form.statements_eq_nil

/-- The offset of a node along tokens. -/
theorem Node.Placed.offset {R : Int → Int → Prop} (h : n.Placed ts) :
    OffsetsAlong R ts [n.offset] := by
  refine ⟨fun x hx => h.offsets.mem x ?_, fun _ => List.pairwise_singleton _ _⟩
  rw [Node.preorder_eq, List.map_cons, List.mem_singleton.1 hx]
  exact List.mem_cons_self

/-- **A statement and the statements inside it start with tokens of their own.** -/
theorem Statement.offsets (h : Statement limit ts n) :
    OffsetsAlong (· < ·) ts ((n :: n.statements).map Node.offset) := by
  cases h with
  | simple form =>
    rw [form.statements_eq_nil]
    exact form.placed.offset
  | @function keyword name list inner parameters body named along =>
    -- The statements of the body hold no others, and stand behind the keyword.
    have hbody : OffsetsAlong (· < ·) inner
        (body.flatMap fun c => (c :: c.statements).map Node.offset) := by
      refine Along.offsets id (along.imp fun us c form => ?_)
      rw [form.statements_eq_nil]
      exact form.placed.offset
    rw [Node.statements_of_holds rfl, List.map_cons, List.map_flatMap]
    have hinner : ∀ t ∈ inner, t ∈ keyword :: name :: (list ++ inner) := by
      intro t ht
      simp [ht]
    constructor
    · intro x hx
      rcases List.mem_cons.1 hx with rfl | hx
      · exact ⟨keyword, List.mem_cons_self, rfl⟩
      · obtain ⟨t, ht, hxt⟩ := hbody.mem x hx
        exact ⟨t, hinner t ht, hxt⟩
    · intro hrising
      have hlast : inner <:+: keyword :: name :: (list ++ inner) :=
        ⟨keyword :: name :: list, [], by simp⟩
      refine List.pairwise_cons.2 ⟨fun x hx => ?_, hbody.order (hrising.of_infix hlast)⟩
      obtain ⟨t, ht, rfl⟩ := hbody.mem x hx
      exact (List.pairwise_cons.1 hrising).1 t (by simp [ht])

end Code

/-- **The offsets of the statements of a script go up.** -/
theorem harvestOf_statements (config : Config) (inside : List Token) :
    OffsetsAlong (· < ·) inside
      ((harvestOf config inside).statements.flatMap fun s => (s :: s.statements).map Node.offset) :=
  Along.offsets id ((harvestOf_yields config inside).1.imp fun _ _ form => form.offsets)

/-! ## Statements of a document -/

/-- The statements of a piece of markup. -/
def Piece.statements : Piece → List Node
  | .script _ statements => statements.flatMap fun s => s :: s.statements
  | .tag .. | .text .. => []

theorem Content.statements_toNode (c : Content) : c.toNode.statements =
    c.items.flatMap fun i => match i with | .opening _ => [] | .leaf n => n.statements := by
  cases c with
  | leaf n => rw [Content.items, List.flatMap_singleton]; rfl
  | element o cs =>
    rw [Content.toNode, Node.statements_of_other rfl, Content.items, Content.itemsOf_eq_flatMap,
      List.flatMap_cons, List.flatMap_assoc]
    show (Content.toNodes cs).flatMap Node.statements = _
    rw [Content.toNodes_eq_map, List.flatMap_map]
    exact List.flatMap_congr fun c _ => Content.statements_toNode c

/-- **The statements of a document are those of its scripts, in order.** -/
theorem Page.Shows.statements {config : Config} {ts : List Token} {file : Option String}
    {page : Page} (h : page.Shows file (progressOf config ts)) :
    page.document.toNode.statements =
      (piecesOf config [] (movesOf config ts)).flatMap Piece.statements := by
  rw [Node.statements_of_other rfl, ← pieces_progressOf, Forest.pieces,
    List.filterMap_eq_flatMap_toList, List.flatMap_assoc]
  show page.document.children.flatMap Node.statements = _
  rw [h.children, List.flatMap_map]
  have hframes : ∀ f : Frame, f.toTag.statements =
      f.items.flatMap fun i => match i with | .opening _ => [] | .leaf n => n.statements :=
    fun f => Content.statements_toNode f.toContent
  rw [List.flatMap_congr fun f _ => hframes f, ← List.flatMap_assoc]
  refine List.flatMap_congr fun i hi => ?_
  obtain ⟨c, -, hitem⟩ := from_of_mem_items hi
  cases hitem with
  | opening => exact (List.flatMap_singleton ..).symm
  | text => exact (Node.statements_of_other rfl).trans (List.flatMap_singleton ..).symm
  | script opening inside =>
    exact (Node.statements_of_holds rfl).trans (List.flatMap_singleton ..).symm

end PageLint
