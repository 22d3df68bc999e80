import PageLint.Tree.Node

/-!
# The fields of a node

A node as a list of named fields. Among what the fields hold are further nodes: those a walk goes
on to, but also attributes, targets, parameters and callees, and the doctype and root of a
document.

A node that several fields hold is one node. Which one stands in a field is told by its `Address`,
so that work on it can be kept in a table and done once.

* `Node.fields`, `Node.held` — the fields of a node, and the nodes in them
* `Member.fields`, `Member.held` — the same, each node with its address
* `sum_sizeOf_held_lt` — the nodes in the fields of a node are together smaller than it
-/

namespace PageLint

/-- What a field holds; `α` is how a node in it is given. -/
inductive Field (α : Type) where
  | location (l : Location)
  | text (s : String)
  | texts (ss : List String)
  | flag (b : Bool)
  | one (a : α)
  | optional (a : Option α)
  | many (as : List α)

namespace Field

variable {α β : Type}

/-- The nodes in a field, in order. -/
def held : Field α → List α
  | one a => [a]
  | optional a => a.toList
  | many as => as
  | location _ | text _ | texts _ | flag _ => []

/-- A field with the nodes in it changed, each by its place in the field. -/
def mapIdx (f : Nat → α → β) : Field α → Field β
  | location l => location l
  | text s => text s
  | texts ss => texts ss
  | flag b => flag b
  | one a => one (f 0 a)
  | optional a => optional (a.map (f 0))
  | many as => many (as.mapIdx f)

theorem held_mapIdx (f : Nat → α → β) (field : Field α) :
    (field.mapIdx f).held = field.held.mapIdx f := by
  cases field with
  | optional a => cases a <;> rfl
  | _ => rfl

end Field

namespace Node

/-- The fields of a node by name, in order. -/
def fields (n : Node) : List (String × Field Node) :=
  ("location", .location n.location) ::
    match n with
    | document _ children doctype root =>
      [("children", .many children), ("doctype", .optional doctype), ("root", .optional root)]
    | tag _ name attributes children selfClosing closing =>
      [("name", .text name), ("attributes", .many (attributes.map attr)),
        ("children", .many children), ("self_closing", .flag selfClosing),
        ("closing", .flag closing)]
    | attr a => [("name", .text a.name), ("value", .text a.value)]
    | text _ content => [("content", .text content)]
    | script _ statements => [("statements", .many statements)]
    | varDecl _ keyword target initializer =>
      [("keyword", .text keyword), ("target", .one (identifier target)),
        ("initializer", .optional initializer)]
    | constDecl _ target initializer =>
      [("target", .one (identifier target)), ("initializer", .optional initializer)]
    | assignment _ target operator value =>
      [("target", .one (identifier target)), ("operator", .text operator),
        ("value", .optional value)]
    | function _ name parameters body =>
      [("name", .text name), ("parameters", .many (parameters.map identifier)),
        ("body", .many body)]
    | call _ callee arguments =>
      [("callee", .one (identifier callee)), ("arguments", .many arguments)]
    | identifier i => [("name", .text i.name)]
    | expression _ operands operators =>
      [("operands", .many operands), ("operators", .texts operators)]
    | plain _ => []

/-- The nodes in the fields of a node, in order. -/
def held (n : Node) : List Node := n.fields.flatMap fun field => field.2.held

-- The zero of a sum is the one that the lemmas of the library on sums of numbers speak of.
attribute [local instance (high)] Zero.ofOfNat0

theorem sum_sizeOf_map_attr_lt (as : List Attribute) :
    ((as.map attr).map sizeOf).sum < sizeOf as := by
  induction as with
  | nil => simp
  | cons a as ih =>
    simp only [List.map_cons, List.sum_cons, attr.sizeOf_spec, List.cons.sizeOf_spec]; omega

theorem sum_sizeOf_map_identifier_lt (is : List Identifier) :
    ((is.map identifier).map sizeOf).sum < sizeOf is := by
  induction is with
  | nil => simp
  | cons i is ih =>
    simp only [List.map_cons, List.sum_cons, identifier.sizeOf_spec, List.cons.sizeOf_spec]; omega

/-- The nodes in the fields of a node are together smaller than the node. -/
theorem sum_sizeOf_held_lt (n : Node) : (n.held.map sizeOf).sum < sizeOf n := by
  cases n with
  | document _ cs d r =>
    have := sum_sizeOf_lt cs
    have := sum_sizeOf_toList_lt d
    have := sum_sizeOf_toList_lt r
    simp [held, fields, Field.held]; omega
  | tag _ _ as cs _ _ =>
    have := sum_sizeOf_map_attr_lt as
    have := sum_sizeOf_lt cs
    simp [held, fields, Field.held, -List.map_map]; omega
  | script _ ss => have := sum_sizeOf_lt ss; simp [held, fields, Field.held]; omega
  | varDecl _ _ t i =>
    have := sum_sizeOf_toList_lt i; simp [held, fields, Field.held]; omega
  | constDecl _ t i =>
    have := sum_sizeOf_toList_lt i; simp [held, fields, Field.held]; omega
  | assignment _ t _ v =>
    have := sum_sizeOf_toList_lt v; simp [held, fields, Field.held]; omega
  | function _ _ ps b =>
    have := sum_sizeOf_map_identifier_lt ps
    have := sum_sizeOf_lt b
    simp [held, fields, Field.held, -List.map_map]; omega
  | call _ c as => have := sum_sizeOf_lt as; simp [held, fields, Field.held]; omega
  | expression _ os _ => have := sum_sizeOf_lt os; simp [held, fields, Field.held]; omega
  | attr _ => show 0 < _; simp only [attr.sizeOf_spec]; omega
  | text _ _ => show 0 < _; simp only [text.sizeOf_spec]; omega
  | identifier _ => show 0 < _; simp only [identifier.sizeOf_spec]; omega
  | plain _ => show 0 < _; simp only [plain.sizeOf_spec]; omega

theorem sizeOf_lt_of_mem_held {c n : Node} (h : c ∈ n.held) : sizeOf c < sizeOf n :=
  Nat.lt_of_le_of_lt (sizeOf_le_sum_of_mem h) (sum_sizeOf_held_lt n)

end Node

/-! ## Addresses -/

/-- Which node stands in a field: the nearest label at or above it, and the way back up to there,
as the place of a field among the fields and a place in the field. Without such a label the way
leads to the top. -/
structure Address where
  anchor : Option Nat
  /-- How long the way is; addresses that differ in it are told apart at once. -/
  depth : Nat
  way : List (Nat × Nat)
  deriving DecidableEq

/-- A node with its address. -/
structure Member where
  address : Address
  node : Node

namespace Member

/-- The node at the top. -/
def top (n : Node) : Member where
  address := { anchor := n.label, depth := 0, way := [] }
  node := n

/-- A node at a place in a field of a member. -/
def inner (o : Member) (field place : Nat) (n : Node) : Member where
  address :=
    match n.label with
    | some k => { anchor := some k, depth := 0, way := [] }
    | none =>
      { anchor := o.address.anchor
        depth := o.address.depth + 1
        way := (field, place) :: o.address.way }
  node := n

/-- The fields of a member by name, in order. -/
def fields (o : Member) : List (String × Field Member) :=
  o.node.fields.zipIdx.map fun (field, i) => (field.1, field.2.mapIdx (o.inner i))

/-- The members in the fields of a member, in order. -/
def held (o : Member) : List Member := o.fields.flatMap fun field => field.2.held

theorem held_eq_flatMap (o : Member) : o.held =
    o.node.fields.zipIdx.flatMap fun (field, i) => field.2.held.mapIdx (o.inner i) := by
  rw [held, fields, List.flatMap_map]
  exact congrArg (List.flatMap · _) (funext fun _ => Field.held_mapIdx _ _)

/-- A member in a field has its place there. -/
theorem exists_place {o p : Member} (h : p ∈ o.held) :
    ∃ i j field c, o.node.fields[i]? = some field ∧ field.2.held[j]? = some c ∧
      o.inner i j c = p := by
  rw [held_eq_flatMap] at h
  obtain ⟨⟨field, i⟩, hfield, hp⟩ := List.mem_flatMap.1 h
  obtain ⟨j, hj, rfl⟩ := List.mem_mapIdx.1 hp
  exact ⟨i, j, field, _, List.mem_zipIdx_iff_getElem?.1 hfield, List.getElem?_eq_getElem hj, rfl⟩

theorem map_node_inner (o : Member) (i : Nat) (ns : List Node) :
    (ns.mapIdx (o.inner i)).map node = ns :=
  List.ext_getElem (by simp) fun j _ _ => by simp [inner]

theorem map_node_held (o : Member) : o.held.map node = o.node.held := by
  rw [held_eq_flatMap, List.map_flatMap]
  simp only [map_node_inner]
  rw [← List.flatMap_map Prod.fst fun field : String × Field Node => field.2.held,
    List.zipIdx_map_fst, Node.held]

end Member

end PageLint
