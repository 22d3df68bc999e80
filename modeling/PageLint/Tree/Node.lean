import PageLint.Literal
import PageLint.Text.Lower

/-!
# Nodes

The tree of a page: markup outside scripts, and the statements and expressions inside them. One
type holds all kinds of node, so that a tree may also be put together by hand in shapes that no
page has.

A node that is reached along several paths of a tree carries a label. Two nodes with the same
label are one node; a node without a label is only ever reached along one path, or together with
a labelled node above it.

* `Node.children` — the nodes under a node that a walk goes on to
* `Node.links` — a chain of assignments, link by link
* `sum_sizeOf_children_lt` — the children of a node are together smaller than it
-/

namespace PageLint

/-- Where a node stands in its source and, for a shared node, which node it is. -/
structure Site where
  location : Location
  label : Option Nat := none
  deriving DecidableEq, Repr, Inhabited

/-- An attribute of a tag. The value has no quotes around it and is empty when none is given. -/
structure Attribute where
  site : Site
  name : String
  value : String := ""
  deriving DecidableEq, Repr, Inhabited

/-- A name, a literal or a dotted chain of names, as one text. -/
structure Identifier where
  site : Site
  name : String
  deriving DecidableEq, Repr, Inhabited

/-- A node of a page. -/
inductive Node where
  /-- A page: its top-level tags, its doctype and its first `html` tag. -/
  | document (site : Site) (children : List Node) (doctype root : Option Node)
  /-- An element with its attributes and contents. -/
  | tag (site : Site) (name : String) (attributes : List Attribute) (children : List Node)
      (selfClosing closing : Bool)
  | attr (value : Attribute)
  /-- Trimmed text between tags. -/
  | text (site : Site) (content : String)
  /-- The statements of a script. -/
  | script (site : Site) (statements : List Node)
  /-- A declaration with `let` or `var`. -/
  | varDecl (site : Site) (keyword : String) (target : Identifier) (initializer : Option Node)
  /-- A declaration with `const`. -/
  | constDecl (site : Site) (target : Identifier) (initializer : Option Node)
  /-- An assignment; the value of a chained one is an assignment again. -/
  | assignment (site : Site) (target : Identifier) (operator : String) (value : Option Node)
  /-- A function with the statements found in its body. -/
  | function (site : Site) (name : String) (parameters : List Identifier) (body : List Node)
  /-- A call of a dotted name. -/
  | call (site : Site) (callee : Identifier) (arguments : List Node)
  | identifier (value : Identifier)
  /-- Operands and operators in the order they stand, without precedence. -/
  | expression (site : Site) (operands : List Node) (operators : List String)
  /-- A node of no particular kind. -/
  | plain (site : Site)
  deriving Inhabited

/-- The kinds of node. -/
inductive NodeKind where
  | document
  | tag
  | attr
  | text
  | script
  | varDecl
  | constDecl
  | assignment
  | function
  | call
  | identifier
  | expression
  | plain
  deriving DecidableEq, Repr, Inhabited

/-- The name of a kind of node. -/
def NodeKind.label : NodeKind → String
  | document => "Document"
  | tag => "Tag"
  | attr => "Attribute"
  | text => "Text"
  | script => "Script"
  | varDecl => "Variable"
  | constDecl => "Const"
  | assignment => "Assignment"
  | function => "Function"
  | call => "Call"
  | identifier => "Identifier"
  | expression => "Expression"
  | plain => "Node"

namespace Node

/-- The kind of a node. -/
def kind : Node → NodeKind
  | document .. => .document
  | tag .. => .tag
  | attr .. => .attr
  | text .. => .text
  | script .. => .script
  | varDecl .. => .varDecl
  | constDecl .. => .constDecl
  | assignment .. => .assignment
  | function .. => .function
  | call .. => .call
  | identifier .. => .identifier
  | expression .. => .expression
  | plain .. => .plain

/-- The site of a node. -/
def site : Node → Site
  | document site .. | tag site .. | text site .. | script site .. | varDecl site .. |
    constDecl site .. | assignment site .. | function site .. | call site .. | expression site .. |
    plain site => site
  | attr a => a.site
  | identifier i => i.site

/-- The place of a node in its source. -/
def location (n : Node) : Location := n.site.location

/-- The line on which a node starts. -/
def line (n : Node) : Int := n.location.line

/-- The label of a shared node. -/
def label (n : Node) : Option Nat := n.site.label

/-- The nodes directly under a node, in source order. Attributes, targets, parameters and callees
belong to their node and are not among them; neither are the doctype and root of a document. -/
def children : Node → List Node
  | document _ children _ _ => children
  | tag _ _ _ children _ _ => children
  | script _ statements => statements
  | function _ _ _ body => body
  | varDecl _ _ _ initializer => initializer.toList
  | constDecl _ _ initializer => initializer.toList
  | assignment _ _ _ value => value.toList
  | call _ _ arguments => arguments
  | expression _ operands _ => operands
  | attr _ | text .. | identifier _ | plain _ => []

/-- Whether a node is a tag. -/
def isTag (n : Node) : Bool := n.kind == .tag

/-- Whether a node is an assignment. -/
def isAssignment (n : Node) : Bool := n.kind == .assignment

/-- The children of a node that are tags. -/
def childTags (n : Node) : List Node := n.children.filter isTag

/-- The name of a tag; other nodes have none. -/
def tagName? : Node → Option String
  | tag _ name .. => some name
  | _ => none

/-- The name of a tag, an attribute, a function or an identifier; other nodes have none. -/
def name? : Node → Option String
  | tag _ name .. => some name
  | attr a => some a.name
  | function _ name .. => some name
  | identifier i => some i.name
  | _ => none

/-- A feature asked of a node whose kind does not have it. -/
structure Lack where
  kind : NodeKind
  feature : String
  deriving DecidableEq, Repr

/-- The wording of a lack. -/
def Lack.message (l : Lack) : String :=
  "'" ++ l.kind.label ++ "' object has no attribute '" ++ l.feature ++ "'"

/-- What a node lacks when its name is asked for. -/
def nameLack? (n : Node) : Option Lack :=
  if n.name?.isSome then none else some { kind := n.kind, feature := "name" }

/-- What a node lacks when a feature of tags is asked for. -/
def tagLack? (feature : String) (n : Node) : Option Lack :=
  if n.isTag then none else some { kind := n.kind, feature }

/-- The attributes of a tag. -/
def attributes : Node → List Attribute
  | tag _ _ attributes .. => attributes
  | _ => []

/-- The first attribute of a tag with a name, in lower case. -/
def attribute? (n : Node) (name : String) : Option Attribute :=
  n.attributes.find? fun a => lowered a.name == lowered name

/-- A short text that tells a node from others of its kind. -/
def caption : Node → String
  | tag _ name .. => name
  | attr a => a.name
  | text _ content => content
  | varDecl _ keyword target _ => keyword ++ " " ++ target.name
  | constDecl _ target _ => target.name
  | assignment _ target operator _ => target.name ++ " " ++ operator
  | function _ name .. => name
  | call _ callee _ => callee.name
  | identifier i => i.name
  | expression _ _ operators => String.intercalate " " operators
  | document .. | script .. | plain _ => ""

/-- The kind of the literal that a node spells; only identifiers spell one. -/
def literalKind : Node → LiteralKind
  | identifier i => .ofText i.name
  | _ => .unknown

/-! ## Size -/

-- The zero of a sum is the one that the lemmas of the library on sums of numbers speak of.
attribute [local instance (high)] Zero.ofOfNat0

theorem sum_sizeOf_lt (ns : List Node) : (ns.map sizeOf).sum < sizeOf ns := by
  induction ns with
  | nil => simp
  | cons n ns ih => simp only [List.map_cons, List.sum_cons, List.cons.sizeOf_spec]; omega

theorem sum_sizeOf_toList_lt (o : Option Node) : (o.toList.map sizeOf).sum < sizeOf o := by
  cases o with
  | none => simp
  | some n =>
    simp only [Option.toList, List.map_cons, List.map_nil, List.sum_cons, List.sum_nil,
      Option.some.sizeOf_spec]
    omega

/-- The children of a node are together smaller than the node. -/
theorem sum_sizeOf_children_lt (n : Node) : (n.children.map sizeOf).sum < sizeOf n := by
  cases n with
  | document _ cs _ _ =>
    have := sum_sizeOf_lt cs; simp only [children, document.sizeOf_spec]; omega
  | tag _ _ _ cs _ _ => have := sum_sizeOf_lt cs; simp only [children, tag.sizeOf_spec]; omega
  | script _ ss => have := sum_sizeOf_lt ss; simp only [children, script.sizeOf_spec]; omega
  | function _ _ _ b => have := sum_sizeOf_lt b; simp only [children, function.sizeOf_spec]; omega
  | varDecl _ _ _ i =>
    have := sum_sizeOf_toList_lt i; simp only [children, varDecl.sizeOf_spec]; omega
  | constDecl _ _ i =>
    have := sum_sizeOf_toList_lt i; simp only [children, constDecl.sizeOf_spec]; omega
  | assignment _ _ _ v =>
    have := sum_sizeOf_toList_lt v; simp only [children, assignment.sizeOf_spec]; omega
  | call _ _ as => have := sum_sizeOf_lt as; simp only [children, call.sizeOf_spec]; omega
  | expression _ os _ =>
    have := sum_sizeOf_lt os; simp only [children, expression.sizeOf_spec]; omega
  | attr a => simp only [children, attr.sizeOf_spec, List.map_nil, List.sum_nil]; omega
  | text _ _ => simp only [children, text.sizeOf_spec, List.map_nil, List.sum_nil]; omega
  | identifier i => simp only [children, identifier.sizeOf_spec, List.map_nil, List.sum_nil]; omega
  | plain s => simp only [children, plain.sizeOf_spec, List.map_nil, List.sum_nil]; omega

theorem sizeOf_le_sum_of_mem {n : Node} {ns : List Node} (h : n ∈ ns) :
    sizeOf n ≤ (ns.map sizeOf).sum := by
  obtain ⟨before, after, rfl⟩ := List.append_of_mem h
  rw [List.map_append, List.map_cons, List.sum_append_nat, List.sum_cons]
  omega

theorem sizeOf_lt_of_mem_children {c n : Node} (h : c ∈ n.children) : sizeOf c < sizeOf n :=
  Nat.lt_of_le_of_lt (sizeOf_le_sum_of_mem h) (sum_sizeOf_children_lt n)

/-! ## Chains of assignments -/

/-- The assignments of a chain, outermost first; none for a node that is no assignment. -/
def links (n : Node) : List Node :=
  match n with
  | assignment s t o (some v) => assignment s t o (some v) :: v.links
  | assignment s t o none => [assignment s t o none]
  | _ => []
termination_by sizeOf n

/-- The target names of a chain of assignments, outermost first. -/
def chainTargets (n : Node) : List String :=
  match n with
  | assignment _ t _ (some v) => t.name :: v.chainTargets
  | assignment _ t _ none => [t.name]
  | _ => []
termination_by sizeOf n

end Node

/-! ## Documents -/

/-- A page as a whole: its top-level tags, its doctype and its first `html` tag. -/
structure Document where
  site : Site
  children : List Node := []
  doctype : Option Node := none
  root : Option Node := none
  deriving Inhabited

/-- A document as a node. -/
def Document.toNode (d : Document) : Node := .document d.site d.children d.doctype d.root

/-- The document that a node is. -/
def Node.toDocument? : Node → Option Document
  | .document site children doctype root => some { site, children, doctype, root }
  | _ => none

end PageLint
