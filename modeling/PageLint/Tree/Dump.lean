import PageLint.Json
import PageLint.Tree.Fields

/-!
# Trees as JSON

A node becomes an object that holds the name of its kind, its location and its fields; nodes in a
field become objects again.

`Node.toJson` says so by recursion. `Node.dump?` gives the same value with a list of tasks in place
of the recursion, so that a tree may be as deep as it likes: a node is first taken apart into the
nodes of its fields, and its object put together when theirs are in a table. The table goes by
addresses: a node that several fields hold is converted once, and what is in the table is skipped.
-/

namespace PageLint

/-- A location as an object. -/
def Location.toJson (l : Location) : Json :=
  .object
    [("lineno", .int l.line), ("col_offset", .int l.column), ("offset", .int l.offset),
      ("end_offset", .int l.endOffset),
      ("source_file", match l.file with | some file => .string file | none => .null)]

/-- The object of a node of a kind at a site with further fields. -/
def entry (kind : NodeKind) (site : Site) (fields : List (String × Json)) : Json :=
  .object (("_type", .string kind.label) :: ("location", site.location.toJson) :: fields)

/-- An attribute as an object. -/
def Attribute.toJson (a : Attribute) : Json :=
  entry .attr a.site [("name", .string a.name), ("value", .string a.value)]

/-- An identifier as an object. -/
def Identifier.toJson (i : Identifier) : Json :=
  entry .identifier i.site [("name", .string i.name)]

namespace Node

/-! ## By recursion -/

mutual

/-- A node and all nodes in its fields as an object. -/
def toJson : Node → Json
  | document site children doctype root =>
    entry .document site
      [("children", .array (toJsonList children)), ("doctype", toJsonOption doctype),
        ("root", toJsonOption root)]
  | tag site name attributes children selfClosing closing =>
    entry .tag site
      [("name", .string name), ("attributes", .array (attributes.map Attribute.toJson)),
        ("children", .array (toJsonList children)), ("self_closing", .bool selfClosing),
        ("closing", .bool closing)]
  | attr a => a.toJson
  | text site content => entry .text site [("content", .string content)]
  | script site statements => entry .script site [("statements", .array (toJsonList statements))]
  | varDecl site keyword target initializer =>
    entry .varDecl site
      [("keyword", .string keyword), ("target", target.toJson),
        ("initializer", toJsonOption initializer)]
  | constDecl site target initializer =>
    entry .constDecl site [("target", target.toJson), ("initializer", toJsonOption initializer)]
  | assignment site target operator value =>
    entry .assignment site
      [("target", target.toJson), ("operator", .string operator), ("value", toJsonOption value)]
  | function site name parameters body =>
    entry .function site
      [("name", .string name), ("parameters", .array (parameters.map Identifier.toJson)),
        ("body", .array (toJsonList body))]
  | call site callee arguments =>
    entry .call site [("callee", callee.toJson), ("arguments", .array (toJsonList arguments))]
  | identifier i => i.toJson
  | expression site operands operators =>
    entry .expression site
      [("operands", .array (toJsonList operands)), ("operators", .array (operators.map .string))]
  | plain site => entry .plain site []

def toJsonList : List Node → List Json
  | [] => []
  | n :: ns => toJson n :: toJsonList ns

def toJsonOption : Option Node → Json
  | none => .null
  | some n => toJson n

end

end Node

/-! ## By a list of tasks -/

/-- The value of a field, from the values of the nodes in it; none when one of them has none. -/
def Field.value? {α : Type} (value? : α → Option Json) : Field α → Option Json
  | location l => some l.toJson
  | text s => some (.string s)
  | texts ss => some (.array (ss.map .string))
  | flag b => some (.bool b)
  | one a => value? a
  | optional none => some .null
  | optional (some a) => value? a
  | many as => (as.mapM value?).map .array

namespace Member

/-- A step of a conversion: take a node apart, or put its object together. -/
inductive Task where
  | expand (o : Member)
  | build (o : Member)

-- The zero of a sum is the one that the lemmas of the library on sums of numbers speak of.
attribute [local instance (high)] Zero.ofOfNat0

/-- How much work a task is. -/
noncomputable def Task.weight : Task → Nat
  | .expand o => 2 * sizeOf o.node
  | .build _ => 1

/-- The tasks for the nodes in the fields of a node are less work than the node itself. -/
theorem weight_held (o : Member) :
    ((o.held.map Task.expand).map Task.weight).sum + 1 < 2 * sizeOf o.node := by
  have double (ps : List Member) :
      ((ps.map Task.expand).map Task.weight).sum = 2 * ((ps.map node).map sizeOf).sum := by
    induction ps with
    | nil => rfl
    | cons p ps ih => simp only [List.map_cons, List.sum_cons, ih, Task.weight]; omega
  have := o.node.sum_sizeOf_held_lt
  rw [double, map_node_held]; omega

/-- The objects put together so far, newest first. -/
abbrev Table := List (Address × Json)

/-- The object of a member, where the objects of the members in its fields are looked up; none when
one of them is missing. -/
def object? (table : Table) (o : Member) : Option Json := do
  let fields ← o.fields.mapM fun (name, field) =>
    (field.value? fun p => table.lookup p.address).map (name, ·)
  return .object (("_type", .string o.node.kind.label) :: fields)

/-- Runs tasks over a table and gives the table at the end; none when an object is missing. Members
in the table are skipped. -/
def runTasks (table : Table) (tasks : List Task) : Option Table :=
  match tasks with
  | [] => some table
  | .expand o :: tasks =>
    match table.lookup o.address with
    | some _ => runTasks table tasks
    | none => runTasks table (o.held.map Task.expand ++ (.build o :: tasks))
  | .build o :: tasks =>
    match table.lookup o.address with
    | some _ => runTasks table tasks
    | none =>
      match o.object? table with
      | none => none
      | some object => runTasks ((o.address, object) :: table) tasks
termination_by (tasks.map Task.weight).sum
decreasing_by
  · have := weight_held o
    simp only [List.map_cons, List.sum_cons, Task.weight]; omega
  · have := weight_held o
    simp only [List.map_append, List.map_cons, List.sum_append_nat, List.sum_cons, Task.weight]
    omega
  · simp only [List.map_cons, List.sum_cons, Task.weight]; omega
  · simp only [List.map_cons, List.sum_cons, Task.weight]; omega

end Member

/-- A node and all nodes in its fields as an object; none when a look-up fails. -/
def Node.dump? (n : Node) : Option Json := do
  let table ← Member.runTasks [] [.expand (.top n)]
  table.lookup (Member.top n).address

/-- The text of a node as JSON. -/
def Node.dumpText? (layout : Json.Layout) (n : Node) : Option String :=
  n.dump?.map (Json.render layout)

end PageLint
