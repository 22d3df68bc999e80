import PageLint.Proofs.LineEnds.Respelling
import PageLint.Proofs.Passes.Walks

/-!
# What the rules look at

The rules look at a page without columns and offsets: of the place of a node they use the line, and
of tags only the names. A view of a page keeps just that, and may move the lines and spell line ends
in another way. Two pages with the same view are alike to the rules.

* `View` — how lines are moved and line ends are spelled
* `Node.view` — a node as a view shows it
* `Node.view_visits` — walks and views do not meet
-/

namespace PageLint

/-- A way to look at a page: how its lines are moved, and with how many carriage returns in front
its newlines are spelled. -/
structure View where
  line : Int → Int
  returns : Nat

namespace View

/-- A text as a view spells it. -/
def text (v : View) (s : String) : String :=
  String.ofList (Text.respell (Text.lineEnd v.returns) s.toList)

/-- The view that leaves lines and texts as they are. -/
def bare : View := { line := id, returns := 0 }

theorem text_of_returns_eq_zero {v : View} (h : v.returns = 0) (s : String) : v.text s = s := by
  rw [text, h, show Text.lineEnd 0 = ['\n'] from rfl, Text.respell_self, String.ofList_toList]

@[simp] theorem text_bare (s : String) : bare.text s = s := text_of_returns_eq_zero rfl s

@[simp] theorem line_bare (n : Int) : bare.line n = n := rfl

theorem toList_text (v : View) (s : String) :
    (v.text s).toList = Text.respell (Text.lineEnd v.returns) s.toList := by
  rw [text, String.toList_ofList]

theorem text_injective (v : View) : Function.Injective v.text := by
  intro a b h
  have hlist := congrArg String.toList h
  rw [toList_text, toList_text] at hlist
  exact String.toList_injective (Text.respell_injective v.returns hlist)

theorem text_append (v : View) (a b : String) : v.text (a ++ b) = v.text a ++ v.text b := by
  apply String.toList_injective
  simp [toList_text]

theorem text_of_not_mem (v : View) {s : String} (h : '\n' ∉ s.toList) : v.text s = s := by
  rw [text, Text.respell_of_not_mem h, String.ofList_toList]

theorem text_isEmpty (v : View) (s : String) : (v.text s).isEmpty = s.isEmpty := by
  have hempty : ∀ s : String, s.isEmpty = s.toList.isEmpty := by
    intro s
    rw [Bool.eq_iff_iff, String.isEmpty_iff, List.isEmpty_iff, String.toList_eq_nil_iff]
  rw [hempty, hempty, toList_text, Text.isEmpty_respell (Text.lineEnd_isLineEnd v.returns)]

/-- Lower case and views do not meet. -/
theorem lowered_text (v : View) (s : String) : lowered (v.text s) = v.text (lowered s) := by
  rw [lowered, toList_text, Text.lower_respell (Text.lineEnd_isLineEnd v.returns), text, lowered,
    String.toList_ofList]

/-- A word is shown as itself, and nothing else is shown as it. -/
theorem text_eq_iff (v : View) {s word : String} (hword : ∀ c ∈ word.toList, Text.Plain c) :
    v.text s = word ↔ s = word := by
  rw [← String.toList_inj, toList_text,
    Text.respell_eq_iff (Text.lineEnd_isLineEnd v.returns) hword, String.toList_inj]

end View

/-! ## Nodes -/

/-- A place as a view shows it: its line. -/
def Location.view (v : View) (l : Location) : Location := { line := v.line l.line, column := 0 }

def Site.view (v : View) (s : Site) : Site := { location := s.location.view v, label := s.label }

/-- An identifier that is used, as a view shows it. -/
def Identifier.view (v : View) (i : Identifier) : Identifier :=
  { site := i.site.view v, name := v.text i.name }

/-- An identifier that is declared, as a view shows it: its name is one word. -/
def Identifier.viewDeclared (v : View) (i : Identifier) : Identifier :=
  { site := i.site.view v, name := i.name }

mutual

/-- A node as a view shows it. -/
def Node.view (v : View) : Node → Node
  | .document site children doctype root =>
    .document (site.view v) (Node.viewAll v children) (Node.view? v doctype) (Node.view? v root)
  | .tag site name _ children selfClosing closing =>
    .tag (site.view v) (v.text name) [] (Node.viewAll v children) selfClosing closing
  | .attr a => .attr { site := a.site.view v, name := v.text a.name }
  | .text site _ => .text (site.view v) ""
  | .script site statements => .script (site.view v) (Node.viewAll v statements)
  | .varDecl site keyword target initializer =>
    .varDecl (site.view v) keyword (target.viewDeclared v) (Node.view? v initializer)
  | .constDecl site target initializer =>
    .constDecl (site.view v) (target.viewDeclared v) (Node.view? v initializer)
  | .assignment site target operator value =>
    .assignment (site.view v) (target.view v) operator (Node.view? v value)
  | .function site name parameters body =>
    .function (site.view v) name (parameters.map (Identifier.viewDeclared v)) (Node.viewAll v body)
  | .call site callee arguments =>
    .call (site.view v) (callee.view v) (Node.viewAll v arguments)
  | .identifier i => .identifier (i.view v)
  | .expression site operands operators =>
    .expression (site.view v) (Node.viewAll v operands) operators
  | .plain site => .plain (site.view v)

def Node.viewAll (v : View) : List Node → List Node
  | [] => []
  | n :: ns => n.view v :: Node.viewAll v ns

def Node.view? (v : View) : Option Node → Option Node
  | none => none
  | some n => some (n.view v)

end

theorem Node.viewAll_eq_map (v : View) (ns : List Node) :
    Node.viewAll v ns = ns.map (Node.view v) := by
  induction ns with
  | nil => rfl
  | cons n ns ih => rw [Node.viewAll, ih, List.map_cons]

theorem Node.view?_eq_map (v : View) (o : Option Node) :
    Node.view? v o = o.map (Node.view v) := by
  cases o <;> rfl

/-- A document as a view shows it. -/
def Document.view (v : View) (d : Document) : Document :=
  { site := d.site.view v
    children := d.children.map (Node.view v)
    doctype := d.doctype.map (Node.view v)
    root := d.root.map (Node.view v) }

namespace Node

theorem view_toNode (v : View) (d : Document) : d.toNode.view v = (d.view v).toNode := by
  simp only [Document.toNode, view, Document.view, viewAll_eq_map, view?_eq_map]

variable (v : View) (n : Node)

@[simp] theorem view_site : (n.view v).site = n.site.view v := by
  cases n <;> rfl

@[simp] theorem view_line : (n.view v).line = v.line n.line := by
  rw [line, location, view_site]
  rfl

@[simp] theorem view_label : (n.view v).label = n.label := by
  rw [label, view_site]
  rfl

@[simp] theorem view_kind : (n.view v).kind = n.kind := by
  cases n <;> rfl

@[simp] theorem view_isAssignment : (n.view v).isAssignment = n.isAssignment := by
  rw [isAssignment, view_kind, isAssignment]

@[simp] theorem view_children : (n.view v).children = n.children.map (view v) := by
  have htoList : ∀ o : Option Node, (o.map (view v)).toList = o.toList.map (view v) := by
    intro o
    cases o <;> rfl
  cases n <;> simp [view, children, viewAll_eq_map, view?_eq_map, htoList]

theorem view_links : (n.view v).links = n.links.map (view v) := by
  fun_induction links n with
  | case1 s t o value ih =>
    rw [view, view?, links, ih, List.map_cons, view, view?]
  | case2 s t o =>
    rw [view, view?, links, List.map_singleton, view, view?]
  | case3 n h h' =>
    have hn : n.isAssignment = false := by
      cases n with
      | assignment s t o value =>
        cases value with
        | none => exact absurd rfl (h' s t o)
        | some value => exact absurd rfl (h s t o value)
      | _ => rfl
    rw [links_eq_nil (by rwa [view_isAssignment]), List.map_nil]

end Node

/-! ## Walks -/

/-- A visit as a view shows it. -/
def Visit.view (v : View) (visit : Visit) : Visit :=
  { node := visit.node.view v, inChain := visit.inChain }

theorem Visit.view_next (v : View) (visit : Visit) :
    (visit.view v).next = visit.next.map (Visit.view v) := by
  simp [next, view, Function.comp_def]

theorem walkFrom_view (v : View) (seen : List Nat) (pending : List Visit) :
    walkFrom seen (pending.map (Visit.view v)) = (walkFrom seen pending).map (Visit.view v) := by
  fun_induction walkFrom seen pending with
  | case1 seen => rw [List.map_nil, walkFrom]
  | case2 seen visit pending hlabel ih =>
    have hlabel' : (visit.view v).node.label = none := by simpa [Visit.view] using hlabel
    rw [List.map_cons, walkFrom, hlabel', List.map_cons, ← ih, List.map_append, Visit.view_next]
  | case3 seen visit pending k hlabel hmem ih =>
    have hlabel' : (visit.view v).node.label = some k := by simpa [Visit.view] using hlabel
    rw [List.map_cons, walkFrom, hlabel']
    simp only [hmem, if_true]
    exact ih
  | case4 seen visit pending k hlabel hmem ih =>
    have hlabel' : (visit.view v).node.label = some k := by simpa [Visit.view] using hlabel
    rw [List.map_cons, walkFrom, hlabel']
    simp only [hmem, Bool.false_eq_true, if_false]
    rw [List.map_cons, ← ih, List.map_append, Visit.view_next]

namespace Node

/-- **Walks and views do not meet.** -/
theorem view_visits (v : View) (n : Node) : (n.view v).visits = n.visits.map (Visit.view v) :=
  walkFrom_view v [] [{ node := n }]

theorem view_walk (v : View) (n : Node) : (n.view v).walk = n.walk.map (view v) := by
  rw [walk, view_visits, List.map_map, walk, List.map_map]
  rfl

end Node

end PageLint
