import PageLint.Proofs.Passes.Collecting
import PageLint.Proofs.Views.Nodes

/-!
# Rules and views

What a rule finds at a node it finds at the node as a view shows it, with the line moved. So passes
over two pages with the same view find the same, line for line and category for category.

* `signs` — the lines and categories of findings, as a view shows them
* `Rule.signs_identifierRule` and its like — one rule at one node
* `signs_findingsOf` — all passes over a document
-/

namespace PageLint

/-- The lines and categories of findings, as a view shows them. -/
def signs (v : View) (fs : List Finding) : List (Int × Category) :=
  fs.map fun f => (v.line f.line, f.category)

@[simp] theorem signs_append (v : View) (fs gs : List Finding) :
    signs v (fs ++ gs) = signs v fs ++ signs v gs :=
  List.map_append

theorem signs_flatMap {α : Type} (v : View) (as : List α) (f : α → List Finding) :
    signs v (as.flatMap f) = as.flatMap fun a => signs v (f a) :=
  List.map_flatMap

theorem signs_ite (v : View) (c : Bool) (fs gs : List Finding) :
    signs v (if c then fs else gs) = if c then signs v fs else signs v gs := by
  cases c <;> rfl

namespace Rule

variable (v : View)

/-! ## Names -/

theorem signs_nameFindings (name : String) (line : Int) :
    signs .bare (nameFindings name (v.line line)) = signs v (nameFindings name line) := by
  rw [nameFindings, nameFindings]
  cases name.toList with
  | nil => rfl
  | cons first rest =>
    simp only [signs_append, signs_ite]
    cases firstInvalid? name <;> cases firstSpecial? name <;> rfl

theorem signs_constantFindings (target : Identifier) (initializer : Option Node) (after : Bool) :
    signs .bare (constantFindings (target.viewDeclared v) (initializer.map (Node.view v)) after) =
      signs v (constantFindings target initializer after) := by
  simp only [constantFindings, signs_append, signs_ite, Option.isNone_map]
  rfl

theorem signs_functionNameFindings (what name : String) (line : Int) :
    signs .bare (functionNameFindings what name (v.line line)) =
      signs v (functionNameFindings what name line) := by
  simp only [functionNameFindings, signs_append, signs_ite]
  rfl

theorem signs_identifierRule (n : Node) :
    signs .bare (identifierRule (n.view v)) = signs v (identifierRule n) := by
  cases n with
  | varDecl site keyword target initializer => exact signs_nameFindings v _ _
  | constDecl site target initializer => exact signs_nameFindings v _ _
  | function site name parameters body =>
    simp only [Node.view, identifierRule, signs_append, signs_flatMap, List.flatMap_map]
    congr 1
    · exact signs_nameFindings v _ _
    · exact List.flatMap_congr fun p _ => signs_nameFindings v _ _
  | _ => rfl

theorem signs_scopeFindings (after : Bool) (statements : List Node) :
    signs .bare (scopeFindings after (statements.map (Node.view v))) =
      signs v (scopeFindings after statements) := by
  induction statements generalizing after with
  | nil => rfl
  | cons n statements ih =>
    cases n with
    | constDecl site target initializer =>
      simp only [List.map_cons, Node.view, Node.view?_eq_map, scopeFindings, signs_append, ih,
        signs_constantFindings]
    | _ => exact ih _

theorem signs_constantRule (n : Node) :
    signs .bare (constantRule (n.view v)) = signs v (constantRule n) := by
  cases n with
  | script site statements =>
    rw [Node.view, Node.viewAll_eq_map]
    exact signs_scopeFindings v false statements
  | function site name parameters body =>
    rw [Node.view, Node.viewAll_eq_map]
    exact signs_scopeFindings v false body
  | _ => rfl

theorem signs_functionRule (n : Node) :
    signs .bare (functionRule (n.view v)) = signs v (functionRule n) := by
  cases n with
  | function site name parameters body =>
    have hname := signs_functionNameFindings v "Function name" name site.location.line
    have hparameters : (parameters.flatMap fun p => signs .bare
        (functionNameFindings "Function parameter" p.name (v.line p.site.location.line))) =
        parameters.flatMap fun p => signs v
          (functionNameFindings "Function parameter" p.name p.site.location.line) :=
      List.flatMap_congr fun p _ => signs_functionNameFindings v _ _ _
    simp only [Node.view, functionRule, signs_ite, signs_append, signs_flatMap, List.flatMap_map,
      Node.viewAll_eq_map, List.isEmpty_map, Site.view, Location.view, Identifier.viewDeclared,
      hname, hparameters]
    rfl
  | _ => rfl

/-! ## Element look-ups -/

theorem contains_text (ids : List String) (id : String) :
    (ids.map v.text).contains (v.text id) = ids.contains id := by
  rw [Bool.eq_iff_iff, List.contains_iff_mem, List.contains_iff_mem,
    List.mem_map_of_injective v.text_injective]

/-- The id in a quoted text, as a view spells it. -/
theorem ofList_unquoted_respell (quoted : List Char) :
    String.ofList (Text.unquoted (Text.respell (Text.lineEnd v.returns) quoted)) =
      v.text (String.ofList (Text.unquoted quoted)) := by
  rw [Text.unquoted_respell (Text.lineEnd_isLineEnd v.returns), View.text, String.toList_ofList]

theorem signs_dataInputRule (ids : List String) (n : Node) :
    signs .bare (dataInputRule (ids.map v.text) (n.view v)) = signs v (dataInputRule ids n) := by
  have hw := Text.lineEnd_isLineEnd v.returns
  cases n with
  | call site callee arguments =>
    cases arguments with
    | nil => rfl
    | cons a arguments =>
      cases a with
      | identifier argument =>
        simp only [Node.view, Node.viewAll, dataInputRule, Identifier.view, v.toList_text,
          Text.isQuoted_respell hw, ofList_unquoted_respell, contains_text,
          Text.occursIn_respell hw lookupMethod (by decide) (by decide), signs_ite]
        rfl
      | _ => rfl
  | _ => rfl

theorem signs_dataOutputRule (ids : List String) (n : Node) :
    signs .bare (dataOutputRule (ids.map v.text) (n.view v)) = signs v (dataOutputRule ids n) := by
  have hw := Text.lineEnd_isLineEnd v.returns
  cases n with
  | assignment site target operator value =>
    simp only [Node.view, dataOutputRule, Identifier.view, v.toList_text,
      Text.occursIn_respell hw contentProperty (by decide) (by decide),
      Text.lookedUp?_respell hw]
    split
    · cases lookedUp? target.name.toList with
      | none => rfl
      | some quoted =>
        simp only [Option.map_some, ofList_unquoted_respell, contains_text, signs_ite]
        rfl
    · rfl
  | _ => rfl

/-! ## Assignments -/

theorem signs_operatorFindings (n : Node) :
    signs .bare (operatorFindings (n.view v)) = signs v (operatorFindings n) := by
  cases n with
  | assignment site target operator value =>
    simp only [Node.view, operatorFindings, signs_ite]
    rfl
  | _ => rfl

theorem signs_assignmentsFrom (chained : List Nat) (vs : List Visit) :
    signs .bare (assignmentsFrom chained (vs.map (Visit.view v))).1 =
      signs v (assignmentsFrom chained vs).1 := by
  induction vs generalizing chained with
  | nil => rfl
  | cons visit vs ih =>
    have hlinks : (visit.view v).node.links = visit.node.links.map (Node.view v) :=
      Node.view_links v visit.node
    have hchecked : isChecked chained (visit.view v) = isChecked chained visit := by
      simp [isChecked, Visit.view]
    have hlabels : (visit.node.links.map (Node.view v)).filterMap Node.label =
        visit.node.links.filterMap Node.label := by
      rw [List.filterMap_map]
      exact List.filterMap_congr fun n _ => Node.view_label v n
    rw [List.map_cons, assignmentsFrom, assignmentsFrom]
    simp only [hlinks, hchecked, hlabels, List.isEmpty_map, List.length_map]
    split
    · exact ih chained
    split
    · simp only [signs_append, ih]
      congr 1
      exact signs_operatorFindings v visit.node
    · simp only [signs_append, ih, signs_flatMap, List.flatMap_map]
      congr 1
      exact List.flatMap_congr fun n _ => signs_operatorFindings v n

/-! ## The skeleton -/

theorem isTagNamed_view {name : String} (hname : ∀ c ∈ name.toList, Text.Plain c) (n : Node) :
    isTagNamed name (n.view v) = isTagNamed name n := by
  cases n with
  | tag site tagName attributes children selfClosing closing =>
    simp only [Node.view, isTagNamed, Node.tagName?, v.lowered_text]
    rw [Bool.eq_iff_iff, beq_iff_eq, beq_iff_eq, v.text_eq_iff hname]
  | _ => rfl

theorem isHtml_view (n : Node) : isHtml (n.view v) = isHtml n := by
  have hname : ∀ name : String, (lowered (v.text name) == "html") = (lowered name == "html") := by
    intro name
    rw [v.lowered_text, Bool.eq_iff_iff, beq_iff_eq, beq_iff_eq, v.text_eq_iff (by decide)]
  cases n with
  | tag site name attributes children selfClosing closing => exact hname name
  | attr a => exact hname a.name
  | function site name parameters body => rfl
  | identifier i => exact hname i.name
  | _ => rfl

theorem htmlTag?_view (d : Document) :
    htmlTag? (d.view v) = (htmlTag? d).map (Node.view v) := by
  rw [htmlTag?, htmlTag?, Document.view]
  cases d.root with
  | some root => rfl
  | none =>
    have hhtml : isHtml ∘ Node.view v = isHtml := funext (isHtml_view v)
    simp only [Option.map_none, List.find?_map, hhtml]

theorem signs_skeletonFindings (hfirst : v.line 1 = 1) (d : Document) :
    signs .bare (skeletonFindings (d.view v)) = signs v (skeletonFindings d) := by
  rw [skeletonFindings, skeletonFindings, htmlTag?_view]
  cases htmlTag? d with
  | none => simp [signs, skeletonFinding, hfirst]
  | some html =>
    have hany : ∀ name : String, (∀ c ∈ name.toList, Text.Plain c) →
        (html.view v).children.any (isTagNamed name) = html.children.any (isTagNamed name) := by
      intro name hname
      rw [Node.view_children, List.any_map]
      congr 1
      funext n
      exact isTagNamed_view v hname n
    simp only [Option.map_some, hany "head" (by decide),
      hany "body" (by decide), signs_append, signs_ite, Node.view_line]
    rfl

theorem signs_doctypeFindings (hfirst : v.line 1 = 1) (config : Config) {d : Document}
    (hdoctype : ∀ n ∈ d.doctype, v.line n.line = n.line) :
    signs .bare (doctypeFindings config (d.view v)) = signs v (doctypeFindings config d) := by
  rw [doctypeFindings, doctypeFindings, Document.view]
  cases hd : d.doctype with
  | none => simp [signs, skeletonFinding, hfirst]
  | some n =>
    simp only [Option.map_some, Node.view_line, hdoctype n hd]
    split
    · simp [signs, skeletonFinding, hdoctype n hd]
    · rfl

end Rule

/-! ## Passes -/

/-- What one pass finds in a document as a view shows it. -/
theorem signs_run (v : View) (hfirst : v.line 1 = 1) (config : Config) (ids : List String)
    {d : Document} (hdoctype : ∀ n ∈ d.doctype, v.line n.line = n.line) (pass : Pass) :
    signs .bare (pass.run config (ids.map v.text) (d.view v)).1 =
      signs v (pass.run config ids d).1 := by
  -- A pass that looks at one node at a time walks over the shown document alike.
  have hwalk : ∀ {rule rule' : Node → List Finding},
      (∀ n, signs .bare (rule' (n.view v)) = signs v (rule n)) →
      signs .bare ((d.view v).toNode.walk.flatMap rule') =
        signs v (d.toNode.walk.flatMap rule) := by
    intro rule rule' hrule
    rw [← Node.view_toNode, Node.view_walk, signs_flatMap, signs_flatMap, List.flatMap_map]
    exact List.flatMap_congr fun n _ => hrule n
  cases pass with
  | identifiers => exact hwalk (Rule.signs_identifierRule v)
  | constants => exact hwalk (Rule.signs_constantRule v)
  | functions => exact hwalk (Rule.signs_functionRule v)
  | dataInput => exact hwalk (Rule.signs_dataInputRule v ids)
  | dataOutput => exact hwalk (Rule.signs_dataOutputRule v ids)
  | assignments =>
    rw [Pass.run, ← Node.view_toNode, Node.view_visits]
    exact Rule.signs_assignmentsFrom v [] d.toNode.visits
  | doctype => exact Rule.signs_doctypeFindings v hfirst config hdoctype
  | skeleton => exact Rule.signs_skeletonFindings v hfirst d

/-- **Two pages with the same view are alike to the passes**: the second one shows the first one
with its lines moved, and so do the findings. -/
theorem signs_findingsOf (v : View) (hfirst : v.line 1 = 1) (config : Config)
    {ids ids' : List String} (hids : ids' = ids.map v.text) {d d' : Document}
    (hdoctype : ∀ n ∈ d.doctype, v.line n.line = n.line) (hview : d'.view .bare = d.view v)
    (passes : List Pass) :
    signs .bare (findingsOf config ids' d' passes) = signs v (findingsOf config ids d passes) := by
  -- What the bare view leaves out, no pass looks at.
  have hbare : ∀ pass : Pass, signs .bare (pass.run config ids' (d'.view .bare)).1 =
      signs .bare (pass.run config ids' d').1 := by
    intro pass
    have h := signs_run .bare rfl config ids' (d := d') (fun _ _ => rfl) pass
    rwa [List.map_congr_left (g := id) fun s _ => View.text_bare s, List.map_id] at h
  rw [findingsOf, findingsOf, signs_flatMap, signs_flatMap]
  refine List.flatMap_congr fun pass _ => ?_
  rw [← hbare pass, hview, hids]
  exact signs_run v hfirst config ids hdoctype pass

end PageLint
