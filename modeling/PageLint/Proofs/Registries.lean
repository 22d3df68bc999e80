import PageLint.Proofs.DeclaredNames
import PageLint.Proofs.Grammar.Sites
import PageLint.Proofs.Regions.Encounters

/-!
# Registries and the tree

While a page is read, the ids of its elements and the names that it declares are written down as
they are met, before the tags and functions around them are finished. In the end the registries say
what the tree says: the ids are those of its tags, and the names are those of its declarations, both
in preorder and with repetitions. Only a script that stands outside all tags is not in the tree,
while its names have been written down.

* `Progress.Registers` — items are added, with the ids and names in them
* `registries_agree` — the ids and the names of a page are those of its tree
-/

namespace PageLint

/-! ## Registries of items -/

/-- The ids that an item gives. -/
def Item.ids : Item → List String
  | .opening o => Progress.idsOf o.attributes
  | .leaf _ => []

/-- The names that are declared in an item. -/
def Item.names : Item → List String := Item.listing (fun n => n.declared?.toList) fun _ => []

/-- The names declared in a script are those that its statements declare. -/
theorem names_scriptNode (config : Config) (opening : Token) (inside : List Token) :
    (Item.leaf (scriptNode config opening inside)).names = (harvestOf config inside).declared := by
  rw [(harvestOf_yields config inside).2, declaredIn, List.filterMap_eq_flatMap_toList, Item.names,
    Item.listing, Node.preorder_eq]
  rfl

namespace Progress

/-- Items have been added, with the ids and names in them. -/
structure Registers (p : Progress) (new : List Item) (q : Progress) : Prop where
  items : q.forest.items = p.forest.items ++ new
  ids : q.elementIds = p.elementIds ++ new.flatMap Item.ids
  names : q.declaredNames = p.declaredNames ++ new.flatMap Item.names

theorem Registers.refl (p : Progress) : p.Registers [] p :=
  ⟨(List.append_nil _).symm, (List.append_nil _).symm, (List.append_nil _).symm⟩

theorem Registers.trans {p q r : Progress} {new more : List Item} (h : p.Registers new q)
    (h' : q.Registers more r) : p.Registers (new ++ more) r where
  items := by rw [h'.items, h.items, List.append_assoc]
  ids := by rw [h'.ids, h.ids, List.flatMap_append, List.append_assoc]
  names := by rw [h'.names, h.names, List.flatMap_append, List.append_assoc]

/-- What adds nothing and registers nothing. -/
theorem Registers.of_same {p q : Progress} (items : q.forest.items = p.forest.items)
    (ids : q.elementIds = p.elementIds) (names : q.declaredNames = p.declaredNames) :
    p.Registers [] q :=
  ⟨items.trans (List.append_nil _).symm, ids.trans (List.append_nil _).symm,
    names.trans (List.append_nil _).symm⟩

theorem closeTag_registers (p : Progress) (name : String) (location : Location) :
    p.Registers [] (p.closeTag name location) := by
  refine .of_same (items_closeTag p name location) ?_ (closeTag_declaredNames p name location)
  unfold closeTag
  split <;> rfl

theorem openTag_registers (config : Config) (p : Progress) (opening : Opening) :
    p.Registers [.opening opening] (p.openTag config opening) where
  items := items_openTag config p opening
  ids := by rw [List.flatMap_singleton]; rfl
  names := (List.append_nil _).symm

theorem foldl_readSpan_registers (config : Config) (t : Token) (p : Progress)
    (spans : List Markup.Span) : ∃ new, p.Registers new (spans.foldl (readSpan config t) p) := by
  induction spans generalizing p with
  | nil => exact ⟨[], .refl p⟩
  | cons span spans ih =>
    obtain ⟨new, hnew⟩ : ∃ new, p.Registers new (p.readSpan config t span) := by
      simp only [readSpan]
      split
      · exact ⟨[], closeTag_registers p _ _⟩
      · split
        · exact ⟨[], .refl p⟩
        · exact ⟨_, openTag_registers config p _⟩
    obtain ⟨more, hmore⟩ := ih (p.readSpan config t span)
    exact ⟨new ++ more, hnew.trans hmore⟩

/-- A text that is added has no ids and declares nothing. -/
theorem addLeaf_text_registers (p : Progress) (site : Site) (content : String) :
    ∃ new, p.Registers new { p with forest := p.forest.addLeaf (.text site content) } := by
  cases hopen : p.forest.openTags.isEmpty with
  | true => exact ⟨[], .of_same (by simp [Forest.items_addLeaf, hopen]) rfl rfl⟩
  | false =>
    refine ⟨[.leaf (.text site content)], ?_, (List.append_nil _).symm, ?_⟩
    · simp [Forest.items_addLeaf, hopen]
    · rw [List.flatMap_singleton, Item.names, Item.listing, Node.preorder_eq]
      exact (List.append_nil _).symm

/-- **Markup is registered as it is added.** -/
theorem readMarkup_registers (config : Config) (p : Progress) (t : Token) :
    ∃ new, p.Registers new (p.readMarkup config t) := by
  unfold readMarkup
  cases t.kind with
  | tagOpen => exact foldl_readSpan_registers config t p _
  | tagClose => exact ⟨[], closeTag_registers p _ _⟩
  | text =>
    simp only
    split
    · exact ⟨[], .refl p⟩
    · exact addLeaf_text_registers p _ _
  | doctype =>
    simp only
    split
    · exact ⟨[], .of_same rfl rfl rfl⟩
    · exact ⟨[], .refl p⟩
  | scriptOpen => exact ⟨[], .of_same rfl rfl rfl⟩
  | _ => exact ⟨[], .refl p⟩

/-- A script inside a tag is registered as it is added. -/
theorem add_script_registers (config : Config) {p : Progress}
    (hopen : p.forest.openTags.isEmpty = false) (opening : Token) (inside : List Token) :
    p.Registers [.leaf (scriptNode config opening inside)]
      (p.add config (.script opening inside)) where
  items := by simp [add, Forest.items_addLeaf, hopen]
  ids := (List.append_nil _).symm
  names := by rw [List.flatMap_singleton, names_scriptNode]; rfl

/-! ## What chunks register -/

/-- The ids that have been registered are those of the items. -/
theorem ids_foldl_add (config : Config) {p : Progress}
    (hp : p.elementIds = p.forest.items.flatMap Item.ids) (cs : List Chunk) :
    (cs.foldl (add config) p).elementIds =
      (cs.foldl (add config) p).forest.items.flatMap Item.ids := by
  induction cs generalizing p with
  | nil => exact hp
  | cons c cs ih =>
    refine ih ?_
    cases c with
    | markup t =>
      obtain ⟨new, hnew⟩ := readMarkup_registers config p t
      show (p.readMarkup config t).elementIds = _
      rw [hnew.ids, hp, add, hnew.items, List.flatMap_append]
    | script opening inside =>
      show p.elementIds = ((p.forest.addLeaf _).items).flatMap Item.ids
      rw [hp, Forest.items_addLeaf, List.flatMap_append]
      split <;> exact (List.append_nil _).symm

/-- The names that have been registered are those of the items, when every script that is added
stands inside a tag. -/
theorem names_foldl_add (config : Config) {p : Progress}
    (hp : p.declaredNames = p.forest.items.flatMap Item.names) {cs : List Chunk}
    (hopen : ∀ before opening inside after, cs = before ++ .script opening inside :: after →
      (before.foldl (add config) p).forest.openTags.isEmpty = false) :
    (cs.foldl (add config) p).declaredNames =
      (cs.foldl (add config) p).forest.items.flatMap Item.names := by
  induction cs generalizing p with
  | nil => exact hp
  | cons c cs ih =>
    obtain ⟨new, hnew⟩ : ∃ new, p.Registers new (p.add config c) := by
      cases c with
      | markup t => exact readMarkup_registers config p t
      | script opening inside =>
        exact ⟨_, add_script_registers config (hopen [] opening inside cs rfl) opening inside⟩
    refine ih ?_ fun before opening inside after hsplit => ?_
    · rw [hnew.names, hp, hnew.items, List.flatMap_append]
    · exact hopen (c :: before) opening inside after (by rw [hsplit, List.cons_append])

end Progress

/-! ## Pages -/

/-- The ids of the tags among nodes, in order. -/
def idsIn (ns : List Node) : List String :=
  (ns.filter Node.isTag).flatMap fun tag =>
    (tag.attributes.filter fun a => lowered a.name == "id").map Attribute.value

theorem Node.attributes_eq_nil {n : Node} (h : n.isTag = false) : n.attributes = [] := by
  cases n <;> first | rfl | simp [Node.isTag, Node.kind] at h

theorem idsIn_eq_flatMap (ns : List Node) :
    idsIn ns = ns.flatMap fun n => Progress.idsOf n.attributes := by
  induction ns with
  | nil => rfl
  | cons n ns ih =>
    rw [List.flatMap_cons, ← ih, idsIn, List.filter_cons]
    split
    · rfl
    · rename_i htag
      rw [Node.attributes_eq_nil (Bool.eq_false_iff.2 htag)]
      rfl

theorem Page.Shows.elementIds_eq {config : Config} {ts : List Token} {file : Option String}
    {page : Page} (h : page.Shows file (progressOf config ts)) :
    page.elementIds = idsIn page.document.toNode.preorder := by
  have hids : (progressOf config ts).elementIds =
      (progressOf config ts).forest.items.flatMap Item.ids :=
    Progress.ids_foldl_add config rfl (chunks ts)
  rw [h.elementIds, hids, idsIn_eq_flatMap, Node.preorder_eq, List.flatMap_cons]
  show _ = [] ++ (page.document.children.flatMap Node.preorder).flatMap _
  rw [List.nil_append,
    h.nodes_flatMap_items (g := fun o => Progress.idsOf o.attributes) fun o ns => rfl]
  refine List.flatMap_congr fun i hi => ?_
  obtain ⟨c, -, hitem⟩ := from_of_mem_items hi
  cases hitem with
  | opening => rfl
  | text => rw [Item.listing, Node.preorder_eq]; rfl
  | script opening inside =>
    -- A node without attributes gives no ids.
    refine (List.flatMap_eq_nil_iff.2 fun m hm => ?_).symm
    rw [Node.attributes_eq_nil (isTag_of_mem_scriptNode hm)]
    rfl

/-- The names of a page are those of its declarations, when every script stands inside a tag. -/
theorem Page.Shows.declaredNames_eq {config : Config} {ts : List Token} {file : Option String}
    {page : Page} (h : page.Shows file (progressOf config ts))
    (hopen : ∀ before opening inside after, chunks ts = before ++ .script opening inside :: after →
      (before.foldl (Progress.add config) {}).forest.openTags.isEmpty = false) :
    page.declaredNames = page.document.toNode.preorder.filterMap Node.declared? := by
  have hnames : (progressOf config ts).declaredNames =
      (progressOf config ts).forest.items.flatMap Item.names :=
    Progress.names_foldl_add config rfl hopen
  rw [h.declaredNames, hnames, List.filterMap_eq_flatMap_toList, Node.preorder_eq,
    List.flatMap_cons]
  exact (h.nodes_flatMap_items fun o ns => rfl).symm

/-- The loop over a page meets no script while no tag is open. -/
def ScriptsInTags (config : Config) (source : String) (file : Option String) : Prop :=
  ∀ q t us, Progress.Reaches config { events := (scan source file).events } (tokenize source file)
    q (t :: us) → q.region = none → t.kind = .scriptOpen → q.forest.openTags.isEmpty = false

/-- **The registries say what the tree says**: the ids of a page are those of its tags in preorder,
and the names that it declares are those of the declarations on a walk over its tree, unless a
script is met while no tag is open. -/
theorem registries_agree {config : Config} (hlimit : 1 ≤ config.maxExpressionTokens)
    (source : String) (file : Option String) : ∃ page, readPage? config source file = some page ∧
      page.elementIds = idsIn page.document.toNode.preorder ∧
      (ScriptsInTags config source file →
        page.declaredNames = page.document.toNode.walk.filterMap Node.declared?) := by
  obtain ⟨page, hpage, hshows⟩ := readPage?_shows hlimit source file
  refine ⟨page, hpage, hshows.elementIds_eq, fun hscripts => ?_⟩
  rw [Node.walk_eq_preorder hshows.distinct]
  refine hshows.declaredNames_eq fun before opening inside after hsplit => ?_
  let start : Progress := { events := (scan source file).events }
  obtain ⟨q, us, hreach, hkind, hregion, hsilent⟩ :=
    Progress.reaches_script hlimit (p := start) (Or.inl rfl) hsplit
  have hforest : q.forest = (before.foldl (Progress.add config) {}).forest := by
    have hfold := Progress.foldl_add_silent config before
      (show start.finish.silent = ({} : Progress).silent from rfl)
    show q.silent.forest = (before.foldl (Progress.add config) {}).silent.forest
    rw [hsilent.trans hfold]
  rw [← hforest]
  exact hscripts q opening us hreach hregion hkind

/-- The turns of a page start with the first one. -/
theorem Progress.Reaches.cases_first {config : Config} {p q : Progress} {t : Token}
    {ts us : List Token} (h : Progress.Reaches config p (t :: ts) q us) :
    (q = p ∧ us = t :: ts) ∨ ∃ p' ts', p.turn? config t ts = some (p', ts') ∧
      Progress.Reaches config p' ts' q us := by
  induction h with
  | start => exact Or.inl ⟨rfl, rfl⟩
  | turn _ ht hturn ih =>
    rcases ih with ⟨rfl, heq⟩ | ⟨p', ts', hfirst, hrest⟩
    · obtain ⟨rfl, rfl⟩ := List.cons.inj heq
      exact Or.inr ⟨_, _, hturn, .start⟩
    · exact Or.inr ⟨p', ts', hfirst, .turn hrest ht hturn⟩

/-- The turns of a page leave a suffix of its tokens. -/
theorem Progress.Reaches.suffix {config : Config} {p q : Progress} {ts us : List Token}
    (h : Progress.Reaches config p ts q us) : us <:+ ts := by
  induction h with
  | start => exact List.suffix_rfl
  | turn _ _ hturn ih => exact ((turn?_suffix hturn).trans (List.suffix_cons _ _)).trans ih

/-- A page with an id in capital letters and a declaration in a function. -/
def registeredPage : String := "<body ID=b><script>function f() \x7b let a; \x7d</script></body>"

/-- The only script of the page is met behind the opening tag of the body. -/
theorem registeredPage_scriptsInTags : ScriptsInTags {} registeredPage none := by
  intro q t us hreach hregion hkind
  let body : Token :=
    { kind := .tagOpen, text := "<body ID=b>", line := 1, column := 1, offset := 0 }
  let script : Token :=
    { kind := .scriptOpen, text := "<script>", line := 1, column := 12, offset := 11 }
  have htokens : tokenize registeredPage none =
      body :: script :: (tokenize registeredPage none).drop 2 := by decide +kernel
  have hothers : ∀ t ∈ (tokenize registeredPage none).drop 2, t.kind ≠ .scriptOpen := by
    decide +kernel
  rw [htokens] at hreach
  rcases hreach.cases_first with ⟨-, heq⟩ | ⟨p, ts, hfirst, hreach⟩
  · rw [(List.cons.inj heq).1] at hkind
    exact absurd hkind (by decide)
  obtain ⟨rfl, rfl⟩ := Prod.mk.inj (Option.some.inj hfirst)
  rcases hreach.cases_first with ⟨rfl, -⟩ | ⟨p, ts, hsecond, hreach⟩
  · decide +kernel
  · have hmem : t ∈ (tokenize registeredPage none).drop 2 :=
      (hreach.suffix.trans (Progress.turn?_suffix hsecond)).subset List.mem_cons_self
    exact absurd hkind (hothers t hmem)

theorem registeredPage_agrees : 1 ≤ ({} : Config).maxExpressionTokens ∧
    ScriptsInTags {} registeredPage none ∧ ∃ page, readPage? {} registeredPage none = some page ∧
      page.elementIds = idsIn page.document.toNode.preorder ∧
      page.declaredNames = page.document.toNode.walk.filterMap Node.declared? := by
  obtain ⟨page, hpage, hids, hnames⟩ := @registries_agree {} (by decide) registeredPage none
  exact ⟨by decide, registeredPage_scriptsInTags, page, hpage, hids,
    hnames registeredPage_scriptsInTags⟩

end PageLint
