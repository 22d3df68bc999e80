import PageLint.Proofs.Grammar.Statements
import PageLint.Proofs.Markup.Conservation
import PageLint.Proofs.Passes.Walks

/-!
# What a page is made of

Every item of a page comes from one of its chunks: an opening tag from a span of a token, a text
from its token, a script from the tokens inside it. What is to be known about all nodes of a
document is therefore shown for these three.

* `Item.From` — the items that a chunk may add
* `Page.Shows.induction` — what tags have from their children and leaves have holds at the top level
* `Page.Shows.nodes_flatMap` — what the nodes of a document list in preorder, its pieces list
-/

namespace PageLint

/-! ## Scripts -/

/-- The tokens inside a script give statements, with the names that they declare. -/
theorem harvestOf_yields (config : Config) (inside : List Token) :
    Along (Statement config.maxExpressionTokens) inside (harvestOf config inside).statements ∧
      (harvestOf config inside).declared = declaredIn (harvestOf config inside).statements := by
  rw [harvestOf]
  cases h : scriptFrom? config inside with
  | none => exact ⟨.nil inside, rfl⟩
  | some found =>
    obtain ⟨⟨taken, rfl, along⟩, hdeclared⟩ := scriptFrom?_yields h
    exact ⟨along.append_right found.rest, hdeclared⟩

/-- There are no tags in a script. -/
theorem isTag_of_mem_scriptNode {config : Config} {opening : Token} {inside : List Token} {n : Node}
    (h : n ∈ (scriptNode config opening inside).preorder) : n.isTag = false := by
  have hleaf := isLeaf_scriptNode config opening inside
  rw [Node.preorder_eq] at h
  rcases List.mem_cons.1 h with rfl | h
  · exact hleaf.notTag
  · exact Node.isTag_eq_false_of_piece? (hleaf.piece?_of_mem h)

/-! ## Where items come from -/

/-- An item that a chunk may add to a page. -/
inductive Item.From (config : Config) : Chunk → Item → Prop
  | opening {t : Token} {span : Markup.Span} {tag : Markup.TagText} (kind : t.kind = .tagOpen)
      (mem : span ∈ Markup.spans t.text.toList) (read : Markup.TagText.read? span.text = some tag)
      (serial : Nat) :
      From config (.markup t)
        (.opening (Progress.openingOf serial (spanLocation t span) tag))
  | text {t : Token} (kind : t.kind = .text) : From config (.markup t) (.leaf (.text t.site t.text))
  | script (opening : Token) (inside : List Token) :
      From config (.script opening inside) (.leaf (scriptNode config opening inside))

namespace Progress

theorem items_closeTag (p : Progress) (name : String) (location : Location) :
    (p.closeTag name location).forest.items = p.forest.items := by
  unfold closeTag
  split
  · rename_i hclose
    exact Forest.items_close? hclose
  · rfl

theorem items_openTag (config : Config) (p : Progress) (opening : Opening) :
    (p.openTag config opening).forest.items = p.forest.items ++ [.opening opening] := by
  simp only [openTag]
  split
  · exact Forest.items_addFrame _ _
  · exact Forest.items_openFrame _ _

section Items

variable {P : Item → Prop} {p : Progress} (hp : ∀ i ∈ p.forest.items, P i)

include hp

theorem forall_items_addLeaf {n : Node} (hn : P (.leaf n)) :
    ∀ i ∈ (p.forest.addLeaf n).items, P i := by
  rw [Forest.items_addLeaf]
  split
  · simpa using hp
  · rw [List.forall_mem_append]
    exact ⟨hp, by simpa using hn⟩

theorem forall_items_readSpan (config : Config) {t : Token} {span : Markup.Span}
    (hspan : ∀ tag, Markup.TagText.read? span.text = some tag → ∀ serial,
      P (.opening (openingOf serial (spanLocation t span) tag))) :
    ∀ i ∈ (p.readSpan config t span).forest.items, P i := by
  simp only [readSpan]
  split
  · rw [items_closeTag]
    exact hp
  · split
    · exact hp
    · rename_i tag hread
      rw [items_openTag, List.forall_mem_append]
      exact ⟨hp, List.forall_mem_singleton.2 (hspan tag hread p.nextSerial)⟩

theorem forall_items_foldl_readSpan (config : Config) {t : Token} {spans : List Markup.Span}
    (hspans : ∀ span ∈ spans, ∀ tag, Markup.TagText.read? span.text = some tag → ∀ serial,
      P (.opening (openingOf serial (spanLocation t span) tag))) :
    ∀ i ∈ (spans.foldl (readSpan config t) p).forest.items, P i := by
  induction spans generalizing p with
  | nil => exact hp
  | cons span spans ih =>
    rw [List.forall_mem_cons] at hspans
    exact ih (forall_items_readSpan hp config hspans.1) hspans.2

/-- **What holds of the items that a chunk may add holds behind the chunk.** -/
theorem forall_items_add {config : Config} {c : Chunk} (hc : ∀ i, i.From config c → P i) :
    ∀ i ∈ (p.add config c).forest.items, P i := by
  cases c with
  | script opening inside => exact forall_items_addLeaf hp (hc _ (.script opening inside))
  | markup t =>
    rw [add, readMarkup]
    cases hk : t.kind with
    | tagOpen =>
      refine forall_items_foldl_readSpan hp config fun span hmem tag hread serial => ?_
      exact hc _ (.opening hk hmem hread serial)
    | tagClose =>
      simp only [items_closeTag]
      exact hp
    | text =>
      simp only
      split
      · exact hp
      · exact forall_items_addLeaf hp (hc _ (.text hk))
    | doctype => simp only; split <;> exact hp
    | _ => exact hp

theorem forall_items_foldl_add {config : Config} {cs : List Chunk}
    (hcs : ∀ c ∈ cs, ∀ i, i.From config c → P i) :
    ∀ i ∈ (cs.foldl (add config) p).forest.items, P i := by
  induction cs generalizing p with
  | nil => exact hp
  | cons c cs ih =>
    rw [List.forall_mem_cons] at hcs
    exact ih (forall_items_add hp hcs.1) hcs.2

end Items

end Progress

/-- **Every item of a page comes from a chunk.** -/
theorem from_of_mem_items {config : Config} {ts : List Token} {i : Item}
    (h : i ∈ (progressOf config ts).forest.items) : ∃ c ∈ chunks ts, i.From config c := by
  have hstart : ∀ i ∈ ({} : Progress).forest.items, ∃ c ∈ chunks ts, i.From config c := by
    simp [Forest.items, Forest.frames]
  exact Progress.forall_items_foldl_add hstart (fun c hc i hi => ⟨c, hc, hi⟩) i h

/-! ## Doctypes -/

namespace Progress

theorem closeTag_doctype (p : Progress) (name : String) (location : Location) :
    (p.closeTag name location).doctype = p.doctype := by
  unfold closeTag
  split <;> rfl

theorem foldl_readSpan_doctype (config : Config) (t : Token) (p : Progress)
    (spans : List Markup.Span) : (spans.foldl (readSpan config t) p).doctype = p.doctype := by
  induction spans generalizing p with
  | nil => rfl
  | cons span spans ih =>
    rw [List.foldl_cons, ih]
    simp only [readSpan]
    split
    · exact closeTag_doctype p _ _
    · split <;> rfl

/-- A doctype is that of a token outside scripts. -/
theorem forall_doctype_add {P : Node → Prop} {p : Progress} (hp : ∀ n ∈ p.doctype, P n)
    (config : Config) {c : Chunk}
    (hc : ∀ t, c = .markup t → t.kind = .doctype → P (doctypeNode t)) :
    ∀ n ∈ (p.add config c).doctype, P n := by
  cases c with
  | script opening inside => exact hp
  | markup t =>
    rw [add, readMarkup]
    cases hkind : t.kind with
    | doctype =>
      simp only
      split
      · rintro n ⟨⟩
        exact hc t rfl hkind
      · exact hp
    | tagOpen => simpa only [foldl_readSpan_doctype] using hp
    | tagClose => simpa only [closeTag_doctype] using hp
    | text => simp only; split <;> exact hp
    | _ => exact hp

theorem forall_doctype_foldl_add {P : Node → Prop} {p : Progress} (hp : ∀ n ∈ p.doctype, P n)
    (config : Config) {cs : List Chunk}
    (hcs : ∀ t, .markup t ∈ cs → t.kind = .doctype → P (doctypeNode t)) :
    ∀ n ∈ (cs.foldl (add config) p).doctype, P n := by
  induction cs generalizing p with
  | nil => exact hp
  | cons c cs ih =>
    refine ih (forall_doctype_add hp config fun t ht => hcs t ?_) fun t ht => hcs t ?_
    · exact ht ▸ List.mem_cons_self
    · exact List.mem_cons_of_mem c ht

end Progress

/-! ## The nodes of a document -/

/-- Content that is built up from the items in it. -/
theorem Content.inductionOnItems {P : Node → Prop} (c : Content)
    (leaf : ∀ n, .leaf n ∈ c.items → P n)
    (tag : ∀ o, .opening o ∈ c.items → ∀ ns, (∀ n ∈ ns, P n) → P (o.toTag ns)) : P c.toNode := by
  cases c with
  | leaf n => exact leaf n (by simp [Content.items])
  | element o cs =>
    rw [Content.toNode, Content.toNodes_eq_map]
    have hinner : ∀ c ∈ cs, ∀ i ∈ c.items, i ∈ (Content.element o cs).items := by
      intro c hc i hi
      rw [Content.items, Content.itemsOf_eq_flatMap]
      exact List.mem_cons_of_mem _ (List.mem_flatMap.2 ⟨c, hc, hi⟩)
    refine tag o (by simp [Content.items]) _ fun n hn => ?_
    obtain ⟨c, hc, rfl⟩ := List.mem_map.1 hn
    exact Content.inductionOnItems c (fun n hn => leaf n (hinner c hc _ hn))
      fun o ho => tag o (hinner c hc _ ho)

/-- What items list in the place of the nodes that are made of them. -/
def Item.listing {β : Type} (f : Node → List β) (g : Opening → List β) : Item → List β
  | .opening o => g o
  | .leaf n => n.preorder.flatMap f

/-- **What the nodes of content list in preorder, its items list**, when a tag lists the same
whatever its children. -/
theorem Content.preorder_flatMap {β : Type} {f : Node → List β} {g : Opening → List β}
    (hf : ∀ o ns, f (o.toTag ns) = g o) (c : Content) :
    c.toNode.preorder.flatMap f = c.items.flatMap (Item.listing f g) := by
  cases c with
  | leaf n =>
    rw [Content.items, List.flatMap_singleton]
    rfl
  | element o cs =>
    rw [Content.preorder_element, Content.items, Content.itemsOf_eq_flatMap, List.flatMap_cons,
      List.flatMap_cons, hf, List.flatMap_assoc, List.flatMap_assoc]
    exact congrArg _ (List.flatMap_congr fun c _ => Content.preorder_flatMap hf c)

/-- What holds of a node and of all nodes under its children holds of all nodes under it. -/
theorem Node.forall_preorder {P : Node → Prop} {n : Node} (self : P n)
    (children : ∀ c ∈ n.children, ∀ m ∈ c.preorder, P m) : ∀ m ∈ n.preorder, P m := by
  intro m hm
  rw [Node.preorder_eq] at hm
  rcases List.mem_cons.1 hm with rfl | hm
  · exact self
  · obtain ⟨c, hc, hm⟩ := List.mem_flatMap.1 hm
    exact children c hc m hm

/-- A node under a node under a third is under the third. -/
theorem Node.preorder_trans {n m k : Node} (hm : m ∈ n.preorder) (hk : k ∈ m.preorder) :
    k ∈ n.preorder := by
  induction n using Node.inductionOnChildren with
  | step n ih =>
    rw [Node.preorder_eq] at hm
    rcases List.mem_cons.1 hm with rfl | hm
    · exact hk
    · obtain ⟨c, hc, hpre⟩ := List.mem_flatMap.1 hm
      rw [Node.preorder_eq]
      exact List.mem_cons_of_mem _ (List.mem_flatMap.2 ⟨c, hc, ih c hc hpre⟩)

/-- All nodes of a document: those of its preorder, and its doctype and root with the nodes under
them. -/
def Document.nodes (d : Document) : List Node :=
  d.toNode.preorder ++ (d.doctype.toList ++ d.root.toList).flatMap Node.preorder

/-- A document stands at the start of its source and has the doctype that has been read. -/
theorem Progress.document?_fields {p : Progress} {file : Option String} {d : Document}
    (h : p.document? file = some d) :
    d.site = { location := { line := 1, column := 1, file } } ∧ d.doctype = p.doctype := by
  obtain ⟨frozen, -, h⟩ := Option.bind_eq_some_iff.1 h
  split at h
  · obtain rfl := Option.some.inj h
    exact ⟨rfl, rfl⟩
  · obtain ⟨root, -, h⟩ := Option.bind_eq_some_iff.1 h
    obtain rfl := Option.some.inj h
    exact ⟨rfl, rfl⟩

namespace Page.Shows

variable {config : Config} {ts : List Token} {file : Option String} {page : Page}
  (h : page.Shows file (progressOf config ts))

include h

theorem children : page.document.children = (progressOf config ts).forest.frames.map Frame.toTag :=
  ((rooted_progressOf config ts).document (numbered_progressOf config ts) h.document).1

/-- The root of a document is a tag among its nodes. -/
theorem root_mem : ∀ n ∈ page.document.root,
    n.isTag = true ∧ n ∈ page.document.children.flatMap Node.preorder := by
  intro n hn
  rw [((rooted_progressOf config ts).document (numbered_progressOf config ts) h.document).2] at hn
  exact ⟨Node.isTag_of_isHtml (List.find?_some hn), List.mem_of_find?_eq_some hn⟩

/-- The doctype of a document is that of a token outside scripts. -/
theorem doctype_from : ∀ n ∈ page.document.doctype,
    ∃ t, .markup t ∈ chunks ts ∧ t.kind = .doctype ∧ n = Progress.doctypeNode t := by
  rw [(Progress.document?_fields h.document).2]
  exact Progress.forall_doctype_foldl_add (p := {}) (by simp) config
    fun t ht hkind => ⟨t, ht, hkind, rfl⟩

/-- **What has to be shown of all nodes of a document**: it holds of the document itself, of the
nodes under it and of a doctype. -/
theorem forall_nodes {P : Node → Prop} (document : P page.document.toNode)
    (children : ∀ n ∈ page.document.children, ∀ m ∈ n.preorder, P m)
    (doctype : ∀ t, .markup t ∈ chunks ts → t.kind = .doctype → P (Progress.doctypeNode t)) :
    ∀ n ∈ page.document.nodes, P n := by
  have hunder : ∀ n ∈ page.document.children.flatMap Node.preorder, P n := by
    intro n hn
    obtain ⟨c, hc, hpre⟩ := List.mem_flatMap.1 hn
    exact children c hc n hpre
  intro n hn
  rcases List.mem_append.1 hn with hn | hn
  · rw [Node.preorder_eq] at hn
    rcases List.mem_cons.1 hn with rfl | hn
    · exact document
    · exact hunder n hn
  · rw [List.flatMap_append] at hn
    rcases List.mem_append.1 hn with hn | hn
    · obtain ⟨d, hd, hpre⟩ := List.mem_flatMap.1 hn
      obtain ⟨t, ht, hkind, rfl⟩ := h.doctype_from d (Option.mem_toList.1 hd)
      rw [Node.preorder_eq] at hpre
      obtain rfl : n = Progress.doctypeNode t := by
        simpa [Progress.doctypeNode, Node.children] using hpre
      exact doctype t ht hkind
    · obtain ⟨r, hr, hpre⟩ := List.mem_flatMap.1 hn
      obtain ⟨c, hc, hroot⟩ := List.mem_flatMap.1 (h.root_mem r (Option.mem_toList.1 hr)).2
      exact children c hc n (Node.preorder_trans hroot hpre)

/-- **What leaves have, and tags have whose children have it, all tags at the top level have.** -/
theorem induction {P : Node → Prop}
    (leaf : ∀ c ∈ chunks ts, ∀ n, Item.From config c (.leaf n) → P n)
    (tag : ∀ c ∈ chunks ts, ∀ o, Item.From config c (.opening o) → ∀ ns, (∀ n ∈ ns, P n) →
      P (o.toTag ns)) : ∀ n ∈ page.document.children, P n := by
  rw [h.children]
  intro n hn
  obtain ⟨f, hf, rfl⟩ := List.mem_map.1 hn
  have hfrom : ∀ i ∈ f.toContent.items, ∃ c ∈ chunks ts, i.From config c :=
    fun i hi => from_of_mem_items (List.mem_flatMap.2 ⟨f, hf, hi⟩)
  refine Content.inductionOnItems f.toContent (fun n hn => ?_) fun o ho => ?_
  · obtain ⟨c, hc, hitem⟩ := hfrom _ hn
    exact leaf c hc n hitem
  · obtain ⟨c, hc, hitem⟩ := hfrom _ ho
    exact tag c hc o hitem

/-- What the nodes of a document list in preorder, the items of the page list. -/
theorem nodes_flatMap_items {β : Type} {f : Node → List β} {g : Opening → List β}
    (hf : ∀ o ns, f (o.toTag ns) = g o) :
    (page.document.children.flatMap Node.preorder).flatMap f =
      (progressOf config ts).forest.items.flatMap (Item.listing f g) := by
  rw [h.children, Forest.items, List.flatMap_map, List.flatMap_assoc, List.flatMap_assoc]
  exact List.flatMap_congr fun f _ => Content.preorder_flatMap hf f.toContent

/-- **What the nodes of a document list in preorder, its pieces list.** -/
theorem nodes_flatMap {β : Type} {f : Node → List β} {g : Piece → List β}
    (tag : ∀ (o : Opening) (ns : List Node),
      f (o.toTag ns) = g (.tag o.location o.name o.attributes o.selfClosing))
    (text : ∀ (site : Site) (content : String),
      f (.text site content) = g (.text site.location content))
    (script : ∀ (opening : Token) (inside : List Token),
      (scriptNode config opening inside).preorder.flatMap f =
        g (.script opening.location (harvestOf config inside).statements)) :
    (page.document.children.flatMap Node.preorder).flatMap f =
      (piecesOf config [] (movesOf config ts)).flatMap g := by
  rw [h.nodes_flatMap_items tag, ← pieces_progressOf, Forest.pieces,
    List.filterMap_eq_flatMap_toList, List.flatMap_assoc]
  refine List.flatMap_congr fun i hi => ?_
  obtain ⟨c, -, hitem⟩ := from_of_mem_items hi
  cases hitem with
  | opening => exact (List.flatMap_singleton ..).symm
  | @text t =>
    have hpre : (Node.text t.site t.text).preorder = [.text t.site t.text] := by
      rw [Node.preorder_eq]
      rfl
    show (Node.text t.site t.text).preorder.flatMap f = [Piece.text t.location t.text].flatMap g
    rw [hpre, List.flatMap_singleton, text, List.flatMap_singleton]
    rfl
  | script opening inside => exact (script opening inside).trans (List.flatMap_singleton ..).symm

end Page.Shows

end PageLint
