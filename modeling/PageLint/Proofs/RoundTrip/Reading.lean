import Mathlib.Data.List.Forall2
import PageLint.Proofs.Markup.Conservation
import PageLint.Proofs.RoundTrip.Elements

/-!
# Reading written elements

Markup that trees of elements were written as is read back as the same trees: names, attributes
with their values, texts, order and which elements close themselves. All elements are closed, and
the ids of the page are the values of their `id` attributes in document order.

The tokens of a tree add one piece of content to whatever forest is under construction. This is
shown by induction over trees; inside an element, the content goes into the element just opened.

* `Node.element?` — the tree of elements that a node is
* `Progress.Adds` — reading adds the content of some trees, and their ids
* `readPage?_write` — written trees are read back
-/

namespace PageLint

/-! ## Trees of nodes -/

mutual

/-- The tree of elements and texts that a node is. -/
def Node.element? : Node → Option Element
  | .tag _ name attributes children selfClosing _ =>
    (Node.elements? children).map
      (.tag name (attributes.map fun a => (a.name, a.value)) selfClosing)
  | .text _ content => some (.text content)
  | _ => none

def Node.elements? : List Node → Option (List Element)
  | [] => some []
  | n :: ns => n.element?.bind fun e => (Node.elements? ns).map (e :: ·)

end

/-- The values of the attributes named `id`, in any case. -/
def idValues (attributes : List (String × String)) : List String :=
  (attributes.filter fun a => lowered a.1 == "id").map Prod.snd

mutual

/-- The ids in a tree, in document order. -/
def Element.ids : Element → List String
  | .tag _ attributes _ children => idValues attributes ++ Element.allIds children
  | .text _ => []

def Element.allIds : List Element → List String
  | [] => []
  | e :: es => e.ids ++ Element.allIds es

end

theorem Element.allIds_append (es fs : List Element) :
    Element.allIds (es ++ fs) = Element.allIds es ++ Element.allIds fs := by
  induction es with
  | nil => rfl
  | cons e es ih => rw [List.cons_append, Element.allIds, ih, Element.allIds, List.append_assoc]

/-! ## Content of trees -/

/-- Whether content is a finished node. -/
def Content.isLeaf : Content → Bool
  | .element .. => false
  | .leaf _ => true

/-- Content is a tree: an element, or a finished text. -/
structure Content.Is (c : Content) (e : Element) : Prop where
  node : c.toNode.element? = some e
  leaf : c.isLeaf = e.isText

theorem Content.elements?_toNodes {cs : List Content} {es : List Element}
    (h : List.Forall₂ Content.Is cs es) : Node.elements? (Content.toNodes cs) = some es := by
  induction h with
  | nil => rfl
  | cons hc _ ih =>
    rw [Content.toNodes, Node.elements?, hc.node, ih]
    rfl

theorem Content.isLeaf_of_tags {cs : List Content} {es : List Element}
    (h : List.Forall₂ Content.Is cs es) (htags : ∀ e ∈ es, e.isText = false) :
    ∀ c ∈ cs, c.isLeaf = false := by
  induction h with
  | nil => simp
  | cons hc _ ih =>
    rw [List.forall_mem_cons] at htags ⊢
    exact ⟨hc.leaf.trans htags.1, ih htags.2⟩

namespace Forest

/-- Adds finished content inside the innermost open tag. -/
def addContent (forest : Forest) : Content → Forest
  | .element opening contents => forest.addFrame { opening, contents }
  | .leaf n => forest.addLeaf n

/-- Content goes into the element that has just been opened. -/
theorem foldl_addContent_openFrame (forest : Forest) (f : Frame) (cs : List Content) :
    cs.foldl addContent (forest.openFrame f) =
      forest.openFrame { f with contents := f.contents ++ cs } := by
  induction cs generalizing f with
  | nil => rw [List.foldl_nil, List.append_nil]
  | cons c cs ih =>
    have hadd : (forest.openFrame f).addContent c = forest.openFrame (f.add c) := by
      cases c <;> rfl
    rw [List.foldl_cons, hadd, ih]
    simp [Frame.add]

/-- Closing the element that has just been opened hands it to the tag around it. -/
theorem close?_openFrame (forest : Forest) (f : Frame) :
    (forest.openFrame f).close? f.opening.name = some (forest.addFrame f) := by
  have hnamed : OpenTags.isNamed f.opening.name f = true := by simp [OpenTags.isNamed]
  simp [close?, openFrame, OpenTags.push, OpenTags.splitAt?, hnamed]

/-- Outside all tags, elements become the roots of the forest. -/
theorem foldl_addContent_roots {cs : List Content} (hcs : ∀ c ∈ cs, c.isLeaf = false)
    (roots : List Frame) :
    cs.foldl addContent { roots } = { roots := roots ++ Content.frames cs } ∧
      (Content.frames cs).map Frame.toTag = Content.toNodes cs := by
  induction cs generalizing roots with
  | nil => exact ⟨by simp [Content.frames], rfl⟩
  | cons c cs ih =>
    cases c with
    | leaf n => exact absurd (hcs _ List.mem_cons_self) (by simp [Content.isLeaf])
    | element opening contents =>
      let f : Frame := { opening, contents }
      obtain ⟨hfold, hframes⟩ := ih (fun d hd => hcs d (List.mem_cons_of_mem _ hd)) (roots ++ [f])
      refine ⟨?_, ?_⟩
      · show cs.foldl addContent { roots := roots ++ [f] } = _
        rw [hfold, Content.frames, List.append_assoc, List.singleton_append]
      · rw [Content.frames, List.map_cons, hframes, Content.toNodes, Content.toNode]
        rfl

end Forest

/-! ## Tokens of trees -/

namespace Progress

/-- Reading adds the content of some trees behind what is there, and their ids. -/
structure Adds (p : Progress) (es : List Element) (q : Progress) : Prop where
  contents : ∃ cs, q.forest = cs.foldl Forest.addContent p.forest ∧ List.Forall₂ Content.Is cs es
  elementIds : q.elementIds = p.elementIds ++ Element.allIds es

theorem Adds.refl (p : Progress) : p.Adds [] p where
  contents := ⟨[], rfl, .nil⟩
  elementIds := (List.append_nil _).symm

theorem Adds.trans {p q r : Progress} {es fs : List Element} (h : p.Adds es q) (h' : q.Adds fs r) :
    p.Adds (es ++ fs) r where
  contents := by
    obtain ⟨cs, hcs, hes⟩ := h.contents
    obtain ⟨ds, hds, hfs⟩ := h'.contents
    exact ⟨cs ++ ds, by rw [hds, hcs, List.foldl_append], List.rel_append hes hfs⟩
  elementIds := by rw [h'.elementIds, h.elementIds, Element.allIds_append, List.append_assoc]

/-- One piece of content is added. -/
theorem Adds.of_content {p q : Progress} {e : Element} {c : Content}
    (hforest : q.forest = p.forest.addContent c) (hc : c.Is e)
    (hids : q.elementIds = p.elementIds ++ e.ids) : p.Adds [e] q where
  contents := ⟨[c], hforest, .cons hc .nil⟩
  elementIds := by rw [hids, Element.allIds, Element.allIds, List.append_nil]

/-- A closing tag that finds its element only closes it. -/
theorem closeTag_eq {p : Progress} {name : String} {closed : Forest}
    (h : p.forest.close? name = some closed) (location : Location) :
    p.closeTag name location = { p with forest := closed } := by
  rw [Progress.closeTag, h]

end Progress

section Tags

variable {name : String} (hname : IsTagName name) {attributes : List (String × String)}
  (hattributes : ∀ a ∈ attributes, IsAttribute a) (selfClosing : Bool)

/-- The opening of an element at a place. -/
def writtenOpening (name : String) (attributes : List (String × String)) (selfClosing : Bool)
    (serial : Nat) (location : Location) : Opening :=
  { serial
    name
    location
    attributes := attributes.map fun a => { site := { location }, name := a.1, value := a.2 }
    selfClosing }

theorem idsOf_writtenOpening (serial : Nat) (location : Location) :
    Progress.idsOf (writtenOpening name attributes selfClosing serial location).attributes =
      idValues attributes := by
  rw [Progress.idsOf, writtenOpening, List.filter_map, List.map_map]
  rfl

/-- The tag of an element around the nodes of its contents is the element. -/
theorem element?_toTag (serial : Nat) (location : Location) {children : List Node}
    {es : List Element} (h : Node.elements? children = some es) :
    ((writtenOpening name attributes selfClosing serial location).toTag children).element? =
      some (.tag name attributes selfClosing es) := by
  rw [Opening.toTag, Node.element?, h]
  simp [writtenOpening, Function.comp_def]

include hname hattributes

/-- A token of an opening tag opens its element. -/
theorem readMarkup_opening (config : Config) (p : Progress) {t : Token} (hk : t.kind = .tagOpen)
    (ht : t.text = String.ofList (openingText name attributes selfClosing)) :
    p.readMarkup config t =
      p.openTag config (writtenOpening name attributes selfClosing p.nextSerial t.location) := by
  have hlower : String.ofList (Text.lower name.toList) = name := hname.lowered_eq
  rw [Progress.readMarkup, hk]
  simp only
  rw [ht, String.toList_ofList, ← hname.text_head hattributes, TagHead.spans_text]
  simp only [List.foldl_cons, List.foldl_nil, Progress.readSpan, beq_self_eq_true, if_true,
    TagHead.isClosing_text, Bool.false_eq_true, if_false, TagHead.read?_text]
  rw [Progress.openingOf, writtenOpening]
  simp [IsTagName.head, hlower, Function.comp_def]

end Tags

/-- A token of a closing tag closes its element. -/
theorem readMarkup_closing {name : String} (hname : IsTagName name) (p : Progress) {t : Token}
    (hk : t.kind = .tagClose) (ht : t.text = String.ofList (closingText name.toList)) :
    p.readMarkup {} t = p.closeTag name t.location := by
  have hne : name.toList ≠ [] := by simpa using hname.ne_empty
  have hlower : String.ofList (Text.lower name.toList) = name := hname.lowered_eq
  rw [Progress.readMarkup, hk]
  simp only
  rw [ht, String.toList_ofList, tagName_closingText hne hname.plain, hlower]

mutual

/-- **The tokens of a tree add its content.** -/
theorem Element.Writable.adds {e : Element} (h : e.Writable) {ts : List Token}
    (hts : ts.map Token.shape = e.shapes) (p : Progress) :
    p.Adds [e] (ts.foldl (Progress.readMarkup {}) p) := by
  match e with
  | .text content =>
    rw [Element.Writable] at h
    rw [Element.shapes] at hts
    obtain ⟨t, us, rfl, hshape, hus⟩ := List.map_eq_cons_iff.1 hts
    obtain rfl := List.map_eq_nil_iff.1 hus
    obtain ⟨hk, ht⟩ := Prod.mk.inj hshape
    have hread : p.readMarkup {} t = { p with
        forest := p.forest.addLeaf (.text { location := t.location } content) } := by
      rw [Progress.readMarkup, hk]
      simp [ht, h.ne_empty]
    rw [List.foldl_cons, List.foldl_nil, hread]
    refine Progress.Adds.of_content (c := .leaf (.text { location := t.location } content))
      rfl ?_ ?_
    · exact ⟨by rw [Content.toNode, Node.element?], rfl⟩
    · rw [Element.ids, List.append_nil]
  | .tag name attributes selfClosing children =>
    rw [Element.Writable] at h
    obtain ⟨hname, hattributes, hempty, hchildren⟩ := h
    rw [Element.shapes] at hts
    obtain ⟨t, us, rfl, hshape, hus⟩ := List.map_eq_cons_iff.1 hts
    obtain ⟨hk, ht⟩ := Prod.mk.inj hshape
    let opening := writtenOpening name attributes selfClosing p.nextSerial t.location
    have hids : Progress.idsOf opening.attributes = idValues attributes :=
      idsOf_writtenOpening selfClosing _ _
    have hopenIds : (p.openTag {} opening).elementIds = p.elementIds ++ idValues attributes := by
      rw [← hids]
      rfl
    rw [List.foldl_cons, readMarkup_opening hname hattributes selfClosing {} p hk ht]
    cases selfClosing with
    | true =>
      obtain rfl := hempty rfl
      obtain rfl := List.map_eq_nil_iff.1 hus
      refine Progress.Adds.of_content (c := .element opening []) rfl ?_ ?_
      · exact ⟨element?_toTag true _ _ rfl, rfl⟩
      · rw [Element.ids, Element.allIds, List.append_nil]
        exact hopenIds
    | false =>
      simp only [Bool.false_eq_true, if_false] at hus
      obtain ⟨inner, last, rfl, hinner, hlast⟩ := List.map_eq_append_iff.1 hus
      obtain ⟨close, rest, rfl, hclose, hrest⟩ := List.map_eq_cons_iff.1 hlast
      obtain rfl := List.map_eq_nil_iff.1 hrest
      obtain ⟨hck, hct⟩ := Prod.mk.inj hclose
      -- The contents go into the open element, which its closing tag hands on as a whole.
      have hadds := Element.AllWritable.adds hchildren hinner (p.openTag {} opening)
      obtain ⟨cs, hforest, hcs⟩ := hadds.contents
      have hopen : (p.openTag {} opening).forest = p.forest.openFrame { opening } := rfl
      rw [hopen, Forest.foldl_addContent_openFrame, List.nil_append] at hforest
      rw [List.foldl_append, List.foldl_cons, List.foldl_nil, readMarkup_closing hname _ hck hct]
      have hclosed := Forest.close?_openFrame p.forest { opening, contents := cs }
      rw [← hforest] at hclosed
      rw [@Progress.closeTag_eq _ name _ hclosed]
      refine Progress.Adds.of_content (c := .element opening cs) rfl ?_ ?_
      · refine ⟨?_, rfl⟩
        rw [Content.toNode]
        exact element?_toTag false _ _ (Content.elements?_toNodes hcs)
      · rw [Element.ids, ← List.append_assoc, ← hopenIds]
        exact hadds.elementIds

theorem Element.AllWritable.adds {es : List Element} (h : Element.AllWritable es)
    {ts : List Token} (hts : ts.map Token.shape = Element.allShapes es) (p : Progress) :
    p.Adds es (ts.foldl (Progress.readMarkup {}) p) := by
  match es with
  | [] =>
    rw [Element.allShapes] at hts
    obtain rfl := List.map_eq_nil_iff.1 hts
    exact Progress.Adds.refl p
  | e :: es =>
    rw [Element.AllWritable] at h
    rw [Element.allShapes] at hts
    obtain ⟨us, vs, rfl, hus, hvs⟩ := List.map_eq_append_iff.1 hts
    rw [List.foldl_append]
    exact (Element.Writable.adds h.1 hus p).trans (Element.AllWritable.adds h.2.2 hvs _)

end

/-! ## Pages of trees -/

mutual

/-- The tokens of a tree are tags and texts. -/
theorem Element.mem_shapes {e : Element} : ∀ s ∈ e.shapes,
    s.1 = .tagOpen ∨ s.1 = .tagClose ∨ s.1 = .text := by
  intro s hs
  match e with
  | .text content =>
    rw [Element.shapes] at hs
    rw [List.mem_singleton.1 hs]
    exact Or.inr (Or.inr rfl)
  | .tag name attributes selfClosing children =>
    rw [Element.shapes] at hs
    rcases List.mem_cons.1 hs with rfl | hs
    · exact Or.inl rfl
    cases selfClosing with
    | true => simp at hs
    | false =>
      rcases List.mem_append.1 hs with hs | hs
      · exact Element.mem_allShapes s hs
      · rw [List.mem_singleton.1 hs]
        exact Or.inr (Or.inl rfl)

theorem Element.mem_allShapes {es : List Element} : ∀ s ∈ Element.allShapes es,
    s.1 = .tagOpen ∨ s.1 = .tagClose ∨ s.1 = .text := by
  intro s hs
  match es with
  | [] => simp [Element.allShapes] at hs
  | e :: es =>
    rw [Element.allShapes] at hs
    rcases List.mem_append.1 hs with hs | hs
    · exact Element.mem_shapes s hs
    · exact Element.mem_allShapes s hs

end

/-- Without scripts, what has been read of a page is read token by token. -/
theorem progressOf_markup (config : Config) {ts : List Token}
    (hts : ∀ t ∈ ts, t.kind ≠ .eof ∧ t.kind ≠ .scriptOpen) {eof : Token} (he : eof.kind = .eof) :
    progressOf config (ts ++ [eof]) = ts.foldl (Progress.readMarkup config) {} := by
  have hchunks : chunks (ts ++ [eof]) = ts.map .markup := by
    induction ts with
    | nil => exact chunks_eof he []
    | cons t ts ih =>
      obtain ⟨hne, hno⟩ := hts t List.mem_cons_self
      rw [List.cons_append, chunks_markup hne hno, ih fun u hu => hts u (List.mem_cons_of_mem _ hu),
        List.map_cons]
  rw [progressOf, hchunks, List.foldl_map]
  rfl

/-- **Written trees are read back**: trees of elements that are written one after the other and
read are the same trees, all elements are closed, and the ids are in document order. -/
theorem readPage?_write {es : List Element} (h : Element.AllWritable es)
    (htags : ∀ e ∈ es, e.isText = false) (file : Option String) : ∃ page,
      readPage? {} (String.ofList (Element.writeAll es)) file = some page ∧
      Node.elements? page.document.children = some es ∧ page.openTags = [] ∧
      page.elementIds = Element.allIds es := by
  obtain ⟨page, hpage, hshows⟩ := @readPage?_shows {} (by decide)
    (String.ofList (Element.writeAll es)) file
  obtain ⟨ts, last, htokens, hts, hlast⟩ := List.map_eq_append_iff.1 (scan_write h file)
  obtain ⟨eof, rest, rfl, heof, hrest⟩ := List.map_eq_cons_iff.1 hlast
  obtain rfl := List.map_eq_nil_iff.1 hrest
  have hkinds : ∀ t ∈ ts, t.kind ≠ .eof ∧ t.kind ≠ .scriptOpen := by
    intro t ht
    have hshape : t.shape ∈ Element.allShapes es := hts ▸ List.mem_map_of_mem ht
    rcases Element.mem_allShapes t.shape hshape with hk | hk | hk <;>
      simp [show t.kind = _ from hk]
  have hprogress := progressOf_markup {} hkinds (Prod.mk.inj heof).1
  have hadds := Element.AllWritable.adds h hts {}
  rw [← hprogress, ← htokens] at hadds
  obtain ⟨cs, hforest, hcs⟩ := hadds.contents
  obtain ⟨hroots, hnodes⟩ := Forest.foldl_addContent_roots (Content.isLeaf_of_tags hcs htags) []
  rw [List.nil_append] at hroots
  have hfilled : (progressOf {} (tokenize (String.ofList (Element.writeAll es)) file)).forest =
      { roots := Content.frames cs } := hforest.trans hroots
  obtain ⟨hchildren, -⟩ := (rooted_progressOf {} _).document (numbered_progressOf {} _)
    hshows.document
  refine ⟨page, hpage, ?_, ?_, ?_⟩
  · rw [hchildren, hfilled]
    show Node.elements? ((Content.frames cs).map Frame.toTag) = some es
    rw [hnodes]
    exact Content.elements?_toNodes hcs
  · rw [hshows.openTags, hfilled]
    rfl
  · rw [hshows.elementIds, hadds.elementIds]
    rfl

/-- An element with a text, an element that closes itself and an empty element, and with markup in
the values of its attributes. -/
def sampleElement : Element :=
  .tag "div" [("ID", "a>b"), ("title", "x = '</div>' / y")] false
    [.text "1 > 0", .tag "br" [] true [], .tag "p" [("id", "")] false []]

theorem sampleElement_readBack : Element.AllWritable [sampleElement] ∧ ∃ page,
    readPage? {} (String.ofList (Element.writeAll [sampleElement])) none = some page ∧
      Node.elements? page.document.children = some [sampleElement] ∧ page.openTags = [] ∧
      page.elementIds = ["a>b", ""] := by
  have hdiv : IsTagName "div" := by decide +kernel
  have hbr : IsTagName "br" := by decide +kernel
  have hp : IsTagName "p" := by decide +kernel
  have htext : IsContent "1 > 0" := by decide +kernel
  have hattributes : ∀ a ∈ [("ID", "a>b"), ("title", "x = '</div>' / y"), ("id", "")],
      IsAttribute a := by
    simp only [List.forall_mem_cons]
    exact ⟨by decide, by decide, by decide, by simp⟩
  have hwritable : Element.AllWritable [sampleElement] := by
    simp only [List.forall_mem_cons] at hattributes
    simp [Element.AllWritable, Element.Writable, sampleElement, Element.isText, hdiv, hbr, hp,
      htext, hattributes]
  have hids : Element.allIds [sampleElement] = ["a>b", ""] := by decide +kernel
  refine ⟨hwritable, ?_⟩
  rw [← hids]
  exact readPage?_write hwritable (by simp [sampleElement, Element.isText]) none

end PageLint
