import Mathlib.Data.List.Basic
import PageLint.Proofs.Markup.Pieces

/-!
# No markup is lost

The tags, texts and scripts of a page, listed in preorder, are the pieces of markup that its tokens
add, in the same order. Listing the nodes of the tree gives what the forest under construction
listed, because texts hold no nodes and scripts hold code only.

* `Forest.Sound` — finished nodes are texts or scripts, and elements without contents have none
* `Progress.Rooted` — the root is the first opening tag named `html`
* `markup_conserved` — the pieces of a page, its empty elements and its root
-/

namespace PageLint

/-- The tags, texts and scripts of a document, in preorder. -/
def Document.markup (d : Document) : List Node :=
  (d.children.flatMap Node.preorder).filter fun n => n.piece?.isSome

/-- Whether a node is a tag that never has contents: it closes itself, or its name is that of a
void element. -/
def Node.isBare (config : Config) : Node → Bool
  | .tag _ name _ _ selfClosing _ => selfClosing || config.voidElements.contains name
  | _ => false

/-- Whether a node is a tag named `html`. -/
def Node.isHtml (n : Node) : Bool := n.tagName? == some "html"

theorem Node.isTag_of_isHtml {n : Node} (h : n.isHtml = true) : n.isTag = true := by
  cases n <;> first | rfl | simp [Node.isHtml, Node.tagName?] at h

theorem Node.piece?_isSome_of_isTag {n : Node} (h : n.isTag = true) : n.piece?.isSome = true := by
  cases n <;> first | rfl | simp [Node.isTag, Node.kind] at h

/-! ## Sound forests -/

/-- A node that is finished when it is added: no tag, and with nothing but code under it. -/
structure Node.IsLeaf (n : Node) : Prop where
  notTag : n.isTag = false
  code : ∀ c ∈ n.children, c.IsCode

theorem isLeaf_text (site : Site) (content : String) : (Node.text site content).IsLeaf :=
  ⟨rfl, by simp [Node.children]⟩

theorem isLeaf_scriptNode (config : Config) (opening : Token) (inside : List Token) :
    (scriptNode config opening inside).IsLeaf := by
  refine ⟨rfl, ?_⟩
  show ∀ n ∈ (harvestOf config inside).statements, n.IsCode
  rw [harvestOf]
  cases h : scriptFrom? config inside with
  | none => simp
  | some found => exact scriptFrom?_isCode h

/-- Whether an opening tag is that of an element that never has contents. -/
def Opening.isBare (config : Config) (o : Opening) : Bool :=
  o.selfClosing || config.voidElements.contains o.name

/-- Content whose finished nodes are leaves, and whose bare elements hold nothing. -/
inductive Content.Sound (config : Config) : Content → Prop
  | element {o : Opening} {cs : List Content} (bare : o.isBare config = true → cs = [])
      (inner : ∀ c ∈ cs, Content.Sound config c) : Content.Sound config (.element o cs)
  | leaf {n : Node} (h : n.IsLeaf) : Content.Sound config (.leaf n)

/-- An open element: it may have contents. -/
structure Frame.Open (config : Config) (f : Frame) : Prop where
  notBare : f.opening.isBare config = false
  inner : ∀ c ∈ f.contents, c.Sound config

theorem Frame.Open.toContent {config : Config} {f : Frame} (h : f.Open config) :
    f.toContent.Sound config :=
  .element (fun hbare => absurd hbare (by simp [h.notBare])) h.inner

theorem Frame.Open.add {config : Config} {f : Frame} (h : f.Open config) {c : Content}
    (hc : c.Sound config) : (f.add c).Open config where
  notBare := h.notBare
  inner := by
    intro d hd
    rcases List.mem_append.1 hd with hd | hd
    · exact h.inner d hd
    · rw [List.mem_singleton.1 hd]
      exact hc

theorem Frame.sound_closeInto {config : Config} {f : Frame} (hf : f.toContent.Sound config)
    {fs : List Frame} (hfs : ∀ g ∈ fs, g.Open config) :
    (f.closeInto fs).toContent.Sound config := by
  induction fs generalizing f with
  | nil => exact hf
  | cons outer fs ih =>
    have houter : (outer.add f.toContent).Open config :=
      (hfs outer List.mem_cons_self).add hf
    exact ih houter.toContent fun g hg => hfs g (List.mem_cons_of_mem _ hg)

namespace Forest

/-- A forest all of whose content is sound, the open elements being none that are bare. -/
structure Sound (config : Config) (forest : Forest) : Prop where
  roots : ∀ f ∈ forest.roots, f.toContent.Sound config
  openTags : ∀ f ∈ forest.openTags.frames, f.Open config

variable {config : Config} {forest : Forest}

theorem Sound.addFrame (h : forest.Sound config) {f : Frame} (hf : f.toContent.Sound config) :
    (forest.addFrame f).Sound config := by
  unfold Forest.addFrame
  split
  · refine ⟨?_, h.openTags⟩
    intro g hg
    rcases List.mem_append.1 hg with hg | hg
    · exact h.roots g hg
    · rw [List.mem_singleton.1 hg]
      exact hf
  · rename_i top rest hopen
    have hframes := h.openTags
    rw [hopen] at hframes
    exact ⟨h.roots, List.forall_mem_cons.2
      ⟨(hframes top List.mem_cons_self).add hf, (List.forall_mem_cons.1 hframes).2⟩⟩

theorem Sound.addLeaf (h : forest.Sound config) {n : Node} (hn : n.IsLeaf) :
    (forest.addLeaf n).Sound config := by
  unfold Forest.addLeaf
  split
  · exact h
  · rename_i top rest hopen
    have hframes := h.openTags
    rw [hopen] at hframes
    exact ⟨h.roots, List.forall_mem_cons.2
      ⟨(hframes top List.mem_cons_self).add (.leaf hn), (List.forall_mem_cons.1 hframes).2⟩⟩

theorem Sound.openFrame (h : forest.Sound config) {f : Frame} (hf : f.Open config) :
    (forest.openFrame f).Sound config :=
  ⟨h.roots, List.forall_mem_cons.2 ⟨hf, h.openTags⟩⟩

theorem Sound.close? (h : forest.Sound config) {closed : Forest} {name : String}
    (hclose : forest.close? name = some closed) : closed.Sound config := by
  obtain ⟨⟨inner, found, outer⟩, hsplit, rfl⟩ := Option.map_eq_some_iff.1 hclose
  have hframes := h.openTags
  rw [splitAt?_eq_some hsplit] at hframes
  have hfound : found.Open config := hframes found (by simp)
  have hinner : ∀ f ∈ inner, f.Open config := fun f hf => hframes f (by simp [hf])
  have houter : ∀ f ∈ outer, f.Open config := fun f hf => hframes f (by simp [hf])
  have hleft : ({ forest with openTags := { frames := outer } } : Forest).Sound config :=
    ⟨h.roots, houter⟩
  refine hleft.addFrame ?_
  cases inner with
  | nil => exact hfound.toContent
  | cons f fs =>
    refine Frame.sound_closeInto (hinner f List.mem_cons_self).toContent ?_
    intro g hg
    rcases List.mem_append.1 hg with hg | hg
    · exact hinner g (List.mem_cons_of_mem _ hg)
    · rw [List.mem_singleton.1 hg]
      exact hfound

theorem Sound.frames (h : forest.Sound config) :
    ∀ f ∈ forest.frames, f.toContent.Sound config := by
  unfold Forest.frames
  split
  · exact h.roots
  · rename_i f fs hopen
    have hframes := h.openTags
    rw [hopen, List.forall_mem_cons] at hframes
    intro g hg
    rcases List.mem_append.1 hg with hg | hg
    · exact h.roots g hg
    · rw [List.mem_singleton.1 hg]
      exact Frame.sound_closeInto hframes.1.toContent hframes.2

end Forest

/-! ## Reading keeps forests sound and finds the root -/

/-- The opening tag that an item is. -/
def Item.opening? : Item → Option Opening
  | .opening o => some o
  | .leaf _ => none

/-- The opening tags of a forest in source order. -/
def Forest.openings (forest : Forest) : List Opening := forest.items.filterMap Item.opening?

namespace Progress

/-- The forest is sound, and the root is the first opening tag named `html`. -/
structure Rooted (config : Config) (p : Progress) : Prop where
  sound : p.forest.Sound config
  root : p.rootSerial = (p.forest.openings.find? fun o => o.name == "html").map Opening.serial

variable {config : Config} {p : Progress}

theorem rooted_empty (config : Config) : ({} : Progress).Rooted config where
  sound := ⟨by simp, by simp⟩
  root := rfl

/-- What adds no opening tag keeps the root. -/
theorem Rooted.of_openings (h : p.Rooted config) {q : Progress} (hs : q.forest.Sound config)
    (ho : q.forest.openings = p.forest.openings) (hr : q.rootSerial = p.rootSerial) :
    q.Rooted config :=
  ⟨hs, by rw [hr, ho, h.root]⟩

theorem Rooted.addLeaf (h : p.Rooted config) {n : Node} (hn : n.IsLeaf) {q : Progress}
    (hf : q.forest = p.forest.addLeaf n) (hr : q.rootSerial = p.rootSerial) : q.Rooted config := by
  refine h.of_openings (hf ▸ h.sound.addLeaf hn) ?_ hr
  rw [hf, Forest.openings, Forest.items_addLeaf, List.filterMap_append, Forest.openings]
  split <;> simp [Item.opening?]

theorem Rooted.closeTag (h : p.Rooted config) (name : String) (location : Location) :
    (p.closeTag name location).Rooted config := by
  unfold Progress.closeTag
  split
  · rename_i closed hclose
    refine h.of_openings (h.sound.close? hclose) ?_ rfl
    rw [Forest.openings, Forest.items_close? hclose, Forest.openings]
  · exact h.of_openings h.sound rfl rfl

theorem Rooted.openTag (h : p.Rooted config) (opening : Opening) :
    (p.openTag config opening).Rooted config := by
  have hitems : (p.openTag config opening).forest.items = p.forest.items ++ [.opening opening] := by
    simp only [Progress.openTag]
    split
    · exact Forest.items_addFrame _ _
    · exact Forest.items_openFrame _ _
  refine ⟨?_, ?_⟩
  · simp only [Progress.openTag]
    split
    · exact h.sound.addFrame (.element (fun _ => rfl) (by simp))
    · rename_i hbare
      exact h.sound.openFrame ⟨Bool.eq_false_iff.2 hbare, by simp⟩
  · rw [Forest.openings, hitems, List.filterMap_append, ← Forest.openings, List.find?_append]
    show (if p.rootSerial.isNone && opening.name == "html" then some opening.serial
      else p.rootSerial) = _
    rw [h.root]
    cases p.forest.openings.find? fun o => o.name == "html" with
    | some o => simp
    | none =>
      cases hhtml : opening.name == "html" <;> simp [Item.opening?, hhtml]

theorem Rooted.readSpan (h : p.Rooted config) (t : Token) (span : Markup.Span) :
    (p.readSpan config t span).Rooted config := by
  simp only [Progress.readSpan]
  split
  · exact h.closeTag _ _
  · split
    · exact h
    · exact h.openTag _

theorem Rooted.foldl_readSpan (h : p.Rooted config) (t : Token) (spans : List Markup.Span) :
    (spans.foldl (Progress.readSpan config t) p).Rooted config := by
  induction spans generalizing p with
  | nil => exact h
  | cons span spans ih => exact ih (h.readSpan t span)

theorem Rooted.add (h : p.Rooted config) (c : Chunk) : (p.add config c).Rooted config := by
  cases c with
  | script opening inside => exact h.addLeaf (isLeaf_scriptNode config opening inside) rfl rfl
  | markup t =>
    rw [Progress.add, Progress.readMarkup]
    cases t.kind with
    | tagOpen => exact h.foldl_readSpan t _
    | tagClose => exact h.closeTag _ _
    | text =>
      simp only
      split
      · exact h
      · exact h.addLeaf (isLeaf_text _ _) rfl rfl
    | doctype =>
      simp only
      split
      · exact h.of_openings h.sound rfl rfl
      · exact h
    | scriptOpen => exact h.of_openings h.sound rfl rfl
    | _ => exact h

theorem Rooted.foldl_add (h : p.Rooted config) (cs : List Chunk) :
    (cs.foldl (Progress.add config) p).Rooted config := by
  induction cs generalizing p with
  | nil => exact h
  | cons c cs ih => exact ih (h.add c)

end Progress

theorem rooted_progressOf (config : Config) (ts : List Token) :
    (progressOf config ts).Rooted config :=
  (Progress.rooted_empty config).foldl_add _

/-! ## The nodes of a sound forest -/

theorem Content.itemsOf_eq_flatMap (cs : List Content) : Content.itemsOf cs = cs.flatMap Content.items := by
  induction cs with
  | nil => rfl
  | cons c cs ih => rw [Content.itemsOf, ih, List.flatMap_cons]

/-- The nodes of an element: its tag, and then those of its contents. -/
theorem Content.preorder_element (o : Opening) (cs : List Content) :
    (Content.element o cs).toNode.preorder =
      o.toTag (cs.map Content.toNode) :: cs.flatMap fun c => c.toNode.preorder := by
  rw [Node.preorder_eq, Content.toNode, Content.toNodes_eq_map]
  show _ :: (cs.map Content.toNode).flatMap Node.preorder = _
  rw [List.flatMap_map]

/-- The nodes under a leaf are no markup. -/
theorem Node.IsLeaf.piece?_of_mem {n m : Node} (h : n.IsLeaf)
    (hm : m ∈ n.children.flatMap Node.preorder) : m.piece? = none := by
  obtain ⟨c, hc, hpre⟩ := List.mem_flatMap.1 hm
  exact h.code c hc m hpre

theorem Node.isTag_eq_false_of_piece? {n : Node} (h : n.piece? = none) : n.isTag = false := by
  refine Bool.eq_false_iff.2 fun htag => ?_
  have := Node.piece?_isSome_of_isTag htag
  simp [h] at this

theorem Node.isBare_eq_false {config : Config} {n : Node} (h : n.isTag = false) :
    n.isBare config = false := by
  cases n <;> first | rfl | simp [Node.isTag, Node.kind] at h

/-- **The markup in a tree is what its content lists.** -/
theorem Content.Sound.pieces {config : Config} {c : Content} (h : c.Sound config) :
    c.toNode.preorder.filterMap Node.piece? = c.items.filterMap Item.piece? := by
  induction h with
  | leaf hn =>
    rename_i n
    have hnone : (n.children.flatMap Node.preorder).filterMap Node.piece? = [] :=
      List.filterMap_eq_nil_iff.2 fun m hm => hn.piece?_of_mem hm
    show n.preorder.filterMap Node.piece? = [Item.leaf n].filterMap Item.piece?
    rw [Node.preorder_eq, List.filterMap_cons, hnone]
    rfl
  | element _ _ ih =>
    rename_i o cs _ _
    rw [Content.preorder_element, Content.items, Content.itemsOf_eq_flatMap, List.filterMap_cons,
      List.filterMap_cons, List.filterMap_flatMap, List.filterMap_flatMap]
    exact congrArg _ (List.flatMap_congr ih)

theorem Content.Sound.bare {config : Config} {c : Content} (h : c.Sound config) :
    ∀ n ∈ c.toNode.preorder, n.isBare config = true → n.children = [] := by
  induction h with
  | leaf hn =>
    rename_i n
    intro m hm hbare
    show m.children = []
    rw [Content.toNode, Node.preorder_eq] at hm
    have htag : m.isTag = false := by
      rcases List.mem_cons.1 hm with rfl | hm
      · exact hn.notTag
      · exact Node.isTag_eq_false_of_piece? (hn.piece?_of_mem hm)
    rw [Node.isBare_eq_false htag] at hbare
    exact absurd hbare (by decide)
  | element bare _ ih =>
    rename_i o cs _
    intro m hm hbare
    rw [Content.preorder_element] at hm
    rcases List.mem_cons.1 hm with rfl | hm
    · show cs.map Content.toNode = []
      rw [bare hbare]
      rfl
    · obtain ⟨c, hc, hpre⟩ := List.mem_flatMap.1 hm
      exact ih c hc m hpre hbare

/-- The tags in a tree are the entries of its content. -/
theorem Content.Sound.tags {config : Config} {c : Content} (h : c.Sound config) :
    c.toNode.preorder.filter Node.isTag = c.entries.map Prod.snd := by
  induction h with
  | leaf hn =>
    rename_i n
    show n.preorder.filter Node.isTag = []
    refine List.filter_eq_nil_iff.2 fun m hm => ?_
    rw [Node.preorder_eq] at hm
    rcases List.mem_cons.1 hm with rfl | hm
    · simp [hn.notTag]
    · simp [Node.isTag_eq_false_of_piece? (hn.piece?_of_mem hm)]
  | element _ _ ih =>
    rename_i o cs _ _
    rw [Content.preorder_element, Content.entries, Content.entriesOf_eq_flatMap, Content.toNodes_eq_map,
      List.filter_cons_of_pos (by rfl), List.map_cons, List.filter_flatMap, List.map_flatMap]
    exact congrArg _ (List.flatMap_congr ih)

/-- The entries of content are its opening tags. -/
theorem Content.entries_openings (c : Content) :
    c.entries.map (fun e => (e.1, e.2.tagName?)) =
      (c.items.filterMap Item.opening?).map fun o => (o.serial, some o.name) := by
  cases c with
  | leaf n => rfl
  | element o cs =>
    rw [Content.entries, Content.items, Content.entriesOf_eq_flatMap,
      Content.itemsOf_eq_flatMap, List.map_cons, List.filterMap_cons, List.filterMap_flatMap,
      List.map_flatMap]
    show _ :: _ = _ :: List.map _ _
    rw [List.map_flatMap]
    exact congrArg _ (List.flatMap_congr fun c _ => Content.entries_openings c)

namespace Forest

variable {config : Config} {forest : Forest}

theorem Sound.markup (h : forest.Sound config) :
    ((forest.frames.map Frame.toTag).flatMap Node.preorder).filterMap Node.piece? =
      forest.pieces := by
  rw [pieces, items, List.flatMap_map, List.filterMap_flatMap, List.filterMap_flatMap]
  exact List.flatMap_congr fun f hf => (h.frames f hf).pieces

theorem Sound.bare (h : forest.Sound config) :
    ∀ n ∈ (forest.frames.map Frame.toTag).flatMap Node.preorder,
      n.isBare config = true → n.children = [] := by
  intro n hn
  rw [List.flatMap_map] at hn
  obtain ⟨f, hf, hpre⟩ := List.mem_flatMap.1 hn
  exact (h.frames f hf).bare n hpre

/-- The first tag named `html` is that of the first opening tag of that name. -/
theorem Sound.find?_html (h : forest.Sound config) :
    ((forest.frames.map Frame.toTag).flatMap Node.preorder).find? Node.isHtml =
      ((forest.frames.flatMap Frame.entries).find? fun e => e.2.isHtml).map Prod.snd := by
  have htags : ((forest.frames.map Frame.toTag).flatMap Node.preorder).filter Node.isTag =
      (forest.frames.flatMap Frame.entries).map Prod.snd := by
    rw [List.flatMap_map, List.filter_flatMap, List.map_flatMap]
    exact List.flatMap_congr fun f hf => (h.frames f hf).tags
  have hfind : (forest.frames.flatMap Frame.entries).find? (fun e => e.2.isHtml) =
      (forest.frames.flatMap Frame.entries).find? (Node.isHtml ∘ Prod.snd) := rfl
  rw [hfind, ← List.find?_map, ← htags, List.find?_filter]
  refine congrArg (List.find? · _) (funext fun n => ?_)
  cases hn : n.isHtml with
  | false => simp
  | true => simp [Node.isTag_of_isHtml hn]

theorem find?_openings (forest : Forest) :
    (forest.openings.find? fun o => o.name == "html").map Opening.serial =
      ((forest.frames.flatMap Frame.entries).find? fun e => e.2.isHtml).map Prod.fst := by
  have hentries : (forest.frames.flatMap Frame.entries).map (fun e => (e.1, e.2.tagName?)) =
      forest.openings.map fun o => (o.serial, some o.name) := by
    rw [openings, items, List.map_flatMap, List.filterMap_flatMap, List.map_flatMap]
    exact List.flatMap_congr fun f _ => Content.entries_openings f.toContent
  have hfind := congrArg (fun es => (es.find? fun e => e.2 == some "html").map Prod.fst) hentries
  simp only [List.find?_map, Option.map_map] at hfind
  exact hfind.symm

end Forest

/-! ## Documents -/

/-- The document of what has been read: its tags and its root. -/
theorem Progress.Rooted.document {config : Config} {p : Progress} (h : p.Rooted config)
    (hnumbered : p.Numbered) {file : Option String} {d : Document}
    (hd : p.document? file = some d) :
    d.children = p.forest.frames.map Frame.toTag ∧
      d.root = (d.children.flatMap Node.preorder).find? Node.isHtml := by
  have hnodup := hnumbered.nodup_entries
  have hserial := h.root.trans (Forest.find?_openings p.forest)
  have hhtml := h.sound.find?_html
  rw [Progress.document?, freeze?_eq_some hnodup] at hd
  cases hfind : (p.forest.frames.flatMap Frame.entries).find? fun e => e.2.isHtml with
  | none =>
    rw [hfind] at hserial hhtml
    rw [hserial] at hd
    obtain rfl := Option.some.inj hd
    exact ⟨rfl, hhtml.symm⟩
  | some entry =>
    rw [hfind] at hserial hhtml
    rw [hserial] at hd
    have hlookup := lookup_of_perm
      ((List.reverse_perm _).trans (entries_reverse_perm p.forest.frames)) hnodup
      (show (entry.1, entry.2) ∈ _ from List.mem_of_find?_eq_some hfind)
    simp only [Option.map_some, Option.bind_eq_bind, Option.bind_some, hlookup] at hd
    obtain rfl := Option.some.inj hd
    exact ⟨rfl, hhtml.symm⟩

/-- The tags, texts and scripts of a page are the pieces that its tokens add. -/
theorem Page.Shows.pieces {config : Config} {ts : List Token} {file : Option String} {page : Page}
    (h : page.Shows file (progressOf config ts)) :
    page.document.markup.map Node.piece? =
      (piecesOf config [] (movesOf config ts)).map some := by
  have hrooted := rooted_progressOf config ts
  have hpieces := hrooted.sound.markup
  rw [← (hrooted.document (numbered_progressOf config ts) h.document).1, pieces_progressOf]
    at hpieces
  rw [← hpieces, List.map_filterMap_some_eq_filter_map_isSome, List.filter_map]
  rfl

/-- **No markup is lost, doubled or moved**: every list of tokens becomes a page, whose tags, texts
and scripts in preorder are the pieces that the tokens add. Elements that close themselves or are
void have no children, and the root is the first tag named `html`. -/
theorem markup_conserved {config : Config} (hlimit : 1 ≤ config.maxExpressionTokens)
    (ts : List Token) (file : Option String) : ∃ page, readTokens? config ts file = some page ∧
      page.document.markup.map Node.piece? = (piecesOf config [] (movesOf config ts)).map some ∧
      (∀ n ∈ page.document.markup, n.isBare config = true → n.children = []) ∧
      page.document.root = page.document.markup.find? Node.isHtml := by
  obtain ⟨page, hpage, hshows⟩ := readTokens?_shows hlimit ts file
  have hrooted := rooted_progressOf config ts
  obtain ⟨hchildren, hroot⟩ := hrooted.document (numbered_progressOf config ts) hshows.document
  refine ⟨page, hpage, hshows.pieces, ?_, ?_⟩
  · intro n hn
    have hbare := hrooted.sound.bare
    rw [← hchildren] at hbare
    exact hbare n (List.mem_filter.1 hn).1
  · rw [hroot, Document.markup, List.find?_filter]
    refine congrArg (List.find? · _) (funext fun n => ?_)
    cases hn : n.isHtml with
    | false => simp
    | true => simp [Node.piece?_isSome_of_isTag (Node.isTag_of_isHtml hn)]

/-- A closing tag that closes two elements at once, a span with two tags, a text and a script
outside all tags, and an element that closes itself. -/
def misnested : List Token :=
  [.bare .text "lost", .bare .tagOpen "<html><p <b>", .bare .text "kept", .bare .tagClose "</p>",
    .bare .tagOpen "<hr/>", .bare .scriptOpen "<script>", .bare .identifier "x",
    .bare .scriptClose "</script>", .bare .tagClose "</html>", .bare .scriptOpen "<script>"]

theorem misnested_conserved : 1 ≤ ({} : Config).maxExpressionTokens ∧
    ∃ page, readTokens? {} misnested none = some page ∧
      page.document.markup.map Node.piece? =
        (piecesOf {} [] (movesOf {} misnested)).map some ∧
      (∀ n ∈ page.document.markup, n.isBare {} = true → n.children = []) ∧
      page.document.root = page.document.markup.find? Node.isHtml :=
  ⟨by decide, markup_conserved (by decide) misnested none⟩

end PageLint
