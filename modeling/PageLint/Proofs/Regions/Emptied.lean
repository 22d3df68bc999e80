import PageLint.Proofs.Regions.Chunks

/-!
# Pages without the contents of their scripts

Deleting the tokens inside scripts leaves a page with the same tags and texts in the same tree. Only
the scripts are empty.

The tree with its scripts emptied is followed through the forest under construction: emptying goes
past every operation on a forest, down to the tags that are made at the end.

* `withoutScripts` — the tokens outside scripts, with the opening tag and the end of each script
* `Progress.Empties.add` — a chunk and the same chunk emptied do the same to the markup of a page
* `Page.Shows.withoutScripts` — the page without the contents of its scripts
-/

namespace PageLint

/-! ## Emptied trees -/

mutual

/-- A node in which the scripts hold no statements. -/
def Node.emptied : Node → Node
  | .tag site name attributes children selfClosing closing =>
    .tag site name attributes (Node.emptiedAll children) selfClosing closing
  | .script site _ => .script site []
  | n => n

def Node.emptiedAll : List Node → List Node
  | [] => []
  | n :: ns => n.emptied :: Node.emptiedAll ns

end

theorem Node.emptied_text (site : Site) (content : String) :
    (Node.text site content).emptied = .text site content := by
  simp [Node.emptied]

/-- A document in which the scripts hold no statements. -/
def Document.emptied (d : Document) : Document :=
  { d with children := d.children.map Node.emptied, root := d.root.map Node.emptied }

mutual

/-- Content in which the scripts hold no statements. -/
def Content.emptied : Content → Content
  | .element opening contents => .element opening (Content.emptiedAll contents)
  | .leaf n => .leaf n.emptied

def Content.emptiedAll : List Content → List Content
  | [] => []
  | c :: cs => c.emptied :: Content.emptiedAll cs

end

theorem Content.emptiedAll_append (cs ds : List Content) :
    Content.emptiedAll (cs ++ ds) = Content.emptiedAll cs ++ Content.emptiedAll ds := by
  induction cs with
  | nil => rfl
  | cons c cs ih =>
    rw [List.cons_append, Content.emptiedAll, ih, Content.emptiedAll, List.cons_append]

/-- A frame in which the scripts hold no statements. -/
def Frame.emptied (f : Frame) : Frame := { f with contents := Content.emptiedAll f.contents }

theorem Frame.emptied_add (f : Frame) (c : Content) :
    (f.add c).emptied = f.emptied.add c.emptied := by
  simp only [Frame.emptied, Frame.add, Content.emptiedAll_append, Content.emptiedAll]

theorem Frame.emptied_toContent (f : Frame) : f.toContent.emptied = f.emptied.toContent := by
  rw [Frame.toContent, Content.emptied]
  rfl

theorem Frame.emptied_closeInto (f : Frame) (fs : List Frame) :
    (f.closeInto fs).emptied = f.emptied.closeInto (fs.map Frame.emptied) := by
  induction fs generalizing f with
  | nil => rfl
  | cons outer fs ih =>
    rw [Frame.closeInto, ih, Frame.emptied_add, Frame.emptied_toContent]
    rfl

mutual

theorem Content.emptied_toNode (c : Content) : c.emptied.toNode = c.toNode.emptied := by
  match c with
  | .leaf n =>
    rw [Content.emptied]
    rfl
  | .element o cs =>
    rw [Content.emptied, Content.toNode, Content.toNode, Content.emptied_toNodes cs, Opening.toTag,
      Opening.toTag, Node.emptied]

theorem Content.emptied_toNodes (cs : List Content) :
    Content.toNodes (Content.emptiedAll cs) = Node.emptiedAll (Content.toNodes cs) := by
  match cs with
  | [] => rfl
  | c :: cs =>
    rw [Content.emptiedAll, Content.toNodes, Content.toNodes, Node.emptiedAll,
      Content.emptied_toNode c, Content.emptied_toNodes cs]

end

theorem Frame.emptied_toTag (f : Frame) : f.emptied.toTag = f.toTag.emptied := by
  have h := Content.emptied_toNode f.toContent
  rw [Frame.emptied_toContent] at h
  exact h

mutual

theorem Content.emptied_entries (c : Content) :
    c.emptied.entries = c.entries.map fun e => (e.1, e.2.emptied) := by
  match c with
  | .leaf n =>
    rw [Content.emptied]
    rfl
  | .element o cs =>
    rw [Content.emptied, Content.entries, Content.entries, Content.emptied_entriesOf cs,
      List.map_cons, Content.emptied_toNodes, Opening.toTag, Opening.toTag, Node.emptied]

theorem Content.emptied_entriesOf (cs : List Content) :
    Content.entriesOf (Content.emptiedAll cs) =
      (Content.entriesOf cs).map fun e => (e.1, e.2.emptied) := by
  match cs with
  | [] => rfl
  | c :: cs =>
    rw [Content.emptiedAll, Content.entriesOf, Content.entriesOf, List.map_append,
      Content.emptied_entries c, Content.emptied_entriesOf cs]

end

theorem Frame.emptied_entries (f : Frame) :
    f.emptied.entries = f.entries.map fun e => (e.1, e.2.emptied) := by
  rw [Frame.entries, Frame.entries, ← Content.emptied_entries, Frame.emptied_toContent]

/-! ## Emptied forests -/

/-- A forest in which the scripts hold no statements. -/
def Forest.emptied (forest : Forest) : Forest :=
  { roots := forest.roots.map Frame.emptied
    openTags := { frames := forest.openTags.frames.map Frame.emptied } }

namespace Forest

theorem emptied_addFrame (forest : Forest) (f : Frame) :
    (forest.addFrame f).emptied = forest.emptied.addFrame f.emptied := by
  unfold addFrame
  cases hopen : forest.openTags.frames with
  | nil => simp [emptied, hopen]
  | cons top rest =>
    simp [emptied, hopen, Frame.emptied_add, Frame.emptied_toContent]

theorem emptied_addLeaf (forest : Forest) (n : Node) :
    (forest.addLeaf n).emptied = forest.emptied.addLeaf n.emptied := by
  unfold addLeaf
  cases hopen : forest.openTags.frames with
  | nil => simp [emptied, hopen]
  | cons top rest => simp [emptied, hopen, Frame.emptied_add, Content.emptied]

theorem splitAt?_emptied (name : String) (fs : List Frame) :
    OpenTags.splitAt? name (fs.map Frame.emptied) =
      (OpenTags.splitAt? name fs).map fun (inner, found, outer) =>
        (inner.map Frame.emptied, found.emptied, outer.map Frame.emptied) := by
  induction fs with
  | nil => rfl
  | cons f fs ih =>
    have hnamed : OpenTags.isNamed name f.emptied = OpenTags.isNamed name f := rfl
    rw [List.map_cons, OpenTags.splitAt?, OpenTags.splitAt?, hnamed, ih]
    split
    · rfl
    · cases OpenTags.splitAt? name fs <;> rfl

theorem emptied_close? (forest : Forest) (name : String) :
    (forest.close? name).map emptied = forest.emptied.close? name := by
  unfold close?
  show _ = (OpenTags.splitAt? name (forest.openTags.frames.map Frame.emptied)).map _
  rw [splitAt?_emptied, Option.map_map, Option.map_map]
  refine congrArg (Option.map · _) (funext fun ⟨inner, found, outer⟩ => ?_)
  cases inner with
  | nil => exact emptied_addFrame _ found
  | cons f fs =>
    simp only [Function.comp_apply, List.map_cons]
    rw [emptied_addFrame, Frame.emptied_closeInto, List.map_append]
    rfl

theorem emptied_frames (forest : Forest) :
    forest.emptied.frames = forest.frames.map Frame.emptied := by
  unfold frames
  cases hopen : forest.openTags.frames with
  | nil => simp [emptied, hopen]
  | cons f fs => simp [emptied, hopen, Frame.emptied_closeInto]

end Forest

/-! ## Emptied pages -/

/-- A chunk in which a script is empty. -/
def Chunk.emptied : Chunk → Chunk
  | .markup t => .markup t
  | .script opening _ => .script opening []

namespace Progress

/-- The same has been read of the markup of two pages, except that the scripts of the second are
empty. -/
structure Empties (p q : Progress) : Prop where
  forest : q.forest = p.forest.emptied
  nextSerial : q.nextSerial = p.nextSerial
  rootSerial : q.rootSerial = p.rootSerial
  doctype : q.doctype = p.doctype
  elementIds : q.elementIds = p.elementIds

variable {p q : Progress}

theorem Empties.closeTag (h : p.Empties q) (name : String) (location : Location) :
    (p.closeTag name location).Empties (q.closeTag name location) := by
  have hclose := Forest.emptied_close? p.forest name
  rw [← h.forest] at hclose
  unfold Progress.closeTag
  cases hp : p.forest.close? name with
  | none =>
    rw [hp] at hclose
    rw [← hclose]
    exact ⟨h.forest, h.nextSerial, h.rootSerial, h.doctype, h.elementIds⟩
  | some closed =>
    rw [hp] at hclose
    rw [← hclose]
    exact ⟨rfl, h.nextSerial, h.rootSerial, h.doctype, h.elementIds⟩

theorem Empties.openTag (h : p.Empties q) (config : Config) (opening : Opening) :
    (p.openTag config opening).Empties (q.openTag config opening) := by
  refine ⟨?_, ?_, ?_, h.doctype, ?_⟩
  · simp only [Progress.openTag, h.forest]
    split
    · exact (Forest.emptied_addFrame p.forest { opening }).symm
    · rfl
  · simp only [Progress.openTag, h.nextSerial]
  · simp only [Progress.openTag, h.rootSerial]
  · simp only [Progress.openTag, h.elementIds]

theorem Empties.readSpan (h : p.Empties q) (config : Config) (t : Token) (span : Markup.Span) :
    (p.readSpan config t span).Empties (q.readSpan config t span) := by
  simp only [Progress.readSpan, h.nextSerial]
  split
  · exact h.closeTag _ _
  · split
    · exact h
    · exact h.openTag config _

theorem Empties.foldl_readSpan (h : p.Empties q) (config : Config) (t : Token)
    (spans : List Markup.Span) :
    (spans.foldl (Progress.readSpan config t) p).Empties
      (spans.foldl (Progress.readSpan config t) q) := by
  induction spans generalizing p q with
  | nil => exact h
  | cons span spans ih => exact ih (h.readSpan config t span)

theorem Empties.addLeaf (h : p.Empties q) (n : Node) (names names' : List String) :
    Empties { p with forest := p.forest.addLeaf n, declaredNames := names }
      { q with forest := q.forest.addLeaf n.emptied, declaredNames := names' } where
  forest := by rw [h.forest, Forest.emptied_addLeaf]
  nextSerial := h.nextSerial
  rootSerial := h.rootSerial
  doctype := h.doctype
  elementIds := h.elementIds

/-- **A chunk and the same chunk emptied do the same to the markup of a page.** -/
theorem Empties.add (h : p.Empties q) (config : Config) (c : Chunk) :
    (p.add config c).Empties (q.add config c.emptied) := by
  cases c with
  | script opening inside =>
    have hnode : scriptNode config opening [] = (scriptNode config opening inside).emptied := by
      rw [scriptNode, scriptNode, Node.emptied, harvestOf, scriptFrom?_nil]
      rfl
    rw [Chunk.emptied, Progress.add, Progress.add, hnode]
    exact h.addLeaf _ _ _
  | markup t =>
    rw [Chunk.emptied, Progress.add, Progress.add, Progress.readMarkup, Progress.readMarkup]
    cases t.kind with
    | tagOpen => exact h.foldl_readSpan config t _
    | tagClose => exact h.closeTag _ _
    | text =>
      simp only
      split
      · exact h
      · have hleaf := h.addLeaf (.text { location := t.location } t.text) p.declaredNames
          q.declaredNames
        rw [Node.emptied_text] at hleaf
        exact hleaf
    | doctype =>
      simp only [h.doctype]
      split
      · exact ⟨h.forest, h.nextSerial, h.rootSerial, rfl, h.elementIds⟩
      · exact h
    | scriptOpen => exact ⟨h.forest, h.nextSerial, h.rootSerial, h.doctype, h.elementIds⟩
    | _ => exact h

theorem Empties.foldl_add (h : p.Empties q) (config : Config) (cs : List Chunk) :
    (cs.foldl (Progress.add config) p).Empties
      ((cs.map Chunk.emptied).foldl (Progress.add config) q) := by
  induction cs generalizing p q with
  | nil => exact h
  | cons c cs ih => exact ih (h.add config c)

/-- The table of an emptied page holds the emptied tags. -/
theorem lookup_emptied (table : Frame.Table) (serial : Nat) :
    (table.map fun e => (e.1, e.2.emptied)).lookup serial =
      (table.lookup serial).map Node.emptied := by
  induction table with
  | nil => rfl
  | cons e table ih =>
    rw [List.map_cons, List.lookup_cons, List.lookup_cons, ih]
    split <;> rfl

theorem Empties.document (h : p.Empties q) (hp : p.Numbered) (hq : q.Numbered)
    (file : Option String) : q.document? file = (p.document? file).map Document.emptied := by
  have hframes : q.forest.frames = p.forest.frames.map Frame.emptied := by
    rw [h.forest, Forest.emptied_frames]
  have htags : q.forest.frames.map Frame.toTag =
      (p.forest.frames.map Frame.toTag).map Node.emptied := by
    rw [hframes, List.map_map, List.map_map]
    exact List.map_congr_left fun f _ => f.emptied_toTag
  have hentries : (q.forest.frames.reverse.flatMap Frame.entries).reverse =
      ((p.forest.frames.reverse.flatMap Frame.entries).reverse).map
        fun e => (e.1, e.2.emptied) := by
    rw [hframes, ← List.map_reverse, List.flatMap_map, List.map_reverse, List.map_flatMap]
    simp only [Frame.emptied_entries]
  rw [document?, document?, freeze?_eq_some hp.nodup_entries,
    freeze?_eq_some hq.nodup_entries, h.rootSerial, h.doctype, htags, hentries]
  cases p.rootSerial with
  | none => rfl
  | some serial =>
    simp only [Option.bind_eq_bind, Option.bind_some, lookup_emptied]
    cases ((p.forest.frames.reverse.flatMap Frame.entries).reverse).lookup serial <;> rfl

end Progress

/-! ## Tokens without scripts -/

/-- The tokens of a page without those between the opening tag of a script and its end. -/
def withoutScripts (ts : List Token) : List Token :=
  match ts with
  | [] => []
  | t :: ts =>
    if t.kind == .scriptOpen then t :: withoutScripts (endOf ts) else t :: withoutScripts ts
termination_by ts.length
decreasing_by
  · exact Nat.lt_succ_of_le (List.dropWhile_suffix _).length_le
  · exact Nat.lt_succ_self _

theorem withoutScripts_script {t : Token} (h : t.kind = .scriptOpen) (ts : List Token) :
    withoutScripts (t :: ts) = t :: withoutScripts (endOf ts) := by
  rw [withoutScripts, if_pos (by simpa using h)]

theorem withoutScripts_markup {t : Token} (h : t.kind ≠ .scriptOpen) (ts : List Token) :
    withoutScripts (t :: ts) = t :: withoutScripts ts := by
  rw [withoutScripts, if_neg (by simpa using h)]

/-- A script ends with the same token when the scripts behind it are deleted. -/
theorem ended_withoutScripts {ts : List Token} (h : Ended ts) : Ended (withoutScripts ts) := by
  rcases h.cases with rfl | ⟨t, us, rfl, hk⟩
  · rw [withoutScripts]
    exact ended_nil
  · rw [withoutScripts_markup (by rcases hk with hk | hk <;> simp [hk])]
    exact h

theorem chunks_withoutScripts (ts : List Token) :
    chunks (withoutScripts ts) = (chunks ts).map Chunk.emptied := by
  fun_induction chunks ts with
  | case1 => rw [withoutScripts, chunks, List.map_nil]
  | case2 t ts he =>
    have he : t.kind = .eof := by simpa using he
    rw [withoutScripts_markup (by simp [he]), chunks_eof he, List.map_nil]
  | case3 t ts he ho ih =>
    have ho : t.kind = .scriptOpen := by simpa using ho
    obtain ⟨hinside, hend⟩ :=
      insideOf_append inside_nil (ended_withoutScripts (ended_endOf ts))
    rw [List.nil_append] at hinside hend
    rw [withoutScripts_script ho, chunks_script ho, hinside, hend, ih, List.map_cons, Chunk.emptied]
  | case4 t ts he ho ih =>
    have he : t.kind ≠ .eof := by simpa using he
    have ho : t.kind ≠ .scriptOpen := by simpa using ho
    rw [withoutScripts_markup ho, chunks_markup he ho, ih, List.map_cons, Chunk.emptied]

/-- **Deleting the tokens inside scripts empties the scripts, and nothing else**: tags, texts, ids
and the tags left open are the same. -/
theorem Page.Shows.withoutScripts {config : Config} {ts : List Token} {file : Option String}
    {page page' : Page} (h : page.Shows file (progressOf config ts))
    (h' : page'.Shows file (progressOf config (withoutScripts ts))) :
    page'.document = page.document.emptied ∧ page'.elementIds = page.elementIds ∧
      page'.openTags = page.openTags := by
  have hempties :
      (progressOf config ts).Empties (progressOf config (PageLint.withoutScripts ts)) := by
    rw [progressOf, progressOf, chunks_withoutScripts]
    exact Progress.Empties.foldl_add ⟨rfl, rfl, rfl, rfl, rfl⟩ config _
  refine ⟨?_, ?_, ?_⟩
  · have hdocument := hempties.document (numbered_progressOf config ts)
      (numbered_progressOf config (PageLint.withoutScripts ts)) file
    rw [h.document, h'.document, Option.map_some] at hdocument
    exact Option.some.inj hdocument
  · rw [h.elementIds, h'.elementIds, hempties.elementIds]
  · rw [h.openTags, h'.openTags, hempties.forest, OpenTags.names, OpenTags.names, Forest.emptied]
    simp only [← List.map_reverse, List.map_map]
    rfl

end PageLint
