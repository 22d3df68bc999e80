import PageLint.Analysis
import PageLint.Proofs.LineEnds.Tags
import PageLint.Proofs.Markup.Pieces
import PageLint.Proofs.Passes.Collecting
import PageLint.Proofs.Views.Forests
import PageLint.Proofs.Views.Rules
import PageLint.Proofs.Views.Statements

/-!
# Pages and views

Reading tokens as a view shows them gives a page as the view shows it.

* `Progress.ShownAs` — what has been read of two pages
* `Progress.ShownAs.add` — a chunk that is added to both
* `Page.Shows.view` — the pages of tokens that are shown alike
* `analyze?_eq` — the diagnostics of a page
-/

namespace PageLint

/-- Whether a view spells the names of the elements that never have contents as they are. -/
def View.Keeps (v : View) (config : Config) : Prop :=
  ∀ name ∈ config.voidElements, v.text name = name

/-- What has been read of two pages, when the second is as a view shows the first. -/
structure Progress.ShownAs (v : View) (p q : Progress) : Prop where
  forest : q.forest.view .bare = p.forest.view v
  nextSerial : q.nextSerial = p.nextSerial
  rootSerial : q.rootSerial = p.rootSerial
  doctype : NodeShown v p.doctype q.doctype
  elementIds : q.elementIds = p.elementIds.map v.text

variable {v : View}

/-! ## Opening tags -/

/-- The opening tags of two pages and their ids. -/
structure Opening.ShownAs (v : View) (o o' : Opening) : Prop where
  view : o'.view .bare = o.view v
  ids : Progress.idsOf o'.attributes = (Progress.idsOf o.attributes).map v.text

namespace Opening.ShownAs

variable {o o' : Opening} (h : o.ShownAs v o')

include h

theorem name : o'.name = v.text o.name := by
  have := congrArg Opening.name h.view
  simpa only [Opening.view, View.text_bare] using this

theorem selfClosing : o'.selfClosing = o.selfClosing := by
  have := congrArg Opening.selfClosing h.view
  exact this

theorem serial : o'.serial = o.serial := by
  have := congrArg Opening.serial h.view
  exact this

theorem isVoid {config : Config} (hkeeps : v.Keeps config) :
    config.voidElements.contains o'.name = config.voidElements.contains o.name := by
  rw [h.name, Bool.eq_iff_iff, List.contains_iff_mem, List.contains_iff_mem]
  constructor
  · intro hmem
    -- The shown name stays as it is when it is shown again, so the name was shown as itself.
    rwa [v.text_injective (hkeeps _ hmem)] at hmem
  · intro hmem
    rwa [hkeeps _ hmem]

theorem isHtml : (o'.name == "html") = (o.name == "html") := by
  rw [h.name, Bool.eq_iff_iff, beq_iff_eq, beq_iff_eq, v.text_eq_iff (by decide)]

end Opening.ShownAs

theorem view_ofList (cs : List Char) :
    String.ofList (Text.respell (Text.lineEnd v.returns) cs) = v.text (String.ofList cs) := by
  rw [View.text, String.toList_ofList]

theorem idsOf_shown (location location' : Location) (attributes : List (List Char × List Char)) :
    Progress.idsOf (attributes.map fun a =>
        { site := { location := location' }
          name := v.text (String.ofList a.1)
          value := v.text (String.ofList a.2) }) =
      (Progress.idsOf (attributes.map fun a =>
        { site := { location }, name := String.ofList a.1, value := String.ofList a.2 })).map
          v.text := by
  induction attributes with
  | nil => rfl
  | cons a attributes ih =>
    have hid : (lowered (v.text (String.ofList a.1)) == "id") =
        (lowered (String.ofList a.1) == "id") := by
      rw [View.lowered_text, Bool.eq_iff_iff, beq_iff_eq, beq_iff_eq, v.text_eq_iff (by decide)]
    simp only [Progress.idsOf, List.map_cons, List.filter_cons, hid] at ih ⊢
    split
    · rw [List.map_cons, List.map_cons, List.map_cons, ih]
    · exact ih

theorem openingOf_shown {location location' : Location}
    (hlocation : location'.view .bare = location.view v) (serial : Nat) (tag : Markup.TagText) :
    (Progress.openingOf serial location tag).ShownAs v
      (Progress.openingOf serial location'
        { name := Text.respell (Text.lineEnd v.returns) tag.name
          attributes := tag.attributes.map fun a =>
            (Text.respell (Text.lineEnd v.returns) a.1, Text.respell (Text.lineEnd v.returns) a.2)
          selfClosing := tag.selfClosing }) := by
  constructor
  · simp only [Progress.openingOf, Opening.view, hlocation, View.text_bare, view_ofList]
  · simp only [Progress.openingOf, List.map_map, Function.comp_def, view_ofList]
    exact idsOf_shown location location' tag.attributes

/-! ## Spans -/

theorem spanLocation_line (t : Token) (span : Markup.Span) :
    (spanLocation t span).line = t.line + (t.text.toList.take span.offset).count '\n' := by
  rw [spanLocation]
  split
  · rename_i h
    rw [beq_iff_eq.1 h]
    simp [Token.location]
  · rfl

/-- Spans of a tag and of the tag as a view shows it are at the same places. -/
theorem spanLocation_shown {t t' : Token} (ht : t.ShownAs v t') (hkind : t.kind = .tagOpen)
    {s s' : Markup.Span}
    (hs : Markup.Span.Respelled (Text.lineEnd v.returns) t.text.toList s s') :
    (spanLocation t' s').view .bare = (spanLocation t s).view v := by
  have htext : t'.text.toList = Text.respell (Text.lineEnd v.returns) t.text.toList := by
    rw [ht.text (by simp [hkind]), View.toList_text]
  have hline : (spanLocation t' s').line = v.line (spanLocation t s).line := by
    rw [spanLocation_line, spanLocation_line, htext, hs.front, Text.count_newline_respell, ht.line,
      ht.within hkind s.offset hs.inside]
  simp only [Location.view, hline, View.line_bare]

namespace Progress

variable {p q : Progress}

theorem ShownAs.closeTag (h : p.ShownAs v q) (name : String) (location location' : Location) :
    (p.closeTag name location).ShownAs v (q.closeTag (v.text name) location') := by
  have hclose := Forest.view_close? v p.forest name
  have hclose' := Forest.view_close? .bare q.forest (v.text name)
  rw [View.text_bare, h.forest, ← hclose] at hclose'
  unfold Progress.closeTag
  cases hp : p.forest.close? name with
  | none =>
    rw [hp, Option.map_none, Option.map_eq_none_iff] at hclose'
    rw [hclose']
    exact ⟨h.forest, h.nextSerial, h.rootSerial, h.doctype, h.elementIds⟩
  | some closed =>
    rw [hp, Option.map_some, Option.map_eq_some_iff] at hclose'
    obtain ⟨closed', hq, hview⟩ := hclose'
    rw [hq]
    exact ⟨hview, h.nextSerial, h.rootSerial, h.doctype, h.elementIds⟩

theorem ShownAs.openTag (h : p.ShownAs v q) {config : Config} (hkeeps : v.Keeps config)
    {o o' : Opening} (ho : o.ShownAs v o') :
    (p.openTag config o).ShownAs v (q.openTag config o') := by
  have hframe : ({ opening := o' } : Frame).view .bare = ({ opening := o } : Frame).view v := by
    simp only [Frame.view, ho.view, Content.viewAll]
  refine ⟨?_, ?_, ?_, h.doctype, ?_⟩
  · simp only [Progress.openTag, ho.selfClosing, ho.isVoid hkeeps]
    split
    · rw [Forest.view_addFrame, Forest.view_addFrame, h.forest, hframe]
    · rw [Forest.view_openFrame, Forest.view_openFrame, h.forest, hframe]
  · simp only [Progress.openTag, h.nextSerial]
  · simp only [Progress.openTag, h.rootSerial, ho.isHtml, ho.serial]
  · simp only [Progress.openTag, h.elementIds, ho.ids, List.map_append]

theorem ShownAs.readSpan (h : p.ShownAs v q) {config : Config} (hkeeps : v.Keeps config)
    {t t' : Token} (ht : t.ShownAs v t') (hkind : t.kind = .tagOpen) {s s' : Markup.Span}
    (hs : Markup.Span.Respelled (Text.lineEnd v.returns) t.text.toList s s') :
    (p.readSpan config t s).ShownAs v (q.readSpan config t' s') := by
  have hw := Text.lineEnd_isLineEnd v.returns
  have hlocation := spanLocation_shown ht hkind hs
  rw [Progress.readSpan, Progress.readSpan, hs.text, Markup.isClosing_respell hw,
    Markup.tagName_respell hw, view_ofList, Markup.read?_respell hw, ← spanLocation, ← spanLocation]
  split
  · exact h.closeTag _ _ _
  · cases Markup.TagText.read? s.text with
    | none => exact h
    | some tag =>
      rw [h.nextSerial]
      exact h.openTag hkeeps (openingOf_shown hlocation p.nextSerial tag)

theorem ShownAs.foldl_readSpan (h : p.ShownAs v q) {config : Config} (hkeeps : v.Keeps config)
    {t t' : Token} (ht : t.ShownAs v t') (hkind : t.kind = .tagOpen) {ss ss' : List Markup.Span}
    (hss : List.Forall₂ (Markup.Span.Respelled (Text.lineEnd v.returns) t.text.toList) ss ss') :
    (ss.foldl (Progress.readSpan config t) p).ShownAs v
      (ss'.foldl (Progress.readSpan config t') q) := by
  induction hss generalizing p q with
  | nil => exact h
  | cons hs hss ih => exact ih (h.readSpan hkeeps ht hkind hs)

theorem ShownAs.addLeaf (h : p.ShownAs v q) {n n' : Node} (hn : n'.view .bare = n.view v)
    (names names' : List String) :
    ShownAs v { p with forest := p.forest.addLeaf n, declaredNames := names }
      { q with forest := q.forest.addLeaf n', declaredNames := names' } where
  forest := by rw [Forest.view_addLeaf, Forest.view_addLeaf, h.forest, hn]
  nextSerial := h.nextSerial
  rootSerial := h.rootSerial
  doctype := h.doctype
  elementIds := h.elementIds

/-! ## Chunks -/

/-- A token outside scripts does the same to a page as a view shows both. -/
theorem ShownAs.readMarkup (h : p.ShownAs v q) {config : Config} (hkeeps : v.Keeps config)
    {t t' : Token} (ht : t.ShownAs v t') :
    (p.readMarkup config t).ShownAs v (q.readMarkup config t') := by
  have hw := Text.lineEnd_isLineEnd v.returns
  rw [Progress.readMarkup, Progress.readMarkup, ht.kind]
  cases hkind : t.kind with
  | doctype =>
    have hnone : q.doctype.isNone = p.doctype.isNone := by
      rw [← Option.isNone_map (f := Node.view .bare), show q.doctype.map _ = _ from h.doctype,
        Option.isNone_map]
    simp only [hnone]
    split
    · refine ⟨h.forest, h.nextSerial, h.rootSerial, ?_, h.elementIds⟩
      have hname : v.text "!DOCTYPE" = "!DOCTYPE" := v.text_of_not_mem (by decide)
      simp only [NodeShown, Option.map_some, doctypeNode, Node.view, ht.site, hname, View.text_bare,
        Node.viewAll]
    · exact h
  | tagOpen =>
    have htext : t'.text.toList = Text.respell (Text.lineEnd v.returns) t.text.toList := by
      rw [ht.text (by simp [hkind]), View.toList_text]
    simp only [htext]
    exact h.foldl_readSpan hkeeps ht hkind (Markup.spans_respell hw _)
  | tagClose =>
    simp only [ht.text (by simp [hkind]), View.toList_text, Markup.tagName_respell hw, view_ofList]
    exact h.closeTag _ _ _
  | text =>
    simp only [ht.text (by simp [hkind]), View.text_isEmpty]
    split
    · exact h
    · exact h.addLeaf (by simp only [Node.view, ht.site]) _ _
  | scriptOpen => exact ⟨h.forest, h.nextSerial, h.rootSerial, h.doctype, h.elementIds⟩
  | _ => exact h

end Progress

/-- Chunks of two pages. -/
inductive Chunk.ShownAs (v : View) : Chunk → Chunk → Prop where
  | markup {t t' : Token} (h : t.ShownAs v t') : ShownAs v (.markup t) (.markup t')
  | script {t t' : Token} {ts ts' : List Token} (h : t.ShownAs v t') (hts : TokensShown v ts ts') :
    ShownAs v (.script t ts) (.script t' ts')

theorem insideOf_shown {ts ts' : List Token} (h : TokensShown v ts ts') :
    TokensShown v (insideOf ts) (insideOf ts') ∧ TokensShown v (endOf ts) (endOf ts') := by
  induction h with
  | nil => exact ⟨.nil, .nil⟩
  | @cons t t' ts ts' ht hts ih =>
    have hends : t'.endsScript = t.endsScript := by rw [Token.endsScript, Token.endsScript, ht.kind]
    rw [insideOf, insideOf, endOf, endOf, List.takeWhile_cons, List.takeWhile_cons,
      List.dropWhile_cons, List.dropWhile_cons, hends]
    split
    · exact ⟨.cons ht ih.1, ih.2⟩
    · exact ⟨.nil, .cons ht hts⟩

theorem chunks_shown (ts : List Token) : ∀ ts' : List Token, TokensShown v ts ts' →
    List.Forall₂ (Chunk.ShownAs v) (chunks ts) (chunks ts') := by
  fun_induction chunks ts with
  | case1 =>
    intro ts' h
    cases h
    rw [chunks]
    exact .nil
  | case2 t ts he =>
    intro ts' h
    cases h with
    | cons ht hts =>
      rw [chunks, ht.kind, if_pos he]
      exact .nil
  | case3 t ts he ho ih =>
    intro ts' h
    cases h with
    | cons ht hts =>
      rw [chunks, ht.kind, if_neg he, if_pos ho]
      obtain ⟨hinside, hend⟩ := insideOf_shown hts
      exact .cons (.script ht hinside) (ih _ hend)
  | case4 t ts he ho ih =>
    intro ts' h
    cases h with
    | cons ht hts =>
      rw [chunks, ht.kind, if_neg he, if_neg ho]
      exact .cons (.markup ht) (ih _ hts)

theorem scriptNode_shown (config : Config) {t t' : Token} (ht : t.ShownAs v t')
    {ts ts' : List Token} (hts : TokensShown v ts ts') :
    (scriptNode config t' ts').view .bare = (scriptNode config t ts).view v := by
  have hstatements : NodesShown v (harvestOf config ts).statements
      (harvestOf config ts').statements := by
    have hscript := scriptFrom?_shown config ts ts' hts
    rw [harvestOf, harvestOf]
    generalize scriptFrom? config ts = found at hscript
    generalize scriptFrom? config ts' = found' at hscript
    cases hscript with
    | none => rfl
    | some hfound => exact hfound.statements
  rw [NodesShown] at hstatements
  simp only [scriptNode, Node.view, Node.viewAll_eq_map, Site.view, ht.location, hstatements]

namespace Progress

variable {p q : Progress}

/-- **A chunk does the same to a page as a view shows both.** -/
theorem ShownAs.add (h : p.ShownAs v q) {config : Config} (hkeeps : v.Keeps config)
    {c c' : Chunk} (hc : c.ShownAs v c') : (p.add config c).ShownAs v (q.add config c') := by
  cases hc with
  | markup ht => exact h.readMarkup hkeeps ht
  | script ht hts => exact h.addLeaf (scriptNode_shown config ht hts) _ _

theorem ShownAs.foldl_add (h : p.ShownAs v q) {config : Config} (hkeeps : v.Keeps config)
    {cs cs' : List Chunk} (hcs : List.Forall₂ (Chunk.ShownAs v) cs cs') :
    (cs.foldl (Progress.add config) p).ShownAs v (cs'.foldl (Progress.add config) q) := by
  induction hcs generalizing p q with
  | nil => exact h
  | cons hc hcs ih => exact ih (h.add hkeeps hc)

theorem lookup_view (v : View) (table : Frame.Table) (serial : Nat) :
    (table.map fun e => (e.1, e.2.view v)).lookup serial =
      (table.lookup serial).map (Node.view v) := by
  induction table with
  | nil => rfl
  | cons e table ih =>
    rw [List.map_cons, List.lookup_cons, List.lookup_cons, ih]
    split <;> rfl

/-- The document of what has been read, as a view shows it: its tags come from the elements as the
view shows them. -/
theorem document?_view (v : View) {p : Progress} (hp : p.Numbered) (file : Option String) :
    (p.document? file).map (Document.view v) =
      ((match p.rootSerial with
        | none => some none
        | some serial =>
          ((((p.forest.view v).frames.reverse.flatMap Frame.entries).reverse).lookup serial).map
            some).map fun root =>
        { site := { location := { line := v.line 1, column := 0 } }
          children := (p.forest.view v).frames.map Frame.toTag
          doctype := p.doctype.map (Node.view v)
          root }) := by
  have htags : (p.forest.view v).frames.map Frame.toTag =
      (p.forest.frames.map Frame.toTag).map (Node.view v) := by
    rw [Forest.view_frames, List.map_map, List.map_map]
    exact List.map_congr_left fun f _ => f.view_toTag v
  have hentries : ((p.forest.view v).frames.reverse.flatMap Frame.entries).reverse =
      ((p.forest.frames.reverse.flatMap Frame.entries).reverse).map
        fun e => (e.1, e.2.view v) := by
    rw [Forest.view_frames, ← List.map_reverse, List.flatMap_map, List.map_reverse,
      List.map_flatMap]
    simp only [Frame.view_entries]
  rw [document?, freeze?_eq_some hp.nodup_entries, htags, hentries]
  cases p.rootSerial with
  | none => rfl
  | some serial =>
    simp only [Option.bind_eq_bind, Option.bind_some, lookup_view]
    cases ((p.forest.frames.reverse.flatMap Frame.entries).reverse).lookup serial <;> rfl

theorem ShownAs.document (h : p.ShownAs v q) (hp : p.Numbered) (hq : q.Numbered)
    (hfirst : v.line 1 = 1) (file file' : Option String) :
    (q.document? file').map (Document.view .bare) = (p.document? file).map (Document.view v) := by
  have hdoctype := h.doctype
  rw [NodeShown] at hdoctype
  rw [document?_view .bare hq, document?_view v hp, h.forest, h.rootSerial, hdoctype, hfirst,
    View.line_bare]

end Progress

/-! ## Pages and analyses -/

theorem progressOf_concat_eof (config : Config) {e : Token} (he : e.kind = .eof) (ts : List Token) :
    progressOf config (ts ++ [e]) = progressOf config ts := by
  rw [progressOf, progressOf, chunks_append_eof he ts []]

theorem progressOf_shown {config : Config} (hkeeps : v.Keeps config) {ts ts' : List Token}
    (h : TokensShown v ts ts') :
    (progressOf config ts).ShownAs v (progressOf config ts') := by
  have hempty : Progress.ShownAs v {} {} := ⟨rfl, rfl, rfl, rfl, rfl⟩
  exact hempty.foldl_add hkeeps (chunks_shown ts ts' h)

/-- Pages of tokens that are shown alike. -/
theorem Page.Shows.view {config : Config} (hkeeps : v.Keeps config) (hfirst : v.line 1 = 1)
    {ts ts' : List Token} (h : TokensShown v ts ts') {file file' : Option String}
    {page page' : Page}
    (hpage : page.Shows file (progressOf config ts))
    (hpage' : page'.Shows file' (progressOf config ts')) :
    page'.document.view .bare = page.document.view v ∧
      page'.elementIds = page.elementIds.map v.text := by
  have hshown := progressOf_shown hkeeps h
  constructor
  · have hdocument := hshown.document (numbered_progressOf config ts)
      (numbered_progressOf config ts') hfirst file file'
    rw [hpage.document, hpage'.document, Option.map_some, Option.map_some] at hdocument
    exact Option.some.inj hdocument
  · rw [hpage'.elementIds, hpage.elementIds, hshown.elementIds]

/-- The diagnostics of an analysis are the numbered findings of the passes over its page. -/
theorem analyze?_eq {config : Config} (hlimit : 1 ≤ config.maxExpressionTokens) (source : String)
    (file : Option String) : ∃ (page : Page) (a : Analysis),
      page.Shows file (progressOf config (tokenize source file)) ∧
      analyze? config source file = some a ∧
      a.diagnostics = numberFrom 1 (findingsOf config page.elementIds page.document Pass.all) := by
  obtain ⟨page, hread, hshows⟩ := readPage?_shows hlimit source file
  refine ⟨page, _, hshows, by rw [analyze?, analyzeInto?, hread, Option.map_some], ?_⟩
  rw [Analysis.diagnostics]
  simp only [validate]
  rw [runPasses_collector, Collector.addAll_diagnostics]
  rfl

end PageLint
