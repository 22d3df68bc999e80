import Mathlib.Data.List.Forall2
import PageLint.Proofs.Markup.Conservation
import PageLint.Proofs.Regions.Coverage

/-!
# The tags of a page and where they are written

The tags of a page, listed in preorder, are the opening tags that its tokens hold, in the same
order: each stands at the place of its span and says what the text of the span says. Spans that
start a closing tag and spans without a name give no tag.

* `Document.tags` — the tags of a document, in preorder
* `OpeningText` — an opening tag in its token
* `Page.Shows.tags` — the tags of a page are those of its tokens
* `exists_openings` — reading a page gives one tag for each
-/

namespace PageLint

/-- The tags of a document, in preorder. -/
def Document.tags (d : Document) : List Node :=
  (d.children.flatMap Node.preorder).filter Node.isTag

/-- An opening tag in its token: its span, and what the text of the span says. -/
structure OpeningText where
  token : Token
  span : Markup.Span
  tag : Markup.TagText
  deriving DecidableEq, Repr

/-- The opening tag that a span of a token is. -/
def Token.opening? (t : Token) (span : Markup.Span) : Option OpeningText :=
  if Markup.isClosing span.text then none
  else (Markup.TagText.read? span.text).map fun tag => { token := t, span, tag }

/-- The opening tags that a token holds. -/
def Token.openings (t : Token) : List OpeningText :=
  if t.kind == .tagOpen then (Markup.spans t.text.toList).filterMap t.opening? else []

/-- The place of an opening tag. -/
def OpeningText.location (o : OpeningText) : Location := spanLocation o.token o.span

/-- An opening tag that a token holds is written there. -/
structure OpeningText.Written (o : OpeningText) : Prop where
  kind : o.token.kind = .tagOpen
  span : o.span ∈ Markup.spans o.token.text.toList
  opening : Markup.isClosing o.span.text = false
  tag : Markup.TagText.read? o.span.text = some o.tag

theorem Token.written_of_mem {t : Token} {o : OpeningText} (h : o ∈ t.openings) :
    o.token = t ∧ o.Written := by
  unfold Token.openings at h
  split at h
  · rename_i hkind
    obtain ⟨span, hspan, hopening⟩ := List.mem_filterMap.1 h
    unfold Token.opening? at hopening
    split at hopening
    · cases hopening
    · rename_i hclosing
      obtain ⟨tag, htag, rfl⟩ := Option.map_eq_some_iff.1 hopening
      exact ⟨rfl, by simpa using hkind, hspan, by simpa using hclosing, htag⟩
  · cases h

theorem Token.openings_eq_nil {t : Token} (h : t.kind ≠ .tagOpen) : t.openings = [] :=
  if_neg (by simpa using h)

/-! ## The tags among the pieces -/

/-- Whether a piece of markup is a tag. -/
def Piece.isTag : Piece → Bool
  | .tag .. => true
  | _ => false

/-- The piece of the tag that a move opens. -/
def Move.tag? : Move → Option Piece
  | .opens location tag => some (tagPiece location tag)
  | _ => none

theorem Node.isTag_eq_any (n : Node) : n.isTag = n.piece?.any Piece.isTag := by
  cases n <;> rfl

/-- The tags of a document are those among its pieces of markup. -/
theorem Document.map_piece?_tags (d : Document) :
    d.tags.map Node.piece? = (d.markup.map Node.piece?).filter fun p => p.any Piece.isTag := by
  rw [List.filter_map, Document.markup, Document.tags, List.filter_filter]
  refine congrArg _ (List.filter_congr fun n _ => ?_)
  rw [Node.isTag_eq_any, Function.comp_apply]
  cases n.piece? <;> simp

/-- Tags are added whatever tags are open. -/
theorem filter_isTag_piecesOf (config : Config) (names : List String) (ms : List Move) :
    (piecesOf config names ms).filter Piece.isTag = ms.filterMap Move.tag? := by
  induction ms generalizing names with
  | nil => rfl
  | cons m ms ih =>
    rw [piecesOf, List.filter_append, ih, List.filterMap_cons]
    cases m with
    | opens => rfl
    | closes => rfl
    | text => rw [Move.pieces]; split <;> rfl
    | script => rw [Move.pieces]; split <;> rfl

/-! ## The tags of tokens -/

/-- The pieces of the opening tags that a token holds. -/
theorem filterMap_tag?_spans (t : Token) {spans : List Markup.Span}
    (h : ∀ s ∈ spans, Markup.isClosing s.text = ['<', '/'].isPrefixOf s.text) :
    (spans.filterMap (spanMove? t)).filterMap Move.tag? =
      (spans.filterMap t.opening?).map fun o => tagPiece o.location o.tag := by
  induction spans with
  | nil => rfl
  | cons s spans ih =>
    have hmore := ih fun s' hs' => h s' (List.mem_cons_of_mem _ hs')
    rw [List.filterMap_cons, List.filterMap_cons, spanMove?, Token.opening?,
      h s List.mem_cons_self]
    split
    · rename_i hnone
      split at hnone
      · cases hnone
      · rename_i hopening
        rw [if_neg hopening, Option.map_eq_none_iff.1 hnone]
        exact hmore
    · rename_i m hm
      split at hm
      · rename_i hclosing
        obtain rfl := Option.some.inj hm
        rw [if_pos hclosing]
        exact hmore
      · rename_i hopening
        obtain ⟨tag, htag, rfl⟩ := Option.map_eq_some_iff.1 hm
        rw [if_neg hopening, htag]
        exact congrArg (_ :: ·) hmore

/-- A chunk opens the tags that its tokens hold, when those inside scripts hold none. -/
theorem Chunk.filterMap_tag?_moves (config : Config) {c : Chunk}
    (hscript : ∀ opening inside, c = .script opening inside →
      (opening :: inside).flatMap Token.openings = []) :
    (c.moves config).filterMap Move.tag? =
      (c.tokens.flatMap Token.openings).map fun o => tagPiece o.location o.tag := by
  cases c with
  | script opening inside => rw [Chunk.tokens, hscript opening inside rfl]; rfl
  | markup t =>
    rw [Chunk.tokens, List.flatMap_singleton, Chunk.moves]
    by_cases hopen : t.kind = .tagOpen
    · have hopenings : t.openings = (Markup.spans t.text.toList).filterMap t.opening? :=
        if_pos (by simpa using hopen)
      rw [hopenings, hopen]
      exact filterMap_tag?_spans t fun s hs => Markup.isClosing_of_mem_spansFrom hs
    · rw [Token.openings_eq_nil hopen]
      cases hkind : t.kind with
      | tagOpen => exact absurd hkind hopen
      | text => cases t.text.isEmpty <;> simp [Move.tag?]
      | _ => rfl

/-- Only opening tags hold tags: neither the token of a script nor those inside it do. -/
theorem flatMap_openings_script {source : String} {file : Option String} {opening : Token}
    {inside : List Token} (h : .script opening inside ∈ chunks (tokenize source file)) :
    (opening :: inside).flatMap Token.openings = [] := by
  obtain ⟨hopening, hinside⟩ := scans_of_mem_script source file h
  refine List.flatMap_eq_nil_iff.2 fun t ht => Token.openings_eq_nil fun hk => ?_
  rcases List.mem_cons.1 ht with rfl | ht
  · rw [hk] at hopening
    cases hopening
  · have hscans := hinside t ht
    rw [hk] at hscans
    cases hscans

/-- The opening tags of a source, in order. -/
def openingsOf (source : String) (file : Option String) : List OpeningText :=
  (tokenize source file).flatMap Token.openings

/-- The token for the end of the input holds no tag. -/
theorem flatMap_openings_filter (ts : List Token) :
    (ts.filter fun t => t.kind != .eof).flatMap Token.openings = ts.flatMap Token.openings := by
  induction ts with
  | nil => rfl
  | cons t ts ih =>
    by_cases heof : t.kind = .eof
    · rw [List.filter_cons_of_neg (by simp [heof]), ih, List.flatMap_cons,
        Token.openings_eq_nil (by simp [heof]), List.nil_append]
    · rw [List.filter_cons_of_pos (by simpa using heof), List.flatMap_cons, ih, List.flatMap_cons]

/-! ## The tags of a page -/

/-- **The tags of a page are the opening tags of its tokens**, in order. -/
theorem Page.Shows.tags {config : Config} {source : String} {file : Option String} {page : Page}
    (h : page.Shows file (progressOf config (tokenize source file))) :
    page.document.tags.map Node.piece? =
      (openingsOf source file).map fun o => some (tagPiece o.location o.tag) := by
  have hchunks : (movesOf config (tokenize source file)).filterMap Move.tag? =
      (openingsOf source file).map fun o => tagPiece o.location o.tag := by
    rw [openingsOf, ← flatMap_openings_filter, ← flatMap_tokens_tokenize, List.flatMap_assoc,
      List.map_flatMap, movesOf, List.filterMap_flatMap]
    refine List.flatMap_congr fun c hc => c.filterMap_tag?_moves config ?_
    rintro opening inside rfl
    exact flatMap_openings_script hc
  have hsome : (fun p : Option Piece => p.any Piece.isTag) ∘ some = Piece.isTag := rfl
  rw [Document.map_piece?_tags, h.pieces, List.filter_map, hsome, filter_isTag_piecesOf, hchunks,
    List.map_map]
  rfl

/-- A node is the tag of an opening tag: it stands where that is written, and has the name, the
attributes and the mark of one that closes itself that the text gives. -/
def Node.IsTagOf (n : Node) (o : OpeningText) : Prop := n.piece? = some (tagPiece o.location o.tag)

namespace Node.IsTagOf

variable {n : Node} {o : OpeningText}

theorem location_eq (h : n.IsTagOf o) : n.site.location = o.location := by
  unfold IsTagOf at h
  generalize o.location = location at h ⊢
  cases n <;> cases h
  rfl

theorem tagName?_eq (h : n.IsTagOf o) : n.tagName? = some (String.ofList o.tag.name) := by
  unfold IsTagOf at h
  generalize o.location = location at h
  cases n <;> cases h
  rfl

end Node.IsTagOf

/-- **Reading a page gives one tag for each opening tag**, in order, and each of these is written in
a token of the page. -/
theorem exists_openings {config : Config} (hlimit : 1 ≤ config.maxExpressionTokens)
    (source : String) (file : Option String) : ∃ page, readPage? config source file = some page ∧
      List.Forall₂ Node.IsTagOf page.document.tags (openingsOf source file) ∧
      ∀ o ∈ openingsOf source file, o.token ∈ tokenize source file ∧ o.Written := by
  obtain ⟨page, hpage, hshows⟩ := readPage?_shows hlimit source file
  refine ⟨page, hpage, ?_, fun o ho => ?_⟩
  · have htags := hshows.tags
    rw [← List.forall₂_eq_eq_eq, List.forall₂_map_left_iff, List.forall₂_map_right_iff] at htags
    exact htags
  · obtain ⟨t, ht, hmem⟩ := List.mem_flatMap.1 ho
    obtain ⟨rfl, hwritten⟩ := Token.written_of_mem hmem
    exact ⟨ht, hwritten⟩

end PageLint
