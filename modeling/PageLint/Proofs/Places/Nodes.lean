import PageLint.Proofs.Places.Spans
import PageLint.Proofs.Places.Statements
import PageLint.Proofs.Regions.Coverage

/-!
# Places of nodes

Every site in a document has the line and column of its offset in the source, and every tag stands
at a `<`. On a walk over the document offsets never go down. They go up from one tag, text or script
to the next, and from one statement to the next.

Offsets go up from chunk to chunk, since tokens do not reach into each other. So it is enough to
look at the pieces of markup of one chunk.

* `Chunk.Covers` — an offset inside a token of a chunk
* `ListsOffsets` — what pieces of markup list is offsets of theirs, related in order
* `ListsOffsets.pieces_pairwise` — then the offsets that a whole page lists are related in order
* `nodes_in_place` — the places of all nodes of a page
-/

namespace PageLint

/-! ## Chunks in order -/

/-- Tokens with texts, none of which reaches into a later one. -/
structure Spaced (ts : List Token) : Prop where
  text : ∀ t ∈ ts, t.text ≠ ""
  startsTag : ∀ t ∈ ts, t.StartsTag
  order : ts.Pairwise fun (t u : Token) => t.offset + t.text.length ≤ u.offset

theorem Spaced.length_pos {ts : List Token} (h : Spaced ts) {t : Token} (ht : t ∈ ts) :
    0 < t.text.length := by
  rw [Nat.pos_iff_ne_zero, ne_eq, String.length_eq_zero_iff]
  exact h.text t ht

theorem Spaced.sublist {ts us : List Token} (h : Spaced ts) (hs : us.Sublist ts) : Spaced us :=
  ⟨fun t ht => h.text t (hs.subset ht), fun t ht => h.startsTag t (hs.subset ht),
    h.order.sublist hs⟩

theorem Spaced.rising {ts : List Token} (h : Spaced ts) : Rising ts := by
  refine h.order.imp_of_mem fun {t u} ht _ hle => ?_
  have := h.length_pos ht
  omega

/-- The tokens of the chunks of a page do not reach into each other. -/
theorem spaced_chunks (source : String) (file : Option String) :
    Spaced ((chunks (tokenize source file)).flatMap Chunk.tokens) := by
  have htiled := scanFrom_tiled file .markup .start source.toList
  rw [flatMap_tokens_tokenize]
  refine ⟨fun t ht => ?_, fun t ht => ?_, htiled.pairwise_le.sublist List.filter_sublist⟩
  · obtain ⟨hmem, hkind⟩ := List.mem_filter.1 ht
    exact (htiled.exists_slice t hmem (by simpa using hkind)).1
  · exact scanFrom_startsTag file .markup .start source.toList t (List.mem_filter.1 ht).1

/-- An offset inside a token of a chunk. -/
def Chunk.Covers (c : Chunk) (x : Int) : Prop :=
  ∃ t ∈ c.tokens, t.offset ≤ x ∧ x < t.offset + t.text.length

/-- **What is related in order in each chunk is so in all of them**, for a relation that rising
offsets are in. -/
theorem Spaced.pairwise_chunks {cs : List Chunk} (h : Spaced (cs.flatMap Chunk.tokens))
    {R : Int → Int → Prop} (hR : ∀ {x y}, x < y → R x y) {f : Chunk → List Int}
    (hcovers : ∀ c ∈ cs, ∀ x ∈ f c, c.Covers x) (hchunk : ∀ c ∈ cs, (f c).Pairwise R) :
    (cs.flatMap f).Pairwise R := by
  refine List.pairwise_flatMap.2 ⟨hchunk, ?_⟩
  refine (List.pairwise_flatMap.1 h.order).2.imp_of_mem fun {c d} hc hd hspaced x hx y hy => ?_
  obtain ⟨t, ht, -, hbehind⟩ := hcovers c hc x hx
  obtain ⟨u, hu, hfront, -⟩ := hcovers d hd y hy
  have hle := hspaced t ht u hu
  exact hR (by omega)

/-! ## Pieces in order -/

/-- The piece of markup that a move adds inside tags. -/
def Move.piece? : Move → Option Piece
  | .opens location tag => some (tagPiece location tag)
  | .closes _ => none
  | .text location content => some (.text location content)
  | .script location statements => some (.script location statements)

theorem piecesOf_sublist (config : Config) (names : List String) (ms : List Move) :
    (piecesOf config names ms).Sublist (ms.flatMap fun m => m.piece?.toList) := by
  induction ms generalizing names with
  | nil => exact List.nil_sublist _
  | cons m ms ih =>
    refine List.Sublist.append ?_ (ih _)
    cases m with
    | opens => exact List.Sublist.refl _
    | closes => exact List.Sublist.refl _
    | text => rw [Move.pieces]; split <;> simp [Move.piece?]
    | script => rw [Move.pieces]; split <;> simp [Move.piece?]

/-- The pieces of markup that a chunk adds inside tags. -/
def Chunk.pieces (config : Config) (c : Chunk) : List Piece :=
  (c.moves config).flatMap fun m => m.piece?.toList

/-- The place of a span is as far behind its token as the text in front of it is long. -/
theorem spanLocation_isAt {t : Token} {p : Cursor} (h : t.IsAt p) (span : Markup.Span) :
    (spanLocation t span).IsAt (p.advance (t.text.toList.take span.offset)) := by
  unfold spanLocation
  split
  · rename_i hzero
    rw [show span.offset = 0 by simpa using hzero]
    exact h.location
  · exact h.location.shifted _

theorem spanLocation_offset {t : Token} {span : Markup.Span}
    (h : span.offset < t.text.toList.length) :
    (spanLocation t span).offset = t.offset + span.offset := by
  unfold spanLocation
  split
  · rename_i hzero
    simp [show span.offset = 0 by simpa using hzero, Token.location]
  · simp only [Location.shifted, List.length_take, Nat.min_eq_left (Nat.le_of_lt h)]
    rfl

/-- What pieces of markup list is offsets: a tag or a text lists none but its own, and a script
those of tokens of its own, related in order. -/
structure ListsOffsets (config : Config) (R : Int → Int → Prop) (g : Piece → List Int) : Prop where
  tag : ∀ location name attributes selfClosing,
    (g (.tag location name attributes selfClosing)).Sublist [location.offset]
  text : ∀ location content, (g (.text location content)).Sublist [location.offset]
  script : ∀ opening inside, OffsetsAlong R (opening :: inside)
    (g (.script opening.location (harvestOf config inside).statements))

namespace ListsOffsets

variable {config : Config} {R : Int → Int → Prop} {g : Piece → List Int}

/-- The opening tags of a token list offsets of its spans. -/
theorem spans_sublist (h : ListsOffsets config R g) (t : Token) (spans : List Markup.Span) :
    (((spans.filterMap (spanMove? t)).flatMap fun m => m.piece?.toList).flatMap g).Sublist
      (spans.map fun s => (spanLocation t s).offset) := by
  induction spans with
  | nil => exact List.nil_sublist _
  | cons s spans ih =>
    rw [List.map_cons, List.filterMap_cons, spanMove?]
    split
    · rename_i hnone
      exact ih.cons _
    · rename_i m hm
      rw [List.flatMap_cons, List.flatMap_append]
      show List.Sublist _ ([(spanLocation t s).offset] ++ _)
      refine List.Sublist.append ?_ ih
      split at hm
      · obtain rfl := Option.some.inj hm
        exact List.nil_sublist _
      · obtain ⟨tag, -, rfl⟩ := Option.map_eq_some_iff.1 hm
        exact (List.flatMap_singleton ..).symm ▸ h.tag ..

/-- **What the pieces of a chunk list is offsets inside it, related in order.** -/
theorem chunk (h : ListsOffsets config R g) (hR : ∀ {x y}, x < y → R x y) {c : Chunk}
    (hc : Spaced c.tokens) :
    (∀ x ∈ (c.pieces config).flatMap g, c.Covers x) ∧ ((c.pieces config).flatMap g).Pairwise R := by
  have hcovers : ∀ t ∈ c.tokens, c.Covers t.offset := by
    intro t ht
    have := hc.length_pos ht
    exact ⟨t, ht, by omega, by omega⟩
  cases c with
  | script opening inside =>
    have hpieces : ((Chunk.script opening inside).pieces config).flatMap g =
        g (.script opening.location (harvestOf config inside).statements) :=
      List.flatMap_singleton ..
    rw [hpieces]
    refine ⟨fun x hx => ?_, (h.script opening inside).order hc.rising⟩
    obtain ⟨t, ht, rfl⟩ := (h.script opening inside).mem x hx
    exact hcovers t ht
  | markup t =>
    -- The offsets are those of spans of an opening tag, or that of a text.
    suffices hlist : ∃ xs : List Int,
        (((Chunk.markup t).pieces config).flatMap g).Sublist xs ∧
          (∀ x ∈ xs, (Chunk.markup t).Covers x) ∧ xs.Pairwise (· < ·) by
      obtain ⟨xs, hsublist, hmem, horder⟩ := hlist
      exact ⟨fun x hx => hmem x (hsublist.subset hx), (horder.sublist hsublist).imp hR⟩
    have ht : t ∈ (Chunk.markup t).tokens := List.mem_singleton_self t
    rw [Chunk.pieces, Chunk.moves]
    cases hkind : t.kind with
    | tagOpen =>
      have hinside : ∀ s ∈ Markup.spans t.text.toList, s.offset < t.text.toList.length := by
        intro s hs
        have hstart := Markup.spansFrom_starts (Or.inr ((hc.startsTag t ht).tagOpen hkind)) s hs
        exact (List.getElem?_eq_some_iff.1 hstart.2).1
      refine ⟨_, h.spans_sublist t _, ?_, List.pairwise_map.2 ?_⟩
      · intro x hx
        obtain ⟨s, hs, rfl⟩ := List.mem_map.1 hx
        have := hinside s hs
        rw [spanLocation_offset this]
        rw [String.length_toList] at this
        exact ⟨t, ht, by omega, by omega⟩
      · refine (Markup.spansFrom_rising 0 t.text.toList).2.imp_of_mem fun {s s'} hs hs' hlt => ?_
        rw [spanLocation_offset (hinside s hs), spanLocation_offset (hinside s' hs')]
        omega
    | text =>
      refine ⟨[t.offset], ?_, by simpa using hcovers t ht, List.pairwise_singleton _ _⟩
      simp only
      split
      · exact List.nil_sublist _
      · exact (List.flatMap_singleton ..).symm ▸ h.text ..
    | _ => exact ⟨[], List.nil_sublist _, by simp, List.Pairwise.nil⟩

/-- **The offsets that the pieces of a page list are related in order.** -/
theorem pieces_pairwise (h : ListsOffsets config R g) (hR : ∀ {x y}, x < y → R x y)
    (source : String) (file : Option String) :
    ((piecesOf config [] (movesOf config (tokenize source file))).flatMap g).Pairwise R := by
  have hspaced := spaced_chunks source file
  have hchunk : ∀ c ∈ chunks (tokenize source file), Spaced c.tokens :=
    fun c hc => hspaced.sublist (List.sublist_flatten_of_mem (List.mem_map_of_mem hc))
  have hpieces := piecesOf_sublist config [] (movesOf config (tokenize source file))
  rw [movesOf, List.flatMap_assoc] at hpieces
  refine List.Pairwise.sublist (hpieces.flatMap g) ?_
  rw [List.flatMap_assoc]
  exact hspaced.pairwise_chunks hR (fun c hc => (h.chunk hR (hchunk c hc)).1)
    fun c hc => (h.chunk hR (hchunk c hc)).2

end ListsOffsets

/-! ## Nodes in order -/

/-- The offset of a piece of markup. -/
def Piece.offset : Piece → Int
  | .tag location .. | .text location _ | .script location _ => location.offset

/-- The offsets of a piece of markup and of the code inside it, in preorder. -/
def Piece.offsets : Piece → List Int
  | .script location statements =>
    location.offset :: (statements.flatMap Node.preorder).map Node.offset
  | p => [p.offset]

theorem listsOffsets_offset (config : Config) :
    ListsOffsets config (· < ·) fun p => [p.offset] where
  tag := fun _ _ _ _ => List.Sublist.refl _
  text := fun _ _ => List.Sublist.refl _
  script := fun opening inside => (scriptNode_placed config opening inside).offset

theorem listsOffsets_offsets (config : Config) :
    ListsOffsets config (· ≤ ·) Piece.offsets where
  tag := fun _ _ _ _ => List.Sublist.refl _
  text := fun _ _ => List.Sublist.refl _
  script := by
    intro opening inside
    have hplaced := (scriptNode_placed config opening inside).offsets
    rwa [Node.preorder_eq, List.map_cons] at hplaced

theorem listsOffsets_statements (config : Config) :
    ListsOffsets config (· < ·) fun p => p.statements.map Node.offset where
  tag := fun _ _ _ _ => List.nil_sublist _
  text := fun _ _ => List.nil_sublist _
  script := by
    intro opening inside
    have halong := harvestOf_statements config inside
    rw [Piece.statements, List.map_flatMap]
    constructor
    · intro x hx
      obtain ⟨t, ht, hxt⟩ := halong.mem x hx
      exact ⟨t, List.mem_cons_of_mem _ ht, hxt⟩
    · intro hrising
      exact halong.order (List.pairwise_cons.1 hrising).2

namespace Page.Shows

variable {config : Config} {source : String} {file : Option String} {page : Page}
  (h : page.Shows file (progressOf config (tokenize source file)))

include h

/-- Offsets never go down from a node to the next. -/
theorem offsets_le :
    ((page.document.children.flatMap Node.preorder).map Node.offset).Pairwise (· ≤ ·) := by
  have hlist : (page.document.children.flatMap Node.preorder).map Node.offset =
      (piecesOf config [] (movesOf config (tokenize source file))).flatMap Piece.offsets := by
    rw [List.map_eq_flatMap]
    refine h.nodes_flatMap (fun _ _ => rfl) (fun _ _ => rfl) fun opening inside => ?_
    rw [← List.map_eq_flatMap, Node.preorder_eq, List.map_cons]
    rfl
  rw [hlist]
  exact (listsOffsets_offsets config).pieces_pairwise Int.le_of_lt source file

/-- Offsets go up from a piece of markup to the next. -/
theorem markup_offsets_lt : (page.document.markup.map Node.offset).Pairwise (· < ·) := by
  have hlist : page.document.markup.map Node.offset =
      (piecesOf config [] (movesOf config (tokenize source file))).map Piece.offset := by
    have hsome : Option.map Piece.offset ∘ some = some ∘ Piece.offset := rfl
    have hpieces := congrArg (List.map (Option.map Piece.offset)) h.pieces
    have hnodes : page.document.markup.map (Option.map Piece.offset ∘ Node.piece?) =
        (page.document.markup.map Node.offset).map some := by
      rw [List.map_map]
      refine List.map_congr_left fun n hn => ?_
      have hsome := (List.mem_filter.1 hn).2
      cases n <;> first | rfl | exact absurd hsome Bool.false_ne_true
    rw [List.map_map, List.map_map, hnodes, hsome, ← List.map_map] at hpieces
    exact List.map_injective_iff.2 (fun _ _ => Option.some.inj) hpieces
  rw [hlist, List.map_eq_flatMap]
  exact (listsOffsets_offset config).pieces_pairwise id source file

/-- Offsets go up from a statement to the next. -/
theorem statements_offsets_lt :
    (page.document.toNode.statements.map Node.offset).Pairwise (· < ·) := by
  rw [h.statements, List.map_flatMap]
  exact (listsOffsets_statements config).pieces_pairwise id source file

end Page.Shows

/-! ## Nodes in their source -/

/-- A node in its place: its sites, and those of what belongs to it, have the line and column of
their offsets, and a tag stands at a `<`. -/
structure Node.InPlace (source : List Char) (n : Node) : Prop where
  positioned : ∀ s ∈ n.sites, s.location.Positioned source
  tag : n.isTag = true → source[n.offset.toNat]? = some '<'

section Source

variable {source : String} {file : Option String}

theorem Token.positioned {t : Token} (ht : t ∈ tokenize source file) :
    t.location.Positioned source.toList := by
  obtain ⟨before, after, hsource, hat⟩ := exists_around source file t ht
  exact hat.location.positioned ⟨t.text.toList ++ after, hsource.symm⟩

/-- A token that starts with `<` stands at a `<`. -/
theorem Token.getElem?_offset {t : Token} (ht : t ∈ tokenize source file)
    (hhead : t.text.toList.head? = some '<') :
    source.toList[t.offset.toNat]? = some '<' := by
  obtain ⟨before, after, hsource, hat⟩ := exists_around source file t ht
  have hoffset : t.offset.toNat = before.length := by
    rw [hat.offset, Cursor.advance_offset]
    simp [Cursor.start]
  rw [hsource, hoffset, List.getElem?_append_right (Nat.le_refl _), Nat.sub_self,
    ← List.head?_eq_getElem?, List.head?_append, hhead]
  rfl

/-- **A span of opening tags stands at a `<`**, with the line and column of its offset. -/
theorem spanLocation_placed {t : Token} (ht : t ∈ tokenize source file) (hkind : t.kind = .tagOpen)
    {span : Markup.Span} (hspan : span ∈ Markup.spans t.text.toList) :
    (spanLocation t span).Positioned source.toList ∧
      source.toList[(spanLocation t span).offset.toNat]? = some '<' := by
  obtain ⟨before, after, hsource, hat⟩ := exists_around source file t ht
  have htext := (scanFrom_startsTag file .markup .start source.toList t ht).tagOpen hkind
  obtain ⟨-, hstart⟩ := Markup.spansFrom_starts (Or.inr htext) span hspan
  have hlt : span.offset < t.text.toList.length := (List.getElem?_eq_some_iff.1 hstart).1
  have hspanAt := spanLocation_isAt hat span
  rw [← Cursor.advance_append] at hspanAt
  have hfront : before ++ t.text.toList.take span.offset <+: source.toList := by
    rw [hsource, List.prefix_append_right_inj]
    exact (List.take_prefix _ _).trans (List.prefix_append _ _)
  refine ⟨hspanAt.positioned hfront, ?_⟩
  have hoffset : (spanLocation t span).offset.toNat = before.length + span.offset := by
    rw [spanLocation_offset hlt, hat.offset, Cursor.advance_offset]
    simp only [Cursor.start]
    omega
  rw [hsource, hoffset, List.getElem?_append_right (Nat.le_add_right _ _), Nat.add_sub_cancel_left,
    List.getElem?_append_left hlt]
  exact hstart

end Source

namespace Page.Shows

variable {config : Config} {source : String} {file : Option String} {page : Page}
  (h : page.Shows file (progressOf config (tokenize source file)))

include h

/-- **All nodes of a page are in their places.** -/
theorem inPlace : ∀ n ∈ page.document.nodes, n.InPlace source.toList := by
  have hmem : ∀ c ∈ chunks (tokenize source file), ∀ t ∈ c.tokens, t ∈ tokenize source file := by
    intro c hc t ht
    have hmem : t ∈ (chunks (tokenize source file)).flatMap Chunk.tokens :=
      List.mem_flatMap.2 ⟨c, hc, ht⟩
    rw [flatMap_tokens_tokenize] at hmem
    exact (List.mem_filter.1 hmem).1
  refine h.forall_nodes ?_ ?_ ?_
  · -- A document stands at the start.
    refine ⟨fun s hs => ?_, fun htag => absurd htag Bool.false_ne_true⟩
    obtain rfl : s = page.document.site := List.mem_singleton.1 hs
    rw [(Progress.document?_fields h.document).1]
    exact ⟨⟨Int.le_refl 0, Int.natCast_nonneg _⟩, by simp, by simp [lastNewline]⟩
  · refine h.induction (fun c hc n hn m hm => ?_) fun c hc o ho ns hns m hm => ?_
    · cases hn with
      | @text t kind =>
        rw [Node.preorder_eq] at hm
        obtain rfl := List.mem_singleton.1 hm
        refine ⟨fun s hs => ?_, fun htag => absurd htag Bool.false_ne_true⟩
        rw [List.mem_singleton.1 hs]
        exact Token.positioned (hmem _ hc t (List.mem_singleton_self t))
      | script opening inside =>
        refine ⟨fun s hs => ?_, fun htag => ?_⟩
        · obtain ⟨t, ht, rfl⟩ := (scriptNode_placed config opening inside).sites m hm s hs
          exact Token.positioned (hmem _ hc t ht)
        · rw [isTag_of_mem_scriptNode hm] at htag
          cases htag
    · cases ho with
      | @opening t span tag hkind hspan =>
        obtain ⟨hpositioned, hstart⟩ :=
          spanLocation_placed (hmem _ hc t (List.mem_singleton_self t)) hkind hspan
        rw [Node.preorder_eq] at hm
        rcases List.mem_cons.1 hm with rfl | hm
        · refine ⟨fun s hs => ?_, fun _ => hstart⟩
          -- The attributes of a tag stand where the tag does.
          rcases List.mem_cons.1 hs with rfl | hs
          · exact hpositioned
          · obtain ⟨a, ha, rfl⟩ := List.mem_map.1 hs
            obtain ⟨pair, -, rfl⟩ := List.mem_map.1 ha
            exact hpositioned
        · obtain ⟨n, hn, hpre⟩ := List.mem_flatMap.1 hm
          exact hns n hn m hpre
  · intro t ht hkind
    have htoken := hmem _ ht t (List.mem_singleton_self t)
    refine ⟨fun s hs => ?_, fun _ => Token.getElem?_offset htoken ?_⟩
    · rw [List.mem_singleton.1 hs]
      exact Token.positioned htoken
    · exact (scanFrom_startsTag file .markup .start source.toList t htoken).doctype hkind

end Page.Shows

/-- **The nodes of a page are in place and in order**: all sites have the line and column of their
offsets, and tags stand at a `<`. On a walk, offsets never go down, and they go up among tags, texts
and scripts and among statements. -/
theorem nodes_in_place {config : Config} (hlimit : 1 ≤ config.maxExpressionTokens)
    (source : String) (file : Option String) : ∃ page, readPage? config source file = some page ∧
      (∀ n ∈ page.document.nodes, n.InPlace source.toList) ∧
      (page.document.toNode.walk.map Node.offset).Pairwise (· ≤ ·) ∧
      ((page.document.toNode.walk.filter fun n => n.piece?.isSome).map Node.offset).Pairwise
        (· < ·) ∧
      page.document.toNode.statements.Sublist page.document.toNode.walk ∧
      (page.document.toNode.statements.map Node.offset).Pairwise (· < ·) := by
  obtain ⟨page, hpage, hshows⟩ := readPage?_shows hlimit source file
  have hinPlace := hshows.inPlace
  refine ⟨page, hpage, hinPlace, ?_⟩
  rw [Node.walk_eq_preorder hshows.distinct, Node.preorder_eq]
  refine ⟨?_, hshows.markup_offsets_lt, (Node.statements_sublist _).cons _,
    hshows.statements_offsets_lt⟩
  rw [List.map_cons, List.pairwise_cons]
  refine ⟨fun x hx => ?_, hshows.offsets_le⟩
  -- The document stands at offset 0, and no node in front of that.
  obtain ⟨n, hn, rfl⟩ := List.mem_map.1 hx
  have hnode : n ∈ page.document.nodes := by
    refine List.mem_append_left _ ?_
    rw [Node.preorder_eq]
    exact List.mem_cons_of_mem _ hn
  have hzero : page.document.toNode.offset = 0 := by
    show page.document.site.location.offset = 0
    rw [(Progress.document?_fields hshows.document).1]
  rw [hzero]
  exact ((hinPlace n hnode).positioned n.site n.site_mem_sites).inside.1

/-- A page with two tags in one token, on two lines, a function and a chain of assignments. -/
def placedPage : String :=
  "<!DOCTYPE html>\n<body <p\nid=a>b<script>function f(x) \x7b a = b = g(x); \x7d</script></body>"

theorem placedPage_in_place : 1 ≤ ({} : Config).maxExpressionTokens ∧
    ∃ page, readPage? {} placedPage none = some page ∧
      (∀ n ∈ page.document.nodes, n.InPlace placedPage.toList) ∧
      (page.document.toNode.walk.map Node.offset).Pairwise (· ≤ ·) ∧
      ((page.document.toNode.walk.filter fun n => n.piece?.isSome).map Node.offset).Pairwise
        (· < ·) ∧
      page.document.toNode.statements.Sublist page.document.toNode.walk ∧
      (page.document.toNode.statements.map Node.offset).Pairwise (· < ·) :=
  ⟨by decide, nodes_in_place (by decide) placedPage none⟩

end PageLint
