import PageLint.Proofs.Markup.Conservation
import PageLint.Proofs.Regions.Emptied
import PageLint.Proofs.Regions.Loop
import PageLint.Proofs.RoundTrip.Reading

/-!
# Scripts are isolated

What is read inside a script depends on the tokens of the script only, and what is read outside
does not depend on them at all.

* `Token.OpensTag` — a token that opens a tag on an empty page; there is one for every
  configuration
* `readTokens?_alone` — the page of a tag and one script
* `ScriptsIsolated` — what isolation means for the page of a source
* `scripts_isolated` — all pages have it
-/

namespace PageLint

/-! ## Scripts among pieces -/

/-- Whether a piece of markup is a script. -/
def Piece.isScript : Piece → Bool
  | .script .. => true
  | _ => false

/-- Whether a node is a script. -/
def Node.isScript (n : Node) : Bool := n.kind == .script

/-- Whether a move is that of a script. -/
def Move.isScript : Move → Bool
  | .script .. => true
  | _ => false

/-- The scripts of a document. -/
def Document.scripts (d : Document) : List Node := d.markup.filter Node.isScript

theorem Node.isScript_eq (n : Node) : n.isScript = n.piece?.any Piece.isScript := by
  cases n <;> rfl

/-- The scripts of a document are the scripts among its pieces. -/
theorem Document.scripts_pieces {d : Document} {ps : List Piece}
    (h : d.markup.map Node.piece? = ps.map some) :
    d.scripts.map Node.piece? = (ps.filter Piece.isScript).map some := by
  have hnodes : Node.isScript = (Option.any Piece.isScript) ∘ Node.piece? :=
    funext Node.isScript_eq
  have hpieces : Piece.isScript = (Option.any Piece.isScript) ∘ some := rfl
  rw [Document.scripts, hnodes, ← List.filter_map, h, List.filter_map, ← hpieces]

theorem mem_moves_of_mem_piecesOf {config : Config} {names : List String} {ms : List Move}
    {location : Location} {statements : List Node}
    (h : Piece.script location statements ∈ piecesOf config names ms) :
    Move.script location statements ∈ ms := by
  induction ms generalizing names with
  | nil => simp [piecesOf] at h
  | cons m ms ih =>
    rw [piecesOf] at h
    rcases List.mem_append.1 h with h | h
    · cases m with
      | opens => simp [Move.pieces, tagPiece] at h
      | closes => simp [Move.pieces] at h
      | text => simp [Move.pieces] at h
      | script l ss =>
        simp only [Move.pieces] at h
        split at h
        · simp at h
        · obtain ⟨rfl, rfl⟩ := Piece.script.inj (List.mem_singleton.1 h)
          exact List.mem_cons_self
    · exact List.mem_cons_of_mem _ (ih h)

/-- Moves without scripts add no scripts. -/
theorem filter_piecesOf (config : Config) (names : List String) {ms : List Move}
    (h : ∀ m ∈ ms, m.isScript = false) : (piecesOf config names ms).filter Piece.isScript = [] := by
  refine List.filter_eq_nil_iff.2 fun piece hmem => ?_
  cases piece with
  | tag => simp [Piece.isScript]
  | text => simp [Piece.isScript]
  | script location statements =>
    have := h _ (mem_moves_of_mem_piecesOf hmem)
    simp [Move.isScript] at this

theorem Chunk.moves_markup (config : Config) (t : Token) :
    ∀ m ∈ (Chunk.markup t).moves config, m.isScript = false := by
  intro m hm
  rw [Chunk.moves] at hm
  split at hm
  · obtain ⟨span, -, hspan⟩ := List.mem_filterMap.1 hm
    rw [spanMove?] at hspan
    split at hspan
    · rw [← Option.some.inj hspan]
      rfl
    · obtain ⟨tag, -, rfl⟩ := Option.map_eq_some_iff.1 hspan
      rfl
  · rw [List.mem_singleton.1 hm]
    rfl
  · split at hm
    · simp at hm
    · rw [List.mem_singleton.1 hm]
      rfl
  · simp at hm

/-- Tokens that open no script do nothing like a script. -/
theorem movesOf_without_openings (config : Config) {ts : List Token}
    (h : ∀ t ∈ ts, t.kind ≠ .scriptOpen) : ∀ m ∈ movesOf config ts, m.isScript = false := by
  intro m hm
  obtain ⟨c, hc, hmove⟩ := List.mem_flatMap.1 hm
  cases c with
  | markup t => exact Chunk.moves_markup config t m hmove
  | script opening inside =>
    obtain ⟨before, after, rfl, hopening, -⟩ :=
      exists_of_mem_chunks (Or.inl (rfl : Mode.markup = .markup)) hc
    exact absurd hopening (h opening (by simp))

/-! ## A tag and one script -/

/-- A token of opening tags behind which a tag is open, on a page where none was. -/
structure Token.OpensTag (config : Config) (t : Token) : Prop where
  kind : t.kind = .tagOpen
  opens : (({} : Progress).readMarkup config t).forest.openTags.isEmpty = false

/-- A written opening tag opens a tag, unless its element never has contents. -/
theorem IsTagName.opensTag {name : String} (h : IsTagName name) {config : Config}
    (hvoid : name ∉ config.voidElements) {attributes : List (String × String)}
    (ha : ∀ a ∈ attributes, IsAttribute a) {t : Token} (hk : t.kind = .tagOpen)
    (ht : t.text = String.ofList (openingText name attributes false)) : t.OpensTag config := by
  refine ⟨hk, ?_⟩
  rw [readMarkup_opening h ha false config {} hk ht]
  simp [Progress.openTag, writtenOpening, hvoid, Forest.openFrame, OpenTags.push, OpenTags.isEmpty]

/-- A name of small letters is its own lower case. -/
theorem lowerAfter_replicate (before : List Char) (n : Nat) :
    Text.lowerAfter before (List.replicate n 'x') = List.replicate n 'x' := by
  have hchar : ∀ before after, Text.lowerChar before 'x' after = ['x'] := by
    intro before after
    have hcode : Char.ofNat (Text.shiftedCode Text.caseShifts 'x'.toNat) = 'x' := by
      decide +kernel
    rw [Text.lowerChar, if_neg (by decide), if_neg (by decide), hcode]
  induction n generalizing before with
  | zero => rfl
  | succ n ih => rw [List.replicate_succ, Text.lowerAfter, hchar, ih, List.singleton_append]

/-- **Every configuration has tags that can be open**: names that are longer than those of all void
elements. -/
theorem exists_opensTag (config : Config) : ∃ t : Token, t.OpensTag config := by
  let letters := List.replicate ((config.voidElements.map String.toList).flatten.length + 1) 'x'
  let name := String.ofList letters
  have hletters : name.toList = letters := String.toList_ofList
  have hplain : ∀ c ∈ name.toList, c = 'x' := by
    rw [hletters]
    exact fun c hc => List.eq_of_mem_replicate hc
  have hname : IsTagName name :=
    { ne_empty := by
        intro h
        have := congrArg String.toList h
        simp [hletters, letters] at this
      lowered_eq := by
        rw [lowered, hletters, Text.lower, lowerAfter_replicate]
      plain := by
        intro c hc
        rw [hplain c hc]
        decide
      not_bang := by
        rw [hletters]
        simp [letters, List.replicate_succ]
      not_script := by
        intro h
        have := hplain 's' (by rw [h]; decide)
        exact absurd this (by decide) }
  have hvoid : name ∉ config.voidElements := by
    intro h
    have hmem : letters ∈ config.voidElements.map String.toList :=
      List.mem_map.2 ⟨name, h, hletters⟩
    have hle := (List.sublist_flatten_of_mem hmem).length_le
    rw [List.length_replicate] at hle
    omega
  exact ⟨.bare .tagOpen (String.ofList (openingText name [] false)),
    hname.opensTag hvoid (by simp) rfl rfl⟩

section Alone

variable {config : Config} {tag opening : Token} (htag : tag.OpensTag config)
  (hopening : opening.kind = .scriptOpen) {inside tail : List Token} (hinside : Inside inside)
  (htail : Ended tail) (hlast : ∀ t ∈ tail, t.kind ≠ .scriptOpen)

include htag hopening hinside htail hlast

/-- The only script among the pieces of a tag and one script. -/
theorem filter_piecesOf_alone :
    (piecesOf config [] (movesOf config (tag :: opening :: (inside ++ tail)))).filter
        Piece.isScript
      = [.script opening.location (harvestOf config inside).statements] := by
  obtain ⟨hin, hend⟩ := insideOf_append hinside htail
  have hmoves : movesOf config (tag :: opening :: (inside ++ tail)) =
      (Chunk.markup tag).moves config ++
        .script opening.location (harvestOf config inside).statements :: movesOf config tail := by
    rw [movesOf, chunks_markup (by simp [htag.kind]) (by simp [htag.kind]), chunks_script hopening,
      hin, hend, List.flatMap_cons, List.flatMap_cons]
    rfl
  -- Behind the tag some tag is open, so the script counts.
  have hnames : (((Chunk.markup tag).moves config).foldl (Move.namesAfter config) []).isEmpty =
      false := by
    have hfollows := Progress.add_follows config {} (.markup tag)
    have hopen := htag.opens
    rw [← Forest.isEmpty_openNames] at hopen
    exact hfollows.openNames ▸ hopen
  rw [hmoves, piecesOf_append, piecesOf, Move.pieces, hnames, List.filter_append,
    filter_piecesOf config _ (Chunk.moves_markup config tag), List.filter_append,
    filter_piecesOf config _ (movesOf_without_openings config hlast)]
  rfl

/-- **A tag and one script give a page with that script**, made of the tokens of the script
alone. -/
theorem readTokens?_alone (hlimit : 1 ≤ config.maxExpressionTokens) (file : Option String) :
    ∃ alone, readTokens? config (tag :: opening :: (inside ++ tail)) file = some alone ∧
      alone.document.scripts.map Node.piece? =
        [some (.script opening.location (harvestOf config inside).statements)] := by
  obtain ⟨alone, halone, hshows⟩ :=
    readTokens?_shows hlimit (tag :: opening :: (inside ++ tail)) file
  refine ⟨alone, halone, ?_⟩
  rw [Document.scripts_pieces hshows.pieces,
    filter_piecesOf_alone htag hopening hinside htail hlast]
  rfl

end Alone

/-! ## Isolation -/

/-- The scripts of a page are isolated from each other and from its markup. -/
structure ScriptsIsolated (config : Config) (source : String) (file : Option String) : Prop where
  /-- A turn of the loop over the page takes the closing tag of a script alone, where it ends the
  script that is being read, and no other turn takes one. -/
  closing : ∀ {events q t us q' us'},
    Progress.Reaches config { events } (tokenize source file) q (t :: us) → t.kind ≠ .eof →
    q.turn? config t us = some (q', us') →
    ∃ taken, us = taken ++ us' ∧ (∀ u ∈ taken, u.kind ≠ .scriptClose) ∧
      (t.kind = .scriptClose → taken = [] ∧
        ∃ region, q.region = some region ∧ q' = q.closeScript region)
  /-- The loop is inside a script exactly when the next token is. -/
  inside : ∀ {events q us}, Progress.Reaches config { events } (tokenize source file) q us →
    ∃ before, tokenize source file = before ++ us ∧ (q.region.isSome = true ↔ InScript before)
  /-- A script is the same when its tokens stand alone inside a fresh tag. -/
  alone : ∀ {page}, readPage? config source file = some page → ∀ n ∈ page.document.scripts,
    ∃ before opening inside after,
      tokenize source file = before ++ opening :: (inside ++ after) ∧
      opening.kind = .scriptOpen ∧ ¬InScript before ∧ Inside inside ∧ Ended after ∧
      ∀ tag : Token, tag.OpensTag config → ∀ tail, Ended tail →
        (∀ t ∈ tail, t.kind ≠ .scriptOpen) → ∃ single,
          readTokens? config (tag :: opening :: (inside ++ tail)) file = some single ∧
          single.document.scripts.map Node.piece? = [n.piece?]
  /-- Without the tokens inside scripts, the page has the same tags and texts. -/
  emptied : ∃ page page', readPage? config source file = some page ∧
    readTokens? config (withoutScripts (tokenize source file)) file = some page' ∧
    page'.document = page.document.emptied ∧ page'.elementIds = page.elementIds ∧
    page'.openTags = page.openTags

section Isolation

variable {config : Config} (hlimit : 1 ≤ config.maxExpressionTokens) {source : String}
  {file : Option String}

include hlimit

theorem closing_taken {events : List Event} {q q' : Progress} {t : Token} {us us' : List Token}
    (h : Progress.Reaches config { events } (tokenize source file) q (t :: us))
    (ht : t.kind ≠ .eof) (hturn : q.turn? config t us = some (q', us')) :
    ∃ taken, us = taken ++ us' ∧ (∀ u ∈ taken, u.kind ≠ .scriptClose) ∧
      (t.kind = .scriptClose → taken = [] ∧
        ∃ region, q.region = some region ∧ q' = q.closeScript region) := by
  obtain ⟨taken, htaken, hinside, hcases⟩ := Progress.turn?_taken hlimit ht hturn
  refine ⟨taken, htaken, ?_, ?_⟩
  · intro u hu hk
    have := hinside u hu
    simp [Token.endsScript, hk] at this
  · intro hclose
    refine ⟨?_, ?_⟩
    · rcases hcases with rfl | ⟨-, -, hne⟩
      · rfl
      · exact absurd hclose hne
    -- Outside scripts no closing tag of a script is scanned.
    obtain ⟨before, htokens, hregion⟩ := h.inScript hlimit rfl
    have hscans := tokenize_inModes source file before t us htokens
    have hmode : modeAfter .markup before = .script := by
      cases hmode : modeAfter .markup before with
      | script => rfl
      | markup => simp [hmode, hclose, Mode.scans] at hscans
    obtain ⟨region, hsome⟩ :=
      Option.isSome_iff_exists.1 (hregion.2 ((modeAfter_eq_script_iff before).1 hmode))
    refine ⟨region, hsome, ?_⟩
    rw [Progress.turn?, hsome] at hturn
    simp only [hclose, beq_self_eq_true, if_true, Option.some.injEq, Prod.mk.injEq] at hturn
    exact hturn.1.symm

theorem script_alone {page : Page} (hpage : readPage? config source file = some page) {n : Node}
    (hn : n ∈ page.document.scripts) : ∃ before opening inside after,
      tokenize source file = before ++ opening :: (inside ++ after) ∧
      opening.kind = .scriptOpen ∧ ¬InScript before ∧ Inside inside ∧ Ended after ∧
      n.piece? = some (.script opening.location (harvestOf config inside).statements) := by
  obtain ⟨page', hpage', hshows⟩ := readPage?_shows hlimit source file
  obtain rfl : page = page' := Option.some.inj (hpage.symm.trans hpage')
  have hmem : n.piece? ∈ page.document.scripts.map Node.piece? := List.mem_map_of_mem hn
  rw [Document.scripts_pieces hshows.pieces] at hmem
  obtain ⟨piece, hpiece, heq⟩ := List.mem_map.1 hmem
  obtain ⟨hpiece, hscript⟩ := List.mem_filter.1 hpiece
  obtain ⟨location, statements, rfl⟩ :
      ∃ location statements, piece = .script location statements := by
    cases piece with
    | tag => simp [Piece.isScript] at hscript
    | text => simp [Piece.isScript] at hscript
    | script location statements => exact ⟨location, statements, rfl⟩
  obtain ⟨c, hc, hmove⟩ := List.mem_flatMap.1 (mem_moves_of_mem_piecesOf hpiece)
  cases c with
  | markup t =>
    have := Chunk.moves_markup config t _ hmove
    simp [Move.isScript] at this
  | script opening inside =>
    obtain ⟨rfl, rfl⟩ := Move.script.inj (List.mem_singleton.1 hmove)
    obtain ⟨before, after, htokens, hopening, hinside, hafter, hmode⟩ :=
      exists_of_mem_chunks (Or.inl (rfl : Mode.markup = .markup)) hc
    refine ⟨before, opening, inside, after, htokens, hopening, ?_, hinside, hafter, heq.symm⟩
    intro hin
    rw [(modeAfter_eq_script_iff before).2 hin] at hmode
    exact absurd hmode (by decide)

/-- **Scripts are isolated.** -/
theorem scripts_isolated (source : String) (file : Option String) :
    ScriptsIsolated config source file ∧ ∃ tag : Token, tag.OpensTag config := by
  refine ⟨⟨closing_taken hlimit, fun h => h.inScript hlimit rfl, ?_, ?_⟩, exists_opensTag config⟩
  · intro page hpage n hn
    obtain ⟨before, opening, inside, after, htokens, hopening, hout, hinside, hafter, hpiece⟩ :=
      script_alone hlimit hpage hn
    refine ⟨before, opening, inside, after, htokens, hopening, hout, hinside, hafter, ?_⟩
    intro tag htag tail htail hlast
    rw [hpiece]
    exact readTokens?_alone htag hopening hinside htail hlast hlimit file
  · obtain ⟨page, hpage, hshows⟩ := readPage?_shows hlimit source file
    obtain ⟨page', hpage', hshows'⟩ :=
      readTokens?_shows hlimit (withoutScripts (tokenize source file)) file
    exact ⟨page, page', hpage, hpage', hshows.withoutScripts hshows'⟩

end Isolation

/-- A page with a call that its script does not close, in front of a paragraph. -/
theorem openCall_isolated : 1 ≤ ({} : Config).maxExpressionTokens ∧
    ScriptsIsolated {} "<body><script>f(</script><p>a</p><script>let x</script></body>" none ∧
    ∃ tag : Token, tag.OpensTag {} :=
  ⟨by decide, scripts_isolated (by decide) _ none⟩

end PageLint
