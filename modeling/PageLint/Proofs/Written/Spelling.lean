import PageLint.Proofs.Regions.Isolation
import PageLint.Proofs.Registries

/-!
# Written scripts

A text spells tokens when they stand in it one after the other, with any skipped characters between
them, and with some where one token would go on in the next. Such a text between the tags of a
script, inside any tag, is scanned as these tokens, and the page is made of what they give.

* `IsLexeme` — the words, numbers, strings, operators and marks that a text can spell
* `Spells` — the tokens that a text spells
* `scriptPage` — a tag around a script
* `exists_page` — the page of such a source
-/

namespace PageLint

/-! ## Texts that spell tokens -/

/-- The kind and text of a token that a script can hold. -/
inductive IsLexeme : TokenKind × String → Prop
  | word {first : Char} {others : List Char} (hstart : Text.isWordStart first = true)
      (hparts : others.all Text.isWordPart = true) :
      IsLexeme (wordKind (String.ofList (first :: others)), String.ofList (first :: others))
  | number (n : NumberText) : IsLexeme (.number, String.ofList n.text)
  | string (s : StringText) : IsLexeme (.string, String.ofList s.text)
  | operator {op : List Char} (hop : op ∈ operators) : IsLexeme (.operator, String.ofList op)
  | mark {c : Char} (hc : c ∈ marks) : IsLexeme (markKind c, String.ofList [c])

/-- Whether a text may stand right behind a token of a kind. -/
def mayFollow (kind : TokenKind) (rest : List Char) : Bool :=
  match kind with
  | .identifier | .keyword | .boolean | .null => endsWord rest
  | .number => endsNumber rest
  | .operator => endsOperator rest
  | _ => true

/-- A text spells tokens of given kinds and texts, in front of a tag. -/
inductive Spells : List (TokenKind × String) → List Char → Prop
  | nil {gap : List Char} (hgap : gap.all isSkipped = true) : Spells [] gap
  | cons {gap rest : List Char} {shape : TokenKind × String} {shapes : List (TokenKind × String)}
      (hgap : gap.all isSkipped = true) (hshape : IsLexeme shape)
      (hfollow : mayFollow shape.1 (rest ++ ['<']) = true) (hrest : Spells shapes rest) :
      Spells (shape :: shapes) (gap ++ (shape.2.toList ++ rest))

theorem mayFollow_congr {kind : TokenKind} {rest rest' : List Char} (h : rest.head? = rest'.head?) :
    mayFollow kind rest = mayFollow kind rest' := by
  cases kind <;> simp only [mayFollow, endsWord, endsNumber, endsOperator, h]

/-- **A token that nothing goes on is scanned as it is.** -/
theorem IsLexeme.scans {shape : TokenKind × String} (h : IsLexeme shape) (file : Option String)
    {rest : List Char} (hrest : mayFollow shape.1 rest = true) :
    Scans file .script (shape.2.toList ++ rest) [shape] .script rest := by
  cases h with
  | @word first others hstart hparts =>
    have hends : endsWord rest = true := by
      rcases wordKind_cases (String.ofList (first :: others)) with hk | hk | hk | hk <;>
        rw [hk] at hrest <;> exact hrest
    rw [String.toList_ofList]
    exact Scans.word file hstart hparts hends
  | number n =>
    rw [String.toList_ofList]
    exact Scans.number file n hrest
  | string s =>
    rw [String.toList_ofList]
    exact Scans.string file s rest
  | operator hop =>
    rw [String.toList_ofList]
    exact Scans.operator file hop hrest
  | mark hc =>
    rw [String.toList_ofList]
    exact Scans.mark file hc rest

/-- **A text that spells tokens is scanned as these tokens.** -/
theorem Spells.scans {shapes : List (TokenKind × String)} {text : List Char}
    (h : Spells shapes text) (file : Option String) {tail : List Char}
    (htail : tail.head? = some '<') :
    Scans file .script (text ++ tail) shapes .script tail := by
  induction h with
  | nil hgap => exact Scans.gap file .script hgap tail
  | @cons gap rest shape shapes hgap hshape hfollow hrest ih =>
    have hhead : (rest ++ ['<']).head? = (rest ++ tail).head? := by
      cases rest with
      | nil => exact htail.symm
      | cons c rest => rfl
    rw [mayFollow_congr hhead] at hfollow
    have hall := (Scans.gap file .script hgap _).trans ((hshape.scans file hfollow).trans ih)
    simpa using hall

/-! ## Texts laid out token by token -/

/-- Whether a kind and text are a word, a number of digits only, an operator or a mark. -/
def isPlainLexeme (shape : TokenKind × String) : Bool :=
  match shape.2.toList with
  | [] => false
  | c :: cs =>
    Text.isWordStart c && cs.all Text.isWordPart && shape.1 == wordKind shape.2 ||
      Text.isDigit c && cs.all Text.isDigit && shape.1 == .number ||
      operators.contains (c :: cs) && shape.1 == .operator ||
      marks.contains c && cs.isEmpty && shape.1 == markKind c

theorem isLexeme_of_isPlainLexeme {shape : TokenKind × String} (h : isPlainLexeme shape = true) :
    IsLexeme shape := by
  obtain ⟨kind, text⟩ := shape
  unfold isPlainLexeme at h
  split at h
  · exact absurd h Bool.false_ne_true
  rename_i c cs htext
  obtain rfl : text = String.ofList (c :: cs) := by rw [← htext, String.ofList_toList]
  simp only [Bool.or_eq_true, Bool.and_eq_true, beq_iff_eq, List.contains_iff_mem,
    List.isEmpty_iff] at h
  rcases h with ((⟨⟨hstart, hparts⟩, rfl⟩ | ⟨⟨hdigit, hdigits⟩, rfl⟩) | ⟨hop, rfl⟩) |
    ⟨⟨hmark, rfl⟩, rfl⟩
  · exact .word hstart hparts
  · have hnumber := IsLexeme.number ⟨c, cs, none, none, hdigit, hdigits, by simp⟩
    simpa [NumberText.text, NumberText.tail, NumberText.fractionText, NumberText.exponentText]
      using hnumber
  · exact .operator hop
  · exact .mark hmark

/-- The text of tokens, each with a gap in front of it. -/
def layout : List (List Char × TokenKind × String) → List Char
  | [] => []
  | (gap, shape) :: more => gap ++ (shape.2.toList ++ layout more)

/-- Whether gaps keep plain tokens apart. -/
def isLaidOut : List (List Char × TokenKind × String) → Bool
  | [] => true
  | (gap, shape) :: more =>
    gap.all isSkipped && isPlainLexeme shape && mayFollow shape.1 (layout more ++ ['<']) &&
      isLaidOut more

theorem spells_layout {tokens : List (List Char × TokenKind × String)}
    (h : isLaidOut tokens = true) : Spells (tokens.map Prod.snd) (layout tokens) := by
  induction tokens with
  | nil => exact .nil rfl
  | cons token more ih =>
    simp only [isLaidOut, Bool.and_eq_true] at h
    obtain ⟨⟨⟨hgap, hshape⟩, hfollow⟩, hmore⟩ := h
    exact .cons hgap (isLexeme_of_isPlainLexeme hshape) hfollow (ih hmore)

/-! ## Statement by statement -/

/-- What a script gives is what its first statement gives, and then the rest of it. -/
theorem harvestOf_statement {config : Config} (hlimit : 1 ≤ config.maxExpressionTokens) {t : Token}
    {ts : List Token} (hinside : Inside (t :: ts)) {found : Harvest}
    (h : readStatement? config t ts = some found) :
    harvestOf config (t :: ts) = found.append (harvestOf config found.rest) := by
  have ht : t.endsScript = false := hinside t List.mem_cons_self
  rw [Token.endsScript, Bool.or_eq_false_iff] at ht
  have hrest : Inside found.rest :=
    hinside.tail.of_suffix (readStatement?_suffix_tail hlimit h)
  obtain ⟨more, -, hmore, -⟩ := scriptFrom?_before hlimit ended_nil hrest
  have hall := scriptFrom?_statement hlimit (by simpa using ht.1) (by simpa using ht.2) h hmore
  rw [harvestOf, harvestOf, hall, hmore]
  rfl

/-! ## A tag around a script -/

/-- The source of a tag around a script. -/
def scriptPage (name : String) (attributes : List (String × String)) (script : List Char) :
    String :=
  String.ofList (openingText name attributes false ++ ("<script>".toList ++
    (script ++ ("</script>".toList ++ closingText name.toList))))

/-- A tag that can be written and whose element may have contents. -/
structure IsContainer (config : Config) (name : String) (attributes : List (String × String)) :
    Prop where
  isTagName : IsTagName name
  isAttribute : ∀ a ∈ attributes, IsAttribute a
  not_void : name ∉ config.voidElements

theorem IsLexeme.kind {shape : TokenKind × String} (h : IsLexeme shape) :
    shape.1 ≠ .eof ∧ shape.1 ≠ .scriptClose ∧ shape.1 ≠ .scriptOpen := by
  cases h with
  | @word first others hstart hparts =>
    rcases wordKind_cases (String.ofList (first :: others)) with hk | hk | hk | hk <;>
      simp only [hk] <;> decide
  | number n => simp
  | string s => simp
  | operator hop => simp
  | mark hc =>
    have hmarks : (marks.all fun d =>
        markKind d != .eof && markKind d != .scriptClose && markKind d != .scriptOpen) = true := by
      decide
    have hkind := List.all_eq_true.1 hmarks _ hc
    simp only [Bool.and_eq_true, bne_iff_ne] at hkind
    exact ⟨hkind.1.1, hkind.1.2, hkind.2⟩

theorem Spells.isLexeme {shapes : List (TokenKind × String)} {text : List Char}
    (h : Spells shapes text) : ∀ shape ∈ shapes, IsLexeme shape := by
  induction h with
  | nil hgap => simp
  | cons hgap hshape hfollow hrest ih => exact List.forall_mem_cons.2 ⟨hshape, ih⟩

/-- The tokens of a tag around a script: those inside the script have given kinds and texts. -/
structure IsScriptPage (config : Config) (shapes : List (TokenKind × String))
    (tag opening : Token) (inside tail : List Token) : Prop where
  opensTag : tag.OpensTag config
  isOpening : opening.kind = .scriptOpen
  shapes_eq : inside.map Token.shape = shapes
  isInside : Inside inside
  kinds : tail.map Token.kind = [.scriptClose, .tagClose, .eof]

/-- **The tokens of a tag around a script are those of the script**, between those of the tags. -/
theorem exists_tokens {config : Config} {name : String} {attributes : List (String × String)}
    (h : IsContainer config name attributes) {script : List Char}
    {shapes : List (TokenKind × String)} (hscript : Spells shapes script) (file : Option String) :
    ∃ tag opening inside tail,
      tokenize (scriptPage name attributes script) file = tag :: opening :: (inside ++ tail) ∧
      IsScriptPage config shapes tag opening inside tail := by
  have hscans := (h.isTagName.scans_opening h.isAttribute false file _).trans <|
    (Scans.scriptOpening file _).trans <|
    (hscript.scans file rfl).trans <|
    (Scans.scriptClosing file _).trans (h.isTagName.scans_closing file [])
  obtain ⟨tokens, place, htokens, hshapes⟩ := hscans .start
  have htext : (scriptPage name attributes script).toList
      = openingText name attributes false ++ ("<script>".toList ++ (script ++
        ("</script>".toList ++ (closingText name.toList ++ [])))) := by
    rw [scriptPage, String.toList_ofList, List.append_nil]
  -- The tokens are told apart by their kinds and texts.
  obtain ⟨tag, others, rfl, htag, hothers⟩ := List.map_eq_cons_iff.1 hshapes
  obtain ⟨opening, scripts, rfl, hopening, hscripts⟩ := List.map_eq_cons_iff.1 hothers
  replace hscripts : scripts.map Token.shape = shapes ++
      [(.scriptClose, "</script>"), (.tagClose, String.ofList (closingText name.toList))] :=
    hscripts
  obtain ⟨inside, closings, rfl, hinside, hclosings⟩ := List.map_eq_append_iff.1 hscripts
  obtain ⟨hkind, htagText⟩ := Prod.mk.inj htag
  refine ⟨tag, opening, inside, closings ++ (scanFrom file .markup place []).tokens, ?_, ?_⟩
  · rw [tokenize, scan, htext, htokens]
    simp
  · constructor
    case opensTag => exact h.isTagName.opensTag h.not_void h.isAttribute hkind htagText
    case isOpening => exact (Prod.mk.inj hopening).1
    case shapes_eq => exact hinside
    case isInside =>
      intro t ht
      have hlexeme := hscript.isLexeme t.shape (hinside ▸ List.mem_map_of_mem ht)
      obtain ⟨heof, hclose, -⟩ := hlexeme.kind
      rw [Token.endsScript, Bool.or_eq_false_iff]
      exact ⟨beq_eq_false_iff_ne.2 heof, beq_eq_false_iff_ne.2 hclose⟩
    case kinds =>
      have hkinds := congrArg (List.map Prod.fst) hclosings
      rw [List.map_map] at hkinds
      rw [List.map_append, scanFrom_nil rfl]
      exact congrArg (· ++ [TokenKind.eof]) hkinds

namespace IsScriptPage

variable {config : Config} {shapes : List (TokenKind × String)} {tag opening : Token}
  {inside tail : List Token} (h : IsScriptPage config shapes tag opening inside tail)

include h

theorem exists_tail : ∃ close last eof, tail = [close, last, eof] ∧ close.kind = .scriptClose ∧
    last.kind = .tagClose ∧ eof.kind = .eof := by
  obtain ⟨close, tail, rfl, hclose, htail⟩ := List.map_eq_cons_iff.1 h.kinds
  obtain ⟨last, tail, rfl, hlast, htail⟩ := List.map_eq_cons_iff.1 htail
  obtain ⟨eof, rfl, heof⟩ := List.map_eq_singleton_iff.1 htail
  exact ⟨close, last, eof, rfl, hclose, hlast, heof⟩

theorem ended : Ended tail := by
  obtain ⟨close, last, eof, rfl, hclose, -⟩ := h.exists_tail
  exact ended_close hclose _

theorem not_opening : ∀ t ∈ tail, t.kind ≠ .scriptOpen := by
  obtain ⟨close, last, eof, rfl, hclose, hlast, heof⟩ := h.exists_tail
  simp [hclose, hlast, heof]

/-- The only script among the pieces of the page. -/
theorem filter_pieces :
    (piecesOf config [] (movesOf config (tag :: opening :: (inside ++ tail)))).filter
        Piece.isScript
      = [.script opening.location (harvestOf config inside).statements] :=
  filter_piecesOf_alone h.opensTag h.isOpening h.isInside h.ended h.not_opening

/-- The names that the page declares are those of the script. -/
theorem declaredNames_progressOf :
    (progressOf config (tag :: opening :: (inside ++ tail))).declaredNames
      = (harvestOf config inside).declared := by
  obtain ⟨hin, hend⟩ := insideOf_append h.isInside h.ended
  rw [progressOf, chunks_markup (by simp [h.opensTag.kind]) (by simp [h.opensTag.kind]),
    chunks_script h.isOpening, hin, hend]
  obtain ⟨close, last, eof, rfl, hclose, hlast, heof⟩ := h.exists_tail
  rw [chunks_markup (by simp [hclose]) (by simp [hclose]),
    chunks_markup (by simp [hlast]) (by simp [hlast]), chunks_eof heof]
  simp only [List.foldl_cons, List.foldl_nil, Progress.add, Progress.readMarkup_declaredNames]
  rfl

end IsScriptPage

/-- Only a script is the piece of a script. -/
theorem Node.exists_script_of_piece? {n : Node} {location : Location} {statements : List Node}
    (h : n.piece? = some (.script location statements)) : ∃ site, n = .script site statements := by
  cases n <;> simp [Node.piece?] at h
  exact ⟨_, by rw [h.2]⟩

/-- **The page of a tag around a script** has one script, with the statements that its tokens give,
and declares their names. -/
theorem exists_page {config : Config} (hlimit : 1 ≤ config.maxExpressionTokens) {name : String}
    {attributes : List (String × String)} (h : IsContainer config name attributes)
    {script : List Char} {shapes : List (TokenKind × String)} (hscript : Spells shapes script)
    (file : Option String) :
    ∃ page inside site, readPage? config (scriptPage name attributes script) file = some page ∧
      inside.map Token.shape = shapes ∧ Inside inside ∧
      page.document.scripts = [.script site (harvestOf config inside).statements] ∧
      page.declaredNames = (harvestOf config inside).declared := by
  obtain ⟨tag, opening, inside, tail, htokens, htag⟩ := exists_tokens h hscript file
  obtain ⟨page, hpage, hshows⟩ :=
    readPage?_shows hlimit (scriptPage name attributes script) file
  rw [htokens] at hshows
  have hscripts := Document.scripts_pieces hshows.pieces
  rw [htag.filter_pieces, List.map_singleton] at hscripts
  obtain ⟨node, hnode, hpiece⟩ := List.map_eq_singleton_iff.1 hscripts
  obtain ⟨site, rfl⟩ := Node.exists_script_of_piece? hpiece
  refine ⟨page, inside, site, hpage, htag.shapes_eq, htag.isInside, hnode, ?_⟩
  rw [hshows.declaredNames, htag.declaredNames_progressOf]

end PageLint
