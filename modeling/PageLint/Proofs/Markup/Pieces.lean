import PageLint.Proofs.Markup.Code
import PageLint.Proofs.Regions.Chunks

/-!
# The markup of a page, piece by piece

What a page holds can be told from its tokens in order, with nothing but a list of the names of the
open tags: an opening tag is a tag, and a text or a script counts while some tag is open. This is
how the forest under construction is filled, too.

* `Move` — what a token or a script does: it opens or closes a tag, or is a text or a script
* `piecesOf` — the pieces of markup that a list of moves adds
* `Progress.Follows` — what has been read has gone on by a list of moves
* `foldl_add_follows` — adding chunks goes on by their moves
-/

namespace PageLint

/-! ## Moves -/

/-- What a token or a script does to the markup of a page. -/
inductive Move where
  | opens (location : Location) (tag : Markup.TagText)
  | closes (name : String)
  | text (location : Location) (content : String)
  | script (location : Location) (statements : List Node)

/-- The names of the open tags, innermost first, after a closing tag: the innermost tag of that
name is closed, and all tags inside it. A name that no open tag has closes nothing. -/
def closeName (name : String) (names : List String) : List String :=
  match names.dropWhile fun n => lowered n != lowered name with
  | [] => names
  | _ :: outer => outer

/-- The piece of an opening tag. -/
def tagPiece (location : Location) (tag : Markup.TagText) : Piece :=
  .tag location (String.ofList tag.name)
    (tag.attributes.map fun (name, value) =>
      { site := { location }, name := String.ofList name, value := String.ofList value })
    tag.selfClosing

namespace Move

/-- The pieces of markup that a move adds where tags of some names are open. -/
def pieces (names : List String) : Move → List Piece
  | opens location tag => [tagPiece location tag]
  | closes _ => []
  | text location content => if names.isEmpty then [] else [.text location content]
  | script location statements => if names.isEmpty then [] else [.script location statements]

/-- The names of the open tags after a move, innermost first. -/
def namesAfter (config : Config) (names : List String) : Move → List String
  | opens _ tag =>
    if tag.selfClosing || config.voidElements.contains (String.ofList tag.name) then names
    else String.ofList tag.name :: names
  | closes name => closeName name names
  | text .. | script .. => names

end Move

/-- The pieces of markup that a list of moves adds. -/
def piecesOf (config : Config) : List String → List Move → List Piece
  | _, [] => []
  | names, m :: ms => m.pieces names ++ piecesOf config (m.namesAfter config names) ms

theorem piecesOf_append (config : Config) (names : List String) (ms ms' : List Move) :
    piecesOf config names (ms ++ ms') =
      piecesOf config names ms ++
        piecesOf config (ms.foldl (Move.namesAfter config) names) ms' := by
  induction ms generalizing names with
  | nil => rfl
  | cons m ms ih =>
    rw [List.cons_append, piecesOf, piecesOf, ih, List.append_assoc, List.foldl_cons]

/-- The place of a span of a token. -/
def spanLocation (t : Token) (span : Markup.Span) : Location :=
  if span.offset == 0 then t.location else t.location.shifted (t.text.toList.take span.offset)

/-- What a span of a token of opening tags does; one without a name does nothing. -/
def spanMove? (t : Token) (span : Markup.Span) : Option Move :=
  if ['<', '/'].isPrefixOf span.text then
    some (.closes (String.ofList (Markup.tagName span.text)))
  else (Markup.TagText.read? span.text).map (.opens (spanLocation t span))

/-- What a chunk of a page does, in order. -/
def Chunk.moves (config : Config) : Chunk → List Move
  | .markup t =>
    match t.kind with
    | .tagOpen => (Markup.spans t.text.toList).filterMap (spanMove? t)
    | .tagClose => [.closes (String.ofList (Markup.tagName t.text.toList))]
    | .text => if t.text.isEmpty then [] else [.text t.location t.text]
    | _ => []
  | .script opening inside => [.script opening.location (harvestOf config inside).statements]

/-- What the tokens of a page do, in order. -/
def movesOf (config : Config) (ts : List Token) : List Move :=
  (chunks ts).flatMap (Chunk.moves config)

/-! ## Closing spans -/

namespace Markup

/-- Only a text with a `<` in front starts a closing tag. -/
theorem isPrefixOf_eq_false {cs : List Char} (h : cs.head? ≠ some '<') :
    ['<', '/'].isPrefixOf cs = false := by
  cases cs with
  | nil => rfl
  | cons c cs =>
    have hc : '<' ≠ c := by simpa [eq_comm] using h
    rw [List.isPrefixOf_cons_cons, beq_eq_false_iff_ne.2 hc, Bool.false_and]

/-- The tail of a span does not go on with a `<` behind blanks. -/
theorem trimLeft_spanTail (cs : List Char) :
    (Text.trimLeft (cs.take (spanTailLength none cs))).head? ≠ some '<' := by
  induction cs with
  | nil => simp [Text.trimLeft, spanTailLength]
  | cons c cs ih =>
    rw [spanTailLength]
    by_cases hopen : c = '<'
    · have hquote : Text.isQuoteMark '<' = false := by decide
      simp [hopen, hquote, Text.trimLeft]
    -- At any other character, the span has it in front, or goes on behind it when it is a blank.
    have hstep : ∀ n, (Text.trimLeft (cs.take n)).head? ≠ some '<' ∨ Text.isBlank c = false →
        (Text.trimLeft ((c :: cs).take (n + 1))).head? ≠ some '<' := by
      intro n hn
      rw [List.take_succ_cons, Text.trimLeft]
      by_cases hblank : Text.isBlank c = true
      · rw [List.dropWhile_cons_of_pos hblank]
        exact hn.resolve_right (by simp [hblank])
      · rw [List.dropWhile_cons_of_neg hblank]
        simpa using hopen
    split
    · rename_i hquote
      refine hstep _ (Or.inr ?_)
      have hmark : c = '"' ∨ c = '\'' := by simpa [Text.isQuoteMark] using hquote
      rcases hmark with rfl | rfl <;> decide
    split
    · exact hstep 0 (Or.inl (by simp [Text.trimLeft]))
    split
    · rename_i h
      exact absurd (by simpa using h) hopen
    · exact hstep _ (Or.inl ih)

/-- A span is a closing tag when it starts as one: no blanks come before its `<`. -/
theorem isClosing_of_mem_spansFrom {offset : Nat} {text : List Char} {span : Span}
    (h : span ∈ spansFrom offset text) :
    isClosing span.text = ['<', '/'].isPrefixOf span.text := by
  fun_induction spansFrom offset text with
  | case1 => simp at h
  | case2 offset c cs n whole tail hblank ih => exact ih h
  | case3 offset c cs n whole tail hblank ih =>
    rcases List.mem_cons.1 h with rfl | h
    · show isClosing (c :: cs.take n) = List.isPrefixOf ['<', '/'] (c :: cs.take n)
      by_cases hc : Text.isBlank c = true
      · have hne : c ≠ '<' := by
          rintro rfl
          revert hc
          decide
        have htrim : Text.trimLeft (c :: cs.take n) = Text.trimLeft (cs.take n) :=
          List.dropWhile_cons_of_pos hc
        rw [isClosing, htrim, isPrefixOf_eq_false (trimLeft_spanTail cs),
          isPrefixOf_eq_false (by simpa using hne)]
      · rw [isClosing, Text.trimLeft, List.dropWhile_cons_of_neg hc]
    · exact ih h

end Markup

/-! ## What has been read -/

/-- The piece of markup that an item of a forest is. -/
def Item.piece? : Item → Option Piece
  | .opening o => some (.tag o.location o.name o.attributes o.selfClosing)
  | .leaf n => n.piece?

/-- The names of the open tags of a forest, innermost first. -/
def Forest.openNames (forest : Forest) : List String :=
  forest.openTags.frames.map fun f => f.opening.name

/-- The pieces of markup that a forest holds, in source order. -/
def Forest.pieces (forest : Forest) : List Piece := forest.items.filterMap Item.piece?

namespace Forest

theorem openNames_addFrame (forest : Forest) (f : Frame) :
    (forest.addFrame f).openNames = forest.openNames := by
  unfold addFrame openNames
  split
  · rfl
  · rename_i h
    simp [h, Frame.add]

theorem openNames_addLeaf (forest : Forest) (n : Node) :
    (forest.addLeaf n).openNames = forest.openNames := by
  unfold addLeaf openNames
  split
  · rfl
  · rename_i h
    simp [h, Frame.add]

theorem isEmpty_openNames (forest : Forest) :
    forest.openNames.isEmpty = forest.openTags.isEmpty := by
  rw [openNames, OpenTags.isEmpty]
  cases forest.openTags.frames <;> rfl

theorem pieces_addLeaf (forest : Forest) (n : Node) :
    (forest.addLeaf n).pieces =
      forest.pieces ++ if forest.openNames.isEmpty then [] else n.piece?.toList := by
  rw [pieces, items_addLeaf, List.filterMap_append, ← pieces, isEmpty_openNames]
  split
  · rfl
  · cases h : n.piece? <;> simp [Item.piece?, h]

/-- Splitting the open tags at a name splits their names. -/
theorem splitAt?_names (name : String) (fs : List Frame) :
    ((fs.map fun f => f.opening.name).dropWhile fun n => lowered n != lowered name) =
      match OpenTags.splitAt? name fs with
      | none => []
      | some (_, found, outer) => found.opening.name :: outer.map fun f => f.opening.name := by
  induction fs with
  | nil => rfl
  | cons f fs ih =>
    rw [OpenTags.splitAt?, List.map_cons]
    by_cases h : OpenTags.isNamed name f = true
    · rw [if_pos h, List.dropWhile_cons_of_neg (by simpa [OpenTags.isNamed] using h)]
    · rw [if_neg h, List.dropWhile_cons_of_pos (by simpa [OpenTags.isNamed] using h), ih]
      cases OpenTags.splitAt? name fs <;> rfl

theorem openNames_close? {forest closed : Forest} {name : String}
    (h : forest.close? name = some closed) :
    closed.openNames = closeName name forest.openNames := by
  obtain ⟨⟨inner, found, outer⟩, hsplit, rfl⟩ := Option.map_eq_some_iff.1 h
  have hnames := splitAt?_names name forest.openTags.frames
  rw [hsplit] at hnames
  rw [openNames_addFrame, closeName, openNames, openNames, hnames]

theorem closeName_of_close?_eq_none {forest : Forest} {name : String}
    (h : forest.close? name = none) : closeName name forest.openNames = forest.openNames := by
  have hnames := splitAt?_names name forest.openTags.frames
  rw [Option.map_eq_none_iff.1 h] at hnames
  rw [closeName, openNames, hnames]

end Forest

/-! ## Following the moves -/

namespace Progress

/-- What has been read has gone on by a list of moves: tags have opened and closed, and pieces have
been added behind those that were there. -/
structure Follows (config : Config) (p : Progress) (ms : List Move) (q : Progress) : Prop where
  openNames : q.forest.openNames = ms.foldl (Move.namesAfter config) p.forest.openNames
  pieces : q.forest.pieces = p.forest.pieces ++ piecesOf config p.forest.openNames ms

theorem Follows.refl (config : Config) (p : Progress) : p.Follows config [] p :=
  ⟨rfl, by simp [piecesOf]⟩

theorem Follows.trans {config : Config} {p q r : Progress} {ms ms' : List Move}
    (h : p.Follows config ms q) (h' : q.Follows config ms' r) : p.Follows config (ms ++ ms') r where
  openNames := by rw [h'.openNames, h.openNames, List.foldl_append]
  pieces := by rw [h'.pieces, h.pieces, h.openNames, piecesOf_append, List.append_assoc]

/-- A step is one move when it takes the names and pieces to those after the move. -/
theorem Follows.of_move {config : Config} {p q : Progress} {m : Move}
    (hnames : q.forest.openNames = m.namesAfter config p.forest.openNames)
    (hpieces : q.forest.pieces = p.forest.pieces ++ m.pieces p.forest.openNames) :
    p.Follows config [m] q :=
  ⟨hnames, by rw [hpieces, piecesOf, piecesOf, List.append_nil]⟩

theorem closeTag_follows (config : Config) (p : Progress) (name : String) (location : Location) :
    p.Follows config [.closes name] (p.closeTag name location) := by
  unfold closeTag
  split
  · rename_i closed hclose
    refine Follows.of_move (Forest.openNames_close? hclose) ?_
    rw [Forest.pieces, Forest.items_close? hclose]
    exact (List.append_nil _).symm
  · rename_i hclose
    refine Follows.of_move (Forest.closeName_of_close?_eq_none hclose).symm ?_
    exact (List.append_nil _).symm

theorem openTag_follows (config : Config) (p : Progress) (serial : Nat) (location : Location)
    (tag : Markup.TagText) :
    p.Follows config [.opens location tag] (p.openTag config (openingOf serial location tag)) := by
  have hname : (openingOf serial location tag).name = String.ofList tag.name := rfl
  have hself : (openingOf serial location tag).selfClosing = tag.selfClosing := rfl
  refine Follows.of_move ?_ ?_
  · rw [openTag, Move.namesAfter, hname, hself]
    simp only
    split
    · exact Forest.openNames_addFrame _ _
    · rfl
  · rw [openTag]
    simp only
    split
    · rw [Forest.pieces, Forest.items_addFrame, List.filterMap_append]
      rfl
    · rw [Forest.pieces, Forest.items_openFrame, List.filterMap_append]
      rfl

theorem addLeaf_follows (config : Config) {p q : Progress} {n : Node} {m : Move}
    (hq : q.forest = p.forest.addLeaf n)
    (hnames : ∀ names, m.namesAfter config names = names)
    (hpieces : ∀ names, m.pieces names = if names.isEmpty then [] else n.piece?.toList) :
    p.Follows config [m] q := by
  refine Follows.of_move ?_ ?_
  · rw [hq, Forest.openNames_addLeaf, hnames]
  · rw [hq, Forest.pieces_addLeaf, hpieces]

theorem readSpan_follows (config : Config) (t : Token) (p : Progress) {span : Markup.Span}
    (hspan : Markup.isClosing span.text = ['<', '/'].isPrefixOf span.text) :
    p.Follows config (spanMove? t span).toList (p.readSpan config t span) := by
  rw [readSpan, spanMove?, hspan]
  split
  · exact closeTag_follows config p _ _
  · cases Markup.TagText.read? span.text with
    | none => exact Follows.refl config p
    | some tag => exact openTag_follows config p p.nextSerial (spanLocation t span) tag

theorem foldl_readSpan_follows (config : Config) (t : Token) (p : Progress)
    {spans : List Markup.Span}
    (hspans : ∀ s ∈ spans, Markup.isClosing s.text = ['<', '/'].isPrefixOf s.text) :
    p.Follows config (spans.filterMap (spanMove? t)) (spans.foldl (readSpan config t) p) := by
  induction spans generalizing p with
  | nil => exact Follows.refl config p
  | cons span spans ih =>
    have hfirst := readSpan_follows config t p (hspans span List.mem_cons_self)
    have hmore := ih (p.readSpan config t span) fun s hs => hspans s (List.mem_cons_of_mem _ hs)
    rw [List.filterMap_cons]
    cases h : spanMove? t span with
    | none => rw [h] at hfirst; exact hfirst.trans hmore
    | some m => rw [h] at hfirst; exact hfirst.trans hmore

/-- **A chunk goes on by its moves.** -/
theorem add_follows (config : Config) (p : Progress) (c : Chunk) :
    p.Follows config (c.moves config) (p.add config c) := by
  cases c with
  | script opening inside => exact addLeaf_follows config rfl (fun _ => rfl) (fun _ => rfl)
  | markup t =>
    rw [add, readMarkup, Chunk.moves]
    cases t.kind with
    | tagOpen =>
      refine foldl_readSpan_follows config t p fun s hs => ?_
      exact Markup.isClosing_of_mem_spansFrom hs
    | tagClose => exact closeTag_follows config p _ _
    | text =>
      simp only
      split
      · exact Follows.refl config p
      · exact addLeaf_follows config rfl (fun _ => rfl) (fun _ => rfl)
    | doctype =>
      simp only
      split
      · exact ⟨rfl, (List.append_nil _).symm⟩
      · exact Follows.refl config p
    | scriptOpen => exact ⟨rfl, (List.append_nil _).symm⟩
    | _ => exact Follows.refl config p

/-- **Chunks go on by their moves in order.** -/
theorem foldl_add_follows (config : Config) (p : Progress) (cs : List Chunk) :
    p.Follows config (cs.flatMap (Chunk.moves config)) (cs.foldl (add config) p) := by
  induction cs generalizing p with
  | nil => exact Follows.refl config p
  | cons c cs ih => exact (add_follows config p c).trans (ih (p.add config c))

end Progress

/-- **A page holds the pieces that its tokens add.** -/
theorem pieces_progressOf (config : Config) (ts : List Token) :
    (progressOf config ts).forest.pieces = piecesOf config [] (movesOf config ts) :=
  (Progress.foldl_add_follows config {} (chunks ts)).pieces

end PageLint
