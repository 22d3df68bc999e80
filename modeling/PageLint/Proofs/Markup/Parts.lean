import Mathlib.Data.List.Chain
import PageLint.Proofs.Ids.Attributes

/-!
# Parts of a tag written out again

The inside of a tag is split at its blanks outside quotes, and some of the pieces are then joined
around equals signs. Nothing but these blanks is lost. Parts that are written out with a blank
between them are split the same way again: none of them has a blank outside its quotes, only the
last may leave a quote open, and behind the name of the tag no two of them touch with an equals
sign. Lists of texts with these properties are the normal forms of splitting.

* `withoutBlanks` — a text without its blanks outside quotes
* `IsSplit`, `isSplit_piecesFrom` — the normal form of splitting at blanks
* `Untouched`, `untouched_joinEquals` — the normal form of joining around equals signs
* `parts_resplit` — nothing but blanks is lost, and splitting again changes nothing
-/

namespace PageLint.Markup

/-! ## Blanks outside quotes -/

theorem openQuote_append (quote : Option Char) (cs ds : List Char) :
    openQuote quote (cs ++ ds) = openQuote (openQuote quote cs) ds := by
  fun_induction openQuote quote cs with
  | case1 quote => rfl
  | case2 mark c cs ih => rw [List.cons_append, openQuote, ih]
  | case3 c cs ih => rw [List.cons_append, openQuote, ih]

/-- A text without its blanks outside quotes. The first argument is the quote mark that is open in
front of the text, if any. -/
def withoutBlanks : Option Char → List Char → List Char
  | _, [] => []
  | quote, c :: cs =>
    let rest := withoutBlanks (openQuote quote [c]) cs
    if quote.isNone && Text.isBlank c then rest else c :: rest

theorem withoutBlanks_append (quote : Option Char) (cs ds : List Char) :
    withoutBlanks quote (cs ++ ds) =
      withoutBlanks quote cs ++ withoutBlanks (openQuote quote cs) ds := by
  induction cs generalizing quote with
  | nil => cases quote <;> rfl
  | cons c cs ih =>
    have hstep : openQuote quote (c :: cs) = openQuote (openQuote quote [c]) cs :=
      openQuote_append quote [c] cs
    rw [List.cons_append, withoutBlanks, withoutBlanks, ih, hstep]
    split <;> rfl

theorem withoutBlanks_sublist (quote : Option Char) (cs : List Char) :
    (withoutBlanks quote cs).Sublist cs := by
  induction cs generalizing quote with
  | nil => cases quote <;> exact List.Sublist.refl _
  | cons c cs ih =>
    rw [withoutBlanks]
    split
    · exact (ih _).cons c
    · exact (ih _).cons_cons c

/-- A text that starts with a blank outside quotes has something to lose. -/
theorem not_isBlank_of_withoutBlanks {quote : Option Char} {c : Char} {cs : List Char}
    (h : withoutBlanks quote (c :: cs) = c :: cs) :
    (quote.isNone && Text.isBlank c) = false ∧
      withoutBlanks (openQuote quote [c]) cs = cs := by
  rw [withoutBlanks] at h
  cases hblank : quote.isNone && Text.isBlank c with
  | true =>
    rw [hblank, if_pos rfl] at h
    have hlength := (withoutBlanks_sublist (openQuote quote [c]) cs).length_le
    rw [h, List.length_cons] at hlength
    omega
  | false =>
    rw [hblank, if_neg (by decide)] at h
    exact ⟨rfl, (List.cons.inj h).2⟩

theorem isBlank_of_isQuoteMark {c : Char} (h : Text.isQuoteMark c = true) :
    Text.isBlank c = false :=
  Bool.eq_false_iff.2 fun hblank => by rw [isQuoteMark_of_isBlank hblank] at h; cases h

/-! ## Pieces -/

/-- **The pieces of a text are what it holds besides blanks outside quotes.** -/
theorem flatten_piecesFrom (quote : Option Char) (piece cs : List Char) :
    (piecesFrom quote piece cs).flatten = piece.reverse ++ withoutBlanks quote cs := by
  fun_induction piecesFrom quote piece cs with
  | case1 quote piece hempty => rw [List.isEmpty_iff.1 hempty]; cases quote <;> rfl
  | case2 quote piece _ => cases quote <;> simp [withoutBlanks]
  | case3 mark piece c cs ih => rw [ih]; simp [withoutBlanks, openQuote]
  | case4 piece c cs hmark ih =>
    rw [ih]
    simp [withoutBlanks, openQuote, hmark, isBlank_of_isQuoteMark hmark]
  | case5 piece c cs hmark hblank hempty ih =>
    rw [ih, List.isEmpty_iff.1 hempty]
    simp [withoutBlanks, openQuote, hmark, hblank]
  | case6 piece c cs hmark hblank hempty ih =>
    rw [List.flatten_cons, ih]
    simp [withoutBlanks, openQuote, hmark, hblank]
  | case7 piece c cs hmark hblank ih =>
    rw [ih]
    simp [withoutBlanks, openQuote, hmark, hblank]

/-- A text without blanks outside quotes is one piece. -/
theorem piecesFrom_of_withoutBlanks {quote : Option Char} {cs : List Char}
    (h : withoutBlanks quote cs = cs) {piece : List Char} (hne : piece ≠ [] ∨ cs ≠ []) :
    piecesFrom quote piece cs = [piece.reverse ++ cs] := by
  induction cs generalizing quote piece with
  | nil =>
    have hpiece : piece ≠ [] := hne.resolve_right fun h => h rfl
    cases quote <;> simp [piecesFrom, hpiece]
  | cons c cs ih =>
    obtain ⟨hblank, hrest⟩ := not_isBlank_of_withoutBlanks h
    have hgoes : ∀ quote', quote' = openQuote quote [c] →
        piecesFrom quote' (c :: piece) cs = [piece.reverse ++ c :: cs] := by
      rintro _ rfl
      rw [ih hrest (Or.inl (List.cons_ne_nil _ _))]
      simp
    cases quote with
    | some mark => exact hgoes _ rfl
    | none =>
      rw [piecesFrom]
      split
      · rename_i hmark
        exact hgoes _ (by rw [openQuote, if_pos hmark]; rfl)
      · rename_i hmark
        rw [if_neg (by simpa using hblank)]
        exact hgoes _ (by rw [openQuote, if_neg hmark]; rfl)

/-- The normal form of splitting at blanks: texts that hold no blank outside their quotes, of which
only the last may leave a quote open. -/
structure IsSplit (ps : List (List Char)) : Prop where
  piece : ∀ p ∈ ps, p ≠ [] ∧ withoutBlanks none p = p
  closed : ps.IsChain fun p _ => openQuote none p = none

theorem IsSplit.tail {p : List Char} {ps : List (List Char)} (h : IsSplit (p :: ps)) :
    IsSplit ps :=
  ⟨fun q hq => h.piece q (List.mem_cons_of_mem p hq), h.closed.tail⟩

/-- A piece in front that leaves no quote open. -/
theorem IsSplit.cons {p : List Char} {ps : List (List Char)} (h : IsSplit ps)
    (hp : p ≠ [] ∧ withoutBlanks none p = p) (hclosed : openQuote none p = none) :
    IsSplit (p :: ps) :=
  ⟨List.forall_mem_cons.2 ⟨hp, h.piece⟩, List.isChain_cons.2 ⟨fun _ _ => hclosed, h.closed⟩⟩

/-- **Splitting at blanks gives the normal form**, from any piece that has been started. -/
theorem isSplit_piecesFrom {quote : Option Char} {piece : List Char} (cs : List Char)
    (hpiece : withoutBlanks none piece.reverse = piece.reverse)
    (hquote : openQuote none piece.reverse = quote) : IsSplit (piecesFrom quote piece cs) := by
  -- One more character, which is in quotes or no blank, leaves the piece without blanks.
  have hlonger : ∀ {quote : Option Char} {piece : List Char} {c : Char},
      withoutBlanks none piece.reverse = piece.reverse → openQuote none piece.reverse = quote →
      (quote.isNone && Text.isBlank c) = false →
      withoutBlanks none (c :: piece).reverse = (c :: piece).reverse ∧
        openQuote none (c :: piece).reverse = openQuote quote [c] := by
    intro quote piece c hpiece hquote hc
    rw [List.reverse_cons, withoutBlanks_append, openQuote_append, hpiece, hquote, withoutBlanks,
      if_neg (by simp [hc])]
    cases openQuote quote [c] <;> exact ⟨rfl, rfl⟩
  fun_induction piecesFrom quote piece cs with
  | case1 => exact ⟨List.forall_mem_nil _, List.isChain_nil⟩
  | case2 quote piece hempty =>
    refine ⟨List.forall_mem_singleton.2 ⟨?_, hpiece⟩, List.isChain_singleton _⟩
    simpa using hempty
  | case3 mark piece c cs ih =>
    obtain ⟨hpiece', hquote'⟩ := hlonger hpiece hquote (c := c) rfl
    exact ih hpiece' hquote'
  | case4 piece c cs hmark ih =>
    obtain ⟨hpiece', hquote'⟩ :=
      hlonger hpiece hquote (c := c) (by simp [isBlank_of_isQuoteMark hmark])
    exact ih hpiece' (by rw [hquote', openQuote, if_pos hmark]; rfl)
  | case5 piece c cs _ _ hempty ih => exact ih rfl rfl
  | case6 piece c cs _ _ hempty ih =>
    exact (ih rfl rfl).cons ⟨by simpa using hempty, hpiece⟩ hquote
  | case7 piece c cs hmark hblank ih =>
    obtain ⟨hpiece', hquote'⟩ := hlonger hpiece hquote (c := c) (by simpa using hblank)
    exact ih hpiece' (by rw [hquote', openQuote, if_neg hmark]; rfl)

/-- **Texts in normal form are the pieces of what they give with a blank between them.** -/
theorem IsSplit.piecesFrom_intercalate {ps : List (List Char)} (h : IsSplit ps) :
    piecesFrom none [] (List.intercalate [' '] ps) = ps := by
  induction ps with
  | nil => rfl
  | cons p ps ih =>
    have hp : piecesFrom none [] p = [p] := by
      obtain ⟨hne, hp⟩ := h.piece p List.mem_cons_self
      exact piecesFrom_of_withoutBlanks hp (Or.inr hne)
    cases ps with
    | nil => rw [List.intercalate_singleton, hp]
    | cons q qs =>
      have hclosed : openQuote none p = none :=
        (List.isChain_cons.1 h.closed).1 q rfl
      have hblank : ∀ c ∈ [' '], Text.isBlank c = true :=
        List.forall_mem_singleton.2 (by decide)
      rw [List.intercalate_cons_cons, List.append_assoc,
        piecesFrom_append hclosed [] ⟨' ', rfl, by decide⟩, piecesFrom_blanks hblank, hp,
        ih h.tail]
      rfl

/-! ## Joined pieces -/

theorem flatten_joinEquals (part : List Char) (pieces : List (List Char)) :
    (joinEquals part pieces).flatten = part ++ pieces.flatten := by
  fun_induction joinEquals part pieces with
  | case1 part => simp
  | case2 part piece pieces _ ih => rw [ih, List.flatten_cons, List.append_assoc]
  | case3 part piece pieces _ ih => rw [List.flatten_cons, ih, List.flatten_cons]

/-- The first part starts with the piece that it has been started with. -/
theorem exists_joinEquals_cons (part : List Char) (pieces : List (List Char)) :
    ∃ more others, joinEquals part pieces = (part ++ more) :: others := by
  fun_induction joinEquals part pieces with
  | case1 part => exact ⟨[], [], by rw [List.append_nil]⟩
  | case2 part piece pieces _ ih =>
    obtain ⟨more, others, heq⟩ := ih
    exact ⟨piece ++ more, others, by rw [heq, List.append_assoc]⟩
  | case3 part piece pieces _ _ => exact ⟨[], _, by rw [List.append_nil]⟩

/-- Joining keeps the normal form of splitting at blanks. -/
theorem IsSplit.joinEquals {part : List Char} {pieces : List (List Char)}
    (h : IsSplit (part :: pieces)) : IsSplit (Markup.joinEquals part pieces) := by
  fun_induction Markup.joinEquals part pieces with
  | case1 part => exact h
  | case2 part piece pieces _ ih =>
    obtain ⟨hne, hpart⟩ := h.piece part List.mem_cons_self
    obtain ⟨-, hpiece⟩ := h.tail.piece piece List.mem_cons_self
    have hclosed : openQuote none part = none := (List.isChain_cons.1 h.closed).1 piece rfl
    refine ih ⟨List.forall_mem_cons.2 ⟨⟨by simp [hne], ?_⟩, h.tail.tail.piece⟩,
      List.isChain_cons.2 ⟨fun q hq => ?_, h.tail.tail.closed⟩⟩
    · rw [withoutBlanks_append, hclosed, hpart, hpiece]
    · rw [openQuote_append, hclosed]
      exact (List.isChain_cons.1 h.tail.closed).1 q hq
  | case3 part piece pieces _ ih =>
    exact (ih h.tail).cons (h.piece part List.mem_cons_self)
      ((List.isChain_cons.1 h.closed).1 piece rfl)

/-- The normal form of joining: no two neighbours touch with an equals sign. -/
def Untouched (ps : List (List Char)) : Prop :=
  ps.IsChain fun p q => p.getLast? ≠ some '=' ∧ q.head? ≠ some '='

/-- **Joining around equals signs gives the normal form.** -/
theorem untouched_joinEquals {part : List Char} {pieces : List (List Char)}
    (h : ∀ p ∈ pieces, p ≠ []) : Untouched (joinEquals part pieces) := by
  fun_induction joinEquals part pieces with
  | case1 part => exact List.isChain_singleton part
  | case2 part piece pieces _ ih => exact ih (List.forall_mem_cons.1 h).2
  | case3 part piece pieces htouch ih =>
    obtain ⟨hne, hpieces⟩ := List.forall_mem_cons.1 h
    have hapart : piece.head? ≠ some '=' ∧ part.getLast? ≠ some '=' := by simpa using htouch
    refine List.isChain_cons.2 ⟨fun q hq => ⟨hapart.2, ?_⟩, ih hpieces⟩
    -- The part behind starts as its first piece does.
    obtain ⟨more, others, heq⟩ := exists_joinEquals_cons piece pieces
    rw [heq, List.head?_cons, Option.mem_some_iff] at hq
    rw [← hq, List.head?_append_of_ne_nil _ hne]
    exact hapart.1

/-- Texts in normal form are left as they are. -/
theorem joinEquals_of_untouched {part : List Char} {pieces : List (List Char)}
    (h : Untouched (part :: pieces)) : joinEquals part pieces = part :: pieces := by
  induction pieces generalizing part with
  | nil => rfl
  | cons piece pieces ih =>
    obtain ⟨hapart, hpieces⟩ := List.isChain_cons_cons.1 h
    rw [joinEquals, if_neg (by simp [hapart.1, hapart.2]), ih hpieces]

/-! ## Parts -/

theorem flatten_parts (text : List Char) :
    (parts text).flatten = withoutBlanks none text := by
  have hflatten : (piecesFrom none [] text).flatten = withoutBlanks none text :=
    flatten_piecesFrom none [] text
  rw [parts, ← hflatten]
  cases piecesFrom none [] text with
  | nil => rfl
  | cons name pieces =>
    cases pieces with
    | nil => rfl
    | cons piece pieces =>
      simp only [List.flatten_cons, flatten_joinEquals]

/-- The parts of a tag are in normal form, its name apart when it comes to equals signs. -/
theorem parts_normal (text : List Char) : IsSplit (parts text) ∧ Untouched (parts text).tail := by
  have hsplit : IsSplit (piecesFrom none [] text) := isSplit_piecesFrom text rfl rfl
  rw [parts]
  cases hpieces : piecesFrom none [] text with
  | nil => exact ⟨⟨List.forall_mem_nil _, List.isChain_nil⟩, List.isChain_nil⟩
  | cons name pieces =>
    rw [hpieces] at hsplit
    cases pieces with
    | nil => exact ⟨hsplit, List.isChain_nil⟩
    | cons piece pieces =>
      refine ⟨hsplit.tail.joinEquals.cons (hsplit.piece name List.mem_cons_self)
        ((List.isChain_cons.1 hsplit.closed).1 piece rfl), ?_⟩
      exact untouched_joinEquals fun p hp => (hsplit.tail.tail.piece p hp).1

/-- Texts in normal form are the parts of what they give with a blank between them. -/
theorem parts_intercalate {ps : List (List Char)} (h : IsSplit ps) (htail : Untouched ps.tail) :
    parts (List.intercalate [' '] ps) = ps := by
  rw [parts, h.piecesFrom_intercalate]
  cases ps with
  | nil => rfl
  | cons name pieces =>
    cases pieces with
    | nil => rfl
    | cons piece pieces => exact congrArg (name :: ·) (joinEquals_of_untouched htail)

/-- **Splitting the inside of a tag loses its blanks outside quotes and nothing else, and splitting
the parts again changes nothing.** -/
theorem parts_resplit (text : List Char) :
    (parts text).flatten = withoutBlanks none text ∧
      parts (List.intercalate [' '] (parts text)) = parts text :=
  ⟨flatten_parts text, parts_intercalate (parts_normal text).1 (parts_normal text).2⟩

/-- An equals sign that stands for the name of a tag is joined to nothing, and a quote that is never
closed holds the blanks behind it. -/
example :
    parts "= = b = 'c d' e=\" f  g".toList =
      ["=".toList, "=b='c d'".toList, "e=\" f  g".toList] := by
  decide

end PageLint.Markup
