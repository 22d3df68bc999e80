import PageLint.Proofs.Markup.Parts
import PageLint.Proofs.Places.Tags

/-!
# Tokens of tags and their spans

A token of opening tags is cut off by a scan that watches the quotes in it from its start to its
end. It is split into spans by another one, which forgets the quotes at the start of every span. The
two agree: a span starts at a `<` outside quotes, so that nothing is forgotten there, and both see
the same quote open at each character. So the spans of a token are laid along it without a gap, and
a `>` outside quotes ends the last of them.

The spans of any other text need not start with `<`. They still are pieces of it in order, and leave
out nothing but blanks.

* `Markup.LaidOut`, `Markup.laidOut_spansFrom` — the spans of a tag text lie along it
* `Markup.SpansInStep` — spans that see the quotes that their token sees
* `Markup.SpansApart` — spans that are pieces of a text in order
* `Markup.SpanLoop` — the splitting of a text as a loop, which comes to an end
* `tags_split_in_step` — how the tokens of a page and other texts are split
-/

namespace PageLint

namespace Markup

/-! ## Marks outside quotes -/

/-- A mark stands outside quotes at an index of a text. -/
def UnquotedAt (mark : Char) (text : List Char) (i : Nat) : Prop :=
  text[i]? = some mark ∧ openQuote none (text.take i) = none

/-- A tag goes no further than through a `>` outside quotes. -/
theorem tagLength_le_of_unquoted {quote : Option Char} {cs : List Char} {i : Nat}
    (hclose : cs[i]? = some '>') (hquote : openQuote quote (cs.take i) = none) :
    tagLength quote cs ≤ i + 1 := by
  fun_induction tagLength quote cs generalizing i with
  | case1 => exact Nat.zero_le _
  | case2 mark c cs ih =>
    cases i with
    | zero => simp [openQuote] at hquote
    | succ i =>
      rw [List.take_succ_cons, openQuote] at hquote
      exact Nat.succ_le_succ (ih (by simpa using hclose) hquote)
  | case3 c cs hmark ih =>
    cases i with
    | zero =>
      obtain rfl : c = '>' := by simpa using hclose
      cases hmark
    | succ i =>
      rw [List.take_succ_cons, openQuote, if_pos hmark] at hquote
      exact Nat.succ_le_succ (ih (by simpa using hclose) hquote)
  | case4 => exact Nat.le_add_left 1 i
  | case5 c cs hmark hne ih =>
    cases i with
    | zero =>
      obtain rfl : c = '>' := by simpa using hclose
      exact absurd rfl hne
    | succ i =>
      rw [List.take_succ_cons, openQuote, if_neg hmark] at hquote
      exact Nat.succ_le_succ (ih (by simpa using hclose) hquote)

/-- A `>` outside quotes is the last character of a tag text. -/
theorem IsTagText.last_of_unquoted {text : List Char} (h : IsTagText text) {i : Nat}
    (hclose : UnquotedAt '>' text i) : i + 1 = text.length := by
  have hlt : i < text.length := (List.getElem?_eq_some_iff.1 hclose.1).1
  have hle := tagLength_le_of_unquoted hclose.1 hclose.2
  rw [h.whole] at hle
  omega

/-- Where a span ends and something follows, no quote is open. -/
theorem openQuote_spanTail (quote : Option Char) (cs : List Char) :
    cs.drop (spanTailLength quote cs) = [] ∨
      openQuote quote (cs.take (spanTailLength quote cs)) = none := by
  fun_induction spanTailLength quote cs with
  | case1 => exact Or.inl rfl
  | case2 mark c cs ih => rwa [List.drop_succ_cons, List.take_succ_cons, openQuote]
  | case3 c cs hmark ih => rwa [List.drop_succ_cons, List.take_succ_cons, openQuote, if_pos hmark]
  | case4 c cs hmark _ => exact Or.inr (by rw [List.take_succ_cons, openQuote, if_neg hmark]; rfl)
  | case5 => exact Or.inr rfl
  | case6 c cs hmark _ _ ih =>
    rwa [List.drop_succ_cons, List.take_succ_cons, openQuote, if_neg hmark]

/-! ## Spans along a tag text -/

/-- Spans laid along a text that stands at an offset, without a gap. Each starts with `<`, and
leaves no quote open where anything follows. -/
inductive LaidOut : Nat → List Char → List Span → Prop
  | nil (offset : Nat) : LaidOut offset [] []
  | cons {offset : Nat} {front rest : List Char} {ss : List Span}
      (head : front.head? = some '<') (closed : rest = [] ∨ openQuote none front = none)
      (tail : LaidOut (offset + front.length) rest ss) :
      LaidOut offset (front ++ rest) ({ offset, text := front } :: ss)

/-- A tag text is `<` and what makes up a tag behind it. -/
theorem IsTagText.of_cons {c : Char} {cs : List Char} (h : IsTagText (c :: cs)) :
    c = '<' ∧ tagLength none cs = cs.length := by
  obtain ⟨hhead, hwhole⟩ := h
  obtain rfl : c = '<' := by simpa using hhead
  rw [tagLength, if_neg (by decide), if_neg (by decide), List.length_cons] at hwhole
  exact ⟨rfl, Nat.succ.inj hwhole⟩

/-- **The spans of a tag text lie along it.** -/
theorem laidOut_spansFrom {offset : Nat} {text : List Char} (h : text = [] ∨ IsTagText text) :
    LaidOut offset text (spansFrom offset text) := by
  fun_induction spansFrom offset text with
  | case1 offset => exact .nil offset
  | case2 offset c cs n span tail hblank ih =>
    -- A span that starts with `<` is not left out.
    obtain ⟨rfl, -⟩ := (h.resolve_left (List.cons_ne_nil _ _)).of_cons
    exact absurd (List.all_eq_true.1 hblank '<' List.mem_cons_self) (by decide)
  | case3 offset c cs n span tail hblank ih =>
    obtain ⟨rfl, hcs⟩ := (h.resolve_left (List.cons_ne_nil _ _)).of_cons
    have hlength : offset + span.length = offset + 1 + n := by
      have : n ≤ cs.length := spanTailLength_le cs
      simp only [span, List.length_cons, List.length_take]
      omega
    have htail := ih (isTagText_drop hcs)
    rw [← hlength] at htail
    have hlaid : LaidOut offset (span ++ cs.drop n)
        ({ offset, text := span } :: spansFrom (offset + span.length) (cs.drop n)) :=
      .cons rfl (openQuote_spanTail none cs) htail
    rw [List.cons_append, List.take_append_drop, hlength] at hlaid
    exact hlaid

namespace LaidOut

variable {offset : Nat} {text : List Char} {ss : List Span} (h : LaidOut offset text ss)

include h

theorem start (hne : text ≠ []) : ss.head?.map Span.offset = some offset := by
  cases h with
  | nil => exact absurd rfl hne
  | cons => rfl

theorem ne_nil_of_mem {s : Span} (hs : s ∈ ss) : text ≠ [] := by
  cases h with
  | nil => cases hs
  | cons head _ _ =>
    intro hnil
    rw [(List.append_eq_nil_iff.1 hnil).1] at head
    cases head

theorem le_offset : ∀ s ∈ ss, offset ≤ s.offset := by
  induction h with
  | nil => exact List.forall_mem_nil _
  | cons _ _ _ ih =>
    refine List.forall_mem_cons.2 ⟨Nat.le_refl _, fun s hs => ?_⟩
    have := ih s hs
    omega

theorem contiguous : ss.IsChain fun s s' => s'.offset = s.offset + s.text.length := by
  induction h with
  | nil => exact List.isChain_nil
  | @cons offset front rest ss _ _ tail ih =>
    refine List.isChain_cons.2 ⟨fun s hs => ?_, ih⟩
    -- What follows starts where its first span does.
    have hstart := tail.start (tail.ne_nil_of_mem (List.mem_of_mem_head? hs))
    rw [Option.mem_def.1 hs] at hstart
    exact Option.some.inj hstart

theorem joined : ss.flatMap Span.text = text := by
  induction h with
  | nil => rfl
  | cons _ _ _ ih => rw [List.flatMap_cons, ih]

theorem opens : ∀ s ∈ ss, s.text.head? = some '<' := by
  induction h with
  | nil => exact List.forall_mem_nil _
  | cons head _ _ ih => exact List.forall_mem_cons.2 ⟨head, ih⟩

/-- The last span ends where the text does. -/
theorem ends : ∀ s ∈ ss.getLast?, s.offset + s.text.length = offset + text.length := by
  induction h with
  | nil => simp
  | @cons offset front rest ss _ _ tail ih =>
    intro s hs
    rw [List.length_append, ← Nat.add_assoc]
    cases tail with
    | nil =>
      obtain rfl : ({ offset, text := front } : Span) = s := by simpa using hs
      rfl
    | cons =>
      rw [List.getLast?_cons_cons] at hs
      exact ih s hs

/-- **The quotes that a span sees are those that the whole text sees.** -/
theorem inStep : ∀ s ∈ ss, ∀ i ≤ s.text.length,
    openQuote none (text.take (s.offset - offset + i)) = openQuote none (s.text.take i) := by
  induction h with
  | nil => exact List.forall_mem_nil _
  | @cons offset front rest ss _ closed tail ih =>
    refine List.forall_mem_cons.2 ⟨fun i hi => ?_, fun s hs i hi => ?_⟩
    · rw [Nat.sub_self, Nat.zero_add, List.take_append_of_le_length hi]
    · have hle : offset + front.length ≤ s.offset := tail.le_offset s hs
      have hplace : s.offset - offset + i =
          front.length + (s.offset - (offset + front.length) + i) := by omega
      rw [hplace, List.take_length_add_append, openQuote_append,
        closed.resolve_left (tail.ne_nil_of_mem hs)]
      exact ih s hs i hi

end LaidOut

/-! ## Spans of any text -/

/-- A span ends in its text. -/
theorem spansFrom_ends (offset : Nat) (text : List Char) :
    ∀ s ∈ spansFrom offset text, s.offset + s.text.length ≤ offset + text.length := by
  intro s hs
  obtain ⟨hle, hprefix, hne⟩ := spansFrom_text offset text s hs
  have hlength := hprefix.length_le
  have hpos := List.length_pos_iff.2 hne
  rw [List.length_drop] at hlength
  omega

/-- A span ends before the next one starts. -/
theorem spansFrom_apart (offset : Nat) (text : List Char) :
    (spansFrom offset text).Pairwise fun s s' => s.offset + s.text.length ≤ s'.offset := by
  fun_induction spansFrom offset text with
  | case1 => exact List.Pairwise.nil
  | case2 offset c cs n span tail hblank ih => exact ih
  | case3 offset c cs n span tail hblank ih =>
    refine List.pairwise_cons.2 ⟨fun s hs => ?_, ih⟩
    have hle := (spansFrom_text _ _ s hs).1
    simp only [span, List.length_cons, List.length_take]
    omega

/-- The characters of a span are those that its text starts with. -/
theorem getElem?_cons_take {n i : Nat} (h : i ≤ n) (c : Char) (cs : List Char) :
    (c :: cs.take n)[i]? = (c :: cs)[i]? := by
  rw [← List.take_succ_cons, List.getElem?_take_of_lt (Nat.lt_succ_of_le h)]

/-- The characters behind a span are those of what follows it. -/
theorem getElem?_drop_cons {n i : Nat} (h : n < i) (c : Char) (cs : List Char) :
    (cs.drop n)[i - (1 + n)]? = (c :: cs)[i]? := by
  have hi : i = n + (i - (1 + n)) + 1 := by omega
  rw [List.getElem?_drop, ← List.getElem?_cons_succ (a := c), ← hi]

/-- **What no span covers is blank.** -/
theorem isBlank_of_uncovered (offset : Nat) (text : List Char) : ∀ i x, text[i]? = some x →
    (∀ s ∈ spansFrom offset text,
      ¬(s.offset ≤ offset + i ∧ offset + i < s.offset + s.text.length)) →
    Text.isBlank x = true := by
  fun_induction spansFrom offset text with
  | case1 =>
    intro i x hx
    cases hx
  | case2 offset c cs n span tail hblank ih =>
    intro i x hx h
    by_cases hi : n < i
    · refine ih _ x ((getElem?_drop_cons hi c cs).trans hx) fun s hs hcovered => h s hs ?_
      omega
    · have hspan : span[i]? = some x := (getElem?_cons_take (Nat.le_of_not_lt hi) c cs).trans hx
      exact List.all_eq_true.1 hblank x (List.mem_of_getElem? hspan)
  | case3 offset c cs n span tail hblank ih =>
    intro i x hx h
    by_cases hi : n < i
    · refine ih _ x ((getElem?_drop_cons hi c cs).trans hx) fun s hs hcovered =>
        h s (List.mem_cons_of_mem _ hs) ?_
      omega
    · -- The character is in the first span.
      have hspan : span[i]? = some x := (getElem?_cons_take (Nat.le_of_not_lt hi) c cs).trans hx
      refine absurd ⟨Nat.le_add_right offset i, ?_⟩ (h _ List.mem_cons_self)
      exact Nat.add_lt_add_left (List.getElem?_eq_some_iff.1 hspan).1 offset

/-! ## Splitting as a loop -/

/-- Where the loop that splits a text stands: the index from which it goes on, and the spans that
have been found. -/
structure SpanLoop where
  start : Nat
  found : List Span

namespace SpanLoop

/-- One turn of the loop; none when the loop is left. It does not matter here whether the turn takes
a character. -/
def turn? (text : List Char) (s : SpanLoop) : Option SpanLoop :=
  match text.drop s.start with
  | [] => none
  | c :: cs =>
    let n := spanTailLength none cs
    let span := c :: cs.take n
    some
      { start := s.start + 1 + n
        found :=
          if span.all Text.isBlank then s.found
          else s.found ++ [{ offset := s.start, text := span }] }

/-- The loop is left after a number of turns. -/
inductive EndsAfter (text : List Char) : Nat → SpanLoop → SpanLoop → Prop
  | left {s : SpanLoop} (h : s.turn? text = none) : EndsAfter text 0 s s
  | turn {n : Nat} {s s' last : SpanLoop} (h : s.turn? text = some s')
      (tail : EndsAfter text n s' last) : EndsAfter text (n + 1) s last

/-- A turn where something is left takes the first span of it. -/
theorem turn?_of_drop {text cs : List Char} {c : Char} {start : Nat}
    (h : text.drop start = c :: cs) (found : List Span) :
    let n := spanTailLength none cs
    let span := c :: cs.take n
    turn? text { start, found } = some
      { start := start + 1 + n
        found :=
          if span.all Text.isBlank then found
          else found ++ [{ offset := start, text := span }] } ∧
    text.drop (start + 1 + n) = cs.drop n := by
  intro n span
  constructor
  · rw [turn?, h]
  · rw [Nat.add_assoc, ← List.drop_drop, h, Nat.add_comm 1 n, List.drop_succ_cons]

/-- **The loop comes to an end**, within as many turns as there are characters left, and finds the
spans of what is left. -/
theorem exists_endsAfter {text : List Char} (offset : Nat) (rest : List Char) :
    ∀ found, text.drop offset = rest →
      ∃ n ≤ rest.length, ∃ last, EndsAfter text n { start := offset, found } last ∧
        last.found = found ++ spansFrom offset rest := by
  fun_induction spansFrom offset rest with
  | case1 offset =>
    intro found hrest
    refine ⟨0, Nat.zero_le _, _, .left ?_, (List.append_nil _).symm⟩
    rw [turn?, hrest]
  | case2 offset c cs n span tail hblank ih =>
    intro found hrest
    obtain ⟨hturn, hdrop⟩ := turn?_of_drop hrest found
    rw [if_pos hblank] at hturn
    obtain ⟨turns, hturns, last, hlast, hfound⟩ := ih found hdrop
    rw [List.length_drop] at hturns
    exact ⟨turns + 1, by rw [List.length_cons]; omega, last, .turn hturn hlast, hfound⟩
  | case3 offset c cs n span tail hblank ih =>
    intro found hrest
    obtain ⟨hturn, hdrop⟩ := turn?_of_drop hrest found
    rw [if_neg hblank] at hturn
    obtain ⟨turns, hturns, last, hlast, hfound⟩ :=
      ih (found ++ [{ offset, text := span }]) hdrop
    rw [List.length_drop] at hturns
    refine ⟨turns + 1, by rw [List.length_cons]; omega, last, .turn hturn hlast, ?_⟩
    rw [hfound, List.append_assoc]
    rfl

end SpanLoop

/-! ## What splitting gives -/

/-- Spans that see the quotes that the text of their token sees: they lie along it without a gap,
and are cut where it has a `<` or a `>` outside quotes. -/
structure SpansInStep (text : List Char) (ss : List Span) : Prop where
  start : ss.head?.map Span.offset = some 0
  contiguous : ss.IsChain fun s s' => s'.offset = s.offset + s.text.length
  joined : ss.flatMap Span.text = text
  opens : ∀ s ∈ ss, s.text.head? = some '<'
  /-- At every character, the span and the text have the same quote open. -/
  inStep : ∀ s ∈ ss, ∀ i ≤ s.text.length,
    openQuote none (text.take (s.offset + i)) = openQuote none (s.text.take i)
  inner : ∀ s ∈ ss.dropLast, ∀ i, ¬UnquotedAt '>' s.text i
  last : ∀ s ∈ ss.getLast?, ∀ i, UnquotedAt '>' s.text i → i + 1 = s.text.length

/-- **A tag text is split in step with its quotes.** -/
theorem IsTagText.spansInStep {text : List Char} (h : IsTagText text) :
    SpansInStep text (spans text) := by
  have hne : text ≠ [] := by
    rintro rfl
    cases h.head
  have hlaid : LaidOut 0 text (spans text) := laidOut_spansFrom (Or.inr h)
  have hends : ∀ s ∈ (spans text).getLast?, s.offset + s.text.length = text.length := by
    simpa using hlaid.ends
  have hinStep : ∀ s ∈ spans text, ∀ i ≤ s.text.length,
      openQuote none (text.take (s.offset + i)) = openQuote none (s.text.take i) :=
    fun s hs i hi => by simpa using hlaid.inStep s hs i hi
  -- What is outside quotes in a span is so in the whole text, where it is at the end.
  have hclose : ∀ s ∈ spans text, ∀ i, UnquotedAt '>' s.text i →
      s.offset + i + 1 = text.length := by
    intro s hs i ⟨hget, hquote⟩
    have hi : i < s.text.length := (List.getElem?_eq_some_iff.1 hget).1
    refine h.last_of_unquoted ⟨?_, (hinStep s hs i (Nat.le_of_lt hi)).trans hquote⟩
    obtain ⟨-, ⟨behind, htext⟩, -⟩ := spansFrom_text 0 text s hs
    rw [← List.getElem?_drop, ← hget, show text.drop s.offset = s.text ++ behind from htext.symm,
      List.getElem?_append_left hi]
  refine ⟨hlaid.start hne, hlaid.contiguous, hlaid.joined, hlaid.opens, hinStep, ?_, ?_⟩
  · intro s hs i hunquoted
    have hs' : s ∈ spans text := (List.dropLast_sublist _).mem hs
    have hi : i < s.text.length := (List.getElem?_eq_some_iff.1 hunquoted.1).1
    -- Another span stands behind this one, and ends in the text.
    obtain ⟨last, hlast⟩ : ∃ last, (spans text).getLast? = some last :=
      ⟨_, List.getLast?_eq_some_getLast (List.ne_nil_of_mem hs')⟩
    obtain ⟨front, hfront⟩ := List.getLast?_eq_some_iff.1 hlast
    have hapart := spansFrom_apart 0 text
    rw [show spansFrom 0 text = front ++ [last] from hfront, List.pairwise_append] at hapart
    rw [hfront, List.dropLast_concat] at hs
    have hle := hapart.2.2 s hs last (List.mem_singleton_self last)
    have hpos := List.length_pos_iff.2
      (spansFrom_text 0 text last (List.mem_of_getLast? hlast)).2.2
    have := hends last hlast
    have := hclose s hs' i hunquoted
    omega
  · intro s hs i hunquoted
    have := hends s hs
    have := hclose s (List.mem_of_getLast? hs) i hunquoted
    omega

/-- Spans that are pieces of a text in order, and leave out nothing but blanks. -/
structure SpansApart (text : List Char) (ss : List Span) : Prop where
  slice : ∀ s ∈ ss, s.text = (text.drop s.offset).take s.text.length
  ends : ∀ s ∈ ss, s.offset + s.text.length ≤ text.length
  ne_nil : ∀ s ∈ ss, s.text ≠ []
  apart : ss.Pairwise fun s s' => s.offset + s.text.length ≤ s'.offset
  uncovered : ∀ i c, text[i]? = some c →
    (∀ s ∈ ss, ¬(s.offset ≤ i ∧ i < s.offset + s.text.length)) → Text.isBlank c = true

/-- **Any text is split into pieces of it in order**, blanks aside. -/
theorem spansApart_spans (text : List Char) : SpansApart text (spans text) where
  slice s hs := List.prefix_iff_eq_take.1 (spansFrom_text 0 text s hs).2.1
  ends s hs := by simpa using spansFrom_ends 0 text s hs
  ne_nil s hs := (spansFrom_text 0 text s hs).2.2
  apart := spansFrom_apart 0 text
  uncovered i c hc h := isBlank_of_uncovered 0 text i c hc (by simpa [spans] using h)

end Markup

open Markup in
/-- **A token of opening tags is split in step with the quotes that it has been cut off by.** Any
text at all is split into pieces of it, by a loop that comes to an end. -/
theorem tags_split_in_step :
    (∀ (source : String) (file : Option String), ∀ t ∈ tokenize source file, t.kind = .tagOpen →
      SpansInStep t.text.toList (spans t.text.toList)) ∧
    ∀ text : List Char, SpansApart text (spans text) ∧
      ∃ n ≤ text.length, ∃ last,
        SpanLoop.EndsAfter text n { start := 0, found := [] } last ∧ last.found = spans text := by
  refine ⟨fun source file t ht hkind => ?_, fun text => ⟨spansApart_spans text, ?_⟩⟩
  · exact ((scanFrom_startsTag file .markup .start source.toList t ht).tagOpen hkind).spansInStep
  · exact SpanLoop.exists_endsAfter 0 text [] rfl

/-- Two tags in one token, the first with angle brackets and the other quote mark in quotes. -/
def nestedQuotesTag : String := "<a t='<\">' <b u=\"'>\">"

/-- A token of two spans that a `>` in quotes does not end. -/
theorem nestedQuotesTag_in_step :
    let t : Token :=
      { kind := .tagOpen, text := nestedQuotesTag, line := 1, column := 1, offset := 0 }
    t ∈ tokenize nestedQuotesTag none ∧ t.kind = .tagOpen ∧
      Markup.SpansInStep t.text.toList (Markup.spans t.text.toList) ∧
      (Markup.spans t.text.toList).map Markup.Span.offset = [0, 11] := by
  intro t
  have hmem : t ∈ tokenize nestedQuotesTag none := by decide +kernel
  exact ⟨hmem, rfl, tags_split_in_step.1 nestedQuotesTag none t hmem rfl, by decide +kernel⟩

end PageLint
