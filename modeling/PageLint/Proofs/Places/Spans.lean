import Mathlib.Data.List.Induction
import PageLint.Markup.Span
import PageLint.Proofs.Modes
import PageLint.Proofs.Positions

/-!
# Places of tags

A token of opening tags starts with `<` and has a `>` outside quotes at its end only. So each of its
spans starts with `<`, and where a span stands is where moving over the text in front of it leads:
moving a location in one go does the same as moving a position character by character.

* `Location.Positioned` — line and column as the offset gives them
* `Location.IsAt.shifted` — a location that is shifted goes along with a position
* `Markup.IsTagText` — the text of a token of opening tags
* `Markup.spansFrom_starts` — the spans of such a text start with `<`
* `exists_around` — a token of a page, and what stands in its source around it
-/

namespace PageLint

/-! ## Locations by offsets -/

/-- The line and column of a location are those of its offset in the source. -/
structure Location.Positioned (source : List Char) (l : Location) : Prop where
  inside : 0 ≤ l.offset ∧ l.offset ≤ source.length
  line : l.line = 1 + (source.take l.offset.toNat).count '\n'
  column : l.column = l.offset - lastNewline source l.offset.toNat

/-- A location starts at a position. -/
structure Location.IsAt (l : Location) (p : Cursor) : Prop where
  line : l.line = p.line
  column : l.column = p.column
  offset : l.offset = p.offset

theorem Token.IsAt.location {t : Token} {p : Cursor} (h : t.IsAt p) : t.location.IsAt p :=
  ⟨h.line, h.column, h.offset⟩

/-- What follows the last newline of a text goes on with the text. -/
theorem Location.sinceNewline?_concat (cs : List Char) (c : Char) :
    Location.sinceNewline? (cs ++ [c]) =
      if c == '\n' then some 0 else (Location.sinceNewline? cs).map (· + 1) := by
  unfold Location.sinceNewline?
  by_cases hc : c = '\n'
  · simp [hc]
  · have hne : (c == '\n') = false := by simpa using hc
    have hcontains : (cs ++ [c]).contains '\n' = cs.contains '\n' := by
      simp [hc, eq_comm]
    rw [hcontains, hne]
    simp only [List.reverse_append, List.reverse_cons, List.reverse_nil, List.nil_append,
      List.singleton_append, Bool.false_eq_true, if_false]
    rw [List.takeWhile_cons_of_pos (by simpa using hc), List.length_cons]
    split <;> rfl

/-- Shifting over one more character is going on by that character. -/
theorem Location.IsAt.shifted_concat {l : Location} {cs : List Char} {p : Cursor}
    (h : (l.shifted cs).IsAt p) (c : Char) : (l.shifted (cs ++ [c])).IsAt (p.next c) := by
  obtain ⟨hline, hcolumn, hoffset⟩ := h
  simp only [Location.shifted] at hline hcolumn hoffset
  unfold Location.shifted Cursor.next
  rw [Location.sinceNewline?_concat]
  by_cases hc : c = '\n'
  · subst hc
    constructor <;> simp <;> omega
  · have hne : (c == '\n') = false := by simpa using hc
    cases hsince : Location.sinceNewline? cs with
    | none =>
      simp only [hsince] at hcolumn
      constructor <;> simp [hne, hc, List.count_append] <;> omega
    | some n =>
      simp only [hsince] at hcolumn
      constructor <;> simp [hne, hc, List.count_append] <;> omega

/-- **Shifting a location over a text is moving on character by character.** -/
theorem Location.IsAt.shifted {l : Location} {p : Cursor} (h : l.IsAt p) (cs : List Char) :
    (l.shifted cs).IsAt (p.advance cs) := by
  induction cs using List.reverseRecOn with
  | nil =>
    obtain ⟨hline, hcolumn, hoffset⟩ := h
    constructor <;> simp [Location.shifted, Location.sinceNewline?, Cursor.advance, *]
  | append_singleton cs c ih =>
    rw [Cursor.advance_append]
    exact ih.shifted_concat c

/-- Where the position comes to over the front of a source, line and column are as they should. -/
theorem Location.IsAt.positioned {l : Location} {source before : List Char}
    (h : l.IsAt (Cursor.start.advance before)) (hbefore : before <+: source) :
    l.Positioned source := by
  have htake : source.take before.length = before := (List.prefix_iff_eq_take.1 hbefore).symm
  have hoffset : l.offset = before.length := by
    rw [h.offset, Cursor.advance_offset]
    simp [Cursor.start]
  have htoNat : l.offset.toNat = before.length := by rw [hoffset, Int.toNat_natCast]
  refine ⟨?_, ?_, ?_⟩
  · have := hbefore.length_le
    omega
  · rw [h.line, Cursor.advance_line, htoNat, htake]
    simp [Cursor.start]
  · have hcolumn := Cursor.advance_column source hbefore.length_le
    rw [htake] at hcolumn
    rw [h.column, hcolumn, hoffset, Int.toNat_natCast]

/-! ## Spans of a tag text -/

namespace Markup

/-- The text of a token of opening tags: it starts with `<` and goes through the first `>` outside
quotes, or to the end of the input. -/
structure IsTagText (text : List Char) : Prop where
  head : text.head? = some '<'
  whole : tagLength none text = text.length

/-- What follows a span of a tag text is nothing or another tag text. -/
theorem isTagText_drop {quote : Option Char} {cs : List Char}
    (h : tagLength quote cs = cs.length) :
    cs.drop (spanTailLength quote cs) = [] ∨ IsTagText (cs.drop (spanTailLength quote cs)) := by
  fun_induction spanTailLength quote cs with
  | case1 => exact Or.inl rfl
  | case2 mark c cs ih =>
    rw [tagLength, List.length_cons] at h
    exact ih (Nat.succ.inj h)
  | case3 c cs hquote ih =>
    rw [tagLength, if_pos hquote, List.length_cons] at h
    exact ih (Nat.succ.inj h)
  | case4 c cs hquote hclose =>
    rw [tagLength, if_neg hquote, if_pos hclose, List.length_cons] at h
    exact Or.inl (List.length_eq_zero_iff.1 (Nat.succ.inj h).symm)
  | case5 c cs hquote hclose hopen =>
    obtain rfl : c = '<' := by simpa using hopen
    exact Or.inr ⟨rfl, h⟩
  | case6 c cs hquote hclose hopen ih =>
    rw [tagLength, if_neg hquote, if_neg hclose, List.length_cons] at h
    exact ih (Nat.succ.inj h)

/-- **The spans of a tag text start with `<`**, inside the text. -/
theorem spansFrom_starts {offset : Nat} {text : List Char} (h : text = [] ∨ IsTagText text) :
    ∀ s ∈ spansFrom offset text, offset ≤ s.offset ∧ text[s.offset - offset]? = some '<' := by
  fun_induction spansFrom offset text with
  | case1 => simp
  | case2 offset c cs n span tail hblank ih =>
    obtain ⟨hhead, -⟩ := h.resolve_left (List.cons_ne_nil _ _)
    obtain rfl : c = '<' := by simpa using hhead
    exact absurd (List.all_eq_true.1 hblank '<' List.mem_cons_self) (by decide)
  | case3 offset c cs n span tail hblank ih =>
    obtain ⟨hhead, hwhole⟩ := h.resolve_left (List.cons_ne_nil _ _)
    obtain rfl : c = '<' := by simpa using hhead
    have hcs : tagLength none cs = cs.length := by
      rw [tagLength, if_neg (by decide), if_neg (by decide), List.length_cons] at hwhole
      exact Nat.succ.inj hwhole
    intro s hs
    rcases List.mem_cons.1 hs with rfl | hs
    · exact ⟨Nat.le_refl _, by simp⟩
    · obtain ⟨hle, hstart⟩ := ih (isTagText_drop hcs) s hs
      rw [List.getElem?_drop] at hstart
      refine ⟨by omega, ?_⟩
      have hindex : s.offset - offset = n + (s.offset - (offset + 1 + n)) + 1 := by omega
      rw [hindex, List.getElem?_cons_succ]
      exact hstart

/-- The offsets of spans go up. -/
theorem spansFrom_rising (offset : Nat) (text : List Char) :
    (∀ s ∈ spansFrom offset text, offset ≤ s.offset) ∧
      (spansFrom offset text).Pairwise fun s s' => s.offset < s'.offset := by
  fun_induction spansFrom offset text with
  | case1 => simp
  | case2 offset c cs n span tail hblank ih =>
    exact ⟨fun s hs => by have := ih.1 s hs; omega, ih.2⟩
  | case3 offset c cs n span tail hblank ih =>
    constructor
    · intro s hs
      rcases List.mem_cons.1 hs with rfl | hs
      · exact Nat.le_refl _
      · have := ih.1 s hs
        omega
    · refine List.pairwise_cons.2 ⟨fun s hs => ?_, ih.2⟩
      have := ih.1 s hs
      show offset < s.offset
      omega

end Markup

/-! ## Tokens in their source -/

/-- The length of a tag does not depend on what follows it. -/
theorem tagLength_take (quote : Option Char) (cs : List Char) :
    tagLength quote (cs.take (tagLength quote cs)) = (cs.take (tagLength quote cs)).length := by
  fun_induction tagLength quote cs with
  | case1 => rfl
  | case2 mark c cs ih => rw [List.take_succ_cons, tagLength, ih, List.length_cons]
  | case3 c cs hquote ih => rw [List.take_succ_cons, tagLength, if_pos hquote, ih, List.length_cons]
  | case4 c cs hquote hclose =>
    rw [List.take_succ_cons, tagLength, if_neg hquote, if_pos hclose]
    rfl
  | case5 c cs hquote hclose ih =>
    rw [List.take_succ_cons, tagLength, if_neg hquote, if_neg hclose, ih, List.length_cons]

/-- A token that is markup starts with `<`; one of opening tags has the text of one. -/
structure Token.StartsTag (t : Token) : Prop where
  doctype : t.kind = .doctype → t.text.toList.head? = some '<'
  tagOpen : t.kind = .tagOpen → Markup.IsTagText t.text.toList

theorem angleToken_startsTag (cs : List Char) (file : Option String) (place : Cursor) :
    (Token.at file place (angleToken ('<' :: cs)).1
      (('<' :: cs).take (angleToken ('<' :: cs)).2)).StartsTag := by
  have hhead : ∀ n, 0 < n → (('<' :: cs).take n).head? = some '<' := by
    intro n hn
    rw [List.head?_take, if_neg (Nat.ne_of_gt hn)]
    rfl
  constructor
  · intro _
    rw [Token.at, String.toList_ofList]
    exact hhead _ (angleToken_pos '<' cs)
  · rw [Token.at, String.toList_ofList]
    unfold angleToken
    split
    · intro hk; cases hk
    split
    · intro hk; cases hk
    split
    · intro hk; cases hk
    split
    · intro hk; cases hk
    · intro _
      exact ⟨hhead _ (tagLength_pos none '<' cs), tagLength_take none _⟩

theorem Mode.cut_startsTag {mode : Mode} {c : Char} {cs : List Char} {kind : TokenKind}
    (h : (mode.cut c cs).kind = some kind) (file : Option String) (place : Cursor) :
    (Token.at file place kind (mode.cut c cs).text).StartsTag := by
  cases mode with
  | script =>
    -- Inside scripts there are no tokens of these kinds.
    have hscans := Mode.scans_cut .script c cs kind h
    constructor <;>
    · intro hk
      obtain rfl : kind = _ := hk
      cases hscans
  | markup =>
    rw [Mode.cut, markupCut] at h ⊢
    split at h
    · rename_i hopen
      obtain rfl : c = '<' := by simpa using hopen
      obtain rfl := Option.some.inj h
      exact angleToken_startsTag cs file place
    · have htext : kind = .text := by
        simp only [Cut.ofText] at h
        split at h
        · cases h
        · exact (Option.some.inj h).symm
      subst htext
      constructor <;> (intro hk; cases hk)

theorem scanFrom_startsTag (file : Option String) (mode : Mode) (place : Cursor)
    (input : List Char) : ∀ t ∈ (scanFrom file mode place input).tokens, t.StartsTag := by
  fun_induction scanFrom file mode place input with
  | case1 mode place input start h =>
    intro t ht
    rw [List.mem_singleton.1 ht]
    constructor <;> (intro hk; cases hk)
  | case2 mode place input place' c cs h cut start stop next hlt tail ih =>
    intro t ht
    rcases List.mem_append.1 ht with hcut | htail
    · obtain ⟨kind, hkind, rfl⟩ := Option.map_eq_some_iff.1 (Option.mem_toList.1 hcut)
      exact Mode.cut_startsTag hkind file start
    · exact ih t htail

/-- **A token of a page in its source**: what stands in front of it leads to its place. -/
theorem exists_around (source : String) (file : Option String) :
    ∀ t ∈ tokenize source file, ∃ before after,
      source.toList = before ++ (t.text.toList ++ after) ∧
      t.IsAt (Cursor.start.advance before) := by
  intro t ht
  have htiled := scanFrom_tiled file .markup .start source.toList
  obtain ⟨before, ⟨behind, hsource⟩, hat⟩ := scanFrom_isAt file .markup .start source.toList t ht
  by_cases heof : t.kind = .eof
  · -- Only the last token stands for the end of the input, and it has no text.
    obtain ⟨others, last, htokens, hothers, -, htext, -⟩ := htiled.exists_ending
    rw [tokenize, scan, htokens] at ht
    rcases List.mem_append.1 ht with ht | ht
    · exact absurd heof (hothers t ht)
    · rw [← List.mem_singleton.1 ht] at htext
      exact ⟨before, behind, by simp [htext, hsource], hat⟩
  · obtain ⟨-, i, hoffset, htext⟩ := htiled.exists_slice t ht heof
    have hi : i = before.length := by
      have := hat.offset
      rw [Cursor.advance_offset] at this
      simp only [Cursor.start] at this hoffset
      omega
    rw [hi, ← hsource, List.drop_left] at htext
    refine ⟨before, behind.drop t.text.length, ?_, hat⟩
    rw [htext, List.take_append_drop, hsource]

end PageLint
