import Mathlib.Data.List.TakeWhile
import PageLint.Token.Stream

/-!
# Tokens tile their page

The tokens of a page are pieces of its source in source order, and what lies between them is
blank. The last token, and no other, stands for the end of the input.

* `Tiled` — tokens laid along an input: blanks, a token, blanks, a token, up to the end
* `scanFrom_tiled` — scanning lays its tokens along its input, in both modes
* `tokenize_tiles` — the same said by offsets into the source

The argument runs over cuts. A cut has blanks before and after its text (`Cut.Framed`), so
scanning only ever adds blanks to the gap before the next token, or a token after that gap.
-/

namespace PageLint

/-! ## Cuts have blanks around their text -/

/-- A cut with nothing but blanks around its text, which is empty exactly when the cut has no
token. The token is never the end of the input. -/
structure Cut.Framed (c : Cut) : Prop where
  lead_blank : ∀ x ∈ c.lead, Text.isBlank x = true
  trail_blank : ∀ x ∈ c.trail, Text.isBlank x = true
  text_ne_nil : ∀ {kind}, c.kind = some kind → c.text ≠ []
  kind_ne_eof : ∀ {kind}, c.kind = some kind → kind ≠ .eof
  text_eq_nil : c.kind = none → c.text = []

theorem Cut.framed_ofLength {kind : TokenKind} {n : Nat} {c : Char} (cs : List Char)
    (hk : kind ≠ .eof) (hn : 0 < n) : (Cut.ofLength kind n (c :: cs)).Framed where
  lead_blank := by simp [Cut.ofLength]
  trail_blank := by simp [Cut.ofLength]
  text_ne_nil := by
    intro _ _
    obtain ⟨m, rfl⟩ := Nat.exists_eq_succ_of_ne_zero (Nat.ne_of_gt hn)
    simp [Cut.ofLength]
  kind_ne_eof := by
    intro k h
    rw [← Option.some.inj h]
    exact hk
  text_eq_nil := by simp [Cut.ofLength]

/-- A text that does not start with a blank is not trimmed away. -/
theorem Text.trimRight_ne_nil {c : Char} {cs : List Char} (h : Text.isBlank c = false) :
    Text.trimRight (c :: cs) ≠ [] := by
  intro he
  have hall : ∀ x ∈ (c :: cs).reverse, Text.isBlank x = true := by
    rw [Text.trimRight, List.reverse_eq_nil_iff] at he
    exact List.dropWhile_eq_nil_iff.1 he
  have := hall c (by simp)
  rw [h] at this
  exact Bool.noConfusion this

theorem Cut.framed_ofText (raw rest : List Char) : (Cut.ofText raw rest).Framed := by
  have hlead : ∀ x ∈ (Cut.ofText raw rest).lead, Text.isBlank x = true :=
    fun _ hx => List.mem_takeWhile_imp hx
  have htrail : ∀ x ∈ (Cut.ofText raw rest).trail, Text.isBlank x = true := by
    intro x hx
    exact List.mem_takeWhile_imp (List.mem_reverse.1 hx)
  cases hbody : Text.trimLeft raw with
  | nil =>
    refine ⟨hlead, htrail, ?_, ?_, ?_⟩
    · intro kind h
      simp [Cut.ofText, hbody] at h
    · intro kind h
      simp [Cut.ofText, hbody] at h
    · intro _
      simp [Cut.ofText, hbody, Text.trimRight]
  | cons c cs =>
    have hc : Text.isBlank c = false := by
      have := List.head?_dropWhile_not Text.isBlank raw
      rw [show raw.dropWhile Text.isBlank = c :: cs from hbody] at this
      simpa using this
    refine ⟨hlead, htrail, ?_, ?_, ?_⟩
    · intro _ _
      show Text.trimRight (Text.trimLeft raw) ≠ []
      rw [hbody]
      exact Text.trimRight_ne_nil hc
    · intro kind h
      simp only [Cut.ofText, hbody, List.isEmpty_cons, Bool.false_eq_true, if_false,
        Option.some.injEq] at h
      rw [← h]
      simp
    · intro h
      simp [Cut.ofText, hbody] at h

/-! ## No cut is the end of the input -/

theorem angleToken_ne_eof (input : List Char) : (angleToken input).1 ≠ .eof := by
  unfold angleToken
  split
  · simp
  split
  · simp
  split
  · simp
  split <;> simp

theorem wordKind_ne_eof (word : String) : wordKind word ≠ .eof := by
  unfold wordKind
  split
  · simp
  split
  · simp
  split <;> simp

theorem markKind_ne_eof (c : Char) : markKind c ≠ .eof := by
  unfold markKind
  repeat' split
  all_goals simp

theorem plainToken_ne_eof (c : Char) (cs : List Char) : (plainToken c cs).1 ≠ .eof := by
  unfold plainToken
  split
  · simp
  split
  · simp
  split
  · exact wordKind_ne_eof _
  split
  · simp
  split
  · simp
  · exact markKind_ne_eof c

theorem scriptToken_ne_eof (c : Char) (cs : List Char) : (scriptToken c cs).1 ≠ .eof := by
  unfold scriptToken
  split
  · simp
  · exact plainToken_ne_eof c cs

/-- **Every cut is framed by blanks**, in both modes. -/
theorem Mode.cut_framed (mode : Mode) (c : Char) (cs : List Char) : (mode.cut c cs).Framed := by
  cases mode with
  | markup =>
    show (markupCut (c :: cs)).Framed
    unfold markupCut
    split
    · exact Cut.framed_ofLength cs (angleToken_ne_eof _) (angleToken_pos c cs)
    · exact Cut.framed_ofText _ _
  | script => exact Cut.framed_ofLength cs (scriptToken_ne_eof c cs) (scriptToken_pos c cs)

/-! ## Tokens along an input -/

/-- Tokens laid along an input that starts at an offset of the source: each after a gap of blanks,
up to the token for the end of the input. -/
inductive Tiled : Nat → List Char → List Token → Prop where
  | last {n : Nat} {gap : List Char} {t : Token} (blank : ∀ c ∈ gap, Text.isBlank c = true)
      (kind : t.kind = .eof) (text : t.text = "") (offset : t.offset = (n + gap.length : Nat)) :
      Tiled n gap [t]
  | cons {n : Nat} {gap text rest : List Char} {t : Token} {ts : List Token}
      (blank : ∀ c ∈ gap, Text.isBlank c = true) (kind : t.kind ≠ .eof)
      (spelled : t.text = String.ofList text) (ne_nil : text ≠ [])
      (offset : t.offset = (n + gap.length : Nat))
      (tail : Tiled (n + gap.length + text.length) rest ts) :
      Tiled n (gap ++ text ++ rest) (t :: ts)

namespace Tiled

/-- Blanks in front of an input belong to its first gap. -/
theorem blank_append {n : Nat} {blanks input : List Char} {ts : List Token}
    (hb : ∀ c ∈ blanks, Text.isBlank c = true) (h : Tiled (n + blanks.length) input ts) :
    Tiled n (blanks ++ input) ts := by
  have longer {gap : List Char} (hg : ∀ c ∈ gap, Text.isBlank c = true) :
      ∀ c ∈ blanks ++ gap, Text.isBlank c = true := by
    intro c hc
    exact (List.mem_append.1 hc).elim (hb c) (hg c)
  cases h with
  | last blank kind text offset =>
    exact .last (longer blank) kind text (by rw [offset, List.length_append, Nat.add_assoc])
  | @cons _ gap text rest t ts blank kind spelled ne_nil offset tail =>
    rw [← List.append_assoc, ← List.append_assoc]
    refine .cons (longer blank) kind spelled ne_nil ?_ ?_
    · rw [offset, List.length_append, Nat.add_assoc]
    · rwa [List.length_append, ← Nat.add_assoc]

/-- No token starts before the input. -/
theorem le_offset {n : Nat} {input : List Char} {ts : List Token} (h : Tiled n input ts) :
    ∀ t ∈ ts, (n : Int) ≤ t.offset := by
  induction h with
  | last _ _ _ offset =>
    intro t ht
    rw [List.mem_singleton.1 ht, offset]
    omega
  | cons _ _ _ _ offset _ ih =>
    intro t ht
    rcases List.mem_cons.1 ht with rfl | ht
    · rw [offset]
      omega
    · have := ih t ht
      omega

end Tiled

theorem isBlank_of_isSkipped {c : Char} (h : isSkipped c = true) : Text.isBlank c = true := by
  simp only [isSkipped, Bool.or_eq_true, beq_iff_eq] at h
  rcases h with ((rfl | rfl) | rfl) | rfl <;> decide

/-! ## Scanning -/

@[simp] theorem Cursor.advance_offset (p : Cursor) (cs : List Char) :
    (p.advance cs).offset = p.offset + cs.length := by
  induction cs generalizing p with
  | nil => rfl
  | cons c cs ih =>
    show ((p.next c).advance cs).offset = _
    have : (p.next c).offset = p.offset + 1 := by
      unfold Cursor.next
      split <;> rfl
    rw [ih, this, List.length_cons]
    omega

/-- A framed cut puts its token, if it has one, in front of the tokens of the rest. -/
theorem Cut.Framed.tiled {c : Cut} (h : c.Framed) {file : Option String} {place start : Cursor}
    {ts : List Token} (hs : start.offset = place.offset + c.lead.length)
    (tail : Tiled (start.offset + c.text.length + c.trail.length) c.rest ts) :
    Tiled place.offset c.parts ((c.token? file start).toList ++ ts) := by
  have tail' := Tiled.blank_append h.trail_blank tail
  unfold Cut.parts
  cases hk : c.kind with
  | none =>
    rw [h.text_eq_nil hk] at tail' ⊢
    simp only [Cut.token?, hk, Option.map_none, Option.toList_none, List.nil_append,
      List.append_nil, List.append_assoc]
    refine Tiled.blank_append h.lead_blank ?_
    rwa [← hs]
  | some kind =>
    simp only [Cut.token?, hk, Option.map_some, Option.toList_some, List.cons_append,
      List.nil_append]
    rw [List.append_assoc _ c.trail]
    refine .cons h.lead_blank (h.kind_ne_eof hk) rfl (h.text_ne_nil hk) ?_ ?_
    · show (start.offset : Int) = _
      rw [hs]
    · rwa [← hs]

theorem isBlank_of_mem_skipped {input : List Char} :
    ∀ c ∈ input.takeWhile isSkipped, Text.isBlank c = true :=
  fun _ hc => isBlank_of_isSkipped (List.mem_takeWhile_imp hc)

/-- **Scanning lays tokens along the input**, whatever mode and position it starts in. -/
theorem scanFrom_tiled (file : Option String) (mode : Mode) (place : Cursor)
    (input : List Char) : Tiled place.offset input (scanFrom file mode place input).tokens := by
  fun_induction scanFrom file mode place input with
  | case1 mode place input start h =>
    have all : input.takeWhile isSkipped = input := by
      have := List.takeWhile_append_dropWhile (p := isSkipped) (l := input)
      rwa [h, List.append_nil] at this
    have blank : ∀ c ∈ input.takeWhile isSkipped, Text.isBlank c = true := isBlank_of_mem_skipped
    rw [all] at blank
    refine .last blank rfl rfl ?_
    show ((place.advance (input.takeWhile isSkipped)).offset : Int) = _
    rw [all, Cursor.advance_offset]
  | case2 mode place input place' c cs h cut start stop next hlt tail ih =>
    have tiled : Tiled place'.offset cut.parts ((cut.token? file start).toList ++ tail.tokens) := by
      refine (mode.cut_framed c cs).tiled (Cursor.advance_offset _ _) ?_
      rwa [← Cursor.advance_offset, ← Cursor.advance_offset]
    rw [mode.cut_parts, ← h, Cursor.advance_offset] at tiled
    have whole := Tiled.blank_append isBlank_of_mem_skipped tiled
    rwa [List.takeWhile_append_dropWhile] at whole

/-! ## By offsets into the source -/

/-- Whether a token covers the character at an index of the source. -/
def Token.Covers (t : Token) (i : Nat) : Prop :=
  t.offset ≤ i ∧ (i : Int) < t.offset + t.text.length

/-- Tokens that tile a source: the one for the end of the input is last, all others are pieces of
the source where they say they are, no token reaches into a later one, and a character that no
token covers is a blank. -/
structure Tiles (source : List Char) (ts : List Token) : Prop where
  ending : ∃ (others : List Token) (last : Token), ts = others ++ [last] ∧
    (∀ t ∈ others, t.kind ≠ .eof) ∧ last.kind = .eof ∧ last.text = "" ∧ last.offset = source.length
  slice : ∀ t ∈ ts, t.kind ≠ .eof → t.text ≠ "" ∧
    ∃ i : Nat, t.offset = i ∧ t.text.toList = (source.drop i).take t.text.length
  ordered : ts.Pairwise fun (t u : Token) => t.offset + t.text.length ≤ u.offset
  uncovered : ∀ i c, source[i]? = some c → (∀ t ∈ ts, ¬t.Covers i) → Text.isBlank c = true

namespace Tiled

variable {n : Nat} {input : List Char} {ts : List Token}

theorem exists_ending (h : Tiled n input ts) :
    ∃ (others : List Token) (last : Token), ts = others ++ [last] ∧
      (∀ t ∈ others, t.kind ≠ .eof) ∧ last.kind = .eof ∧ last.text = "" ∧
      last.offset = (n + input.length : Nat) := by
  induction h with
  | @last n gap t _ kind text offset => exact ⟨[], t, rfl, by simp, kind, text, offset⟩
  | @cons n gap text rest t ts _ kind _ _ _ _ ih =>
    obtain ⟨others, last, rfl, hothers, hkind, htext, hoffset⟩ := ih
    refine ⟨t :: others, last, rfl, ?_, hkind, htext, ?_⟩
    · intro u hu
      rcases List.mem_cons.1 hu with rfl | hu
      · exact kind
      · exact hothers u hu
    · rw [hoffset]
      simp only [List.length_append]
      omega

/-- A token other than the end of the input is the piece of the input at its offset. -/
theorem exists_slice (h : Tiled n input ts) : ∀ t ∈ ts, t.kind ≠ .eof → t.text ≠ "" ∧
    ∃ i : Nat, t.offset = (n + i : Nat) ∧ t.text.toList = (input.drop i).take t.text.length := by
  induction h with
  | last _ kind _ _ =>
    intro t ht hne
    rw [List.mem_singleton.1 ht] at hne
    exact absurd kind hne
  | @cons n gap text rest t ts _ _ spelled ne_nil offset _ ih =>
    intro u hu hne
    rcases List.mem_cons.1 hu with rfl | hu
    · refine ⟨?_, gap.length, offset, ?_⟩
      · rw [spelled]
        intro he
        exact ne_nil (String.ofList_injective (he.trans String.ofList_nil.symm))
      · rw [spelled, String.length_ofList, String.toList_ofList, List.append_assoc,
          List.drop_left, List.take_left]
    · obtain ⟨htext, i, hi, hslice⟩ := ih u hu hne
      refine ⟨htext, gap.length + text.length + i, ?_, ?_⟩
      · rw [hi]
        omega
      · rw [hslice, ← List.drop_drop, ← List.length_append, List.drop_left]

theorem pairwise_le (h : Tiled n input ts) :
    ts.Pairwise fun (t u : Token) => t.offset + t.text.length ≤ u.offset := by
  induction h with
  | last => exact List.pairwise_singleton _ _
  | @cons n gap text rest t ts _ _ spelled _ offset tail ih =>
    refine List.pairwise_cons.2 ⟨?_, ih⟩
    intro u hu
    have := tail.le_offset u hu
    rw [offset, spelled, String.length_ofList]
    omega

/-- A character that no token covers stands in a gap. -/
theorem isBlank_of_uncovered (h : Tiled n input ts) : ∀ i c, input[i]? = some c →
    (∀ t ∈ ts, ¬t.Covers (n + i)) → Text.isBlank c = true := by
  induction h with
  | last blank => exact fun i c hc _ => blank c (List.mem_of_getElem? hc)
  | @cons n gap text rest t ts blank _ spelled _ offset _ ih =>
    intro i c hc huncovered
    by_cases hgap : i < gap.length
    · rw [List.append_assoc, List.getElem?_append_left hgap] at hc
      exact blank c (List.mem_of_getElem? hc)
    · have hpast : ¬i < (gap ++ text).length := by
        intro hlt
        rw [List.length_append] at hlt
        refine huncovered t List.mem_cons_self ⟨?_, ?_⟩
        · rw [offset]
          omega
        · rw [offset, spelled, String.length_ofList]
          omega
      rw [List.getElem?_append_right (Nat.le_of_not_lt hpast)] at hc
      refine ih _ c hc ?_
      intro u hu hcovers
      refine huncovered u (List.mem_cons_of_mem t hu) ?_
      rw [List.length_append] at hcovers hpast
      rwa [show n + i = n + gap.length + text.length + (i - (gap.length + text.length)) by omega]

/-- Tokens laid along a source from its start tile it. -/
theorem tiles {source : List Char} (h : Tiled 0 source ts) : Tiles source ts where
  ending := by simpa only [Nat.zero_add] using h.exists_ending
  slice := by simpa only [Nat.zero_add] using h.exists_slice
  ordered := h.pairwise_le
  uncovered := by simpa only [Nat.zero_add] using h.isBlank_of_uncovered

end Tiled

/-- **The tokens of a page tile its source.** -/
theorem tokenize_tiles (source : String) (file : Option String) :
    Tiles source.toList (tokenize source file) :=
  (scanFrom_tiled file .markup .start source.toList).tiles

end PageLint
