import Mathlib.Data.List.DropRight
import PageLint.Proofs.Prefixes.Lengths

/-!
# Pages that end behind a token

A page that is broken off right behind one of its tokens has the same tokens up to there, and then
the end of the input. So no token depends on what stands behind it.

* `Cut.within` — a cut of an input that ends early
* `Mode.cut_take` — the first cut is the same as long as its text is there
* `scanFrom_take`, `tokenize_take` — the tokens of a page that ends behind one of them
-/

namespace PageLint

theorem dropWhile_take (p : Char → Bool) (m : Nat) (cs : List Char) :
    (cs.take m).dropWhile p = (cs.dropWhile p).take (m - (cs.takeWhile p).length) := by
  have hsplit : (cs.take m).takeWhile p ++ (cs.take m).dropWhile p =
      (cs.takeWhile p).take m ++ (cs.dropWhile p).take (m - (cs.takeWhile p).length) := by
    rw [List.takeWhile_append_dropWhile, ← List.take_append, List.takeWhile_append_dropWhile]
  rw [← List.take_takeWhile] at hsplit
  exact List.append_cancel_left hsplit

/-! ## Cuts of an input that ends early -/

namespace Cut

/-- A cut when the input ends after a number of characters, behind the text of the cut. -/
def within (c : Cut) (m : Nat) : Cut :=
  { c with
    trail := c.trail.take (m - (c.lead.length + c.text.length))
    rest := c.rest.take (m - (c.lead.length + c.text.length + c.trail.length)) }

theorem within_of_le {c : Cut} {m : Nat} (h : c.parts.length ≤ m) : c.within m = c := by
  simp only [parts, List.length_append] at h
  rw [within, List.take_of_length_le (by omega), List.take_of_length_le (by omega)]

/-- The input ends right behind the text, -/
theorem within_text (c : Cut) :
    c.within (c.lead.length + c.text.length) = { c with trail := [], rest := [] } := by
  rw [within, Nat.sub_self, Nat.sub_eq_zero_of_le (Nat.le_add_right _ _), List.take_zero,
    List.take_zero]

/-- or in what the cut leaves. -/
theorem within_rest (c : Cut) (n : Nat) :
    c.within (c.lead.length + c.text.length + c.trail.length + n) =
      { c with rest := c.rest.take n } := by
  rw [within, List.take_of_length_le (by omega), Nat.add_sub_cancel_left]

theorem parts_within {c : Cut} {m : Nat} (h : c.lead.length + c.text.length ≤ m) :
    (c.within m).parts = c.parts.take m := by
  have hlead : c.lead.take m = c.lead := List.take_of_length_le (by omega)
  have htext : c.text.take (m - c.lead.length) = c.text := List.take_of_length_le (by omega)
  simp only [parts, within, List.append_assoc, List.take_append, hlead, htext, Nat.sub_sub]

theorem ofLength_take (kind : TokenKind) {n m : Nat} (h : n ≤ m) (input : List Char) :
    ofLength kind n (input.take m) = (ofLength kind n input).within m := by
  simp only [ofLength, within, List.length_nil, List.take_nil, List.take_take, Nat.min_eq_left h,
    List.drop_take, List.length_take, mk.injEq, true_and]
  by_cases hn : n ≤ input.length
  · rw [Nat.min_eq_left hn]
    congr 1
    omega
  · rw [List.drop_eq_nil_of_le (by omega), List.take_nil, List.take_nil]

end Cut

namespace Text

/-- The blanks that a text ends with. -/
def blanksBehind (cs : List Char) : List Char := (cs.reverse.takeWhile isBlank).reverse

/-- Trimming takes the blanks behind a text away, and only them. -/
theorem trimRight_append_blanksBehind (cs : List Char) : trimRight cs ++ blanksBehind cs = cs := by
  rw [trimRight, blanksBehind, ← List.reverse_append, List.takeWhile_append_dropWhile,
    List.reverse_reverse]

theorem isBlank_of_mem_blanksBehind {cs : List Char} : ∀ c ∈ blanksBehind cs, isBlank c = true :=
  fun _ hc => List.mem_takeWhile_imp (List.mem_reverse.1 hc)

theorem trimRight_append_of_blank (cs : List Char) {blanks : List Char}
    (h : ∀ c ∈ blanks, isBlank c = true) : trimRight (cs ++ blanks) = trimRight cs := by
  rw [trimRight, List.reverse_append, List.dropWhile_append_of_pos (by simpa using h), trimRight]

theorem trimRight_trimRight (cs : List Char) : trimRight (trimRight cs) = trimRight cs := by
  simp only [trimRight, List.reverse_reverse, List.dropWhile_idempotent]

section BrokenOff

variable {cs : List Char} {m : Nat} (h : (trimRight cs).length ≤ m)

include h

theorem take_of_trimRight_le :
    cs.take m = trimRight cs ++ (blanksBehind cs).take (m - (trimRight cs).length) := by
  conv_lhs => rw [← trimRight_append_blanksBehind cs]
  rw [List.take_append, List.take_of_length_le h]

/-- A text that is broken off among the blanks behind it is trimmed to the same, -/
theorem trimRight_take : trimRight (cs.take m) = trimRight cs := by
  rw [take_of_trimRight_le h, trimRight_append_of_blank _ fun c hc =>
    isBlank_of_mem_blanksBehind c (List.mem_of_mem_take hc), trimRight_trimRight]

/-- and has fewer blanks behind. -/
theorem blanksBehind_take :
    blanksBehind (cs.take m) = (blanksBehind cs).take (m - (trimRight cs).length) := by
  have hall := trimRight_append_blanksBehind (cs.take m)
  rw [trimRight_take h] at hall
  exact List.append_cancel_left (hall.trans (take_of_trimRight_le h))

end BrokenOff

end Text

namespace Cut

/-- Text that ends early, behind the trimmed text or among the blanks that follow it. -/
theorem ofText_take {raw : List Char} (rest : List Char) {m : Nat}
    (h : (ofText raw rest).lead.length + (ofText raw rest).text.length ≤ m) :
    ofText (raw.take m) (rest.take (m - raw.length)) = (ofText raw rest).within m := by
  have hlead : (raw.takeWhile Text.isBlank).length ≤ m := Nat.le_of_add_right_le h
  have htext : (Text.trimRight (Text.trimLeft raw)).length ≤
      m - (raw.takeWhile Text.isBlank).length := Nat.le_sub_of_add_le' h
  have hbody : Text.trimLeft (raw.take m) =
      (Text.trimLeft raw).take (m - (raw.takeWhile Text.isBlank).length) := dropWhile_take ..
  have hlength : raw.length = (raw.takeWhile Text.isBlank).length +
      (Text.trimRight (Text.trimLeft raw)).length +
      (Text.blanksBehind (Text.trimLeft raw)).length := by
    rw [Nat.add_assoc, ← List.length_append, Text.trimRight_append_blanksBehind,
      ← List.length_append, Text.trimLeft, List.takeWhile_append_dropWhile]
  have hempty : (Text.trimLeft (raw.take m)).isEmpty = (Text.trimLeft raw).isEmpty := by
    rw [hbody]
    cases hraw : Text.trimLeft raw with
    | nil => rw [List.take_nil]
    | cons c cs =>
      have hkind : (ofText raw rest).kind = some .text := by simp [ofText, hraw]
      have hpos := List.length_pos_iff.2 ((framed_ofText raw rest).text_ne_nil hkind)
      obtain ⟨k, hk⟩ := Nat.exists_eq_add_of_le' (Nat.lt_of_lt_of_le hpos htext)
      rw [hk, List.take_succ_cons]
      rfl
  show Cut.mk ((raw.take m).takeWhile Text.isBlank)
    (if (Text.trimLeft (raw.take m)).isEmpty then none else some .text)
    (Text.trimRight (Text.trimLeft (raw.take m))) (Text.blanksBehind (Text.trimLeft (raw.take m)))
    (rest.take (m - raw.length)) = _
  rw [hempty, takeWhile_take _ hlead, hbody, Text.trimRight_take htext,
    Text.blanksBehind_take htext, Nat.sub_sub, hlength]
  rfl

end Cut

/-- **The first cut of an input** is the same as long as the input goes on through its text. -/
theorem Mode.cut_take (mode : Mode) {c : Char} {cs : List Char} {m : Nat}
    (h : (mode.cut c cs).lead.length + (mode.cut c cs).text.length ≤ m + 1) :
    mode.cut c (cs.take m) = (mode.cut c cs).within (m + 1) := by
  by_cases hlength : cs.length ≤ m
  · rw [List.take_of_length_le hlength, Cut.within_of_le]
    rw [mode.cut_parts]
    exact Nat.succ_le_succ hlength
  -- A length is at most that of the text, as the input goes on behind it.
  have hshort : ∀ n, ((c :: cs).take n).length ≤ m + 1 → n ≤ m + 1 := by
    intro n hn
    rw [List.length_take, List.length_cons] at hn
    omega
  cases mode with
  | markup =>
    show markupCut (c :: cs.take m) = (markupCut (c :: cs)).within (m + 1)
    rw [Mode.cut] at h
    have hhead : ((c :: cs).take (m + 1)).head? = (c :: cs).head? := rfl
    rw [← List.take_succ_cons]
    unfold markupCut at h ⊢
    rw [hhead]
    split at h
    · rename_i hangle
      have hn : (angleToken (c :: cs)).2 ≤ m + 1 := hshort _ (by simpa [Cut.ofLength] using h)
      rw [if_pos hangle, if_pos hangle, angleToken_take hn]
      exact Cut.ofLength_take _ hn _
    · rename_i hangle
      rw [if_neg hangle, if_neg hangle, ← List.take_takeWhile, dropWhile_take]
      exact Cut.ofText_take _ h
  | script =>
    show scriptCut c (cs.take m) = (scriptCut c cs).within (m + 1)
    have hn : (scriptToken c cs).2 ≤ m + 1 :=
      hshort _ (by simpa [Mode.cut, scriptCut, Cut.ofLength] using h)
    rw [scriptCut, scriptToken_take hn, ← List.take_succ_cons]
    exact Cut.ofLength_take _ hn _

/-! ## Scanning an input that ends early -/

/-- A cut takes something, the blanks around its text included. -/
theorem Mode.cut_pos (mode : Mode) (c : Char) (cs : List Char) :
    0 < (mode.cut c cs).lead.length + (mode.cut c cs).text.length +
      (mode.cut c cs).trail.length := by
  have hparts := congrArg List.length (mode.cut_parts c cs)
  have hrest := mode.cut_rest_lt c cs
  simp only [Cut.parts, List.length_append] at hparts
  omega

section Step

variable {input cs : List Char} {c : Char} (h : input.dropWhile isSkipped = c :: cs)
  (file : Option String) (mode : Mode) (place : Cursor)

include h

/-- One step of scanning, when the input ends behind the text of its first cut. -/
theorem scanFrom_take_cons {n : Nat} (hn : 0 < n)
    (hcut : (mode.cut c cs).lead.length + (mode.cut c cs).text.length ≤ n) :
    let cut := (mode.cut c cs).within n
    let start := (place.advance (input.takeWhile isSkipped)).advance cut.lead
    (scanFrom file mode place (input.take ((input.takeWhile isSkipped).length + n))).tokens =
      (cut.token? file start).toList ++ (scanFrom file (mode.after cut.kind)
        ((start.advance cut.text).advance cut.trail) cut.rest).tokens := by
  obtain ⟨m, rfl⟩ := Nat.exists_eq_add_of_le' hn
  have hskip : (input.take ((input.takeWhile isSkipped).length + (m + 1))).takeWhile isSkipped =
      input.takeWhile isSkipped := takeWhile_take _ (Nat.le_add_right _ _)
  have hrest : (input.take ((input.takeWhile isSkipped).length + (m + 1))).dropWhile isSkipped =
      c :: cs.take m := by
    rw [dropWhile_take, Nat.add_sub_cancel_left, h, List.take_succ_cons]
  rw [scanFrom_cons hrest, hskip, mode.cut_take hcut]

/-- Where that input ends. -/
theorem advance_take_cons {n : Nat}
    (hcut : (mode.cut c cs).lead.length + (mode.cut c cs).text.length ≤ n) :
    let cut := (mode.cut c cs).within n
    let start := (place.advance (input.takeWhile isSkipped)).advance cut.lead
    place.advance (input.take ((input.takeWhile isSkipped).length + n)) =
      ((start.advance cut.text).advance cut.trail).advance cut.rest := by
  have hinput : input = input.takeWhile isSkipped ++ (mode.cut c cs).parts := by
    rw [mode.cut_parts, ← h, List.takeWhile_append_dropWhile]
  have htake : input.take ((input.takeWhile isSkipped).length + n) =
      input.takeWhile isSkipped ++ ((mode.cut c cs).within n).parts := by
    rw [Cut.parts_within hcut]
    exact (congrArg (List.take _) hinput).trans (List.take_length_add_append ..)
  rw [htake, Cut.parts]
  simp only [Cursor.advance_append]

/-- An input that ends with the text of its first cut. -/
theorem scanFrom_take_text {kind : TokenKind} (hkind : (mode.cut c cs).kind = some kind) :
    let cut := mode.cut c cs
    let start := (place.advance (input.takeWhile isSkipped)).advance cut.lead
    let front := input.take
      ((input.takeWhile isSkipped).length + (cut.lead.length + cut.text.length))
    (scanFrom file mode place front).tokens =
      [Token.at file start kind cut.text, Token.at file (place.advance front) .eof []] := by
  have htext := List.length_pos_iff.2 ((mode.cut_framed c cs).text_ne_nil hkind)
  dsimp only
  rw [scanFrom_take_cons h file mode place (Nat.add_pos_right _ htext) (Nat.le_refl _),
    advance_take_cons h mode place (Nat.le_refl _), Cut.within_text, Cut.token?, hkind,
    scanFrom_nil rfl]
  rfl

/-- An input that ends in what its first cut leaves. -/
theorem scanFrom_take_rest (n : Nat) :
    let cut := mode.cut c cs
    let start := (place.advance (input.takeWhile isSkipped)).advance cut.lead
    let stop := (start.advance cut.text).advance cut.trail
    let front := input.take ((input.takeWhile isSkipped).length +
      (cut.lead.length + cut.text.length + cut.trail.length + n))
    (scanFrom file mode place front).tokens = (cut.token? file start).toList ++
        (scanFrom file (mode.after cut.kind) stop (cut.rest.take n)).tokens ∧
      place.advance front = stop.advance (cut.rest.take n) := by
  have hpos := mode.cut_pos c cs
  dsimp only
  rw [scanFrom_take_cons h file mode place (by omega) (by omega),
    advance_take_cons h mode place (by omega), Cut.within_rest]
  exact ⟨rfl, rfl⟩

end Step

/-- No token reaches behind the input. -/
theorem Tiled.stop_le {n : Nat} {input : List Char} {ts : List Token} (h : Tiled n input ts) :
    ∀ t ∈ ts, t.stop ≤ (n + input.length : Nat) := by
  induction h with
  | last _ _ text offset =>
    intro t ht
    rw [List.mem_singleton.1 ht, Token.stop, offset, text]
    simp
  | @cons n gap text rest t ts _ _ spelled _ offset _ ih =>
    intro u hu
    simp only [List.length_append]
    rcases List.mem_cons.1 hu with rfl | hu
    · rw [Token.stop, offset, spelled, String.length_ofList]
      omega
    · have := ih u hu
      omega

/-- What comes behind the token that a page ends with: the end of the input, unless the token is
that itself. -/
def endBehind (file : Option String) (place : Cursor) (t : Token) : List Token :=
  if t.kind = .eof then [] else [Token.at file place .eof []]

/-- **An input that ends behind a token** has the tokens up to there, whatever mode and position
scanning starts in. -/
theorem scanFrom_take (file : Option String) (mode : Mode) (place : Cursor) (input : List Char) :
    ∀ (before after : List Token) (t : Token) (n : Nat),
      (scanFrom file mode place input).tokens = before ++ t :: after →
      t.stop = (place.offset + n : Nat) →
      (scanFrom file mode place (input.take n)).tokens =
        before ++ t :: endBehind file (place.advance (input.take n)) t := by
  fun_induction scanFrom file mode place input with
  | case1 mode place input start h =>
    intro before after t n hts hstop
    have hall : input.takeWhile isSkipped = input := by
      have hsplit := List.takeWhile_append_dropWhile (p := isSkipped) (l := input)
      rwa [h, List.append_nil] at hsplit
    cases before with
    | cons b before => simp at hts
    | nil =>
      obtain ⟨rfl, rfl⟩ := List.cons.inj hts
      have hn : n = input.length := by
        simp only [Token.stop, Token.at, start, hall, Cursor.advance_offset, String.length_ofList,
          List.length_nil] at hstop
        omega
      rw [hn, List.take_length, scanFrom_nil h]
      rfl
  | case2 mode place input place' c cs h cut start stop next hlt tail ih =>
    intro before after t n hts hstop
    have hstart : start.offset = place.offset + (input.takeWhile isSkipped).length +
        cut.lead.length := by
      simp only [start, place', Cursor.advance_offset]
    have hend : stop.offset = start.offset + cut.text.length + cut.trail.length := by
      simp only [stop, Cursor.advance_offset]
    have hcases : before = [] ∧ cut.token? file start = some t ∨
        ∃ before', before = (cut.token? file start).toList ++ before' ∧
          tail.tokens = before' ++ t :: after := by
      cases htoken : cut.token? file start with
      | none =>
        rw [htoken] at hts
        exact Or.inr ⟨before, rfl, hts⟩
      | some u =>
        rw [htoken] at hts
        cases before with
        | nil => exact Or.inl ⟨rfl, congrArg some (List.cons.inj hts).1⟩
        | cons b before =>
          obtain ⟨rfl, htail⟩ := List.cons.inj hts
          exact Or.inr ⟨before, rfl, htail⟩
    rcases hcases with ⟨rfl, htoken⟩ | ⟨before, rfl, htail⟩
    · -- The token is that of the cut.
      obtain ⟨kind, hkind, rfl⟩ := Option.map_eq_some_iff.1 htoken
      have hn : n = (input.takeWhile isSkipped).length + (cut.lead.length + cut.text.length) := by
        simp only [Token.stop, Token.at, String.length_ofList] at hstop
        omega
      have hkeep : (Token.at file start kind cut.text).kind ≠ .eof :=
        (mode.cut_framed c cs).kind_ne_eof hkind
      rw [hn, scanFrom_take_text h file mode place hkind, endBehind, if_neg hkeep]
      rfl
    · -- The token stands behind the cut.
      have hbehind : (stop.offset : Int) ≤ t.offset := by
        refine (scanFrom_tiled file next stop cut.rest).le_offset t ?_
        rw [htail]
        simp
      obtain ⟨k, hk⟩ : ∃ k, n = (input.takeWhile isSkipped).length +
          (cut.lead.length + cut.text.length + cut.trail.length) + k := by
        refine Nat.exists_eq_add_of_le ?_
        rw [Token.stop] at hstop
        omega
      have hstop' : t.stop = (stop.offset + k : Nat) := by omega
      obtain ⟨htokens, hplace⟩ := scanFrom_take_rest h file mode place k
      rw [hk, Nat.add_assoc, htokens, hplace, List.append_assoc]
      exact congrArg _ (ih before after t k htail hstop')

/-- **No token depends on what stands behind it.** A page that ends with one of its tokens has the
same tokens up to there and, unless that is the end of the input, the end of the input right
behind. -/
theorem tokenize_take (source : String) (file : Option String) {k : Nat} {t : Token}
    (h : (tokenize source file)[k]? = some t) :
    let front := source.toList.take t.stop.toNat
    tokenize (String.ofList front) file =
        (tokenize source file).take (k + 1) ++ endBehind file (Cursor.start.advance front) t ∧
      ((Cursor.start.advance front).offset : Int) = t.stop := by
  have htiled := scanFrom_tiled file .markup .start source.toList
  have hmem : t ∈ tokenize source file := List.mem_of_getElem? h
  have hstart : Cursor.start.offset = 0 := rfl
  have hle := htiled.stop_le t hmem
  have hnonneg : 0 ≤ t.stop := by
    have := htiled.le_offset t hmem
    rw [Token.stop]
    omega
  have hsplit : tokenize source file = (tokenize source file).take k ++ t ::
      (tokenize source file).drop (k + 1) := by
    obtain ⟨hk, rfl⟩ := List.getElem?_eq_some_iff.1 h
    rw [← List.drop_eq_getElem_cons hk, List.take_append_drop]
  constructor
  · have htake := scanFrom_take file .markup .start source.toList _ _ t t.stop.toNat hsplit
      (by omega)
    rw [List.take_add_one, h, List.append_assoc, tokenize, scan, String.toList_ofList]
    exact htake
  · rw [Cursor.advance_offset, List.length_take]
    omega

/-- A page with an exponent that is none, trimmed text and a script that is left open. -/
def brokenOffPage : String := "<p> a b  </p><script> x = 1e+"

theorem brokenOffPage_take : ∃ t, (tokenize brokenOffPage none)[6]? = some t ∧
    t.kind = .number ∧ t.stop = 27 ∧
    tokenize (String.ofList (brokenOffPage.toList.take t.stop.toNat)) none =
      (tokenize brokenOffPage none).take 7 ++
        endBehind none (Cursor.start.advance (brokenOffPage.toList.take t.stop.toNat)) t := by
  have ht : (tokenize brokenOffPage none)[6]? = some ⟨.number, "1", 1, 27, 26, none⟩ := by
    decide +kernel
  exact ⟨_, ht, rfl, rfl, (tokenize_take brokenOffPage none ht).1⟩

end PageLint
