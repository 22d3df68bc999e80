import PageLint.Text.Lower
import PageLint.Text.Search

/-!
# Folding and lowering

The words that start a script, end it or start a doctype are looked for in the basic letters only:
capitals are folded and nothing else. Lowering the text in full would find them in the same places.
A capital dotted i becomes two characters, no form of sigma is a basic letter, and of all other
characters only the Kelvin sign lowers to one, which is in none of the words.

* `eq_of_mem_lowerChar` — a basic character that is no letter is the lower case of itself only
* `lower_lower` — lowering twice is lowering once
* `startsWithFolded_iff_lower` — a word is found by folding exactly when it is found by lowering
-/

namespace PageLint.Text

/-- A word that folding finds: basic characters that are no capitals, and no `k`. -/
def isFoldable (word : List Char) : Bool :=
  word.all fun c => decide (c.toNat < 128) && c.toLower == c && c != 'k'

/-! ## Basic characters among the lowered ones -/

/-- A run holds a code point that is one of its steps. -/
def CaseShift.Holds (s : CaseShift) (n : Nat) : Prop :=
  n ≤ s.last ∧ ∃ i, n = s.first + s.step * i

/-- A code point stays as it is or is moved by a run that holds it. -/
theorem shiftedCode_holds (runs : List CaseShift) (n : Nat) :
    shiftedCode runs n = n ∨
      ∃ s ∈ runs, s.Holds n ∧ shiftedCode runs n = ((n : Int) + s.distance).toNat := by
  induction runs with
  | nil => exact Or.inl rfl
  | cons s runs ih =>
    rw [shiftedCode]
    split
    · exact Or.inl rfl
    split
    · rename_i hfirst hrun
      simp only [Bool.and_eq_true, decide_eq_true_eq, beq_iff_eq] at hrun
      have hsteps := Nat.div_add_mod (n - s.first) s.step
      exact Or.inr ⟨s, List.mem_cons_self, ⟨hrun.1, (n - s.first) / s.step, by omega⟩, rfl⟩
    · rcases ih with h | ⟨s', hs', h⟩
      · exact Or.inl h
      · exact Or.inr ⟨s', List.mem_cons_of_mem s hs', h⟩

/-- A code point stays as it is or is moved by a run that reaches over it. -/
theorem shiftedCode_cases (runs : List CaseShift) (n : Nat) :
    shiftedCode runs n = n ∨
      ∃ s ∈ runs, s.first ≤ n ∧ n ≤ s.last ∧
        shiftedCode runs n = ((n : Int) + s.distance).toNat := by
  rcases shiftedCode_holds runs n with h | ⟨s, hs, ⟨hlast, i, hn⟩, h⟩
  · exact Or.inl h
  · exact Or.inr ⟨s, hs, by omega, hlast, h⟩

/-- The runs above the basic characters stay above them, the Kelvin sign apart. -/
theorem caseShifts_above : ∀ s ∈ caseShifts, s.last < 128 ∨ 128 ≤ (s.first : Int) + s.distance ∨
    s.first = 0x212A ∧ s.last = 0x212A ∧ s.distance = -8383 := by
  decide +kernel

/-- No run leads to a code point that is no character. -/
theorem caseShifts_valid : ∀ s ∈ caseShifts, 0 ≤ (s.first : Int) + s.distance ∧
    ((s.last : Int) + s.distance < 0xD800 ∨
      0xDFFF < (s.first : Int) + s.distance ∧ (s.last : Int) + s.distance < 0x110000) := by
  decide +kernel

theorem shiftedCode_isValidChar {n : Nat} (hn : n.isValidChar) :
    (shiftedCode caseShifts n).isValidChar := by
  rcases shiftedCode_cases caseShifts n with h | ⟨s, hs, hfirst, hlast, h⟩
  · rwa [h]
  · obtain ⟨hpos, hvalid⟩ := caseShifts_valid s hs
    rw [h]
    rcases hvalid with hlow | ⟨hhigh, htop⟩
    · exact Or.inl (by omega)
    · exact Or.inr ⟨by omega, by omega⟩

/-- Beyond the basic characters only the Kelvin sign lowers to one of them. -/
theorem shiftedCode_above {n : Nat} (hn : 128 ≤ n) :
    128 ≤ shiftedCode caseShifts n ∨ shiftedCode caseShifts n = 'k'.toNat := by
  rcases shiftedCode_cases caseShifts n with h | ⟨s, hs, hfirst, hlast, h⟩
  · omega
  · rcases caseShifts_above s hs with hbelow | habove | ⟨hf, hl, hd⟩
    · omega
    · omega
    · have hkelvin : n = 0x212A := by omega
      subst hkelvin
      exact Or.inr (by decide +kernel)

/-- A basic character lowers to the folded one. -/
theorem shiftedCode_below : ∀ n < 128, Char.ofNat (shiftedCode caseShifts n) =
    (Char.ofNat n).toLower := by
  decide +kernel

/-- A basic character lowers to the folded one, wherever it stands. -/
theorem lowerChar_basic {c : Char} (hc : c.toNat < 128) (before after : List Char) :
    lowerChar before c after = [c.toLower] := by
  have hdotted : (c == '\u0130') = false := by
    rw [beq_eq_false_iff_ne]
    rintro rfl
    exact absurd hc (by decide)
  have hsigma : (c == '\u03A3') = false := by
    rw [beq_eq_false_iff_ne]
    rintro rfl
    exact absurd hc (by decide)
  have hlower := shiftedCode_below c.toNat hc
  rw [Char.ofNat_toNat] at hlower
  rw [lowerChar, hdotted, hsigma, hlower]
  rfl

/-- A character that lowers to basic characters other than `k` lowers to the folded one. -/
theorem lowerChar_of_basic {before after : List Char} {c : Char}
    (h : ∀ d ∈ lowerChar before c after, d.toNat < 128 ∧ d ≠ 'k') :
    lowerChar before c after = [c.toLower] := by
  by_cases hc : c.toNat < 128
  · exact lowerChar_basic hc before after
  · -- Beyond the basic characters every way of lowering leads out of them.
    exfalso
    unfold lowerChar at h
    split at h
    · exact absurd (h '\u0307' (by simp)).1 (by decide)
    split at h
    · split at h
      · exact absurd (h '\u03C2' (by simp)).1 (by decide)
      · exact absurd (h '\u03C3' (by simp)).1 (by decide)
    · obtain ⟨hlt, hk⟩ := h _ List.mem_cons_self
      rcases shiftedCode_above (Nat.le_of_not_lt hc) with habove | hkelvin
      · have hvalid : (shiftedCode caseShifts c.toNat).isValidChar :=
          shiftedCode_isValidChar c.valid
        rw [Char.ofNat, dif_pos hvalid] at hlt
        exact absurd habove (Nat.not_le_of_lt hlt)
      · rw [hkelvin, Char.ofNat_toNat] at hk
        exact hk rfl

/-- Only the basic capital letters have a small one. -/
theorem capital_of_toLower_ne {c : Char} (h : c.toLower ≠ c) : 65 ≤ c.toNat ∧ c.toNat ≤ 90 := by
  unfold Char.toLower at h
  split at h
  · rename_i hcapital
    exact ⟨UInt32.le_iff_toNat_le.1 hcapital.1, UInt32.le_iff_toNat_le.1 hcapital.2⟩
  · exact absurd rfl h

/-- A capital dotted i lowers to two characters and all others to one, and no capital letter is its
own lower case. -/
theorem lowerChar_cases (before : List Char) (c : Char) (after : List Char) :
    c = '\u0130' ∧ lowerChar before c after = ['i', '\u0307'] ∨
      ∃ d, lowerChar before c after = [d] ∧ (d = c → c.toLower = c) := by
  unfold lowerChar
  split
  · rename_i hdotted
    exact Or.inl ⟨by simpa using hdotted, rfl⟩
  refine Or.inr ?_
  split
  · rename_i hsigma
    have hc : c = '\u03A3' := by simpa using hsigma
    have hsame : c.toLower = c := by rw [hc]; decide
    split
    · exact ⟨_, rfl, fun _ => hsame⟩
    · exact ⟨_, rfl, fun _ => hsame⟩
  · refine ⟨_, rfl, fun heq => Classical.byContradiction fun hne => ?_⟩
    obtain ⟨hlo, hhi⟩ := capital_of_toLower_ne hne
    have hshift : ∀ n < 91, 65 ≤ n →
        shiftedCode caseShifts n = n + 32 ∧ (Char.ofNat (n + 32)).toNat = n + 32 := by
      decide +kernel
    obtain ⟨hcode, hnat⟩ := hshift c.toNat (by omega) hlo
    have := congrArg Char.toNat heq
    rw [hcode, hnat] at this
    omega

/-- A basic character that is no letter is the lower case of itself only. -/
theorem eq_of_mem_lowerChar {before after : List Char} {c d : Char}
    (hd : d.toNat < 128 ∧ d.isAlpha = false) (h : d ∈ lowerChar before c after) : c = d := by
  rcases lowerChar_cases before c after with ⟨-, hdotted⟩ | ⟨e, he, -⟩
  · rw [hdotted] at h
    rcases (by simpa using h : d = 'i' ∨ d = '\u0307') with rfl | rfl
    · exact absurd hd.2 (by decide)
    · exact absurd hd.1 (by decide)
  · obtain rfl : d = e := by rwa [he, List.mem_singleton] at h
    have hk : d ≠ 'k' := by
      rintro rfl
      exact absurd hd.2 (by decide)
    have hlower : lowerChar before c after = [c.toLower] :=
      lowerChar_of_basic (by rw [he, List.forall_mem_singleton]; exact ⟨hd.1, hk⟩)
    have hc : c.toLower = d := (List.cons.inj (hlower.symm.trans he)).1
    by_cases hsame : c.toLower = c
    · exact hsame.symm.trans hc
    · -- Capital letters lower to letters.
      have hletter : ∀ n < 91, 65 ≤ n → (Char.ofNat n).toLower.isAlpha = true := by decide
      obtain ⟨hlo, hhi⟩ := capital_of_toLower_ne hsame
      have halpha := hletter c.toNat (by omega) hlo
      rw [Char.ofNat_toNat, hc, hd.2] at halpha
      exact absurd halpha (by decide)

/-! ## Lowering twice -/

/-- Whether a run leads past another: below it, above it, or between its steps. -/
def CaseShift.leadsPast (s s' : CaseShift) : Bool :=
  let low := ((s.first : Int) + s.distance).toNat
  let high := ((s.last : Int) + s.distance).toNat
  high.blt s'.first || s'.last.blt low ||
    (s.step.beq 2 || low.beq high) && s'.step.beq 2 && ((low + s'.first) % 2).beq 1

/-- What a run is led past holds nothing that the run leads to. -/
theorem CaseShift.not_holds {s s' : CaseShift} (h : s.leadsPast s' = true)
    (hpos : 0 ≤ (s.first : Int) + s.distance) {n : Nat} (hn : s.Holds n) :
    ¬ s'.Holds ((n : Int) + s.distance).toNat := by
  obtain ⟨hlast, i, rfl⟩ := hn
  rintro ⟨hlast', j, hj⟩
  simp only [leadsPast, Bool.or_eq_true, Bool.and_eq_true, Nat.blt_eq, Nat.beq_eq] at h
  rcases h with (hbelow | habove) | ⟨⟨hsteps, hstep'⟩, hparity⟩
  · omega
  · omega
  · rw [hstep'] at hj
    rcases hsteps with hstep | hone
    · rw [hstep] at hj hlast hlast'
      omega
    · omega

/-- The characters that lower in a way of their own, as runs. -/
def ownLowerings : List CaseShift := [⟨0x130, 0x130, 1, 0⟩, ⟨0x3A3, 0x3A3, 1, 0⟩]

/-- Every run leads past all runs, and past the characters that lower in a way of their own. -/
theorem caseShifts_leadsPast : caseShifts.all (fun s =>
    (ownLowerings ++ caseShifts).all fun s' => s.leadsPast s') = true := by
  decide +kernel

/-- A code point that lowering leaves as it is. -/
structure IsLoweredCode (n : Nat) : Prop where
  ne_dotted : n ≠ 0x130
  ne_sigma : n ≠ 0x3A3
  shiftedCode_eq : shiftedCode caseShifts n = n

/-- A code point that does not lower in a way of its own is lowered once it has been shifted. -/
theorem isLoweredCode_shiftedCode {n : Nat} (hdotted : n ≠ 0x130) (hsigma : n ≠ 0x3A3) :
    IsLoweredCode (shiftedCode caseShifts n) := by
  rcases shiftedCode_holds caseShifts n with h | ⟨s, hs, hn, h⟩
  · exact ⟨by rwa [h], by rwa [h], by rw [h, h]⟩
  · have hpast := List.all_eq_true.1 (List.all_eq_true.1 caseShifts_leadsPast s hs)
    have hmiss : ∀ s' ∈ ownLowerings ++ caseShifts, ¬ s'.Holds (shiftedCode caseShifts n) := by
      intro s' hs'
      rw [h]
      exact CaseShift.not_holds (hpast s' hs') (caseShifts_valid s hs).1 hn
    refine ⟨fun heq => ?_, fun heq => ?_, ?_⟩
    · exact hmiss ⟨0x130, 0x130, 1, 0⟩ (by simp [ownLowerings]) ⟨Nat.le_of_eq heq, 0, heq⟩
    · exact hmiss ⟨0x3A3, 0x3A3, 1, 0⟩ (by simp [ownLowerings]) ⟨Nat.le_of_eq heq, 0, heq⟩
    · rcases shiftedCode_holds caseShifts (shiftedCode caseShifts n) with hsame | ⟨s', hs', hn', -⟩
      · exact hsame
      · exact absurd hn' (hmiss s' (List.mem_append_right _ hs'))

/-- The characters of a lowered text stay as they are when they are lowered again. -/
theorem isLoweredCode_of_mem_lowerChar {before after : List Char} {c d : Char}
    (h : d ∈ lowerChar before c after) : IsLoweredCode d.toNat := by
  unfold lowerChar at h
  split at h
  · rcases (by simpa using h : d = 'i' ∨ d = '\u0307') with rfl | rfl
    · exact ⟨by decide, by decide, by decide +kernel⟩
    · exact ⟨by decide, by decide, by decide +kernel⟩
  split at h
  · split at h <;>
    · obtain rfl := List.mem_singleton.1 h
      exact ⟨by decide, by decide, by decide +kernel⟩
  · rename_i hdotted hsigma
    have hne : ∀ e : Char, (c == e) ≠ true → c.toNat ≠ e.toNat := by
      intro e he heq
      exact he (by rw [← Char.ofNat_toNat c, heq, Char.ofNat_toNat, beq_self_eq_true])
    have hvalid : (shiftedCode caseShifts c.toNat).isValidChar := shiftedCode_isValidChar c.valid
    have hcode : (Char.ofNat (shiftedCode caseShifts c.toNat)).toNat =
        shiftedCode caseShifts c.toNat := by
      rw [Char.ofNat, dif_pos hvalid]
      rfl
    obtain rfl := List.mem_singleton.1 h
    rw [hcode]
    exact isLoweredCode_shiftedCode (hne _ hdotted) (hne _ hsigma)

theorem lowerChar_of_isLoweredCode {c : Char} (h : IsLoweredCode c.toNat)
    (before after : List Char) : lowerChar before c after = [c] := by
  have hdotted : (c == '\u0130') = false := by
    rw [beq_eq_false_iff_ne]
    rintro rfl
    exact h.ne_dotted rfl
  have hsigma : (c == '\u03A3') = false := by
    rw [beq_eq_false_iff_ne]
    rintro rfl
    exact h.ne_sigma rfl
  rw [lowerChar, hdotted, hsigma, h.shiftedCode_eq, Char.ofNat_toNat]
  rfl

theorem isLoweredCode_of_mem_lowerAfter {before cs : List Char} {d : Char}
    (h : d ∈ lowerAfter before cs) : IsLoweredCode d.toNat := by
  induction cs generalizing before with
  | nil => cases h
  | cons c cs ih =>
    rcases List.mem_append.1 h with h | h
    · exact isLoweredCode_of_mem_lowerChar h
    · exact ih h

theorem lowerAfter_of_isLoweredCode {cs : List Char} (h : ∀ c ∈ cs, IsLoweredCode c.toNat)
    (before : List Char) : lowerAfter before cs = cs := by
  induction cs generalizing before with
  | nil => rfl
  | cons c cs ih =>
    rw [List.forall_mem_cons] at h
    rw [lowerAfter, lowerChar_of_isLoweredCode h.1, ih h.2, List.singleton_append]

/-- **Lowering a lowered text changes nothing.** -/
theorem lower_lower (cs : List Char) : lower (lower cs) = lower cs :=
  lowerAfter_of_isLoweredCode (fun _ => isLoweredCode_of_mem_lowerAfter) []

/-! ## Words -/

theorem isFoldable_cons {w : Char} {word : List Char} (h : isFoldable (w :: word) = true) :
    (w.toNat < 128 ∧ w.toLower = w ∧ w ≠ 'k') ∧ isFoldable word = true := by
  simpa [isFoldable, and_assoc] using h

theorem mem_of_isFoldable {word : List Char} (h : isFoldable word = true) :
    ∀ d ∈ word, d.toNat < 128 ∧ d ≠ 'k' := by
  intro d hd
  have hfold := List.all_eq_true.1 h d hd
  simp only [Bool.and_eq_true, decide_eq_true_eq, bne_iff_ne] at hfold
  exact ⟨hfold.1.1, hfold.2⟩

/-- Only basic characters fold to basic characters. -/
theorem basic_of_toLower {c : Char} (h : c.toLower.toNat < 128) : c.toNat < 128 := by
  unfold Char.toLower at h
  split at h
  · rename_i hcapital
    have hle : c.toNat ≤ 'Z'.toNat := UInt32.le_iff_toNat_le.1 hcapital.2
    exact Nat.lt_of_le_of_lt hle (by decide)
  · exact h

theorem lowerAfter_of_folded {word : List Char} (hword : isFoldable word = true)
    {cs : List Char} (h : cs.map Char.toLower = word) (before : List Char) :
    lowerAfter before cs = word := by
  induction cs generalizing word before with
  | nil => exact h
  | cons c cs ih =>
    subst h
    obtain ⟨⟨hbasic, -, -⟩, htail⟩ := isFoldable_cons hword
    rw [lowerAfter, lowerChar_basic (basic_of_toLower hbasic), ih htail rfl]
    rfl

theorem folded_of_lowerAfter {word : List Char} (hword : isFoldable word = true)
    {cs before : List Char} (h : lowerAfter before cs = word) : cs.map Char.toLower = word := by
  induction cs generalizing word before with
  | nil => exact h
  | cons c cs ih =>
    rw [lowerAfter] at h
    have hbasic : ∀ d ∈ lowerChar before c cs, d.toNat < 128 ∧ d ≠ 'k' := by
      intro d hd
      exact mem_of_isFoldable hword d (h ▸ List.mem_append_left _ hd)
    rw [lowerChar_of_basic hbasic] at h
    subst h
    rw [List.map_cons, ih (isFoldable_cons hword).2 rfl]
    rfl

/-- **A word is found by folding exactly when it is found by lowering in full.** -/
theorem startsWithFolded_iff_lower (word : List Char) (hword : isFoldable word = true)
    (cs : List Char) :
    startsWithFolded word cs = true ↔ lower (cs.take word.length) = word := by
  rw [startsWithFolded, beq_iff_eq]
  constructor
  · intro h
    exact lowerAfter_of_folded hword h []
  · intro h
    exact folded_of_lowerAfter hword h

end PageLint.Text
