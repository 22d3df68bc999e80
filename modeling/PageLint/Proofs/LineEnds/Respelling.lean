import PageLint.Proofs.Folding
import PageLint.Rule.Lookup

/-!
# Other spellings of the end of a line

A text with its newlines spelled in another way: with carriage returns in front of them, say. As far
as blanks, quotes and searches for words go, a text and its respelling are treated alike, so cutting
a respelled text gives the respelled pieces.

* `Text.respell` — every newline spelled as some other text
* `Text.LineEnd` — that text holds carriage returns and newlines only
* `Text.dropWhile_respell`, `isPrefixOf_respell`, `lower_respell` — cutting, searching, lower case
* `Text.respell_injective` — the newlines can be told from the respelled text
-/

namespace PageLint.Text

/-- A text with every newline spelled in another way. -/
def respell (w : List Char) (cs : List Char) : List Char :=
  cs.flatMap fun c => if c = '\n' then w else [c]

/-- A way to spell the end of a line: by carriage returns and newlines. -/
structure LineEnd (w : List Char) : Prop where
  ne_nil : w ≠ []
  mem : ∀ c ∈ w, c = '\r' ∨ c = '\n'

/-- A character that is part of no line end. -/
structure Plain (c : Char) : Prop where
  ne_return : c ≠ '\r'
  ne_newline : c ≠ '\n'

instance (c : Char) : Decidable (Plain c) :=
  decidable_of_iff (c ≠ '\r' ∧ c ≠ '\n') ⟨fun h => ⟨h.1, h.2⟩, fun h => ⟨h.1, h.2⟩⟩

-- A word is tested along its characters, not along all characters there are.
instance (word : List Char) : Decidable (∀ c ∈ word, Plain c) := List.decidableBAll Plain word

theorem LineEnd.reverse {w : List Char} (hw : LineEnd w) : LineEnd w.reverse where
  ne_nil := by simpa using hw.ne_nil
  mem := fun c hc => hw.mem c (List.mem_reverse.1 hc)

theorem lineEnd_newline : LineEnd ['\n'] where
  ne_nil := by simp
  mem := by simp

/-- What does not tell carriage returns from newlines is the same along a line end. -/
theorem LineEnd.apply_eq {w : List Char} (hw : LineEnd w) {β : Type} {p : Char → β}
    (hp : p '\r' = p '\n') {c : Char} (hc : c ∈ w) : p c = p '\n' := by
  rcases hw.mem c hc with rfl | rfl
  · exact hp
  · rfl

theorem LineEnd.not_plain {w : List Char} (hw : LineEnd w) {c : Char} (hc : c ∈ w) : ¬Plain c := by
  intro hplain
  rcases hw.mem c hc with h | h
  · exact hplain.ne_return h
  · exact hplain.ne_newline h

theorem eq_of_not_plain {c : Char} (h : ¬Plain c) : c = '\r' ∨ c = '\n' := by
  by_cases hreturn : c = '\r'
  · exact Or.inl hreturn
  · exact Or.inr (Classical.byContradiction fun hline => h ⟨hreturn, hline⟩)

theorem LineEnd.exists_cons {w : List Char} (hw : LineEnd w) : ∃ c cs, w = c :: cs ∧ ¬Plain c := by
  obtain ⟨c, cs, rfl⟩ := List.exists_cons_of_ne_nil hw.ne_nil
  exact ⟨c, cs, rfl, hw.not_plain List.mem_cons_self⟩

/-- No plain piece starts in a line end. -/
theorem isPrefixOf_of_not_plain {piece : List Char} (hpiece : ∀ c ∈ piece, Plain c)
    (hne : piece ≠ []) {c : Char} (hc : ¬Plain c) (cs : List Char) :
    piece.isPrefixOf (c :: cs) = false := by
  obtain ⟨d, piece, rfl⟩ := List.exists_cons_of_ne_nil hne
  have hdc : (d == c) = false :=
    beq_eq_false_iff_ne.2 fun h => hc (h ▸ hpiece d List.mem_cons_self)
  rw [List.isPrefixOf_cons_cons, hdc, Bool.false_and]

/-! ## Quotes -/

theorem plain_of_isQuoteMark {c : Char} (h : isQuoteMark c = true) : Plain c := by
  have : c = '"' ∨ c = '\'' := by simpa [isQuoteMark] using h
  rcases this with rfl | rfl <;> decide

/-! ## Cutting -/

section Respell

variable {w : List Char}

@[simp] theorem respell_nil : respell w [] = [] := rfl

@[simp] theorem respell_append (cs ds : List Char) :
    respell w (cs ++ ds) = respell w cs ++ respell w ds :=
  List.flatMap_append

@[simp] theorem respell_newline (cs : List Char) : respell w ('\n' :: cs) = w ++ respell w cs := by
  rw [respell, List.flatMap_cons, if_pos rfl]
  rfl

theorem respell_cons {c : Char} (hc : c ≠ '\n') (cs : List Char) :
    respell w (c :: cs) = c :: respell w cs := by
  rw [respell, List.flatMap_cons, if_neg hc]
  rfl

theorem respell_singleton {c : Char} (hc : c ≠ '\n') : respell w [c] = [c] :=
  respell_cons hc []

theorem respell_of_not_mem {cs : List Char} (h : '\n' ∉ cs) : respell w cs = cs := by
  induction cs with
  | nil => rfl
  | cons c cs ih =>
    rw [List.mem_cons, not_or] at h
    rw [respell_cons (Ne.symm h.1), ih h.2]

/-- Spelling newlines as they are changes nothing. -/
@[simp] theorem respell_self (cs : List Char) : respell ['\n'] cs = cs := by
  induction cs with
  | nil => rfl
  | cons c cs ih =>
    by_cases hc : c = '\n'
    · rw [hc, respell_newline, ih]
      rfl
    · rw [respell_cons hc, ih]

theorem reverse_respell (cs : List Char) :
    (respell w cs).reverse = respell w.reverse cs.reverse := by
  induction cs with
  | nil => rfl
  | cons c cs ih =>
    rw [List.reverse_cons, respell_append, ← ih]
    by_cases hc : c = '\n'
    · rw [hc, respell_newline, List.reverse_append, respell_newline, respell_nil, List.append_nil]
    · rw [respell_cons hc, respell_singleton hc, List.reverse_cons]

variable (hw : LineEnd w)

include hw

theorem isEmpty_respell (cs : List Char) : (respell w cs).isEmpty = cs.isEmpty := by
  cases cs with
  | nil => rfl
  | cons c cs =>
    by_cases hc : c = '\n'
    · obtain ⟨d, ds, rfl, -⟩ := hw.exists_cons
      rw [hc, respell_newline]
      rfl
    · rw [respell_cons hc]
      rfl

theorem respell_eq_nil_iff {cs : List Char} : respell w cs = [] ↔ cs = [] := by
  rw [← List.isEmpty_iff, isEmpty_respell hw, List.isEmpty_iff]

/-- A test that does not tell carriage returns from newlines holds of all characters of both. -/
theorem all_respell {p : Char → Bool} (hp : p '\r' = p '\n') (cs : List Char) :
    (respell w cs).all p = cs.all p := by
  induction cs with
  | nil => rfl
  | cons c cs ih =>
    by_cases hc : c = '\n'
    · rw [hc, respell_newline, List.all_append, ih, List.all_cons]
      congr 1
      rw [Bool.eq_iff_iff, List.all_eq_true]
      constructor
      · intro h
        obtain ⟨d, ds, rfl, -⟩ := hw.exists_cons
        rw [← hw.apply_eq hp List.mem_cons_self]
        exact h d List.mem_cons_self
      · intro h d hd
        rwa [hw.apply_eq hp hd]
    · rw [respell_cons hc, List.all_cons, List.all_cons, ih]

theorem dropWhile_respell {p : Char → Bool} (hp : p '\r' = p '\n') (cs : List Char) :
    (respell w cs).dropWhile p = respell w (cs.dropWhile p) := by
  induction cs with
  | nil => rfl
  | cons c cs ih =>
    by_cases hc : c = '\n'
    · subst hc
      by_cases hline : p '\n' = true
      · have hall : ∀ d ∈ w, p d = true := fun d hd => (hw.apply_eq hp hd).trans hline
        rw [respell_newline, List.dropWhile_append_of_pos hall, ih,
          List.dropWhile_cons_of_pos hline]
      · obtain ⟨d, ds, rfl, -⟩ := hw.exists_cons
        have hd : ¬p d = true := by rwa [hw.apply_eq hp List.mem_cons_self]
        rw [List.dropWhile_cons_of_neg hline, respell_newline, List.cons_append,
          List.dropWhile_cons_of_neg hd]
    · rw [respell_cons hc]
      by_cases hpc : p c = true
      · rw [List.dropWhile_cons_of_pos hpc, List.dropWhile_cons_of_pos hpc, ih]
      · rw [List.dropWhile_cons_of_neg hpc, List.dropWhile_cons_of_neg hpc, respell_cons hc]

theorem takeWhile_respell {p : Char → Bool} (hp : p '\r' = p '\n') (cs : List Char) :
    (respell w cs).takeWhile p = respell w (cs.takeWhile p) := by
  have hsplit : respell w cs = respell w (cs.takeWhile p) ++ respell w (cs.dropWhile p) := by
    rw [← respell_append, List.takeWhile_append_dropWhile]
  have h := (respell w cs).takeWhile_append_dropWhile (p := p)
  rw [dropWhile_respell hw hp] at h
  exact List.append_cancel_right (h.trans hsplit)

/-! ## Ends of a text -/

theorem head?_respell {mark : Char} (hm : Plain mark) (cs : List Char) :
    (respell w cs).head? = some mark ↔ cs.head? = some mark := by
  cases cs with
  | nil => rfl
  | cons c cs =>
    by_cases hc : c = '\n'
    · subst hc
      obtain ⟨d, ds, rfl, hd⟩ := hw.exists_cons
      rw [respell_newline, List.cons_append, List.head?_cons, List.head?_cons]
      constructor
      · intro h
        exact absurd (Option.some.inj h ▸ hm) hd
      · intro h
        exact absurd (Option.some.inj h).symm hm.ne_newline
    · rw [respell_cons hc]
      rfl

theorem getLast?_respell {mark : Char} (hm : Plain mark) (cs : List Char) :
    (respell w cs).getLast? = some mark ↔ cs.getLast? = some mark := by
  rw [← List.head?_reverse, ← List.head?_reverse, reverse_respell,
    head?_respell hw.reverse hm]

theorem head?_beq_respell {mark : Char} (hm : Plain mark) (cs : List Char) :
    ((respell w cs).head? == some mark) = (cs.head? == some mark) := by
  rw [Bool.eq_iff_iff, beq_iff_eq, beq_iff_eq, head?_respell hw hm]

theorem getLast?_beq_respell {mark : Char} (hm : Plain mark) (cs : List Char) :
    ((respell w cs).getLast? == some mark) = (cs.getLast? == some mark) := by
  rw [Bool.eq_iff_iff, beq_iff_eq, beq_iff_eq, getLast?_respell hw hm]

theorem trimLeft_respell (cs : List Char) : trimLeft (respell w cs) = respell w (trimLeft cs) :=
  dropWhile_respell hw (by decide) cs

theorem trimRight_respell (cs : List Char) :
    trimRight (respell w cs) = respell w (trimRight cs) := by
  rw [trimRight, reverse_respell, dropWhile_respell hw.reverse (by decide), reverse_respell,
    List.reverse_reverse, trimRight]

theorem trim_respell (cs : List Char) : trim (respell w cs) = respell w (trim cs) := by
  rw [trim, trimLeft_respell hw, trimRight_respell hw, trim]

theorem dropFirst_respell {mark : Char} (hm : Plain mark) (cs : List Char) :
    dropFirst mark (respell w cs) = respell w (dropFirst mark cs) := by
  have hrest : ∀ ds : List Char, ds.head? ≠ some mark → dropFirst mark ds = ds := by
    intro ds hds
    cases ds with
    | nil => rfl
    | cons d ds => rw [dropFirst, if_neg (by simpa using hds)]
  cases cs with
  | nil => rfl
  | cons c cs =>
    by_cases hc : c = mark
    · rw [hc, respell_cons hm.ne_newline, dropFirst, dropFirst, if_pos (by simp), if_pos (by simp)]
    · have hne : (c :: cs).head? ≠ some mark := by simpa using hc
      rw [hrest _ hne, hrest _ (fun h => hne ((head?_respell hw hm _).1 h))]

theorem dropFinal_respell {mark : Char} (hm : Plain mark) (cs : List Char) :
    dropFinal mark (respell w cs) = respell w (dropFinal mark cs) := by
  rw [dropFinal, dropFinal, getLast?_beq_respell hw hm]
  split
  · rename_i h
    obtain ⟨front, rfl⟩ := List.getLast?_eq_some_iff.1 (beq_iff_eq.1 h)
    rw [respell_append, respell_singleton hm.ne_newline, List.dropLast_concat, List.dropLast_concat]
  · rfl

/-! ## Searching -/

theorem mem_respell {mark : Char} (hm : Plain mark) {cs : List Char} :
    mark ∈ respell w cs ↔ mark ∈ cs := by
  rw [respell, List.mem_flatMap]
  constructor
  · rintro ⟨c, hc, hmem⟩
    split at hmem
    · exact absurd hm (hw.not_plain hmem)
    · rwa [List.mem_singleton.1 hmem]
  · intro h
    exact ⟨mark, h, by rw [if_neg hm.ne_newline]; exact List.mem_singleton_self mark⟩

theorem contains_respell {mark : Char} (hm : Plain mark) (cs : List Char) :
    (respell w cs).contains mark = cs.contains mark := by
  rw [Bool.eq_iff_iff, List.contains_iff_mem, List.contains_iff_mem, mem_respell hw hm]

/-- A word is in front of a respelled text when it is in front of the text. -/
theorem isPrefixOf_respell {word : List Char} (hword : ∀ c ∈ word, Plain c) (cs : List Char) :
    word.isPrefixOf (respell w cs) = word.isPrefixOf cs := by
  induction word generalizing cs with
  | nil => rfl
  | cons d word ih =>
    have hd : Plain d := hword d List.mem_cons_self
    cases cs with
    | nil => rfl
    | cons c cs =>
      by_cases hc : c = '\n'
      · subst hc
        obtain ⟨e, es, rfl, he⟩ := hw.exists_cons
        have hde : (d == e) = false := beq_eq_false_iff_ne.2 fun h => he (h ▸ hd)
        have hdn : (d == '\n') = false := beq_eq_false_iff_ne.2 hd.ne_newline
        rw [respell_newline, List.cons_append, List.isPrefixOf_cons_cons,
          List.isPrefixOf_cons_cons, hde, hdn, Bool.false_and, Bool.false_and]
      · rw [respell_cons hc, List.isPrefixOf_cons_cons, List.isPrefixOf_cons_cons,
          ih fun c hc => hword c (List.mem_cons_of_mem d hc)]

/-- A word is spelled in one way. -/
theorem respell_eq_iff {word : List Char} (hword : ∀ c ∈ word, Plain c) {cs : List Char} :
    respell w cs = word ↔ cs = word := by
  have hsame : respell w word = word :=
    respell_of_not_mem fun h => (hword _ h).ne_newline rfl
  constructor
  · intro h
    have hplain : '\n' ∉ cs := by
      intro hmem
      obtain ⟨d, ds, rfl, hd⟩ := hw.exists_cons
      refine hd (hword d ?_)
      rw [← h, respell, List.mem_flatMap]
      exact ⟨'\n', hmem, by simp⟩
    rwa [respell_of_not_mem hplain] at h
  · rintro rfl
    exact hsame

theorem fromFirst?_respell (piece : List Char) (hpiece : ∀ c ∈ piece, Plain c) (hne : piece ≠ [])
    (cs : List Char) : fromFirst? piece (respell w cs) = (fromFirst? piece cs).map (respell w) := by
  have hskip : ∀ (front : List Char), (∀ c ∈ front, ¬Plain c) → ∀ ds,
      fromFirst? piece (front ++ ds) = fromFirst? piece ds := by
    intro front hfront ds
    induction front with
    | nil => rfl
    | cons c front ih =>
      rw [List.cons_append, fromFirst?,
        isPrefixOf_of_not_plain hpiece hne (hfront c List.mem_cons_self), if_neg Bool.false_ne_true]
      exact ih fun e he => hfront e (List.mem_cons_of_mem c he)
  induction cs with
  | nil =>
    rw [respell_nil, fromFirst?]
    split <;> rfl
  | cons c cs ih =>
    have hprefix := isPrefixOf_respell hw hpiece (c :: cs)
    by_cases hc : c = '\n'
    · subst hc
      have hline := hskip ['\n'] (fun d hd => lineEnd_newline.not_plain hd) cs
      rw [List.singleton_append] at hline
      rw [respell_newline, hskip w fun d hd => hw.not_plain hd, ih, hline]
    · rw [respell_cons hc] at hprefix ⊢
      rw [fromFirst?, fromFirst?, hprefix, ih]
      split
      · rw [Option.map_some, respell_cons hc]
      · rfl

theorem occursIn_respell (piece : List Char) (hpiece : ∀ c ∈ piece, Plain c) (hne : piece ≠ [])
    (cs : List Char) : occursIn piece (respell w cs) = occursIn piece cs := by
  rw [occursIn, fromFirst?_respell hw piece hpiece hne, Option.isSome_map, occursIn]

/-! ## Quoted texts -/

theorem isQuoted_respell (cs : List Char) : isQuoted (respell w cs) = isQuoted cs := by
  rw [Bool.eq_iff_iff, isQuoted_iff, isQuoted_iff]
  constructor
  · rintro ⟨mark, body, hmark, hcs⟩
    have hm := plain_of_isQuoteMark hmark
    obtain ⟨rest, rfl⟩ : ∃ rest, cs = mark :: rest := by
      have hhead : (respell w cs).head? = some mark := by rw [hcs]; rfl
      rw [head?_respell hw hm, List.head?_eq_some_iff] at hhead
      exact hhead
    rw [respell_cons hm.ne_newline] at hcs
    have hlast : (respell w rest).getLast? = some mark := by
      rw [(List.cons.inj hcs).2]
      exact List.getLast?_concat
    rw [getLast?_respell hw hm, List.getLast?_eq_some_iff] at hlast
    obtain ⟨inner, rfl⟩ := hlast
    exact ⟨mark, inner, hmark, rfl⟩
  · rintro ⟨mark, body, hmark, rfl⟩
    have hm := plain_of_isQuoteMark hmark
    refine ⟨mark, respell w body, hmark, ?_⟩
    rw [respell_cons hm.ne_newline, respell_append, respell_singleton hm.ne_newline]

theorem unquoted_respell (cs : List Char) : unquoted (respell w cs) = respell w (unquoted cs) := by
  by_cases h : isQuoted cs = true
  · obtain ⟨mark, body, hmark, rfl⟩ := (isQuoted_iff cs).1 h
    have hm := plain_of_isQuoteMark hmark
    rw [respell_cons hm.ne_newline, respell_append, respell_singleton hm.ne_newline,
      unquoted_of_quoted hmark, unquoted_of_quoted hmark]
  · rw [unquoted, isQuoted_respell hw, if_neg h, unquoted, if_neg h]

theorem throughQuote?_respell {mark : Char} (hm : Plain mark) (rest : List Char) :
    Rule.throughQuote? (respell w (mark :: rest)) =
      (Rule.throughQuote? (mark :: rest)).map (respell w) := by
  have hp : ('\r' != mark) = ('\n' != mark) := by
    rw [bne_iff_ne.2 hm.ne_return.symm, bne_iff_ne.2 hm.ne_newline.symm]
  rw [respell_cons hm.ne_newline, Rule.throughQuote?, Rule.throughQuote?, contains_respell hw hm]
  split
  · rw [takeWhile_respell hw hp, Option.map_some, respell_cons hm.ne_newline, respell_append,
      respell_singleton hm.ne_newline]
  · rfl

omit hw in
theorem fromFirst?_singleton {mark : Char} {cs found : List Char}
    (h : fromFirst? [mark] cs = some found) : ∃ rest, found = mark :: rest := by
  induction cs with
  | nil => simp [fromFirst?] at h
  | cons c cs ih =>
    rw [fromFirst?] at h
    split at h
    · rename_i hc
      have hmark : mark = c := by simpa using hc
      exact ⟨cs, by rw [← Option.some.inj h, hmark]⟩
    · exact ih h

/-- The element looked up in a respelled target has the respelled id. -/
theorem lookedUp?_respell (cs : List Char) :
    Rule.lookedUp? (respell w cs) = (Rule.lookedUp? cs).map (respell w) := by
  have hmethod := fromFirst?_respell hw Rule.lookupMethod (by decide) (by decide) cs
  rw [Rule.lookedUp?, hmethod, Rule.lookedUp?]
  cases fromFirst? Rule.lookupMethod cs with
  | none => rfl
  | some call =>
    simp only [Option.map_some]
    rw [fromFirst?_respell hw ['"'] (by decide) (by simp),
      fromFirst?_respell hw ['\''] (by decide) (by simp)]
    cases hdouble : fromFirst? ['"'] call with
    | some quoted =>
      obtain ⟨rest, rfl⟩ := fromFirst?_singleton hdouble
      exact throughQuote?_respell hw (show Plain '"' by decide) rest
    | none =>
      simp only [Option.map_none]
      cases hsingle : fromFirst? ['\''] call with
      | none => rfl
      | some quoted =>
        obtain ⟨rest, rfl⟩ := fromFirst?_singleton hsingle
        exact throughQuote?_respell hw (show Plain '\'' by decide) rest

/-! ## Lower case -/

omit hw in
/-- Whether a text goes on with a cased character tells how a sigma is lowered, and nothing else. -/
theorem lowerChar_congr {before before' after after' : List Char}
    (hbefore : meetsCased before = meetsCased before')
    (hafter : meetsCased after = meetsCased after') (c : Char) :
    lowerChar before c after = lowerChar before' c after' := by
  rw [lowerChar, lowerChar, hbefore, hafter]

omit hw in
theorem meetsCased_cons_congr {before before' : List Char}
    (h : meetsCased before = meetsCased before') (c : Char) :
    meetsCased (c :: before) = meetsCased (c :: before') := by
  by_cases hc : isCaseIgnorable c = true
  · simpa [meetsCased, hc] using h
  · simp [meetsCased, hc]

/-- A line end is not cased, and is not passed over. -/
theorem meetsCased_lineEnd (cs : List Char) : meetsCased (w ++ cs) = false := by
  obtain ⟨c, rest, rfl, -⟩ := hw.exists_cons
  have hignorable : isCaseIgnorable c = false := by
    rw [hw.apply_eq (p := isCaseIgnorable) (by decide +kernel) List.mem_cons_self]
    decide +kernel
  have hcased : isCased c = false := by
    rw [hw.apply_eq (p := isCased) (by decide +kernel) List.mem_cons_self]
    decide +kernel
  simp [meetsCased, hignorable, hcased]

theorem meetsCased_respell (cs : List Char) : meetsCased (respell w cs) = meetsCased cs := by
  induction cs with
  | nil => rfl
  | cons c cs ih =>
    by_cases hc : c = '\n'
    · rw [hc, respell_newline, meetsCased_lineEnd hw, ← List.singleton_append,
        meetsCased_lineEnd lineEnd_newline]
    · rw [respell_cons hc]
      exact meetsCased_cons_congr ih c

omit hw in
theorem lowerAfter_append (before cs ds : List Char) (hcs : ∀ c ∈ cs, ¬Plain c) :
    lowerAfter before (cs ++ ds) = cs ++ lowerAfter (cs.reverse ++ before) ds := by
  induction cs generalizing before with
  | nil => rfl
  | cons c cs ih =>
    have hc : lowerChar before c (cs ++ ds) = [c] := by
      rcases eq_of_not_plain (hcs c List.mem_cons_self) with rfl | rfl <;>
        exact lowerChar_basic (by decide) _ _
    rw [List.cons_append, lowerAfter, hc, ih _ fun d hd => hcs d (List.mem_cons_of_mem c hd)]
    simp

theorem lowerAfter_respell (cs : List Char) : ∀ {before before' : List Char},
    meetsCased before = meetsCased before' →
      lowerAfter before' (respell w cs) = respell w (lowerAfter before cs) := by
  induction cs with
  | nil => intro _ _ _; rfl
  | cons c cs ih =>
    intro before before' h
    by_cases hc : c = '\n'
    · subst hc
      have hline := lowerAfter_append before ['\n'] cs fun d hd => lineEnd_newline.not_plain hd
      rw [List.singleton_append] at hline
      -- Only a sigma looks behind, and it stops at a line end however that is spelled.
      have hmeets : meetsCased (['\n'].reverse ++ before) = meetsCased (w.reverse ++ before') := by
        rw [meetsCased_lineEnd hw.reverse, meetsCased_lineEnd lineEnd_newline.reverse]
      rw [respell_newline, lowerAfter_append _ _ _ fun d hd => hw.not_plain hd, ih hmeets, hline,
        List.singleton_append, respell_newline]
    · have hlower : respell w (lowerChar before c cs) = lowerChar before c cs :=
        respell_of_not_mem fun hmem => hc (eq_of_mem_lowerChar (by decide) hmem)
      rw [respell_cons hc, lowerAfter, lowerAfter, respell_append, hlower,
        ih (meetsCased_cons_congr h c)]
      rw [lowerChar_congr h.symm (meetsCased_respell hw cs)]

/-- **Lower case and line ends do not meet.** -/
theorem lower_respell (cs : List Char) : lower (respell w cs) = respell w (lower cs) :=
  lowerAfter_respell hw cs rfl

end Respell

/-! ## Carriage returns in front of newlines -/

/-- A newline with a number of carriage returns in front. -/
def lineEnd (returns : Nat) : List Char := List.replicate returns '\r' ++ ['\n']

theorem lineEnd_isLineEnd (returns : Nat) : LineEnd (lineEnd returns) where
  ne_nil := by simp [lineEnd]
  mem := by
    intro c hc
    rcases List.mem_append.1 hc with hc | hc
    · exact Or.inl (List.eq_of_mem_replicate hc)
    · exact Or.inr (List.mem_singleton.1 hc)

theorem newline_not_mem_returns (returns : Nat) : '\n' ∉ List.replicate returns '\r' := by
  intro h
  exact absurd (List.eq_of_mem_replicate h) (by decide)

/-- In front of the first newline of a respelled text all its carriage returns stand. -/
theorem le_takeWhile_respell (returns : Nat) {cs : List Char} (h : '\n' ∈ cs) :
    returns ≤ ((respell (lineEnd returns) cs).takeWhile (· != '\n')).length := by
  induction cs with
  | nil => cases h
  | cons c cs ih =>
    by_cases hc : c = '\n'
    · have hreturns := bne_of_not_mem (newline_not_mem_returns returns)
      rw [hc, respell_newline, lineEnd, List.append_assoc,
        List.takeWhile_append_of_pos hreturns, List.length_append, List.length_replicate]
      omega
    · rw [respell_cons hc, List.takeWhile_cons_of_pos (by simpa using hc), List.length_cons]
      have := ih ((List.mem_cons.1 h).resolve_left (Ne.symm hc))
      omega

theorem newline_mem_respell {returns : Nat} {cs : List Char} :
    '\n' ∈ respell (lineEnd returns) cs ↔ '\n' ∈ cs := by
  constructor
  · intro h
    by_cases hcs : '\n' ∈ cs
    · exact hcs
    · rwa [respell_of_not_mem hcs] at h
  · intro h
    rw [respell, List.mem_flatMap]
    exact ⟨'\n', h, by simp [lineEnd]⟩

/-- Respelling keeps the number of lines. -/
theorem count_newline_respell (returns : Nat) (cs : List Char) :
    (respell (lineEnd returns) cs).count '\n' = cs.count '\n' := by
  induction cs with
  | nil => rfl
  | cons c cs ih =>
    by_cases hc : c = '\n'
    · rw [hc, respell_newline, List.count_append, ih, lineEnd, List.count_append,
        List.count_replicate, List.count_cons_self]
      simp
      omega
    · rw [respell_cons hc, List.count_cons_of_ne hc, List.count_cons_of_ne hc, ih]

/-- A text that starts with a newline is not respelled as one that does not. -/
theorem respell_newline_ne (returns : Nat) {d : Char} (hd : d ≠ '\n') (cs ds : List Char) :
    respell (lineEnd returns) ('\n' :: cs) ≠ respell (lineEnd returns) (d :: ds) := by
  intro h
  have hmem : '\n' ∈ ds := by
    have hline : '\n' ∈ respell (lineEnd returns) (d :: ds) := by
      rw [← h, newline_mem_respell]
      exact List.mem_cons_self
    rw [newline_mem_respell] at hline
    exact (List.mem_cons.1 hline).resolve_left (Ne.symm hd)
  -- The second text has one more character in front of its first newline.
  have hshort := congrArg (fun cs => (cs.takeWhile (· != '\n')).length) h
  have hlong := le_takeWhile_respell returns hmem
  have hreturns := bne_of_not_mem (newline_not_mem_returns returns)
  simp only [respell_newline, lineEnd, List.append_assoc,
    List.takeWhile_append_of_pos hreturns, List.length_append, List.length_replicate,
    List.singleton_append, List.takeWhile_cons_of_neg (p := (· != '\n')) (a := '\n') (by simp),
    List.length_nil, respell_cons hd, List.takeWhile_cons_of_pos (p := (· != '\n')) (a := d)
      (by simpa using hd), List.length_cons] at hshort
  rw [lineEnd] at hlong
  omega

/-- **The newlines can be told from the respelled text.** -/
theorem respell_injective (returns : Nat) : Function.Injective (respell (lineEnd returns)) := by
  have hw := lineEnd_isLineEnd returns
  intro cs ds h
  induction cs generalizing ds with
  | nil => exact (respell_eq_nil_iff hw).1 h.symm |>.symm
  | cons c cs ih =>
    cases ds with
    | nil => exact (respell_eq_nil_iff hw).1 h
    | cons d ds =>
      by_cases hc : c = '\n'
      · by_cases hd : d = '\n'
        · rw [hc, hd, respell_newline, respell_newline] at h
          rw [hc, hd, ih (List.append_cancel_left h)]
        · exact absurd (hc ▸ h) (respell_newline_ne returns hd cs ds)
      · by_cases hd : d = '\n'
        · exact absurd (hd ▸ h).symm (respell_newline_ne returns hc ds cs)
        · rw [respell_cons hc, respell_cons hd] at h
          obtain ⟨rfl, hrest⟩ := List.cons.inj h
          rw [ih hrest]

end PageLint.Text
