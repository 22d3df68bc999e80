import PageLint.Proofs.Prefixes.Lengths

/-!
# Forms of script tokens

What the tokens of a script look like, said without a scanner: the form of a number, a word, an
operator, a string and a comment. For numbers, words and operators the token is the longest text at
the front of the input that has the form. Strings and comments go on to where they are closed, or
to where they cannot be closed any more.

* `IsLongest` — the longest text of a form at the front of an input
* `Steady.isLongest` — a length that looks no further than the text it finds finds the longest one
* `IsNumber`, `IsWord`, `operators` — the forms of numbers, words and operators
* `StringEnds` — what follows the opening mark of a string
* `IsLineComment`, `IsBlockComment` — the comments at the front of an input
-/

namespace PageLint

/-! ## Longest texts of a form -/

/-- A text is the longest one with a property at the front of an input. -/
structure IsLongest (P : List Char → Prop) (input text : List Char) : Prop where
  front : text <+: input
  form : P text
  longest : ∀ other, other <+: input → P other → other.length ≤ text.length

/-- There is only one longest text. -/
theorem IsLongest.iff_eq {P : List Char → Prop} {input text : List Char}
    (h : IsLongest P input text) (other : List Char) : IsLongest P input other ↔ other = text := by
  constructor
  · intro h'
    have hle := h.longest other h'.front h'.form
    exact (List.prefix_of_prefix_length_le h'.front h.front hle).eq_of_length_le
      (h'.longest text h.front h.form)
  · rintro rfl
    exact h

/-- **A length that looks no further than the text it finds finds the longest one**, when it
measures every text of the form to its end. -/
theorem Steady.isLongest {f : List Char → Nat} (hf : Steady f) {P : List Char → Prop}
    (hwhole : ∀ text, P text → f text = text.length) {input : List Char}
    (hform : P (input.take (f input))) : IsLongest P input (input.take (f input)) := by
  refine ⟨List.take_prefix _ _, hform, fun other hfront hother => Nat.le_of_not_lt fun hlt => ?_⟩
  have hlength := hfront.length_le
  rw [List.length_take] at hlt
  -- Where the input ends behind the longer text, the same length is measured.
  have hsame : f (input.take other.length) = f input := hf _ _ (by omega)
  rw [← List.prefix_iff_eq_take.1 hfront, hwhole other hother] at hsame
  omega

/-! ## Numbers -/

/-- The text of a number: digits, perhaps a point and further digits, and perhaps an exponent. -/
def IsNumber (text : List Char) : Prop := ∃ n : NumberText, n.text = text

theorem take_digitRun (cs : List Char) : cs.take (digitRun cs) = cs.takeWhile Text.isDigit :=
  take_length_takeWhile Text.isDigit cs

theorem exists_fraction (cs : List Char) : ∃ fraction : Option (List Char),
    (∀ ds ∈ fraction, ds.all Text.isDigit = true) ∧
      cs.take (fractionLength cs) = fraction.elim [] ('.' :: ·) := by
  cases cs with
  | nil => exact ⟨none, by simp, rfl⟩
  | cons c cs =>
    by_cases hc : c = '.'
    · subst hc
      refine ⟨some (cs.takeWhile Text.isDigit), ?_, ?_⟩
      · intro ds hds
        rw [← Option.mem_some.1 hds]
        exact List.all_takeWhile
      · show ('.' :: cs).take (1 + digitRun cs) = _
        rw [Nat.add_comm, List.take_succ_cons, take_digitRun]
        rfl
    · exact ⟨none, by simp, by simp [fractionLength, hc]⟩

theorem take_signLength (cs : List Char) : cs.take (signLength cs) = [] ∨
    cs.take (signLength cs) = ['+'] ∨ cs.take (signLength cs) = ['-'] := by
  cases cs with
  | nil => exact Or.inl rfl
  | cons c cs =>
    by_cases hplus : c = '+'
    · exact Or.inr (Or.inl (by simp [signLength, hplus]))
    · by_cases hminus : c = '-'
      · exact Or.inr (Or.inr (by simp [signLength, hminus]))
      · exact Or.inl (by simp [signLength, hplus, hminus])

theorem exists_exponent (cs : List Char) : ∃ exponent : Option Exponent,
    cs.take (exponentLength cs) = exponent.elim [] Exponent.text := by
  cases cs with
  | nil => exact ⟨none, rfl⟩
  | cons c cs =>
    by_cases hmark : c = 'e' ∨ c = 'E'
    · by_cases hdigits : digitRun (cs.drop (signLength cs)) = 0
      · exact ⟨none, by simp [exponentLength, hmark, hdigits]⟩
      · let exponent : Exponent :=
          { mark := c
            sign := cs.take (signLength cs)
            digits := (cs.drop (signLength cs)).takeWhile Text.isDigit
            mark_eq := hmark
            sign_eq := take_signLength cs
            digits_ne := fun h => hdigits (List.length_eq_zero_iff.2 h)
            all_digits := List.all_takeWhile }
        refine ⟨some exponent, ?_⟩
        have hlength : exponentLength (c :: cs) =
            signLength cs + digitRun (cs.drop (signLength cs)) + 1 := by
          simp only [exponentLength, Bool.or_eq_true, beq_iff_eq, hmark, hdigits, if_true, if_false]
          omega
        rw [hlength, List.take_succ_cons, List.take_add, take_digitRun]
        rfl
    · exact ⟨none, by simp [exponentLength, hmark]⟩

/-- What is measured as a number has the form of one. -/
theorem isNumber_take {c : Char} (hc : Text.isDigit c = true) (cs : List Char) :
    IsNumber ((c :: cs).take (numberLength (c :: cs))) := by
  have hwhole : (c :: cs).takeWhile Text.isDigit = c :: cs.takeWhile Text.isDigit :=
    List.takeWhile_cons_of_pos hc
  obtain ⟨fraction, hdigits, hfraction⟩ := exists_fraction ((c :: cs).drop (digitRun (c :: cs)))
  obtain ⟨exponent, hexponent⟩ := exists_exponent ((c :: cs).drop (digitRun (c :: cs) +
    fractionLength ((c :: cs).drop (digitRun (c :: cs)))))
  let number : NumberText :=
    { first := c
      others := cs.takeWhile Text.isDigit
      fraction := fraction
      exponent := exponent
      first_digit := hc
      other_digits := List.all_takeWhile
      fraction_digits := hdigits }
  refine ⟨number, ?_⟩
  rw [numberLength, List.take_add, List.take_add, take_digitRun, hwhole, hfraction, hexponent]
  rfl

/-- **A number goes on as far as its form allows.** -/
theorem number_isLongest {c : Char} (hc : Text.isDigit c = true) (cs : List Char) :
    IsLongest IsNumber (c :: cs) ((c :: cs).take (numberLength (c :: cs))) := by
  refine numberLength_steady.isLongest ?_ (isNumber_take hc cs)
  rintro text ⟨n, rfl⟩
  have hwhole : numberLength (n.text ++ []) = n.text.length := n.numberLength_append rfl
  rwa [List.append_nil] at hwhole

/-! ## Words -/

/-- The text of a word: a character that may start a name and others that may go on with it. -/
def IsWord (text : List Char) : Prop :=
  ∃ c cs, text = c :: cs ∧ Text.isWordStart c = true ∧ cs.all Text.isWordPart = true

theorem Text.isWordPart_of_isWordStart {c : Char} (h : isWordStart c = true) :
    isWordPart c = true := by
  simp only [isWordStart, isWordPart, isIdentifierPart, isAlphanumeric, isIdentifierStart,
    Bool.or_eq_true] at h ⊢
  rcases h with (h | h) | h
  · exact Or.inr (Or.inl (Or.inl (Or.inl h)))
  · exact Or.inl (Or.inl h)
  · exact Or.inr (Or.inl h)

theorem IsWord.all {text : List Char} (h : IsWord text) : text.all Text.isWordPart = true := by
  obtain ⟨c, cs, rfl, hc, hcs⟩ := h
  rw [List.all_cons, Text.isWordPart_of_isWordStart hc, hcs]
  rfl

/-- **A word goes on as far as its form allows.** -/
theorem word_isLongest {c : Char} (hc : Text.isWordStart c = true) (cs : List Char) :
    IsLongest IsWord (c :: cs) (c :: cs.takeWhile Text.isWordPart) := by
  refine ⟨?_, ⟨c, _, rfl, hc, List.all_takeWhile⟩, ?_⟩
  · rw [List.cons_prefix_cons]
    exact ⟨rfl, List.takeWhile_prefix _⟩
  · rintro other ⟨rest, hrest⟩ hother
    have htake := congrArg (List.takeWhile Text.isWordPart) hrest
    rw [List.takeWhile_append_of_pos (List.all_eq_true.1 hother.all),
      List.takeWhile_cons_of_pos (Text.isWordPart_of_isWordStart hc)] at htake
    rw [← htake, List.length_append]
    exact Nat.le_add_right _ _

/-- The kind of the token that a word makes: a truth value, the null literal, any other reserved
word or a name. -/
inductive IsKindOfWord (word : String) : TokenKind → Prop
  | boolean (truth : word = "true" ∨ word = "false") : IsKindOfWord word .boolean
  | null (null : word = "null") : IsKindOfWord word .null
  | keyword (reserved : word ∈ reservedWords) (ne_true : word ≠ "true") (ne_false : word ≠ "false")
      (ne_null : word ≠ "null") : IsKindOfWord word .keyword
  | identifier (free : word ∉ reservedWords) : IsKindOfWord word .identifier

/-- **The kind of a word** is the one that the tables give. -/
theorem isKindOfWord_iff (word : String) (kind : TokenKind) :
    IsKindOfWord word kind ↔ kind = wordKind word := by
  constructor
  · intro h
    cases h with
    | boolean truth => rcases truth with rfl | rfl <;> rfl
    | null h => rw [h]; rfl
    | keyword reserved htrue hfalse hnull =>
      simp [wordKind, isBooleanWord, isNullWord, isReserved, reserved, htrue, hfalse, hnull]
    | identifier free =>
      have hne {other : String} (hother : other ∈ reservedWords) : word ≠ other :=
        fun h => free (h ▸ hother)
      simp [wordKind, isBooleanWord, isNullWord, isReserved, free, @hne "true" (by decide),
        @hne "false" (by decide), @hne "null" (by decide)]
  · rintro rfl
    unfold wordKind
    split
    · rename_i hboolean
      exact .boolean (by simpa [isBooleanWord] using hboolean)
    rename_i hboolean
    obtain ⟨htrue, hfalse⟩ : word ≠ "true" ∧ word ≠ "false" := by
      simpa [isBooleanWord] using hboolean
    split
    · rename_i hnull
      exact .null (by simpa [isNullWord] using hnull)
    rename_i hnull
    have hnull : word ≠ "null" := by simpa [isNullWord] using hnull
    split
    · rename_i hreserved
      exact .keyword (List.contains_iff_mem.1 hreserved) htrue hfalse hnull
    · rename_i hfree
      exact .identifier fun hmem => hfree (List.contains_iff_mem.2 hmem)

/-! ## Operators -/

theorem take_operatorLength_mem {c : Char} (hc : c ∈ operatorChars) (cs : List Char) :
    (c :: cs).take (operatorLength (c :: cs)) ∈ operators := by
  unfold operatorLength operators
  split
  · rename_i hlong
    exact List.mem_append_left _ (List.mem_append_left _ (List.contains_iff_mem.1 hlong))
  split
  · rename_i hpair
    exact List.mem_append_left _ (List.mem_append_right _ (List.contains_iff_mem.1 hpair))
  · exact List.mem_append_right _ (List.mem_map.2 ⟨c, hc, rfl⟩)

/-- **An operator is the longest of the tables.** -/
theorem operator_isLongest {c : Char} (hc : c ∈ operatorChars) (cs : List Char) :
    IsLongest (· ∈ operators) (c :: cs) ((c :: cs).take (operatorLength (c :: cs))) :=
  operatorLength_steady.isLongest (by decide) (take_operatorLength_mem hc cs)

/-! ## Strings -/

/-- An item of a string is no plain mark, backslash or newline. -/
def StringItem.Inside (mark : Char) : StringItem → Prop
  | plain c => c ≠ mark ∧ c ≠ '\\' ∧ c ≠ '\n'
  | escaped _ => True

/-- What follows the opening mark of a string, and what stands behind the string: its items up to
the closing mark, or up to a newline or the end of the input, where a last backslash has no
character to take along. -/
inductive StringEnds (mark : Char) : List Char → List Char → Prop
  | closed (items : List StringItem) (inside : ∀ item ∈ items, item.Inside mark)
      (rest : List Char) : StringEnds mark (items.flatMap StringItem.text ++ [mark]) rest
  | broken (items : List StringItem) (inside : ∀ item ∈ items, item.Inside mark)
      (rest : List Char) : StringEnds mark (items.flatMap StringItem.text) ('\n' :: rest)
  | unclosed (items : List StringItem) (inside : ∀ item ∈ items, item.Inside mark) :
      StringEnds mark (items.flatMap StringItem.text) []
  | escaping (items : List StringItem) (inside : ∀ item ∈ items, item.Inside mark) :
      StringEnds mark (items.flatMap StringItem.text ++ ['\\']) []

/-- One more item in front. -/
theorem StringEnds.cons {mark : Char} {tail rest : List Char} (h : StringEnds mark tail rest)
    {item : StringItem} (hitem : item.Inside mark) :
    StringEnds mark (item.text ++ tail) rest := by
  have hinside {items : List StringItem} (hitems : ∀ item ∈ items, item.Inside mark) :
      ∀ other ∈ item :: items, other.Inside mark :=
    List.forall_mem_cons.2 ⟨hitem, hitems⟩
  cases h with
  | closed items inside rest =>
    rw [← List.append_assoc]
    exact .closed (item :: items) (hinside inside) rest
  | broken items inside rest => exact .broken (item :: items) (hinside inside) rest
  | unclosed items inside => exact .unclosed (item :: items) (hinside inside)
  | escaping items inside =>
    rw [← List.append_assoc]
    exact .escaping (item :: items) (hinside inside)

/-- **A string goes on to its closing mark**, or to a newline or the end of the input in front of
it. -/
theorem stringTailLength_ends (mark : Char) (cs : List Char) :
    StringEnds mark (cs.take (stringTailLength mark cs)) (cs.drop (stringTailLength mark cs)) := by
  fun_induction stringTailLength mark cs with
  | case1 => exact .unclosed [] (by simp)
  | case2 => exact .escaping [] (by simp)
  | case3 c cs ih => exact ih.cons (show StringItem.Inside mark (.escaped c) from trivial)
  | case4 c cs hlast hescape hmark =>
    rw [beq_iff_eq.1 hmark]
    exact .closed [] (by simp) cs
  | case5 c cs hlast hescape hmark hnewline =>
    rw [beq_iff_eq.1 hnewline]
    exact .broken [] (by simp) cs
  | case6 c cs hlast hescape hmark hnewline ih =>
    -- A backslash would have been taken as the start of an escape.
    have hslash : c ≠ '\\' := by
      rintro rfl
      cases cs with
      | nil => exact hlast rfl rfl
      | cons d ds => exact hescape d ds rfl rfl
    have hinside : StringItem.Inside mark (.plain c) :=
      ⟨by simpa using hmark, hslash, by simpa using hnewline⟩
    exact ih.cons hinside

/-- The end of a string is measured behind its items. -/
theorem stringTailLength_inside {mark : Char} {items : List StringItem}
    (h : ∀ item ∈ items, item.Inside mark) (rest : List Char) :
    stringTailLength mark (items.flatMap StringItem.text ++ rest) =
      (items.flatMap StringItem.text).length + stringTailLength mark rest := by
  induction items with
  | nil => exact (Nat.zero_add _).symm
  | cons item items ih =>
    obtain ⟨hitem, hitems⟩ := List.forall_mem_cons.1 h
    rw [List.flatMap_cons, List.append_assoc, List.length_append, Nat.add_assoc, ← ih hitems]
    cases item with
    | escaped c =>
      show stringTailLength mark ('\\' :: c :: (items.flatMap StringItem.text ++ rest)) = _
      rw [stringTailLength, Nat.add_comm]
      rfl
    | plain c =>
      obtain ⟨hmark, hslash, hnewline⟩ := hitem
      show stringTailLength mark (c :: (items.flatMap StringItem.text ++ rest)) = _
      rw [stringTailLength_cons mark hslash, if_neg (by simpa using hmark),
        if_neg (by simpa using hnewline), Nat.add_comm]
      rfl

/-- A string ends nowhere else. -/
theorem StringEnds.length_eq {mark : Char} (hmark : Text.isQuoteMark mark = true)
    {tail rest : List Char} (h : StringEnds mark tail rest) :
    stringTailLength mark (tail ++ rest) = tail.length := by
  have hmarks : mark = '"' ∨ mark = '\'' := by simpa [Text.isQuoteMark] using hmark
  obtain ⟨hslash, hnewline⟩ : mark ≠ '\\' ∧ mark ≠ '\n' := by
    rcases hmarks with rfl | rfl <;> decide
  cases h with
  | closed items inside rest =>
    rw [List.append_assoc, stringTailLength_inside inside, List.length_append,
      List.singleton_append, stringTailLength_cons mark hslash, if_pos (beq_self_eq_true mark)]
    rfl
  | broken items inside rest =>
    rw [stringTailLength_inside inside, stringTailLength_cons mark (by decide),
      if_neg (by simpa using hnewline.symm), if_pos (beq_self_eq_true '\n')]
    rfl
  | unclosed items inside =>
    rw [stringTailLength_inside inside]
    rfl
  | escaping items inside =>
    rw [List.append_nil, stringTailLength_inside inside, List.length_append]
    rfl

/-- **What follows the opening mark of a string** is what is measured as its tail. -/
theorem stringEnds_iff {mark : Char} (hmark : Text.isQuoteMark mark = true) (cs tail : List Char) :
    (∃ rest, cs = tail ++ rest ∧ StringEnds mark tail rest) ↔
      tail = cs.take (stringTailLength mark cs) := by
  constructor
  · rintro ⟨rest, rfl, h⟩
    rw [h.length_eq hmark, List.take_left]
  · rintro rfl
    exact ⟨_, (List.take_append_drop _ cs).symm, stringTailLength_ends mark cs⟩

/-! ## Comments -/

/-- The line comment at the front of an input goes up to a newline or the end of the input. -/
def IsLineComment (input text : List Char) : Prop :=
  ∃ body rest, text = '/' :: '/' :: body ∧ input = text ++ rest ∧ '\n' ∉ body ∧
    ∀ c ∈ rest.head?, c = '\n'

/-- The block comment at the front of an input goes through the first closing that does not
overlap its opening, or to the end of the input when there is none. -/
inductive IsBlockComment : List Char → List Char → Prop
  | closed {body : List Char} (first : ¬ ['*', '/'] <:+: body ++ ['*']) (rest : List Char) :
      IsBlockComment ('/' :: '*' :: (body ++ '*' :: '/' :: rest))
        ('/' :: '*' :: (body ++ ['*', '/']))
  | unclosed {body : List Char} (absent : ¬ ['*', '/'] <:+: body) :
      IsBlockComment ('/' :: '*' :: body) ('/' :: '*' :: body)

/-- **The line comment at the front of an input** is what stands in front of the newline. -/
theorem isLineComment_iff (cs text : List Char) : IsLineComment ('/' :: '/' :: cs) text ↔
    text = '/' :: '/' :: cs.takeWhile (· != '\n') := by
  constructor
  · rintro ⟨body, rest, rfl, hinput, hbody, hrest⟩
    obtain rfl : cs = body ++ rest := by simpa using hinput
    rw [List.takeWhile_append_of_pos (Text.bne_of_not_mem hbody)]
    cases rest with
    | nil => rw [List.takeWhile_nil, List.append_nil]
    | cons c rest => simp [hrest c rfl]
  · rintro rfl
    refine ⟨_, cs.dropWhile (· != '\n'), rfl, ?_, not_mem_takeWhile (by decide) cs, ?_⟩
    · rw [List.cons_append, List.cons_append, List.takeWhile_append_dropWhile]
    · intro c hc
      have hhead := List.head?_dropWhile_not (· != '\n') cs
      rw [Option.mem_def.1 hc] at hhead
      simpa using hhead

/-- The length through a piece leads through its first occurrence. -/
theorem Text.lengthThrough_first {piece before : List Char}
    (h : ¬ piece <:+: before ++ piece.dropLast) (rest : List Char) :
    lengthThrough piece (before ++ (piece ++ rest)) = before.length + piece.length := by
  have hpiece : piece ≠ [] := by
    rintro rfl
    exact h (List.nil_infix)
  induction before with
  | nil =>
    obtain ⟨c, cs, rfl⟩ := List.exists_cons_of_ne_nil hpiece
    have hfound : (c :: cs).isPrefixOf (c :: (cs ++ rest)) = true :=
      List.isPrefixOf_iff_prefix.2 (List.prefix_append (c :: cs) rest)
    show lengthThrough (c :: cs) (c :: (cs ++ rest)) = _
    rw [lengthThrough, if_pos hfound]
    exact (Nat.zero_add _).symm
  | cons c before ih =>
    have hnot : ¬ piece <+: c :: (before ++ (piece ++ rest)) := by
      intro hfront
      refine h (List.IsPrefix.isInfix (List.prefix_of_prefix_length_le hfront ?_ ?_))
      · rw [List.cons_append, List.cons_prefix_cons, List.prefix_append_right_inj]
        exact ⟨rfl, (List.dropLast_prefix piece).trans (List.prefix_append _ _)⟩
      · rw [List.length_append, List.length_cons, List.length_dropLast]
        omega
    have hbehind : ¬ piece <:+: before ++ piece.dropLast := fun hoccurs =>
      h (hoccurs.trans (List.suffix_cons c _).isInfix)
    rw [List.cons_append, lengthThrough, if_neg fun h => hnot (List.isPrefixOf_iff_prefix.1 h),
      ih hbehind, List.length_cons]
    omega

/-- The length through a piece that does not occur leads to the end. -/
theorem Text.lengthThrough_absent {piece cs : List Char} (h : ¬ piece <:+: cs) :
    lengthThrough piece cs = cs.length := by
  induction cs with
  | nil => rfl
  | cons c cs ih =>
    rw [List.infix_cons_iff, not_or] at h
    rw [lengthThrough, if_neg fun hfound => h.1 (List.isPrefixOf_iff_prefix.1 hfound), ih h.2,
      List.length_cons]

/-- A piece that occurs occurs a first time. -/
theorem exists_first_of_infix {piece cs : List Char} (hpiece : piece ≠ []) (h : piece <:+: cs) :
    ∃ before rest, cs = before ++ (piece ++ rest) ∧ ¬ piece <:+: before ++ piece.dropLast := by
  induction cs with
  | nil => exact absurd (List.infix_nil.1 h) hpiece
  | cons c cs ih =>
    by_cases hfront : piece <+: c :: cs
    · obtain ⟨rest, hrest⟩ := hfront
      refine ⟨[], rest, hrest.symm, fun hoccurs => ?_⟩
      have hlength := hoccurs.length_le
      have hpos := List.length_pos_iff.2 hpiece
      rw [List.nil_append, List.length_dropLast] at hlength
      omega
    · obtain ⟨before, rest, rfl, hfirst⟩ := ih ((List.infix_cons_iff.1 h).resolve_left hfront)
      refine ⟨c :: before, rest, rfl, fun hoccurs => ?_⟩
      rw [List.cons_append] at hoccurs
      refine hfirst ((List.infix_cons_iff.1 hoccurs).resolve_left fun hstart => hfront ?_)
      -- An occurrence that starts at this character would be one in the whole text.
      refine hstart.trans ?_
      rw [List.cons_prefix_cons, List.prefix_append_right_inj]
      exact ⟨rfl, (List.dropLast_prefix piece).trans (List.prefix_append _ _)⟩

/-- **The block comment at the front of an input** is what is measured as one. -/
theorem isBlockComment_iff (cs text : List Char) : IsBlockComment ('/' :: '*' :: cs) text ↔
    text = '/' :: '*' :: cs.take (Text.lengthThrough ['*', '/'] cs) := by
  have hclosed {body : List Char} (hfirst : ¬ ['*', '/'] <:+: body ++ ['*']) (rest : List Char) :
      (body ++ '*' :: '/' :: rest).take
        (Text.lengthThrough ['*', '/'] (body ++ '*' :: '/' :: rest)) = body ++ ['*', '/'] := by
    have hlength : Text.lengthThrough ['*', '/'] (body ++ '*' :: '/' :: rest) = body.length + 2 :=
      Text.lengthThrough_first hfirst rest
    rw [hlength, List.take_length_add_append]
    rfl
  constructor
  · intro h
    cases h with
    | closed first rest => rw [hclosed first]
    | unclosed absent => rw [Text.lengthThrough_absent absent, List.take_length]
  · rintro rfl
    by_cases hoccurs : ['*', '/'] <:+: cs
    · obtain ⟨body, rest, rfl, hfirst⟩ := exists_first_of_infix (by simp) hoccurs
      have hfirst : ¬ ['*', '/'] <:+: body ++ ['*'] := hfirst
      rw [List.cons_append, List.singleton_append, hclosed hfirst]
      exact .closed hfirst rest
    · rw [Text.lengthThrough_absent hoccurs, List.take_length]
      exact .unclosed hoccurs

end PageLint
