import PageLint.Proofs.Lexical.Forms

/-!
# The grammar of script tokens

The first character of a token tells its class, and its class where it ends. The classes exclude
each other: no operator character is a digit, a quote mark or part of a name, and of those that
start an operator only a slash may start a comment.

* `IsScriptToken` — the kind and text of the token at the front of an input inside a script
* `isScriptToken_iff` — the token that is cut off there follows the grammar, and no other does
* `scriptTokens_grammatical` — every token of a script in a page follows it, at its own place
-/

namespace PageLint

/-! ## The grammar -/

/-- The brackets, with the kinds of their tokens. -/
def bracketKinds : List (Char × TokenKind) :=
  [('(', .leftParen), (')', .rightParen), ('{', .leftBrace), ('}', .rightBrace),
    ('[', .leftBracket), (']', .rightBracket)]

/-- The kind of a token of one character: that of a bracket, or punctuation. -/
inductive IsKindOfMark (c : Char) : TokenKind → Prop
  | bracket {kind : TokenKind} (mem : (c, kind) ∈ bracketKinds) : IsKindOfMark c kind
  | punctuation (free : ∀ kind, (c, kind) ∉ bracketKinds) : IsKindOfMark c .punctuation

/-- The kind and text of the token at the front of an input inside a script, when the script is not
closed there: one clause for each class of first characters. -/
structure IsScriptToken (c : Char) (cs : List Char) (kind : TokenKind) (text : List Char) :
    Prop where
  string : Text.isQuoteMark c = true → kind = .string ∧
    ∃ tail, text = c :: tail ∧ ∃ rest, cs = tail ++ rest ∧ StringEnds c tail rest
  number : Text.isDigit c = true → kind = .number ∧ IsLongest IsNumber (c :: cs) text
  word : Text.isWordStart c = true → IsKindOfWord (String.ofList text) kind ∧
    IsLongest IsWord (c :: cs) text
  lineComment : ['/', '/'] <+: c :: cs → kind = .comment ∧ IsLineComment (c :: cs) text
  blockComment : ['/', '*'] <+: c :: cs → kind = .comment ∧ IsBlockComment (c :: cs) text
  operator : c ∈ operatorChars → ¬ ['/', '/'] <+: c :: cs → ¬ ['/', '*'] <+: c :: cs →
    kind = .operator ∧ IsLongest (· ∈ operators) (c :: cs) text
  mark : Text.isQuoteMark c = false → Text.isDigit c = false → Text.isWordStart c = false →
    c ∉ operatorChars → IsKindOfMark c kind ∧ text = [c]

theorem markKind_of_mem {c : Char} {kind : TokenKind} (h : (c, kind) ∈ bracketKinds) :
    kind = markKind c := by
  have hall : ∀ entry ∈ bracketKinds, entry.2 = markKind entry.1 := by decide
  exact hall _ h

theorem markKind_of_free {c : Char} (h : ∀ kind, (c, kind) ∉ bracketKinds) :
    markKind c = .punctuation := by
  have hne {d : Char} {kind : TokenKind} (hd : (d, kind) ∈ bracketKinds) : c ≠ d :=
    fun heq => h kind (heq ▸ hd)
  simp only [bracketKinds, List.mem_cons, Prod.mk.injEq, List.not_mem_nil, or_false] at hne
  simp [markKind, @hne '(', @hne ')', @hne '{', @hne '}', @hne '[', @hne ']']

theorem isKindOfMark_iff (c : Char) (kind : TokenKind) :
    IsKindOfMark c kind ↔ kind = markKind c := by
  constructor
  · intro h
    cases h with
    | bracket mem => exact markKind_of_mem mem
    | punctuation free => exact (markKind_of_free free).symm
  · rintro rfl
    by_cases h : ∃ kind, (c, kind) ∈ bracketKinds
    · obtain ⟨kind, hkind⟩ := h
      exact markKind_of_mem hkind ▸ .bracket hkind
    · have hfree : ∀ kind, (c, kind) ∉ bracketKinds := not_exists.1 h
      exact (markKind_of_free hfree).symm ▸ .punctuation hfree

/-! ## The token at a character -/

section Classes

variable {c : Char} (cs : List Char)

theorem not_mem_operatorChars {p : Char → Bool} (hp : operatorChars.any p = false)
    (h : p c = true) : c ∉ operatorChars :=
  fun hmem => List.any_eq_false.1 hp c hmem h

theorem comment_front {c d : Char} {cs : List Char} (h : ['/', d] <+: c :: cs) :
    c = '/' ∧ ∃ ds, cs = d :: ds := by
  obtain ⟨rest, hrest⟩ := h
  obtain ⟨hc, hcs⟩ := List.cons.inj hrest
  exact ⟨hc.symm, rest, hcs.symm⟩

theorem commentLength?_none_of_front {c : Char} {cs : List Char} (hline : ¬ ['/', '/'] <+: c :: cs)
    (hblock : ¬ ['/', '*'] <+: c :: cs) : commentLength? (c :: cs) = none := by
  unfold commentLength?
  split
  · rename_i ds heq
    rw [heq] at hline
    exact absurd ⟨ds, rfl⟩ hline
  · rename_i ds heq
    rw [heq] at hblock
    exact absurd ⟨ds, rfl⟩ hblock
  · rfl

theorem plainToken_of_quote (hc : Text.isQuoteMark c = true) :
    plainToken c cs = (.string, 1 + stringTailLength c cs) :=
  if_pos hc

theorem plainToken_of_digit (hc : Text.isDigit c = true) :
    plainToken c cs = (.number, numberLength (c :: cs)) := by
  rw [plainToken, (not_special_of_isDigit hc).2.1, hc]
  rfl

theorem plainToken_of_wordStart (hc : Text.isWordStart c = true) :
    plainToken c cs = (wordKind (String.ofList (c :: cs.takeWhile Text.isWordPart)),
      1 + (cs.takeWhile Text.isWordPart).length) := by
  rw [plainToken, (not_special_of_isWordStart hc).2.1, Text.isDigit_of_isWordStart hc, hc]
  simp only [Bool.false_eq_true, if_false, if_true, take_length_takeWhile]

/-- Operator characters start no string, number or word. -/
theorem plainToken_of_operatorChar (hc : c ∈ operatorChars) :
    plainToken c cs = match commentLength? (c :: cs) with
      | some n => (.comment, n)
      | none => (.operator, operatorLength (c :: cs)) := by
  have hquote : Text.isQuoteMark c = false :=
    Bool.eq_false_iff.2 fun h => not_mem_operatorChars (by decide) h hc
  have hdigit : Text.isDigit c = false :=
    Bool.eq_false_iff.2 fun h => not_mem_operatorChars (by decide +kernel) h hc
  have hword : Text.isWordStart c = false :=
    Bool.eq_false_iff.2 fun h => not_mem_operatorChars (by decide +kernel) h hc
  cases hcomment : commentLength? (c :: cs) <;>
    simp only [plainToken, hquote, hdigit, hword, hcomment, List.contains_iff_mem.2 hc,
      Bool.false_eq_true, if_false, if_true]

theorem plainToken_of_mark (hquote : Text.isQuoteMark c = false) (hdigit : Text.isDigit c = false)
    (hword : Text.isWordStart c = false) (hoperator : c ∉ operatorChars) :
    plainToken c cs = (markKind c, 1) := by
  have hslash {d : Char} : ¬ ['/', d] <+: c :: cs := fun h =>
    hoperator ((comment_front h).1 ▸ (by decide))
  have hcontains : operatorChars.contains c = false :=
    Bool.eq_false_iff.2 fun h => hoperator (List.contains_iff_mem.1 h)
  simp only [plainToken, hquote, hdigit, hword, commentLength?_none_of_front hslash hslash,
    hcontains, Bool.false_eq_true, if_false]

end Classes

/-! ## Each class of tokens -/

/-- The kind and text that are cut off at the front of an input inside a script. -/
def IsCutOff (c : Char) (cs : List Char) (kind : TokenKind) (text : List Char) : Prop :=
  kind = (plainToken c cs).1 ∧ text = (c :: cs).take (plainToken c cs).2

section CutOff

variable {c : Char} (cs : List Char) (kind : TokenKind) (text : List Char)

theorem string_iff (hc : Text.isQuoteMark c = true) :
    (kind = .string ∧
      ∃ tail, text = c :: tail ∧ ∃ rest, cs = tail ++ rest ∧ StringEnds c tail rest) ↔
    IsCutOff c cs kind text := by
  rw [IsCutOff, plainToken_of_quote cs hc, Nat.add_comm, List.take_succ_cons]
  simp only [stringEnds_iff hc, exists_eq_right]

theorem number_iff (hc : Text.isDigit c = true) :
    (kind = .number ∧ IsLongest IsNumber (c :: cs) text) ↔ IsCutOff c cs kind text := by
  rw [IsCutOff, plainToken_of_digit cs hc, (number_isLongest hc cs).iff_eq]

theorem word_iff (hc : Text.isWordStart c = true) :
    (IsKindOfWord (String.ofList text) kind ∧ IsLongest IsWord (c :: cs) text) ↔
      IsCutOff c cs kind text := by
  rw [IsCutOff, plainToken_of_wordStart cs hc, (word_isLongest hc cs).iff_eq, Nat.add_comm,
    List.take_succ_cons, take_length_takeWhile, isKindOfWord_iff]
  constructor <;>
  · rintro ⟨rfl, rfl⟩
    exact ⟨rfl, rfl⟩

theorem lineComment_iff : (kind = .comment ∧ IsLineComment ('/' :: '/' :: cs) text) ↔
    IsCutOff '/' ('/' :: cs) kind text := by
  rw [IsCutOff, plainToken_of_operatorChar _ (by decide), isLineComment_iff, commentLength?]
  simp only [Nat.add_comm 2, List.take_succ_cons, take_length_takeWhile]

theorem blockComment_iff : (kind = .comment ∧ IsBlockComment ('/' :: '*' :: cs) text) ↔
    IsCutOff '/' ('*' :: cs) kind text := by
  rw [IsCutOff, plainToken_of_operatorChar _ (by decide), isBlockComment_iff, commentLength?]
  simp only [Nat.add_comm 2, List.take_succ_cons]

theorem operator_iff (hc : c ∈ operatorChars) (hline : ¬ ['/', '/'] <+: c :: cs)
    (hblock : ¬ ['/', '*'] <+: c :: cs) :
    (kind = .operator ∧ IsLongest (· ∈ operators) (c :: cs) text) ↔ IsCutOff c cs kind text := by
  rw [IsCutOff, plainToken_of_operatorChar cs hc, commentLength?_none_of_front hline hblock,
    (operator_isLongest hc cs).iff_eq]

theorem mark_iff (hquote : Text.isQuoteMark c = false) (hdigit : Text.isDigit c = false)
    (hword : Text.isWordStart c = false) (hoperator : c ∉ operatorChars) :
    (IsKindOfMark c kind ∧ text = [c]) ↔ IsCutOff c cs kind text := by
  rw [IsCutOff, plainToken_of_mark cs hquote hdigit hword hoperator, isKindOfMark_iff,
    List.take_succ_cons, List.take_zero]

/-- **The token that is cut off inside a script follows the grammar**, and no other does. -/
theorem isScriptToken_iff : IsScriptToken c cs kind text ↔ IsCutOff c cs kind text := by
  constructor
  · intro h
    cases hquote : Text.isQuoteMark c with
    | true => exact (string_iff cs kind text hquote).1 (h.string hquote)
    | false =>
    cases hdigit : Text.isDigit c with
    | true => exact (number_iff cs kind text hdigit).1 (h.number hdigit)
    | false =>
    cases hword : Text.isWordStart c with
    | true => exact (word_iff cs kind text hword).1 (h.word hword)
    | false =>
    by_cases hoperator : c ∈ operatorChars
    · by_cases hline : ['/', '/'] <+: c :: cs
      · obtain ⟨rfl, ds, rfl⟩ := comment_front hline
        exact (lineComment_iff ds kind text).1 (h.lineComment hline)
      by_cases hblock : ['/', '*'] <+: c :: cs
      · obtain ⟨rfl, ds, rfl⟩ := comment_front hblock
        exact (blockComment_iff ds kind text).1 (h.blockComment hblock)
      exact (operator_iff cs kind text hoperator hline hblock).1 (h.operator hoperator hline hblock)
    · exact (mark_iff cs kind text hquote hdigit hword hoperator).1
        (h.mark hquote hdigit hword hoperator)
  · intro h
    constructor
    case string => exact fun hc => (string_iff cs kind text hc).2 h
    case number => exact fun hc => (number_iff cs kind text hc).2 h
    case word => exact fun hc => (word_iff cs kind text hc).2 h
    case lineComment =>
      intro hline
      obtain ⟨rfl, ds, rfl⟩ := comment_front hline
      exact (lineComment_iff ds kind text).2 h
    case blockComment =>
      intro hblock
      obtain ⟨rfl, ds, rfl⟩ := comment_front hblock
      exact (blockComment_iff ds kind text).2 h
    case operator =>
      exact fun hc hline hblock => (operator_iff cs kind text hc hline hblock).2 h
    case mark =>
      exact fun hquote hdigit hword hoperator =>
        (mark_iff cs kind text hquote hdigit hword hoperator).2 h

end CutOff

/-! ## The tokens of a page -/

/-- A token of an input stands behind some of its characters and follows the grammar there. -/
def Token.Grammatical (t : Token) (place : Cursor) (input : List Char) : Prop :=
  ∃ front c cs, input = front ++ c :: cs ∧ t.offset = place.offset + front.length ∧
    IsScriptToken c cs t.kind t.text.toList

/-- A token of what follows is one of the whole input. -/
theorem Token.Grammatical.behind {t : Token} {place : Cursor} {front rest : List Char}
    (h : t.Grammatical (place.advance front) rest) : t.Grammatical place (front ++ rest) := by
  obtain ⟨more, c, cs, rfl, hoffset, hform⟩ := h
  refine ⟨front ++ more, c, cs, (List.append_assoc ..).symm, ?_, hform⟩
  rw [hoffset, Cursor.advance_offset, List.length_append]
  omega

/-- The cut inside a script that does not close it. -/
theorem scriptCut_grammatical {c : Char} {cs : List Char} {kind : TokenKind}
    (hkind : (scriptCut c cs).kind = some kind) (hclose : kind ≠ .scriptClose)
    (file : Option String) (place : Cursor) :
    (Token.at file place kind (scriptCut c cs).text).Grammatical place (c :: cs) := by
  have hplain : scriptToken c cs = plainToken c cs := by
    unfold scriptToken
    split
    · rename_i n hn
      have : some TokenKind.scriptClose = some kind := by
        rw [← hkind, scriptCut, scriptToken, hn]
        rfl
      exact absurd (Option.some.inj this).symm hclose
    · rfl
  rw [scriptCut, hplain] at hkind ⊢
  refine ⟨[], c, cs, rfl, (Int.add_zero _).symm, ?_⟩
  rw [isScriptToken_iff, Token.at, String.toList_ofList]
  exact ⟨(Option.some.inj hkind).symm, rfl⟩

/-- **Every token of a script follows the grammar**, by the scanner's recursion. -/
theorem scanFrom_grammatical (file : Option String) (mode : Mode) (place : Cursor)
    (input : List Char) : ∀ before t after,
      (scanFrom file mode place input).tokens = before ++ t :: after →
      modeAfter mode before = .script → t.kind ≠ .scriptClose → t.kind ≠ .eof →
      t.Grammatical place input := by
  fun_induction scanFrom file mode place input with
  | case1 mode place input start h =>
    intro before t after htokens _ _ heof
    have htokens : [Token.at file start .eof []] = before ++ t :: after := htokens
    have hmem : t ∈ [Token.at file start .eof []] := by
      rw [htokens]
      exact List.mem_append_right _ List.mem_cons_self
    rw [List.mem_singleton.1 hmem] at heof
    exact absurd rfl heof
  | case2 mode place input place' c cs h cut start stop next hlt tail ih =>
    intro before t after htokens hmode hclose heof
    have hparts : cut.lead ++ (cut.text ++ (cut.trail ++ cut.rest)) = c :: cs := by
      have : cut.parts = c :: cs := mode.cut_parts c cs
      rwa [Cut.parts, List.append_assoc, List.append_assoc] at this
    have hinput : input = input.takeWhile isSkipped ++ c :: cs := by
      rw [← h, List.takeWhile_append_dropWhile]
    -- A token behind the cut is grammatical in what the cut leaves.
    have hbehind {before : List Token} (htail : tail.tokens = before ++ t :: after)
        (hmode : modeAfter next before = .script) : t.Grammatical place input := by
      have hleft := ih before t after htail hmode hclose heof
      rw [hinput, ← hparts]
      exact .behind (.behind (.behind (.behind hleft)))
    cases hkind : cut.kind with
    | none =>
      have hnext : next = mode := by
        simp only [next, hkind]
        rfl
      simp only [Cut.token?, hkind, Option.map_none, Option.toList_none, List.nil_append] at htokens
      exact hbehind htokens (hnext ▸ hmode)
    | some kind =>
      have hnext : next = mode.after (some kind) := by simp only [next, hkind]
      simp only [Cut.token?, hkind, Option.map_some, Option.toList_some, List.singleton_append]
        at htokens
      cases before with
      | nil =>
        obtain ⟨rfl, -⟩ := List.cons.inj htokens
        obtain rfl : mode = .script := hmode
        rw [hinput]
        exact .behind (scriptCut_grammatical hkind hclose file place')
      | cons first before =>
        obtain ⟨rfl, htail⟩ := List.cons.inj htokens
        exact hbehind htail (hnext ▸ hmode)

/-- **Script tokens follow the grammar with the longest match**: every token of a page that is
scanned inside a script and does not close it is the one that the grammar gives for the source from
its place on. -/
theorem scriptTokens_grammatical (source : String) (file : Option String)
    {before after : List Token} {t : Token} (htokens : tokenize source file = before ++ t :: after)
    (hmode : modeAfter .markup before = .script) (hclose : t.kind ≠ .scriptClose)
    (heof : t.kind ≠ .eof) :
    ∃ (p : Nat) (c : Char) (cs : List Char), t.offset = p ∧ source.toList.drop p = c :: cs ∧
      IsScriptToken c cs t.kind t.text.toList := by
  obtain ⟨front, c, cs, hsource, hoffset, hform⟩ :=
    scanFrom_grammatical file .markup .start source.toList before t after htokens hmode hclose heof
  refine ⟨front.length, c, cs, ?_, ?_, hform⟩
  · rw [hoffset]
    exact Int.zero_add _
  · rw [hsource, List.drop_left]

/-- A number whose exponent has no digit ends in front of it, and the letter starts a name. -/
theorem brokenExponent_grammatical :
    let source := "<script>1.5e+"
    let opening : Token :=
      { kind := .scriptOpen, text := "<script>", line := 1, column := 1, offset := 0 }
    let number : Token := { kind := .number, text := "1.5", line := 1, column := 9, offset := 8 }
    let name : Token := { kind := .identifier, text := "e", line := 1, column := 12, offset := 11 }
    let plus : Token := { kind := .operator, text := "+", line := 1, column := 13, offset := 12 }
    let eof : Token := { kind := .eof, text := "", line := 1, column := 14, offset := 13 }
    tokenize source none = [opening] ++ number :: [name, plus, eof] ∧
    modeAfter .markup [opening] = .script ∧ number.kind ≠ .scriptClose ∧ number.kind ≠ .eof ∧
    ∃ (p : Nat) (c : Char) (cs : List Char), number.offset = p ∧ source.toList.drop p = c :: cs ∧
      IsScriptToken c cs number.kind number.text.toList := by
  intro source opening number name plus eof
  have htokens : tokenize source none = [opening] ++ number :: [name, plus, eof] := by
    decide +kernel
  exact ⟨htokens, rfl, by decide, by decide,
    scriptTokens_grammatical source none htokens rfl (by decide) (by decide)⟩

end PageLint
