import Mathlib.Data.List.TakeWhile
import PageLint.Token.Stream

/-!
# Scanning a script piece by piece

The tokens of a script that is put together from words, numbers, strings and marks. Each piece is
scanned as one token, whatever comes before it, provided that what follows cannot make it longer.

* `Scans` — an input is scanned as tokens of given kinds and texts, and then as the rest
* `Scans.word`, `Scans.number`, `Scans.string`, `Scans.mark` — one piece each
-/

namespace PageLint

/-! ## Classes of characters -/

namespace Text

/-- Whether two lists of ranges have no number in common. Ranges below the first of the one list
are passed over in the other. -/
def areDisjoint : List (Nat × Nat) → List (Nat × Nat) → Bool
  | [], _ => true
  | r :: a, b =>
    let b := b.dropWhile fun s => s.2 < r.1
    (b.head?.all fun s => r.2 < s.1) && areDisjoint a b

theorem codeInRanges_dropWhile {lo n : Nat} (h : lo ≤ n) (ranges : List (Nat × Nat)) :
    codeInRanges (ranges.dropWhile fun s => s.2 < lo) n = codeInRanges ranges n ∨
      codeInRanges ranges n = false := by
  induction ranges with
  | nil => exact Or.inl rfl
  | cons s ranges ih =>
    by_cases hs : s.2 < lo
    · rw [List.dropWhile_cons_of_pos (by simpa using hs)]
      by_cases hlo : n < s.1
      · exact Or.inr (by simp [codeInRanges, hlo])
      · have hhi : ¬ n ≤ s.2 := by omega
        simpa [codeInRanges, hlo, hhi] using ih
    · rw [List.dropWhile_cons_of_neg (by simpa using hs)]
      exact Or.inl rfl

theorem codeInRanges_of_areDisjoint {a b : List (Nat × Nat)} (h : areDisjoint a b = true) {n : Nat}
    (ha : codeInRanges a n = true) : codeInRanges b n = false := by
  induction a generalizing b with
  | nil => simp [codeInRanges] at ha
  | cons r a ih =>
    rw [areDisjoint, Bool.and_eq_true] at h
    obtain ⟨hhead, htail⟩ := h
    unfold codeInRanges at ha
    split at ha
    · simp at ha
    rename_i hlo
    rcases codeInRanges_dropWhile (Nat.not_lt.1 hlo) b with heq | hb
    · rw [← heq]
      rw [Bool.or_eq_true, decide_eq_true_eq] at ha
      rcases ha with hhi | ha
      · -- The ranges that are left in the other list start above this one.
        cases hb : b.dropWhile fun s => s.2 < r.1 with
        | nil => rfl
        | cons s b =>
          have hs : r.2 < s.1 := by simpa [hb] using hhead
          have hn : n < s.1 := by omega
          simp [codeInRanges, hn]
      · exact ih htail ha
    · exact hb

/-- A character that starts a name is no digit. -/
theorem isDigit_of_isWordStart {c : Char} (h : isWordStart c = true) : isDigit c = false := by
  have hlist : areDisjoint letterRanges decimalRanges = true ∧
      areDisjoint letterRanges otherDigitRanges = true ∧
      areDisjoint letterlikeStartRanges decimalRanges = true ∧
      areDisjoint letterlikeStartRanges otherDigitRanges = true := by decide +kernel
  obtain ⟨hld, hlo, hsd, hso⟩ := hlist
  have hcases : c = '_' ∨ inRanges letterRanges c = true ∨
      inRanges letterlikeStartRanges c = true := by
    simp only [isWordStart, isIdentifierStart, isLetter, Bool.or_eq_true, Bool.and_eq_true,
      beq_iff_eq] at h
    rcases h with (h | h) | (h | ⟨h, -⟩) | h
    · exact Or.inl h
    · exact Or.inr (Or.inl h)
    · exact Or.inl h
    · exact Or.inr (Or.inl h)
    · exact Or.inr (Or.inr h)
  rw [isDigit, isDecimal, Bool.or_eq_false_iff]
  rcases hcases with rfl | hc | hc
  · decide
  · exact ⟨codeInRanges_of_areDisjoint hld hc, codeInRanges_of_areDisjoint hlo hc⟩
  · exact ⟨codeInRanges_of_areDisjoint hsd hc, codeInRanges_of_areDisjoint hso hc⟩

end Text

/-! ## Scanning on -/

/-- The kind and text of a token. -/
def Token.shape (t : Token) : TokenKind × String := (t.kind, t.text)

/-- In a mode, an input is scanned as tokens of given shapes, and then in the next mode as the
rest. -/
def Scans (file : Option String) (mode : Mode) (input : List Char)
    (shapes : List (TokenKind × String)) (next : Mode) (rest : List Char) : Prop :=
  ∀ place, ∃ tokens place', (scanFrom file mode place input).tokens =
    tokens ++ (scanFrom file next place' rest).tokens ∧ tokens.map Token.shape = shapes

theorem Scans.trans {file : Option String} {mode next last : Mode} {input middle rest : List Char}
    {shapes shapes' : List (TokenKind × String)} (h : Scans file mode input shapes next middle)
    (h' : Scans file next middle shapes' last rest) :
    Scans file mode input (shapes ++ shapes') last rest := by
  intro place
  obtain ⟨tokens, place', htokens, hshapes⟩ := h place
  obtain ⟨tokens', place'', htokens', hshapes'⟩ := h' place'
  refine ⟨tokens ++ tokens', place'', ?_, ?_⟩
  · rw [htokens, htokens', List.append_assoc]
  · rw [List.map_append, hshapes, hshapes']

/-- One step of scanning, at a character that is not skipped. -/
theorem scanFrom_cons {input cs : List Char} {c : Char} (h : input.dropWhile isSkipped = c :: cs)
    (file : Option String) (mode : Mode) (place : Cursor) :
    let cut := mode.cut c cs
    let start := (place.advance (input.takeWhile isSkipped)).advance cut.lead
    let stop := (start.advance cut.text).advance cut.trail
    (scanFrom file mode place input).tokens = (cut.token? file start).toList ++
      (scanFrom file (mode.after cut.kind) stop cut.rest).tokens := by
  rw [scanFrom]
  split
  · rename_i h'
    rw [h] at h'
    simp at h'
  · rename_i c' cs' h'
    rw [h] at h'
    obtain ⟨rfl, rfl⟩ := List.cons.inj h'
    rfl

theorem scanFrom_nil {input : List Char} (h : input.dropWhile isSkipped = [])
    (file : Option String) (mode : Mode) (place : Cursor) :
    (scanFrom file mode place input).tokens =
      [Token.at file (place.advance (input.takeWhile isSkipped)) .eof []] := by
  rw [scanFrom]
  split
  · rfl
  · rename_i c cs h'
    rw [h] at h'
    simp at h'

theorem Cursor.advance_append (p : Cursor) (cs ds : List Char) :
    p.advance (cs ++ ds) = (p.advance cs).advance ds :=
  List.foldl_append

/-- Skipped characters only move the place. -/
theorem scanFrom_gap {gap : List Char} (hgap : gap.all isSkipped = true) (rest : List Char)
    (file : Option String) (mode : Mode) (place : Cursor) :
    (scanFrom file mode place (gap ++ rest)).tokens =
      (scanFrom file mode (place.advance gap) rest).tokens := by
  have hskip := List.all_eq_true.1 hgap
  have htake : (gap ++ rest).takeWhile isSkipped = gap ++ rest.takeWhile isSkipped :=
    List.takeWhile_append_of_pos hskip
  have hdrop : (gap ++ rest).dropWhile isSkipped = rest.dropWhile isSkipped :=
    List.dropWhile_append_of_pos hskip
  cases h : rest.dropWhile isSkipped with
  | nil =>
    rw [scanFrom_nil h, scanFrom_nil (hdrop.trans h), htake, Cursor.advance_append]
  | cons c cs =>
    rw [scanFrom_cons h, scanFrom_cons (hdrop.trans h), htake, Cursor.advance_append]

theorem Scans.gap (file : Option String) (mode : Mode) {gap : List Char}
    (h : gap.all isSkipped = true) (rest : List Char) :
    Scans file mode (gap ++ rest) [] mode rest := by
  intro place
  exact ⟨[], place.advance gap, by rw [scanFrom_gap h]; rfl, rfl⟩

/-- A piece that is cut off as a token. -/
theorem Scans.cut (file : Option String) {mode : Mode} {c : Char} (piece : List Char)
    (hc : isSkipped c = false) {rest : List Char} {kind : TokenKind}
    (h : mode.cut c (piece ++ rest) = Cut.ofLength kind (piece.length + 1) (c :: (piece ++ rest))) :
    Scans file mode (c :: (piece ++ rest)) [(kind, String.ofList (c :: piece))]
      (mode.after (some kind)) rest := by
  intro place
  have hdrop : (c :: (piece ++ rest)).dropWhile isSkipped = c :: (piece ++ rest) := by simp [hc]
  have hcut : mode.cut c (piece ++ rest) =
      { lead := [], kind := some kind, text := c :: piece, trail := [], rest } := by
    simp [h, Cut.ofLength]
  rw [scanFrom_cons hdrop, hcut]
  exact ⟨[_], _, rfl, rfl⟩

/-- A piece of a script that is cut off as a token. -/
theorem Scans.token (file : Option String) {c : Char} (piece : List Char)
    (hc : isSkipped c = false) {rest : List Char} {kind : TokenKind}
    (hk : Mode.after .script (some kind) = .script)
    (h : scriptToken c (piece ++ rest) = (kind, piece.length + 1)) :
    Scans file .script (c :: (piece ++ rest)) [(kind, String.ofList (c :: piece))] .script rest := by
  have hcut : Mode.cut .script c (piece ++ rest) =
      Cut.ofLength kind (piece.length + 1) (c :: (piece ++ rest)) := by
    show scriptCut c (piece ++ rest) = _
    rw [scriptCut, h]
  have := Scans.cut file piece hc hcut
  rwa [hk] at this

/-! ## Words -/

/-- Whether a character can follow any token without making it longer: a skipped character, an
equals sign, a semicolon or the start of a closing tag. -/
def isBreak (c : Char) : Bool := isSkipped c || c == '=' || c == ';' || c == '<'

/-- Whether a text is empty or goes on with a break. -/
def breaks (rest : List Char) : Bool := rest.head?.all isBreak

theorem isBreak_cases {c : Char} (h : isBreak c = true) :
    c ∈ [' ', '\t', '\r', '\n', '=', ';', '<'] := by
  simp only [isBreak, isSkipped, Bool.or_eq_true, beq_iff_eq] at h
  simp only [List.mem_cons, List.not_mem_nil, or_false]
  rcases h with (((((h | h) | h) | h) | h) | h) | h <;> simp [h]

/-- No break continues a word or a number. -/
theorem not_part_of_isBreak {c : Char} (h : isBreak c = true) :
    Text.isWordPart c = false ∧ Text.isDigit c = false ∧ c ≠ '.' ∧ c ≠ 'e' ∧ c ≠ 'E' := by
  have hall : [' ', '\t', '\r', '\n', '=', ';', '<'].all (fun d =>
      !Text.isWordPart d && !Text.isDigit d && d != '.' && d != 'e' && d != 'E') = true := by
    decide +kernel
  simpa [and_assoc] using List.all_eq_true.1 hall c (isBreak_cases h)

/-- The characters that start no word and no number. -/
def specialChars : List Char := [' ', '\t', '\r', '\n', '"', '\'', '<', '=']

/-- A character of a class without special ones is neither skipped nor a quote mark nor the start
of a tag, nor an equals sign. -/
theorem not_special {p : Char → Bool} (hp : specialChars.any p = false) {c : Char}
    (h : p c = true) :
    isSkipped c = false ∧ Text.isQuoteMark c = false ∧ c ≠ '<' ∧ c ≠ '=' := by
  have hne : ∀ d ∈ specialChars, c ≠ d := by
    rintro d hd rfl
    exact List.any_eq_false.1 hp c hd h
  simp only [specialChars, List.mem_cons, List.not_mem_nil, or_false, forall_eq_or_imp,
    forall_eq] at hne
  obtain ⟨h1, h2, h3, h4, h5, h6, h7, h8⟩ := hne
  simp [isSkipped, Text.isQuoteMark, h1, h2, h3, h4, h5, h6, h7, h8]

theorem not_special_of_isWordStart {c : Char} (h : Text.isWordStart c = true) :
    isSkipped c = false ∧ Text.isQuoteMark c = false ∧ c ≠ '<' ∧ c ≠ '=' :=
  not_special (by decide +kernel) h

theorem not_special_of_isDigit {c : Char} (h : Text.isDigit c = true) :
    isSkipped c = false ∧ Text.isQuoteMark c = false ∧ c ≠ '<' ∧ c ≠ '=' :=
  not_special (by decide +kernel) h

/-- Only a capital letter changes when it is folded, and then to a small letter. -/
theorem toLower_ne {c d : Char} (hd : d.toNat < 97) (h : c ≠ d) : c.toLower ≠ d := by
  intro heq
  unfold Char.toLower at heq
  split at heq
  · rename_i hupper
    have hval := congrArg Char.val heq
    have hge : 'A'.val.toNat ≤ c.val.toNat := UInt32.le_iff_toNat_le.1 hupper.1
    have hle : c.val.toNat ≤ 'Z'.val.toNat := UInt32.le_iff_toNat_le.1 hupper.2
    have hnat := congrArg UInt32.toNat hval
    simp at hnat hge hle
    omega
  · exact h heq

/-- Only the start of a tag can close a script. -/
theorem scriptCloseLength?_eq_none {c : Char} (h : c ≠ '<') (cs : List Char) :
    scriptCloseLength? (c :: cs) = none := by
  have hfold : Text.startsWithFolded ['<', '/', 's', 'c', 'r', 'i', 'p', 't'] (c :: cs) = false := by
    simp [Text.startsWithFolded, toLower_ne (by decide) h]
  rw [scriptCloseLength?, hfold]
  rfl

/-- Whether a text does not go on a word in front of it. -/
def endsWord (rest : List Char) : Bool := rest.head?.all fun c => !Text.isWordPart c

/-- Whether a text does not go on a number in front of it. -/
def endsNumber (rest : List Char) : Bool :=
  rest.head?.all fun c => !Text.isDigit c && c != '.' && c != 'e' && c != 'E'

theorem endsWord_of_breaks {rest : List Char} (h : breaks rest = true) : endsWord rest = true := by
  cases rest with
  | nil => rfl
  | cons c rest =>
    have hc := not_part_of_isBreak (c := c) h
    simp [endsWord, hc]

theorem endsNumber_of_breaks {rest : List Char} (h : breaks rest = true) :
    endsNumber rest = true := by
  cases rest with
  | nil => rfl
  | cons c rest =>
    have hc := not_part_of_isBreak (c := c) h
    simp [endsNumber, hc]

theorem endsNumber_head {rest : List Char} (h : endsNumber rest = true) :
    ∀ c ∈ rest.head?, Text.isDigit c = false ∧ c ≠ '.' ∧ c ≠ 'e' ∧ c ≠ 'E' := by
  intro c hc
  rw [endsNumber, Option.mem_def.1 hc] at h
  simpa [and_assoc] using h

theorem takeWhile_word {cs rest : List Char} (hcs : cs.all Text.isWordPart = true)
    (hrest : endsWord rest = true) : (cs ++ rest).takeWhile Text.isWordPart = cs := by
  rw [List.takeWhile_append_of_pos (List.all_eq_true.1 hcs)]
  cases rest with
  | nil => simp
  | cons c rest =>
    have hc : Text.isWordPart c = false := by simpa [endsWord] using hrest
    simp [hc]

theorem wordKind_cases (word : String) : wordKind word = .boolean ∨ wordKind word = .null ∨
    wordKind word = .keyword ∨ wordKind word = .identifier := by
  unfold wordKind
  split
  · exact Or.inl rfl
  split
  · exact Or.inr (Or.inl rfl)
  split
  · exact Or.inr (Or.inr (Or.inl rfl))
  · exact Or.inr (Or.inr (Or.inr rfl))

/-- **A word is scanned as one token.** -/
theorem Scans.word (file : Option String) {first : Char} {others rest : List Char}
    (hstart : Text.isWordStart first = true) (hparts : others.all Text.isWordPart = true)
    (hrest : endsWord rest = true) :
    Scans file .script (first :: (others ++ rest))
      [(wordKind (String.ofList (first :: others)), String.ofList (first :: others))]
      .script rest := by
  obtain ⟨hskip, hquote, hangle, -⟩ := not_special_of_isWordStart hstart
  have htake := takeWhile_word hparts hrest
  refine Scans.token file others hskip ?_ ?_
  · rcases wordKind_cases (String.ofList (first :: others)) with h | h | h | h <;>
      rw [h] <;> rfl
  · rw [scriptToken, scriptCloseLength?_eq_none hangle, plainToken, hquote,
      Text.isDigit_of_isWordStart hstart, hstart]
    simp only [Bool.false_eq_true, if_false, if_true, htake, List.take_left, Nat.add_comm]

/-! ## Marks -/

/-- Marks that are tokens of their own: parentheses and punctuation. -/
def marks : List Char := ['(', ')', ',', '.', ';']

/-- **A mark is scanned as one token**, whatever follows. -/
theorem Scans.mark (file : Option String) {c : Char} (hc : c ∈ marks) (rest : List Char) :
    Scans file .script (c :: rest) [(markKind c, String.ofList [c])] .script rest := by
  have hclass : (marks.all fun d => !isSkipped d && d != '<' && d != '/' && !Text.isQuoteMark d &&
      !Text.isDigit d && !Text.isWordStart d && !operatorChars.contains d &&
      Mode.after .script (some (markKind d)) == .script) = true := by
    decide +kernel
  have hchar := List.all_eq_true.1 hclass c hc
  simp only [Bool.and_eq_true, Bool.not_eq_true', bne_iff_ne, beq_iff_eq] at hchar
  obtain ⟨⟨⟨⟨⟨⟨⟨hskip, hangle⟩, hslash⟩, hquote⟩, hdigit⟩, hstart⟩, hoperator⟩, hmode⟩ := hchar
  have hcomment : commentLength? (c :: rest) = none := by
    unfold commentLength?
    split
    · rename_i heq
      exact absurd (List.cons.inj heq).1 hslash
    · rename_i heq
      exact absurd (List.cons.inj heq).1 hslash
    · rfl
  refine Scans.token file [] hskip hmode ?_
  rw [scriptToken, scriptCloseLength?_eq_none hangle]
  simp only [plainToken, List.nil_append, hquote, hdigit, hstart, hoperator, hcomment,
    Bool.false_eq_true, if_false, List.length_nil, Nat.zero_add]

theorem Scans.semicolon (file : Option String) (rest : List Char) :
    Scans file .script (';' :: rest) [(.punctuation, ";")] .script rest :=
  Scans.mark file (by decide) rest

/-- **An equals sign that no other follows is scanned as an operator.** -/
theorem Scans.equals (file : Option String) {rest : List Char} (hrest : rest.head? ≠ some '=') :
    Scans file .script ('=' :: rest) [(.operator, "=")] .script rest := by
  have hclass : Text.isQuoteMark '=' = false ∧ Text.isDigit '=' = false ∧
      Text.isWordStart '=' = false ∧ operatorChars.contains '=' = true := by decide +kernel
  have hlength : operatorLength ('=' :: rest) = 1 := by
    cases rest with
    | nil => rfl
    | cons c rest =>
      have hc : c ≠ '=' := by simpa using hrest
      cases rest <;> simp [operatorLength, longOperators, pairOperators, hc]
  refine Scans.token file [] (by decide) rfl ?_
  rw [scriptToken, scriptCloseLength?_eq_none (by decide)]
  simp only [plainToken, hclass, commentLength?, Bool.false_eq_true, if_false, if_true,
    List.nil_append, hlength]
  rfl

/-- All operators. -/
def operators : List (List Char) :=
  longOperators ++ pairOperators ++ operatorChars.map fun c => [c]

/-- Whether a text does not go on an operator in front of it. -/
def endsOperator (rest : List Char) : Bool := rest.head?.all fun c => !operatorChars.contains c

/-- What does not go on an operator makes no longer operator of it: every operator of a table takes
`n` operator characters. -/
theorem contains_take_append {table : List (List Char)} {n : Nat}
    (htable : ∀ entry ∈ table, entry.length = n ∧ entry.all operatorChars.contains = true)
    {op rest : List Char} (hrest : endsOperator rest = true) :
    table.contains ((op ++ rest).take n) = table.contains (op.take n) := by
  by_cases hn : n ≤ op.length
  · rw [List.take_append_of_le_length hn]
  have hleft : (op ++ rest).take n ∉ table := by
    intro hmem
    obtain ⟨hlength, hchars⟩ := htable _ hmem
    cases rest with
    | nil =>
      rw [List.append_nil, List.length_take] at hlength
      omega
    | cons c rest =>
      have hc : c ∉ operatorChars := by simpa [endsOperator] using hrest
      refine hc (List.contains_iff_mem.1 (List.all_eq_true.1 hchars c ?_))
      rw [List.take_append, List.mem_append]
      obtain ⟨m, hm⟩ : ∃ m, n - op.length = m + 1 := ⟨n - op.length - 1, by omega⟩
      exact Or.inr (by simp [hm])
  have hright : op.take n ∉ table := by
    intro hmem
    have hlength := (htable _ hmem).1
    rw [List.length_take] at hlength
    omega
  rw [List.contains_eq_mem, List.contains_eq_mem, decide_eq_false hleft, decide_eq_false hright]

theorem operatorLength_append {op rest : List Char} (hop : op ∈ operators)
    (hrest : endsOperator rest = true) : operatorLength (op ++ rest) = op.length := by
  have hlengths : ∀ o ∈ operators, operatorLength o = o.length := by decide
  rw [operatorLength, contains_take_append (by decide) hrest,
    contains_take_append (by decide) hrest, ← operatorLength]
  exact hlengths op hop

/-- Behind the first character of an operator nothing starts a comment or closes a script. -/
theorem second_of_operator {c d : Char} {piece rest cs : List Char} (hop : c :: piece ∈ operators)
    (hrest : endsOperator rest = true) (h : piece ++ rest = d :: cs) :
    d ≠ '/' ∧ (c = '/' → d ≠ '*') := by
  cases piece with
  | nil =>
    rw [List.nil_append] at h
    rw [h] at hrest
    have hd : d ∉ operatorChars := by simpa [endsOperator] using hrest
    constructor
    · rintro rfl
      exact hd (by decide)
    · rintro - rfl
      exact hd (by decide)
  | cons e piece =>
    have hall : ∀ o ∈ operators,
        (o[1]?.all fun e => e != '/' && (o.head? != some '/' || e != '*')) = true := by
      decide
    obtain ⟨rfl, -⟩ := List.cons.inj h
    have hsecond := hall _ hop
    simp only [List.getElem?_cons_succ, List.getElem?_cons_zero, Option.all_some, List.head?_cons,
      Bool.and_eq_true, Bool.or_eq_true, bne_iff_ne, ne_eq, Option.some.injEq] at hsecond
    exact ⟨hsecond.1, fun hc => hsecond.2.resolve_left (not_not_intro hc)⟩

/-- **An operator is scanned as one token.** -/
theorem Scans.operator (file : Option String) {op rest : List Char} (hop : op ∈ operators)
    (hrest : endsOperator rest = true) :
    Scans file .script (op ++ rest) [(.operator, String.ofList op)] .script rest := by
  have hclass : ∀ o ∈ operators, (o.head?.any fun c => !isSkipped c && !Text.isQuoteMark c &&
      !Text.isDigit c && !Text.isWordStart c && operatorChars.contains c) = true := by
    decide +kernel
  obtain ⟨c, hhead, hchar⟩ := (Option.any_eq_true _ _).1 (hclass op hop)
  obtain ⟨piece, rfl⟩ := List.head?_eq_some_iff.1 hhead
  simp only [Bool.and_eq_true, Bool.not_eq_true'] at hchar
  obtain ⟨⟨⟨⟨hskip, hquote⟩, hdigit⟩, hstart⟩, hoperator⟩ := hchar
  have hsecond : ∀ {d cs}, piece ++ rest = d :: cs → d ≠ '/' ∧ (c = '/' → d ≠ '*') :=
    second_of_operator hop hrest
  have hcomment : commentLength? (c :: (piece ++ rest)) = none := by
    unfold commentLength?
    split
    · rename_i heq
      exact absurd rfl (hsecond (List.cons.inj heq).2).1
    · rename_i heq
      obtain ⟨hc, hcs⟩ := List.cons.inj heq
      exact absurd rfl ((hsecond hcs).2 hc)
    · rfl
  have hclose : scriptCloseLength? (c :: (piece ++ rest)) = none := by
    have hfold : Text.startsWithFolded ['<', '/', 's', 'c', 'r', 'i', 'p', 't']
        (c :: (piece ++ rest)) = false := by
      cases hcs : piece ++ rest with
      | nil => simp [Text.startsWithFolded]
      | cons d cs => simp [Text.startsWithFolded, toLower_ne (by decide) (hsecond hcs).1]
    rw [scriptCloseLength?, hfold]
    rfl
  refine Scans.token file piece hskip rfl ?_
  rw [scriptToken, hclose]
  simp only [plainToken, hquote, hdigit, hstart, hoperator, hcomment, Bool.false_eq_true, if_false,
    if_true]
  rw [← List.cons_append, operatorLength_append hop hrest]
  rfl

/-! ## Numbers -/

/-- The exponent of a number. -/
structure Exponent where
  mark : Char
  sign : List Char
  digits : List Char
  mark_eq : mark = 'e' ∨ mark = 'E'
  sign_eq : sign = [] ∨ sign = ['+'] ∨ sign = ['-']
  digits_ne : digits ≠ []
  all_digits : digits.all Text.isDigit = true

/-- A number: digits, perhaps a point and further digits, and perhaps an exponent. -/
structure NumberText where
  first : Char
  others : List Char
  fraction : Option (List Char)
  exponent : Option Exponent
  first_digit : Text.isDigit first = true
  other_digits : others.all Text.isDigit = true
  fraction_digits : ∀ ds ∈ fraction, ds.all Text.isDigit = true

def Exponent.text (e : Exponent) : List Char := e.mark :: (e.sign ++ e.digits)

namespace NumberText

def fractionText (n : NumberText) : List Char := n.fraction.elim [] ('.' :: ·)

def exponentText (n : NumberText) : List Char := n.exponent.elim [] Exponent.text

/-- The text of a number after its first digit. -/
def tail (n : NumberText) : List Char := n.others ++ n.fractionText ++ n.exponentText

def text (n : NumberText) : List Char := n.first :: n.tail

end NumberText

theorem digitRun_append {ds rest : List Char} (hds : ds.all Text.isDigit = true)
    (hrest : ∀ c ∈ rest.head?, Text.isDigit c = false) : digitRun (ds ++ rest) = ds.length := by
  rw [digitRun, List.takeWhile_append_of_pos (List.all_eq_true.1 hds)]
  cases rest with
  | nil => simp
  | cons c rest => simp [hrest c rfl]

theorem exponentLength_text (e : Exponent) {rest : List Char} (h : endsNumber rest = true) :
    exponentLength (e.text ++ rest) = e.text.length := by
  have hmark : (e.mark == 'e' || e.mark == 'E') = true := by simpa using e.mark_eq
  have hsign : signLength (e.sign ++ (e.digits ++ rest)) = e.sign.length := by
    obtain ⟨d, ds, hd⟩ := List.exists_cons_of_ne_nil e.digits_ne
    have hdigit : Text.isDigit d = true := by
      have := e.all_digits
      rw [hd, List.all_cons, Bool.and_eq_true] at this
      exact this.1
    have hplus : Text.isDigit '+' = false ∧ Text.isDigit '-' = false := by decide +kernel
    have hne : d ≠ '+' ∧ d ≠ '-' := by
      constructor <;> intro heq <;> rw [heq] at hdigit <;> simp [hplus] at hdigit
    rcases e.sign_eq with hs | hs | hs <;> simp [hs, hd, signLength, hne]
  have hdigits : digitRun (e.digits ++ rest) = e.digits.length :=
    digitRun_append e.all_digits fun c hc => (endsNumber_head h c hc).1
  have hpos : e.digits.length ≠ 0 := fun h0 => e.digits_ne (List.length_eq_zero_iff.1 h0)
  rw [Exponent.text, List.cons_append, List.append_assoc, exponentLength, hmark]
  simp only [if_true, hsign, List.drop_left, hdigits, beq_iff_eq, hpos, if_false,
    List.length_cons, List.length_append]
  omega

namespace NumberText

variable (n : NumberText)

theorem exponentLength_append {rest : List Char} (h : endsNumber rest = true) :
    exponentLength (n.exponentText ++ rest) = n.exponentText.length := by
  unfold exponentText
  cases n.exponent with
  | some e => exact exponentLength_text e h
  | none =>
    cases rest with
    | nil => rfl
    | cons c rest =>
      obtain ⟨-, -, he, hE⟩ := endsNumber_head h c rfl
      simp [exponentLength, he, hE]

/-- What follows the digits before the point is no digit. -/
theorem exponentText_head {rest : List Char} (h : endsNumber rest = true) :
    ∀ c ∈ (n.exponentText ++ rest).head?, Text.isDigit c = false ∧ c ≠ '.' := by
  intro c hc
  have hdigit : Text.isDigit 'e' = false ∧ Text.isDigit 'E' = false := by decide +kernel
  unfold exponentText at hc
  cases he : n.exponent with
  | some e =>
    have hce : e.mark = c := by simpa [he, Exponent.text] using hc
    rcases e.mark_eq with hm | hm <;> simp [← hce, hm, hdigit]
  | none =>
    have hb : c ∈ rest.head? := by simpa [he] using hc
    obtain ⟨hdigit, hpoint, -⟩ := endsNumber_head h c hb
    exact ⟨hdigit, hpoint⟩

theorem fractionLength_append {rest : List Char} (h : endsNumber rest = true) :
    fractionLength (n.fractionText ++ (n.exponentText ++ rest)) = n.fractionText.length := by
  have hhead := n.exponentText_head h
  unfold fractionText
  cases hf : n.fraction with
  | some ds =>
    have hrun := digitRun_append (n.fraction_digits ds hf) fun c hc => (hhead c hc).1
    simp [fractionLength, hrun, Nat.add_comm]
  | none =>
    cases hr : n.exponentText ++ rest with
    | nil => rfl
    | cons c cs =>
      have hpoint := (hhead c (by rw [hr]; rfl)).2
      simp [fractionLength, hpoint]

/-- **A number is measured to its end** when nothing goes on it. -/
theorem numberLength_append {rest : List Char} (h : endsNumber rest = true) :
    numberLength (n.text ++ rest) = n.text.length := by
  have hwhole : digitRun (n.first :: n.others ++ (n.fractionText ++ (n.exponentText ++ rest))) =
      (n.first :: n.others).length := by
    refine digitRun_append (by simp [n.first_digit, n.other_digits]) ?_
    intro c hc
    cases hf : n.fraction with
    | some ds =>
      have hpoint : Text.isDigit '.' = false := by decide +kernel
      have : '.' = c := by simpa [fractionText, hf] using hc
      rw [← this, hpoint]
    | none => exact (n.exponentText_head h c (by simpa [fractionText, hf] using hc)).1
  have hsplit : n.text ++ rest =
      n.first :: n.others ++ (n.fractionText ++ (n.exponentText ++ rest)) := by
    simp [text, tail]
  have hdrop : (n.first :: n.others ++ (n.fractionText ++ (n.exponentText ++ rest))).drop
      ((n.first :: n.others).length + n.fractionText.length) = n.exponentText ++ rest := by
    rw [← List.append_assoc (n.first :: n.others), ← List.length_append, List.drop_left]
  rw [hsplit, numberLength]
  simp only [hwhole, List.drop_left, n.fractionLength_append h, hdrop, n.exponentLength_append h]
  simp [text, tail]
  omega

end NumberText

/-- **A number is scanned as one token.** -/
theorem Scans.number (file : Option String) (n : NumberText) {rest : List Char}
    (h : endsNumber rest = true) :
    Scans file .script (n.text ++ rest) [(.number, String.ofList n.text)] .script rest := by
  obtain ⟨hskip, hquote, hangle, -⟩ := not_special_of_isDigit n.first_digit
  refine Scans.token file n.tail hskip rfl ?_
  rw [scriptToken, scriptCloseLength?_eq_none hangle, plainToken, hquote, n.first_digit]
  simp only [Bool.false_eq_true, if_false, if_true]
  rw [show n.first :: (n.tail ++ rest) = n.text ++ rest from rfl, n.numberLength_append h]
  rfl

/-! ## Strings -/

/-- A character of a string, or a backslash with the character it takes along. -/
inductive StringItem where
  | plain (c : Char)
  | escaped (c : Char)

def StringItem.text : StringItem → List Char
  | plain c => [c]
  | escaped c => ['\\', c]

/-- A closed string: what stands between two equal quote marks. -/
structure StringText where
  mark : Char
  items : List StringItem
  mark_quote : Text.isQuoteMark mark = true
  plain_inside : ∀ c, .plain c ∈ items → c ≠ mark ∧ c ≠ '\\' ∧ c ≠ '\n'

/-- The text of a string after its opening mark. -/
def StringText.tail (s : StringText) : List Char := s.items.flatMap StringItem.text ++ [s.mark]

def StringText.text (s : StringText) : List Char := s.mark :: s.tail

/-- The length of a string goes through the mark behind its items. -/
theorem stringTailLength_items {mark : Char} (hmark : mark ≠ '\\') {items : List StringItem}
    (h : ∀ c, .plain c ∈ items → c ≠ mark ∧ c ≠ '\\' ∧ c ≠ '\n') (rest : List Char) :
    stringTailLength mark (items.flatMap StringItem.text ++ mark :: rest) =
      (items.flatMap StringItem.text).length + 1 := by
  induction items with
  | nil => simp [stringTailLength, hmark]
  | cons item items ih =>
    have ih := ih fun c hc => h c (List.mem_cons_of_mem _ hc)
    cases item with
    | escaped c =>
      show stringTailLength mark ('\\' :: c :: (items.flatMap StringItem.text ++ mark :: rest)) = _
      rw [stringTailLength, ih]
      simp [StringItem.text]
    | plain c =>
      obtain ⟨hne, hslash, hline⟩ := h c List.mem_cons_self
      show stringTailLength mark (c :: (items.flatMap StringItem.text ++ mark :: rest)) = _
      rw [stringTailLength, ih]
      · simp [StringItem.text, hne, hline]
      · intro h _
        exact hslash h
      · intro _ _ h _
        exact hslash h

/-- **A closed string is scanned as one token**, whatever follows. -/
theorem Scans.string (file : Option String) (s : StringText) (rest : List Char) :
    Scans file .script (s.text ++ rest) [(.string, String.ofList s.text)] .script rest := by
  have hmarks : s.mark = '"' ∨ s.mark = '\'' := by
    simpa [Text.isQuoteMark] using s.mark_quote
  have hmark : isSkipped s.mark = false ∧ s.mark ≠ '<' ∧ s.mark ≠ '\\' := by
    rcases hmarks with h | h <;> rw [h] <;> decide
  have hlength : stringTailLength s.mark (s.tail ++ rest) = s.tail.length := by
    rw [StringText.tail, List.append_assoc, List.singleton_append,
      stringTailLength_items hmark.2.2 s.plain_inside, List.length_append]
    rfl
  refine Scans.token file s.tail hmark.1 rfl ?_
  rw [scriptToken, scriptCloseLength?_eq_none hmark.2.1, plainToken, s.mark_quote]
  simp only [if_true, hlength, Nat.add_comm]

/-! ## The page around a script -/

/-- The source of a page whose body holds one script. -/
def inScript (script : List Char) : String :=
  String.ofList ("<body><script>".toList ++ (script ++ "</script></body>".toList))

/-- The kinds and texts of the tokens of such a page around those of its script. -/
def shapesAround (shapes : List (TokenKind × String)) : List (TokenKind × String) :=
  [(.tagOpen, "<body>"), (.scriptOpen, "<script>")] ++ shapes ++
    [(.scriptClose, "</script>"), (.tagClose, "</body>"), (.eof, "")]

theorem Scans.scriptOpening (file : Option String) (rest : List Char) :
    Scans file .markup ("<script>".toList ++ rest) [(.scriptOpen, "<script>")] .script rest :=
  Scans.cut file "script>".toList rfl rfl

theorem Scans.scriptClosing (file : Option String) (rest : List Char) :
    Scans file .script ("</script>".toList ++ rest) [(.scriptClose, "</script>")] .markup rest :=
  Scans.cut file "/script>".toList rfl rfl

theorem Scans.openings (file : Option String) (rest : List Char) :
    Scans file .markup ("<body><script>".toList ++ rest)
      [(.tagOpen, "<body>"), (.scriptOpen, "<script>")] .script rest := by
  have hbody : Scans file .markup ('<' :: ("body>".toList ++ ("<script>".toList ++ rest)))
      [(.tagOpen, "<body>")] .markup ("<script>".toList ++ rest) :=
    Scans.cut file "body>".toList rfl rfl
  exact hbody.trans (Scans.scriptOpening file rest)

theorem Scans.closings (file : Option String) :
    Scans file .script "</script></body>".toList
      [(.scriptClose, "</script>"), (.tagClose, "</body>")] .markup [] := by
  have hbody : Scans file .markup ('<' :: ("/body>".toList ++ []))
      [(.tagClose, "</body>")] .markup [] :=
    Scans.cut file "/body>".toList rfl rfl
  exact (Scans.scriptClosing file "</body>".toList).trans hbody

/-- **The tokens of a page with one script are those of the script**, between the tags around it. -/
theorem scan_inScript {file : Option String} {script : List Char}
    {shapes : List (TokenKind × String)}
    (h : Scans file .script (script ++ "</script></body>".toList) shapes .script
      "</script></body>".toList) :
    (scan (inScript script) file).tokens.map Token.shape = shapesAround shapes := by
  have hend : ([] : List Char).dropWhile isSkipped = [] := rfl
  have hall := (Scans.openings file _).trans (h.trans (Scans.closings file))
  obtain ⟨tokens, place, htokens, hshapes⟩ := hall Cursor.start
  have htext : (inScript script).toList =
      "<body><script>".toList ++ (script ++ "</script></body>".toList) := String.toList_ofList
  rw [scan, htext, htokens, scanFrom_nil hend, List.map_append, hshapes, shapesAround]
  simp only [List.append_assoc]
  rfl

theorem exists_tokens_around {tokens : List Token} {shapes : List (TokenKind × String)}
    (h : tokens.map Token.shape = shapesAround shapes) :
    ∃ body opening ts close last eof, tokens = body :: opening :: (ts ++ [close, last, eof]) ∧
      body.shape = (.tagOpen, "<body>") ∧ opening.shape = (.scriptOpen, "<script>") ∧
      ts.map Token.shape = shapes ∧ close.shape = (.scriptClose, "</script>") ∧
      last.shape = (.tagClose, "</body>") ∧ eof.shape = (.eof, "") := by
  obtain ⟨front, closings, rfl, hfront, hclosings⟩ := List.map_eq_append_iff.1 h
  obtain ⟨openings, ts, rfl, hopenings, hts⟩ := List.map_eq_append_iff.1 hfront
  obtain ⟨body, openings, rfl, hbody, hopenings⟩ := List.map_eq_cons_iff.1 hopenings
  obtain ⟨opening, openings, rfl, hopening, hopenings⟩ := List.map_eq_cons_iff.1 hopenings
  obtain rfl := List.map_eq_nil_iff.1 hopenings
  obtain ⟨close, closings, rfl, hclose, hclosings⟩ := List.map_eq_cons_iff.1 hclosings
  obtain ⟨last, closings, rfl, hlast, hclosings⟩ := List.map_eq_cons_iff.1 hclosings
  obtain ⟨eof, closings, rfl, heof, hclosings⟩ := List.map_eq_cons_iff.1 hclosings
  obtain rfl := List.map_eq_nil_iff.1 hclosings
  exact ⟨body, opening, ts, close, last, eof, rfl, hbody, hopening, hts, hclose, hlast, heof⟩

end PageLint
