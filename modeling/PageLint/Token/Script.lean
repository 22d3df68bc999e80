import PageLint.Text.Word
import PageLint.Token.Markup
import PageLint.Token.Words

/-!
# Cutting scripts

One step of scanning inside a script. The first character decides: a quote mark starts a string,
a digit a number, a word start a name, a slash perhaps a comment, an operator character the
longest operator there is, and anything else is a bracket or a mark of punctuation. The closing
tag of the script is looked for before everything else.

The functions give lengths, so a token is always a piece of the input as it stands.
-/

namespace PageLint

/-- The length of the closing script tag here, blanks before its `>` allowed. -/
def scriptCloseLength? (input : List Char) : Option Nat :=
  if Text.startsWithFolded ['<', '/', 's', 'c', 'r', 'i', 'p', 't'] input then
    let after := input.drop 8
    if (after.dropWhile Text.isBlank).head? == some '>' then
      some (8 + (after.takeWhile Text.isBlank).length + 1)
    else none
  else none

/-- The length of a string after its opening mark: through the closing mark, or up to a newline or
the end of input. A backslash takes the next character with it. -/
def stringTailLength (mark : Char) : List Char → Nat
  | [] => 0
  | '\\' :: [] => 1
  | '\\' :: _ :: cs => stringTailLength mark cs + 2
  | c :: cs => if c == mark then 1 else if c == '\n' then 0 else stringTailLength mark cs + 1

/-- The number of digits here. -/
def digitRun (cs : List Char) : Nat := (cs.takeWhile Text.isDigit).length

/-- The length of a fraction here: a point and any digits. -/
def fractionLength : List Char → Nat
  | [] => 0
  | c :: cs => if c == '.' then 1 + digitRun cs else 0

/-- The length of a sign here. -/
def signLength : List Char → Nat
  | [] => 0
  | c :: _ => if c == '+' || c == '-' then 1 else 0

/-- The length of an exponent here; there is none without a digit. -/
def exponentLength : List Char → Nat
  | [] => 0
  | c :: cs =>
    if c == 'e' || c == 'E' then
      let sign := signLength cs
      let digits := digitRun (cs.drop sign)
      if digits == 0 then 0 else 1 + sign + digits
    else 0

/-- The length of a number here: digits, a fraction and an exponent. -/
def numberLength (input : List Char) : Nat :=
  let whole := digitRun input
  let mantissa := whole + fractionLength (input.drop whole)
  mantissa + exponentLength (input.drop mantissa)

/-- The length of the longest operator here. -/
def operatorLength (input : List Char) : Nat :=
  if longOperators.contains (input.take 3) then 3
  else if pairOperators.contains (input.take 2) then 2
  else 1

/-- The length of a comment here, if one starts. -/
def commentLength? : List Char → Option Nat
  | '/' :: '/' :: cs => some (2 + (cs.takeWhile (· != '\n')).length)
  | '/' :: '*' :: cs => some (2 + Text.lengthThrough ['*', '/'] cs)
  | _ => none

/-- The kind of a token of one character that is no operator. -/
def markKind (c : Char) : TokenKind :=
  if c == '(' then .leftParen
  else if c == ')' then .rightParen
  else if c == '{' then .leftBrace
  else if c == '}' then .rightBrace
  else if c == '[' then .leftBracket
  else if c == ']' then .rightBracket
  else .punctuation

/-- The kind and length of the token that starts with `c` and is not the end of the script. -/
def plainToken (c : Char) (cs : List Char) : TokenKind × Nat :=
  if Text.isQuoteMark c then (.string, 1 + stringTailLength c cs)
  else if Text.isDigit c then (.number, numberLength (c :: cs))
  else if Text.isWordStart c then
    let n := (cs.takeWhile Text.isWordPart).length
    (wordKind (String.ofList (c :: cs.take n)), 1 + n)
  else
    match commentLength? (c :: cs) with
    | some n => (.comment, n)
    | none =>
      if operatorChars.contains c then (.operator, operatorLength (c :: cs)) else (markKind c, 1)

/-- The kind and length of the first token of an input inside a script. -/
def scriptToken (c : Char) (cs : List Char) : TokenKind × Nat :=
  match scriptCloseLength? (c :: cs) with
  | some n => (.scriptClose, n)
  | none => plainToken c cs

/-- The first cut of an input inside a script. -/
def scriptCut (c : Char) (cs : List Char) : Cut :=
  let (kind, n) := scriptToken c cs
  Cut.ofLength kind n (c :: cs)

/-! ## Every cut takes something and loses nothing -/

theorem numberLength_pos {c : Char} (h : Text.isDigit c = true) (cs : List Char) :
    0 < numberLength (c :: cs) := by
  have : 0 < digitRun (c :: cs) := by simp [digitRun, h]
  simp only [numberLength]
  omega

theorem operatorLength_pos (input : List Char) : 0 < operatorLength input := by
  unfold operatorLength
  split <;> (try split) <;> omega

theorem commentLength?_pos {input : List Char} {n : Nat} (h : commentLength? input = some n) :
    0 < n := by
  unfold commentLength? at h
  split at h <;> simp only [Option.some.injEq, reduceCtorEq] at h <;> omega

theorem scriptToken_pos (c : Char) (cs : List Char) : 0 < (scriptToken c cs).2 := by
  unfold scriptToken
  split
  · rename_i n h
    unfold scriptCloseLength? at h
    split at h
    · dsimp only at h
      split at h <;> simp only [Option.some.injEq, reduceCtorEq] at h
      omega
    · simp at h
  · unfold plainToken
    split
    · simp only; omega
    split
    · exact numberLength_pos (by assumption) cs
    split
    · simp only; omega
    split
    · rename_i h
      exact commentLength?_pos h
    split
    · exact operatorLength_pos _
    · simp

/-- A cut inside a script loses no character. -/
theorem scriptCut_parts (c : Char) (cs : List Char) : (scriptCut c cs).parts = c :: cs :=
  Cut.parts_ofLength ..

/-- A cut inside a script takes at least one character. -/
theorem scriptCut_rest_lt (c : Char) (cs : List Char) :
    (scriptCut c cs).rest.length < (c :: cs).length := by
  have := scriptToken_pos c cs
  simp only [scriptCut, Cut.ofLength, List.length_drop, List.length_cons]
  omega

end PageLint
