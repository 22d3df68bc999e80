import PageLint.Text.CharClass
import PageLint.Text.Quote
import PageLint.Text.Search
import PageLint.Token.Basic

/-!
# Cutting markup

One step of scanning outside scripts. Something that starts with `<` is, in this order, the start
of a script, a doctype, a comment, a closing tag or an opening tag; anything else is text up to
the next `<`, trimmed. What is never closed runs to the end of the input.

A `Cut` splits the input into four parts without losing a character, and takes at least one
character of an input that is not empty (`markupCut_parts`, `markupCut_rest_lt`).
-/

namespace PageLint

/-- The input split at its first token: blanks, the token's text, more blanks and what is left. A
cut of blanks alone has no kind. -/
structure Cut where
  lead : List Char
  kind : Option TokenKind
  text : List Char
  trail : List Char
  rest : List Char
  deriving DecidableEq, Repr

namespace Cut

/-- A cut after a number of characters that all belong to the token. -/
def ofLength (kind : TokenKind) (n : Nat) (input : List Char) : Cut :=
  { lead := [], kind := some kind, text := input.take n, trail := [], rest := input.drop n }

/-- A cut of text: the trimmed text, with the blanks around it. -/
def ofText (raw rest : List Char) : Cut :=
  let body := Text.trimLeft raw
  { lead := raw.takeWhile Text.isBlank
    kind := if body.isEmpty then none else some .text
    text := Text.trimRight body
    trail := (body.reverse.takeWhile Text.isBlank).reverse
    rest }

/-- All parts of a cut in order. -/
def parts (c : Cut) : List Char := c.lead ++ c.text ++ c.trail ++ c.rest

theorem parts_ofLength (kind : TokenKind) (n : Nat) (input : List Char) :
    (ofLength kind n input).parts = input := by
  simp [ofLength, parts]

theorem parts_ofText (raw rest : List Char) : (ofText raw rest).parts = raw ++ rest := by
  have body (cs : List Char) :
      Text.trimRight cs ++ (cs.reverse.takeWhile Text.isBlank).reverse = cs := by
    rw [Text.trimRight, ← List.reverse_append, List.takeWhile_append_dropWhile,
      List.reverse_reverse]
  simp only [ofText, parts, List.append_assoc]
  rw [← List.append_assoc (Text.trimRight _), body, Text.trimLeft, ← List.append_assoc,
    List.takeWhile_append_dropWhile]

end Cut

/-! ## Lengths of markup tokens -/

/-- The length of a tag: through the first `>` that stands outside quotes. The first argument is
the open quote mark, if any. -/
def tagLength : Option Char → List Char → Nat
  | _, [] => 0
  | some mark, c :: cs => tagLength (if c == mark then none else some mark) cs + 1
  | none, c :: cs =>
    if Text.isQuoteMark c then tagLength (some c) cs + 1
    else if c == '>' then 1
    else tagLength none cs + 1

/-- Whether a text ends the name of a script tag: at the end of input, a blank, `>` or `/`. -/
def endsScriptName : List Char → Bool
  | [] => true
  | c :: _ =>
    c == ' ' || c == '\t' || c == '\r' || c == '\n' || c == '\x0c' || c == '>' || c == '/'

/-- Whether a script tag starts here. -/
def opensScript (input : List Char) : Bool :=
  Text.startsWithFolded ['<', 's', 'c', 'r', 'i', 'p', 't'] input && endsScriptName (input.drop 7)

/-- Whether a doctype starts here. -/
def opensDoctype (input : List Char) : Bool :=
  Text.startsWithFolded ['<', '!', 'd', 'o', 'c', 't', 'y', 'p', 'e'] input

/-- The kind and length of the token at a `<`. -/
def angleToken (input : List Char) : TokenKind × Nat :=
  if opensScript input then (.scriptOpen, tagLength none input)
  else if opensDoctype input then (.doctype, Text.lengthThrough ['>'] input)
  else if ['<', '!', '-', '-'].isPrefixOf input then
    (.comment, 4 + Text.lengthThrough ['-', '-', '>'] (input.drop 4))
  else if ['<', '/'].isPrefixOf input then (.tagClose, Text.lengthThrough ['>'] input)
  else (.tagOpen, tagLength none input)

/-- The first cut of an input outside scripts. -/
def markupCut (input : List Char) : Cut :=
  if input.head? == some '<' then
    let (kind, n) := angleToken input
    Cut.ofLength kind n input
  else Cut.ofText (input.takeWhile (· != '<')) (input.dropWhile (· != '<'))

/-! ## Every cut takes something and loses nothing -/

theorem tagLength_pos (quote : Option Char) (c : Char) (cs : List Char) :
    0 < tagLength quote (c :: cs) := by
  cases quote with
  | some mark => simp [tagLength]
  | none => simp only [tagLength]; split <;> (try split) <;> omega

theorem lengthThrough_pos (piece : List Char) (hp : piece ≠ []) (c : Char) (cs : List Char) :
    0 < Text.lengthThrough piece (c :: cs) := by
  simp only [Text.lengthThrough]
  split
  · exact List.length_pos_iff.2 hp
  · omega

theorem angleToken_pos (c : Char) (cs : List Char) : 0 < (angleToken (c :: cs)).2 := by
  unfold angleToken
  split
  · exact tagLength_pos ..
  split
  · exact lengthThrough_pos _ (by simp) ..
  split
  · omega
  split
  · exact lengthThrough_pos _ (by simp) ..
  · exact tagLength_pos ..

/-- A cut of markup loses no character. -/
theorem markupCut_parts (input : List Char) : (markupCut input).parts = input := by
  unfold markupCut
  split
  · exact Cut.parts_ofLength ..
  · rw [Cut.parts_ofText, List.takeWhile_append_dropWhile]

/-- A cut of markup takes at least one character. -/
theorem markupCut_rest_lt (c : Char) (cs : List Char) :
    (markupCut (c :: cs)).rest.length < (c :: cs).length := by
  unfold markupCut
  split
  · have := angleToken_pos c cs
    simp only [Cut.ofLength, List.length_drop, List.length_cons]
    omega
  · rename_i h
    have hc : (c != '<') = true := by simpa using h
    simp only [Cut.ofText, List.dropWhile_cons, hc, if_true, List.length_cons]
    exact Nat.lt_succ_of_le (List.dropWhile_suffix _).length_le

end PageLint
