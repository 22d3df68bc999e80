import PageLint.Text.CharClass
import PageLint.Text.Quote

/-!
# Tag spans

A token of opening tags may hold several tags when one of them is not closed. It is split into
spans: a span goes through the first `>` or up to the next `<`, both outside quotes. Its first
character is part of it whatever it is. Spans of blanks are left out.

`spansFrom` recurses on what follows a span.
-/

namespace PageLint.Markup

/-- The length of a span after its first character. The first argument is the open quote mark, if
any. -/
def spanTailLength : Option Char → List Char → Nat
  | _, [] => 0
  | some mark, c :: cs => spanTailLength (if c == mark then none else some mark) cs + 1
  | none, c :: cs =>
    if Text.isQuoteMark c then spanTailLength (some c) cs + 1
    else if c == '>' then 1
    else if c == '<' then 0
    else spanTailLength none cs + 1

/-- A span and its place in the token. -/
structure Span where
  offset : Nat
  text : List Char
  deriving DecidableEq, Repr

/-- The spans of a text that stands at an offset in the token. -/
def spansFrom (offset : Nat) (text : List Char) : List Span :=
  match text with
  | [] => []
  | c :: cs =>
    let n := spanTailLength none cs
    let span := c :: cs.take n
    let tail := spansFrom (offset + 1 + n) (cs.drop n)
    if span.all Text.isBlank then tail else { offset, text := span } :: tail
termination_by text.length
decreasing_by simp only [List.length_drop, List.length_cons]; omega

/-- The spans of a token of opening tags. -/
def spans (text : List Char) : List Span := spansFrom 0 text

end PageLint.Markup
