import PageLint.Text.Search

/-!
# Lines

A source text as lines. Lines end at a newline; a newline at the very end starts no further line,
and a carriage return before a newline is not part of the line.
-/

namespace PageLint.Text

/-- The lines of a text. -/
def lines (cs : List Char) : List (List Char) :=
  if cs.isEmpty then []
  else
    let pieces := splitOnChar '\n' cs
    (if pieces.getLast? == some [] then pieces.dropLast else pieces).map (dropFinal '\r')

/-- The lines of a source. -/
def sourceLines (source : String) : List String :=
  (lines source.toList).map String.ofList

/-- A text with all line ends written as a newline: a carriage return, alone or before a newline,
becomes one newline. -/
def unifyLineEnds : List Char → List Char
  | [] => []
  | '\r' :: '\n' :: cs => '\n' :: unifyLineEnds cs
  | c :: cs => (if c == '\r' then '\n' else c) :: unifyLineEnds cs

end PageLint.Text
