/-!
# Searching a text

The first occurrence of a piece of text, cutting at a character, and comparison with a fixed word of
small basic letters, where capital basic letters count as small ones. No other character lowers to a
basic letter of the words that are looked for.
-/

namespace PageLint.Text

/-- The part of a text that starts at the first occurrence of a piece. -/
def fromFirst? (piece : List Char) : List Char → Option (List Char)
  | [] => if piece.isEmpty then some [] else none
  | c :: cs => if piece.isPrefixOf (c :: cs) then some (c :: cs) else fromFirst? piece cs

/-- Whether a piece occurs in a text. -/
def occursIn (piece cs : List Char) : Bool := (fromFirst? piece cs).isSome

/-- How many characters lead up to and through the first occurrence of a piece; all of them when
it does not occur. -/
def lengthThrough (piece : List Char) : List Char → Nat
  | [] => 0
  | c :: cs => if piece.isPrefixOf (c :: cs) then piece.length else lengthThrough piece cs + 1

/-- Whether a text starts with a word of small letters, capitals counting as small ones. -/
def startsWithFolded (word cs : List Char) : Bool :=
  (cs.take word.length).map Char.toLower == word

/-- The pieces of a text between the occurrences of a character. -/
def splitOnChar (sep : Char) : List Char → List (List Char)
  | [] => [[]]
  | c :: cs =>
    if c == sep then [] :: splitOnChar sep cs
    else
      match splitOnChar sep cs with
      | [] => [[c]]
      | piece :: pieces => (c :: piece) :: pieces

/-- A text without one occurrence of a character in front. -/
def dropFirst (mark : Char) : List Char → List Char
  | [] => []
  | c :: cs => if c == mark then cs else c :: cs

/-- A text without one occurrence of a character at its end. -/
def dropFinal (mark : Char) (cs : List Char) : List Char :=
  if cs.getLast? == some mark then cs.dropLast else cs

/-- The characters of a text without a mark are passed over in a search for it. -/
theorem bne_of_not_mem {mark : Char} {cs : List Char} (h : mark ∉ cs) :
    ∀ c ∈ cs, (c != mark) = true := by
  intro c hc
  rw [bne_iff_ne]
  rintro rfl
  exact h hc

end PageLint.Text
