import PageLint.Text.CharClass
import PageLint.Text.Quote

/-!
# Parts of a tag

The inside of a tag is split at blanks outside quotes. After the first part, which is the name of
the tag, parts around an equals sign belong together, so `id = "x"` is one part.
-/

namespace PageLint.Markup

/-- The pieces of a text between blanks outside quotes. The arguments are the open quote mark, if
any, and the piece so far, newest character first. -/
def piecesFrom : Option Char → List Char → List Char → List (List Char)
  | _, piece, [] => if piece.isEmpty then [] else [piece.reverse]
  | some mark, piece, c :: cs =>
    piecesFrom (if c == mark then none else some mark) (c :: piece) cs
  | none, piece, c :: cs =>
    if Text.isQuoteMark c then piecesFrom (some c) (c :: piece) cs
    else if Text.isBlank c then
      if piece.isEmpty then piecesFrom none [] cs else piece.reverse :: piecesFrom none [] cs
    else piecesFrom none (c :: piece) cs

/-- Joins pieces around an equals sign; `part` is the part so far. -/
def joinEquals (part : List Char) : List (List Char) → List (List Char)
  | [] => [part]
  | piece :: pieces =>
    if piece.head? == some '=' || part.getLast? == some '=' then joinEquals (part ++ piece) pieces
    else part :: joinEquals piece pieces

/-- The parts of the inside of a tag: its name, then its attributes. -/
def parts (text : List Char) : List (List Char) :=
  match piecesFrom none [] text with
  | [] => []
  | [name] => [name]
  | name :: piece :: pieces => name :: joinEquals piece pieces

end PageLint.Markup
