import PageLint.Text.Decimal

/-!
# Locations

A place in a source: line and column, both counted from one, and the span of offsets that it
covers, counted in characters from zero. A location that is built by hand may hold any integers.

`Location.shifted` moves a location over a text in one go, by the number of newlines in the text
and by what follows the last of them; `Cursor.advance` moves character by character. The two agree.
-/

namespace PageLint

/-- A place in a source. -/
structure Location where
  line : Int
  column : Int
  offset : Int := 0
  endOffset : Int := 0
  file : Option String := none
  deriving DecidableEq, Repr, Inhabited

namespace Location

/-- The place of something that stands in no source. -/
def unknown : Location := { line := 0, column := 0 }

/-- A location as shown in messages, with the file in front when there is one with a name. -/
def text (l : Location) : String :=
  let place := Text.intText l.line ++ ":" ++ Text.intText l.column
  match l.file with
  | some file => if file.isEmpty then place else file ++ ":" ++ place
  | none => place

/-- The number of characters after the last newline of a text, if it has one. -/
def sinceNewline? (cs : List Char) : Option Nat :=
  if cs.contains '\n' then some (cs.reverse.takeWhile (· != '\n')).length else none

/-- The location just past a text that starts at `l`. -/
def shifted (l : Location) (cs : List Char) : Location :=
  let column : Int :=
    match sinceNewline? cs with
    | some n => n + 1
    | none => l.column + cs.length
  let offset := l.offset + cs.length
  { line := l.line + cs.count '\n', column, offset, endOffset := offset, file := l.file }

end Location

/-! ## Reading positions -/

/-- A position between two characters of a source. -/
structure Cursor where
  line : Nat
  column : Nat
  offset : Nat
  deriving DecidableEq, Repr, Inhabited

namespace Cursor

/-- The position before the first character. -/
def start : Cursor := { line := 1, column := 1, offset := 0 }

/-- The position after one more character; a newline starts the next line. -/
def next (p : Cursor) (c : Char) : Cursor :=
  if c == '\n' then { line := p.line + 1, column := 1, offset := p.offset + 1 }
  else { p with column := p.column + 1, offset := p.offset + 1 }

/-- The position after a text. -/
def advance (p : Cursor) (cs : List Char) : Cursor := cs.foldl next p

end Cursor

end PageLint
