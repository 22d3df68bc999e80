import PageLint.Text.Printable
import PageLint.Text.Decimal

/-!
# Quoted display of a text

How a text is shown inside a message: between single quotes, or double ones when it holds single
quotes and no double ones, with everything escaped that is not printable.
-/

namespace PageLint.Text

/-- The quote mark around a displayed text. -/
def displayMark (cs : List Char) : Char :=
  if cs.contains '\'' && !cs.contains '"' then '"' else '\''

/-- The escape of a character that is not printable, as short as its code point allows. -/
def escapeCode (n : Nat) : List Char :=
  if n < 0x100 then '\\' :: 'x' :: hexDigits 2 n
  else if n < 0x10000 then '\\' :: 'u' :: hexDigits 4 n
  else '\\' :: 'U' :: hexDigits 8 n

/-- One character of a displayed text. -/
def displayChar (mark c : Char) : List Char :=
  if c == mark || c == '\\' then ['\\', c]
  else if c == '\t' then ['\\', 't']
  else if c == '\n' then ['\\', 'n']
  else if c == '\r' then ['\\', 'r']
  else if isPrintable c then [c]
  else escapeCode c.toNat

/-- The quoted display of a text. -/
def display (cs : List Char) : List Char :=
  let mark := displayMark cs
  mark :: cs.flatMap (displayChar mark) ++ [mark]

/-- The quoted display of a string. -/
def displayText (s : String) : String := String.ofList (display s.toList)

end PageLint.Text
