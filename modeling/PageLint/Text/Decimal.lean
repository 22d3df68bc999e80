/-!
# Numbers as text

Decimal numbers of any size, decimal numbers filled up with zeros, and hexadecimal numbers of a
fixed width. `decimal` recurses on the quotient by ten, `hexDigits` on the width.
-/

namespace PageLint.Text

/-- The digit for a value below sixteen, in lower case. -/
def digitChar (n : Nat) : Char := Char.ofNat (if n < 10 then 0x30 + n else 0x57 + n)

/-- A number in decimal digits, without leading zeros. -/
def decimal (n : Nat) : List Char :=
  if n < 10 then [digitChar n] else decimal (n / 10) ++ [digitChar (n % 10)]

/-- An integer in decimal digits, with a minus sign when it is negative. -/
def signedDecimal : Int → List Char
  | .ofNat n => decimal n
  | .negSucc n => '-' :: decimal (n + 1)

/-- A number in decimal digits, with zeros in front up to a width. -/
def paddedDecimal (width n : Nat) : List Char :=
  let digits := decimal n
  List.replicate (width - digits.length) '0' ++ digits

/-- The lowest `width` hexadecimal digits of a number. -/
def hexDigits : Nat → Nat → List Char
  | 0, _ => []
  | width + 1, n => hexDigits width (n / 16) ++ [digitChar (n % 16)]

/-- A natural number as a string. -/
def natText (n : Nat) : String := String.ofList (decimal n)

/-- An integer as a string. -/
def intText (n : Int) : String := String.ofList (signedDecimal n)

end PageLint.Text
