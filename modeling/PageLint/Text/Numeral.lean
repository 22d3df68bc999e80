import PageLint.Text.CharClass

/-!
# Numerals

Which texts are accepted as a number: a decimal numeral with optional sign, fraction and exponent,
or one of the names of infinity and of the undefined number. Blanks around it are ignored,
decimal digits of every script count, and single underscores may stand between digits.
-/

namespace PageLint.Text

/-- Whether a character is one of the ten basic digits. -/
def isBasicDigit (c : Char) : Bool := '0' ≤ c && c ≤ '9'

/-- Whether a character is one of the six basic blanks. -/
def isBasicBlank (c : Char) : Bool :=
  c == ' ' || c == '\t' || c == '\n' || c == '\r' || c == '\x0b' || c == '\x0c'

/-- The value of a decimal digit: its place in its run of ten. -/
def decimalValue? (c : Char) : Option Nat :=
  (decimalRanges.find? fun r => r.1 ≤ c.toNat && c.toNat ≤ r.2).map fun r => (c.toNat - r.1) % 10

/-- A character of a numeral in basic form: foreign blanks and digits become basic ones, and any
other foreign character is refused. -/
def basicChar? (c : Char) : Option Char :=
  if c.toNat < 127 then some c
  else if isBlank c then some ' '
  else (decimalValue? c).map fun d => Char.ofNat (0x30 + d)

/-- A text without the basic blanks at either end. -/
def trimBasic (cs : List Char) : List Char :=
  ((cs.dropWhile isBasicBlank).reverse.dropWhile isBasicBlank).reverse

/-- A text without its underscores, each of which must stand between two digits. The flag says
whether the character before was a digit. -/
def joinDigits? (afterDigit : Bool) : List Char → Option (List Char)
  | [] => some []
  | '_' :: d :: cs =>
    if afterDigit && isBasicDigit d then (joinDigits? true cs).map (d :: ·) else none
  | c :: cs => if c == '_' then none else (joinDigits? (isBasicDigit c) cs).map (c :: ·)

/-- A text without one sign in front. -/
def dropSign : List Char → List Char
  | [] => []
  | c :: cs => if c == '+' || c == '-' then cs else c :: cs

/-- Whether a text is a possible end of a numeral: nothing, or an exponent with digits. -/
def isExponent : List Char → Bool
  | [] => true
  | c :: cs =>
    let digits := dropSign cs
    (c == 'e' || c == 'E') && !digits.isEmpty && digits.all isBasicDigit

/-- Whether a text is an unsigned decimal numeral. -/
def isDecimalNumeral (cs : List Char) : Bool :=
  let whole := cs.takeWhile isBasicDigit
  match cs.dropWhile isBasicDigit with
  | '.' :: rest =>
    (!whole.isEmpty || !(rest.takeWhile isBasicDigit).isEmpty)
      && isExponent (rest.dropWhile isBasicDigit)
  | rest => !whole.isEmpty && isExponent rest

/-- The names that stand for numbers. -/
def numberNames : List (List Char) :=
  ["inf".toList, "infinity".toList, "nan".toList]

/-- Whether a text is accepted as a number. -/
def isNumeral (cs : List Char) : Bool :=
  match cs.mapM basicChar? with
  | none => false
  | some basic =>
    match joinDigits? false (trimBasic basic) with
    | none => false
    | some joined =>
      let unsigned := dropSign joined
      isDecimalNumeral unsigned || numberNames.contains (unsigned.map Char.toLower)

end PageLint.Text
