import PageLint.Text.Decimal

/-!
# JSON values

Values and their text. Object keys are written in ascending order, strings with only printable
basic characters, and integers in full. A layout says whether a value is written on one line or
over several.

`Json.write` puts the text of a value in front of what follows it, so that each piece is built
once.
-/

namespace PageLint

/-- A JSON value with integers of any size. -/
inductive Json where
  | null
  | bool (b : Bool)
  | int (n : Int)
  | string (s : String)
  | array (items : List Json)
  | object (fields : List (String × Json))
  deriving Inhabited

namespace Json

/-- How a value is spread over lines. -/
inductive Layout where
  | oneLine
  | indented (width : Nat)
  deriving DecidableEq, Repr

/-- The layout for an optional indentation; a negative one counts as none at all. -/
def Layout.ofIndent : Option Int → Layout
  | none => .oneLine
  | some n => .indented n.toNat

/-- What stands at a line break at a depth of nesting. -/
def Layout.lineBreak (layout : Layout) (depth : Nat) : List Char :=
  match layout with
  | .oneLine => []
  | .indented width => '\n' :: List.replicate (width * depth) ' '

/-- What stands between two items at a depth of nesting. -/
def Layout.separator (layout : Layout) (depth : Nat) : List Char :=
  match layout with
  | .oneLine => [',', ' ']
  | .indented _ => ',' :: layout.lineBreak depth

/-! ## Key order -/

mutual

/-- A value with the keys of all its objects in ascending order. -/
def sortKeys : Json → Json
  | array items => array (sortKeysItems items)
  | object fields => object ((sortKeysFields fields).mergeSort fun a b => decide (a.1 ≤ b.1))
  | null => null
  | bool b => bool b
  | int n => int n
  | string s => string s

def sortKeysItems : List Json → List Json
  | [] => []
  | j :: js => sortKeys j :: sortKeysItems js

def sortKeysFields : List (String × Json) → List (String × Json)
  | [] => []
  | (key, j) :: fields => (key, sortKeys j) :: sortKeysFields fields

end

/-! ## Text -/

/-- A code unit as an escape. -/
def unitEscape (n : Nat) : List Char := '\\' :: 'u' :: Text.hexDigits 4 n

/-- A character inside a string. Characters beyond the basic plane take two code units. -/
def charText (c : Char) : List Char :=
  if c == '"' then ['\\', '"']
  else if c == '\\' then ['\\', '\\']
  else if c == '\n' then ['\\', 'n']
  else if c == '\r' then ['\\', 'r']
  else if c == '\t' then ['\\', 't']
  else if c == '\x08' then ['\\', 'b']
  else if c == '\x0c' then ['\\', 'f']
  else if 0x20 ≤ c.toNat && c.toNat < 0x7F then [c]
  else if c.toNat < 0x10000 then unitEscape c.toNat
  else
    let high := 0xD800 + (c.toNat - 0x10000) / 0x400
    let low := 0xDC00 + (c.toNat - 0x10000) % 0x400
    unitEscape high ++ unitEscape low

/-- A string between its quote marks. -/
def stringText (s : String) : List Char := '"' :: s.toList.flatMap charText ++ ['"']

mutual

/-- The text of a value at a depth of nesting, in front of what follows it. -/
def write (layout : Layout) (depth : Nat) : Json → List Char → List Char
  | null, rest => 'n' :: 'u' :: 'l' :: 'l' :: rest
  | bool true, rest => 't' :: 'r' :: 'u' :: 'e' :: rest
  | bool false, rest => 'f' :: 'a' :: 'l' :: 's' :: 'e' :: rest
  | int n, rest => Text.signedDecimal n ++ rest
  | string s, rest => stringText s ++ rest
  | array [], rest => '[' :: ']' :: rest
  | array (j :: js), rest =>
    '[' :: (layout.lineBreak (depth + 1)
      ++ write layout (depth + 1) j (writeItems layout depth js rest))
  | object [], rest => '\x7b' :: '\x7d' :: rest
  | object ((key, j) :: fields), rest =>
    '\x7b' :: (layout.lineBreak (depth + 1) ++ (stringText key ++ ':' :: ' ' ::
      write layout (depth + 1) j (writeFields layout depth fields rest)))

/-- The text of further items of an array and its end. -/
def writeItems (layout : Layout) (depth : Nat) : List Json → List Char → List Char
  | [], rest => layout.lineBreak depth ++ ']' :: rest
  | j :: js, rest =>
    layout.separator (depth + 1) ++ write layout (depth + 1) j (writeItems layout depth js rest)

/-- The text of further fields of an object and its end. -/
def writeFields (layout : Layout) (depth : Nat) : List (String × Json) → List Char → List Char
  | [], rest => layout.lineBreak depth ++ '\x7d' :: rest
  | (key, j) :: fields, rest =>
    layout.separator (depth + 1) ++ (stringText key ++ ':' :: ' ' ::
      write layout (depth + 1) j (writeFields layout depth fields rest))

end

/-- The text of a value, with the keys of its objects in ascending order. -/
def render (layout : Layout) (j : Json) : String :=
  String.ofList (write layout 0 j.sortKeys [])

end Json

end PageLint
