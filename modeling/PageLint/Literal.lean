import PageLint.Text.Numeral
import PageLint.Token.Words

/-!
# Kinds of literal

The coarse kind of the value that a text spells: a string when it starts with a quote mark, a
truth value, null, or a number; otherwise nothing is known.
-/

namespace PageLint

/-- The coarse kind of a value. -/
inductive LiteralKind where
  | string
  | number
  | boolean
  | null
  | unknown
  deriving DecidableEq, Repr, Inhabited

namespace LiteralKind

/-- The name of a kind. -/
def label : LiteralKind → String
  | string => "string"
  | number => "number"
  | boolean => "boolean"
  | null => "null"
  | unknown => "unknown"

/-- The kind of the value that a text spells. -/
def ofText (text : String) : LiteralKind :=
  if text.toList.head? == some '\'' || text.toList.head? == some '"' then string
  else if isBooleanWord text then boolean
  else if isNullWord text then null
  else if Text.isNumeral text.toList then number
  else unknown

/-- Whether two known kinds differ. -/
def conflict (a b : LiteralKind) : Bool := a != unknown && b != unknown && a != b

end LiteralKind

end PageLint
