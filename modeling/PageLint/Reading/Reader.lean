import PageLint.Event
import PageLint.Tree.Node

/-!
# Readers

A reader takes something off the front of a list of tokens. It gives a value, the events on the
way and the tokens that are left, which are never more than there were.
-/

namespace PageLint

/-- What reading gives. -/
structure Reading (α : Type) where
  value : α
  events : List Event := []
  rest : List Token

/-- A function that reads from the front of a token list. -/
structure Reader (α : Type) where
  read : List Token → Reading α
  rest_le : ∀ ts, (read ts).rest.length ≤ ts.length

/-- The identifier that a token spells. -/
def Token.toIdentifier (t : Token) : Identifier :=
  { site := { location := t.location }, name := t.text }

/-- Whether the next token ends an expression: a closing parenthesis, a semicolon or a comma, or no
token at all. -/
def isTerminator : Option Token → Bool
  | none => true
  | some t => t.kind == .rightParen || t.isMark ";" || t.isMark ","

/-- The tokens after a semicolon, if there is one in front. -/
def dropSemicolon : List Token → List Token
  | [] => []
  | t :: ts => if t.isMark ";" then ts else t :: ts

end PageLint
