import PageLint.Token.Basic

/-!
# Words and operators of the script language

The reserved words of JavaScript and its operators. The words `true`, `false` and `null` are
reserved, but a token that spells one of them is a literal and not a keyword.
-/

namespace PageLint

/-- The words that cannot be used as names. -/
def reservedWords : List String :=
  ["let", "var", "const", "function", "if", "else", "for", "while", "do", "switch", "case",
    "break", "continue", "return", "try", "catch", "finally", "throw", "new", "this", "typeof",
    "instanceof", "true", "false", "null", "undefined", "void", "delete", "in", "of", "class",
    "extends", "super", "static", "async", "await", "yield", "import", "export", "default", "from",
    "as", "with", "debugger"]

/-- Whether a name is a reserved word. -/
def isReserved (name : String) : Bool := reservedWords.contains name

/-- Whether a word is one of the two truth values. -/
def isBooleanWord (word : String) : Bool := word == "true" || word == "false"

/-- Whether a word is the null literal. -/
def isNullWord (word : String) : Bool := word == "null"

/-- The kind of token that a word makes. -/
def wordKind (word : String) : TokenKind :=
  if isBooleanWord word then .boolean
  else if isNullWord word then .null
  else if isReserved word then .keyword
  else .identifier

/-- The operators of three characters. -/
def longOperators : List (List Char) :=
  [['=', '=', '='], ['!', '=', '='], ['*', '*', '=']]

/-- The operators of two characters. -/
def pairOperators : List (List Char) :=
  [['=', '='], ['!', '='], ['<', '='], ['>', '='], ['+', '+'], ['-', '-'], ['+', '='], ['-', '='],
    ['*', '='], ['/', '='], ['%', '='], ['&', '='], ['|', '='], ['^', '='], ['&', '&'], ['|', '|'],
    ['*', '*']]

/-- The characters that are operators on their own and start all others. -/
def operatorChars : List Char :=
  ['+', '-', '*', '/', '=', '!', '<', '>', '&', '|', '%', '^']

/-- The operators that store a value. -/
def assignmentOperators : List String :=
  ["=", "+=", "-=", "*=", "/=", "%=", "&=", "|=", "^=", "**="]

/-- Whether an operator stores a value. -/
def isAssignmentOperator (operator : String) : Bool := assignmentOperators.contains operator

end PageLint
