import PageLint.Location
import PageLint.Text.Display

/-!
# Tokens

The pieces that a page is cut into. Outside scripts there are doctypes, tags, text and comments;
inside there are words, literals, operators, brackets and punctuation. A token keeps its source
text as it stands. A page is scanned as markup outside `<script …>` and `</script>` and as script
inside.
-/

namespace PageLint

/-- The kinds of token. -/
inductive TokenKind where
  | doctype
  | tagOpen
  | tagClose
  | text
  | scriptOpen
  | scriptClose
  | keyword
  | identifier
  | string
  | number
  | boolean
  | null
  | operator
  | punctuation
  | leftParen
  | rightParen
  | leftBrace
  | rightBrace
  | leftBracket
  | rightBracket
  | comment
  | eof
  deriving DecidableEq, Repr, Inhabited

namespace TokenKind

/-- All kinds, in the order of their declaration. -/
def all : List TokenKind :=
  [doctype, tagOpen, tagClose, text, scriptOpen, scriptClose, keyword, identifier, string, number,
    boolean, null, operator, punctuation, leftParen, rightParen, leftBrace, rightBrace,
    leftBracket, rightBracket, comment, eof]

/-- The name of a kind. -/
def label : TokenKind → String
  | doctype => "DOCTYPE"
  | tagOpen => "TAG_OPEN"
  | tagClose => "TAG_CLOSE"
  | text => "TEXT"
  | scriptOpen => "SCRIPT_OPEN"
  | scriptClose => "SCRIPT_CLOSE"
  | keyword => "KEYWORD"
  | identifier => "IDENTIFIER"
  | string => "STRING"
  | number => "NUMBER"
  | boolean => "BOOLEAN"
  | null => "NULL"
  | operator => "OPERATOR"
  | punctuation => "PUNCTUATION"
  | leftParen => "LEFT_PAREN"
  | rightParen => "RIGHT_PAREN"
  | leftBrace => "LEFT_BRACE"
  | rightBrace => "RIGHT_BRACE"
  | leftBracket => "LEFT_BRACKET"
  | rightBracket => "RIGHT_BRACKET"
  | comment => "COMMENT"
  | eof => "EOF"

/-- The kind with a given name. -/
def ofLabel? (label : String) : Option TokenKind :=
  all.find? fun kind => kind.label == label

/-- Whether tokens of a kind stand for a literal value. -/
def isLiteral : TokenKind → Bool
  | string | number | boolean | null => true
  | _ => false

/-- Whether tokens of a kind can spell a declared name. -/
def isWord : TokenKind → Bool
  | identifier | keyword | boolean | null => true
  | _ => false

/-- Whether tokens of a kind end whatever stands in a script: a brace or the end of the script. -/
def isBoundary : TokenKind → Bool
  | leftBrace | rightBrace | scriptClose | eof => true
  | _ => false

end TokenKind

/-- A piece of a page with its kind, its text and its place. -/
structure Token where
  kind : TokenKind
  text : String
  line : Int
  column : Int
  offset : Int
  file : Option String := none
  deriving DecidableEq, Repr, Inhabited

namespace Token

/-- The place of a token; it ends where its text ends. -/
def location (t : Token) : Location :=
  { line := t.line
    column := t.column
    offset := t.offset
    endOffset := t.offset + t.text.length
    file := t.file }

/-- Whether a token is the given punctuation mark. -/
def isMark (t : Token) (mark : String) : Bool :=
  t.kind == .punctuation && t.text == mark

/-- A text cut to seventeen characters and an ellipsis when it is longer than twenty. -/
def shortened (cs : List Char) : List Char :=
  if 20 < cs.length then cs.take 17 ++ ['.', '.', '.'] else cs

/-- A token on one line, as shown when a token stream is inspected. -/
def summary (t : Token) : String :=
  "Token(" ++ t.kind.label ++ ", " ++ String.ofList (Text.display (shortened t.text.toList)) ++ ", "
    ++ Text.intText t.line ++ ":" ++ Text.intText t.column ++ ")"

end Token

/-! ## Scanning modes -/

/-- How the next token is scanned. -/
inductive Mode where
  | markup
  | script
  deriving DecidableEq, Repr, Inhabited

/-- The name of a mode. -/
def Mode.label : Mode → String
  | .markup => "MARKUP"
  | .script => "SCRIPT"

end PageLint
