import PageLint.Event
import PageLint.Token.Script

/-!
# Token streams

A whole page as tokens. Between tokens spaces, tabs, carriage returns and newlines are skipped;
the stream ends with one token for the end of the input. A script tag switches to the mode of
scripts and a closing script tag back.

`scanFrom` recurses on the rest of the input, which every cut makes shorter.
-/

namespace PageLint

/-- What scanning a page gives: its tokens, the mode it ends in and what happened on the way. -/
structure Scan where
  tokens : List Token
  mode : Mode
  events : List Event
  deriving DecidableEq, Repr

/-- Whether a character is skipped between tokens. -/
def isSkipped (c : Char) : Bool := c == ' ' || c == '\t' || c == '\r' || c == '\n'

/-- The first cut of an input in a mode. -/
def Mode.cut (mode : Mode) (c : Char) (cs : List Char) : Cut :=
  match mode with
  | .markup => markupCut (c :: cs)
  | .script => scriptCut c cs

theorem Mode.cut_parts (mode : Mode) (c : Char) (cs : List Char) :
    (mode.cut c cs).parts = c :: cs := by
  cases mode
  · exact markupCut_parts _
  · exact scriptCut_parts c cs

theorem Mode.cut_rest_lt (mode : Mode) (c : Char) (cs : List Char) :
    (mode.cut c cs).rest.length < (c :: cs).length := by
  cases mode
  · exact markupCut_rest_lt c cs
  · exact scriptCut_rest_lt c cs

/-- The mode after a cut. -/
def Mode.after (mode : Mode) (kind : Option TokenKind) : Mode :=
  match kind with
  | some .scriptOpen => .script
  | some .scriptClose => .markup
  | _ => mode

/-- The event of going from one mode to another, if they differ. -/
def Mode.switchEvents (before after : Mode) (place : Cursor) : List Event :=
  if before == after then [] else [.modeSwitched before after place.line place.column]

/-- A token at a position. -/
def Token.at (file : Option String) (place : Cursor) (kind : TokenKind) (text : List Char) :
    Token :=
  { kind
    text := String.ofList text
    line := place.line
    column := place.column
    offset := place.offset
    file }

/-- The token of a cut whose text starts at a position, if the cut has one. -/
def Cut.token? (file : Option String) (place : Cursor) (c : Cut) : Option Token :=
  c.kind.map fun kind => Token.at file place kind c.text

/-- The tokens of the input from a position on. -/
def scanFrom (file : Option String) (mode : Mode) (place : Cursor) (input : List Char) : Scan :=
  let place := place.advance (input.takeWhile isSkipped)
  match h : input.dropWhile isSkipped with
  | [] => { tokens := [Token.at file place .eof []], mode, events := [] }
  | c :: cs =>
    let cut := mode.cut c cs
    let start := place.advance cut.lead
    let stop := (start.advance cut.text).advance cut.trail
    let next := mode.after cut.kind
    have : cut.rest.length < input.length :=
      Nat.lt_of_lt_of_le (mode.cut_rest_lt c cs) (h ▸ (List.dropWhile_suffix _).length_le)
    let tail := scanFrom file next stop cut.rest
    { tokens := (cut.token? file start).toList ++ tail.tokens
      mode := tail.mode
      events := mode.switchEvents next stop ++ tail.events }
termination_by input.length
decreasing_by exact this

/-- The tokens of a page. -/
def scan (source : String) (file : Option String) : Scan :=
  scanFrom file .markup .start source.toList

/-- The token stream of a page, with the token for the end of the input. -/
def tokenize (source : String) (file : Option String) : List Token := (scan source file).tokens

end PageLint
