import PageLint.Literal
import PageLint.Token.Basic

/-!
# Events

What happens during a run and is worth a line in a log. Each event has a level, a channel that
tells the part of the program it comes from, and a message.
-/

namespace PageLint

/-- How important an event is. -/
inductive Level where
  | debug
  | info
  deriving DecidableEq, Repr, Inhabited

/-- The name of a level. -/
def Level.label : Level → String
  | .debug => "DEBUG"
  | .info => "INFO"

/-- Something that happened during a run. -/
inductive Event where
  /-- The scanner went from one mode to another at a line and column. -/
  | modeSwitched (before after : Mode) (line column : Nat)
  /-- A closing tag names no open tag. -/
  | closeUnmatched (name : String) (location : Location)
  /-- The statements of a script outside all tags were dropped. -/
  | scriptDropped (location : Location)
  /-- An expression was cut off at the limit on its length. -/
  | expressionCut (location : Location) (limit : Int)
  /-- A page was read into a number of top-level tags and element ids. -/
  | pageRead (file : Option String) (tags ids : Nat)
  /-- A chain of assignments was found. -/
  | chainFound (line : Int) (targets : List String)
  /-- The two sides of an assignment spell literals of different kinds. -/
  | kindsDiffer (line : Int) (target value : LiteralKind)
  /-- A pass finished with a number of diagnostics. -/
  | passFinished (pass : String) (count : Nat)
  /-- A report was written. -/
  | reportWritten (path : String) (size : Nat)
  /-- A document was checked and its report written. -/
  | documentFinished (path : String) (count : Nat) (report : String)
  deriving DecidableEq, Repr

namespace Event

/-- The level of an event. -/
def level : Event → Level
  | documentFinished .. => .info
  | _ => .debug

/-- The channel of an event. -/
def channel : Event → String
  | modeSwitched .. => "markscript.lexer.core"
  | closeUnmatched .. => "markscript.parsing.markup"
  | scriptDropped .. => "markscript.parsing.markup"
  | expressionCut .. => "markscript.parsing.expressions"
  | pageRead .. => "markscript.engine"
  | chainFound .. => "markscript.validators.assignments"
  | kindsDiffer .. => "markscript.validators.assignments"
  | passFinished .. => "markscript.validators"
  | reportWritten .. => "markscript.report"
  | documentFinished .. => "markscript.cli"

/-- The name of a page in messages. -/
def pageName : Option String → String
  | some file => if file.isEmpty then "<string>" else file
  | none => "<string>"

/-- The message of an event. -/
def message : Event → String
  | modeSwitched before after line column =>
    "lexer mode " ++ before.label ++ " -> " ++ after.label ++ " at " ++ Text.natText line ++ ":"
      ++ Text.natText column
  | closeUnmatched name location =>
    "unmatched closing tag </" ++ name ++ "> at " ++ location.text
  | scriptDropped location => "discarding top-level script at " ++ location.text
  | expressionCut location limit =>
    "expression at " ++ location.text ++ " stopped after " ++ Text.intText limit ++ " tokens"
  | pageRead file tags ids =>
    "Parsed " ++ pageName file ++ ": " ++ Text.natText tags ++ " top-level tag(s), "
      ++ Text.natText ids ++ " element id(s)"
  | chainFound line targets =>
    "Chain assignment at line " ++ Text.intText line ++ ": " ++ String.intercalate " = " targets
  | kindsDiffer line target value =>
    "Kind mismatch at line " ++ Text.intText line ++ ": " ++ target.label ++ " <- " ++ value.label
      ++ " (not reported)"
  | passFinished pass count =>
    "Pass " ++ pass ++ " reported " ++ Text.natText count ++ " diagnostic(s)"
  | reportWritten path size =>
    "Wrote report " ++ path ++ " (" ++ Text.natText size ++ " bytes)"
  | documentFinished path count report =>
    path ++ ": " ++ Text.natText count ++ " diagnostic(s), report " ++ report

/-- The line that an event makes in a log. -/
def logLine (e : Event) : String :=
  e.level.label ++ " " ++ e.channel ++ ": " ++ e.message

end Event

/-- A channel name inside the program's own family of channels. -/
def qualifiedChannel (name : String) : String :=
  if name == "markscript" || "markscript.".toList.isPrefixOf name.toList then name
  else "markscript." ++ name

end PageLint
