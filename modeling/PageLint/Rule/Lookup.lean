import PageLint.Diagnostic
import PageLint.Text.Quote
import PageLint.Text.Search
import PageLint.Tree.Node

/-!
# Element look-ups

A script looks elements up by their id. The id has to be that of an element of the page: where it
is the quoted argument of a call, and where it stands in the target of an assignment to the
contents of an element.
-/

namespace PageLint.Rule

/-- The method that looks an element up. -/
def lookupMethod : List Char := "getElementById".toList

/-- The property that holds the contents of an element. -/
def contentProperty : List Char := "innerHTML".toList

/-- What the pass over inputs finds at a node. -/
def dataInputRule (ids : List String) : Node → List Finding
  | .call site callee (.identifier argument :: _) =>
    if Text.occursIn lookupMethod callee.name.toList && Text.isQuoted argument.name.toList then
      let id := String.ofList (Text.unquoted argument.name.toList)
      if ids.contains id then []
      else
        [{ line := site.location.line
           description := "getElementById references non-existent element ID: '" ++ id ++ "'"
           category := .dataInput }]
    else []
  | _ => []

/-- The text through the closing quote mark, for a text that starts with an opening one. -/
def throughQuote? : List Char → Option (List Char)
  | [] => none
  | mark :: rest =>
    if rest.contains mark then some (mark :: (rest.takeWhile (· != mark) ++ [mark])) else none

/-- The quoted text after the first look-up in a target: the first one in double quotes, and only
if there is no double quote the first one in single quotes. -/
def lookedUp? (target : List Char) : Option (List Char) :=
  match Text.fromFirst? lookupMethod target with
  | none => none
  | some call =>
    match Text.fromFirst? ['"'] call with
    | some quoted => throughQuote? quoted
    | none => (Text.fromFirst? ['\''] call).bind throughQuote?

/-- What the pass over outputs finds at a node. -/
def dataOutputRule (ids : List String) : Node → List Finding
  | .assignment site target _ _ =>
    if Text.occursIn contentProperty target.name.toList then
      match lookedUp? target.name.toList with
      | none => []
      | some quoted =>
        let id := String.ofList (Text.unquoted quoted)
        if ids.contains id then []
        else
          [{ line := site.location.line
             description :=
               "innerHTML assignment references non-existent element ID: '" ++ id ++ "'"
             category := .dataOutput }]
    else []
  | _ => []

end PageLint.Rule
