import PageLint.Diagnostic
import PageLint.Text.Word
import PageLint.Tree.Node

/-!
# Names

What a declared name has to look like: a word start followed by word parts, and no reserved word.
The pass over names reports every rule that a declared name, a function name or a parameter
breaks.
-/

namespace PageLint.Rule

/-- Whether a name is well formed; reserved words count as well formed. -/
def isWellFormed (name : String) : Bool :=
  match name.toList with
  | [] => false
  | c :: cs => Text.isWordStart c && cs.all Text.isWordPart

/-- The first character after the first that cannot continue a name. -/
def firstInvalid? (name : String) : Option Char :=
  name.toList.tail.find? fun c => !Text.isWordPart c

/-- The characters that are reported on their own. -/
def specialChars : List Char := ['-', '+', '*', '/']

/-- The first of the special characters that occurs in a name. -/
def firstSpecial? (name : String) : Option Char :=
  specialChars.find? fun c => name.toList.contains c

/-- A finding of the pass over names. -/
def nameFinding (line : Int) (description : String) : Finding :=
  { line, description, category := .identifier }

/-- The rules that a name breaks. -/
def nameFindings (name : String) (line : Int) : List Finding :=
  match name.toList with
  | [] => [nameFinding line "Identifier cannot be empty"]
  | first :: rest =>
    let shown := "Identifier '" ++ name ++ "'"
    (if Text.isWordStart first then []
      else [nameFinding line
        (shown ++ " must start with a letter, underscore, or Unicode letter")])
    ++ (match firstInvalid? name with
      | some c => [nameFinding line
          (shown ++ " contains invalid character '" ++ String.singleton c ++ "'")]
      | none => [])
    ++ (if (first :: rest).contains ' ' then
        [nameFinding line (shown ++ " cannot contain spaces")]
      else [])
    ++ (match firstSpecial? name with
      | some c => [nameFinding line
          (shown ++ " cannot contain special character '" ++ String.singleton c ++ "'")]
      | none => [])
    ++ (if isReserved name then
        [nameFinding line (shown ++ " is a JavaScript reserved word and cannot be used")]
      else [])

/-- What the pass over names finds at a node. -/
def identifierRule : Node → List Finding
  | .varDecl _ _ target _ => nameFindings target.name target.site.location.line
  | .constDecl _ target _ => nameFindings target.name target.site.location.line
  | .function site name parameters _ =>
    nameFindings name site.location.line
      ++ parameters.flatMap fun p => nameFindings p.name p.site.location.line
  | _ => []

end PageLint.Rule
