import PageLint.Rule.Name

/-!
# Constants

A constant needs a proper name and a value, and stands before the variables of its scope. A scope
is the statements of a script or of a function body.
-/

namespace PageLint.Rule

/-- The rules that the declaration of a constant breaks. -/
def constantFindings (target : Identifier) (initializer : Option Node) (afterVariable : Bool) :
    List Finding :=
  let report (description : String) : Finding :=
    { line := target.site.location.line, description, category := .constant }
  (if isWellFormed target.name then []
    else [report ("Constant name '" ++ target.name ++ "' does not follow identifier rules")])
  ++ (if isReserved target.name then
      [report ("Constant name '" ++ target.name ++ "' is a JavaScript reserved word")]
    else [])
  ++ (if initializer.isNone then [report "Constant must be assigned a value at declaration"]
    else [])
  ++ (if afterVariable then
      [report "Constant cannot be declared after var or let in the same scope"]
    else [])

/-- What is wrong with the constants of a scope; the flag says whether a variable came before. -/
def scopeFindings (afterVariable : Bool) : List Node → List Finding
  | [] => []
  | .varDecl .. :: rest => scopeFindings true rest
  | .constDecl _ target initializer :: rest =>
    constantFindings target initializer afterVariable ++ scopeFindings afterVariable rest
  | _ :: rest => scopeFindings afterVariable rest

/-- What the pass over constants finds at a node. -/
def constantRule : Node → List Finding
  | .script _ statements => scopeFindings false statements
  | .function _ _ _ body => scopeFindings false body
  | _ => []

end PageLint.Rule
