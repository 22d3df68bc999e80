import PageLint.Rule.Name

/-!
# Functions

A function needs a proper name, proper parameters and something in its body.
-/

namespace PageLint.Rule

/-- The rules that the name of a function or of a parameter breaks. -/
def functionNameFindings (what name : String) (line : Int) : List Finding :=
  let shown := what ++ " '" ++ name ++ "'"
  (if isWellFormed name then []
    else [{ line, description := shown ++ " does not follow identifier rules",
            category := .function }])
  ++ (if isReserved name then
      [{ line, description := shown ++ " is a JavaScript reserved word", category := .function }]
    else [])

/-- What the pass over functions finds at a node. -/
def functionRule : Node → List Finding
  | .function site name parameters body =>
    let line := site.location.line
    if name.isEmpty then
      [{ line, description := "Function name cannot be empty", category := .function }]
    else
      functionNameFindings "Function name" name line
      ++ (parameters.flatMap fun p =>
          functionNameFindings "Function parameter" p.name p.site.location.line)
      ++ (if body.isEmpty then
          [{ line, description := "Function body must contain at least one statement",
             category := .function }]
        else [])
  | _ => []

end PageLint.Rule
