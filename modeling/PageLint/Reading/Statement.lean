import PageLint.Config
import PageLint.Reading.Expression

/-!
# Reading statements

The statements that are recognised in a script: declarations with `let`, `var` and `const`,
functions, assignments and expressions. Everything else is skipped token by token.

The body of a function is read brace by brace. It never comes to an end when a statement in it
takes no token, which can only happen when expressions may not take any; then there is no result.

`bodyFrom?` and `assignmentLinks` recurse on the tokens that are left.
-/

namespace PageLint

/-- What reading a statement gives: the statements for the tree, the names declared on the way and
the tokens that are left. -/
structure Harvest where
  statements : List Node := []
  declared : List String := []
  events : List Event := []
  rest : List Token

/-- One harvest after another. -/
def Harvest.append (a b : Harvest) : Harvest :=
  { statements := a.statements ++ b.statements
    declared := a.declared ++ b.declared
    events := a.events ++ b.events
    rest := b.rest }

/-! ## Declarations -/

/-- The value after an equals sign, if there is one. -/
def readInitializer (limit : Int) (ts : List Token) : Reading (Option Node) :=
  match ts with
  | [] => { value := none, rest := [] }
  | t :: ts =>
    if t.kind == .operator && t.text == "=" then (outerExpression limit).read ts
    else { value := none, rest := t :: ts }

/-- The declaration of a name after its keyword. Without a name nothing is declared. -/
def readDeclaration (limit : Int) (build : Identifier → Option Node → Node) (ts : List Token) :
    Harvest :=
  match ts with
  | [] => { rest := [] }
  | name :: ts =>
    if name.kind.isWord then
      let initializer := readInitializer limit ts
      { statements := [build name.toIdentifier initializer.value]
        declared := [name.text]
        events := initializer.events
        rest := dropSemicolon initializer.rest }
    else { rest := name :: ts }

/-! ## Assignments and expressions -/

/-- The tokens up to the next assignment operator of a statement, the operator and what follows. -/
def findAssignment? : List Token → Option (List Token × Token × List Token)
  | [] => none
  | t :: ts =>
    if t.kind.isBoundary || t.isMark ";" then none
    else if t.kind == .operator && isAssignmentOperator t.text then some ([], t, ts)
    else (findAssignment? ts).map fun (before, operator, after) => (t :: before, operator, after)

/-- The left side of an assignment as one name: the text of its tokens without comments. -/
def targetOf (first : Token) (others : List Token) : Identifier :=
  { site := { location := first.location }
    name := String.join (((first :: others).filter fun t => t.kind != .comment).map Token.text) }

theorem findAssignment?_length_lt {ts before after : List Token} {operator : Token}
    (h : findAssignment? ts = some (before, operator, after)) : after.length < ts.length := by
  induction ts generalizing before operator after with
  | nil => simp [findAssignment?] at h
  | cons t ts ih =>
    unfold findAssignment? at h
    split at h
    · simp at h
    split at h
    · simp only [Option.some.injEq, Prod.mk.injEq] at h
      simp [← h.2.2]
    · obtain ⟨⟨b, o, a⟩, ha, hb⟩ := Option.map_eq_some_iff.1 h
      simp only [Prod.mk.injEq] at hb
      have := ih ha
      rw [← hb.2.2, List.length_cons]
      omega

/-- The targets and operators of a chain of assignments, outermost first. -/
def assignmentLinks (ts : List Token) : List (Identifier × String) × List Token :=
  match ts with
  | [] => ([], [])
  | t :: ts =>
    if t.kind == .identifier then
      match h : findAssignment? ts with
      | none => ([], t :: ts)
      | some (before, operator, after) =>
        have : after.length < (t :: ts).length :=
          Nat.lt_succ_of_lt (findAssignment?_length_lt h)
        let (links, rest) := assignmentLinks after
        ((targetOf t before, operator.text) :: links, rest)
    else ([], t :: ts)
termination_by ts.length
decreasing_by exact this

/-- A chain of assignments around its final value. -/
def chainNode (links : List (Identifier × String)) (value : Option Node) : Option Node :=
  links.foldr (fun (target, operator) inner =>
    some (.assignment target.site target operator inner)) value

/-- A statement that starts with an identifier: a chain of assignments or an expression. -/
def readAssignment (limit : Int) (ts : List Token) : Harvest :=
  let (links, rest) := assignmentLinks ts
  let value := (outerExpression limit).read rest
  { statements := (chainNode links value.value).toList
    events := value.events
    rest := dropSemicolon value.rest }

/-! ## Functions -/

/-- The parameters of a function after the opening parenthesis. Only identifiers are parameters. -/
def readParameters : List Token → List Identifier × List Token
  | [] => ([], [])
  | t :: ts =>
    if endsArguments t then ([], dropRightParen (t :: ts))
    else
      let (parameters, rest) := readParameters ts
      (if t.kind == .identifier then t.toIdentifier :: parameters else parameters, rest)

/-- The statement at a token inside a function: a declaration or a statement that starts with an
identifier. -/
def readSimple? (limit : Int) (t : Token) (ts : List Token) : Option Harvest :=
  if t.kind == .keyword && (t.text == "let" || t.text == "var") then
    some (readDeclaration limit (.varDecl { location := t.location } t.text) ts)
  else if t.kind == .keyword && t.text == "const" then
    some (readDeclaration limit (.constDecl { location := t.location }) ts)
  else if t.kind == .identifier then some (readAssignment limit (t :: ts))
  else none

/-- The statements of a function body with `depth` open braces, through the brace that closes the
last of them. The end of the script ends the body and is left. -/
def bodyFrom? (limit : Int) (depth : Nat) (ts : List Token) : Option Harvest :=
  match depth, ts with
  | 0, ts => some { rest := ts }
  | _ + 1, [] => some { rest := [] }
  | depth + 1, t :: ts =>
    if t.kind == .eof || t.kind == .scriptClose then some { rest := t :: ts }
    else if t.kind == .leftBrace then bodyFrom? limit (depth + 2) ts
    else if t.kind == .rightBrace then bodyFrom? limit depth ts
    else
      match readSimple? limit t ts with
      | none => bodyFrom? limit (depth + 1) ts
      | some found =>
        if found.rest.length < (t :: ts).length then
          (bodyFrom? limit (depth + 1) found.rest).map found.append
        else none
termination_by ts.length
decreasing_by all_goals simp only [List.length_cons] at *; omega

/-- The parameters of a function, if they are next. -/
def readParameterList (ts : List Token) : List Identifier × List Token :=
  match ts with
  | [] => ([], [])
  | t :: ts => if t.kind == .leftParen then readParameters ts else ([], t :: ts)

/-- The body of a function, if it is next. -/
def readBody? (limit : Int) (ts : List Token) : Option Harvest :=
  match ts with
  | [] => some { rest := [] }
  | t :: ts => if t.kind == .leftBrace then bodyFrom? limit 1 ts else some { rest := t :: ts }

/-- A function after its keyword. One without a name is left to what follows. -/
def readFunction? (limit : Int) (keyword : Token) (ts : List Token) : Option Harvest :=
  match ts with
  | [] => some { rest := [] }
  | name :: ts =>
    if name.kind.isWord then
      let (parameters, afterParameters) := readParameterList ts
      (readBody? limit afterParameters).map fun body =>
        { statements :=
            [.function { location := keyword.location } name.text parameters body.statements]
          declared := body.declared
          events := body.events
          rest := body.rest }
    else some { rest := name :: ts }

/-! ## Statements of a script -/

/-- The statement at a token of a script outside functions. -/
def readStatement? (config : Config) (t : Token) (ts : List Token) : Option Harvest :=
  let limit := config.maxExpressionTokens
  match readSimple? limit t ts with
  | some found => some found
  | none =>
    if t.kind == .keyword && t.text == "function" then readFunction? limit t ts
    else if t.kind == .keyword && config.expressionKeywords.contains t.text then
      let value := (outerExpression limit).read (t :: ts)
      some
        { statements := value.value.toList
          events := value.events
          rest := dropSemicolon value.rest }
    else some { rest := ts }

end PageLint
