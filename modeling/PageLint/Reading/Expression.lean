import PageLint.Reading.Reader

/-!
# Reading expressions

An expression is a flat run of operands and operators, without precedence. Dotted names are read
as one name; a call keeps its arguments, unless something is chained to it with a dot, which turns
the whole chain into one dotted name.

Calls nest inside the arguments of calls. How deep they are read is a number that counts down:
`expression limit k` reads the arguments of `k` nested calls and skips those of deeper ones, by
counting parentheses. All other loops go over the tokens, and a flat run takes at most `limit`
steps.
-/

namespace PageLint

/-! ## Dotted names -/

/-- Further names of a dotted name, each after a dot. -/
def dottedTail : List Token → List String × List Token
  | dot :: name :: ts =>
    if dot.isMark "." && name.kind.isWord then
      let (names, rest) := dottedTail ts
      (name.text :: names, rest)
    else ([], dot :: name :: ts)
  | ts => ([], ts)

/-- The names of a dotted name. The first is an identifier, or any word when `anyWord` is set. -/
def dottedName (anyWord : Bool) : List Token → List String × List Token
  | [] => ([], [])
  | t :: ts =>
    if t.kind == .identifier || (anyWord && t.kind.isWord) then
      let (names, rest) := dottedTail ts
      (t.text :: names, rest)
    else ([], t :: ts)

theorem dottedTail_length_le (ts : List Token) : (dottedTail ts).2.length ≤ ts.length := by
  fun_induction dottedTail ts with
  | case1 dot name ts h names rest eq ih =>
    rw [eq] at ih
    simp only [List.length_cons] at ih ⊢
    omega
  | case2 => exact Nat.le_refl _
  | case3 => exact Nat.le_refl _

theorem dottedName_length_le (anyWord : Bool) (ts : List Token) :
    (dottedName anyWord ts).2.length ≤ ts.length := by
  unfold dottedName
  split
  · exact Nat.le_refl _
  · rename_i t ts
    have := dottedTail_length_le ts
    split
    · simp only [List.length_cons]; omega
    · exact Nat.le_refl _

/-! ## Calls -/

/-- The arguments of a call when an opening parenthesis is next. -/
def argumentsAt (args : Reader (List Node)) (ts : List Token) : Reading (Option (List Node)) :=
  match ts with
  | [] => { value := none, rest := [] }
  | t :: ts =>
    if t.kind == .leftParen then
      let r := args.read ts
      { value := some r.value, events := r.events, rest := r.rest }
    else { value := none, rest := t :: ts }

theorem argumentsAt_rest_le (args : Reader (List Node)) (ts : List Token) :
    (argumentsAt args ts).rest.length ≤ ts.length := by
  unfold argumentsAt
  split
  · exact Nat.le_refl _
  · rename_i t ts
    have := args.rest_le ts
    split
    · simp only [List.length_cons]; omega
    · exact Nat.le_refl _

/-- The names chained with dots after a name or call. Arguments in the chain are dropped, and so is
a last dot that no name follows. -/
def chainedNames (args : Reader (List Node)) (ts : List Token) : Reading (List String) :=
  match ts with
  | [] => { value := [], rest := [] }
  | t :: ts =>
    if t.isMark "." then
      let named := dottedName true ts
      if named.1.isEmpty then { value := [], rest := named.2 }
      else
        let dropped := argumentsAt args named.2
        have : dropped.rest.length < (t :: ts).length :=
          Nat.lt_succ_of_le (Nat.le_trans (argumentsAt_rest_le args named.2)
            (dottedName_length_le true ts))
        let more := chainedNames args dropped.rest
        { value := named.1 ++ more.value
          events := dropped.events ++ more.events
          rest := more.rest }
    else { value := [], rest := t :: ts }
termination_by ts.length
decreasing_by exact this

theorem chainedNames_rest_le (args : Reader (List Node)) (ts : List Token) :
    (chainedNames args ts).rest.length ≤ ts.length := by
  fun_induction chainedNames args ts with
  | case1 => exact Nat.le_refl _
  | case2 t ts h named hn => exact Nat.le_succ_of_le (dottedName_length_le true ts)
  | case3 t ts h named hn dropped hlt more ih => exact Nat.le_trans ih (Nat.le_of_lt hlt)
  | case4 => exact Nat.le_refl _

/-- A dotted name with the arguments of its call, if any, and whatever is chained to it. -/
def namedOperand (args : Reader (List Node)) (ts : List Token) : Reading (Option Node) :=
  match ts with
  | [] => { value := none, rest := [] }
  | first :: _ =>
    let (names, afterNames) := dottedName false ts
    if names.isEmpty then { value := none, rest := afterNames }
    else
      let site : Site := { location := first.location }
      let callee : Identifier := { site, name := String.intercalate "." names }
      let called := argumentsAt args afterNames
      let chained := chainedNames args called.rest
      let value : Node :=
        if chained.value.isEmpty then
          match called.value with
          | some arguments => .call site callee arguments
          | none => .identifier callee
        else
          .identifier { site, name := String.intercalate "." (callee.name :: chained.value) }
      { value := some value, events := called.events ++ chained.events, rest := chained.rest }

theorem namedOperand_rest_le (args : Reader (List Node)) (ts : List Token) :
    (namedOperand args ts).rest.length ≤ ts.length := by
  unfold namedOperand
  split
  · exact Nat.le_refl _
  · rename_i first tail
    have h1 := dottedName_length_le false (first :: tail)
    simp only
    split
    · exact h1
    · have h2 := argumentsAt_rest_le args (dottedName false (first :: tail)).2
      have h3 := chainedNames_rest_le args
        (argumentsAt args (dottedName false (first :: tail)).2).rest
      simp only
      omega

/-! ## Flat runs -/

/-- Whether a dotted name or a call goes on after an identifier. -/
def goesOn : List Token → Bool
  | [] => false
  | t :: _ => t.isMark "." || t.kind == .leftParen

/-- Operands and operators up to the end of an expression, in at most `n` steps. Braces, the end of
the script and terminators are left; an assignment operator is left as well, and any other token
that has no place in an expression is taken and ends it. -/
def flatRun (args : Reader (List Node)) (cut : Event) :
    Nat → List Token → Reading (List Node × List String)
  | 0, ts => { value := ([], []), events := [cut], rest := ts }
  | _ + 1, [] => { value := ([], []), rest := [] }
  | n + 1, t :: ts =>
    if t.kind.isBoundary || isTerminator (some t) then { value := ([], []), rest := t :: ts }
    else if t.kind == .operator then
      if isAssignmentOperator t.text then { value := ([], []), rest := t :: ts }
      else
        let more := flatRun args cut n ts
        { more with value := (more.value.1, t.text :: more.value.2) }
    else if t.kind == .identifier && goesOn ts then
      let operand := namedOperand args (t :: ts)
      let more := flatRun args cut n operand.rest
      { value := (operand.value.toList ++ more.value.1, more.value.2)
        events := operand.events ++ more.events
        rest := more.rest }
    else if t.kind == .identifier || t.kind.isLiteral then
      let more := flatRun args cut n ts
      { more with value := (.identifier t.toIdentifier :: more.value.1, more.value.2) }
    else { value := ([], []), rest := ts }

theorem flatRun_rest_le (args : Reader (List Node)) (cut : Event) (n : Nat) (ts : List Token) :
    (flatRun args cut n ts).rest.length ≤ ts.length := by
  induction n generalizing ts with
  | zero => exact Nat.le_refl _
  | succ n ih =>
    cases ts with
    | nil => exact Nat.le_refl _
    | cons t ts =>
      have h1 := ih ts
      have h2 := namedOperand_rest_le args (t :: ts)
      have h3 := ih (namedOperand args (t :: ts)).rest
      unfold flatRun
      simp only [List.length_cons] at *
      split
      · simp only [List.length_cons]; omega
      split
      · split
        · simp only [List.length_cons]; omega
        · simp only; omega
      split
      · simp only; omega
      split
      · simp only; omega
      · simp only; omega

/-- The node of a flat run: a single operand stands for itself, no operand for nothing. -/
def flatNode (start : Token) (operands : List Node) (operators : List String) : Option Node :=
  match operands, operators with
  | [], _ => none
  | [operand], [] => some operand
  | _, _ => some (.expression { location := start.location } operands operators)

/-! ## Expressions -/

/-- Reads an expression, given how to read the arguments of a call. -/
def readExpression (limit : Int) (args : Reader (List Node)) (ts : List Token) :
    Reading (Option Node) :=
  match ts with
  | [] => { value := none, rest := [] }
  | t :: ts =>
    if t.kind == .eof then { value := none, rest := t :: ts }
    else if t.kind == .keyword && t.text == "new" then namedOperand args ts
    else if t.kind == .identifier && goesOn ts then namedOperand args (t :: ts)
    else if (t.kind == .identifier || t.kind.isLiteral) && isTerminator ts.head? then
      { value := some (.identifier t.toIdentifier), rest := ts }
    else
      let run := flatRun args (.expressionCut t.location limit) limit.toNat (t :: ts)
      { value := flatNode t run.value.1 run.value.2, events := run.events, rest := run.rest }

theorem readExpression_rest_le (limit : Int) (args : Reader (List Node)) (ts : List Token) :
    (readExpression limit args ts).rest.length ≤ ts.length := by
  unfold readExpression
  split
  · exact Nat.le_refl _
  · rename_i t ts
    have h1 := namedOperand_rest_le args ts
    have h2 := namedOperand_rest_le args (t :: ts)
    have h3 := flatRun_rest_le args (.expressionCut t.location limit) limit.toNat (t :: ts)
    simp only [List.length_cons] at *
    split
    · simp only [List.length_cons]; omega
    split
    · omega
    split
    · omega
    split
    · simp only; omega
    · simp only; omega

/-- The reader of expressions, given how to read the arguments of a call. -/
def expressionReader (limit : Int) (args : Reader (List Node)) : Reader (Option Node) :=
  { read := readExpression limit args, rest_le := readExpression_rest_le limit args }

/-! ## Argument lists -/

/-- Whether a token ends an argument list. -/
def endsArguments (t : Token) : Bool := t.kind.isBoundary || t.kind == .rightParen

/-- The arguments of a call, up to what ends the list. One token between two arguments is skipped,
whatever it is. -/
def argumentsFrom (expr : Reader (Option Node)) (ts : List Token) : Reading (List Node) :=
  match ts with
  | [] => { value := [], rest := [] }
  | t :: ts =>
    if endsArguments t then { value := [], rest := t :: ts }
    else
      let first := expr.read (t :: ts)
      match h : first.rest with
      | [] => { value := first.value.toList, events := first.events, rest := [] }
      | u :: us =>
        if endsArguments u then
          { value := first.value.toList, events := first.events, rest := u :: us }
        else
          have : us.length < (t :: ts).length :=
            Nat.lt_of_succ_le (show (u :: us).length ≤ _ from h ▸ expr.rest_le (t :: ts))
          let more := argumentsFrom expr us
          { value := first.value.toList ++ more.value
            events := first.events ++ more.events
            rest := more.rest }
termination_by ts.length
decreasing_by exact this

theorem argumentsFrom_rest_le (expr : Reader (Option Node)) (ts : List Token) :
    (argumentsFrom expr ts).rest.length ≤ ts.length := by
  fun_induction argumentsFrom expr ts with
  | case1 => exact Nat.le_refl _
  | case2 => exact Nat.le_refl _
  | case3 => simp
  | case4 t ts ht first u us h hu => exact h ▸ expr.rest_le (t :: ts)
  | case5 t ts ht first u us h hu hlt more ih => exact Nat.le_trans ih (Nat.le_of_lt hlt)

/-- The tokens after a closing parenthesis, if there is one in front. -/
def dropRightParen : List Token → List Token
  | [] => []
  | t :: ts => if t.kind == .rightParen then ts else t :: ts

theorem dropRightParen_length_le (ts : List Token) : (dropRightParen ts).length ≤ ts.length := by
  unfold dropRightParen
  split
  · exact Nat.le_refl _
  · split <;> simp

/-- Reads the arguments of a call after its opening parenthesis, through the closing one. -/
def readArguments (expr : Reader (Option Node)) : Reader (List Node) where
  read ts :=
    let r := argumentsFrom expr ts
    { r with rest := dropRightParen r.rest }
  rest_le ts :=
    Nat.le_trans (dropRightParen_length_le _) (argumentsFrom_rest_le expr ts)

/-- The tokens after a number of closing parentheses, those of parentheses opened on the way not
counted; a brace or the end of the script stops the search. -/
def skipParens : Nat → List Token → List Token
  | 0, ts => ts
  | _ + 1, [] => []
  | depth + 1, t :: ts =>
    if t.kind.isBoundary then t :: ts
    else if t.kind == .leftParen then skipParens (depth + 2) ts
    else if t.kind == .rightParen then skipParens depth ts
    else skipParens (depth + 1) ts

theorem skipParens_length_le (depth : Nat) (ts : List Token) :
    (skipParens depth ts).length ≤ ts.length := by
  induction ts generalizing depth with
  | nil => cases depth <;> simp [skipParens]
  | cons t ts ih =>
    cases depth with
    | zero => simp [skipParens]
    | succ depth =>
      unfold skipParens
      have h1 := ih (depth + 2)
      have h2 := ih depth
      have h3 := ih (depth + 1)
      simp only [List.length_cons]
      split
      · simp
      split
      · omega
      split <;> omega

/-- Skips the arguments of a call after its opening parenthesis, through the closing one. -/
def skipArguments : Reader (List Node) where
  read ts := { value := [], rest := skipParens 1 ts }
  rest_le ts := skipParens_length_le 1 ts

/-- How many calls may nest before their arguments are skipped. -/
def maxCallDepth : Nat := 100

/-- The reader of expressions that reads the arguments of `k` nested calls. -/
def expression (limit : Int) : Nat → Reader (Option Node)
  | 0 => expressionReader limit skipArguments
  | k + 1 => expressionReader limit (readArguments (expression limit k))

/-- The reader of expressions outside all calls. -/
def outerExpression (limit : Int) : Reader (Option Node) := expression limit maxCallDepth

end PageLint
