import PageLint.Proofs.Suffix

/-!
# Reading with a desk

Readers hand what they find to each other and know from their own level how deep calls nest. Here
they keep both on a desk instead: lists of statements that are filled as statements are found, one
list for each script or function that is being read, and a count of the calls whose arguments are
being read. A list is put up and taken off, and the count goes up and down, whatever ends a function
or the arguments of a call.

The readers with a desk follow nested calls only as far as they have room, which is enough when
there is more of it than calls nest.

* `Desk` — the lists of statements under construction and the count of calls
* `Kept.arguments` — arguments are read or skipped as the count says
* `Kept.expression_reads` — an expression is read the same, and leaves the desk as it was
-/

namespace PageLint

/-- What is kept while a page is read: the lists of statements under construction, innermost first,
and the number of calls whose arguments are being read. -/
structure Desk where
  sinks : List (List Node) := []
  callDepth : Nat := 0

namespace Desk

/-- Goes into the arguments of a call. -/
def enter (desk : Desk) : Desk := { desk with callDepth := desk.callDepth + 1 }

/-- Leaves the arguments of a call. -/
def leave (desk : Desk) : Desk := { desk with callDepth := desk.callDepth - 1 }

/-- Adds statements to the innermost list. -/
def put (ns : List Node) (desk : Desk) : Desk :=
  match desk.sinks with
  | [] => desk
  | sink :: sinks => { desk with sinks := (sink ++ ns) :: sinks }

/-- Puts up a new list. -/
def push (desk : Desk) : Desk := { desk with sinks := [] :: desk.sinks }

/-- Takes the innermost list off. -/
def pop (desk : Desk) : List Node × Desk :=
  match desk.sinks with
  | [] => ([], desk)
  | sink :: sinks => (sink, { desk with sinks })

theorem put_nil (desk : Desk) : desk.put [] = desk := by
  obtain ⟨_ | ⟨sink, sinks⟩, callDepth⟩ := desk <;> simp [put]

theorem put_put (ns ms : List Node) (desk : Desk) : (desk.put ns).put ms = desk.put (ns ++ ms) := by
  obtain ⟨_ | ⟨sink, sinks⟩, callDepth⟩ := desk <;> simp [put]

@[simp] theorem put_callDepth (ns : List Node) (desk : Desk) :
    (desk.put ns).callDepth = desk.callDepth := by
  obtain ⟨_ | ⟨sink, sinks⟩, callDepth⟩ := desk <;> rfl

theorem leave_enter (desk : Desk) : desk.enter.leave = desk := rfl

end Desk

/-! ## Readers with a desk -/

/-- Reading with a desk. -/
abbrev Kept (α : Type) := StateM Desk α

namespace Kept

section Expressions

variable (args : List Token → Kept (Reading (List Node)))

/-- The arguments of a call when an opening parenthesis is next. -/
def argumentsAt (ts : List Token) : Kept (Reading (Option (List Node))) :=
  match ts with
  | [] => pure { value := none, rest := [] }
  | t :: ts =>
    if t.kind == .leftParen then do
      let r ← args ts
      pure { value := some r.value, events := r.events, rest := r.rest }
    else pure { value := none, rest := t :: ts }

/-- The names chained with dots after a name or call. -/
def chainedNames (ts : List Token) : Kept (Reading (List String)) :=
  match ts with
  | [] => pure { value := [], rest := [] }
  | t :: ts =>
    if t.isMark "." then
      let named := dottedName true ts
      if named.1.isEmpty then pure { value := [], rest := named.2 }
      else do
        let dropped ← argumentsAt args named.2
        if dropped.rest.length < (t :: ts).length then do
          let more ← chainedNames dropped.rest
          pure
            { value := named.1 ++ more.value
              events := dropped.events ++ more.events
              rest := more.rest }
        else pure { value := named.1, events := dropped.events, rest := dropped.rest }
    else pure { value := [], rest := t :: ts }
termination_by ts.length
decreasing_by all_goals simp only [List.length_cons] at *; omega

/-- A dotted name with the arguments of its call, if any, and whatever is chained to it. -/
def namedOperand (ts : List Token) : Kept (Reading (Option Node)) :=
  match ts with
  | [] => pure { value := none, rest := [] }
  | first :: _ =>
    let (names, afterNames) := dottedName false ts
    if names.isEmpty then pure { value := none, rest := afterNames }
    else do
      let site : Site := { location := first.location }
      let callee : Identifier := { site, name := String.intercalate "." names }
      let called ← argumentsAt args afterNames
      let chained ← chainedNames args called.rest
      let value : Node :=
        if chained.value.isEmpty then
          match called.value with
          | some arguments => .call site callee arguments
          | none => .identifier callee
        else
          .identifier { site, name := String.intercalate "." (callee.name :: chained.value) }
      pure { value := some value, events := called.events ++ chained.events, rest := chained.rest }

/-- Operands and operators up to the end of an expression, in at most `n` steps. -/
def flatRun (cut : Event) : Nat → List Token → Kept (Reading (List Node × List String))
  | 0, ts => pure { value := ([], []), events := [cut], rest := ts }
  | _ + 1, [] => pure { value := ([], []), rest := [] }
  | n + 1, t :: ts =>
    if t.kind.isBoundary || isTerminator (some t) then pure { value := ([], []), rest := t :: ts }
    else if t.kind == .operator then
      if isAssignmentOperator t.text then pure { value := ([], []), rest := t :: ts }
      else do
        let more ← flatRun cut n ts
        pure { more with value := (more.value.1, t.text :: more.value.2) }
    else if t.kind == .identifier && goesOn ts then do
      let operand ← namedOperand args (t :: ts)
      let more ← flatRun cut n operand.rest
      pure
        { value := (operand.value.toList ++ more.value.1, more.value.2)
          events := operand.events ++ more.events
          rest := more.rest }
    else if t.kind == .identifier || t.kind.isLiteral then do
      let more ← flatRun cut n ts
      pure { more with value := (.identifier t.toIdentifier :: more.value.1, more.value.2) }
    else pure { value := ([], []), rest := ts }

/-- Reads an expression, given how to read the arguments of a call. -/
def readExpression (limit : Int) (ts : List Token) : Kept (Reading (Option Node)) :=
  match ts with
  | [] => pure { value := none, rest := [] }
  | t :: ts =>
    if t.kind == .eof then pure { value := none, rest := t :: ts }
    else if t.kind == .keyword && t.text == "new" then namedOperand args ts
    else if t.kind == .identifier && goesOn ts then namedOperand args (t :: ts)
    else if (t.kind == .identifier || t.kind.isLiteral) && isTerminator ts.head? then
      pure { value := some (.identifier t.toIdentifier), rest := ts }
    else do
      let run ← flatRun args (.expressionCut t.location limit) limit.toNat (t :: ts)
      pure { value := flatNode t run.value.1 run.value.2, events := run.events, rest := run.rest }

end Expressions

/-- The arguments of a call, up to what ends the list. -/
def argumentsFrom (expr : List Token → Kept (Reading (Option Node))) (ts : List Token) :
    Kept (Reading (List Node)) :=
  match ts with
  | [] => pure { value := [], rest := [] }
  | t :: ts =>
    if endsArguments t then pure { value := [], rest := t :: ts }
    else do
      let first ← expr (t :: ts)
      match first.rest with
      | [] => pure { value := first.value.toList, events := first.events, rest := [] }
      | u :: us =>
        if endsArguments u then
          pure { value := first.value.toList, events := first.events, rest := u :: us }
        else if us.length < (t :: ts).length then do
          let more ← argumentsFrom expr us
          pure
            { value := first.value.toList ++ more.value
              events := first.events ++ more.events
              rest := more.rest }
        else pure { value := first.value.toList, events := first.events, rest := us }
termination_by ts.length
decreasing_by all_goals simp only [List.length_cons] at *; omega

/-- The arguments of a call after its opening parenthesis: they are skipped when too many calls are
counted, and read with one more call counted otherwise. -/
def arguments (limit : Int) : Nat → List Token → Kept (Reading (List Node))
  | 0, ts => pure { value := [], rest := ts }
  | room + 1, ts => do
    let desk ← get
    if maxCallDepth ≤ desk.callDepth then pure (skipArguments.read ts)
    else do
      modify Desk.enter
      let r ← argumentsFrom (readExpression (arguments limit room) limit) ts
      modify Desk.leave
      pure { r with rest := dropRightParen r.rest }

/-- Reads an expression. -/
def expression (limit : Int) (room : Nat) (ts : List Token) : Kept (Reading (Option Node)) :=
  readExpression (arguments limit room) limit ts

/-! ## Expressions leave the desk as it was -/

variable {α β : Type}

theorem run_bind {x : Kept α} {f : α → Kept β} {desk desk' : Desk} {a : α}
    (h : x.run desk = (a, desk')) : (x >>= f).run desk = (f a).run desk' := by
  show (x.run desk >>= fun p => (f p.1).run p.2) = _
  rw [h]
  rfl

theorem run_get {f : Desk → Kept β} (desk : Desk) : (get >>= f).run desk = (f desk).run desk := rfl

theorem run_modify {f : Kept β} (g : Desk → Desk) (desk : Desk) :
    (modify g >>= fun _ => f).run desk = f.run (g desk) := rfl

/-- Reading gives a value and leaves the desk as it was. -/
def Reads (x : Kept α) (desk : Desk) (a : α) : Prop := x.run desk = (a, desk)

theorem Reads.pure (a : α) (desk : Desk) : Reads (pure a) desk a := rfl

theorem Reads.bind {x : Kept α} {f : α → Kept β} {desk : Desk} {a : α} {b : β}
    (h : Reads x desk a) (h' : Reads (f a) desk b) : Reads (x >>= f) desk b :=
  (run_bind h).trans h'

section Expressions

variable {args : List Token → Kept (Reading (List Node))} {plain : Reader (List Node)} {desk : Desk}
  (hargs : ∀ ts, Reads (args ts) desk (plain.read ts))

include hargs

theorem argumentsAt_reads (ts : List Token) :
    Reads (argumentsAt args ts) desk (PageLint.argumentsAt plain ts) := by
  cases ts with
  | nil => exact .pure _ _
  | cons t ts =>
    rw [argumentsAt, PageLint.argumentsAt]
    split
    · exact (hargs _).bind (.pure _ _)
    · exact .pure _ _

theorem chainedNames_reads (ts : List Token) :
    Reads (chainedNames args ts) desk (PageLint.chainedNames plain ts) := by
  fun_induction PageLint.chainedNames plain ts with
  | case1 => rw [chainedNames]; exact .pure _ _
  | case2 t ts ht named hnamed => rw [chainedNames, if_pos ht, if_pos hnamed]; exact .pure _ _
  | case3 t ts ht named hnamed dropped hlt more ih =>
    rw [chainedNames, if_pos ht, if_neg hnamed]
    refine (argumentsAt_reads hargs _).bind ?_
    rw [if_pos hlt]
    exact ih.bind (.pure _ _)
  | case4 t ts ht => rw [chainedNames, if_neg ht]; exact .pure _ _

theorem namedOperand_reads (ts : List Token) :
    Reads (namedOperand args ts) desk (PageLint.namedOperand plain ts) := by
  unfold namedOperand PageLint.namedOperand
  split
  · exact .pure _ _
  · simp only
    split
    · exact .pure _ _
    · exact (argumentsAt_reads hargs _).bind ((chainedNames_reads hargs _).bind (.pure _ _))

theorem flatRun_reads (cut : Event) (n : Nat) (ts : List Token) :
    Reads (flatRun args cut n ts) desk (PageLint.flatRun plain cut n ts) := by
  fun_induction PageLint.flatRun plain cut n ts with
  | case1 => exact .pure _ _
  | case2 => exact .pure _ _
  | case3 n t ts hend => rw [flatRun, if_pos hend]; exact .pure _ _
  | case4 n t ts hend hop hassign =>
    rw [flatRun, if_neg hend, if_pos hop, if_pos hassign]
    exact .pure _ _
  | case5 n t ts hend hop hassign more ih =>
    rw [flatRun, if_neg hend, if_pos hop, if_neg hassign]
    exact ih.bind (.pure _ _)
  | case6 n t ts hend hop hname operand more ih =>
    rw [flatRun, if_neg hend, if_neg hop, if_pos hname]
    exact (namedOperand_reads hargs _).bind (ih.bind (.pure _ _))
  | case7 n t ts hend hop hname hword more ih =>
    rw [flatRun, if_neg hend, if_neg hop, if_neg hname, if_pos hword]
    exact ih.bind (.pure _ _)
  | case8 n t ts hend hop hname hword =>
    rw [flatRun, if_neg hend, if_neg hop, if_neg hname, if_neg hword]
    exact .pure _ _

theorem readExpression_reads (limit : Int) (ts : List Token) :
    Reads (readExpression args limit ts) desk (PageLint.readExpression limit plain ts) := by
  cases ts with
  | nil => exact .pure _ _
  | cons t ts =>
  rw [readExpression, PageLint.readExpression]
  split
  · exact .pure _ _
  split
  · exact namedOperand_reads hargs _
  split
  · exact namedOperand_reads hargs _
  split
  · exact .pure _ _
  · exact (flatRun_reads hargs _ _ _).bind (.pure _ _)

end Expressions

theorem argumentsFrom_reads {expr : List Token → Kept (Reading (Option Node))}
    {plain : Reader (Option Node)} {desk : Desk}
    (hexpr : ∀ ts, Reads (expr ts) desk (plain.read ts)) (ts : List Token) :
    Reads (argumentsFrom expr ts) desk (PageLint.argumentsFrom plain ts) := by
  fun_induction PageLint.argumentsFrom plain ts with
  | case1 => rw [argumentsFrom]; exact .pure _ _
  | case2 t ts hend => rw [argumentsFrom, if_pos hend]; exact .pure _ _
  | case3 t ts hend first hrest =>
    rw [argumentsFrom, if_neg hend]
    refine (hexpr _).bind ?_
    have hleft : (plain.read (t :: ts)).rest = [] := hrest
    simp only [hleft]
    exact .pure _ _
  | case4 t ts hend first u us hrest hu =>
    rw [argumentsFrom, if_neg hend]
    refine (hexpr _).bind ?_
    have hleft : (plain.read (t :: ts)).rest = u :: us := hrest
    simp only [hleft, if_pos hu]
    exact .pure _ _
  | case5 t ts hend first u us hrest hu hlt more ih =>
    rw [argumentsFrom, if_neg hend]
    refine (hexpr _).bind ?_
    have hleft : (plain.read (t :: ts)).rest = u :: us := hrest
    simp only [hleft, if_neg hu, if_pos hlt]
    exact ih.bind (.pure _ _)

/-- **Arguments leave the count as it was**: it goes up and down again, or they are skipped. -/
theorem arguments_reads (limit : Int) (k : Nat) {room : Nat} (hroom : k < room) {desk : Desk}
    (hdesk : desk.callDepth + k = maxCallDepth) (ts : List Token) :
    Reads (arguments limit room ts) desk ((argumentReader limit k).read ts) := by
  induction k generalizing room desk ts with
  | zero =>
    obtain ⟨room, rfl⟩ := Nat.exists_eq_add_of_lt hroom
    rw [Reads, Nat.zero_add, arguments, run_get, if_pos (by omega)]
    rfl
  | succ k ih =>
    obtain ⟨room, rfl⟩ : ∃ r, room = r + 1 := ⟨room - 1, by omega⟩
    have hinner : ∀ us, Reads (readExpression (arguments limit room) limit us) desk.enter
        ((PageLint.expression limit k).read us) := by
      intro us
      rw [expression_eq]
      refine readExpression_reads (fun vs => ih (by omega) ?_ vs) limit us
      simp only [Desk.enter]
      omega
    rw [Reads, arguments, run_get, if_neg (by omega), run_modify,
      run_bind (argumentsFrom_reads hinner ts), run_modify, Desk.leave_enter]
    rfl

/-- **An expression is read the same with a desk, and leaves it as it was.** -/
theorem expression_reads (limit : Int) {room : Nat} (hroom : maxCallDepth < room) {desk : Desk}
    (hdesk : desk.callDepth = 0) (ts : List Token) :
    Reads (expression limit room ts) desk ((outerExpression limit).read ts) := by
  rw [outerExpression, expression_eq]
  exact readExpression_reads (arguments_reads limit maxCallDepth hroom (by omega)) limit ts

end Kept

end PageLint
