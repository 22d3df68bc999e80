import PageLint.Proofs.Comments.Statements

/-!
# Expressions at the end of a script

A script is over at its closing tag and at the end of the input. No reader takes a token that ends
a script or looks at what comes behind it, so the tokens of a script are read as if they stood
alone: the value is the same, and what is left has the same tokens behind it. This is said here of
expressions, and in the next module of statements.

Only the events may differ. An operand that is the last token of all is read without a flat run,
and then no run is cut.

* `Reader.Local` — a reader that stops at the end of a script
* `expression_local` — expressions do, whatever depth of calls is read
-/

namespace PageLint

/-! ## The end of a script -/

/-- Whether a token ends a script: its closing tag, or the end of the input. -/
def Token.endsScript (t : Token) : Bool := t.kind == .eof || t.kind == .scriptClose

/-- Tokens inside a script, none of which ends it. -/
def Inside (ts : List Token) : Prop := ∀ t ∈ ts, t.endsScript = false

/-- Tokens at which a script is over: there are none, or the first one ends it. -/
def Ended (ts : List Token) : Prop := ∀ t ∈ ts.head?, t.endsScript = true

theorem Inside.of_suffix {ts us : List Token} (h : Inside us) (hs : ts <:+ us) : Inside ts :=
  fun t ht => h t (hs.subset ht)

theorem Inside.tail {t : Token} {ts : List Token} (h : Inside (t :: ts)) : Inside ts :=
  h.of_suffix (List.suffix_cons t ts)

theorem inside_nil : Inside [] := by
  intro t ht
  cases ht

theorem ended_nil : Ended [] := by
  intro t ht
  cases ht

theorem ended_close {close : Token} (h : close.kind = .scriptClose) (ts : List Token) :
    Ended (close :: ts) := by
  rintro t ⟨⟩
  simp [Token.endsScript, h]

theorem kind_of_endsScript {t : Token} (h : t.endsScript = true) :
    t.kind = .eof ∨ t.kind = .scriptClose := by
  simpa [Token.endsScript] using h

/-- The end of a script closes whatever is being read. -/
theorem Ended.closes {ts : List Token} (h : Ended ts) : ∀ t ∈ ts.head?, t.closes = true := by
  intro t ht
  rcases kind_of_endsScript (h t ht) with hk | hk <;> simp [Token.closes, hk]

theorem Ended.stops {ts : List Token} (h : Ended ts) : stops ts = true := by
  cases ts with
  | nil => rfl
  | cons t ts => simp [PageLint.stops, h.closes t rfl]

/-- A token that ends a script is none that a loop passes over. -/
theorem Ended.cases {ts : List Token} (h : Ended ts) :
    ts = [] ∨ ∃ t us, ts = t :: us ∧ (t.kind = .eof ∨ t.kind = .scriptClose) := by
  cases ts with
  | nil => exact Or.inl rfl
  | cons t us => exact Or.inr ⟨t, us, rfl, kind_of_endsScript (h t rfl)⟩

/-! ## Reading what stands before the end -/

/-- A reading of tokens in front of others: the value is the same, and the others are left. -/
structure Reading.Before {α : Type} (tail : List Token) (r r' : Reading α) : Prop where
  value : r'.value = r.value
  rest : r'.rest = r.rest ++ tail

/-- A reader that takes tokens off the front, and reads those of a script as if nothing stood
behind them. -/
structure Reader.Local {α : Type} (r : Reader α) : Prop where
  suffix : r.LeavesSuffix
  before : ∀ {region tail : List Token}, Inside region → Ended tail →
    Reading.Before tail (r.read region) (r.read (region ++ tail))

section Tail

variable {region tail : List Token} (htail : Ended tail)

include htail

theorem dropSemicolon_append : dropSemicolon (region ++ tail) = dropSemicolon region ++ tail := by
  cases region with
  | cons t ts =>
    rw [List.cons_append, dropSemicolon, dropSemicolon]
    split <;> rfl
  | nil =>
    rcases htail.cases with rfl | ⟨t, us, rfl, hk | hk⟩
    · rfl
    · simp [dropSemicolon, Token.isMark, hk]
    · simp [dropSemicolon, Token.isMark, hk]

theorem dropRightParen_append :
    dropRightParen (region ++ tail) = dropRightParen region ++ tail := by
  cases region with
  | cons t ts =>
    rw [List.cons_append, dropRightParen, dropRightParen]
    split <;> rfl
  | nil =>
    rcases htail.cases with rfl | ⟨t, us, rfl, hk | hk⟩
    · rfl
    · simp [dropRightParen, hk]
    · simp [dropRightParen, hk]

theorem goesOn_append : goesOn (region ++ tail) = goesOn region := by
  cases region with
  | cons t ts => rfl
  | nil => exact goesOn_closes htail.stops

/-! ## Names and calls -/

theorem dottedTail_append :
    dottedTail (region ++ tail) = ((dottedTail region).1, (dottedTail region).2 ++ tail) := by
  fun_induction dottedTail region with
  | case1 dot name ts h names rest eq ih =>
    rw [List.cons_append, List.cons_append, dottedTail, if_pos h, ih, eq]
  | case2 dot name ts h =>
    rw [List.cons_append, List.cons_append, dottedTail, if_neg h]
  | case3 region h =>
    cases region with
    | nil => exact dottedTail_closes htail.stops
    | cons dot ts =>
      cases ts with
      | cons name ts => exact absurd rfl (h dot name ts)
      | nil =>
        -- A last dot is followed by no name, whatever ends the script.
        rcases htail.cases with rfl | ⟨t, us, rfl, hk⟩
        · rfl
        · have hword : t.kind.isWord = false := by rcases hk with hk | hk <;> rw [hk] <;> rfl
          rw [List.cons_append, List.nil_append, dottedTail, hword, Bool.and_false]
          rfl

theorem dottedName_append (anyWord : Bool) : dottedName anyWord (region ++ tail) =
    ((dottedName anyWord region).1, (dottedName anyWord region).2 ++ tail) := by
  cases region with
  | nil => exact dottedName_closes htail.stops anyWord
  | cons t ts =>
    rw [List.cons_append, dottedName, dottedName]
    split
    · rw [dottedTail_append htail]
    · rfl

section Calls

variable {args : Reader (List Node)} (hargs : args.Local) (hregion : Inside region)

include hargs hregion

theorem argumentsAt_before :
    Reading.Before tail (argumentsAt args region) (argumentsAt args (region ++ tail)) := by
  cases region with
  | nil =>
    rw [List.nil_append, argumentsAt_closes htail.stops]
    exact ⟨rfl, rfl⟩
  | cons t ts =>
    rw [List.cons_append, argumentsAt, argumentsAt]
    split
    · obtain ⟨hvalue, hrest⟩ := hargs.before hregion.tail htail
      exact ⟨congrArg some hvalue, hrest⟩
    · exact ⟨rfl, rfl⟩

theorem chainedNames_before :
    Reading.Before tail (chainedNames args region) (chainedNames args (region ++ tail)) := by
  fun_induction chainedNames args region with
  | case1 =>
    rw [List.nil_append, chainedNames_closes htail.stops]
    exact ⟨rfl, rfl⟩
  | case2 t ts h named hn =>
    rw [List.cons_append, chainedNames_dot args h, dottedName_append htail, if_pos hn]
    exact ⟨rfl, rfl⟩
  | case3 t ts h named hn dropped hlt more ih =>
    have hleft : Inside named.2 := hregion.tail.of_suffix (dottedName_suffix true ts)
    have hdropped := argumentsAt_before htail hargs hleft
    have hmore := ih (hleft.of_suffix (argumentsAt_suffix hargs.suffix named.2))
    rw [List.cons_append, chainedNames_dot args h, dottedName_append htail, if_neg hn]
    have hrest : (argumentsAt args ((dottedName true ts).2 ++ tail)).rest = dropped.rest ++ tail :=
      hdropped.rest
    simp only [hrest]
    exact ⟨congrArg (named.1 ++ ·) hmore.value, hmore.rest⟩
  | case4 t ts h =>
    rw [List.cons_append, chainedNames, if_neg h]
    exact ⟨rfl, rfl⟩

theorem namedOperand_before :
    Reading.Before tail (namedOperand args region) (namedOperand args (region ++ tail)) := by
  cases region with
  | nil =>
    obtain ⟨hvalue, hrest⟩ := namedOperand_closes htail.stops args
    exact ⟨hvalue, hrest⟩
  | cons t ts =>
    have hnames := @dottedName_append (t :: ts) tail htail false
    have hleft : Inside (dottedName false (t :: ts)).2 :=
      hregion.of_suffix (dottedName_suffix false (t :: ts))
    have hcalled := argumentsAt_before htail hargs hleft
    have hchained := chainedNames_before htail hargs
      (hleft.of_suffix (argumentsAt_suffix hargs.suffix _))
    rw [List.cons_append, namedOperand, namedOperand]
    rw [List.cons_append] at hnames
    simp only [hnames]
    split
    · exact ⟨rfl, rfl⟩
    · rw [hcalled.value, hcalled.rest, hchained.value, hchained.rest]
      exact ⟨rfl, rfl⟩

/-! ## Expressions -/

theorem flatRun_before (cut : Event) (n : Nat) :
    Reading.Before tail (flatRun args cut n region) (flatRun args cut n (region ++ tail)) := by
  induction n generalizing region with
  | zero => exact ⟨rfl, rfl⟩
  | succ n ih =>
    cases region with
    | nil =>
      obtain ⟨hvalue, hrest⟩ := flatRun_closes htail.closes args cut (n + 1)
      exact ⟨hvalue, hrest⟩
    | cons t ts =>
      have hmore := ih hregion.tail
      rw [List.cons_append, flatRun, flatRun, goesOn_append htail]
      split
      · exact ⟨rfl, rfl⟩
      split
      · split
        · exact ⟨rfl, rfl⟩
        · exact ⟨by simp only [hmore.value], hmore.rest⟩
      split
      · have hoperand := namedOperand_before htail hargs hregion
        have hrun := ih (hregion.of_suffix (namedOperand_suffix hargs.suffix (t :: ts)))
        rw [List.cons_append] at hoperand
        simp only [hoperand.value, hoperand.rest, hrun.value]
        exact ⟨rfl, hrun.rest⟩
      split
      · exact ⟨by simp only [hmore.value], hmore.rest⟩
      · exact ⟨rfl, rfl⟩

theorem readExpression_before {limit : Int} (hlimit : 1 ≤ limit) :
    Reading.Before tail (readExpression limit args region)
      (readExpression limit args (region ++ tail)) := by
  cases region with
  | nil =>
    obtain ⟨hvalue, hrest⟩ := readExpression_closes args limit htail.closes
    exact ⟨hvalue, hrest⟩
  | cons t ts =>
    have hin : t.endsScript = false := hregion t List.mem_cons_self
    have he : t.kind ≠ .eof := by
      intro hk
      simp [Token.endsScript, hk] at hin
    have heof : (t.kind == .eof) = false := by simpa using he
    rw [List.cons_append]
    by_cases hnew : (t.kind == .keyword && t.text == "new") = true
    · simp only [readExpression, heof, hnew, Bool.false_eq_true, if_false, if_true]
      exact namedOperand_before htail hargs hregion.tail
    have hnew : (t.kind == .keyword && t.text == "new") = false := by simpa using hnew
    by_cases hgo : (t.kind == .identifier && goesOn ts) = true
    · have hgo' : (t.kind == .identifier && goesOn (ts ++ tail)) = true := by
        rw [goesOn_append htail]
        exact hgo
      simp only [readExpression, heof, hnew, hgo, hgo', Bool.false_eq_true, if_false, if_true]
      exact namedOperand_before htail hargs hregion
    -- What is left is a flat run, also where a single operand is the last token.
    have hgo : (t.kind == .identifier && goesOn ts) = false := by simpa using hgo
    have hgo' : (t.kind == .identifier && goesOn (ts ++ tail)) = false := by
      rw [goesOn_append htail]
      exact hgo
    obtain ⟨hvalue, hrest⟩ := readExpression_flat hlimit args he hnew hgo
    obtain ⟨hvalue', hrest'⟩ := readExpression_flat hlimit args he hnew hgo'
    have hrun := flatRun_before htail hargs hregion (.expressionCut t.location limit) limit.toNat
    rw [List.cons_append] at hrun
    refine ⟨?_, ?_⟩
    · rw [hvalue', hvalue, hrun.value]
    · rw [hrest', hrest, hrun.rest]

end Calls

/-! ## Argument lists -/

theorem endsArguments_of_ended : ∀ t ∈ tail.head?, endsArguments t = true := by
  intro t ht
  rcases kind_of_endsScript (htail t ht) with hk | hk <;>
    simp [endsArguments, TokenKind.isBoundary, hk]

theorem argumentsFrom_before {expr : Reader (Option Node)} (hexpr : expr.Local)
    {region : List Token} (hregion : Inside region) :
    Reading.Before tail (argumentsFrom expr region) (argumentsFrom expr (region ++ tail)) := by
  match region, hregion with
  | [], _ =>
    rcases htail.cases with rfl | ⟨t, us, rfl, -⟩
    · exact ⟨rfl, (List.append_nil _).symm⟩
    · rw [List.nil_append, argumentsFrom, argumentsFrom,
        if_pos (endsArguments_of_ended htail t rfl)]
      exact ⟨rfl, rfl⟩
  | t :: ts, hregion =>
    by_cases hends : endsArguments t = true
    · rw [List.cons_append, argumentsFrom, argumentsFrom, if_pos hends, if_pos hends]
      exact ⟨rfl, rfl⟩
    have hends : endsArguments t = false := by simpa using hends
    obtain ⟨hvalue, hrest⟩ := argumentsFrom_cons expr hends ts
    obtain ⟨hvalue', hrest'⟩ := argumentsFrom_cons expr hends (ts ++ tail)
    have hfirst := hexpr.before hregion htail
    have hle := expr.rest_le (t :: ts)
    have hleft : Inside (expr.read (t :: ts)).rest := hregion.of_suffix (hexpr.suffix (t :: ts))
    rw [List.cons_append] at hfirst
    -- The loop goes on behind the argument in the same way.
    have hafter : afterArgument expr ((expr.read (t :: ts)).rest ++ tail) =
        ((afterArgument expr (expr.read (t :: ts)).rest).1,
          (afterArgument expr (expr.read (t :: ts)).rest).2 ++ tail) := by
      cases hr : (expr.read (t :: ts)).rest with
      | nil =>
        rcases htail.cases with rfl | ⟨u, us, rfl, -⟩
        · rfl
        · show afterArgument expr (u :: us) = ([], u :: us)
          rw [afterArgument, if_pos (endsArguments_of_ended htail u rfl)]
      | cons u us =>
        rw [hr] at hle hleft
        rw [List.cons_append, afterArgument, afterArgument]
        split
        · rfl
        · have hlt : us.length < (t :: ts).length := hle
          have hmore := argumentsFrom_before hexpr hleft.tail
          rw [hmore.value, hmore.rest]
    rw [List.cons_append]
    refine ⟨?_, ?_⟩
    · rw [hvalue', hvalue, hfirst.value, hfirst.rest, hafter]
    · rw [hrest', hrest, hfirst.rest, hafter]
termination_by region.length
decreasing_by exact hlt

theorem skipParens_append (depth : Nat) :
    skipParens depth (region ++ tail) = skipParens depth region ++ tail := by
  induction region generalizing depth with
  | nil =>
    cases depth with
    | zero => simp [skipParens]
    | succ depth =>
      rcases htail.cases with rfl | ⟨t, us, rfl, hk | hk⟩
      · rfl
      · simp [skipParens, TokenKind.isBoundary, hk]
      · simp [skipParens, TokenKind.isBoundary, hk]
  | cons t ts ih =>
    cases depth with
    | zero => simp [skipParens]
    | succ depth =>
      rw [List.cons_append, skipParens, skipParens]
      split
      · rfl
      split
      · exact ih _
      split
      · exact ih _
      · exact ih _

end Tail

theorem readArguments_local {expr : Reader (Option Node)} (hexpr : expr.Local) :
    (readArguments expr).Local where
  suffix := readArguments_suffix hexpr.suffix
  before hregion htail := by
    obtain ⟨hvalue, hrest⟩ := argumentsFrom_before htail hexpr hregion
    refine ⟨hvalue, ?_⟩
    simp only [readArguments, hrest]
    exact dropRightParen_append htail

theorem skipArguments_local : skipArguments.Local where
  suffix := skipArguments_suffix
  before _ htail := ⟨rfl, skipParens_append htail 1⟩

theorem argumentReader_local {limit : Int} (hlimit : 1 ≤ limit) (k : Nat) :
    (argumentReader limit k).Local := by
  induction k with
  | zero => exact skipArguments_local
  | succ k ih =>
    refine readArguments_local ⟨expression_suffix limit k, ?_⟩
    intro region tail hregion htail
    rw [expression_eq]
    exact readExpression_before htail ih hregion hlimit

/-- **An expression is read as if its script stood alone**, however deep its calls are read. -/
theorem expression_local {limit : Int} (hlimit : 1 ≤ limit) (k : Nat) :
    (expression limit k).Local where
  suffix := expression_suffix limit k
  before hregion htail := by
    rw [expression_eq]
    exact readExpression_before htail (argumentReader_local hlimit k) hregion hlimit

end PageLint
