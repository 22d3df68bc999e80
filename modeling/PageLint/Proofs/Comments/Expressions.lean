import PageLint.Proofs.Comments.Operands

/-!
# Expressions and comments

Expressions are read past well placed comments, and so are lists of arguments. Both are shown
together, by induction on the depth of calls that is read.

The loop over arguments has two tests, one before and one after an argument, and may meet a comment
at either. `afterArgument_eq` says that it makes no difference which of them comes first.

* `argumentsFrom_agree` — a list of arguments
* `outerExpression_agree` — an expression outside all calls
-/

namespace PageLint

/-! ## Expressions -/

section Expressions

variable {limit : Int} (hlimit : 1 ≤ limit) (args : Reader (List Node))

include hlimit

/-- An expression that is neither a call nor a dotted name is a flat run: a single operand in front
of a terminator is a run of one. -/
theorem readExpression_flat {t : Token} {ts : List Token} (he : t.kind ≠ .eof)
    (hnew : (t.kind == .keyword && t.text == "new") = false)
    (hgo : (t.kind == .identifier && goesOn ts) = false) :
    let run := flatRun args (.expressionCut t.location limit) limit.toNat (t :: ts)
    (readExpression limit args (t :: ts)).value = flatNode t run.value.1 run.value.2 ∧
      (readExpression limit args (t :: ts)).rest = run.rest := by
  intro run
  simp only [readExpression, he, hnew, hgo, beq_iff_eq, if_false, Bool.false_eq_true]
  split
  · rename_i hsingle
    rw [Bool.and_eq_true] at hsingle
    obtain ⟨hoperand, hend⟩ := hsingle
    obtain ⟨n, hn⟩ : ∃ n, limit.toNat = n + 1 := ⟨limit.toNat - 1, by omega⟩
    -- Whatever steps are left, the run ends at the terminator.
    have hstop : (flatRun args (.expressionCut t.location limit) n ts).value = ([], []) ∧
        (flatRun args (.expressionCut t.location limit) n ts).rest = ts := by
      cases n with
      | zero => exact ⟨rfl, rfl⟩
      | succ n =>
        cases ts with
        | nil => exact ⟨rfl, rfl⟩
        | cons u us =>
          rw [flatRun, if_pos (by rw [(show isTerminator (some u) = true from hend), Bool.or_true])]
          exact ⟨rfl, rfl⟩
    have hrun : run.value = ([.identifier t.toIdentifier], []) ∧ run.rest = ts := by
      have hend' : (t.kind.isBoundary || isTerminator (some t)) = false ∧
          (t.kind == .operator) = false := by
        cases hk : t.kind <;>
          simp_all [TokenKind.isBoundary, TokenKind.isLiteral, isTerminator, Token.isMark]
      simp only [run, hn, flatRun, hend'.1, hend'.2, hgo, hoperand, hstop.1, hstop.2,
        Bool.false_eq_true, if_false, if_true, and_self]
    rw [hrun.1, hrun.2]
    exact ⟨rfl, rfl⟩
  · exact ⟨rfl, rfl⟩

theorem readExpression_comment {t : Token} (hc : t.isComment = true) (ts : List Token) :
    (readExpression limit args (t :: ts)).value = none ∧
      (readExpression limit args (t :: ts)).rest = ts := by
  have hk : t.kind = .comment := by simpa [Token.isComment] using hc
  obtain ⟨n, hn⟩ : ∃ n, limit.toNat = n + 1 := ⟨limit.toNat - 1, by omega⟩
  have hid : (t.kind == .identifier && goesOn ts) = false := by simp [hk]
  obtain ⟨hvalue, hrest⟩ := readExpression_flat hlimit args (by simp [hk]) (by simp [hk]) hid
  rw [hn, flatRun_comment hc] at hvalue hrest
  exact ⟨hvalue, hrest⟩

omit hlimit in
/-- An expression takes nothing at a token that closes. -/
theorem readExpression_closes (limit : Int) {ts : List Token}
    (h : ∀ t ∈ ts.head?, t.closes = true) :
    (readExpression limit args ts).value = none ∧ (readExpression limit args ts).rest = ts := by
  cases ts with
  | nil => exact ⟨rfl, rfl⟩
  | cons t ts =>
    have hstops : stops (t :: ts) = true := by simp [stops, h t rfl]
    obtain ⟨hvalue, hrest⟩ :=
      flatRun_closes h args (.expressionCut t.location limit) limit.toNat
    rcases kind_of_stops hstops with hk | hk | hk | hk | hk | ⟨hk, -⟩ | ⟨hk, -⟩ <;>
      simp [readExpression, hk, TokenKind.isLiteral, hvalue, hrest, flatNode]

theorem readExpression_agree {args : Reader (List Node)} (hargs : args.ArgumentsAgree)
    {depth : Nat} {ts : List Token} (h : placed (.within depth) ts = true) :
    Reading.Agree (Spot.leaving depth) (readExpression limit args ts)
      (readExpression limit args (withoutComments ts)) := by
  cases ts with
  | nil => exact ⟨rfl, rfl, placed_leaving h⟩
  | cons t ts =>
    by_cases hc : t.isComment = true
    · obtain ⟨hclose, hplaced⟩ := placed_within_comment hc h
      obtain ⟨hvalue, hrest⟩ := readExpression_comment hlimit args hc ts
      rw [withoutComments_comment hc]
      obtain ⟨hvalue', hrest'⟩ := readExpression_closes args limit (head_closes hclose)
      refine ⟨by rw [hvalue, hvalue'], by rw [hrest, hrest'], ?_⟩
      rw [hrest]
      exact placed_leaving hplaced
    · have hc : t.isComment = false := by simpa using hc
      have hcons := withoutComments_cons hc ts
      by_cases he : t.kind = .eof
      · simp only [hcons, readExpression, he, beq_self_eq_true, if_true]
        exact ⟨rfl, hcons.symm, placed_leaving h⟩
      by_cases hnew : (t.kind == .keyword && t.text == "new") = true
      · have hword : t.kind.isWord = true := by
          rw [Bool.and_eq_true, beq_iff_eq] at hnew
          simp [TokenKind.isWord, hnew.1]
        rw [placed_within_inner (isInner_of_word hword)] at h
        have hoperand := namedOperand_agree hargs h
        simp only [hcons, readExpression, he, hnew, beq_iff_eq, if_false, if_true]
        exact ⟨hoperand.value, hoperand.rest, placed_leaving hoperand.placed⟩
      by_cases hgo : (t.kind == .identifier && goesOn ts) = true
      · have hid := hgo
        rw [Bool.and_eq_true, beq_iff_eq] at hid
        have hin : t.isInner = true := by simp [Token.isInner, TokenKind.isWord, hid.1]
        have hoperand := namedOperand_agree hargs h
        rw [placed_within_inner hin] at h
        have hgo' : (t.kind == .identifier && goesOn (withoutComments ts)) = true := by
          rw [goesOn_withoutComments h]
          exact hgo
        rw [hcons] at hoperand ⊢
        simp only [readExpression, he, hnew, hgo, hgo', beq_iff_eq, if_false, if_true,
          Bool.false_eq_true]
        exact ⟨hoperand.value, hoperand.rest, placed_leaving hoperand.placed⟩
      · have hgo' : (t.kind == .identifier && goesOn (withoutComments ts)) = false := by
          by_cases hid : t.kind = .identifier
          · have hin : t.isInner = true := by simp [Token.isInner, TokenKind.isWord, hid]
            rw [placed_within_inner hin] at h
            rw [goesOn_withoutComments h]
            simpa using hgo
          · simp [hid]
        have hnew : (t.kind == .keyword && t.text == "new") = false := by simpa using hnew
        -- What is left is a flat run, on both sides with as many steps.
        have hgo : (t.kind == .identifier && goesOn ts) = false := by simpa using hgo
        obtain ⟨hvalue, hrest⟩ := readExpression_flat hlimit args he hnew hgo
        obtain ⟨hvalue', hrest'⟩ := readExpression_flat hlimit args he hnew hgo'
        have hrun := flatRun_agree hargs (.expressionCut t.location limit) limit.toNat h
        rw [hcons] at hrun ⊢
        refine ⟨?_, ?_, ?_⟩
        · rw [hvalue, hvalue', hrun.value]
        · rw [hrest, hrest', hrun.rest]
        · rw [hrest]
          exact hrun.placed

end Expressions

/-! ## Argument lists -/

/-- A reader of expressions agrees with itself on the tokens without comments; it takes a comment
and gives nothing, and takes nothing at a token that closes. -/
structure Reader.ExpressionsAgree (expr : Reader (Option Node)) : Prop where
  agree : ∀ depth ts, placed (.within depth) ts = true →
    Reading.Agree (Spot.leaving depth) (expr.read ts) (expr.read (withoutComments ts))
  comment : ∀ t ts, t.isComment = true → (expr.read (t :: ts)).value = none ∧
    (expr.read (t :: ts)).rest = ts
  closes : ∀ t ts, t.closes = true → (expr.read (t :: ts)).value = none ∧
    (expr.read (t :: ts)).rest = t :: ts

/-- What the loop over arguments gives and leaves after an argument. -/
def afterArgument (expr : Reader (Option Node)) : List Token → List Node × List Token
  | [] => ([], [])
  | u :: us =>
    if endsArguments u then ([], u :: us)
    else ((argumentsFrom expr us).value, (argumentsFrom expr us).rest)

/-- The loop over arguments reads one and goes on. -/
theorem argumentsFrom_cons (expr : Reader (Option Node)) {t : Token}
    (ht : endsArguments t = false) (ts : List Token) :
    (argumentsFrom expr (t :: ts)).value =
        (expr.read (t :: ts)).value.toList ++ (afterArgument expr (expr.read (t :: ts)).rest).1 ∧
      (argumentsFrom expr (t :: ts)).rest =
        (afterArgument expr (expr.read (t :: ts)).rest).2 := by
  obtain ⟨l, hl⟩ : ∃ l, l = t :: ts := ⟨_, rfl⟩
  rw [← hl]
  fun_cases argumentsFrom expr l with
  | case1 => simp at hl
  | case2 t' ts' hends =>
    rw [(List.cons.inj hl).1, ht] at hends
    exact absurd hends Bool.false_ne_true
  | case3 t' ts' hends first hrest =>
    rw [hrest]
    exact ⟨(List.append_nil _).symm, rfl⟩
  | case4 t' ts' hends first u us hrest hu =>
    rw [hrest, afterArgument, if_pos hu]
    exact ⟨(List.append_nil _).symm, rfl⟩
  | case5 t' ts' hends first u us hrest hu hlt more =>
    rw [hrest, afterArgument, if_neg hu]
    exact ⟨rfl, rfl⟩

theorem endsArguments_comment {t : Token} (hc : t.isComment = true) : endsArguments t = false := by
  have hk : t.kind = .comment := by simpa [Token.isComment] using hc
  simp [endsArguments, hk, TokenKind.isBoundary]

/-- Where only comments stand before a token that closes, it makes no difference whether the loop
has just read an argument or is about to read one. -/
theorem afterArgument_eq {expr : Reader (Option Node)} (hexpr : expr.ExpressionsAgree)
    {ts : List Token} (h : closesNext ts = true) :
    afterArgument expr ts = ((argumentsFrom expr ts).value, (argumentsFrom expr ts).rest) := by
  induction ts with
  | nil =>
    rw [argumentsFrom]
    rfl
  | cons t ts ih =>
    by_cases hc : t.isComment = true
    · have hends := endsArguments_comment hc
      obtain ⟨hvalue, hrest⟩ := argumentsFrom_cons expr hends ts
      obtain ⟨hnone, hleft⟩ := hexpr.comment t ts hc
      rw [closesNext_comment hc] at h
      rw [hnone, hleft, ih h] at hvalue
      rw [hleft, ih h] at hrest
      rw [hvalue, hrest, afterArgument, hends]
      rfl
    · rw [closesNext_cons (by simpa using hc)] at h
      by_cases hends : endsArguments t = true
      · rw [argumentsFrom, if_pos hends, afterArgument, if_pos hends]
      · have hends : endsArguments t = false := by simpa using hends
        obtain ⟨hvalue, hrest⟩ := argumentsFrom_cons expr hends ts
        obtain ⟨hnone, hleft⟩ := hexpr.closes t ts h
        rw [hnone, hleft] at hvalue
        rw [hleft] at hrest
        rw [hvalue, hrest]
        rfl

/-- The loop over arguments drops a comment in front of a token that closes. -/
theorem argumentsFrom_comment {expr : Reader (Option Node)} (hexpr : expr.ExpressionsAgree)
    {t : Token} (hc : t.isComment = true) {ts : List Token} (h : closesNext ts = true) :
    (argumentsFrom expr (t :: ts)).value = (argumentsFrom expr ts).value ∧
      (argumentsFrom expr (t :: ts)).rest = (argumentsFrom expr ts).rest := by
  obtain ⟨hvalue, hrest⟩ := argumentsFrom_cons expr (endsArguments_comment hc) ts
  obtain ⟨hnone, hleft⟩ := hexpr.comment t ts hc
  rw [hnone, hleft, afterArgument_eq hexpr h] at hvalue
  rw [hleft, afterArgument_eq hexpr h] at hrest
  exact ⟨hvalue, hrest⟩

/-- The loop over arguments leaves nothing or a token that ends the list. -/
theorem argumentsFrom_rest_ends (expr : Reader (Option Node)) (ts : List Token) :
    ∀ t ∈ (argumentsFrom expr ts).rest.head?, endsArguments t = true := by
  fun_induction argumentsFrom expr ts with
  | case1 => simp
  | case2 t ts ht => simpa using ht
  | case3 => simp
  | case4 t ts ht first u us h hu => simpa using hu
  | case5 t ts ht first u us h hu hlt more ih => exact ih

theorem endsArguments_eq_false {t : Token} (h : endsArguments t = false) :
    t.kind.isBoundary = false ∧ t.kind ≠ .rightParen := by
  rw [endsArguments, Bool.or_eq_false_iff] at h
  exact ⟨h.1, by simpa using h.2⟩

/-- After an argument both sides go on alike, when they do on all that may be left. -/
theorem afterArgument_agree {expr : Reader (Option Node)} (hexpr : expr.ExpressionsAgree)
    {depth : Nat} {ts : List Token}
    (ih : ∀ us : List Token, us.length < ts.length → placed (.within (depth + 1)) us = true →
      Reading.Agree (.within (depth + 1)) (argumentsFrom expr us)
        (argumentsFrom expr (withoutComments us)))
    (h : placed (.within (depth + 1)) ts = true) :
    afterArgument expr (withoutComments ts) =
        ((afterArgument expr ts).1, withoutComments (afterArgument expr ts).2) ∧
      placed (.within (depth + 1)) (afterArgument expr ts).2 = true := by
  cases ts with
  | nil => exact ⟨rfl, rfl⟩
  | cons u us =>
    by_cases hc : u.isComment = true
    · obtain ⟨hclose, hplaced⟩ := placed_within_comment hc h
      have hagree := ih us (Nat.lt_succ_self _) hplaced
      rw [withoutComments_comment hc,
        afterArgument_eq hexpr (by rw [closesNext_withoutComments]; exact hclose),
        afterArgument, endsArguments_comment hc, hagree.value, hagree.rest]
      exact ⟨rfl, hagree.placed⟩
    · have hc : u.isComment = false := by simpa using hc
      rw [withoutComments_cons hc, afterArgument, afterArgument]
      split
      · exact ⟨by rw [withoutComments_cons hc], h⟩
      · rename_i hends
        obtain ⟨hb, hr⟩ := endsArguments_eq_false (by simpa using hends)
        have hagree := ih us (Nat.lt_succ_self _) (placed_leaving_tail hc hb hr h)
        rw [hagree.value, hagree.rest]
        exact ⟨rfl, hagree.placed⟩

/-- **Arguments are read past comments.** -/
theorem argumentsFrom_agree {expr : Reader (Option Node)} (hexpr : expr.ExpressionsAgree)
    (depth : Nat) (ts : List Token) (h : placed (.within (depth + 1)) ts = true) :
    Reading.Agree (.within (depth + 1)) (argumentsFrom expr ts)
      (argumentsFrom expr (withoutComments ts)) := by
  match ts with
  | [] =>
    rw [withoutComments_nil, argumentsFrom]
    exact ⟨rfl, rfl, rfl⟩
  | t :: ts =>
    by_cases hc : t.isComment = true
    · obtain ⟨hclose, hplaced⟩ := placed_within_comment hc h
      obtain ⟨hvalue, hrest⟩ := argumentsFrom_comment hexpr hc hclose
      have hagree := argumentsFrom_agree hexpr depth ts hplaced
      rw [withoutComments_comment hc]
      exact ⟨by rw [hvalue, hagree.value], by rw [hrest, hagree.rest],
        by rw [hrest]; exact hagree.placed⟩
    · have hc : t.isComment = false := by simpa using hc
      have hcons := withoutComments_cons hc ts
      by_cases hends : endsArguments t = true
      · rw [hcons, argumentsFrom, if_pos hends, argumentsFrom, if_pos hends]
        exact ⟨rfl, hcons.symm, h⟩
      · have hends : endsArguments t = false := by simpa using hends
        -- What the first argument leaves is shorter, so both sides go on alike behind it.
        have hfirst := hexpr.agree (depth + 1) (t :: ts) h
        have hle := expr.rest_le (t :: ts)
        obtain ⟨hvalue, hrest⟩ := argumentsFrom_cons expr hends ts
        obtain ⟨hvalue', hrest'⟩ := argumentsFrom_cons expr hends (withoutComments ts)
        obtain ⟨hafter, hplaced⟩ := afterArgument_agree hexpr
          (fun us hlt hus => argumentsFrom_agree hexpr depth us hus) hfirst.placed
        rw [← hcons, hfirst.rest, hafter] at hvalue' hrest'
        refine ⟨?_, ?_, ?_⟩
        · rw [hvalue', hvalue, hfirst.value]
        · rw [hrest', hrest]
        · rw [hrest]
          exact hplaced
termination_by ts.length
decreasing_by
  · exact Nat.lt_succ_self _
  · exact Nat.lt_of_lt_of_le hlt hle

theorem dropRightParen_agree {depth : Nat} {ts : List Token}
    (hends : ∀ t ∈ ts.head?, endsArguments t = true) (h : placed (.within (depth + 1)) ts = true) :
    dropRightParen (withoutComments ts) = withoutComments (dropRightParen ts) ∧
      placed (.within depth) (dropRightParen ts) = true := by
  cases ts with
  | nil => exact ⟨rfl, rfl⟩
  | cons t ts =>
    have ht : endsArguments t = true := hends t rfl
    have hc : t.isComment = false := by
      cases hc : t.isComment with
      | false => rfl
      | true => rw [endsArguments_comment hc] at ht; exact absurd ht Bool.false_ne_true
    rw [withoutComments_cons hc, dropRightParen, dropRightParen]
    by_cases hr : t.kind = .rightParen
    · rw [if_pos (by simpa using hr), if_pos (by simpa using hr)]
      exact ⟨rfl, by rw [← placed_within_rightParen hr]; exact h⟩
    · have hb : t.kind.isBoundary = true := by simpa [endsArguments, hr] using ht
      rw [if_neg (by simpa using hr), if_neg (by simpa using hr), withoutComments_cons hc]
      refine ⟨rfl, ?_⟩
      rw [placed_boundary hb (by simp) (by simp : Spot.within (depth + 1) ≠ _)]
      exact h

theorem readArguments_agree {expr : Reader (Option Node)} (hexpr : expr.ExpressionsAgree) :
    (readArguments expr).ArgumentsAgree := by
  intro depth ts h
  have hagree := argumentsFrom_agree hexpr depth ts h
  obtain ⟨hdrop, hplaced⟩ :=
    dropRightParen_agree (argumentsFrom_rest_ends expr ts) hagree.placed
  rw [← hagree.rest] at hdrop
  exact ⟨hagree.value, hdrop, hplaced⟩

theorem skipParens_agree {depth n : Nat} {ts : List Token}
    (h : placed (.within (depth + n)) ts = true) :
    skipParens n (withoutComments ts) = withoutComments (skipParens n ts) ∧
      placed (.within depth) (skipParens n ts) = true := by
  induction ts generalizing n with
  | nil => cases n <;> exact ⟨rfl, rfl⟩
  | cons t ts ih =>
    cases n with
    | zero =>
      rw [skipParens, skipParens]
      exact ⟨rfl, h⟩
    | succ n =>
      by_cases hc : t.isComment = true
      · have hk : t.kind = .comment := by simpa [Token.isComment] using hc
        have hskip : skipParens (n + 1) (t :: ts) = skipParens (n + 1) ts := by
          simp [skipParens, hk, TokenKind.isBoundary]
        rw [withoutComments_comment hc, hskip]
        exact ih (placed_within_comment hc h).2
      · have hc : t.isComment = false := by simpa using hc
        rw [withoutComments_cons hc, skipParens, skipParens]
        split
        · rename_i hb
          refine ⟨by rw [withoutComments_cons hc], ?_⟩
          rw [placed_boundary hb (by simp) (by simp : Spot.within (depth + (n + 1)) ≠ _)]
          exact h
        rename_i hb
        split
        · rename_i hp
          rw [placed_within_leftParen (by simpa using hp)] at h
          exact ih h
        split
        · rename_i hr
          rw [← Nat.add_assoc, placed_within_rightParen (by simpa using hr)] at h
          exact ih h
        · rename_i hr
          exact ih (placed_leaving_tail hc (by simpa using hb) (by simpa using hr) h)

theorem skipArguments_agree : skipArguments.ArgumentsAgree := by
  intro depth ts h
  obtain ⟨hskip, hplaced⟩ := skipParens_agree h
  exact ⟨rfl, hskip, hplaced⟩

/-! ## All depths of calls -/

theorem expressionReader_agree {limit : Int} (hlimit : 1 ≤ limit) {args : Reader (List Node)}
    (hargs : args.ArgumentsAgree) : (expressionReader limit args).ExpressionsAgree where
  agree _ _ h := readExpression_agree hlimit hargs h
  comment _ ts hc := readExpression_comment hlimit args hc ts
  closes t ts ht := readExpression_closes args limit (by simpa using ht)

/-- **An expression is read past comments**, however deep its calls are read. -/
theorem expression_agree {limit : Int} (hlimit : 1 ≤ limit) (k : Nat) :
    (expression limit k).ExpressionsAgree := by
  induction k with
  | zero => exact expressionReader_agree hlimit skipArguments_agree
  | succ k ih => exact expressionReader_agree hlimit (readArguments_agree ih)

/-- Outside all calls an expression leaves the place between two statements. -/
theorem outerExpression_agree {limit : Int} (hlimit : 1 ≤ limit) {ts : List Token}
    (h : placed (.within 0) ts = true) :
    Reading.Agree .between ((outerExpression limit).read ts)
      ((outerExpression limit).read (withoutComments ts)) :=
  (expression_agree hlimit maxCallDepth).agree 0 ts h

end PageLint
