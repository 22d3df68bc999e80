import PageLint.Reading.Page

/-!
# Readers leave a suffix

Every reader takes tokens off the front, so what it leaves is a suffix of what it was given: the
place in the token list only ever moves forward. One lemma per reader, in the order in which they
are built from each other.

* `expression_suffix` — expressions, whatever depth of calls is read
* `readSimple?_suffix_tail` — the statements that a function may hold take at least their first
  token, provided that an expression may take one
* `readStatement?_suffix` — the statements of a script
-/

namespace PageLint

/-- What a reader leaves is a suffix of what it was given. -/
def Reader.LeavesSuffix {α : Type} (r : Reader α) : Prop := ∀ ts, (r.read ts).rest <:+ ts

theorem dropSemicolon_suffix (ts : List Token) : dropSemicolon ts <:+ ts := by
  unfold dropSemicolon
  split
  · exact List.suffix_rfl
  · split
    · exact List.suffix_cons _ _
    · exact List.suffix_rfl

theorem dropRightParen_suffix (ts : List Token) : dropRightParen ts <:+ ts := by
  unfold dropRightParen
  split
  · exact List.suffix_rfl
  · split
    · exact List.suffix_cons _ _
    · exact List.suffix_rfl

/-! ## Names and calls -/

theorem isTerminator_of_identifier {t : Token} (ht : t.kind = .identifier) :
    isTerminator (some t) = false := by
  simp [isTerminator, Token.isMark, ht]

theorem dottedTail_suffix (ts : List Token) : (dottedTail ts).2 <:+ ts := by
  fun_induction dottedTail ts with
  | case1 dot name ts h names rest eq ih =>
    rw [eq] at ih
    exact ih.trans ((List.suffix_cons name ts).trans (List.suffix_cons dot _))
  | case2 => exact List.suffix_rfl
  | case3 => exact List.suffix_rfl

theorem dottedName_suffix (anyWord : Bool) (ts : List Token) : (dottedName anyWord ts).2 <:+ ts := by
  unfold dottedName
  split
  · exact List.suffix_rfl
  · split
    · exact (dottedTail_suffix _).trans (List.suffix_cons _ _)
    · exact List.suffix_rfl

section Calls

variable {args : Reader (List Node)} (hargs : args.LeavesSuffix)

include hargs

theorem argumentsAt_suffix (ts : List Token) : (argumentsAt args ts).rest <:+ ts := by
  unfold argumentsAt
  split
  · exact List.suffix_rfl
  · split
    · exact (hargs _).trans (List.suffix_cons _ _)
    · exact List.suffix_rfl

theorem chainedNames_suffix (ts : List Token) : (chainedNames args ts).rest <:+ ts := by
  fun_induction chainedNames args ts with
  | case1 => exact List.suffix_rfl
  | case2 t ts h named hn => exact (dottedName_suffix true ts).trans (List.suffix_cons t ts)
  | case3 t ts h named hn dropped hlt more ih =>
    exact ih.trans ((argumentsAt_suffix hargs _).trans
      ((dottedName_suffix true ts).trans (List.suffix_cons t ts)))
  | case4 => exact List.suffix_rfl

/-- What follows the names of an operand is read as arguments and a chain. -/
theorem namedOperand_suffix_names (ts : List Token) :
    (namedOperand args ts).rest <:+ (dottedName false ts).2 := by
  cases ts with
  | nil => exact List.suffix_rfl
  | cons t ts =>
    simp only [namedOperand]
    split
    · exact List.suffix_rfl
    · exact (chainedNames_suffix hargs _).trans (argumentsAt_suffix hargs _)

theorem namedOperand_suffix (ts : List Token) : (namedOperand args ts).rest <:+ ts :=
  (namedOperand_suffix_names hargs ts).trans (dottedName_suffix false ts)

/-- An operand that starts with an identifier takes it. -/
theorem namedOperand_suffix_tail {t : Token} (ht : t.kind = .identifier) (ts : List Token) :
    (namedOperand args (t :: ts)).rest <:+ ts := by
  refine (namedOperand_suffix_names hargs (t :: ts)).trans ?_
  simp only [dottedName, ht, beq_self_eq_true, Bool.true_or, if_true]
  exact dottedTail_suffix ts

/-! ## Expressions -/

theorem flatRun_suffix (cut : Event) (n : Nat) (ts : List Token) :
    (flatRun args cut n ts).rest <:+ ts := by
  induction n generalizing ts with
  | zero => exact List.suffix_rfl
  | succ n ih =>
    cases ts with
    | nil => exact List.suffix_rfl
    | cons t ts =>
      unfold flatRun
      split
      · exact List.suffix_rfl
      split
      · split
        · exact List.suffix_rfl
        · exact (ih ts).trans (List.suffix_cons t ts)
      split
      · exact (ih _).trans (namedOperand_suffix hargs _)
      split
      · exact (ih ts).trans (List.suffix_cons t ts)
      · exact List.suffix_cons t ts

/-- A flat run of at least one step that starts with an identifier takes it. -/
theorem flatRun_suffix_tail (cut : Event) (n : Nat) {t : Token} (ht : t.kind = .identifier)
    (ts : List Token) : (flatRun args cut (n + 1) (t :: ts)).rest <:+ ts := by
  have hend : (t.kind.isBoundary || isTerminator (some t)) = false := by
    rw [isTerminator_of_identifier ht, ht]
    rfl
  have hop : (t.kind == .operator) = false := by rw [ht]; rfl
  have hid : (t.kind == .identifier) = true := by rw [ht]; rfl
  rw [flatRun]
  simp only [hend, hop, hid, Bool.false_eq_true, if_false, Bool.true_and, Bool.true_or, if_true]
  split
  · exact (flatRun_suffix hargs cut n _).trans (namedOperand_suffix_tail hargs ht ts)
  · exact flatRun_suffix hargs cut n ts

theorem readExpression_suffix (limit : Int) (ts : List Token) :
    (readExpression limit args ts).rest <:+ ts := by
  unfold readExpression
  split
  · exact List.suffix_rfl
  · rename_i t ts
    split
    · exact List.suffix_rfl
    split
    · exact (namedOperand_suffix hargs ts).trans (List.suffix_cons t ts)
    split
    · exact namedOperand_suffix hargs _
    split
    · exact List.suffix_cons t ts
    · exact flatRun_suffix hargs _ _ _

/-- An expression that starts with an identifier takes it, when expressions may take a token. -/
theorem readExpression_suffix_tail {limit : Int} (hlimit : 1 ≤ limit) {t : Token}
    (ht : t.kind = .identifier) (ts : List Token) :
    (readExpression limit args (t :: ts)).rest <:+ ts := by
  obtain ⟨n, hn⟩ : ∃ n, limit.toNat = n + 1 := ⟨limit.toNat - 1, by omega⟩
  have heof : (t.kind == .eof) = false := by rw [ht]; rfl
  have hkw : (t.kind == .keyword) = false := by rw [ht]; rfl
  simp only [readExpression, heof, hkw, hn, Bool.false_and, Bool.false_eq_true, if_false]
  split
  · exact namedOperand_suffix_tail hargs ht ts
  split
  · exact List.suffix_rfl
  · exact flatRun_suffix_tail hargs _ n ht ts

/-- An expression that starts with a keyword takes it, when expressions may take a token. -/
theorem readExpression_suffix_keyword {limit : Int} (hlimit : 1 ≤ limit) {t : Token}
    (ht : t.kind = .keyword) (ts : List Token) :
    (readExpression limit args (t :: ts)).rest <:+ ts := by
  obtain ⟨n, hn⟩ : ∃ n, limit.toNat = n + 1 := ⟨limit.toNat - 1, by omega⟩
  by_cases hnew : t.text = "new"
  · simp only [readExpression, ht, hnew, beq_self_eq_true, Bool.and_self, if_true]
    exact namedOperand_suffix hargs ts
  · have hrest : (readExpression limit args (t :: ts)).rest = ts := by
      simp [readExpression, flatRun, ht, hn, hnew, TokenKind.isLiteral, TokenKind.isBoundary,
        isTerminator, Token.isMark]
    exact ⟨[], hrest⟩

end Calls

/-! ## Argument lists -/

theorem argumentsFrom_suffix {expr : Reader (Option Node)} (hexpr : expr.LeavesSuffix)
    (ts : List Token) : (argumentsFrom expr ts).rest <:+ ts := by
  fun_induction argumentsFrom expr ts with
  | case1 => exact List.suffix_rfl
  | case2 => exact List.suffix_rfl
  | case3 => exact List.nil_suffix
  | case4 t ts ht first u us h hu => exact h ▸ hexpr (t :: ts)
  | case5 t ts ht first u us h hu hlt more ih =>
    exact ih.trans ((List.suffix_cons u us).trans (h ▸ hexpr (t :: ts)))

theorem readArguments_suffix {expr : Reader (Option Node)} (hexpr : expr.LeavesSuffix) :
    (readArguments expr).LeavesSuffix :=
  fun ts => (dropRightParen_suffix _).trans (argumentsFrom_suffix hexpr ts)

theorem skipParens_suffix (depth : Nat) (ts : List Token) : skipParens depth ts <:+ ts := by
  induction ts generalizing depth with
  | nil => cases depth <;> exact List.suffix_rfl
  | cons t ts ih =>
    cases depth with
    | zero => exact List.suffix_rfl
    | succ depth =>
      unfold skipParens
      split
      · exact List.suffix_rfl
      split
      · exact (ih _).trans (List.suffix_cons t ts)
      split
      · exact (ih _).trans (List.suffix_cons t ts)
      · exact (ih _).trans (List.suffix_cons t ts)

theorem skipArguments_suffix : skipArguments.LeavesSuffix := skipParens_suffix 1

/-- The reader of arguments inside `k` more levels of calls. -/
def argumentReader (limit : Int) : Nat → Reader (List Node)
  | 0 => skipArguments
  | k + 1 => readArguments (expression limit k)

theorem expression_eq (limit : Int) (k : Nat) :
    expression limit k = expressionReader limit (argumentReader limit k) := by
  cases k <;> rfl

theorem argumentReader_suffix (limit : Int) (k : Nat) : (argumentReader limit k).LeavesSuffix := by
  induction k with
  | zero => exact skipArguments_suffix
  | succ k ih =>
    refine readArguments_suffix fun ts => ?_
    rw [expression_eq]
    exact readExpression_suffix ih limit ts

/-- **An expression leaves a suffix**, however deep its calls are read. -/
theorem expression_suffix (limit : Int) (k : Nat) : (expression limit k).LeavesSuffix := by
  intro ts
  rw [expression_eq]
  exact readExpression_suffix (argumentReader_suffix limit k) limit ts

theorem outerExpression_suffix_tail {limit : Int} (hlimit : 1 ≤ limit) {t : Token}
    (ht : t.kind = .identifier) (ts : List Token) :
    ((outerExpression limit).read (t :: ts)).rest <:+ ts := by
  rw [outerExpression, expression_eq]
  exact readExpression_suffix_tail (argumentReader_suffix limit maxCallDepth) hlimit ht ts

/-! ## Declarations and assignments -/

theorem readInitializer_suffix (limit : Int) (ts : List Token) :
    (readInitializer limit ts).rest <:+ ts := by
  unfold readInitializer
  split
  · exact List.suffix_rfl
  · split
    · exact (expression_suffix limit maxCallDepth _).trans (List.suffix_cons _ _)
    · exact List.suffix_rfl

theorem readDeclaration_suffix (limit : Int) (build : Identifier → Option Node → Node)
    (ts : List Token) : (readDeclaration limit build ts).rest <:+ ts := by
  unfold readDeclaration
  split
  · exact List.suffix_rfl
  · split
    · exact (dropSemicolon_suffix _).trans
        ((readInitializer_suffix limit _).trans (List.suffix_cons _ _))
    · exact List.suffix_rfl

theorem findAssignment?_suffix {ts before after : List Token} {operator : Token}
    (h : findAssignment? ts = some (before, operator, after)) : after <:+ ts := by
  induction ts generalizing before with
  | nil => simp [findAssignment?] at h
  | cons t ts ih =>
    unfold findAssignment? at h
    split at h
    · simp at h
    split at h
    · simp only [Option.some.injEq, Prod.mk.injEq] at h
      rw [← h.2.2]
      exact List.suffix_cons t ts
    · obtain ⟨⟨b, o, a⟩, ha, hb⟩ := Option.map_eq_some_iff.1 h
      obtain ⟨-, rfl, rfl⟩ : t :: b = before ∧ o = operator ∧ a = after := by simpa using hb
      exact (ih ha).trans (List.suffix_cons t ts)

theorem assignmentLinks_suffix (ts : List Token) : (assignmentLinks ts).2 <:+ ts := by
  fun_induction assignmentLinks ts with
  | case1 => exact List.suffix_rfl
  | case2 => exact List.suffix_rfl
  | case3 t ts ht before operator after h hlt links rest eq ih =>
    rw [eq] at ih
    exact ih.trans ((findAssignment?_suffix h).trans (List.suffix_cons t ts))
  | case4 => exact List.suffix_rfl

/-- The links of a chain take the first identifier, or there are none and all tokens are left. -/
theorem assignmentLinks_cases (t : Token) (ts : List Token) :
    assignmentLinks (t :: ts) = ([], t :: ts) ∨ (assignmentLinks (t :: ts)).2 <:+ ts := by
  rw [assignmentLinks]
  split
  · split
    · exact Or.inl rfl
    · rename_i h
      exact Or.inr ((assignmentLinks_suffix _).trans (findAssignment?_suffix h))
  · exact Or.inl rfl

theorem readAssignment_suffix (limit : Int) (ts : List Token) :
    (readAssignment limit ts).rest <:+ ts :=
  (dropSemicolon_suffix _).trans ((expression_suffix limit maxCallDepth _).trans
    (assignmentLinks_suffix ts))

theorem readAssignment_suffix_tail {limit : Int} (hlimit : 1 ≤ limit) {t : Token}
    (ht : t.kind = .identifier) (ts : List Token) :
    (readAssignment limit (t :: ts)).rest <:+ ts := by
  refine (dropSemicolon_suffix _).trans ?_
  rcases assignmentLinks_cases t ts with h | h
  · rw [h]
    exact outerExpression_suffix_tail hlimit ht ts
  · exact (expression_suffix limit maxCallDepth _).trans h

theorem readSimple?_suffix {limit : Int} {t : Token} {ts : List Token} {found : Harvest}
    (h : readSimple? limit t ts = some found) : found.rest <:+ t :: ts := by
  unfold readSimple? at h
  split at h
  · rw [← Option.some.inj h]
    exact (readDeclaration_suffix limit _ ts).trans (List.suffix_cons t ts)
  split at h
  · rw [← Option.some.inj h]
    exact (readDeclaration_suffix limit _ ts).trans (List.suffix_cons t ts)
  split at h
  · rw [← Option.some.inj h]
    exact readAssignment_suffix limit (t :: ts)
  · simp at h

/-- **A statement inside a function takes its first token**, when expressions may take one. -/
theorem readSimple?_suffix_tail {limit : Int} (hlimit : 1 ≤ limit) {t : Token} {ts : List Token}
    {found : Harvest} (h : readSimple? limit t ts = some found) : found.rest <:+ ts := by
  unfold readSimple? at h
  split at h
  · rw [← Option.some.inj h]
    exact readDeclaration_suffix limit _ ts
  split at h
  · rw [← Option.some.inj h]
    exact readDeclaration_suffix limit _ ts
  split at h
  · rename_i ht
    rw [← Option.some.inj h]
    exact readAssignment_suffix_tail hlimit (by simpa using ht) ts
  · simp at h

/-! ## Functions and scripts -/

theorem readParameters_suffix (ts : List Token) : (readParameters ts).2 <:+ ts := by
  induction ts with
  | nil => exact List.suffix_rfl
  | cons t ts ih =>
    rw [readParameters]
    split
    · exact dropRightParen_suffix (t :: ts)
    · exact ih.trans (List.suffix_cons t ts)

theorem readParameterList_suffix (ts : List Token) : (readParameterList ts).2 <:+ ts := by
  unfold readParameterList
  split
  · exact List.suffix_rfl
  · split
    · exact (readParameters_suffix _).trans (List.suffix_cons _ _)
    · exact List.suffix_rfl

theorem bodyFrom?_suffix {limit : Int} {depth : Nat} {ts : List Token} {found : Harvest}
    (h : bodyFrom? limit depth ts = some found) : found.rest <:+ ts := by
  fun_induction bodyFrom? limit depth ts generalizing found with
  | case1 ts => obtain rfl := Option.some.inj h; exact List.suffix_rfl
  | case2 => obtain rfl := Option.some.inj h; exact List.suffix_rfl
  | case3 => obtain rfl := Option.some.inj h; exact List.suffix_rfl
  | case4 depth t ts _ _ ih => exact (ih h).trans (List.suffix_cons t ts)
  | case5 depth t ts _ _ _ ih => exact (ih h).trans (List.suffix_cons t ts)
  | case6 depth t ts _ _ _ _ ih => exact (ih h).trans (List.suffix_cons t ts)
  | case7 depth t ts _ _ _ simple hs hlt ih =>
    obtain ⟨more, hm, rfl⟩ := Option.map_eq_some_iff.1 h
    exact (ih hm).trans (readSimple?_suffix hs)
  | case8 => simp at h

theorem readBody?_suffix {limit : Int} {ts : List Token} {found : Harvest}
    (h : readBody? limit ts = some found) : found.rest <:+ ts := by
  unfold readBody? at h
  split at h
  · obtain rfl := Option.some.inj h
    exact List.suffix_rfl
  · split at h
    · exact (bodyFrom?_suffix h).trans (List.suffix_cons _ _)
    · obtain rfl := Option.some.inj h
      exact List.suffix_rfl

theorem readFunction?_suffix {limit : Int} {keyword : Token} {ts : List Token} {found : Harvest}
    (h : readFunction? limit keyword ts = some found) : found.rest <:+ ts := by
  unfold readFunction? at h
  split at h
  · obtain rfl := Option.some.inj h
    exact List.suffix_rfl
  · rename_i name ts
    split at h
    · obtain ⟨body, hbody, rfl⟩ := Option.map_eq_some_iff.1 h
      exact (readBody?_suffix hbody).trans
        ((readParameterList_suffix ts).trans (List.suffix_cons name ts))
    · obtain rfl := Option.some.inj h
      exact List.suffix_rfl

/-- **A statement of a script leaves a suffix of its tokens.** -/
theorem readStatement?_suffix {config : Config} {t : Token} {ts : List Token} {found : Harvest}
    (h : readStatement? config t ts = some found) : found.rest <:+ t :: ts := by
  simp only [readStatement?] at h
  split at h
  · rename_i hs
    rw [← Option.some.inj h]
    exact readSimple?_suffix hs
  split at h
  · exact (readFunction?_suffix h).trans (List.suffix_cons t ts)
  split at h
  · rw [← Option.some.inj h]
    exact (dropSemicolon_suffix _).trans (expression_suffix _ maxCallDepth _)
  · rw [← Option.some.inj h]
    exact List.suffix_cons t ts

/-- **A statement of a script takes its first token**, when expressions may take one. -/
theorem readStatement?_suffix_tail {config : Config} (hlimit : 1 ≤ config.maxExpressionTokens)
    {t : Token} {ts : List Token} {found : Harvest}
    (h : readStatement? config t ts = some found) : found.rest <:+ ts := by
  simp only [readStatement?] at h
  split at h
  · rename_i hs
    rw [← Option.some.inj h]
    exact readSimple?_suffix_tail hlimit hs
  split at h
  · exact readFunction?_suffix h
  split at h
  · rename_i hk
    rw [Bool.and_eq_true, beq_iff_eq] at hk
    rw [← Option.some.inj h, outerExpression, expression_eq]
    exact (dropSemicolon_suffix _).trans (readExpression_suffix_keyword
      (argumentReader_suffix _ maxCallDepth) hlimit hk.1 ts)
  · obtain rfl := Option.some.inj h
    exact List.suffix_rfl

end PageLint
