import PageLint.Proofs.Suffix

/-!
# A grammar of expressions

What the readers build, said without them: which nodes a list of tokens may give, where their
places come from, how many operands an expression holds and how deep calls nest. Every reader of
expressions builds what this grammar allows, so that what is to be known about the nodes of an
expression is shown once per form of node.

As with the readers, calls nest inside the arguments of calls, and a number counts down how deep
their arguments are read.

* `Along` — nodes made of pieces of a list of tokens, in order
* `Operand`, `Value`, `Arguments` — the forms of operands, expressions and arguments
* `expression_laid` — what is read as an expression has one of these forms
* `Value.induction` — what holds of every form holds of every expression
-/

namespace PageLint

/-! ## Nodes along tokens -/

/-- Nodes that come one after the other along a list of tokens, each made of a piece of it. -/
inductive Along (P : List Token → Node → Prop) : List Token → List Node → Prop
  | nil (ts : List Token) : Along P ts []
  | cons {skipped piece rest : List Token} {n : Node} {ns : List Node} (head : P piece n)
      (tail : Along P rest ns) : Along P (skipped ++ (piece ++ rest)) (n :: ns)

namespace Along

variable {P Q : List Token → Node → Prop} {ts us : List Token} {ns ms : List Node}

theorem singleton {n : Node} (h : P ts n) : Along P ts [n] := by
  have hone : Along P ([] ++ (ts ++ [])) [n] := .cons h (.nil [])
  simpa using hone

theorem append_left (h : Along P ts ns) (front : List Token) : Along P (front ++ ts) ns := by
  cases h with
  | nil => exact .nil _
  | cons head tail =>
    rw [← List.append_assoc]
    exact .cons head tail

theorem append (h : Along P ts ns) (h' : Along P us ms) : Along P (ts ++ us) (ns ++ ms) := by
  induction h with
  | nil ts => exact h'.append_left ts
  | cons head _ ih =>
    rw [List.append_assoc, List.append_assoc]
    exact .cons head ih

theorem append_right (h : Along P ts ns) (back : List Token) : Along P (ts ++ back) ns := by
  simpa using h.append (.nil back)

theorem imp (hPQ : ∀ ts n, P ts n → Q ts n) (h : Along P ts ns) : Along Q ts ns := by
  induction h with
  | nil ts => exact .nil ts
  | cons head _ ih => exact .cons (hPQ _ _ head) ih

/-- Every node is made of a piece of the tokens. -/
theorem exists_piece (h : Along P ts ns) : ∀ n ∈ ns, ∃ piece, piece <:+: ts ∧ P piece n := by
  induction h with
  | nil => simp
  | @cons skipped piece rest n ns head _ ih =>
    intro m hm
    rcases List.mem_cons.1 hm with rfl | hm
    · exact ⟨piece, ⟨skipped, rest, by simp⟩, head⟩
    · obtain ⟨inner, hinner, hm⟩ := ih m hm
      have hrest : rest <:+ skipped ++ (piece ++ rest) := ⟨skipped ++ piece, by simp⟩
      exact ⟨inner, hinner.trans hrest.isInfix, hm⟩

end Along

/-- Nodes made of the tokens that are taken off the front of a list. -/
def Laid (P : List Token → Node → Prop) (ts rest : List Token) (ns : List Node) : Prop :=
  ∃ taken, ts = taken ++ rest ∧ Along P taken ns

namespace Laid

variable {P Q : List Token → Node → Prop} {ts us mid rest : List Token} {ns ms : List Node}

theorem nothing (h : rest <:+ ts) : Laid P ts rest [] := by
  obtain ⟨taken, rfl⟩ := h
  exact ⟨taken, rfl, .nil taken⟩

theorem append (h : Laid P ts mid ns) (h' : Laid P mid rest ms) : Laid P ts rest (ns ++ ms) := by
  obtain ⟨taken, rfl, hns⟩ := h
  obtain ⟨taken', rfl, hms⟩ := h'
  exact ⟨taken ++ taken', by simp, hns.append hms⟩

theorem of_suffix (h : Laid P ts rest ns) (hs : ts <:+ us) : Laid P us rest ns :=
  (nothing (P := P) hs).append h

theorem leaving (h : Laid P ts mid ns) (hs : rest <:+ mid) : Laid P ts rest ns := by
  simpa using h.append (nothing hs)

theorem imp (hPQ : ∀ ts n, P ts n → Q ts n) (h : Laid P ts rest ns) : Laid Q ts rest ns := by
  obtain ⟨taken, hts, hns⟩ := h
  exact ⟨taken, hts, hns.imp hPQ⟩

end Laid

/-! ## Forms of expressions -/

/-- The site of a node that stands where a token does. -/
def Token.site (t : Token) : Site := { location := t.location }

/-- An operand stands where its first token does: a name, or a call whose arguments have the form
`A`. -/
inductive Operand (A : List Token → List Node → Prop) : List Token → Node → Prop
  | name {t : Token} {ts : List Token} {i : Identifier} (site : i.site = t.site) :
      Operand A (t :: ts) (.identifier i)
  | call {t : Token} {before inner after : List Token} {callee : Identifier}
      {arguments : List Node} (site : callee.site = t.site) (inner_form : A inner arguments) :
      Operand A (t :: (before ++ (inner ++ after))) (.call t.site callee arguments)

/-- An expression is an operand, or a run of operands and operators with more than one operand in
all, or an operator, and not longer than the limit. -/
inductive Value (limit : Int) (A : List Token → List Node → Prop) : List Token → Node → Prop
  | operand {ts : List Token} {n : Node} (form : Operand A ts n) : Value limit A ts n
  | expression {t : Token} {ts : List Token} {operands : List Node} {operators : List String}
      (along : Along (Operand A) (t :: ts) operands) (ne_nil : operands ≠ [])
      (several : operators ≠ [] ∨ 2 ≤ operands.length)
      (short : operands.length + operators.length ≤ limit.toNat) :
      Value limit A (t :: ts) (.expression t.site operands operators)

/-- The arguments of a call inside which `k` more levels of calls are read; none are read when
there is no level left. -/
def Arguments (limit : Int) : Nat → List Token → List Node → Prop
  | 0 => fun _ ns => ns = []
  | k + 1 => Along (Value limit (Arguments limit k))

theorem Operand.ne_nil {A : List Token → List Node → Prop} {ts : List Token} {n : Node}
    (h : Operand A ts n) : ts ≠ [] := by
  cases h <;> exact List.cons_ne_nil _ _

/-- **What holds of every form of expression holds of every expression**, the level of calls being
counted down in their arguments. -/
theorem Value.induction {limit : Int} {motive : Nat → List Token → Node → Prop}
    (name : ∀ (k : Nat) (t : Token) (ts : List Token) (i : Identifier), i.site = t.site →
      motive k (t :: ts) (.identifier i))
    (skipped : ∀ (t : Token) (ts : List Token) (callee : Identifier), callee.site = t.site →
      motive 0 (t :: ts) (.call t.site callee []))
    (call : ∀ (k : Nat) (t : Token) (before inner after : List Token) (callee : Identifier)
      (arguments : List Node), callee.site = t.site → Along (motive k) inner arguments →
      motive (k + 1) (t :: (before ++ (inner ++ after))) (.call t.site callee arguments))
    (expression : ∀ (k : Nat) (t : Token) (ts : List Token) (operands : List Node)
      (operators : List String),
      Along (fun us n => Operand (Arguments limit k) us n ∧ motive k us n) (t :: ts) operands →
      operands ≠ [] → (operators ≠ [] ∨ 2 ≤ operands.length) →
      operands.length + operators.length ≤ limit.toNat →
      motive k (t :: ts) (.expression t.site operands operators))
    (k : Nat) {ts : List Token} {n : Node} (h : Value limit (Arguments limit k) ts n) :
    motive k ts n := by
  induction k generalizing ts n with
  | zero =>
    have hoperand : ∀ us m, Operand (Arguments limit 0) us m → motive 0 us m := by
      intro us m hm
      cases hm with
      | name site => exact name 0 _ _ _ site
      | call site inner_form =>
        obtain rfl := inner_form
        exact skipped _ _ _ site
    cases h with
    | operand form => exact hoperand _ _ form
    | expression along ne_nil several short =>
      exact expression 0 _ _ _ _ (along.imp fun us m hm => ⟨hm, hoperand us m hm⟩) ne_nil several
        short
  | succ k ih =>
    have hoperand : ∀ us m, Operand (Arguments limit (k + 1)) us m → motive (k + 1) us m := by
      intro us m hm
      cases hm with
      | name site => exact name _ _ _ _ site
      | call site inner_form => exact call k _ _ _ _ _ _ site (inner_form.imp fun _ _ => ih)
    cases h with
    | operand form => exact hoperand _ _ form
    | expression along ne_nil several short =>
      exact expression _ _ _ _ _ (along.imp fun us m hm => ⟨hm, hoperand us m hm⟩) ne_nil several
        short

/-! ## Readers of operands -/

/-- A reader of arguments takes tokens off the front, and what it reads has the form `A`. -/
def Reader.Gives (A : List Token → List Node → Prop) (args : Reader (List Node)) : Prop :=
  ∀ ts, ∃ taken, ts = taken ++ (args.read ts).rest ∧ A taken (args.read ts).value

theorem Reader.Gives.leavesSuffix {A : List Token → List Node → Prop} {args : Reader (List Node)}
    (h : args.Gives A) : args.LeavesSuffix := by
  intro ts
  obtain ⟨taken, hts, -⟩ := h ts
  exact ⟨taken, hts.symm⟩

theorem dottedName_taken {t : Token} {ts : List Token}
    (h : (dottedName false (t :: ts)).1.isEmpty = false) :
    (dottedName false (t :: ts)).2 <:+ ts := by
  rw [dottedName] at h ⊢
  split at h
  · rename_i hk
    rw [if_pos hk]
    exact dottedTail_suffix ts
  · simp at h

section Operands

variable {A : List Token → List Node → Prop} {args : Reader (List Node)} (hargs : args.Gives A)

include hargs

theorem argumentsAt_taken {ts : List Token} {arguments : List Node}
    (h : (argumentsAt args ts).value = some arguments) : ∃ before inner,
      ts = before ++ (inner ++ (argumentsAt args ts).rest) ∧ A inner arguments := by
  unfold argumentsAt at h ⊢
  split at h
  · simp at h
  · rename_i paren us
    split at h
    · rename_i hparen
      obtain rfl := Option.some.inj h
      obtain ⟨inner, hus, hform⟩ := hargs us
      exact ⟨[paren], inner, by simp [hparen, ← hus], hform⟩
    · simp at h

/-- **A named operand has the form of an operand.** -/
theorem namedOperand_laid (ts : List Token) :
    Laid (Operand A) ts (namedOperand args ts).rest (namedOperand args ts).value.toList := by
  cases ts with
  | nil => exact .nothing List.suffix_rfl
  | cons first tail =>
    rw [namedOperand]
    simp only
    split
    · exact .nothing (dottedName_suffix false _)
    · rename_i hnames
      rw [Bool.not_eq_true] at hnames
      generalize hafter : (dottedName false (first :: tail)).2 = afterNames
      have htail : afterNames <:+ tail := hafter ▸ dottedName_taken hnames
      obtain ⟨chain, hchain⟩ :=
        chainedNames_suffix hargs.leavesSuffix (argumentsAt args afterNames).rest
      split
      · split
        · rename_i arguments hcalled
          obtain ⟨before, inner, hsplit, hform⟩ := argumentsAt_taken hargs hcalled
          obtain ⟨names, rfl⟩ := htail
          refine ⟨first :: ((names ++ before) ++ (inner ++ chain)), ?_,
            .singleton (.call rfl hform)⟩
          rw [← hchain] at hsplit
          refine congrArg (List.cons first) ((congrArg (names ++ ·) hsplit).trans ?_)
          simp
        · obtain ⟨taken, rfl⟩ := ((chainedNames_suffix hargs.leavesSuffix _).trans
            (argumentsAt_suffix hargs.leavesSuffix afterNames)).trans htail
          exact ⟨first :: taken, rfl, .singleton (.name rfl)⟩
      · obtain ⟨taken, htaken⟩ := ((chainedNames_suffix hargs.leavesSuffix _).trans
          (argumentsAt_suffix hargs.leavesSuffix afterNames)).trans htail
        exact ⟨first :: taken, by rw [List.cons_append, htaken], .singleton (.name rfl)⟩

/-! ## Readers of expressions -/

theorem flatRun_laid (cut : Event) (n : Nat) (ts : List Token) :
    Laid (Operand A) ts (flatRun args cut n ts).rest (flatRun args cut n ts).value.1 := by
  fun_induction flatRun args cut n ts with
  | case1 n => exact .nothing List.suffix_rfl
  | case2 => exact .nothing List.suffix_rfl
  | case3 => exact .nothing List.suffix_rfl
  | case4 => exact .nothing List.suffix_rfl
  | case5 n t ts _ _ _ more ih => exact ih.of_suffix (List.suffix_cons t ts)
  | case6 n t ts _ _ _ operand more ih => exact (namedOperand_laid hargs _).append ih
  | case7 n t ts _ _ _ _ more ih =>
    have hname : Laid (Operand A) (t :: ts) ts [.identifier t.toIdentifier] :=
      ⟨[t], rfl, .singleton (.name rfl)⟩
    exact hname.append ih
  | case8 n t ts => exact .nothing (List.suffix_cons t ts)

omit hargs in
/-- A step of a flat run gives at most one operand or operator. -/
theorem flatRun_length (cut : Event) (n : Nat) (ts : List Token) :
    (flatRun args cut n ts).value.1.length + (flatRun args cut n ts).value.2.length ≤ n := by
  fun_induction flatRun args cut n ts with
  | case1 => simp
  | case2 => simp
  | case3 => simp
  | case4 => simp
  | case5 n t ts _ _ _ more ih =>
    have : more.value.1.length + more.value.2.length ≤ n := ih
    simp only [List.length_cons]
    omega
  | case6 n t ts _ _ _ operand more ih =>
    have hone : operand.value.toList.length ≤ 1 := by cases operand.value <;> simp
    have : more.value.1.length + more.value.2.length ≤ n := ih
    simp only [List.length_append]
    omega
  | case7 n t ts _ _ _ _ more ih =>
    have : more.value.1.length + more.value.2.length ≤ n := ih
    simp only [List.length_cons]
    omega
  | case8 => simp

/-- **What is read as an expression has the form of one.** -/
theorem readExpression_laid (limit : Int) (ts : List Token) :
    Laid (Value limit A) ts (readExpression limit args ts).rest
      (readExpression limit args ts).value.toList := by
  unfold readExpression
  split
  · exact .nothing List.suffix_rfl
  rename_i t ts
  split
  · exact .nothing List.suffix_rfl
  split
  · exact ((namedOperand_laid hargs ts).imp fun _ _ => .operand).of_suffix (List.suffix_cons t ts)
  split
  · exact (namedOperand_laid hargs _).imp fun _ _ => .operand
  split
  · exact ⟨[t], rfl, .singleton (.operand (.name rfl))⟩
  · have hlength := @flatRun_length args (.expressionCut t.location limit) limit.toNat
      (t :: ts)
    obtain ⟨taken, htaken, halong⟩ :=
      flatRun_laid hargs (.expressionCut t.location limit) limit.toNat (t :: ts)
    generalize flatRun args (.expressionCut t.location limit) limit.toNat (t :: ts) = run at *
    simp only
    unfold flatNode
    split
    · exact ⟨taken, htaken, .nil taken⟩
    · rename_i operand hoperands _
      rw [hoperands] at halong
      exact ⟨taken, htaken, halong.imp fun _ _ => .operand⟩
    · rename_i operands hnone hsingle
      have hne : run.value.1 ≠ [] := fun h => hnone h
      -- Some operand has been taken, so the run starts with the first token.
      obtain ⟨us, rfl⟩ : ∃ us, taken = t :: us := by
        cases taken with
        | nil =>
          obtain ⟨operand, hmem⟩ := List.exists_mem_of_ne_nil _ hne
          obtain ⟨piece, hpiece, hform⟩ := halong.exists_piece operand hmem
          exact absurd (List.infix_nil.1 hpiece) hform.ne_nil
        | cons u us => exact ⟨us, by rw [(List.cons.inj htaken).1]⟩
      refine ⟨_, htaken, .singleton (.expression halong hne ?_ hlength)⟩
      by_cases hoperators : run.value.2 = []
      · refine Or.inr (Nat.lt_of_not_le fun hle => ?_)
        obtain ⟨operand, hone⟩ := List.length_eq_one_iff.1
          (Nat.le_antisymm hle (List.length_pos_iff.2 hne))
        exact hsingle operand hone hoperators
      · exact Or.inl hoperators

end Operands

/-! ## Arguments and levels of calls -/

theorem argumentsFrom_laid {P : List Token → Node → Prop} {expr : Reader (Option Node)}
    (hexpr : ∀ ts, Laid P ts (expr.read ts).rest (expr.read ts).value.toList) (ts : List Token) :
    Laid P ts (argumentsFrom expr ts).rest (argumentsFrom expr ts).value := by
  fun_induction argumentsFrom expr ts with
  | case1 => exact .nothing List.suffix_rfl
  | case2 => exact .nothing List.suffix_rfl
  | case3 t ts ht first hrest => exact hrest ▸ hexpr (t :: ts)
  | case4 t ts ht first u us hrest hu => exact hrest ▸ hexpr (t :: ts)
  | case5 t ts ht first u us hrest hu hlt more ih =>
    exact (hrest ▸ hexpr (t :: ts)).append (ih.of_suffix (List.suffix_cons u us))

theorem argumentReader_gives (limit : Int) (k : Nat) :
    (argumentReader limit k).Gives (Arguments limit k) := by
  induction k with
  | zero =>
    intro ts
    obtain ⟨taken, htaken⟩ := skipParens_suffix 1 ts
    exact ⟨taken, htaken.symm, rfl⟩
  | succ k ih =>
    intro ts
    have hexpr : ∀ us, Laid (Value limit (Arguments limit k)) us
        ((expression limit k).read us).rest ((expression limit k).read us).value.toList := by
      intro us
      rw [expression_eq]
      exact readExpression_laid ih limit us
    exact (argumentsFrom_laid hexpr ts).leaving (dropRightParen_suffix _)

/-- **Expressions have the form of expressions**, whatever depth of calls is read. -/
theorem expression_laid (limit : Int) (k : Nat) (ts : List Token) :
    Laid (Value limit (Arguments limit k)) ts ((expression limit k).read ts).rest
      ((expression limit k).read ts).value.toList := by
  rw [expression_eq]
  exact readExpression_laid (argumentReader_gives limit k) limit ts

end PageLint
