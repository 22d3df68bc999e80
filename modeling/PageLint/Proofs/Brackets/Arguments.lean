import PageLint.Proofs.Brackets.Matching
import PageLint.Proofs.Termination

/-!
# Where arguments end

The arguments of a call are read up to a closing parenthesis or, when calls nest too deep, skipped
by counting parentheses. Readers of expressions take no brace and no end of a script, and they close
no parenthesis that they have not opened. But they may open one without closing it: a parenthesis
that does not belong to a call is taken like any other token without a place in an expression.

So reading stops where skipping does as long as every parenthesis that it takes belongs to a call;
otherwise it stops at a closing parenthesis further in front.

* `Crosses` — going on over tokens without closing a parenthesis that was not opened there
* `expression_crosses` — expressions do so, whatever depth of calls is read
* `argumentReader_closes` — arguments do so up to their closing parenthesis or a boundary
* `arguments_stop` — where reading arguments stops, against skipping them
-/

namespace PageLint

/-! ## Crossing tokens -/

/-- Going on from tokens to others takes no boundary and closes no parenthesis that is not opened on
the way. -/
def Crosses (ts rest : List Token) : Prop :=
  ∃ taken n, ts = taken ++ rest ∧ parens.openAfter? 0 taken = some n

/-- Whether a list is empty or starts with a boundary. -/
def AtBoundary (ts : List Token) : Prop := ∀ t ∈ ts.head?, t.kind.isBoundary = true

/-- Going on from the arguments of a call crosses tokens and takes a closing parenthesis, or stops
at a boundary. -/
inductive ClosesArguments (ts rest : List Token) : Prop
  | closed {close : Token} (kind : close.kind = .rightParen) (inner : Crosses ts (close :: rest))
  | ended (inner : Crosses ts rest) (boundary : AtBoundary rest)

namespace Crosses

variable {ts us rest : List Token} {t : Token}

theorem refl (ts : List Token) : Crosses ts ts := ⟨[], 0, rfl, rfl⟩

theorem trans (h : Crosses ts us) (h' : Crosses us rest) : Crosses ts rest := by
  obtain ⟨taken, n, rfl, hn⟩ := h
  obtain ⟨more, m, rfl, hm⟩ := h'
  refine ⟨taken ++ more, m + n, by rw [List.append_assoc], ?_⟩
  rw [Brackets.openAfter?_append hn]
  simpa using Brackets.openAfter?_add hm n

/-- A token that is neither a boundary nor a closing parenthesis is crossed. -/
theorem token (hboundary : t.kind.isBoundary = false) (hclose : t.kind ≠ .rightParen)
    (ts : List Token) : Crosses (t :: ts) ts := by
  by_cases hopen : t.kind = .leftParen
  · exact ⟨[t], 1, rfl, Brackets.openAfter?_opening hopen 0 []⟩
  · exact ⟨[t], 0, rfl, Brackets.openAfter?_other hboundary hopen hclose 0 []⟩

theorem cons (hboundary : t.kind.isBoundary = false) (hclose : t.kind ≠ .rightParen)
    (h : Crosses ts rest) : Crosses (t :: ts) rest :=
  (token hboundary hclose ts).trans h

theorem mark {mark : String} (h : t.isMark mark = true) (ts : List Token) :
    Crosses (t :: ts) ts := by
  have hk : t.kind = .punctuation := by
    rw [Token.isMark, Bool.and_eq_true, beq_iff_eq] at h
    exact h.1
  exact token (by rw [hk]; rfl) (by simp [hk]) ts

theorem word (h : t.kind.isWord = true) (ts : List Token) : Crosses (t :: ts) ts := by
  refine token ?_ ?_ ts
  · cases hk : t.kind <;> simp [hk, TokenKind.isWord] at h <;> rfl
  · intro hk
    simp [hk, TokenKind.isWord] at h

theorem identifier (h : t.kind = .identifier) (ts : List Token) : Crosses (t :: ts) ts :=
  word (by rw [h]; rfl) ts

/-- A parenthesis that is opened is closed behind the arguments. -/
theorem call (h : t.kind = .leftParen) (hts : ClosesArguments ts rest) :
    Crosses (t :: ts) rest := by
  cases hts with
  | @closed close kind inner =>
    obtain ⟨taken, n, rfl, hn⟩ := inner
    refine ⟨t :: (taken ++ [close]), n, by simp, ?_⟩
    rw [Brackets.openAfter?_opening h, Brackets.openAfter?_append (Brackets.openAfter?_add hn 1),
      Brackets.openAfter?_closing kind]
    rfl
  | ended inner _ => exact cons (by rw [h]; rfl) (by simp [h]) inner

theorem suffix (h : Crosses ts rest) : rest <:+ ts := by
  obtain ⟨taken, -, rfl, -⟩ := h
  exact List.suffix_append taken rest

end Crosses

/-! ## Names and calls -/

theorem dottedTail_crosses (ts : List Token) : Crosses ts (dottedTail ts).2 := by
  fun_induction dottedTail ts with
  | case1 dot name ts h names rest eq ih =>
    rw [eq] at ih
    rw [Bool.and_eq_true] at h
    exact (Crosses.mark h.1 (name :: ts)).trans ((Crosses.word h.2 ts).trans ih)
  | case2 => exact .refl _
  | case3 => exact .refl _

theorem dottedName_crosses (anyWord : Bool) (ts : List Token) :
    Crosses ts (dottedName anyWord ts).2 := by
  unfold dottedName
  split
  · exact .refl _
  · rename_i t ts
    split
    · rename_i h
      have hword : t.kind.isWord = true := by
        rw [Bool.or_eq_true, beq_iff_eq, Bool.and_eq_true] at h
        rcases h with h | h
        · rw [h]
          rfl
        · exact h.2
      exact (Crosses.word hword ts).trans (dottedTail_crosses ts)
    · exact .refl _

section Calls

variable {args : Reader (List Node)} (hargs : ∀ ts, ClosesArguments ts (args.read ts).rest)

include hargs

theorem argumentsAt_crosses (ts : List Token) : Crosses ts (argumentsAt args ts).rest := by
  unfold argumentsAt
  split
  · exact .refl _
  · split
    · rename_i h
      exact .call (by simpa using h) (hargs _)
    · exact .refl _

theorem chainedNames_crosses (ts : List Token) : Crosses ts (chainedNames args ts).rest := by
  fun_induction chainedNames args ts with
  | case1 => exact .refl _
  | case2 t ts h named hn => exact (Crosses.mark h ts).trans (dottedName_crosses true ts)
  | case3 t ts h named hn dropped hlt more ih =>
    have hnamed : Crosses (t :: ts) named.2 :=
      (Crosses.mark h ts).trans (dottedName_crosses true ts)
    exact hnamed.trans ((argumentsAt_crosses hargs named.2).trans ih)
  | case4 => exact .refl _

theorem namedOperand_crosses (ts : List Token) : Crosses ts (namedOperand args ts).rest := by
  cases ts with
  | nil => exact .refl _
  | cons t ts =>
    have hnames := dottedName_crosses false (t :: ts)
    unfold namedOperand
    simp only
    split
    · exact hnames
    · exact hnames.trans ((argumentsAt_crosses hargs _).trans (chainedNames_crosses hargs _))

/-! ## Expressions -/

omit hargs in
theorem crosses_of_isLiteral {t : Token} (h : t.kind.isLiteral = true) (ts : List Token) :
    Crosses (t :: ts) ts := by
  refine .token ?_ ?_ ts
  · cases hk : t.kind <;> simp [hk, TokenKind.isLiteral] at h <;> rfl
  · intro hk
    simp [hk, TokenKind.isLiteral] at h

omit hargs in
theorem crosses_of_plain {t : Token} (h : (t.kind == .identifier || t.kind.isLiteral) = true)
    (ts : List Token) : Crosses (t :: ts) ts := by
  rw [Bool.or_eq_true, beq_iff_eq] at h
  exact h.elim (fun h => .identifier h ts) (fun h => crosses_of_isLiteral h ts)

theorem flatRun_crosses (cut : Event) (n : Nat) (ts : List Token) :
    Crosses ts (flatRun args cut n ts).rest := by
  fun_induction flatRun args cut n ts with
  | case1 => exact .refl _
  | case2 => exact .refl _
  | case3 => exact .refl _
  | case4 => exact .refl _
  | case5 n t ts _ hk _ more ih =>
    have hk : t.kind = .operator := by simpa using hk
    exact .cons (by rw [hk]; rfl) (by simp [hk]) ih
  | case6 n t ts _ _ _ operand more ih => exact (namedOperand_crosses hargs _).trans ih
  | case7 n t ts _ _ _ hplain more ih => exact (crosses_of_plain hplain ts).trans ih
  | case8 n t ts hstop _ _ _ =>
    -- Whatever the token is, it is no terminator and so no closing parenthesis.
    simp only [isTerminator, Bool.or_eq_true, beq_iff_eq, not_or, Bool.not_eq_true] at hstop
    exact .token hstop.1 hstop.2.1.1 ts

theorem readExpression_crosses (limit : Int) (ts : List Token) :
    Crosses ts (readExpression limit args ts).rest := by
  unfold readExpression
  split
  · exact .refl _
  rename_i t ts
  split
  · exact .refl _
  split
  · rename_i hnew
    rw [Bool.and_eq_true, beq_iff_eq] at hnew
    exact (Crosses.word (by rw [hnew.1]; rfl) ts).trans (namedOperand_crosses hargs ts)
  split
  · exact namedOperand_crosses hargs _
  split
  · rename_i hplain
    rw [Bool.and_eq_true] at hplain
    exact crosses_of_plain hplain.1 ts
  · exact flatRun_crosses hargs _ _ _

end Calls

/-! ## Arguments -/

theorem argumentsFrom_crosses {expr : Reader (Option Node)}
    (hexpr : ∀ ts, Crosses ts (expr.read ts).rest) (ts : List Token) :
    Crosses ts (argumentsFrom expr ts).rest ∧
      ∀ t ∈ (argumentsFrom expr ts).rest.head?, endsArguments t = true := by
  fun_induction argumentsFrom expr ts with
  | case1 => exact ⟨.refl _, by simp⟩
  | case2 t ts ht => exact ⟨.refl _, by rintro u ⟨⟩; exact ht⟩
  | case3 t ts ht first hrest => exact ⟨hrest ▸ hexpr (t :: ts), by simp⟩
  | case4 t ts ht first u us hrest hu => exact ⟨hrest ▸ hexpr (t :: ts), by rintro v ⟨⟩; exact hu⟩
  | case5 t ts ht first u us hrest hu hlt more ih =>
    have hfirst : Crosses (t :: ts) (u :: us) := hrest ▸ hexpr (t :: ts)
    simp only [endsArguments, Bool.or_eq_true, beq_iff_eq, not_or, Bool.not_eq_true] at hu
    exact ⟨hfirst.trans (.cons hu.1 hu.2 ih.1), ih.2⟩

theorem readArguments_closes {expr : Reader (Option Node)}
    (hexpr : ∀ ts, Crosses ts (expr.read ts).rest) (ts : List Token) :
    ClosesArguments ts ((readArguments expr).read ts).rest := by
  obtain ⟨hcrosses, hends⟩ := argumentsFrom_crosses hexpr ts
  show ClosesArguments ts (dropRightParen (argumentsFrom expr ts).rest)
  generalize (argumentsFrom expr ts).rest = rest at hcrosses hends
  cases rest with
  | nil => exact .ended hcrosses (by simp [AtBoundary, dropRightParen])
  | cons t rest =>
    rw [dropRightParen]
    split
    · rename_i hk
      exact .closed (by simpa using hk) hcrosses
    · rename_i hk
      refine .ended hcrosses ?_
      rintro u ⟨⟩
      have ht := hends t rfl
      rw [endsArguments, Bool.or_eq_true] at ht
      exact ht.resolve_right hk

/-- Skipping parentheses is searching for the closing one. -/
theorem skipParens_eq (depth : Nat) (ts : List Token) :
    skipParens depth ts = parens.skip depth ts := by
  induction ts generalizing depth with
  | nil => cases depth <;> simp [skipParens, Brackets.skip]
  | cons t ts ih =>
    cases depth with
    | zero => simp [skipParens, Brackets.skip]
    | succ depth => rw [skipParens, Brackets.skip, ih, ih, ih]; rfl

theorem skipArguments_closes (ts : List Token) :
    ClosesArguments ts (skipArguments.read ts).rest := by
  show ClosesArguments ts (skipParens 1 ts)
  rw [skipParens_eq]
  cases Brackets.skip_finds parens 0 ts with
  | @closed inner close split closes inner_open =>
    exact .closed closes ⟨inner, 0, split, inner_open⟩
  | @ended inner n split inner_open ends => exact .ended ⟨inner, n, split, inner_open⟩ ends

/-- **Arguments are read up to their closing parenthesis or a boundary**, whatever depth of calls is
read, and no parenthesis is closed that was not opened there. -/
theorem argumentReader_closes (limit : Int) (k : Nat) (ts : List Token) :
    ClosesArguments ts ((argumentReader limit k).read ts).rest := by
  induction k generalizing ts with
  | zero => exact skipArguments_closes ts
  | succ k ih =>
    refine readArguments_closes (fun us => ?_) ts
    rw [expression_eq]
    exact readExpression_crosses ih limit us

/-- **Expressions close no parenthesis that they have not opened**, and take no boundary. -/
theorem expression_crosses (limit : Int) (k : Nat) (ts : List Token) :
    Crosses ts ((expression limit k).read ts).rest := by
  rw [expression_eq]
  exact readExpression_crosses (argumentReader_closes limit k) limit ts

/-! ## Reading and skipping -/

/-- Where reading the arguments behind the parenthesis at index `i` stops, against skipping them:
skipping stops behind the closing parenthesis or at the boundary in front of it; reading goes over
no boundary either and never further, and it goes as far exactly when it stops at a boundary or has
closed every parenthesis that it has gone over. -/
structure ArgumentsStop (ts : List Token) (i read skipped : Nat) : Prop where
  skipped_stops : parens.StopsAt ts i skipped
  lt : i < read
  clear : parens.ClearBetween ts i read
  le : read ≤ skipped
  agree_iff : read = skipped ↔
    (∀ t, ts[read]? = some t → t.kind.isBoundary = true) ∨ parens.excess (ts.extract i read) = 0

/-- Skipping goes on from where reading stops, with the parentheses that reading has left open. -/
theorem ClosesArguments.skip {ts rest : List Token} (h : ClosesArguments ts rest) :
    ∃ taken n, ts = taken ++ rest ∧ (∀ t ∈ taken, t.kind.isBoundary = false) ∧
      parens.excess taken + 1 = (n : Nat) ∧ parens.skip 1 ts = parens.skip n rest := by
  cases h with
  | @closed close kind inner =>
    obtain ⟨taken, n, rfl, hn⟩ := inner
    have hcount := Brackets.openAfter?_eq hn
    refine ⟨taken ++ [close], n, by simp, ?_, ?_, ?_⟩
    · intro t ht
      rcases List.mem_append.1 ht with ht | ht
      · exact Brackets.openAfter?_clear hn t ht
      · rw [List.mem_singleton.1 ht, kind]
        rfl
    · rw [Brackets.excess_append, Brackets.excess_closing [] kind, Brackets.excess_nil]
      omega
    · rw [Brackets.skip_append hn, Brackets.skip_closing kind]
  | ended inner _ =>
    obtain ⟨taken, n, rfl, hn⟩ := inner
    have hcount := Brackets.openAfter?_eq hn
    exact ⟨taken, n + 1, rfl, Brackets.openAfter?_clear hn, by omega, Brackets.skip_append hn rest⟩

/-- **Reading arguments never goes further than skipping them**, and as far exactly when it stops at
a boundary or no parenthesis that it has gone over is left open. -/
theorem arguments_stop (limit : Int) (k : Nat) {ts : List Token} {i : Nat} {t : Token}
    (hi : ts[i]? = some t) (ht : t.kind = .leftParen) :
    ∃ read skipped, ((argumentReader limit k).read (ts.drop (i + 1))).rest = ts.drop read ∧
      (skipArguments.read (ts.drop (i + 1))).rest = ts.drop skipped ∧
      ArgumentsStop ts i read skipped := by
  obtain ⟨skipped, hskip, hstops⟩ := Brackets.skip_stopsAt (b := parens) hi ht
  have hle := hstops.le_length
  obtain ⟨taken, n, hsplit, hclear, hopen, hgoesOn⟩ :=
    (argumentReader_closes limit k (ts.drop (i + 1))).skip
  generalize ((argumentReader limit k).read (ts.drop (i + 1))).rest = rest at *
  rw [hgoesOn] at hskip
  obtain ⟨front, behind, rfl, rfl⟩ := Brackets.exists_front hi
  rw [Brackets.drop_front] at hsplit hgoesOn
  subst hsplit
  have hrest : (front ++ t :: (taken ++ rest)).drop (front.length + 1 + taken.length) = rest := by
    rw [Brackets.drop_front_add, List.drop_left]
  refine ⟨front.length + 1 + taken.length, skipped, hrest.symm, ?_, hstops, by omega,
    Brackets.clearBetween_front hclear, ?_, ?_⟩
  · show skipParens 1 _ = _
    rw [skipParens_eq, Brackets.drop_front, hgoesOn, hskip]
  · have hsuffix := (Brackets.skip_suffix parens n rest).length_le
    rw [hskip, List.length_drop] at hsuffix
    simp only [List.length_append, List.length_cons] at hsuffix hle
    omega
  · have hboundary : (∀ u,
        (front ++ t :: (taken ++ rest))[front.length + 1 + taken.length]? = some u →
          u.kind.isBoundary = true) ↔ AtBoundary rest := by
      rw [AtBoundary, ← List.head?_drop, hrest]
      exact Iff.rfl
    have hexcess : parens.excess ((front ++ t :: (taken ++ rest)).extract front.length
        (front.length + 1 + taken.length)) = n := by
      rw [Nat.add_assoc, Nat.add_comm 1, Brackets.extract_front, List.take_left,
        Brackets.excess_opening _ ht, hopen]
    rw [hboundary, hexcess, Int.natCast_eq_zero]
    refine Iff.trans ?_ (Brackets.skip_eq_self_iff (b := parens))
    rw [hskip]
    constructor
    · rintro rfl
      exact hrest
    · intro hsame
      have hlength := congrArg List.length (hsame.trans hrest.symm)
      rw [List.length_drop, List.length_drop] at hlength
      simp only [List.length_append, List.length_cons] at hlength hle
      omega

/-- A call whose argument stands in parentheses of its own, and a name chained to the call. -/
def groupedArgument : List Token :=
  [.bare .identifier "f", .bare .leftParen "(", .bare .leftParen "(", .bare .number "1",
    .bare .rightParen ")", .bare .rightParen ")", .bare .punctuation ".", .bare .identifier "y"]

/-- Reading takes the inner closing parenthesis for that of the call; skipping goes on to the outer
one. -/
theorem groupedArgument_stops :
    groupedArgument[1]? = some (.bare .leftParen "(") ∧
    (Token.bare .leftParen "(").kind = .leftParen ∧
    ∃ read skipped, ((argumentReader 1000 maxCallDepth).read (groupedArgument.drop (1 + 1))).rest
        = groupedArgument.drop read ∧
      (skipArguments.read (groupedArgument.drop (1 + 1))).rest = groupedArgument.drop skipped ∧
      ArgumentsStop groupedArgument 1 read skipped ∧ read = 5 ∧ skipped = 6 := by
  refine ⟨rfl, rfl, ?_⟩
  obtain ⟨read, skipped, hread, hskipped, hstop⟩ :=
    arguments_stop 1000 maxCallDepth (show groupedArgument[1]? = some _ from rfl) rfl
  have hinner : ((argumentReader 1000 maxCallDepth).read (groupedArgument.drop (1 + 1))).rest
      = groupedArgument.drop 5 := by
    decide +kernel
  have houter : (skipArguments.read (groupedArgument.drop (1 + 1))).rest = groupedArgument.drop 6 :=
    rfl
  have hreadLength := congrArg List.length (hread.symm.trans hinner)
  have hskippedLength := congrArg List.length (hskipped.symm.trans houter)
  have hlength : groupedArgument.length = 8 := rfl
  rw [List.length_drop, List.length_drop] at hreadLength hskippedLength
  exact ⟨read, skipped, hread, hskipped, hstop, by omega, by omega⟩

end PageLint
