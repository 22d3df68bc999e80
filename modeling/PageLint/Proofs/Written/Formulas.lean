import PageLint.Proofs.ExpressionWords
import PageLint.Proofs.Written.Sums

/-!
# Written formulas

A formula is made of names, literals, members, calls, operators and grouping parentheses. Readers
take no groups: an expression may stop inside a formula, and what is left of it is read as further
statements. But every parenthesis of a formula is closed, so no reader goes beyond the semicolon
behind it, and what is left declares nothing.

* `IsFormula` — the tokens of formulas
* `Closes` — tokens in which every parenthesis is closed in front of the first semicolon
* `outerExpression_leaves` — an expression stays in front of the semicolon
* `harvestOf_leftover` — what is left of a formula gives values only
-/

namespace PageLint.Written

/-! ## Formulas -/

/-- What of a formula is written: a name with its members and calls, or any formula. -/
inductive Level where
  | chain
  | formula

/-- Tokens that write a formula. -/
inductive IsFormula : Level → List (TokenKind × String) → Prop
  | name (x : String) : IsFormula .chain [(.identifier, x)]
  | member {e : List (TokenKind × String)} (h : IsFormula .chain e) (w : Word) :
      IsFormula .chain (e ++ [(.punctuation, "."), (w.kind, w.text)])
  | call {e : List (TokenKind × String)} (h : IsFormula .chain e)
      {arguments : List (List (TokenKind × String))} (hs : ∀ a ∈ arguments, IsFormula .formula a) :
      IsFormula .chain (e ++ (.leftParen, "(") ::
        (List.intercalate [(.punctuation, ",")] arguments ++ [(.rightParen, ")")]))
  | chain {e : List (TokenKind × String)} (h : IsFormula .chain e) : IsFormula .formula e
  | literal (kind : TokenKind) (text : String) (isLiteral : kind.isLiteral = true) :
      IsFormula .formula [(kind, text)]
  | group {e : List (TokenKind × String)} (h : IsFormula .formula e) :
      IsFormula .formula ((.leftParen, "(") :: (e ++ [(.rightParen, ")")]))
  | binary {e e' : List (TokenKind × String)} {op : String} (h : IsFormula .formula e)
      (hop : isAssignmentOperator op = false) (h' : IsFormula .formula e') :
      IsFormula .formula (e ++ (.operator, op) :: e')

/-- A formula starts with a name, a literal or a parenthesis. -/
theorem IsFormula.exists_head {level : Level} {e : List (TokenKind × String)}
    (h : IsFormula level e) : ∃ kind text more, e = (kind, text) :: more ∧
      (kind = .identifier ∨ kind.isLiteral = true ∨ kind = .leftParen) := by
  induction h with
  | name x => exact ⟨.identifier, x, [], rfl, Or.inl rfl⟩
  | member h w ih =>
    obtain ⟨kind, text, more, rfl, hkind⟩ := ih
    exact ⟨kind, text, _, rfl, hkind⟩
  | call h hs ih =>
    obtain ⟨kind, text, more, rfl, hkind⟩ := ih
    exact ⟨kind, text, _, rfl, hkind⟩
  | chain h ih => exact ih
  | literal kind text isLiteral => exact ⟨kind, text, [], rfl, Or.inr (Or.inl isLiteral)⟩
  | group h ih => exact ⟨.leftParen, "(", _, rfl, Or.inr (Or.inr rfl)⟩
  | binary h hop h' ih =>
    obtain ⟨kind, text, more, rfl, hkind⟩ := ih
    exact ⟨kind, text, _, rfl, hkind⟩

/-! ## Closed parentheses -/

/-- Whether a token may stand in a formula. -/
def isPart (t : Token) : Bool :=
  t.kind.isWord || t.kind.isLiteral || t.kind == .operator && !isAssignmentOperator t.text ||
    t.isMark "." || t.isMark "," || t.kind == .leftParen || t.kind == .rightParen

/-- How many parentheses are closed in front of the first semicolon that are not opened there. -/
def surplus : List Token → Nat
  | [] => 0
  | t :: ts =>
    if t.isMark ";" then 0
    else if t.kind == .leftParen then surplus ts - 1
    else if t.kind == .rightParen then surplus ts + 1
    else surplus ts

/-- The tokens behind the first semicolon. -/
def behind : List Token → List Token
  | [] => []
  | t :: ts => if t.isMark ";" then ts else behind ts

/-- Tokens in front of which a word may stand. -/
def AfterWord (ts : List Token) : Prop := ∀ u ∈ ts.head?, u.kind.isWord = false

/-- Tokens of formulas up to a semicolon, with every parenthesis closed in front of it and no word
next to another one. -/
inductive Closes : List Token → Prop
  | semicolon {t : Token} {ts : List Token} (h : t.isMark ";" = true) : Closes (t :: ts)
  | token {t : Token} {ts : List Token} (isPart : isPart t = true)
      (word : t.kind.isWord = true → AfterWord ts)
      (paren : t.kind = .leftParen → 0 < surplus ts) (rest : Closes ts) : Closes (t :: ts)

section Tokens

variable {t : Token} {ts : List Token}

theorem not_semicolon_of_isPart (h : isPart t = true) : t.isMark ";" = false := by
  rw [Bool.eq_false_iff]
  intro hmark
  obtain ⟨hk, ht⟩ := kind_of_isMark hmark
  simp [isPart, Token.isMark, hk, ht, TokenKind.isWord, TokenKind.isLiteral] at h

theorem not_isBoundary_of_isPart (h : isPart t = true) : t.kind.isBoundary = false := by
  cases hk : t.kind <;> simp [isPart, Token.isMark, hk, TokenKind.isWord, TokenKind.isLiteral] at h
    <;> rfl

theorem Closes.not_isBoundary (h : Closes (t :: ts)) : t.kind.isBoundary = false := by
  cases h with
  | semicolon h =>
    rw [(kind_of_isMark h).1]
    rfl
  | token isPart _ _ _ => exact not_isBoundary_of_isPart isPart

end Tokens

/-! ## Staying in front of the semicolon -/

/-- Going on from tokens to others stays in front of the semicolon and closes a number of
parentheses that are not opened on the way. -/
def Leaves (d : Nat) (ts rest : List Token) : Prop :=
  Closes ts → d ≤ surplus ts → Closes rest ∧ behind rest = behind ts ∧ surplus ts ≤ surplus rest + d

theorem Leaves.refl (ts : List Token) : Leaves 0 ts ts :=
  fun h _ => ⟨h, rfl, Nat.le_refl _⟩

theorem Leaves.trans {d e : Nat} {ts us vs : List Token} (h : Leaves d ts us)
    (h' : Leaves e us vs) : Leaves (d + e) ts vs := by
  intro hts hle
  obtain ⟨hus, hbehind, hsurplus⟩ := h hts (by omega)
  obtain ⟨hvs, hbehind', hsurplus'⟩ := h' hus (by omega)
  exact ⟨hvs, hbehind'.trans hbehind, by omega⟩

section Steps

variable {t : Token} {ts rest : List Token} {d : Nat}

theorem surplus_leftParen (h : t.kind = .leftParen) : surplus (t :: ts) = surplus ts - 1 := by
  simp [surplus, Token.isMark, h]

theorem surplus_rightParen (h : t.kind = .rightParen) : surplus (t :: ts) = surplus ts + 1 := by
  simp [surplus, Token.isMark, h]

theorem surplus_semicolon (h : t.isMark ";" = true) : surplus (t :: ts) = 0 := by
  simp [surplus, h]

theorem surplus_le (h : t.kind ≠ .rightParen) : surplus (t :: ts) ≤ surplus ts := by
  rw [surplus]
  split
  · exact Nat.zero_le _
  split
  · exact Nat.sub_le _ _
  · rw [if_neg (by simpa using h)]

theorem behind_cons (h : t.isMark ";" = false) : behind (t :: ts) = behind ts := by
  simp [behind, h]

theorem behind_semicolon (h : t.isMark ";" = true) : behind (t :: ts) = ts := by
  simp [behind, h]

/-- A token that neither ends nor closes anything is passed. -/
theorem Leaves.pass (hmark : t.isMark ";" = false) (hparen : t.kind ≠ .rightParen) :
    Leaves 0 (t :: ts) ts := by
  intro h _
  cases h with
  | semicolon h => exact absurd (hmark.symm.trans h) Bool.false_ne_true
  | token _ _ _ hrest => exact ⟨hrest, (behind_cons hmark).symm, surplus_le hparen⟩

theorem Leaves.pass_kind (h : t.kind ≠ .punctuation) (hparen : t.kind ≠ .rightParen) :
    Leaves 0 (t :: ts) ts :=
  .pass (isMark_of_kind h ";") hparen

theorem Leaves.word (h : t.kind.isWord = true) : Leaves 0 (t :: ts) ts := by
  refine .pass_kind ?_ ?_ <;> intro hk <;> simp [hk, TokenKind.isWord] at h

theorem Leaves.dot (h : t.isMark "." = true) : Leaves 0 (t :: ts) ts := by
  obtain ⟨hk, ht⟩ := kind_of_isMark h
  exact .pass (by simp [Token.isMark, ht]) (by simp [hk])

/-- A closing parenthesis closes one. -/
theorem Leaves.close (h : t.kind = .rightParen) : Leaves 1 (t :: ts) ts := by
  intro hts _
  cases hts with
  | semicolon hmark => simp [Token.isMark, h] at hmark
  | token _ _ _ hrest =>
    refine ⟨hrest, (behind_cons (by simp [Token.isMark, h])).symm, ?_⟩
    rw [surplus_rightParen h]

/-- An opening parenthesis has one more to be closed. -/
theorem Leaves.enter (h : t.kind = .leftParen) (hrest : Leaves (d + 1) ts rest) :
    Leaves d (t :: ts) rest := by
  intro hts hle
  rw [surplus_leftParen h] at hle ⊢
  -- That the parenthesis is closed keeps the subtraction exact.
  cases hts with
  | semicolon hmark => simp [Token.isMark, h] at hmark
  | token _ _ paren hclosed =>
    have hpos := paren h
    obtain ⟨hcloses, hbehind, hsurplus⟩ := hrest hclosed (by omega)
    exact ⟨hcloses, hbehind.trans (behind_cons (by simp [Token.isMark, h])).symm, by omega⟩

/-- A semicolon is not reached while a parenthesis is to be closed. -/
theorem Leaves.skip (h : t.kind ≠ .rightParen) (hrest : Leaves (d + 1) ts rest) :
    Leaves (d + 1) (t :: ts) rest := by
  intro hts hle
  have hmark : t.isMark ";" = false := by
    rw [Bool.eq_false_iff]
    intro hmark
    rw [surplus_semicolon hmark] at hle
    omega
  have hall := (Leaves.pass hmark h).trans hrest
  rw [Nat.zero_add] at hall
  exact hall hts hle

end Steps

/-! ## Formulas are closed -/

/-- Tokens that can be put in front of a closed rest: it stays closed, with no more and no fewer
parentheses to close. -/
def Fits (us : List Token) : Prop :=
  ∀ rest, Closes rest → AfterWord rest →
    Closes (us ++ rest) ∧ behind (us ++ rest) = behind rest ∧ surplus (us ++ rest) = surplus rest

theorem isPart_of_kind {t : Token}
    (h : t.kind.isWord = true ∨ t.kind.isLiteral = true ∨ t.kind = .leftParen ∨
      t.kind = .rightParen) : isPart t = true := by
  rcases h with h | h | h | h <;> simp [isPart, h]

theorem afterWord_cons {t : Token} {ts : List Token} (h : t.kind.isWord = false) :
    AfterWord (t :: ts) := by
  rintro u ⟨⟩
  exact h

theorem fits_nil : Fits [] := fun _ hrest _ => ⟨hrest, rfl, rfl⟩

/-- A token that opens and closes nothing fits in front of tokens that fit, unless two words
meet. -/
theorem Fits.cons {t : Token} {us : List Token} (hus : Fits us) (ht : isPart t = true)
    (hleft : t.kind ≠ .leftParen) (hright : t.kind ≠ .rightParen)
    (hwords : t.kind.isWord = true → us = []) : Fits (t :: us) := by
  intro rest hrest hafter
  obtain ⟨hcloses, hbehind, hsurplus⟩ := hus rest hrest hafter
  have hmark := not_semicolon_of_isPart ht
  refine ⟨.token ht ?_ (fun hk => absurd hk hleft) hcloses, (behind_cons hmark).trans hbehind, ?_⟩
  · intro hword
    rw [hwords hword]
    exact hafter
  · rw [← hsurplus]
    simp [surplus, hmark, hleft, hright]

theorem Fits.append {us vs : List Token} (hus : Fits us) (hvs : Fits vs)
    (hbetween : ∀ rest, AfterWord (vs ++ rest)) : Fits (us ++ vs) := by
  intro rest hrest hafter
  obtain ⟨hcloses, hbehind, hsurplus⟩ := hvs rest hrest hafter
  obtain ⟨hcloses', hbehind', hsurplus'⟩ := hus (vs ++ rest) hcloses (hbetween rest)
  rw [List.append_assoc]
  exact ⟨hcloses', hbehind'.trans hbehind, hsurplus'.trans hsurplus⟩

/-- An operator, a dot or a comma joins tokens that fit. -/
theorem Fits.join {us vs : List Token} (hus : Fits us) (hvs : Fits vs) {t : Token}
    (ht : isPart t = true) (hk : t.kind = .operator ∨ t.kind = .punctuation) :
    Fits (us ++ t :: vs) := by
  have hword : t.kind.isWord = false := by rcases hk with hk | hk <;> rw [hk] <;> rfl
  refine hus.append ?_ fun rest => afterWord_cons hword
  refine hvs.cons ht ?_ ?_ fun h => absurd (hword.symm.trans h) Bool.false_ne_true
  all_goals rcases hk with hk | hk <;> simp [hk]

/-- Tokens in parentheses fit. -/
theorem Fits.parens {us : List Token} (hus : Fits us) {left right : Token}
    (hleft : left.kind = .leftParen) (hright : right.kind = .rightParen) :
    Fits (left :: (us ++ [right])) := by
  intro rest hrest hafter
  have hinner : ∀ t : Token, t.kind = .leftParen ∨ t.kind = .rightParen → isPart t = true :=
    fun t h => isPart_of_kind (Or.inr (Or.inr h))
  have hclosing : Closes (right :: rest) :=
    .token (hinner right (Or.inr hright)) (fun _ => hafter) (by simp [hright]) hrest
  have hword : right.kind.isWord = false := by rw [hright]; rfl
  obtain ⟨hcloses, hbehind, hsurplus⟩ := hus (right :: rest) hclosing (afterWord_cons hword)
  rw [surplus_rightParen hright] at hsurplus
  have hsplit : left :: (us ++ [right]) ++ rest = left :: (us ++ right :: rest) := by simp
  have hmarks : left.isMark ";" = false ∧ right.isMark ";" = false := by
    simp [Token.isMark, hleft, hright]
  rw [hsplit]
  have hopening : Closes (left :: (us ++ right :: rest)) :=
    .token (hinner left (Or.inl hleft)) (by simp [hleft, TokenKind.isWord]) (fun _ => by omega)
      hcloses
  refine ⟨hopening, ?_, ?_⟩
  · rw [behind_cons hmarks.1, hbehind, behind_cons hmarks.2]
  · rw [surplus_leftParen hleft, hsurplus, Nat.add_sub_cancel]

/-- Arguments with commas between them fit. -/
theorem fits_arguments {arguments : List (List (TokenKind × String))}
    (hs : ∀ a ∈ arguments, ∀ us : List Token, us.map Token.shape = a → Fits us) {us : List Token}
    (h : us.map Token.shape = List.intercalate [(.punctuation, ",")] arguments) : Fits us := by
  induction arguments generalizing us with
  | nil =>
    obtain rfl : us = [] := List.map_eq_nil_iff.1 h
    exact fits_nil
  | cons a arguments ih =>
    cases arguments with
    | nil => exact hs a List.mem_cons_self us (by simpa using h)
    | cons b arguments =>
      rw [List.intercalate_cons_cons, List.append_assoc] at h
      obtain ⟨front, back, rfl, hfront, hback⟩ := List.map_eq_append_iff.1 h
      obtain ⟨comma, back, rfl, hcomma, hback⟩ := List.map_eq_cons_iff.1 hback
      obtain ⟨hk, ht⟩ := Prod.mk.inj hcomma
      refine (hs a List.mem_cons_self front hfront).join ?_ ?_ (Or.inr hk)
      · exact ih (fun c hc => hs c (List.mem_cons_of_mem a hc)) hback
      · simp [isPart, Token.isMark, hk, ht]

/-- **Every parenthesis of a formula is closed in it.** -/
theorem IsFormula.fits {level : Level} {e : List (TokenKind × String)} (h : IsFormula level e)
    {us : List Token} (hus : us.map Token.shape = e) : Fits us := by
  induction h generalizing us with
  | name x =>
    obtain ⟨t, rfl, ht⟩ := List.map_eq_singleton_iff.1 hus
    obtain ⟨hk, -⟩ := Prod.mk.inj ht
    exact fits_nil.cons (isPart_of_kind (by simp [hk, TokenKind.isWord])) (by simp [hk])
      (by simp [hk]) fun _ => rfl
  | member h w ih =>
    obtain ⟨front, back, rfl, hfront, hback⟩ := List.map_eq_append_iff.1 hus
    obtain ⟨dot, back, rfl, hdot, hback⟩ := List.map_eq_cons_iff.1 hback
    obtain ⟨t, rfl, ht⟩ := List.map_eq_singleton_iff.1 hback
    obtain ⟨hk, htext⟩ := Prod.mk.inj hdot
    obtain ⟨hword, -⟩ := Prod.mk.inj ht
    have hone : Fits [t] := by
      have hisWord : t.kind.isWord = true := by rw [hword, w.isWord]
      refine fits_nil.cons (isPart_of_kind (Or.inl hisWord)) ?_ ?_ fun _ => rfl
      all_goals intro hparen; simp [hparen, TokenKind.isWord] at hisWord
    exact (ih hfront).join hone (by simp [isPart, Token.isMark, hk, htext]) (Or.inr hk)
  | call h hs ih ihs =>
    obtain ⟨front, back, rfl, hfront, hback⟩ := List.map_eq_append_iff.1 hus
    obtain ⟨left, back, rfl, hleft, hback⟩ := List.map_eq_cons_iff.1 hback
    obtain ⟨inner, last, rfl, hinner, hlast⟩ := List.map_eq_append_iff.1 hback
    obtain ⟨right, rfl, hright⟩ := List.map_eq_singleton_iff.1 hlast
    obtain ⟨hk, -⟩ := Prod.mk.inj hleft
    have harguments : Fits inner := fits_arguments (fun a ha us => @ihs a ha us) hinner
    have hword : left.kind.isWord = false := by rw [hk]; rfl
    exact (ih hfront).append (harguments.parens hk (Prod.mk.inj hright).1)
      fun rest => afterWord_cons hword
  | chain h ih => exact ih hus
  | literal kind text isLiteral =>
    obtain ⟨t, rfl, ht⟩ := List.map_eq_singleton_iff.1 hus
    obtain ⟨rfl, -⟩ := Prod.mk.inj ht
    refine fits_nil.cons (isPart_of_kind (Or.inr (Or.inl isLiteral))) ?_ ?_ fun _ => rfl
    all_goals intro hparen; simp [hparen, TokenKind.isLiteral] at isLiteral
  | group h ih =>
    obtain ⟨left, back, rfl, hleft, hback⟩ := List.map_eq_cons_iff.1 hus
    obtain ⟨inner, last, rfl, hinner, hlast⟩ := List.map_eq_append_iff.1 hback
    obtain ⟨right, rfl, hright⟩ := List.map_eq_singleton_iff.1 hlast
    exact (ih hinner).parens (Prod.mk.inj hleft).1 (Prod.mk.inj hright).1
  | binary h hop h' ih ih' =>
    obtain ⟨front, back, rfl, hfront, hback⟩ := List.map_eq_append_iff.1 hus
    obtain ⟨t, back, rfl, ht, hback⟩ := List.map_eq_cons_iff.1 hback
    obtain ⟨hk, htext⟩ := Prod.mk.inj ht
    exact (ih hfront).join (ih' hback) (by simp [isPart, hk, htext, hop]) (Or.inl hk)

/-- A formula is closed in front of a semicolon. -/
theorem IsFormula.closes {level : Level} {e : List (TokenKind × String)} (h : IsFormula level e)
    {us : List Token} (hus : us.map Token.shape = e) {semicolon : Token}
    (hmark : semicolon.isMark ";" = true) (rest : List Token) :
    Closes (us ++ semicolon :: rest) ∧ behind (us ++ semicolon :: rest) = rest := by
  have hword : semicolon.kind.isWord = false := by
    rw [(kind_of_isMark hmark).1]
    rfl
  obtain ⟨hcloses, hbehind, -⟩ :=
    h.fits hus (semicolon :: rest) (.semicolon hmark) (afterWord_cons hword)
  exact ⟨hcloses, hbehind.trans (behind_semicolon hmark)⟩

/-! ## Readers of names -/

theorem dottedTail_leaves (ts : List Token) : Leaves 0 ts (dottedTail ts).2 := by
  fun_induction dottedTail ts with
  | case1 dot name ts h names rest eq ih =>
    rw [eq] at ih
    rw [Bool.and_eq_true] at h
    exact ((Leaves.dot h.1).trans (.word h.2)).trans ih
  | case2 => exact .refl _
  | case3 => exact .refl _

theorem dottedName_leaves (anyWord : Bool) (ts : List Token) :
    Leaves 0 ts (dottedName anyWord ts).2 := by
  unfold dottedName
  split
  · exact .refl _
  · rename_i t ts
    split
    · rename_i hfirst
      have hword : t.kind.isWord = true := by
        rw [Bool.or_eq_true, Bool.and_eq_true, beq_iff_eq] at hfirst
        rcases hfirst with hk | ⟨-, hword⟩
        · rw [hk]
          rfl
        · exact hword
      exact (Leaves.word hword).trans (dottedTail_leaves ts)
    · exact .refl _

section Calls

variable {args : Reader (List Node)} (hargs : ∀ ts, Leaves 1 ts (args.read ts).rest)

include hargs

theorem argumentsAt_leaves (ts : List Token) : Leaves 0 ts (argumentsAt args ts).rest := by
  unfold argumentsAt
  split
  · exact .refl _
  · split
    · rename_i hparen
      exact .enter (by simpa using hparen) (hargs _)
    · exact .refl _

theorem chainedNames_leaves (ts : List Token) : Leaves 0 ts (chainedNames args ts).rest := by
  fun_induction chainedNames args ts with
  | case1 => exact .refl _
  | case2 t ts h named hn => exact (Leaves.dot h).trans (dottedName_leaves true ts)
  | case3 t ts h named hn dropped hlt more ih =>
    have hnames := (Leaves.dot h).trans (dottedName_leaves true ts)
    exact (hnames.trans (argumentsAt_leaves hargs _)).trans ih
  | case4 => exact .refl _

theorem namedOperand_leaves (ts : List Token) : Leaves 0 ts (namedOperand args ts).rest := by
  cases ts with
  | nil => exact .refl _
  | cons t ts =>
    simp only [namedOperand]
    split
    · exact dottedName_leaves false _
    · exact ((dottedName_leaves false _).trans (argumentsAt_leaves hargs _)).trans
        (chainedNames_leaves hargs _)

/-! ## Readers of expressions -/

theorem flatRun_leaves (cut : Event) (n : Nat) (ts : List Token) :
    Leaves 0 ts (flatRun args cut n ts).rest := by
  -- What does not end a run is no semicolon and closes nothing.
  have hpass : ∀ {t : Token} {ts : List Token},
      ¬ (t.kind.isBoundary || isTerminator (some t)) = true → Leaves 0 (t :: ts) ts := by
    intro t ts h
    simp only [isTerminator, Bool.or_eq_true, not_or, beq_iff_eq, Bool.not_eq_true] at h
    exact .pass h.2.1.2 h.2.1.1
  fun_induction flatRun args cut n ts with
  | case1 => exact .refl _
  | case2 => exact .refl _
  | case3 => exact .refl _
  | case4 => exact .refl _
  | case5 n t ts hend _ _ more ih => exact (hpass hend).trans ih
  | case6 n t ts _ _ _ operand more ih => exact (namedOperand_leaves hargs _).trans ih
  | case7 n t ts hend _ _ _ more ih => exact (hpass hend).trans ih
  | case8 n t ts hend => exact hpass hend

theorem readExpression_leaves (limit : Int) (ts : List Token) :
    Leaves 0 ts (readExpression limit args ts).rest := by
  unfold readExpression
  split
  · exact .refl _
  · rename_i t ts
    split
    · exact .refl _
    split
    · rename_i hnew
      have hk : t.kind = .keyword := by simp at hnew; exact hnew.1
      exact (Leaves.pass_kind (by simp [hk]) (by simp [hk])).trans (namedOperand_leaves hargs ts)
    split
    · exact namedOperand_leaves hargs _
    split
    · rename_i hplain
      refine .pass_kind ?_ ?_ <;> rintro hk <;> simp [hk, TokenKind.isLiteral] at hplain
    · exact flatRun_leaves hargs _ _ _

end Calls

/-! ## Readers of arguments -/

theorem skipParens_leaves (depth : Nat) (ts : List Token) :
    Leaves depth ts (skipParens depth ts) := by
  induction ts generalizing depth with
  | nil =>
    intro h
    cases h
  | cons t ts ih =>
    cases depth with
    | zero => exact .refl _
    | succ depth =>
      unfold skipParens
      split
      · rename_i hboundary
        intro h
        rw [h.not_isBoundary] at hboundary
        exact absurd hboundary Bool.false_ne_true
      split
      · rename_i hparen
        exact .enter (by simpa using hparen) (ih (depth + 2))
      split
      · rename_i hparen
        rw [Nat.add_comm]
        exact (Leaves.close (by simpa using hparen)).trans (ih depth)
      · rename_i hparen
        exact .skip (by simpa using hparen) (ih (depth + 1))

/-- **The arguments of a call are read through the parenthesis that closes it.** -/
theorem readArguments_leaves {expr : Reader (Option Node)}
    (hexpr : ∀ ts, Leaves 0 ts (expr.read ts).rest) (ts : List Token) :
    Leaves 1 ts ((readArguments expr).read ts).rest := by
  show Leaves 1 ts (dropRightParen (argumentsFrom expr ts).rest)
  have hends : ∀ {t : Token} {ts : List Token}, endsArguments t = true →
      Leaves 1 (t :: ts) (dropRightParen (t :: ts)) := by
    intro t ts hend h
    rw [endsArguments, h.not_isBoundary, Bool.false_or, beq_iff_eq] at hend
    rw [dropRightParen, if_pos (by simpa using hend)]
    exact Leaves.close hend h
  fun_induction argumentsFrom expr ts with
  | case1 =>
    intro h
    cases h
  | case2 t ts ht => exact hends ht
  | case3 t ts ht first hrest =>
    intro h hle
    obtain ⟨hnil, -⟩ := hexpr (t :: ts) h (Nat.zero_le _)
    rw [show (expr.read (t :: ts)).rest = [] from hrest] at hnil
    cases hnil
  | case4 t ts ht first u us hrest hu =>
    have hfirst := hexpr (t :: ts)
    rw [show (expr.read (t :: ts)).rest = u :: us from hrest] at hfirst
    exact hfirst.trans (hends hu)
  | case5 t ts ht first u us hrest hu hlt more ih =>
    have hfirst := hexpr (t :: ts)
    rw [show (expr.read (t :: ts)).rest = u :: us from hrest] at hfirst
    have hparen : u.kind ≠ .rightParen := fun hk => hu (by simp [endsArguments, hk])
    exact hfirst.trans (.skip hparen ih)

theorem argumentReader_leaves (limit : Int) (k : Nat) (ts : List Token) :
    Leaves 1 ts ((argumentReader limit k).read ts).rest := by
  induction k generalizing ts with
  | zero => exact skipParens_leaves 1 ts
  | succ k ih =>
    refine readArguments_leaves (fun us => ?_) ts
    rw [expression_eq]
    exact readExpression_leaves ih limit us

/-- **An expression stays in front of the semicolon** and closes no parenthesis that it has not
opened, however deep its calls are read. -/
theorem outerExpression_leaves (limit : Int) (ts : List Token) :
    Leaves 0 ts ((outerExpression limit).read ts).rest := by
  rw [outerExpression, expression_eq]
  exact readExpression_leaves (argumentReader_leaves limit maxCallDepth) limit ts

/-! ## What is left of a formula -/

/-- A formula assigns nothing. -/
theorem Closes.findAssignment? {ts : List Token} (h : Closes ts) : findAssignment? ts = none := by
  induction h with
  | semicolon h => simp [PageLint.findAssignment?, h]
  | @token t ts isPart _ _ _ ih =>
    have hop : (t.kind == .operator && isAssignmentOperator t.text) = false := by
      rw [Bool.eq_false_iff]
      intro hop
      simp only [Bool.and_eq_true, beq_iff_eq] at hop
      simp [Written.isPart, Token.isMark, hop, TokenKind.isWord, TokenKind.isLiteral] at isPart
    rw [PageLint.findAssignment?, not_isBoundary_of_isPart isPart,
      not_semicolon_of_isPart isPart, hop, ih]
    rfl

/-- Tokens in front of the semicolon, or those behind it. -/
def Within (ts rest : List Token) : Prop :=
  Closes rest ∧ behind rest = behind ts ∨ rest = behind ts

/-- A statement may take the semicolon with it. -/
theorem Leaves.within {ts rest : List Token} (h : Leaves 0 ts rest) (hts : Closes ts) :
    Within ts (dropSemicolon rest) := by
  obtain ⟨hrest, hbehind, -⟩ := h hts (Nat.zero_le _)
  cases hrest with
  | @semicolon t us hmark =>
    rw [behind_semicolon hmark] at hbehind
    rw [dropSemicolon, if_pos hmark]
    exact Or.inr hbehind
  | @token t us isPart word paren rest =>
    refine Or.inl ?_
    rw [dropSemicolon, if_neg (by simp [not_semicolon_of_isPart isPart])]
    exact ⟨.token isPart word paren rest, hbehind⟩

/-- A node that tokens give as a value. -/
def IsValue (limit : Int) (n : Node) : Prop := ∃ us, OuterValue limit us n

theorem isValue_of_laid {limit : Int} {ts rest : List Token} {ns : List Node}
    (h : Laid (OuterValue limit) ts rest ns) : ∀ n ∈ ns, IsValue limit n := by
  obtain ⟨taken, -, along⟩ := h
  intro n hn
  obtain ⟨piece, -, form⟩ := along.exists_piece n hn
  exact ⟨piece, form⟩

/-- A word that no word follows declares nothing. -/
theorem readStatement?_word (config : Config) {t u : Token} (hk : t.kind = .keyword)
    (hu : u.kind.isWord = false) (us : List Token) :
    readStatement? config t (u :: us) = some { rest := u :: us } ∨
      readStatement? config t (u :: us) =
        let value := (outerExpression config.maxExpressionTokens).read (t :: u :: us)
        some {
          statements := value.value.toList
          events := value.events
          rest := dropSemicolon value.rest } := by
  have hdeclaration : ∀ build : Identifier → Option Node → Node,
      readDeclaration config.maxExpressionTokens build (u :: us) = { rest := u :: us } := by
    intro build
    simp [readDeclaration, hu]
  have hfunction : readFunction? config.maxExpressionTokens t (u :: us) =
      some { rest := u :: us } := by
    simp [readFunction?, hu]
  have hi : (t.kind == .identifier) = false := by simp [hk]
  simp only [readStatement?, readSimple?, hdeclaration, hfunction, hi]
  by_cases hdeclares : (t.text == "let" || t.text == "var") = true ∨ t.text = "const"
  · refine Or.inl ?_
    rcases hdeclares with hword | hword <;> simp [hk, hword]
  by_cases hnames : t.text = "function"
  · exact Or.inl (by simp [hk, hnames])
  by_cases hstarts : t.text ∈ config.expressionKeywords
  · exact Or.inr (by simp_all)
  · exact Or.inl (by simp_all)

/-- **A statement in what is left of a formula gives a value or nothing.** -/
theorem readStatement?_leftover (config : Config) {t : Token} {ts : List Token}
    (h : Closes (t :: ts)) (hmark : t.isMark ";" = false) :
    ∃ found, readStatement? config t ts = some found ∧ Within (t :: ts) found.rest ∧
      ∀ n ∈ found.statements, IsValue config.maxExpressionTokens n := by
  have hvalue := isValue_of_laid (expression_laid config.maxExpressionTokens maxCallDepth (t :: ts))
  have hwithin := (outerExpression_leaves config.maxExpressionTokens (t :: ts)).within h
  cases h with
  | semicolon hs => exact absurd (hmark.symm.trans hs) Bool.false_ne_true
  | token isPart word paren rest =>
    have hpass : Within (t :: ts) ts := Or.inl ⟨rest, (behind_cons hmark).symm⟩
    by_cases hi : t.kind = .identifier
    · have hlinks : assignmentLinks (t :: ts) = ([], t :: ts) := by
        rw [assignmentLinks, if_pos (by simp [hi])]
        split
        · rfl
        · rename_i hfound
          rw [rest.findAssignment?] at hfound
          cases hfound
      refine ⟨readAssignment config.maxExpressionTokens (t :: ts), ?_, ?_⟩
      · simp [readStatement?, readSimple?, hi]
      · rw [readAssignment, hlinks]
        exact ⟨hwithin, hvalue⟩
    by_cases hk : t.kind = .keyword
    · obtain ⟨u, us, rfl⟩ : ∃ u us, ts = u :: us := by
        cases rest with
        | semicolon => exact ⟨_, _, rfl⟩
        | token => exact ⟨_, _, rfl⟩
      have hu : u.kind.isWord = false := word (by simp [hk, TokenKind.isWord]) u rfl
      rcases readStatement?_word config hk hu us with hread | hread
      · exact ⟨_, hread, hpass, by simp⟩
      · exact ⟨_, hread, hwithin, hvalue⟩
    · exact ⟨_, readStatement?_of_other config hk hi ts, hpass, by simp⟩

/-- **What is left of a formula gives values only**, and then come the statements behind the
semicolon. -/
theorem harvestOf_leftover {config : Config} (hlimit : 1 ≤ config.maxExpressionTokens)
    {ts : List Token} (hinside : Inside ts) (h : Closes ts) :
    ∃ values : List Node, (harvestOf config ts).statements
        = values ++ (harvestOf config (behind ts)).statements ∧
      ∀ n ∈ values, IsValue config.maxExpressionTokens n := by
  match ts, h with
  | t :: ts, h =>
    by_cases hmark : t.isMark ";" = true
    · have hkind : t.kind = .punctuation := (kind_of_isMark hmark).1
      have hread := @readStatement?_of_other config t (by simp [hkind]) (by simp [hkind]) ts
      rw [harvestOf_statement hlimit hinside hread, behind_semicolon hmark]
      exact ⟨[], rfl, by simp⟩
    · obtain ⟨found, hread, hwithin, hvalues⟩ :=
        readStatement?_leftover config h (by simpa using hmark)
      have hsuffix : found.rest <:+ ts := readStatement?_suffix_tail hlimit hread
      have hlt : found.rest.length < (t :: ts).length := Nat.lt_succ_of_le hsuffix.length_le
      rw [harvestOf_statement hlimit hinside hread]
      rcases hwithin with ⟨hcloses, hbehind⟩ | hbehind
      · obtain ⟨values, hstatements, hmore⟩ :=
          harvestOf_leftover hlimit (hinside.tail.of_suffix hsuffix) hcloses
        refine ⟨found.statements ++ values, ?_, List.forall_mem_append.2 ⟨hvalues, hmore⟩⟩
        rw [Harvest.append, hstatements, hbehind, List.append_assoc]
      · refine ⟨found.statements, ?_, hvalues⟩
        rw [Harvest.append, hbehind]
termination_by ts.length
decreasing_by exact hlt

theorem Within.harvestOf {config : Config} (hlimit : 1 ≤ config.maxExpressionTokens)
    {ts rest : List Token} (h : Within ts rest) (hinside : Inside rest) :
    ∃ values : List Node, (PageLint.harvestOf config rest).statements
        = values ++ (PageLint.harvestOf config (behind ts)).statements ∧
      ∀ n ∈ values, IsValue config.maxExpressionTokens n := by
  rcases h with ⟨hcloses, hbehind⟩ | rfl
  · rw [← hbehind]
    exact harvestOf_leftover hlimit hinside hcloses
  · exact ⟨[], rfl, List.forall_mem_nil _⟩

end PageLint.Written
