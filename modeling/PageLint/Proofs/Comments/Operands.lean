import PageLint.Proofs.Comments.Places

/-!
# Operands and comments

A token list whose comments are well placed inside a statement is read like the list without them:
the value is the same, and what is left is the same but for comments. This is said here of names,
calls and flat runs, given that it holds of the reader of arguments.

The two sides do not go in step. At a comment a reader stops, or takes the comment and stops; the
other side stops at the token behind it, because that token closes. The lemmas `*_closes` say so.

* `namedOperand_agree` — a dotted name or a call, and what is chained to it
* `flatRun_agree` — operands and operators up to the end of an expression
-/

namespace PageLint

/-- Two readings give the same value and leave the same tokens but for comments, which are well
placed at the given place. -/
structure Reading.Agree {α : Type} (spot : Spot) (r r' : Reading α) : Prop where
  value : r'.value = r.value
  rest : r'.rest = withoutComments r.rest
  placed : placed spot r.rest = true

/-! ## Stopping at a token that closes -/

/-- Whether a list is empty or starts with a comment or a token that closes. -/
def stops (ts : List Token) : Bool := ts.head?.all fun t => t.isComment || t.closes

theorem stops_of_closesNext {ts : List Token} (h : closesNext ts = true) :
    stops (withoutComments ts) = true ∧ stops ts = true := by
  constructor
  · unfold closesNext at h
    unfold stops
    cases hw : (withoutComments ts).head? with
    | none => rfl
    | some t => simp_all
  · cases ts with
    | nil => rfl
    | cons t ts =>
      by_cases hc : t.isComment = true
      · simp [stops, hc]
      · rw [closesNext_cons (by simpa using hc)] at h
        simp [stops, h]

/-- The kinds of token at which a reader stops. -/
theorem kind_of_stops {t : Token} {ts : List Token} (h : stops (t :: ts) = true) :
    t.kind = .comment ∨ t.kind = .rightParen ∨ t.kind = .rightBrace ∨ t.kind = .scriptClose ∨
      t.kind = .eof ∨ t.kind = .punctuation ∧ t.text ≠ "." ∨
      t.kind = .operator ∧ isAssignmentOperator t.text = true ∧ t.text ≠ "=" := by
  unfold stops Token.closes Token.isComment at h
  cases hk : t.kind <;> simp [hk] at h ⊢
  · exact h
  · rcases h with h | h <;> simp [h]

section Stops

variable {ts : List Token} (h : stops ts = true)

include h

theorem goesOn_closes : goesOn ts = false := by
  cases ts with
  | nil => rfl
  | cons t ts =>
    rcases kind_of_stops h with hk | hk | hk | hk | hk | ⟨hk, ht⟩ | ⟨hk, -⟩ <;>
      simp [goesOn, Token.isMark, *]

theorem dottedTail_closes : dottedTail ts = ([], ts) := by
  match ts with
  | [] => rfl
  | [_] => rfl
  | t :: u :: ts =>
    have hdot : t.isMark "." = false := by
      have := goesOn_closes h
      simp only [goesOn, Bool.or_eq_false_iff] at this
      exact this.1
    rw [dottedTail, hdot]
    rfl

theorem dottedName_closes (anyWord : Bool) : dottedName anyWord ts = ([], ts) := by
  cases ts with
  | nil => rfl
  | cons t ts =>
    rcases kind_of_stops h with hk | hk | hk | hk | hk | ⟨hk, -⟩ | ⟨hk, -⟩ <;>
      simp [dottedName, TokenKind.isWord, hk]

theorem argumentsAt_closes (args : Reader (List Node)) :
    argumentsAt args ts = { value := none, rest := ts } := by
  cases ts with
  | nil => rfl
  | cons t ts =>
    rcases kind_of_stops h with hk | hk | hk | hk | hk | ⟨hk, -⟩ | ⟨hk, -⟩ <;>
      simp [argumentsAt, hk]

theorem chainedNames_closes (args : Reader (List Node)) :
    chainedNames args ts = { value := [], rest := ts } := by
  cases ts with
  | nil => rw [chainedNames]
  | cons t ts =>
    have := goesOn_closes h
    simp only [goesOn, Bool.or_eq_false_iff] at this
    rw [chainedNames, this.1]
    rfl

theorem namedOperand_closes (args : Reader (List Node)) :
    (namedOperand args ts).value = none ∧ (namedOperand args ts).rest = ts := by
  cases ts with
  | nil => exact ⟨rfl, rfl⟩
  | cons t ts =>
    rw [namedOperand, dottedName_closes h]
    exact ⟨rfl, rfl⟩

end Stops

/-- A flat run takes nothing at a token that closes. -/
theorem flatRun_closes {ts : List Token} (hn : ∀ t ∈ ts.head?, t.closes = true)
    (args : Reader (List Node)) (cut : Event) (n : Nat) :
    (flatRun args cut n ts).value = ([], []) ∧ (flatRun args cut n ts).rest = ts := by
  cases n with
  | zero => exact ⟨rfl, rfl⟩
  | succ n =>
    cases ts with
    | nil => exact ⟨rfl, rfl⟩
    | cons t ts =>
      have ht : t.closes = true := hn t rfl
      have hcases : (t.kind.isBoundary || isTerminator (some t)) = true ∨
          t.kind = .operator ∧ isAssignmentOperator t.text = true := by
        unfold Token.closes at ht
        cases hk : t.kind <;> simp_all [TokenKind.isBoundary, isTerminator, Token.isMark]
      rw [flatRun]
      rcases hcases with hc | ⟨hop, hassign⟩
      · rw [if_pos hc]
        exact ⟨rfl, rfl⟩
      · have hc : (t.kind.isBoundary || isTerminator (some t)) = false := by
          simp [hop, TokenKind.isBoundary, isTerminator, Token.isMark]
        rw [hc, hop, hassign]
        exact ⟨rfl, rfl⟩

/-! ## Tokens inside a statement -/

/-- Whether a token has its place in expressions and is not a parenthesis. -/
def Token.isInner (t : Token) : Bool :=
  t.kind.isWord || t.kind.isLiteral || t.kind == .operator || t.isMark "."

section Inner

variable {depth : Nat} {t : Token} {ts : List Token}

theorem isInner_of_word (h : t.kind.isWord = true) : t.isInner = true := by
  simp [Token.isInner, h]

theorem isInner_of_dot (h : t.isMark "." = true) : t.isInner = true := by
  simp [Token.isInner, h]

theorem isComment_of_inner (h : t.isInner = true) : t.isComment = false := by
  unfold Token.isInner Token.isMark at h
  cases hk : t.kind <;>
    simp_all [Token.isComment, TokenKind.isWord, TokenKind.isLiteral]

theorem placed_within_inner (h : t.isInner = true) :
    placed (.within depth) (t :: ts) = placed (.within depth) ts := by
  have hc := isComment_of_inner h
  have ⟨hb, hp, hf⟩ : t.kind.isBoundary = false ∧ t.kind ≠ .leftParen ∧ t.isForeign = false := by
    unfold Token.isInner Token.isMark at h
    cases hk : t.kind <;>
      simp_all [TokenKind.isBoundary, Token.isForeign, TokenKind.isWord, TokenKind.isLiteral]
  have he : t.kind ≠ .eof := by
    intro he
    simp [he, TokenKind.isBoundary] at hb
  rw [placed_cons hc he, next_within hb, afterInner_inner hp hf]

theorem placed_within_comment (ht : t.isComment = true)
    (h : placed (.within depth) (t :: ts) = true) :
    closesNext ts = true ∧ placed (.within depth) ts = true := by
  rw [placed_comment ht] at h
  simpa [Spot.allows] using h

theorem placed_within_leftParen (ht : t.kind = .leftParen) :
    placed (.within depth) (t :: ts) = placed (.within (depth + 1)) ts := by
  have hc : t.isComment = false := by simp [Token.isComment, ht]
  rw [placed_cons hc (by simp [ht]), next_within (by simp [ht, TokenKind.isBoundary])]
  simp [Spot.afterInner, ht]

theorem placed_within_rightParen (ht : t.kind = .rightParen) :
    placed (.within (depth + 1)) (t :: ts) = placed (.within depth) ts := by
  have hc : t.isComment = false := by simp [Token.isComment, ht]
  rw [placed_cons hc (by simp [ht]), next_within (by simp [ht, TokenKind.isBoundary])]
  simp [Spot.afterInner, ht]

end Inner

/-! ## Names -/

section Names

variable {depth : Nat} {ts : List Token}

theorem goesOn_withoutComments (h : placed (.within depth) ts = true) :
    goesOn (withoutComments ts) = goesOn ts := by
  cases ts with
  | nil => rfl
  | cons t ts =>
    by_cases hc : t.isComment = true
    · obtain ⟨hclose, -⟩ := placed_within_comment hc h
      rw [withoutComments_comment hc, goesOn_closes (stops_of_closesNext hclose).1,
        goesOn_closes (by simp [stops, hc])]
    · rw [withoutComments_cons (by simpa using hc)]
      rfl

theorem dottedTail_agree (h : placed (.within depth) ts = true) :
    dottedTail (withoutComments ts) = ((dottedTail ts).1, withoutComments (dottedTail ts).2) ∧
      placed (.within depth) (dottedTail ts).2 = true := by
  fun_induction dottedTail ts with
  | case1 dot name ts hd names rest eq ih =>
    rw [Bool.and_eq_true] at hd
    have hdot := isInner_of_dot hd.1
    have hname := isInner_of_word hd.2
    rw [placed_within_inner hdot, placed_within_inner hname] at h
    rw [eq] at ih
    obtain ⟨hrest, hplaced⟩ := ih h
    refine ⟨?_, hplaced⟩
    rw [withoutComments_cons (isComment_of_inner hdot),
      withoutComments_cons (isComment_of_inner hname), dottedTail, hd.1, hd.2, hrest]
    rfl
  | case2 dot name ts hd =>
    refine ⟨?_, h⟩
    by_cases hc : dot.isComment = true
    · obtain ⟨hclose, -⟩ := placed_within_comment hc h
      rw [withoutComments_comment hc]
      exact dottedTail_closes (stops_of_closesNext hclose).1
    · rw [withoutComments_cons (by simpa using hc)]
      by_cases hdot : dot.isMark "." = true
      · rw [placed_within_inner (isInner_of_dot hdot)] at h
        -- After a dot only a word counts, and neither a comment nor what closes is one.
        by_cases hn : name.isComment = true
        · obtain ⟨hclose, -⟩ := placed_within_comment hn h
          rw [withoutComments_comment hn]
          have hstops := (stops_of_closesNext hclose).1
          cases hw : withoutComments ts with
          | nil => rfl
          | cons u us =>
            rw [hw] at hstops
            have hword : u.kind.isWord = false := by
              rcases kind_of_stops hstops with hk | hk | hk | hk | hk | ⟨hk, -⟩ | ⟨hk, -⟩ <;>
                simp [TokenKind.isWord, hk]
            rw [dottedTail, hword, Bool.and_false]
            rfl
        · rw [withoutComments_cons (by simpa using hn), dottedTail, if_neg hd]
      · cases withoutComments (name :: ts) with
        | nil => rfl
        | cons u us =>
          rw [dottedTail, (by simpa using hdot : dot.isMark "." = false)]
          rfl
  | case3 ts hshort =>
    refine ⟨?_, h⟩
    match ts with
    | [] => rfl
    | [t] =>
      by_cases hc : t.isComment = true
      · rw [withoutComments_comment hc]
        rfl
      · rw [withoutComments_cons (by simpa using hc)]
        rfl
    | t :: u :: ts => exact absurd rfl (hshort t u ts)

theorem dottedName_agree (anyWord : Bool) (h : placed (.within depth) ts = true) :
    dottedName anyWord (withoutComments ts) =
        ((dottedName anyWord ts).1, withoutComments (dottedName anyWord ts).2) ∧
      placed (.within depth) (dottedName anyWord ts).2 = true := by
  cases ts with
  | nil => exact ⟨rfl, rfl⟩
  | cons t ts =>
    by_cases hc : t.isComment = true
    · obtain ⟨hclose, -⟩ := placed_within_comment hc h
      have hstops : stops (t :: ts) = true := by simp [stops, hc]
      rw [dottedName_closes hstops, withoutComments_comment hc,
        dottedName_closes (stops_of_closesNext hclose).1]
      exact ⟨rfl, h⟩
    · rw [withoutComments_cons (by simpa using hc), dottedName, dottedName]
      split
      · rename_i hname
        have hword : t.kind.isWord = true := by
          rw [Bool.or_eq_true, beq_iff_eq, Bool.and_eq_true] at hname
          rcases hname with hk | ⟨-, hw⟩
          · simp [TokenKind.isWord, hk]
          · exact hw
        rw [placed_within_inner (isInner_of_word hword)] at h
        obtain ⟨htail, hplaced⟩ := dottedTail_agree h
        rw [htail]
        exact ⟨rfl, hplaced⟩
      · exact ⟨by rw [withoutComments_cons (by simpa using hc)], h⟩

end Names

/-! ## Calls -/

/-- A reader of arguments agrees with itself on the tokens without comments. It takes the closing
parenthesis. -/
def Reader.ArgumentsAgree (args : Reader (List Node)) : Prop :=
  ∀ depth ts, placed (.within (depth + 1)) ts = true →
    Reading.Agree (.within depth) (args.read ts) (args.read (withoutComments ts))

/-- What is chained with a dot is a name, arguments to drop and a further chain. -/
theorem chainedNames_dot (args : Reader (List Node)) {t : Token} (hdot : t.isMark "." = true)
    (ts : List Token) :
    chainedNames args (t :: ts) =
      if (dottedName true ts).1.isEmpty then { value := [], rest := (dottedName true ts).2 }
      else
        let dropped := argumentsAt args (dottedName true ts).2
        let more := chainedNames args dropped.rest
        { value := (dottedName true ts).1 ++ more.value
          events := dropped.events ++ more.events
          rest := more.rest } := by
  rw [chainedNames, hdot]
  rfl

section Calls

variable {args : Reader (List Node)} (hargs : args.ArgumentsAgree) {depth : Nat} {ts : List Token}

include hargs

theorem argumentsAt_agree (h : placed (.within depth) ts = true) :
    Reading.Agree (.within depth) (argumentsAt args ts) (argumentsAt args (withoutComments ts)) := by
  cases ts with
  | nil => exact ⟨rfl, rfl, rfl⟩
  | cons t ts =>
    by_cases hc : t.isComment = true
    · obtain ⟨hclose, -⟩ := placed_within_comment hc h
      have hstops : stops (t :: ts) = true := by simp [stops, hc]
      rw [argumentsAt_closes hstops, withoutComments_comment hc,
        argumentsAt_closes (stops_of_closesNext hclose).1]
      exact ⟨rfl, (withoutComments_comment hc ts).symm, h⟩
    · have hc : t.isComment = false := by simpa using hc
      rw [withoutComments_cons hc, argumentsAt, argumentsAt]
      split
      · rename_i hp
        rw [placed_within_leftParen (by simpa using hp)] at h
        have hagree := hargs depth ts h
        exact ⟨congrArg some hagree.value, hagree.rest, hagree.placed⟩
      · exact ⟨rfl, (withoutComments_cons hc ts).symm, h⟩

theorem chainedNames_agree (h : placed (.within depth) ts = true) :
    Reading.Agree (.within depth) (chainedNames args ts)
      (chainedNames args (withoutComments ts)) := by
  fun_induction chainedNames args ts with
  | case1 =>
    rw [withoutComments_nil, chainedNames]
    exact ⟨rfl, rfl, rfl⟩
  | case2 t ts hdot named hn =>
    have hin := isInner_of_dot hdot
    rw [placed_within_inner hin] at h
    obtain ⟨hnamed, hplaced⟩ := dottedName_agree true h
    rw [withoutComments_cons (isComment_of_inner hin), chainedNames_dot args hdot, hnamed,
      if_pos hn]
    exact ⟨rfl, rfl, hplaced⟩
  | case3 t ts hdot named hn dropped hlt more ih =>
    have hin := isInner_of_dot hdot
    rw [placed_within_inner hin] at h
    obtain ⟨hnamed, hplaced⟩ := dottedName_agree true h
    have hdropped : Reading.Agree (.within depth) dropped
        (argumentsAt args (withoutComments named.2)) := argumentsAt_agree hargs hplaced
    have hmore := ih hdropped.placed
    rw [← hdropped.rest] at hmore
    rw [withoutComments_cons (isComment_of_inner hin), chainedNames_dot args hdot, hnamed,
      if_neg hn]
    exact ⟨congrArg (named.1 ++ ·) hmore.value, hmore.rest, hmore.placed⟩
  | case4 t ts hdot =>
    by_cases hc : t.isComment = true
    · obtain ⟨hclose, -⟩ := placed_within_comment hc h
      rw [withoutComments_comment hc, chainedNames_closes (stops_of_closesNext hclose).1]
      exact ⟨rfl, (withoutComments_comment hc ts).symm, h⟩
    · have hc : t.isComment = false := by simpa using hc
      rw [withoutComments_cons hc, chainedNames, if_neg hdot]
      exact ⟨rfl, (withoutComments_cons hc ts).symm, h⟩

theorem namedOperand_agree (h : placed (.within depth) ts = true) :
    Reading.Agree (.within depth) (namedOperand args ts)
      (namedOperand args (withoutComments ts)) := by
  cases ts with
  | nil => exact ⟨rfl, rfl, rfl⟩
  | cons t ts =>
    by_cases hc : t.isComment = true
    · obtain ⟨hclose, -⟩ := placed_within_comment hc h
      have hstops : stops (t :: ts) = true := by simp [stops, hc]
      obtain ⟨hvalue, hrest⟩ := namedOperand_closes hstops args
      rw [withoutComments_comment hc]
      obtain ⟨hvalue', hrest'⟩ := namedOperand_closes (stops_of_closesNext hclose).1 args
      refine ⟨by rw [hvalue, hvalue'], ?_, by rw [hrest]; exact h⟩
      rw [hrest, hrest', withoutComments_comment hc]
    · have hc : t.isComment = false := by simpa using hc
      obtain ⟨hnames, hplaced⟩ := dottedName_agree false h
      rw [withoutComments_cons hc] at hnames ⊢
      have hcalled := argumentsAt_agree hargs hplaced
      have hchained := chainedNames_agree hargs hcalled.placed
      simp only [namedOperand, hnames]
      split
      · exact ⟨rfl, rfl, hplaced⟩
      · rw [← hcalled.rest] at hchained
        refine ⟨?_, hchained.rest, hchained.placed⟩
        rw [hchained.value, hcalled.value]

end Calls

/-! ## Flat runs -/

/-- The place after an expression: outside all calls the statement is over. -/
def Spot.leaving : Nat → Spot
  | 0 => between
  | depth + 1 => within (depth + 1)

section FlatRuns

variable {depth : Nat} {t : Token} {ts : List Token}

theorem placed_leaving (h : placed (.within depth) ts = true) :
    placed (Spot.leaving depth) ts = true := by
  cases depth with
  | zero => exact (placedInside h).between
  | succ depth => exact h

/-- The place after a token that an expression takes. -/
theorem placed_leaving_tail (hc : t.isComment = false) (hb : t.kind.isBoundary = false)
    (hr : t.kind ≠ .rightParen) (h : placed (.within depth) (t :: ts) = true) :
    placed (Spot.leaving depth) ts = true := by
  have he : t.kind ≠ .eof := by
    intro he
    simp [he, TokenKind.isBoundary] at hb
  rw [placed_cons hc he, next_within hb] at h
  by_cases hp : t.kind = .leftParen
  · simp only [Spot.afterInner, hp, beq_self_eq_true, if_true] at h
    exact placed_leaving ((placedInside h).within depth (Nat.le_succ depth))
  · cases depth with
    | zero =>
      rcases afterInner_cases 0 t ts with ⟨e, heq⟩ | ⟨heq, -⟩
      · rw [heq] at h; exact (placedInside h).between
      · rw [heq] at h; exact h
    | succ depth =>
      simp only [Spot.afterInner, hp, hr, beq_iff_eq, if_false] at h
      exact h

/-- A flat run takes a comment and ends. -/
theorem flatRun_comment (hc : t.isComment = true) (args : Reader (List Node)) (cut : Event)
    (n : Nat) (ts : List Token) :
    flatRun args cut (n + 1) (t :: ts) = { value := ([], []), rest := ts } := by
  have hk : t.kind = .comment := by simpa [Token.isComment] using hc
  simp [flatRun, hk, TokenKind.isBoundary, isTerminator, Token.isMark, TokenKind.isLiteral]

theorem head_closes (h : closesNext ts = true) :
    ∀ t ∈ (withoutComments ts).head?, t.closes = true := by
  intro t ht
  rw [closesNext, Option.mem_def.1 ht] at h
  exact h

theorem flatRun_agree {args : Reader (List Node)} (hargs : args.ArgumentsAgree) (cut : Event)
    (n : Nat) (h : placed (.within depth) ts = true) :
    Reading.Agree (Spot.leaving depth) (flatRun args cut n ts)
      (flatRun args cut n (withoutComments ts)) := by
  induction n generalizing ts with
  | zero => exact ⟨rfl, rfl, placed_leaving h⟩
  | succ n ih =>
    cases ts with
    | nil => exact ⟨rfl, rfl, placed_leaving h⟩
    | cons t ts =>
      by_cases hc : t.isComment = true
      · obtain ⟨hclose, hplaced⟩ := placed_within_comment hc h
        rw [flatRun_comment hc, withoutComments_comment hc]
        obtain ⟨hvalue, hrest⟩ := flatRun_closes (head_closes hclose) args cut (n + 1)
        exact ⟨hvalue, hrest, placed_leaving hplaced⟩
      · have hc : t.isComment = false := by simpa using hc
        have hcons := withoutComments_cons hc ts
        have hoperand := namedOperand_agree hargs h
        rw [hcons] at hoperand ⊢
        rw [flatRun, flatRun]
        split
        · exact ⟨rfl, hcons.symm, placed_leaving h⟩
        rename_i hend
        rw [Bool.or_eq_true, not_or, Bool.not_eq_true, Bool.not_eq_true] at hend
        split
        · rename_i hop
          split
          · exact ⟨rfl, hcons.symm, placed_leaving h⟩
          · rw [placed_within_inner (by simp [Token.isInner, hop])] at h
            have hmore := ih h
            exact ⟨by simp only [hmore.value], hmore.rest, hmore.placed⟩
        split
        · rename_i hcall
          rw [Bool.and_eq_true, beq_iff_eq] at hcall
          have hin : t.isInner = true := by simp [Token.isInner, TokenKind.isWord, hcall.1]
          rw [placed_within_inner hin] at h
          rw [goesOn_withoutComments h, hcall.1, hcall.2]
          have hmore := ih hoperand.placed
          rw [← hoperand.rest] at hmore
          exact ⟨by simp [hoperand.value, hmore.value], hmore.rest, hmore.placed⟩
        rename_i hop hcall
        by_cases hlit : (t.kind == .identifier || t.kind.isLiteral) = true
        · have hin : t.isInner = true := by
            rw [Bool.or_eq_true, beq_iff_eq] at hlit
            rcases hlit with hk | hk <;> simp [Token.isInner, TokenKind.isWord, hk]
          rw [placed_within_inner hin] at h
          rw [goesOn_withoutComments h, if_neg hcall, if_pos hlit, if_pos hlit]
          have hmore := ih h
          exact ⟨by simp only [hmore.value], hmore.rest, hmore.placed⟩
        · have hid : (t.kind == .identifier) = false := by
            rw [Bool.or_eq_true, not_or, Bool.not_eq_true] at hlit
            exact hlit.1
          -- The token has no place in an expression: it is taken and ends the run.
          rw [if_neg hlit, hid, Bool.false_and, if_neg Bool.false_ne_true,
            if_neg (by simpa [hid] using hlit)]
          refine ⟨rfl, rfl, placed_leaving_tail hc hend.1 ?_ h⟩
          intro hr
          simp [isTerminator, hr] at hend

end FlatRuns

end PageLint
