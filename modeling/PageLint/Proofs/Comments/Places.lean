import PageLint.Reading.Statement

/-!
# Where comments may stand

Comments stay among the tokens of a script, and most of the readers stop at them. This module says
where a comment stands in nobody's way, by going over the tokens once and keeping in mind only what
part of a statement they are in.

* Outside scripts and between statements comments are passed over.
* The target of an assignment is joined from its tokens without comments.
* Anywhere else a comment ends what is being read. That makes no difference where it would end at
  the next token in any case, which is then one that closes (`Token.closes`).

`placedInside` says that a place deeper inside a statement allows less.
-/

namespace PageLint

/-! ## Comments among tokens -/

/-- Whether a token is a comment. -/
def Token.isComment (t : Token) : Bool := t.kind == .comment

/-- Tokens without the comments among them. -/
def withoutComments (ts : List Token) : List Token := ts.filter fun t => !t.isComment

@[simp] theorem withoutComments_nil : withoutComments [] = [] := rfl

theorem withoutComments_comment {t : Token} (ht : t.isComment = true) (ts : List Token) :
    withoutComments (t :: ts) = withoutComments ts := by
  simp [withoutComments, ht]

theorem withoutComments_cons {t : Token} (ht : t.isComment = false) (ts : List Token) :
    withoutComments (t :: ts) = t :: withoutComments ts := by
  simp [withoutComments, ht]

/-- Whether whatever is being read ends at a token, which is not the start of a body or of an
initial value. -/
def Token.closes (t : Token) : Bool :=
  match t.kind with
  | .rightParen | .rightBrace | .scriptClose | .eof => true
  | .punctuation => t.text == ";" || t.text == ","
  | .operator => isAssignmentOperator t.text && t.text != "="
  | _ => false

/-- Whether the first token after any comments closes, or there is none. -/
def closesNext (ts : List Token) : Bool := (withoutComments ts).head?.all Token.closes

theorem closesNext_comment {t : Token} (ht : t.isComment = true) (ts : List Token) :
    closesNext (t :: ts) = closesNext ts := by
  rw [closesNext, withoutComments_comment ht, closesNext]

theorem closesNext_cons {t : Token} (ht : t.isComment = false) (ts : List Token) :
    closesNext (t :: ts) = t.closes := by
  rw [closesNext, withoutComments_cons ht]
  rfl

theorem closesNext_withoutComments (ts : List Token) :
    closesNext (withoutComments ts) = closesNext ts := by
  simp [closesNext, withoutComments]

/-! ## Places -/

/-- What part of a page or statement the next token is in. -/
inductive Spot where
  /-- Outside scripts. -/
  | markup
  /-- Between two statements of a script. -/
  | between
  /-- In the target of an assignment. -/
  | target
  /-- Right after the operator of an assignment. -/
  | value
  /-- Elsewhere in a statement, behind a number of open parentheses. -/
  | within (depth : Nat)
  deriving DecidableEq, Repr

/-- Whether a token that has no place in expressions ends a statement outside its calls. -/
def Token.isForeign (t : Token) : Bool :=
  match t.kind with
  | .punctuation => t.text != "."
  | .rightParen | .leftBracket | .rightBracket => true
  | .doctype | .tagOpen | .tagClose | .text | .scriptOpen => true
  | _ => false

/-- Whether a token is a keyword that starts a statement of more than one token. -/
def Token.isStarter (t : Token) : Bool :=
  t.kind == .keyword && ["let", "var", "const", "function", "new"].contains t.text

namespace Spot

/-- Whether comments are passed over, whatever follows. -/
def allows : Spot → Bool
  | markup | between | target => true
  | value | within _ => false

/-- The place after an identifier that may start an assignment. -/
def afterName (ts : List Token) : Spot :=
  if (findAssignment? ts).isSome then target else within 0

/-- The place after a token in a statement. A statement is over for certain only when no assignment
operator follows, because the target of an assignment takes tokens of any kind. -/
def afterInner (depth : Nat) (t : Token) (ts : List Token) : Spot :=
  if t.kind == .leftParen then within (depth + 1)
  else
    match depth with
    | 0 =>
      if t.isMark ";" || (t.isForeign && (findAssignment? ts).isNone) then between else within 0
    | depth + 1 => if t.kind == .rightParen then within depth else within (depth + 1)

/-- The place after a token of a script that is followed by others. -/
def after (spot : Spot) (t : Token) (ts : List Token) : Spot :=
  if t.kind == .scriptClose then markup
  else if t.kind == .leftBrace || t.kind == .rightBrace then between
  else
    match spot with
    | markup => markup
    | between =>
      if t.kind == .identifier then afterName ts else if t.isStarter then within 0 else between
    | target => if t.kind == .operator && isAssignmentOperator t.text then value else target
    | value => if t.kind == .identifier then afterName ts else afterInner 0 t ts
    | within depth => afterInner depth t ts

/-- The place after a token that is followed by others. -/
def next (spot : Spot) (t : Token) (ts : List Token) : Spot :=
  match spot with
  | markup => if t.kind == .scriptOpen then between else markup
  | spot => spot.after t ts

end Spot

/-- Whether every comment up to the end of the input is well placed, when the first token is at a
given place. -/
def placed : Spot → List Token → Bool
  | _, [] => true
  | spot, t :: ts =>
    if t.kind == .eof then true
    else if t.isComment then (spot.allows || closesNext ts) && placed spot ts
    else placed (spot.next t ts) ts

section Placed

variable {t : Token} {ts : List Token}

theorem placed_eof (ht : t.kind = .eof) (spot : Spot) : placed spot (t :: ts) = true := by
  simp [placed, ht]

theorem placed_comment (ht : t.isComment = true) (spot : Spot) :
    placed spot (t :: ts) = ((spot.allows || closesNext ts) && placed spot ts) := by
  have he : t.kind ≠ .eof := by
    intro h
    simp [Token.isComment, h] at ht
  simp [placed, ht, he]

theorem placed_cons (ht : t.isComment = false) (he : t.kind ≠ .eof) (spot : Spot) :
    placed spot (t :: ts) = placed (spot.next t ts) ts := by
  simp [placed, ht, he]

/-- Behind a brace or the end of a script it does not matter what part of a statement came
before. -/
theorem placed_boundary (ht : t.kind.isBoundary = true) {spot spot' : Spot}
    (hs : spot ≠ .markup) (hs' : spot' ≠ .markup) :
    placed spot (t :: ts) = placed spot' (t :: ts) := by
  by_cases he : t.kind = .eof
  · rw [placed_eof he, placed_eof he]
  · have hc : t.isComment = false := by
      rw [Token.isComment]
      cases h : t.kind <;> simp_all [TokenKind.isBoundary]
    have hnext : ∀ s : Spot, s ≠ .markup →
        s.next t ts = if t.kind == .scriptClose then .markup else .between := by
      intro s hs
      cases h : t.kind <;> cases s <;> simp_all [TokenKind.isBoundary, Spot.next, Spot.after]
    rw [placed_cons hc he, placed_cons hc he, hnext spot hs, hnext spot' hs']

theorem next_within (ht : t.kind.isBoundary = false) (depth : Nat) :
    (Spot.within depth).next t ts = Spot.afterInner depth t ts := by
  cases h : t.kind <;> simp_all [TokenKind.isBoundary, Spot.next, Spot.after]

theorem next_between (ht : t.kind.isBoundary = false) :
    Spot.between.next t ts = if t.kind == .identifier then Spot.afterName ts
      else if t.isStarter then .within 0 else .between := by
  cases h : t.kind <;> simp_all [TokenKind.isBoundary, Spot.next, Spot.after]

theorem next_value (ht : t.kind.isBoundary = false) :
    Spot.value.next t ts =
      if t.kind == .identifier then Spot.afterName ts else Spot.afterInner 0 t ts := by
  cases h : t.kind <;> simp_all [TokenKind.isBoundary, Spot.next, Spot.after]

theorem next_target (ht : t.kind.isBoundary = false) :
    Spot.target.next t ts =
      if t.kind == .operator && isAssignmentOperator t.text then .value else .target := by
  cases h : t.kind <;> simp_all [TokenKind.isBoundary, Spot.next, Spot.after]

/-! ## What a place deeper inside allows -/

theorem isForeign_of_semicolon (ht : t.isMark ";" = true) : t.isForeign = true := by
  simp only [Token.isMark, Bool.and_eq_true, beq_iff_eq] at ht
  simp [Token.isForeign, ht]

/-- A token that has its place in expressions leaves the depth as it is. -/
theorem afterInner_inner (hp : t.kind ≠ .leftParen) (hf : t.isForeign = false) (depth : Nat) :
    Spot.afterInner depth t ts = .within depth := by
  have hm : t.isMark ";" = false := by
    cases h : t.isMark ";" with
    | false => rfl
    | true => rw [isForeign_of_semicolon h] at hf; exact absurd hf (by decide)
  have hr : t.kind ≠ .rightParen := by
    intro h
    simp [Token.isForeign, h] at hf
  cases depth <;> simp [Spot.afterInner, hp, hm, hf, hr]

/-- Inside a statement the next place is inside it or after it; after it only when no assignment
can follow. -/
theorem afterInner_cases (depth : Nat) (t : Token) (ts : List Token) :
    (∃ e, Spot.afterInner depth t ts = .within e) ∨
      Spot.afterInner depth t ts = .between ∧ (t.isMark ";" = true ∨ findAssignment? ts = none) := by
  unfold Spot.afterInner
  split
  · exact Or.inl ⟨_, rfl⟩
  · split
    · split
      · rename_i h
        rw [Bool.or_eq_true, Bool.and_eq_true, Option.isNone_iff_eq_none] at h
        exact Or.inr ⟨rfl, h.imp_right And.right⟩
      · exact Or.inl ⟨_, rfl⟩
    · split <;> exact Or.inl ⟨_, rfl⟩

/-- Behind fewer parentheses the next place is behind fewer parentheses, or after the statement. -/
theorem afterInner_le {d e : Nat} (h : e ≤ d) (t : Token) (ts : List Token) :
    Spot.afterInner e t ts = Spot.afterInner d t ts ∨
      ∃ n, Spot.afterInner d t ts = .within n ∧
        (Spot.afterInner e t ts = .between ∨ ∃ m ≤ n, Spot.afterInner e t ts = .within m) := by
  by_cases hp : t.kind = .leftParen
  · exact Or.inr ⟨d + 1, by simp [Spot.afterInner, hp], Or.inr ⟨e + 1, by omega, by
      simp [Spot.afterInner, hp]⟩⟩
  · cases d with
    | zero => rw [Nat.le_zero.1 h]; exact Or.inl rfl
    | succ d =>
      have hd : ∃ n, Spot.afterInner (d + 1) t ts = .within n ∧ d ≤ n ∧
          (t.kind ≠ .rightParen → n = d + 1) := by
        by_cases hr : t.kind = .rightParen
        · exact ⟨d, by simp [Spot.afterInner, hr], Nat.le_refl d, fun h => absurd hr h⟩
        · exact ⟨d + 1, by simp [Spot.afterInner, hp, hr], Nat.le_succ d, fun _ => rfl⟩
      obtain ⟨n, hn, hdn, hnr⟩ := hd
      refine Or.inr ⟨n, hn, ?_⟩
      cases e with
      | zero =>
        rcases afterInner_cases 0 t ts with ⟨m, hm⟩ | ⟨hb, -⟩
        · have : m = 0 := by
            simp only [Spot.afterInner, hp, beq_iff_eq, if_false] at hm
            split at hm
            · simp at hm
            · exact (Spot.within.inj hm).symm
          exact Or.inr ⟨m, by omega, hm⟩
        · exact Or.inl hb
      | succ e =>
        by_cases hr : t.kind = .rightParen
        · exact Or.inr ⟨e, by omega, by simp [Spot.afterInner, hr]⟩
        · exact Or.inr ⟨e + 1, by rw [hnr hr]; exact h, by simp [Spot.afterInner, hp, hr]⟩

end Placed

/-- Comments that are well placed behind `depth` parentheses are so behind fewer, between
statements, as the value of an assignment and, when there is an assignment, in its target. -/
structure PlacedInside (depth : Nat) (ts : List Token) : Prop where
  within : ∀ e ≤ depth, placed (.within e) ts = true
  between : placed .between ts = true
  value : placed .value ts = true
  target : (findAssignment? ts).isSome → placed .target ts = true

/-- The tokens behind one that is inside a statement. -/
theorem PlacedInside.of_afterInner {depth : Nat} {t : Token} {ts : List Token}
    (ih : ∀ d, placed (.within d) ts = true → PlacedInside d ts) (hb : t.kind.isBoundary = false)
    (hc : t.isComment = false) (h : placed (Spot.afterInner depth t ts) ts = true) :
    PlacedInside depth (t :: ts) := by
  have he : t.kind ≠ .eof := by
    intro he
    simp [he, TokenKind.isBoundary] at hb
  have hle : ∀ e ≤ depth, placed (Spot.afterInner e t ts) ts = true := by
    intro e hed
    rcases afterInner_le hed t ts with heq | ⟨n, hn, hbetween | ⟨m, hmn, hm⟩⟩
    · rw [heq]; exact h
    · rw [hbetween]; rw [hn] at h; exact (ih n h).between
    · rw [hm]; rw [hn] at h; exact (ih n h).within m hmn
  have hbetween : placed .between ts = true := by
    rcases afterInner_cases depth t ts with ⟨e, heq⟩ | ⟨heq, -⟩
    · rw [heq] at h; exact (ih e h).between
    · rw [heq] at h; exact h
  -- An identifier or a keyword is inside the statement, and so are the tokens behind it.
  have hword : t.kind = .identifier ∨ t.kind = .keyword → PlacedInside depth ts := by
    intro hk
    rw [afterInner_inner (by rcases hk with hk | hk <;> simp [hk])
      (by rcases hk with hk | hk <;> simp [Token.isForeign, hk])] at h
    exact ih depth h
  have hname : t.kind = .identifier → placed (Spot.afterName ts) ts = true := by
    intro hk
    have hp := hword (Or.inl hk)
    unfold Spot.afterName
    split
    · rename_i hs
      exact hp.target hs
    · exact hp.within 0 (Nat.zero_le _)
  refine ⟨?_, ?_, ?_, ?_⟩
  · intro e hed
    rw [placed_cons hc he, next_within hb]
    exact hle e hed
  · rw [placed_cons hc he, next_between hb]
    split
    · rename_i hk
      exact hname (by simpa using hk)
    split
    · rename_i hs
      simp only [Token.isStarter, Bool.and_eq_true, beq_iff_eq] at hs
      exact (hword (Or.inr hs.1)).within 0 (Nat.zero_le _)
    · exact hbetween
  · rw [placed_cons hc he, next_value hb]
    split
    · rename_i hk
      exact hname (by simpa using hk)
    · exact hle 0 (Nat.zero_le _)
  · intro hs
    rw [placed_cons hc he, next_target hb]
    unfold findAssignment? at hs
    split at hs
    · simp at hs
    · rename_i hstop
      split
      · rename_i hop
        rw [Bool.and_eq_true, beq_iff_eq] at hop
        rw [afterInner_inner (by simp [hop.1]) (by simp [Token.isForeign, hop.1])] at h
        exact (ih depth h).value
      · rename_i hop
        rw [if_neg hop, Option.isSome_map] at hs
        rcases afterInner_cases depth t ts with ⟨e, heq⟩ | ⟨-, hm | hn⟩
        · rw [heq] at h; exact (ih e h).target hs
        · rw [hm] at hstop; simp at hstop
        · rw [hn] at hs; simp at hs

/-- **What is well placed inside a statement is well placed further out.** -/
theorem placedInside {depth : Nat} {ts : List Token} (h : placed (.within depth) ts = true) :
    PlacedInside depth ts := by
  induction ts generalizing depth with
  | nil => exact ⟨fun _ _ => rfl, rfl, rfl, fun _ => rfl⟩
  | cons t ts ih =>
    by_cases hb : t.kind.isBoundary = true
    · have hall : ∀ spot : Spot, spot ≠ .markup → placed spot (t :: ts) = true := by
        intro spot hs
        rw [placed_boundary hb hs (by simp : Spot.within depth ≠ .markup)]
        exact h
      exact ⟨fun _ _ => hall _ (by simp), hall _ (by simp), hall _ (by simp),
        fun _ => hall _ (by simp)⟩
    · have he : t.kind ≠ .eof := by
        intro he
        simp [he, TokenKind.isBoundary] at hb
      have hb : t.kind.isBoundary = false := by simpa using hb
      by_cases hc : t.isComment = true
      · rw [placed_comment hc] at h
        simp only [Spot.allows, Bool.false_or, Bool.and_eq_true] at h
        have hp := ih h.2
        refine ⟨?_, ?_, ?_, ?_⟩
        · intro e hed
          simp [placed_comment hc, h.1, hp.within e hed]
        · simp [placed_comment hc, h.1, hp.between]
        · simp [placed_comment hc, h.1, hp.value]
        · intro hs
          have hk : t.kind = .comment := by simpa [Token.isComment] using hc
          have hs : (findAssignment? ts).isSome := by
            simpa [findAssignment?, hk, TokenKind.isBoundary, Token.isMark] using hs
          simp [placed_comment hc, h.1, hp.target hs]
      · have hc : t.isComment = false := by simpa using hc
        rw [placed_cons hc he, next_within hb] at h
        exact PlacedInside.of_afterInner (fun d => ih) hb hc h

end PageLint
