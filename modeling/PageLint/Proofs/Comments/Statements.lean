import PageLint.Proofs.Comments.Expressions
import PageLint.Proofs.Scripts

/-!
# Statements and comments

Statements are read past well placed comments. What two readings of a statement leave may differ by
more than comments: a semicolon behind a comment is left where it is, and without the comment it is
taken with the statement. Every loop over statements passes over a semicolon, so it does not matter
to what comes next.

* `readSimple?_agree` — declarations, assignments and expressions
* `bodyFrom?_agree` — the body of a function
* `readStatement?_agree` — the statements of a script
-/

namespace PageLint

/-- Two harvests give the same statements and names and leave the same tokens but for comments, or
but for comments and one more semicolon in front. -/
structure Harvest.Agree (a b : Harvest) : Prop where
  statements : b.statements = a.statements
  declared : b.declared = a.declared
  rest : withoutComments a.rest = b.rest ∨
    ∃ t, t.isMark ";" = true ∧ withoutComments a.rest = t :: b.rest
  placed : placed .between a.rest = true

/-- Nothing has been read. -/
theorem Harvest.Agree.unread {ts : List Token} (h : PageLint.placed .between ts = true) :
    Harvest.Agree { rest := ts } { rest := withoutComments ts } :=
  ⟨rfl, rfl, Or.inl rfl, h⟩

theorem Harvest.Agree.append {a b c d : Harvest} (h : a.Agree b) (h' : c.Agree d) :
    (a.append c).Agree (b.append d) where
  statements := by simp only [Harvest.append, h.statements, h'.statements]
  declared := by simp only [Harvest.append, h.declared, h'.declared]
  rest := h'.rest
  placed := h'.placed

theorem dropSemicolon_agree {ts : List Token} (h : placed .between ts = true) :
    (withoutComments (dropSemicolon ts) = dropSemicolon (withoutComments ts) ∨
        ∃ t, t.isMark ";" = true ∧
          withoutComments (dropSemicolon ts) = t :: dropSemicolon (withoutComments ts)) ∧
      placed .between (dropSemicolon ts) = true := by
  cases ts with
  | nil => exact ⟨Or.inl rfl, rfl⟩
  | cons t ts =>
    by_cases hc : t.isComment = true
    · have hk : t.kind = .comment := by simpa [Token.isComment] using hc
      have hdrop : dropSemicolon (t :: ts) = t :: ts := by
        simp [dropSemicolon, Token.isMark, hk]
      -- A semicolon behind the comment stays; without the comment it is taken.
      rw [hdrop, withoutComments_comment hc]
      refine ⟨?_, h⟩
      cases withoutComments ts with
      | nil => exact Or.inl rfl
      | cons u us =>
        by_cases hu : u.isMark ";" = true
        · exact Or.inr ⟨u, hu, by rw [dropSemicolon, if_pos hu]⟩
        · exact Or.inl (by rw [dropSemicolon, if_neg hu])
    · have hc : t.isComment = false := by simpa using hc
      rw [withoutComments_cons hc, dropSemicolon, dropSemicolon]
      split
      · rename_i hm
        have hk : t.kind = .punctuation := by
          simp only [Token.isMark, Bool.and_eq_true, beq_iff_eq] at hm
          exact hm.1
        rw [placed_cons hc (by simp [hk]), next_between (by simp [hk, TokenKind.isBoundary])] at h
        refine ⟨Or.inl rfl, ?_⟩
        simpa [hk, Token.isStarter] using h
      · exact ⟨Or.inl (withoutComments_cons hc ts), h⟩

/-- A statement that ends with an expression and a semicolon. -/
theorem Harvest.Agree.of_reading {α : Type} {r r' : Reading α} (h : r.Agree .between r')
    {a b : Harvest} (hs : b.statements = a.statements) (hd : b.declared = a.declared)
    (ha : a.rest = dropSemicolon r.rest) (hb : b.rest = dropSemicolon r'.rest) : a.Agree b := by
  obtain ⟨hrest, hplaced⟩ := dropSemicolon_agree h.placed
  refine ⟨hs, hd, ?_, by rw [ha]; exact hplaced⟩
  rw [ha, hb, h.rest]
  exact hrest

/-! ## Declarations -/

theorem readInitializer_closes (limit : Int) {ts : List Token} (h : stops ts = true) :
    readInitializer limit ts = { value := none, rest := ts } := by
  cases ts with
  | nil => rfl
  | cons t ts =>
    rcases kind_of_stops h with hk | hk | hk | hk | hk | ⟨hk, -⟩ | ⟨hk, -, ht⟩ <;>
      simp [readInitializer, *]

theorem readDeclaration_closes (limit : Int) (build : Identifier → Option Node → Node)
    {ts : List Token} (h : stops ts = true) : readDeclaration limit build ts = { rest := ts } := by
  cases ts with
  | nil => rfl
  | cons t ts =>
    rcases kind_of_stops h with hk | hk | hk | hk | hk | ⟨hk, -⟩ | ⟨hk, -⟩ <;>
      simp [readDeclaration, TokenKind.isWord, hk]

section Simple

variable {limit : Int} (hlimit : 1 ≤ limit) {ts : List Token}

include hlimit

theorem readInitializer_agree (h : placed (.within 0) ts = true) :
    Reading.Agree .between (readInitializer limit ts)
      (readInitializer limit (withoutComments ts)) := by
  cases ts with
  | nil => exact ⟨rfl, rfl, rfl⟩
  | cons t ts =>
    by_cases hc : t.isComment = true
    · obtain ⟨hclose, -⟩ := placed_within_comment hc h
      have hstops : stops (t :: ts) = true := by simp [stops, hc]
      rw [readInitializer_closes limit hstops, withoutComments_comment hc,
        readInitializer_closes limit (stops_of_closesNext hclose).1]
      exact ⟨rfl, (withoutComments_comment hc ts).symm, (placedInside h).between⟩
    · have hc : t.isComment = false := by simpa using hc
      rw [withoutComments_cons hc, readInitializer, readInitializer]
      split
      · rename_i heq
        have hin : t.isInner = true := by
          rw [Bool.and_eq_true] at heq
          simp [Token.isInner, heq.1]
        rw [placed_within_inner hin] at h
        exact outerExpression_agree hlimit h
      · exact ⟨rfl, (withoutComments_cons hc ts).symm, (placedInside h).between⟩

theorem readDeclaration_agree (build : Identifier → Option Node → Node)
    (h : placed (.within 0) ts = true) :
    (readDeclaration limit build ts).Agree
      (readDeclaration limit build (withoutComments ts)) := by
  have hunread := Harvest.Agree.unread (placedInside h).between
  cases ts with
  | nil => exact hunread
  | cons t ts =>
    by_cases hc : t.isComment = true
    · obtain ⟨hclose, -⟩ := placed_within_comment hc h
      have hstops : stops (t :: ts) = true := by simp [stops, hc]
      rw [withoutComments_comment hc] at hunread ⊢
      rw [readDeclaration_closes limit build hstops,
        readDeclaration_closes limit build (stops_of_closesNext hclose).1]
      exact hunread
    · have hc : t.isComment = false := by simpa using hc
      rw [withoutComments_cons hc] at hunread ⊢
      rw [readDeclaration, readDeclaration]
      split
      · rename_i hword
        rw [placed_within_inner (isInner_of_word hword)] at h
        have hinit := readInitializer_agree hlimit h
        exact .of_reading hinit (by simp only [hinit.value]) rfl rfl rfl
      · exact hunread

end Simple

/-! ## Assignments -/

theorem findAssignment?_withoutComments (ts : List Token) :
    findAssignment? (withoutComments ts) = (findAssignment? ts).map fun found =>
      (withoutComments found.1, found.2.1, withoutComments found.2.2) := by
  induction ts with
  | nil => rfl
  | cons t ts ih =>
    by_cases hc : t.isComment = true
    · have hk : t.kind = .comment := by simpa [Token.isComment] using hc
      have hskip : findAssignment? (t :: ts) =
          (findAssignment? ts).map fun found => (t :: found.1, found.2.1, found.2.2) := by
        simp [findAssignment?, hk, TokenKind.isBoundary, Token.isMark]
      rw [withoutComments_comment hc, ih, hskip, Option.map_map]
      congr 1
      funext found
      simp [withoutComments_comment hc]
    · have hc : t.isComment = false := by simpa using hc
      rw [withoutComments_cons hc, findAssignment?, findAssignment?]
      split
      · rfl
      split
      · rfl
      · rw [ih, Option.map_map, Option.map_map]
        congr 1
        funext found
        simp [withoutComments_cons hc]

theorem targetOf_withoutComments {t : Token} (hc : t.isComment = false) (ts : List Token) :
    targetOf t (withoutComments ts) = targetOf t ts := by
  have hfilter : (t :: withoutComments ts).filter (fun t => t.kind != .comment) =
      (t :: ts).filter fun t => t.kind != .comment := by
    rw [← withoutComments_cons hc, withoutComments, List.filter_filter]
    refine List.filter_congr fun u _ => ?_
    simp [Token.isComment, bne]
  rw [targetOf, targetOf, hfilter]

/-- The value of an assignment comes after its target, in which comments may stand anywhere. -/
theorem placed_value_of_target {ts before after : List Token} {operator : Token}
    (ha : findAssignment? ts = some (before, operator, after))
    (h : placed .target ts = true) : placed .value after = true := by
  induction ts generalizing before with
  | nil => simp [findAssignment?] at ha
  | cons t ts ih =>
    unfold findAssignment? at ha
    split at ha
    · simp at ha
    rename_i hstop
    rw [Bool.or_eq_true, not_or, Bool.not_eq_true] at hstop
    have he : t.kind ≠ .eof := by
      intro he
      simp [he, TokenKind.isBoundary] at hstop
    split at ha
    · rename_i hop
      have hc : t.isComment = false := by
        rw [Bool.and_eq_true, beq_iff_eq] at hop
        simp [Token.isComment, hop.1]
      rw [placed_cons hc he, next_target hstop.1, if_pos hop] at h
      rw [← (Prod.mk.inj (Prod.mk.inj (Option.some.inj ha)).2).2]
      exact h
    · rename_i hop
      obtain ⟨⟨b, o, a⟩, hb, heq⟩ := Option.map_eq_some_iff.1 ha
      obtain ⟨-, rfl, rfl⟩ : t :: b = before ∧ o = operator ∧ a = after := by simpa using heq
      refine ih hb ?_
      by_cases hc : t.isComment = true
      · rw [placed_comment hc] at h
        simpa [Spot.allows] using h
      · rw [placed_cons (by simpa using hc) he, next_target hstop.1, if_neg hop] at h
        exact h

/-- The value of an assignment that is not an assignment itself is an expression. -/
theorem placed_within_of_value {ts : List Token}
    (hn : ∀ t us, ts = t :: us → t.kind = .identifier → findAssignment? us = none)
    (h : placed .value ts = true) : placed (.within 0) ts = true := by
  induction ts with
  | nil => rfl
  | cons t ts ih =>
    by_cases hb : t.kind.isBoundary = true
    · rw [placed_boundary hb (by simp) (by simp : Spot.value ≠ .markup)]
      exact h
    have hb : t.kind.isBoundary = false := by simpa using hb
    by_cases hc : t.isComment = true
    · rw [placed_comment hc] at h ⊢
      simp only [Spot.allows, Bool.false_or, Bool.and_eq_true] at h ⊢
      refine ⟨h.1, ih ?_ h.2⟩
      -- The token behind the comments closes, so it is no name.
      intro u us hu hk
      have hclose := h.1
      rw [hu, closesNext_cons (by simp [Token.isComment, hk])] at hclose
      simp [Token.closes, hk] at hclose
    · have he : t.kind ≠ .eof := by
        intro he
        simp [he, TokenKind.isBoundary] at hb
      have hc : t.isComment = false := by simpa using hc
      rw [placed_cons hc he, next_value hb] at h
      rw [placed_cons hc he, next_within hb]
      split at h
      · rename_i hk
        rw [Spot.afterName, hn t ts rfl (by simpa using hk)] at h
        rw [afterInner_inner (by rw [beq_iff_eq] at hk; simp [hk])
          (by rw [beq_iff_eq] at hk; simp [Token.isForeign, hk])]
        exact h
      · exact h

theorem assignmentLinks_agree (ts : List Token) (h : placed .value ts = true) :
    assignmentLinks (withoutComments ts) =
        ((assignmentLinks ts).1, withoutComments (assignmentLinks ts).2) ∧
      placed (.within 0) (assignmentLinks ts).2 = true := by
  fun_induction assignmentLinks ts with
  | case1 =>
    rw [withoutComments_nil, assignmentLinks]
    exact ⟨rfl, rfl⟩
  | case2 t ts hk hnone =>
    have hc : t.isComment = false := by
      rw [beq_iff_eq] at hk
      simp [Token.isComment, hk]
    have hnone' : findAssignment? (withoutComments ts) = none := by
      rw [findAssignment?_withoutComments, hnone]
      rfl
    refine ⟨?_, placed_within_of_value ?_ h⟩
    · rw [withoutComments_cons hc, assignmentLinks, if_pos hk]
      split
      · rfl
      · rename_i hsome
        rw [hnone'] at hsome
        simp at hsome
    · intro u us hu _
      rw [← (List.cons.inj hu).2]
      exact hnone
  | case3 t ts hk before operator after hfind hlt links rest eq ih =>
    have hid : t.kind = .identifier := by simpa using hk
    have hc : t.isComment = false := by simp [Token.isComment, hid]
    rw [placed_cons hc (by simp [hid]), next_value (by simp [hid, TokenKind.isBoundary]), if_pos hk,
      Spot.afterName, if_pos (by rw [hfind]; rfl)] at h
    -- The comments in the target do not count for its name.
    obtain ⟨hlinks, hplaced⟩ := ih (placed_value_of_target hfind h)
    rw [eq] at hlinks hplaced
    refine ⟨?_, hplaced⟩
    have hfind' : findAssignment? (withoutComments ts) =
        some (withoutComments before, operator, withoutComments after) := by
      rw [findAssignment?_withoutComments, hfind]
      rfl
    rw [withoutComments_cons hc, assignmentLinks, if_pos hk]
    split
    · rename_i hnone
      rw [hfind'] at hnone
      simp at hnone
    · rename_i b o a hsome
      rw [hfind'] at hsome
      obtain ⟨rfl, rfl, rfl⟩ : withoutComments before = b ∧ operator = o ∧
          withoutComments after = a := by simpa using hsome
      rw [hlinks, targetOf_withoutComments hc]
  | case4 t ts hk =>
    refine ⟨?_, placed_within_of_value ?_ h⟩
    · by_cases hc : t.isComment = true
      · rw [placed_comment hc] at h
        simp only [Spot.allows, Bool.false_or, Bool.and_eq_true] at h
        rw [withoutComments_comment hc]
        -- What closes behind the comment is no name, so no chain starts there either.
        have hstops := (stops_of_closesNext h.1).1
        cases hw : withoutComments ts with
        | nil => rw [assignmentLinks]
        | cons u us =>
          rw [hw] at hstops
          have hu : (u.kind == .identifier) = false := by
            rcases kind_of_stops hstops with hk | hk | hk | hk | hk | ⟨hk, -⟩ | ⟨hk, -⟩ <;>
              simp [hk]
          rw [assignmentLinks, hu]
          rfl
      · rw [withoutComments_cons (by simpa using hc), assignmentLinks, if_neg hk]
    · intro u us hu hid
      rw [(List.cons.inj hu).1, hid] at hk
      exact absurd rfl hk

/-! ## Statements inside functions -/

section Statements

variable {limit : Int} (hlimit : 1 ≤ limit) {t : Token} {ts : List Token}

/-- The tokens behind a keyword that starts a statement are inside it. -/
theorem placed_starter (ht : t.isStarter = true) (h : placed .between (t :: ts) = true) :
    placed (.within 0) ts = true := by
  have hk : t.kind = .keyword := by
    rw [Token.isStarter, Bool.and_eq_true, beq_iff_eq] at ht
    exact ht.1
  have hc : t.isComment = false := by simp [Token.isComment, hk]
  rw [placed_cons hc (by simp [hk]), next_between (by simp [hk, TokenKind.isBoundary]), hk, ht] at h
  exact h

/-- The tokens behind one that is not a name are between statements or further inside. -/
theorem placed_between_tail (hc : t.isComment = false) (hb : t.kind.isBoundary = false)
    (hk : t.kind ≠ .identifier) (h : placed .between (t :: ts) = true) :
    placed .between ts = true := by
  have he : t.kind ≠ .eof := by
    intro he
    simp [he, TokenKind.isBoundary] at hb
  rw [placed_cons hc he, next_between hb, if_neg (by simpa using hk)] at h
  split at h
  · exact (placedInside h).between
  · exact h

include hlimit

theorem readAssignment_agree (hk : t.kind = .identifier)
    (h : placed .between (t :: ts) = true) :
    (readAssignment limit (t :: ts)).Agree
      (readAssignment limit (withoutComments (t :: ts))) := by
  have hc : t.isComment = false := by simp [Token.isComment, hk]
  have hb : t.kind.isBoundary = false := by simp [hk, TokenKind.isBoundary]
  have hvalue : placed .value (t :: ts) = true := by
    rw [placed_cons hc (by simp [hk]), next_between hb, hk] at h
    rw [placed_cons hc (by simp [hk]), next_value hb, hk]
    exact h
  obtain ⟨hlinks, hplaced⟩ := assignmentLinks_agree (t :: ts) hvalue
  have hread := outerExpression_agree hlimit hplaced
  refine .of_reading hread ?_ rfl rfl ?_
  · simp only [readAssignment, hlinks, hread.value]
  · simp only [readAssignment, hlinks]

theorem readSimple?_agree (hc : t.isComment = false) (h : placed .between (t :: ts) = true) :
    (readSimple? limit t ts = none ∧ readSimple? limit t (withoutComments ts) = none) ∨
      ∃ a b, readSimple? limit t ts = some a ∧
        readSimple? limit t (withoutComments ts) = some b ∧ a.Agree b := by
  unfold readSimple?
  split
  · rename_i hlet
    have hs : t.isStarter = true := by
      simp only [Bool.and_eq_true, Bool.or_eq_true, beq_iff_eq] at hlet
      rcases hlet with ⟨hk, ht | ht⟩ <;> simp [Token.isStarter, hk, ht]
    exact Or.inr ⟨_, _, rfl, rfl, readDeclaration_agree hlimit _ (placed_starter hs h)⟩
  split
  · rename_i hconst
    have hs : t.isStarter = true := by
      simp only [Bool.and_eq_true, beq_iff_eq] at hconst
      simp [Token.isStarter, hconst.1, hconst.2]
    exact Or.inr ⟨_, _, rfl, rfl, readDeclaration_agree hlimit _ (placed_starter hs h)⟩
  split
  · rename_i hk
    have hagree := readAssignment_agree hlimit (by simpa using hk) h
    rw [withoutComments_cons hc] at hagree
    exact Or.inr ⟨_, _, rfl, rfl, hagree⟩
  · exact Or.inl ⟨rfl, rfl⟩

/-! ## Bodies of functions -/

omit hlimit in
theorem bodyFrom?_skip {depth : Nat} (hb : t.kind.isBoundary = false)
    (hs : readSimple? limit t ts = none) :
    bodyFrom? limit (depth + 1) (t :: ts) = bodyFrom? limit (depth + 1) ts := by
  rw [bodyFrom?, hs]
  cases hk : t.kind <;> simp_all [TokenKind.isBoundary]

/-- A statement in a body is read, and then the rest of the body. -/
theorem bodyFrom?_simple {depth : Nat} {found : Harvest} (hb : t.kind.isBoundary = false)
    (hs : readSimple? limit t ts = some found) :
    bodyFrom? limit (depth + 1) (t :: ts) =
      (bodyFrom? limit (depth + 1) found.rest).map found.append := by
  have hlt : found.rest.length < (t :: ts).length :=
    Nat.lt_succ_of_le (readSimple?_suffix_tail hlimit hs).length_le
  rw [bodyFrom?, hs]
  simp only [hlt, if_true]
  cases hk : t.kind <;> simp_all [TokenKind.isBoundary]

omit hlimit in
/-- A body is read past a semicolon. -/
theorem bodyFrom?_semicolon (depth : Nat) (ht : t.isMark ";" = true) :
    bodyFrom? limit (depth + 1) (t :: ts) = bodyFrom? limit (depth + 1) ts := by
  have hk : t.kind = .punctuation := by
    simp only [Token.isMark, Bool.and_eq_true, beq_iff_eq] at ht
    exact ht.1
  exact bodyFrom?_skip (by simp [hk, TokenKind.isBoundary])
    (readSimple?_of_other limit (by simp [hk]) (by simp [hk]) ts)

end Statements

/-- **The body of a function is read past comments.** -/
theorem bodyFrom?_agree {limit : Int} (hlimit : 1 ≤ limit) (depth : Nat) (ts : List Token)
    (h : placed .between ts = true) :
    ∃ a b, bodyFrom? limit depth ts = some a ∧
      bodyFrom? limit depth (withoutComments ts) = some b ∧ a.Agree b := by
  match depth, ts with
  | 0, ts =>
    rw [bodyFrom?, bodyFrom?]
    exact ⟨_, _, rfl, rfl, .unread h⟩
  | depth + 1, [] =>
    rw [withoutComments_nil, bodyFrom?]
    exact ⟨_, _, rfl, rfl, .unread h⟩
  | depth + 1, t :: ts =>
    by_cases hc : t.isComment = true
    · have hk : t.kind = .comment := by simpa [Token.isComment] using hc
      rw [placed_comment hc, Bool.and_eq_true] at h
      rw [bodyFrom?_skip (by simp [hk, TokenKind.isBoundary])
        (readSimple?_of_other limit (by simp [hk]) (by simp [hk]) ts), withoutComments_comment hc]
      exact bodyFrom?_agree hlimit (depth + 1) ts h.2
    have hc : t.isComment = false := by simpa using hc
    have hcons := withoutComments_cons hc ts
    by_cases hb : t.kind.isBoundary = true
    · rw [hcons, bodyFrom?, bodyFrom?]
      split
      · rw [← hcons]
        exact ⟨_, _, rfl, rfl, .unread h⟩
      rename_i hend
      have hbrace : t.kind = .leftBrace ∨ t.kind = .rightBrace := by
        cases hk : t.kind <;> simp_all [TokenKind.isBoundary]
      have htail : placed .between ts = true := by
        rcases hbrace with hk | hk <;>
          rw [placed_cons hc (by simp [hk])] at h <;> simpa [Spot.next, Spot.after, hk] using h
      rcases hbrace with hk | hk
      · rw [hk]
        exact bodyFrom?_agree hlimit (depth + 2) ts htail
      · rw [hk]
        exact bodyFrom?_agree hlimit depth ts htail
    · have hb : t.kind.isBoundary = false := by simpa using hb
      rw [hcons]
      rcases readSimple?_agree hlimit hc h with ⟨hs, hs'⟩ | ⟨a, b, hs, hs', hagree⟩
      · have hk : t.kind ≠ .identifier := by
          intro hk
          simp [readSimple?, hk] at hs
        rw [bodyFrom?_skip hb hs, bodyFrom?_skip hb hs']
        exact bodyFrom?_agree hlimit (depth + 1) ts (placed_between_tail hc hb hk h)
      · have hlt : a.rest.length < (t :: ts).length :=
          Nat.lt_succ_of_le (readSimple?_suffix_tail hlimit hs).length_le
        obtain ⟨c, d, hbody, hbody', hmore⟩ :=
          bodyFrom?_agree hlimit (depth + 1) a.rest hagree.placed
        -- A semicolon that only one side has taken is passed over by the other.
        have hbody' : bodyFrom? limit (depth + 1) b.rest = some d := by
          rcases hagree.rest with heq | ⟨u, hu, heq⟩
          · rw [← heq, hbody']
          · rw [← bodyFrom?_semicolon depth hu, ← heq, hbody']
        rw [bodyFrom?_simple hlimit hb hs, bodyFrom?_simple hlimit hb hs', hbody, hbody']
        exact ⟨_, _, rfl, rfl, hagree.append hmore⟩
termination_by ts.length
decreasing_by all_goals first | exact Nat.lt_succ_self _ | exact hlt

/-! ## Functions -/

theorem readParameters_agree {depth : Nat} {ts : List Token}
    (h : placed (.within (depth + 1)) ts = true) :
    readParameters (withoutComments ts) =
        ((readParameters ts).1, withoutComments (readParameters ts).2) ∧
      placed (.within depth) (readParameters ts).2 = true := by
  induction ts with
  | nil => exact ⟨rfl, rfl⟩
  | cons t ts ih =>
    by_cases hc : t.isComment = true
    · have hk : t.kind = .comment := by simpa [Token.isComment] using hc
      have hskip : readParameters (t :: ts) = readParameters ts := by
        simp [readParameters, endsArguments_comment hc, hk]
      rw [withoutComments_comment hc, hskip]
      exact ih (placed_within_comment hc h).2
    · have hc : t.isComment = false := by simpa using hc
      have hcons := withoutComments_cons hc ts
      rw [hcons, readParameters, readParameters]
      split
      · rename_i hends
        obtain ⟨hdrop, hplaced⟩ := dropRightParen_agree (by simpa using hends) h
        rw [hcons] at hdrop
        exact ⟨by rw [hdrop], hplaced⟩
      · rename_i hends
        obtain ⟨hb, hr⟩ := endsArguments_eq_false (by simpa using hends)
        obtain ⟨hmore, hplaced⟩ := ih (placed_leaving_tail hc hb hr h)
        rw [hmore]
        exact ⟨rfl, hplaced⟩

theorem readParameterList_agree {depth : Nat} {ts : List Token}
    (h : placed (.within depth) ts = true) :
    readParameterList (withoutComments ts) =
        ((readParameterList ts).1, withoutComments (readParameterList ts).2) ∧
      placed (.within depth) (readParameterList ts).2 = true := by
  cases ts with
  | nil => exact ⟨rfl, rfl⟩
  | cons t ts =>
    by_cases hc : t.isComment = true
    · obtain ⟨hclose, -⟩ := placed_within_comment hc h
      have hopen : ∀ us : List Token, stops us = true → readParameterList us = ([], us) := by
        intro us hus
        cases us with
        | nil => rfl
        | cons u us =>
          rcases kind_of_stops hus with hk | hk | hk | hk | hk | ⟨hk, -⟩ | ⟨hk, -⟩ <;>
            simp [readParameterList, hk]
      rw [hopen (t :: ts) (by simp [stops, hc]), withoutComments_comment hc,
        hopen _ (stops_of_closesNext hclose).1]
      exact ⟨rfl, h⟩
    · have hc : t.isComment = false := by simpa using hc
      rw [withoutComments_cons hc, readParameterList, readParameterList]
      split
      · rename_i hp
        rw [placed_within_leftParen (by simpa using hp)] at h
        exact readParameters_agree h
      · exact ⟨by rw [withoutComments_cons hc], h⟩

section Functions

variable {limit : Int} (hlimit : 1 ≤ limit) {ts : List Token}

include hlimit

theorem readBody?_agree (h : placed (.within 0) ts = true) :
    ∃ a b, readBody? limit ts = some a ∧ readBody? limit (withoutComments ts) = some b ∧
      a.Agree b := by
  have hunread := Harvest.Agree.unread (placedInside h).between
  cases ts with
  | nil => exact ⟨_, _, rfl, rfl, hunread⟩
  | cons t ts =>
    by_cases hc : t.isComment = true
    · obtain ⟨hclose, -⟩ := placed_within_comment hc h
      have hopen : ∀ us : List Token, stops us = true →
          readBody? limit us = some { rest := us } := by
        intro us hus
        cases us with
        | nil => rfl
        | cons u us =>
          rcases kind_of_stops hus with hk | hk | hk | hk | hk | ⟨hk, -⟩ | ⟨hk, -⟩ <;>
            simp [readBody?, hk]
      rw [withoutComments_comment hc] at hunread ⊢
      rw [hopen (t :: ts) (by simp [stops, hc]), hopen _ (stops_of_closesNext hclose).1]
      exact ⟨_, _, rfl, rfl, hunread⟩
    · have hc : t.isComment = false := by simpa using hc
      rw [withoutComments_cons hc] at hunread ⊢
      rw [readBody?, readBody?]
      split
      · rename_i hbrace
        have hk : t.kind = .leftBrace := by simpa using hbrace
        refine bodyFrom?_agree hlimit 1 ts ?_
        rw [placed_cons hc (by simp [hk])] at h
        simpa [Spot.next, Spot.after, hk] using h
      · exact ⟨_, _, rfl, rfl, hunread⟩

theorem readFunction?_agree (keyword : Token) (h : placed (.within 0) ts = true) :
    ∃ a b, readFunction? limit keyword ts = some a ∧
      readFunction? limit keyword (withoutComments ts) = some b ∧ a.Agree b := by
  have hunread := Harvest.Agree.unread (placedInside h).between
  cases ts with
  | nil => exact ⟨_, _, rfl, rfl, hunread⟩
  | cons t ts =>
    by_cases hc : t.isComment = true
    · obtain ⟨hclose, -⟩ := placed_within_comment hc h
      have hname : ∀ us : List Token, stops us = true →
          readFunction? limit keyword us = some { rest := us } := by
        intro us hus
        cases us with
        | nil => rfl
        | cons u us =>
          rcases kind_of_stops hus with hk | hk | hk | hk | hk | ⟨hk, -⟩ | ⟨hk, -⟩ <;>
            simp [readFunction?, TokenKind.isWord, hk]
      rw [withoutComments_comment hc] at hunread ⊢
      rw [hname (t :: ts) (by simp [stops, hc]), hname _ (stops_of_closesNext hclose).1]
      exact ⟨_, _, rfl, rfl, hunread⟩
    · have hc : t.isComment = false := by simpa using hc
      rw [withoutComments_cons hc] at hunread ⊢
      rw [readFunction?, readFunction?]
      split
      · rename_i hword
        rw [placed_within_inner (isInner_of_word hword)] at h
        obtain ⟨hparams, hplaced⟩ := readParameterList_agree h
        obtain ⟨a, b, ha, hb, hagree⟩ := readBody?_agree hlimit hplaced
        simp only [hparams, ha, hb]
        exact ⟨_, _, rfl, rfl,
          ⟨by simp only [hagree.statements], hagree.declared, hagree.rest, hagree.placed⟩⟩
      · exact ⟨_, _, rfl, rfl, hunread⟩

end Functions

/-! ## Statements of a script -/

/-- An expression takes a keyword other than `new` and ends. -/
theorem outerExpression_keyword {limit : Int} (hlimit : 1 ≤ limit) {t : Token}
    (hk : t.kind = .keyword) (hnew : t.text ≠ "new") (ts : List Token) :
    (outerExpression limit).read (t :: ts) = { value := none, rest := ts } := by
  obtain ⟨n, hn⟩ : ∃ n, limit.toNat = n + 1 := ⟨limit.toNat - 1, by omega⟩
  rw [outerExpression, expression_eq]
  simp [expressionReader, readExpression, flatRun, flatNode, isTerminator, Token.isMark,
    TokenKind.isBoundary, TokenKind.isLiteral, hk, hnew, hn]

/-- **A statement of a script is read past comments.** -/
theorem readStatement?_agree {config : Config} (hlimit : 1 ≤ config.maxExpressionTokens)
    {t : Token} {ts : List Token} (hc : t.isComment = false) (hb : t.kind.isBoundary = false)
    (h : placed .between (t :: ts) = true) :
    ∃ a b, readStatement? config t ts = some a ∧
      readStatement? config t (withoutComments ts) = some b ∧ a.Agree b := by
  simp only [readStatement?]
  rcases readSimple?_agree hlimit hc h with ⟨hs, hs'⟩ | ⟨a, b, hs, hs', hagree⟩
  · have hk : t.kind ≠ .identifier := by
      intro hk
      simp [readSimple?, hk] at hs
    have htail := placed_between_tail hc hb hk h
    rw [hs, hs']
    simp only
    split
    · rename_i hfunction
      have hstart : t.isStarter = true := by
        simp only [Bool.and_eq_true, beq_iff_eq] at hfunction
        simp [Token.isStarter, hfunction.1, hfunction.2]
      exact readFunction?_agree hlimit t (placed_starter hstart h)
    split
    · rename_i hexpression
      rw [Bool.and_eq_true, beq_iff_eq] at hexpression
      have hread : Reading.Agree .between
          ((outerExpression config.maxExpressionTokens).read (t :: ts))
          ((outerExpression config.maxExpressionTokens).read (t :: withoutComments ts)) := by
        by_cases hnew : t.text = "new"
        · have hstart : t.isStarter = true := by simp [Token.isStarter, hexpression.1, hnew]
          have hin : t.isInner = true := by simp [Token.isInner, TokenKind.isWord, hexpression.1]
          rw [← withoutComments_cons hc]
          refine outerExpression_agree hlimit ?_
          rw [placed_within_inner hin]
          exact placed_starter hstart h
        -- Any other keyword is an expression without a value that takes the keyword alone.
        · rw [outerExpression_keyword hlimit hexpression.1 hnew,
            outerExpression_keyword hlimit hexpression.1 hnew]
          exact ⟨rfl, rfl, htail⟩
      exact ⟨_, _, rfl, rfl, .of_reading hread (by simp only [hread.value]) rfl rfl rfl⟩
    · exact ⟨_, _, rfl, rfl, .unread htail⟩
  · rw [hs, hs']
    exact ⟨_, _, rfl, rfl, hagree⟩

end PageLint
