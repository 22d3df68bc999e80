import PageLint.Proofs.Regions.Expressions

/-!
# Statements at the end of a script

The tokens of a script are read as if they stood alone, statement by statement. A statement that is
broken off, in a call, a list of parameters or the body of a function, ends with its script.

* `bodyFrom?_before` — the body of a function
* `readStatement?_before` — a statement of a script
* `scriptFrom?_before` — a whole script: it takes all its tokens, and none behind them
-/

namespace PageLint

/-- A harvest of tokens in front of others: statements and names are the same, and the others are
left. -/
structure Harvest.Before (tail : List Token) (a b : Harvest) : Prop where
  statements : b.statements = a.statements
  declared : b.declared = a.declared
  rest : b.rest = a.rest ++ tail

/-- Nothing has been read. -/
theorem Harvest.Before.unread (tail ts : List Token) :
    Harvest.Before tail { rest := ts } { rest := ts ++ tail } :=
  ⟨rfl, rfl, rfl⟩

theorem Harvest.Before.append {tail : List Token} {a b c d : Harvest} (h : a.Before tail b)
    (h' : c.Before tail d) : (a.append c).Before tail (b.append d) where
  statements := by simp only [Harvest.append, h.statements, h'.statements]
  declared := by simp only [Harvest.append, h.declared, h'.declared]
  rest := h'.rest

section Statements

variable {limit : Int} (hlimit : 1 ≤ limit) {tail : List Token} (htail : Ended tail)

include htail

/-! ## Declarations and assignments -/

include hlimit in
theorem outerExpression_before {region : List Token} (hregion : Inside region) :
    Reading.Before tail ((outerExpression limit).read region)
      ((outerExpression limit).read (region ++ tail)) :=
  (expression_local hlimit maxCallDepth).before hregion htail

include hlimit in
theorem readInitializer_before {region : List Token} (hregion : Inside region) :
    Reading.Before tail (readInitializer limit region)
      (readInitializer limit (region ++ tail)) := by
  cases region with
  | nil =>
    rw [List.nil_append, readInitializer_closes limit htail.stops]
    exact ⟨rfl, rfl⟩
  | cons t ts =>
    rw [List.cons_append, readInitializer, readInitializer]
    split
    · exact outerExpression_before hlimit htail hregion.tail
    · exact ⟨rfl, rfl⟩

include hlimit in
theorem readDeclaration_before (build : Identifier → Option Node → Node) {region : List Token}
    (hregion : Inside region) :
    (readDeclaration limit build region).Before tail
      (readDeclaration limit build (region ++ tail)) := by
  cases region with
  | nil =>
    rw [List.nil_append, readDeclaration_closes limit build htail.stops]
    exact Harvest.Before.unread tail []
  | cons t ts =>
    rw [List.cons_append, readDeclaration, readDeclaration]
    split
    · obtain ⟨hvalue, hrest⟩ := readInitializer_before hlimit htail hregion.tail
      refine ⟨?_, rfl, ?_⟩
      · simp only [hvalue]
      · simp only [hrest]
        exact dropSemicolon_append htail
    · exact Harvest.Before.unread tail (t :: ts)

theorem findAssignment?_append (region : List Token) :
    findAssignment? (region ++ tail) =
      (findAssignment? region).map fun (before, operator, after) =>
        (before, operator, after ++ tail) := by
  induction region with
  | nil =>
    rcases htail.cases with rfl | ⟨t, us, rfl, hk | hk⟩
    · rfl
    · simp [findAssignment?, TokenKind.isBoundary, hk]
    · simp [findAssignment?, TokenKind.isBoundary, hk]
  | cons t ts ih =>
    rw [List.cons_append, findAssignment?, findAssignment?]
    split
    · rfl
    split
    · rfl
    · rw [ih, Option.map_map, Option.map_map]
      rfl

theorem assignmentLinks_append (region : List Token) :
    assignmentLinks (region ++ tail) =
      ((assignmentLinks region).1, (assignmentLinks region).2 ++ tail) := by
  fun_induction assignmentLinks region with
  | case1 =>
    rcases htail.cases with rfl | ⟨t, us, rfl, hk | hk⟩
    · rw [List.append_nil, assignmentLinks]
    · rw [List.nil_append, assignmentLinks, if_neg (by simp [hk])]
    · rw [List.nil_append, assignmentLinks, if_neg (by simp [hk])]
  | case2 t ts hk hnone =>
    have hnone' : findAssignment? (ts ++ tail) = none := by
      rw [findAssignment?_append htail, hnone]
      rfl
    rw [List.cons_append, assignmentLinks, if_pos hk]
    split
    · rfl
    · rename_i hsome
      rw [hnone'] at hsome
      simp at hsome
  | case3 t ts hk before operator after hfind hlt links rest eq ih =>
    have hfind' : findAssignment? (ts ++ tail) = some (before, operator, after ++ tail) := by
      rw [findAssignment?_append htail, hfind]
      rfl
    rw [eq] at ih
    rw [List.cons_append, assignmentLinks, if_pos hk]
    split
    · rename_i hnone
      rw [hfind'] at hnone
      simp at hnone
    · rename_i b o a hsome
      rw [hfind'] at hsome
      obtain ⟨rfl, rfl, rfl⟩ : before = b ∧ operator = o ∧ after ++ tail = a := by
        simpa using hsome
      rw [ih]
  | case4 t ts hk => rw [List.cons_append, assignmentLinks, if_neg hk]

include hlimit in
theorem readAssignment_before {region : List Token} (hregion : Inside region) :
    (readAssignment limit region).Before tail (readAssignment limit (region ++ tail)) := by
  have hvalue := outerExpression_before hlimit htail
    (hregion.of_suffix (assignmentLinks_suffix region))
  rw [readAssignment, readAssignment, assignmentLinks_append htail]
  refine ⟨?_, rfl, ?_⟩
  · simp only [hvalue.value]
  · simp only [hvalue.rest]
    exact dropSemicolon_append htail

include hlimit in
/-- **A statement inside a function is read as if its script stood alone.** -/
theorem readSimple?_before {t : Token} {ts : List Token} (hregion : Inside (t :: ts)) :
    Option.Rel (Harvest.Before tail) (readSimple? limit t ts)
      (readSimple? limit t (ts ++ tail)) := by
  unfold readSimple?
  split
  · exact .some (readDeclaration_before hlimit htail _ hregion.tail)
  split
  · exact .some (readDeclaration_before hlimit htail _ hregion.tail)
  split
  · exact .some (readAssignment_before hlimit htail hregion)
  · exact .none

/-! ## Functions -/

theorem readParameters_append (region : List Token) :
    readParameters (region ++ tail) =
      ((readParameters region).1, (readParameters region).2 ++ tail) := by
  induction region with
  | nil =>
    rcases htail.cases with rfl | ⟨t, us, rfl, -⟩
    · rfl
    · show readParameters (t :: us) = ([], t :: us)
      rw [readParameters, if_pos (endsArguments_of_ended htail t rfl)]
      exact congrArg (([], ·)) (@dropRightParen_append [] (t :: us) htail)
  | cons t ts ih =>
    rw [List.cons_append, readParameters, readParameters]
    split
    · exact congrArg (([], ·)) (@dropRightParen_append (t :: ts) tail htail)
    · rw [ih]

theorem readParameterList_append (region : List Token) :
    readParameterList (region ++ tail) =
      ((readParameterList region).1, (readParameterList region).2 ++ tail) := by
  cases region with
  | nil =>
    rcases htail.cases with rfl | ⟨t, us, rfl, hk | hk⟩
    · rfl
    · simp [readParameterList, hk]
    · simp [readParameterList, hk]
  | cons t ts =>
    rw [List.cons_append, readParameterList, readParameterList]
    split
    · exact readParameters_append htail ts
    · rfl

/-- The end of a script ends the body of a function, whatever braces are open. -/
theorem bodyFrom?_ended (depth : Nat) : bodyFrom? limit depth tail = some { rest := tail } := by
  cases depth with
  | zero => rw [bodyFrom?]
  | succ depth =>
    rcases htail.cases with rfl | ⟨t, us, rfl, hk | hk⟩
    · rw [bodyFrom?]
    · simp [bodyFrom?, hk]
    · simp [bodyFrom?, hk]

include hlimit in
/-- **The body of a function is read as if its script stood alone.** -/
theorem bodyFrom?_before (depth : Nat) {region : List Token} (hregion : Inside region) :
    Option.Rel (Harvest.Before tail) (bodyFrom? limit depth region)
      (bodyFrom? limit depth (region ++ tail)) := by
  fun_induction bodyFrom? limit depth region with
  | case1 ts =>
    rw [bodyFrom?]
    exact .some (Harvest.Before.unread tail ts)
  | case2 depth =>
    rw [List.nil_append, bodyFrom?_ended htail]
    exact .some (Harvest.Before.unread tail [])
  | case3 depth t ts hend =>
    have hin : t.endsScript = false := hregion t List.mem_cons_self
    rw [Token.endsScript, hend] at hin
    exact absurd hin (by decide)
  | case4 depth t ts hend hopen ih =>
    rw [List.cons_append, bodyFrom?, if_neg hend, if_pos hopen]
    exact ih hregion.tail
  | case5 depth t ts hend hopen hclose ih =>
    rw [List.cons_append, bodyFrom?, if_neg hend, if_neg hopen, if_pos hclose]
    exact ih hregion.tail
  | case6 depth t ts hend hopen hclose hnone ih =>
    have hsimple := readSimple?_before hlimit htail hregion
    rw [hnone] at hsimple
    rw [List.cons_append, bodyFrom?, if_neg hend, if_neg hopen, if_neg hclose]
    generalize readSimple? limit t (ts ++ tail) = simple at hsimple
    cases hsimple
    exact ih hregion.tail
  | case7 depth t ts hend hopen hclose found hfound hlt ih =>
    have hsimple := readSimple?_before hlimit htail hregion
    have hbody := ih (hregion.of_suffix (readSimple?_suffix hfound))
    rw [hfound] at hsimple
    rw [List.cons_append, bodyFrom?, if_neg hend, if_neg hopen, if_neg hclose]
    generalize readSimple? limit t (ts ++ tail) = simple at hsimple
    obtain ⟨hbefore⟩ := hsimple
    rename_i found'
    -- The statement takes a token here too, and leaves the same tokens with the end behind them.
    have hlt' : found'.rest.length < (t :: (ts ++ tail)).length := by
      rw [hbefore.rest, List.length_append, List.length_cons, List.length_append]
      rw [List.length_cons] at hlt
      omega
    simp only
    rw [if_pos hlt', hbefore.rest]
    generalize bodyFrom? limit (depth + 1) found.rest = body at hbody
    generalize bodyFrom? limit (depth + 1) (found.rest ++ tail) = body' at hbody
    cases hbody with
    | none => exact .none
    | some hmore => exact .some (hbefore.append hmore)
  | case8 depth t ts hend hopen hclose found hfound hlt =>
    have hsuffix := readSimple?_suffix_tail hlimit hfound
    exact absurd (Nat.lt_succ_of_le hsuffix.length_le) hlt

include hlimit in
theorem readBody?_before {region : List Token} (hregion : Inside region) :
    Option.Rel (Harvest.Before tail) (readBody? limit region)
      (readBody? limit (region ++ tail)) := by
  cases region with
  | nil =>
    rcases htail.cases with rfl | ⟨t, us, rfl, hk⟩
    · exact .some (Harvest.Before.unread [] [])
    · have hbrace : (t.kind == .leftBrace) = false := by rcases hk with hk | hk <;> rw [hk] <;> rfl
      simp only [List.nil_append, readBody?, hbrace, Bool.false_eq_true, if_false]
      exact .some (Harvest.Before.unread (t :: us) [])
  | cons t ts =>
    rw [List.cons_append, readBody?, readBody?]
    split
    · exact bodyFrom?_before hlimit htail 1 hregion.tail
    · exact .some (Harvest.Before.unread tail (t :: ts))

include hlimit in
theorem readFunction?_before (keyword : Token) {region : List Token} (hregion : Inside region) :
    Option.Rel (Harvest.Before tail) (readFunction? limit keyword region)
      (readFunction? limit keyword (region ++ tail)) := by
  cases region with
  | nil =>
    rcases htail.cases with rfl | ⟨t, us, rfl, hk⟩
    · exact .some (Harvest.Before.unread [] [])
    · have hword : t.kind.isWord = false := by rcases hk with hk | hk <;> rw [hk] <;> rfl
      simp only [List.nil_append, readFunction?, hword, Bool.false_eq_true, if_false]
      exact .some (Harvest.Before.unread (t :: us) [])
  | cons name ts =>
    have hleft : Inside (readParameterList ts).2 :=
      hregion.tail.of_suffix (readParameterList_suffix ts)
    have hbody := readBody?_before hlimit htail hleft
    rw [List.cons_append, readFunction?, readFunction?]
    split
    · rw [readParameterList_append htail]
      simp only
      generalize readBody? limit (readParameterList ts).2 = body at hbody
      generalize readBody? limit ((readParameterList ts).2 ++ tail) = body' at hbody
      cases hbody with
      | none => exact .none
      | some hbefore =>
        refine .some ⟨?_, hbefore.declared, hbefore.rest⟩
        simp only [hbefore.statements]
    · exact .some (Harvest.Before.unread tail (name :: ts))

end Statements

/-! ## Scripts -/

section Scripts

variable {config : Config} (hlimit : 1 ≤ config.maxExpressionTokens) {tail : List Token}
  (htail : Ended tail)

include hlimit htail

/-- **A statement is read as if its script stood alone.** -/
theorem readStatement?_before {t : Token} {ts : List Token} (hregion : Inside (t :: ts)) :
    Option.Rel (Harvest.Before tail) (readStatement? config t ts)
      (readStatement? config t (ts ++ tail)) := by
  have hsimple := readSimple?_before hlimit htail hregion
  simp only [readStatement?]
  generalize readSimple? config.maxExpressionTokens t ts = simple at hsimple
  generalize readSimple? config.maxExpressionTokens t (ts ++ tail) = simple' at hsimple
  cases hsimple with
  | some hbefore => exact .some hbefore
  | none =>
    simp only
    split
    · exact readFunction?_before hlimit htail t hregion.tail
    split
    · have hvalue := outerExpression_before hlimit htail hregion
      rw [List.cons_append] at hvalue
      refine .some ⟨?_, rfl, ?_⟩
      · simp only [hvalue.value]
      · simp only [hvalue.rest]
        exact dropSemicolon_append htail
    · exact .some (Harvest.Before.unread tail ts)

/-- **A script is read as if it stood alone**: to its end, and no further. -/
theorem scriptFrom?_before {region : List Token} (hregion : Inside region) :
    ∃ alone found, scriptFrom? config region = some alone ∧ alone.rest = [] ∧
      scriptFrom? config (region ++ tail) = some found ∧ alone.Before tail found := by
  match region, hregion with
  | [], _ =>
    refine ⟨{ rest := [] }, { rest := tail }, scriptFrom?_nil config, rfl, ?_, ⟨rfl, rfl, rfl⟩⟩
    rcases htail.cases with rfl | ⟨t, us, rfl, hk⟩
    · exact scriptFrom?_nil config
    · rw [List.nil_append, scriptFrom?, if_pos (by simpa using hk)]
  | t :: ts, hregion =>
    have hin : t.endsScript = false := hregion t List.mem_cons_self
    rw [Token.endsScript, Bool.or_eq_false_iff] at hin
    have he : t.kind ≠ .eof := by simpa using hin.1
    have hc : t.kind ≠ .scriptClose := by simpa using hin.2
    obtain ⟨a, ha⟩ := readStatement?_isSome hlimit t ts
    have hstatement := readStatement?_before hlimit htail hregion
    rw [ha] at hstatement
    have hsuffix : a.rest <:+ ts := readStatement?_suffix_tail hlimit ha
    have hlt : a.rest.length < (t :: ts).length := Nat.lt_succ_of_le hsuffix.length_le
    generalize hb : readStatement? config t (ts ++ tail) = statement at hstatement
    cases hstatement with
    | some hbefore =>
      obtain ⟨alone, found, halone, hend, hfound, hmore⟩ :=
        scriptFrom?_before (hregion.tail.of_suffix hsuffix)
      rw [← hbefore.rest] at hfound
      refine ⟨a.append alone, _, scriptFrom?_statement hlimit he hc ha halone, hend, ?_,
        hbefore.append hmore⟩
      exact scriptFrom?_statement hlimit he hc hb hfound
termination_by region.length
decreasing_by exact hlt

end Scripts

end PageLint
