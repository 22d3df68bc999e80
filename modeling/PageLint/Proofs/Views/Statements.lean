import PageLint.Proofs.Scripts
import PageLint.Proofs.Views.Expressions

/-!
# Statements and views

Statements, function bodies and whole scripts that are read from tokens as a view shows them.

* `Harvest.ShownAs` — what two readings of statements give to a page
* `scriptFrom?_shown` — a script
-/

namespace PageLint

/-- What a reading of statements gives, as a view shows it. -/
structure Harvest.ShownAs (v : View) (a a' : Harvest) : Prop where
  statements : NodesShown v a.statements a'.statements
  rest : TokensShown v a.rest a'.rest

variable {v : View} {ts ts' : List Token}

theorem eq_none_of_rel {α β : Type} {R : α → β → Prop} {o : Option β} (h : Option.Rel R none o) :
    o = none := by
  cases h
  rfl

theorem exists_of_rel_some {α β : Type} {R : α → β → Prop} {a : α} {o : Option β}
    (h : Option.Rel R (some a) o) : ∃ b, o = some b ∧ R a b := by
  cases h with
  | some h => exact ⟨_, rfl, h⟩

theorem Harvest.ShownAs.nothing (h : TokensShown v ts ts') :
    Harvest.ShownAs v { rest := ts } { rest := ts' } :=
  ⟨rfl, h⟩

theorem Harvest.ShownAs.append {a a' b b' : Harvest} (ha : a.ShownAs v a') (hb : b.ShownAs v b') :
    (a.append b).ShownAs v (a'.append b') :=
  ⟨ha.statements.append hb.statements, hb.rest⟩

/-- What is read first and what is read behind it, if both can be read. -/
theorem Harvest.ShownAs.map_append {a a' : Harvest} (ha : a.ShownAs v a') {b b' : Option Harvest}
    (hb : Option.Rel (Harvest.ShownAs v) b b') :
    Option.Rel (Harvest.ShownAs v) (b.map a.append) (b'.map a'.append) := by
  cases hb with
  | none => exact .none
  | some hb => exact .some (ha.append hb)

/-- Something is taken from the tokens when something is taken from those that show them. -/
theorem Harvest.ShownAs.rest_lt_iff {a a' : Harvest} (ha : a.ShownAs v a')
    (h : TokensShown v ts ts') :
    a'.rest.length < ts'.length ↔ a.rest.length < ts.length := by
  rw [ha.rest.length, h.length]

theorem outerExpression_shown (limit : Int) : (outerExpression limit).Shown v (NodeShown v) :=
  expression_shown limit maxCallDepth

/-! ## Declarations -/

theorem readInitializer_shown (limit : Int) (h : TokensShown v ts ts') :
    Reading.ShownAs v (NodeShown v) (readInitializer limit ts) (readInitializer limit ts') := by
  cases h with
  | nil => exact ⟨rfl, .nil⟩
  | cons ht hts =>
    rw [readInitializer, readInitializer, ht.beq .operator rfl (· == "=")]
    split
    · exact outerExpression_shown limit hts
    · exact ⟨rfl, .cons ht hts⟩

theorem readDeclaration_shown (limit : Int) {build build' : Identifier → Option Node → Node}
    (hbuild : ∀ {i i' : Identifier} {o o' : Option Node},
      i'.viewDeclared .bare = i.viewDeclared v → NodeShown v o o' →
        (build' i' o').view .bare = (build i o).view v)
    (h : TokensShown v ts ts') :
    (readDeclaration limit build ts).ShownAs v (readDeclaration limit build' ts') := by
  cases h with
  | nil => exact .nothing .nil
  | @cons t t' ts ts' ht hts =>
    rw [readDeclaration, readDeclaration, ht.kind]
    split
    · rename_i hword
      have hvalue := readInitializer_shown limit hts
      refine ⟨?_, dropSemicolon_shown hvalue.rest⟩
      exact congrArg ([·]) (hbuild (ht.toIdentifier_declared hword) hvalue.value)
    · exact .nothing (.cons ht hts)

/-! ## Assignments -/

/-- The tokens in front of an assignment operator, the operator and what follows it. -/
structure SplitShown (v : View) (s s' : List Token × Token × List Token) : Prop where
  before : TokensShown v s.1 s'.1
  operator : s'.2.1.text = s.2.1.text
  after : TokensShown v s.2.2 s'.2.2

theorem findAssignment?_shown (h : TokensShown v ts ts') :
    Option.Rel (SplitShown v) (findAssignment? ts) (findAssignment? ts') := by
  induction h with
  | nil => exact .none
  | @cons t t' ts ts' ht hts ih =>
    rw [findAssignment?, findAssignment?, ht.isMark, ht.beq .operator rfl, ht.kind]
    split
    · exact .none
    split
    · rename_i hop
      have hkind : t.kind = .operator := beq_iff_eq.1 (Bool.and_eq_true _ _ ▸ hop).1
      exact .some ⟨.nil, ht.text_eq (by rw [hkind]; rfl), hts⟩
    · generalize findAssignment? ts = s at ih
      generalize findAssignment? ts' = s' at ih
      cases ih with
      | none => exact .none
      | some hs => exact .some ⟨.cons ht hs.before, hs.operator, hs.after⟩

theorem join_shown (h : TokensShown v ts ts') :
    String.join ((ts'.filter fun t => t.kind != .comment).map Token.text) =
      v.text (String.join ((ts.filter fun t => t.kind != .comment).map Token.text)) := by
  induction h with
  | nil => rfl
  | @cons t t' ts ts' ht hts ih =>
    rw [List.filter_cons, List.filter_cons, ht.kind]
    split
    · rename_i hk
      rw [List.map_cons, List.map_cons, String.join_cons, String.join_cons, View.text_append, ← ih,
        ht.text (by simpa using hk)]
    · exact ih

theorem targetOf_shown {t t' : Token} (ht : t.ShownAs v t') (h : TokensShown v ts ts') :
    (targetOf t' ts').view .bare = (targetOf t ts).view v := by
  simp only [targetOf, Identifier.view, Site.view, ht.location, View.text_bare,
    join_shown (.cons ht h)]

/-- A link of a chain of assignments as a view shows it. -/
structure LinkShown (v : View) (l l' : Identifier × String) : Prop where
  target : l'.1.view .bare = l.1.view v
  operator : l'.2 = l.2

theorem assignmentLinks_shown (ts : List Token) : ∀ ts' : List Token, TokensShown v ts ts' →
    List.Forall₂ (LinkShown v) (assignmentLinks ts).1 (assignmentLinks ts').1 ∧
      TokensShown v (assignmentLinks ts).2 (assignmentLinks ts').2 := by
  fun_induction assignmentLinks ts with
  | case1 =>
    intro ts' h
    cases h
    rw [assignmentLinks]
    exact ⟨.nil, .nil⟩
  | case2 t ts hkind hnone =>
    intro ts' h
    cases h with
    | cons ht hts =>
      have hsplit := findAssignment?_shown hts
      rw [hnone] at hsplit
      rw [assignmentLinks, ht.kind, if_pos hkind]
      split
      · exact ⟨.nil, .cons ht hts⟩
      · rename_i hsome
        rw [eq_none_of_rel hsplit] at hsome
        cases hsome
  | case3 t ts hkind before operator after hsome hlt links rest hrec ih =>
    intro ts' h
    cases h with
    | cons ht hts =>
      have hsplit := findAssignment?_shown hts
      rw [hsome] at hsplit
      rw [assignmentLinks, ht.kind, if_pos hkind]
      split
      · rename_i hnone
        rw [hnone] at hsplit
        cases hsplit
      · rename_i before' operator' after' hsome'
        rw [hsome'] at hsplit
        cases hsplit with
        | some hs =>
          obtain ⟨hlinks, hrest⟩ := ih _ hs.after
          rw [hrec] at hlinks hrest
          exact ⟨.cons ⟨targetOf_shown ht hs.before, hs.operator⟩ hlinks, hrest⟩
  | case4 t ts hkind =>
    intro ts' h
    cases h with
    | cons ht hts =>
      rw [assignmentLinks, ht.kind, if_neg hkind]
      exact ⟨.nil, .cons ht hts⟩

theorem chainNode_shown {links links' : List (Identifier × String)}
    (h : List.Forall₂ (LinkShown v) links links') {value value' : Option Node}
    (hvalue : NodeShown v value value') :
    NodeShown v (chainNode links value) (chainNode links' value') := by
  induction h with
  | nil => exact hvalue
  | @cons l l' links links' hl hlinks ih =>
    have hsite : l'.1.site.view .bare = l.1.site.view v := congrArg Identifier.site hl.target
    have hinner := ih
    rw [NodeShown] at hinner
    rw [chainNode, chainNode, List.foldr_cons, List.foldr_cons, ← chainNode, ← chainNode, NodeShown]
    simp only [Option.map_some, Node.view, Node.view?_eq_map, hl.target, hl.operator, hsite, hinner]

theorem readAssignment_shown (limit : Int) (h : TokensShown v ts ts') :
    (readAssignment limit ts).ShownAs v (readAssignment limit ts') := by
  obtain ⟨hlinks, hrest⟩ := assignmentLinks_shown ts ts' h
  have hvalue := outerExpression_shown limit hrest
  exact ⟨(chainNode_shown hlinks hvalue.value).toList, dropSemicolon_shown hvalue.rest⟩

/-! ## Functions -/

theorem readParameters_shown (h : TokensShown v ts ts') :
    (readParameters ts').1.map (Identifier.viewDeclared .bare) =
        (readParameters ts).1.map (Identifier.viewDeclared v) ∧
      TokensShown v (readParameters ts).2 (readParameters ts').2 := by
  induction h with
  | nil => exact ⟨rfl, .nil⟩
  | @cons t t' ts ts' ht hts ih =>
    rw [readParameters, readParameters, endsArguments_shown ht]
    split
    · exact ⟨rfl, dropRightParen_shown (.cons ht hts)⟩
    · refine ⟨?_, ih.2⟩
      simp only [ht.kind]
      split
      · rename_i hkind
        have hword : t.kind.isWord = true := by
          rw [beq_iff_eq.1 hkind]
          rfl
        rw [List.map_cons, List.map_cons, ht.toIdentifier_declared hword, ih.1]
      · exact ih.1

theorem readParameterList_shown (h : TokensShown v ts ts') :
    (readParameterList ts').1.map (Identifier.viewDeclared .bare) =
        (readParameterList ts).1.map (Identifier.viewDeclared v) ∧
      TokensShown v (readParameterList ts).2 (readParameterList ts').2 := by
  cases h with
  | nil => exact ⟨rfl, .nil⟩
  | cons ht hts =>
    rw [readParameterList, readParameterList, ht.kind]
    split
    · exact readParameters_shown hts
    · exact ⟨rfl, .cons ht hts⟩

theorem readSimple?_shown (limit : Int) {t t' : Token} (ht : t.ShownAs v t')
    (hts : TokensShown v ts ts') :
    Option.Rel (Harvest.ShownAs v) (readSimple? limit t ts) (readSimple? limit t' ts') := by
  rw [readSimple?, readSimple?, ht.beq .keyword rfl (fun s => s == "let" || s == "var"),
    ht.beq .keyword rfl (· == "const"), ht.kind]
  split
  · rename_i hkind
    have hkind : t.kind = .keyword := beq_iff_eq.1 (Bool.and_eq_true _ _ ▸ hkind).1
    have htext : t'.text = t.text := ht.text_eq (by rw [hkind]; rfl)
    refine .some (readDeclaration_shown limit (fun hi ho => ?_) hts)
    rw [NodeShown] at ho
    simp only [Node.view, Node.view?_eq_map, ht.site, hi, ho, htext]
  split
  · refine .some (readDeclaration_shown limit (fun hi ho => ?_) hts)
    rw [NodeShown] at ho
    simp only [Node.view, Node.view?_eq_map, ht.site, hi, ho]
  split
  · exact .some (readAssignment_shown limit (.cons ht hts))
  · exact .none

theorem bodyFrom?_shown (limit : Int) (depth : Nat) (ts : List Token) :
    ∀ ts' : List Token, TokensShown v ts ts' →
      Option.Rel (Harvest.ShownAs v) (bodyFrom? limit depth ts) (bodyFrom? limit depth ts') := by
  fun_induction bodyFrom? limit depth ts with
  | case1 ts =>
    intro ts' h
    rw [bodyFrom?]
    exact .some (.nothing h)
  | case2 depth =>
    intro ts' h
    cases h
    rw [bodyFrom?]
    exact .some (.nothing .nil)
  | case3 depth t ts hend =>
    intro ts' h
    cases h with
    | cons ht hts =>
      rw [bodyFrom?, ht.kind, if_pos hend]
      exact .some (.nothing (.cons ht hts))
  | case4 depth t ts hend hopen ih =>
    intro ts' h
    cases h with
    | cons ht hts =>
      rw [bodyFrom?, ht.kind, if_neg hend, if_pos hopen]
      exact ih _ hts
  | case5 depth t ts hend hopen hclose ih =>
    intro ts' h
    cases h with
    | cons ht hts =>
      rw [bodyFrom?, ht.kind, if_neg hend, if_neg hopen, if_pos hclose]
      exact ih _ hts
  | case6 depth t ts hend hopen hclose hnone ih =>
    intro ts' h
    cases h with
    | @cons _ t' _ ts' ht hts =>
      have hsimple := readSimple?_shown limit ht hts
      rw [hnone] at hsimple
      rw [bodyFrom?, ht.kind, if_neg hend, if_neg hopen, if_neg hclose]
      rw [eq_none_of_rel hsimple]
      exact ih _ hts
  | case7 depth t ts hend hopen hclose found hsome hlt ih =>
    intro ts' h
    cases h with
    | @cons _ t' _ ts' ht hts =>
      have hsimple := readSimple?_shown limit ht hts
      rw [hsome] at hsimple
      rw [bodyFrom?, ht.kind, if_neg hend, if_neg hopen, if_neg hclose]
      obtain ⟨found', hr, hfound⟩ := exists_of_rel_some hsimple
      simp only [hr, (hfound.rest_lt_iff (.cons ht hts)).2 hlt, if_true]
      exact hfound.map_append (ih _ hfound.rest)
  | case8 depth t ts hend hopen hclose found hsome hlt =>
    intro ts' h
    cases h with
    | @cons _ t' _ ts' ht hts =>
      have hsimple := readSimple?_shown limit ht hts
      rw [hsome] at hsimple
      rw [bodyFrom?, ht.kind, if_neg hend, if_neg hopen, if_neg hclose]
      obtain ⟨found', hr, hfound⟩ := exists_of_rel_some hsimple
      simp only [hr, mt (hfound.rest_lt_iff (.cons ht hts)).1 hlt, if_false]
      exact .none

theorem readBody?_shown (limit : Int) (h : TokensShown v ts ts') :
    Option.Rel (Harvest.ShownAs v) (readBody? limit ts) (readBody? limit ts') := by
  cases h with
  | nil => exact .some (.nothing .nil)
  | cons ht hts =>
    rw [readBody?, readBody?, ht.kind]
    split
    · exact bodyFrom?_shown limit 1 _ _ hts
    · exact .some (.nothing (.cons ht hts))

theorem readFunction?_shown (limit : Int) {keyword keyword' : Token}
    (hkeyword : keyword.ShownAs v keyword') (h : TokensShown v ts ts') :
    Option.Rel (Harvest.ShownAs v) (readFunction? limit keyword ts)
      (readFunction? limit keyword' ts') := by
  cases h with
  | nil => exact .some (.nothing .nil)
  | @cons t t' ts ts' ht hts =>
    rw [readFunction?, readFunction?, ht.kind]
    split
    · rename_i hword
      obtain ⟨hparameters, hafter⟩ := readParameterList_shown hts
      have hbody := readBody?_shown limit hafter
      simp only
      generalize readBody? limit (readParameterList ts).2 = body at hbody
      generalize readBody? limit (readParameterList ts').2 = body' at hbody
      cases hbody with
      | none => exact .none
      | some hbody =>
        have hstatements := hbody.statements
        rw [NodesShown] at hstatements
        refine .some ⟨?_, hbody.rest⟩
        simp only [NodesShown, List.map_cons, List.map_nil, Node.view, Node.viewAll_eq_map,
          Site.view, hkeyword.location, (ht.word hword).1, hparameters, hstatements]
    · exact .some (.nothing (.cons ht hts))

/-! ## Statements of a script -/

theorem readStatement?_shown (config : Config) {t t' : Token} (ht : t.ShownAs v t')
    (hts : TokensShown v ts ts') :
    Option.Rel (Harvest.ShownAs v) (readStatement? config t ts) (readStatement? config t' ts') := by
  have hsimple := readSimple?_shown config.maxExpressionTokens ht hts
  rw [readStatement?, readStatement?]
  simp only
  generalize readSimple? config.maxExpressionTokens t ts = found at hsimple
  generalize readSimple? config.maxExpressionTokens t' ts' = found' at hsimple
  cases hsimple with
  | some hfound => exact .some hfound
  | none =>
    simp only [ht.beq .keyword rfl (· == "function"),
      ht.beq .keyword rfl (config.expressionKeywords.contains ·)]
    split
    · exact readFunction?_shown _ ht hts
    split
    · have hvalue := outerExpression_shown config.maxExpressionTokens (.cons ht hts)
      exact .some ⟨hvalue.value.toList, dropSemicolon_shown hvalue.rest⟩
    · exact .some (.nothing hts)

/-- **A script is read as a view shows it.** -/
theorem scriptFrom?_shown (config : Config) (ts : List Token) :
    ∀ ts' : List Token, TokensShown v ts ts' →
      Option.Rel (Harvest.ShownAs v) (scriptFrom? config ts) (scriptFrom? config ts') := by
  fun_induction scriptFrom? config ts with
  | case1 =>
    intro ts' h
    cases h
    rw [scriptFrom?]
    exact .some (.nothing .nil)
  | case2 t ts hend =>
    intro ts' h
    cases h with
    | cons ht hts =>
      rw [scriptFrom?, ht.kind, if_pos hend]
      exact .some (.nothing (.cons ht hts))
  | case3 t ts hend hnone =>
    intro ts' h
    cases h with
    | @cons _ t' _ ts' ht hts =>
      have hstatement := readStatement?_shown config ht hts
      rw [hnone] at hstatement
      rw [scriptFrom?, ht.kind, if_neg hend]
      rw [eq_none_of_rel hstatement]
      exact .none
  | case4 t ts hend found hsome hlt ih =>
    intro ts' h
    cases h with
    | @cons _ t' _ ts' ht hts =>
      have hstatement := readStatement?_shown config ht hts
      rw [hsome] at hstatement
      rw [scriptFrom?, ht.kind, if_neg hend]
      obtain ⟨found', hr, hfound⟩ := exists_of_rel_some hstatement
      simp only [hr, (hfound.rest_lt_iff (.cons ht hts)).2 hlt, if_true]
      exact hfound.map_append (ih _ hfound.rest)
  | case5 t ts hend found hsome hlt ih =>
    intro ts' h
    cases h with
    | @cons _ t' _ ts' ht hts =>
      have hstatement := readStatement?_shown config ht hts
      rw [hsome] at hstatement
      rw [scriptFrom?, ht.kind, if_neg hend]
      obtain ⟨found', hr, hfound⟩ := exists_of_rel_some hstatement
      simp only [hr, mt (hfound.rest_lt_iff (.cons ht hts)).1 hlt, if_false]
      -- Nothing was taken, so both go on behind the first token.
      exact hfound.map_append (ih _ hts)

end PageLint
