import PageLint.Proofs.Naming
import PageLint.Proofs.Written.Formulas

/-!
# Written constants

A script of constants, each with a formula for its value or without a value. A constant without a
value is reported, on the line of its name. But readers take no groups, so a value that starts with
a parenthesis is lost, and its constant is reported as well.

* `Constant`, `Occurrence` — constants as they are written, and where they stand among tokens
* `Occurrence.harvest` — what one constant is read as
* `unassignedLines_script` — the constants of a script that are reported
* `constants_reported` — what an analysis reports
-/

namespace PageLint.Written

/-! ## Constants -/

/-- A constant as it is written: its name and its value, if it has one. -/
structure Constant where
  name : String
  value : Option (List (TokenKind × String))
  isFormula : ∀ e ∈ value, IsFormula .formula e

namespace Constant

/-- The tokens of the value, with the sign in front. -/
def valueShapes (c : Constant) : List (TokenKind × String) :=
  c.value.elim [] fun e => (.operator, "=") :: e

def shapes (c : Constant) : List (TokenKind × String) :=
  (.keyword, "const") :: (.identifier, c.name) :: (c.valueShapes ++ [(.punctuation, ";")])

/-- Whether a constant has a value that starts with a parenthesis. -/
def startsGroup (c : Constant) : Bool :=
  c.value.any fun e => e.head?.any fun shape => shape.1 == .leftParen

/-- Whether nothing is read as the value of a constant. -/
def seemsUnassigned (c : Constant) : Bool := c.value.isNone || c.startsGroup

end Constant

/-- A constant with the tokens that write it. -/
structure Occurrence where
  constant : Constant
  keyword : Token
  name : Token
  others : List Token
  shapes_eq : (keyword :: name :: others).map Token.shape = constant.shapes

namespace Occurrence

def tokens (o : Occurrence) : List Token := o.keyword :: o.name :: o.others

/-- The line of the name. -/
def line (o : Occurrence) : Int := o.name.line

end Occurrence

/-- Tokens that write constants are those of their occurrences. -/
theorem exists_occurrences {cs : List Constant} {ts : List Token}
    (h : ts.map Token.shape = cs.flatMap Constant.shapes) :
    ∃ os : List Occurrence,
      os.map Occurrence.constant = cs ∧ ts = os.flatMap Occurrence.tokens := by
  induction cs generalizing ts with
  | nil => exact ⟨[], rfl, List.map_eq_nil_iff.1 h⟩
  | cons c cs ih =>
    obtain ⟨front, back, rfl, hfront, hback⟩ := List.map_eq_append_iff.1 h
    obtain ⟨keyword, front, rfl, -, hothers⟩ := List.map_eq_cons_iff.1 hfront
    obtain ⟨name, others, rfl, -, -⟩ := List.map_eq_cons_iff.1 hothers
    obtain ⟨os, rfl, rfl⟩ := ih hback
    exact ⟨⟨c, keyword, name, others, hfront⟩ :: os, rfl, rfl⟩

/-! ## What is read as a value -/

section Values

variable {limit : Int} (hlimit : 1 ≤ limit) {t : Token} (ts : List Token)

theorem flatNode_isSome (start : Token) (operand : Node) (operands : List Node)
    (operators : List String) : (flatNode start (operand :: operands) operators).isSome = true := by
  cases operands <;> cases operators <;> rfl

theorem namedOperand_isSome {args : Reader (List Node)} (hk : t.kind = .identifier) :
    (namedOperand args (t :: ts)).value.isSome = true := by
  simp [namedOperand, dottedName, hk]

include hlimit

/-- Nothing is read where a parenthesis opens. -/
theorem outerExpression_group (hk : t.kind = .leftParen) :
    ((outerExpression limit).read (t :: ts)).value = none := by
  obtain ⟨n, hn⟩ : ∃ n, limit.toNat = n + 1 := ⟨limit.toNat - 1, by omega⟩
  rw [outerExpression, expression_eq]
  simp [expressionReader, readExpression, flatRun, flatNode, isTerminator, Token.isMark,
    TokenKind.isBoundary, TokenKind.isLiteral, hk, hn]

/-- Something is read where a name or a literal stands. -/
theorem outerExpression_isSome (ht : IsPlain t) :
    ((outerExpression limit).read (t :: ts)).value.isSome = true := by
  obtain ⟨n, hn⟩ : ∃ n, limit.toNat = n + 1 := ⟨limit.toNat - 1, by omega⟩
  rw [outerExpression, expression_eq]
  show (readExpression limit _ (t :: ts)).value.isSome = true
  rcases ht with hk | hl
  · by_cases hgoes : goesOn ts = true
    · rw [readExpression_goesOn hk hgoes]
      exact namedOperand_isSome ts hk
    by_cases hend : isTerminator ts.head? = true
    · simp [readExpression, hk, hgoes, hend]
    · simp [readExpression, flatRun, isTerminator_of_identifier, TokenKind.isBoundary, hk, hgoes,
        hend, hn, flatNode_isSome]
  · obtain ⟨he, hk, hi, -⟩ := kind_of_isLiteral hl
    by_cases hend : isTerminator ts.head? = true
    · simp [readExpression, he, hk, hi, hl, hend]
    · simp [readExpression, he, hk, hi, hend, hn, flatRun_literal _ _ n hl, flatNode_isSome]

end Values

/-! ## What constants are read as -/

section Harvests

variable {config : Config} (hlimit : 1 ≤ config.maxExpressionTokens)

include hlimit

/-- The value of a constant, and the tokens that it leaves. -/
theorem readInitializer_constant (c : Constant) {ts : List Token}
    (h : ts.map Token.shape = c.valueShapes) {semicolon : Token}
    (hmark : semicolon.isMark ";" = true) (more : List Token) :
    (readInitializer config.maxExpressionTokens (ts ++ semicolon :: more)).value.isNone
        = c.seemsUnassigned ∧
      Within (semicolon :: more) (dropSemicolon
        (readInitializer config.maxExpressionTokens (ts ++ semicolon :: more)).rest) := by
  have hmore : behind (semicolon :: more) = more := behind_semicolon hmark
  cases hvalue : c.value with
  | none =>
    obtain rfl : ts = [] := by simpa [Constant.valueShapes, hvalue] using h
    have hkind : semicolon.kind ≠ .operator := by simp [(kind_of_isMark hmark).1]
    simp [readInitializer, hkind, dropSemicolon, hmark, hmore, Within, Constant.seemsUnassigned,
      hvalue]
  | some e =>
    have hshapes : ts.map Token.shape = (.operator, "=") :: e := by
      simpa [Constant.valueShapes, hvalue] using h
    obtain ⟨sign, ts, rfl, hsign, hts⟩ := List.map_eq_cons_iff.1 hshapes
    have hformula := c.isFormula e hvalue
    obtain ⟨hcloses, hbehind⟩ := hformula.closes hts hmark more
    have hwithin :=
      (outerExpression_leaves config.maxExpressionTokens (ts ++ semicolon :: more)).within hcloses
    rw [List.cons_append, readInitializer_sign hsign]
    constructor
    · -- Whether anything is read depends on the first token alone.
      obtain ⟨kind, text, e, rfl, hkind⟩ := hformula.exists_head
      obtain ⟨t, ts, rfl, ht, -⟩ := List.map_eq_cons_iff.1 hts
      obtain ⟨rfl, -⟩ := Prod.mk.inj ht
      rw [List.cons_append]
      by_cases hparen : t.kind = .leftParen
      · rw [outerExpression_group hlimit _ hparen]
        simp [Constant.seemsUnassigned, Constant.startsGroup, hvalue, hparen]
      · have hplain : IsPlain t := by
          rcases hkind with hk | hl | hk
          · exact Or.inl hk
          · exact Or.inr hl
          · exact absurd hk hparen
        have hsome := outerExpression_isSome hlimit (ts ++ semicolon :: more) hplain
        rw [Option.isNone_eq_false_iff.2 hsome]
        simp [Constant.seemsUnassigned, Constant.startsGroup, hvalue, hparen]
    · rw [Within, hmore]
      rwa [Within, hbehind] at hwithin

/-- **What one constant is read as**: a constant, with a value unless it seems unassigned, and then
values that are left of its formula. -/
theorem Occurrence.harvest (o : Occurrence) {more : List Token}
    (hinside : Inside (o.tokens ++ more)) :
    ∃ value values, (harvestOf config (o.tokens ++ more)).statements
        = .constDecl o.keyword.site o.name.toIdentifier value ::
          (values ++ (harvestOf config more).statements) ∧
      value.isNone = o.constant.seemsUnassigned ∧
      ∀ n ∈ value.toList ++ values, IsValue config.maxExpressionTokens n := by
  obtain ⟨c, keyword, name, others, hshapes⟩ := o
  obtain ⟨hkeyword, hothers⟩ := List.cons.inj hshapes
  obtain ⟨hname, hothers⟩ := List.cons.inj hothers
  obtain ⟨ts, last, rfl, hts, hlast⟩ := List.map_eq_append_iff.1 hothers
  obtain ⟨semicolon, rfl, hsemicolon⟩ := List.map_eq_singleton_iff.1 hlast
  have htokens : Occurrence.tokens ⟨c, keyword, name, ts ++ [semicolon], hshapes⟩ ++ more
      = keyword :: name :: (ts ++ semicolon :: more) := by
    simp [Occurrence.tokens]
  rw [htokens] at hinside ⊢
  have hmark := isMark_of_shape hsemicolon
  have hmore : behind (semicolon :: more) = more := behind_semicolon hmark
  obtain ⟨hnone, hwithin⟩ := readInitializer_constant hlimit c hts hmark more
  have hread := @readStatement?_declares config .constWord keyword name hkeyword
    (Prod.mk.inj hname).1 (ts ++ semicolon :: more)
  have hrest := hinside.tail.of_suffix (readStatement?_suffix_tail hlimit hread)
  obtain ⟨values, hstatements, hvalues⟩ := hwithin.harvestOf hlimit hrest
  rw [harvestOf_statement hlimit hinside hread]
  have hvalue := isValue_of_laid
    (readInitializer_laid config.maxExpressionTokens (ts ++ semicolon :: more))
  refine ⟨_, values, ?_, hnone, List.forall_mem_append.2 ⟨hvalue, hvalues⟩⟩
  rw [Harvest.append, hstatements, hmore]
  rfl

end Harvests

/-! ## What is reported -/

/-- The description of the finding that a constant is not assigned a value. -/
def unassigned : String := "Constant must be assigned a value at declaration"

/-- The lines on which findings say that a constant is not assigned a value. -/
def unassignedLines (fs : List Finding) : List Int :=
  (fs.filter fun f => f.description == unassigned).map Finding.line

theorem unassignedLines_append (fs gs : List Finding) :
    unassignedLines (fs ++ gs) = unassignedLines fs ++ unassignedLines gs := by
  rw [unassignedLines, List.filter_append, List.map_append]
  rfl

/-- What is wrong with a name says nothing about a value. -/
theorem shownName_ne_unassigned (name back : String) :
    "Constant name '" ++ name ++ back ≠ unassigned := by
  intro h
  have hletter : ("Constant name '".toList ++ (name.toList ++ back.toList))[9]?
      = unassigned.toList[9]? := by
    rw [← h, String.toList_append, String.toList_append, List.append_assoc]
  rw [List.getElem?_append_left (by decide)] at hletter
  exact absurd hletter (by decide)

theorem unassignedLines_constantFindings (target : Identifier) (value : Option Node) :
    unassignedLines (Rule.constantFindings target value false)
      = if value.isNone then [target.site.location.line] else [] := by
  have hname : ∀ (line : Int) (back : String), unassignedLines
      [{ line, description := "Constant name '" ++ target.name ++ back, category := .constant }]
        = [] := by
    intro line back
    rw [unassignedLines, List.filter_singleton,
      beq_eq_false_iff_ne.2 (shownName_ne_unassigned target.name back)]
    rfl
  have hvalue : ∀ line : Int, unassignedLines
      [{ line, description := unassigned, category := .constant }] = [line] := by
    intro line
    rw [unassignedLines, List.filter_singleton, beq_self_eq_true]
    rfl
  have hnil : unassignedLines [] = [] := rfl
  unfold Rule.constantFindings
  simp only [unassignedLines_append, apply_ite unassignedLines, hname, hnil, ite_self,
    List.nil_append, List.append_nil]
  split
  · exact hvalue _
  · rfl

section Values

variable {limit : Int} {n : Node} (h : IsValue limit n)

include h

/-- A value is nothing to the rules for constants in a scope. -/
theorem scopeFindings_value (flag : Bool) (rest : List Node) :
    Rule.scopeFindings flag (n :: rest) = Rule.scopeFindings flag rest := by
  obtain ⟨us, form⟩ := h
  cases form with
  | operand form => cases form <;> rfl
  | expression => rfl

/-- No scope stands inside a value. -/
theorem constantRule_value : ∀ m ∈ n.preorder, Rule.constantRule m = [] := by
  obtain ⟨us, form⟩ := h
  refine Value.induction (motive := fun _ _ n => ∀ m ∈ n.preorder, Rule.constantRule m = [])
    ?_ ?_ ?_ ?_ maxCallDepth form
  · intro k t ts i _
    exact Node.forall_preorder rfl (by simp [Node.children])
  · intro t ts callee _
    exact Node.forall_preorder rfl (by simp [Node.children])
  · intro k t before inner after callee arguments _ along
    exact Node.forall_preorder rfl (along.forall_preorder fun _ _ h => h)
  · intro k t ts operands operators along _ _ _
    exact Node.forall_preorder rfl (along.forall_preorder fun _ _ h => h.2)

end Values

theorem scopeFindings_values {limit : Int} {values : List Node}
    (h : ∀ n ∈ values, IsValue limit n) (flag : Bool) (rest : List Node) :
    Rule.scopeFindings flag (values ++ rest) = Rule.scopeFindings flag rest := by
  induction values with
  | nil => rfl
  | cons n values ih =>
    rw [List.cons_append, scopeFindings_value (h n List.mem_cons_self),
      ih fun m hm => h m (List.mem_cons_of_mem n hm)]

section Scripts

variable {config : Config} (hlimit : 1 ≤ config.maxExpressionTokens)

include hlimit

/-- **The constants of a script that are reported** are those that seem unassigned, each on the line
of its name. -/
theorem unassignedLines_script {os : List Occurrence}
    (hinside : Inside (os.flatMap Occurrence.tokens)) :
    unassignedLines (Rule.scopeFindings false
        (harvestOf config (os.flatMap Occurrence.tokens)).statements)
      = (os.filter fun o => o.constant.seemsUnassigned).map Occurrence.line ∧
    ∀ s ∈ (harvestOf config (os.flatMap Occurrence.tokens)).statements,
      ∀ m ∈ s.preorder, Rule.constantRule m = [] := by
  induction os with
  | nil =>
    have hnothing : (harvestOf config []).statements = [] := by
      rw [harvestOf, scriptFrom?_nil]
      rfl
    rw [List.flatMap_nil, hnothing]
    exact ⟨rfl, List.forall_mem_nil _⟩
  | cons o os ih =>
    rw [List.flatMap_cons] at hinside ⊢
    obtain ⟨value, values, hstatements, hnone, hvalues⟩ := o.harvest hlimit hinside
    obtain ⟨hlines, hflat⟩ := ih (hinside.of_suffix (List.suffix_append _ _))
    have hvalue := List.forall_mem_append.1 hvalues
    rw [hstatements]
    constructor
    · rw [Rule.scopeFindings, unassignedLines_append, unassignedLines_constantFindings,
        scopeFindings_values hvalue.2, hlines, hnone, List.filter_cons]
      split <;> rfl
    · rw [List.forall_mem_cons, List.forall_mem_append]
      refine ⟨?_, fun n hn => constantRule_value (hvalue.2 n hn), hflat⟩
      exact Node.forall_preorder rfl fun n hn => constantRule_value (hvalue.1 n hn)

end Scripts

/-! ## What an analysis reports -/

/-- What the rules for constants find in a piece of markup. -/
def pieceFindings : Piece → List Finding
  | .script _ statements =>
    Rule.scopeFindings false statements ++
      (statements.flatMap Node.preorder).flatMap Rule.constantRule
  | _ => []

/-- Findings are about values of constants when the pass over constants found them. -/
theorem unassignedLines_findingsOf (config : Config) (ids : List String) (document : Document) :
    unassignedLines (findingsOf config ids document Pass.all)
      = unassignedLines (document.toNode.walk.flatMap Rule.constantRule) := by
  have hother : ∀ pass : Pass, 'C' ∉ pass.letters →
      unassignedLines (pass.run config ids document).1 = [] := by
    intro pass hletters
    have hnone : (pass.run config ids document).1.filter (fun f => f.description == unassigned)
        = [] := by
      refine List.filter_eq_nil_iff.2 fun f hf hdescription => ?_
      obtain ⟨c, hc, hinitial⟩ := (Pass.marked_of_mem_run hf).initial
      rw [beq_iff_eq.1 hdescription] at hinitial
      obtain rfl : 'C' = c := Option.some.inj hinitial
      exact hletters hc
    rw [unassignedLines, hnone]
    rfl
  unfold findingsOf Pass.all
  simp only [List.flatMap_cons, List.flatMap_nil, unassignedLines_append]
  rw [hother .identifiers (by decide), hother .assignments (by decide),
    hother .functions (by decide), hother .dataInput (by decide), hother .dataOutput (by decide),
    hother .doctype (by decide), hother .skeleton (by decide)]
  exact List.append_nil _

/-- The rules for constants look at the only script of a page. -/
theorem constantRule_page {config : Config} {shapes : List (TokenKind × String)}
    {tag opening : Token} {inside tail : List Token} {file : Option String} {page : Page}
    (h : IsScriptPage config shapes tag opening inside tail)
    (hshows : page.Shows file (progressOf config (tag :: opening :: (inside ++ tail)))) :
    page.document.toNode.walk.flatMap Rule.constantRule
      = pieceFindings (.script opening.location (harvestOf config inside).statements) := by
  have hscript : ∀ (opening : Token) (inside : List Token),
      (scriptNode config opening inside).preorder.flatMap Rule.constantRule
        = pieceFindings (.script opening.location (harvestOf config inside).statements) := by
    intro opening inside
    rw [Node.preorder_eq]
    rfl
  have hnodes := hshows.nodes_flatMap (fun _ _ => rfl) (fun _ _ => rfl) hscript
  have hpieces : ∀ ps : List Piece,
      ps.flatMap pieceFindings = (ps.filter Piece.isScript).flatMap pieceFindings := by
    intro ps
    induction ps with
    | nil => rfl
    | cons p ps ih =>
      rw [List.flatMap_cons, List.filter_cons, ih]
      cases p <;> rfl
  rw [Node.walk_eq_preorder hshows.distinct, Node.preorder_eq, List.flatMap_cons]
  show [] ++ (page.document.children.flatMap Node.preorder).flatMap Rule.constantRule = _
  rw [List.nil_append, hnodes, hpieces, h.filter_pieces, List.flatMap_singleton]

/-- The lines on which an analysis says that a constant is not assigned a value. -/
def reportedLines (a : Analysis) : List Int :=
  (a.diagnostics.filter fun d => d.description == unassigned).map Diagnostic.line

theorem reportedLines_eq {a : Analysis} {fs : List Finding} (h : a.diagnostics = numberFrom 1 fs) :
    reportedLines a = unassignedLines fs := by
  have hfindings : a.diagnostics.map Diagnostic.finding = fs := by
    rw [h, map_finding_numberFrom]
  rw [unassignedLines, ← hfindings, List.filter_map, List.map_map]
  rfl

/-- The constants that seem unassigned are those without a value exactly when no value starts with a
parenthesis: otherwise there are more of them. -/
theorem seemsUnassigned_iff (os : List Occurrence) :
    (os.filter fun o => o.constant.seemsUnassigned).map Occurrence.line
        = (os.filter fun o => o.constant.value.isNone).map Occurrence.line ↔
      ∀ o ∈ os, o.constant.startsGroup = false := by
  constructor
  · intro h o ho
    by_contra hgroup
    rw [Bool.not_eq_false] at hgroup
    -- The constants without a value are among those that seem unassigned, and as many.
    have hboth : (os.filter fun o => o.constant.value.isNone)
        = (os.filter fun o => o.constant.seemsUnassigned).filter
          fun o => o.constant.value.isNone := by
      rw [List.filter_filter]
      refine List.filter_congr fun o _ => ?_
      cases hnone : o.constant.value.isNone <;> simp [Constant.seemsUnassigned, hnone]
    have hlength := congrArg List.length h
    rw [List.length_map, List.length_map, hboth] at hlength
    have hseems : o ∈ os.filter fun o => o.constant.seemsUnassigned :=
      List.mem_filter.2 ⟨ho, by simp [Constant.seemsUnassigned, hgroup]⟩
    have hnone := List.length_filter_eq_length_iff.1 hlength.symm o hseems
    rw [Constant.startsGroup, Option.isNone_iff_eq_none.1 hnone] at hgroup
    exact absurd hgroup Bool.false_ne_true
  · intro h
    refine congrArg (List.map Occurrence.line) (List.filter_congr fun o ho => ?_)
    rw [Constant.seemsUnassigned, h o ho, Bool.or_false]

/-- **A constant is reported as unassigned** on the line of its name, once, when it has no value or
when its value starts with a parenthesis. So exactly the constants without a value are reported when
no value starts with a parenthesis, and only then. -/
theorem constants_reported {config : Config} (hlimit : 1 ≤ config.maxExpressionTokens)
    {name : String} {attributes : List (String × String)}
    (htag : IsContainer config name attributes) {cs : List Constant} {script : List Char}
    (hscript : Spells (cs.flatMap Constant.shapes) script) (file : Option String) :
    ∃ (a : Analysis) (os : List Occurrence) (tag opening : Token) (tail : List Token),
      analyze? config (scriptPage name attributes script) file = some a ∧
      tokenize (scriptPage name attributes script) file
        = tag :: opening :: (os.flatMap Occurrence.tokens ++ tail) ∧
      os.map Occurrence.constant = cs ∧
      reportedLines a = (os.filter fun o => o.constant.seemsUnassigned).map Occurrence.line ∧
      (reportedLines a = (os.filter fun o => o.constant.value.isNone).map Occurrence.line ↔
        ∀ c ∈ cs, c.startsGroup = false) := by
  obtain ⟨tag, opening, inside, tail, htokens, hpage⟩ := exists_tokens htag hscript file
  obtain ⟨os, hconstants, rfl⟩ := exists_occurrences hpage.shapes_eq
  obtain ⟨page, hread, hshows⟩ := readPage?_shows hlimit (scriptPage name attributes script) file
  obtain ⟨a, ha, rfl, hdiagnostics⟩ := exists_analysis hread
  rw [htokens] at hshows
  obtain ⟨hlines, hflat⟩ := unassignedLines_script hlimit hpage.isInside
  have hreported : reportedLines a
      = (os.filter fun o => o.constant.seemsUnassigned).map Occurrence.line := by
    have hnested : ((harvestOf config (os.flatMap Occurrence.tokens)).statements.flatMap
        Node.preorder).flatMap Rule.constantRule = [] := by
      refine List.flatMap_eq_nil_iff.2 fun m hm => ?_
      obtain ⟨s, hs, hm⟩ := List.mem_flatMap.1 hm
      exact hflat s hs m hm
    rw [reportedLines_eq hdiagnostics, unassignedLines_findingsOf, constantRule_page hpage hshows,
      pieceFindings, hnested, List.append_nil, hlines]
  refine ⟨a, os, tag, opening, tail, ha, htokens, hconstants, hreported, ?_⟩
  rw [hreported, seemsUnassigned_iff, ← hconstants, List.forall_mem_map]

/-- The constants of `const A = (1 + 2); const B; const C = 1;`. -/
def threeConstants : List Constant :=
  have one : IsFormula .formula [(.number, "1")] := .literal .number "1" rfl
  have two : IsFormula .formula [(.number, "2")] := .literal .number "2" rfl
  [{ name := "A"
     value := some [(.leftParen, "("), (.number, "1"), (.operator, "+"), (.number, "2"),
       (.rightParen, ")")]
     isFormula := by rintro _ ⟨⟩; exact .group (.binary one (by decide) two) },
   { name := "B", value := none, isFormula := by simp },
   { name := "C", value := some [(.number, "1")], isFormula := by rintro _ ⟨⟩; exact one }]

/-- A page with three constants, of which one has no value. -/
def threeConstantsPage : String :=
  "<body><script>const A = (1 + 2);\nconst B;\nconst C = 1;</script></body>"

theorem threeConstants_reported :
    1 ≤ ({} : Config).maxExpressionTokens ∧ IsContainer {} "body" [] ∧
    ∃ (a : Analysis) (os : List Occurrence) (tag opening : Token) (tail : List Token),
      analyze? {} threeConstantsPage none = some a ∧
      tokenize threeConstantsPage none = tag :: opening :: (os.flatMap Occurrence.tokens ++ tail) ∧
      os.map Occurrence.constant = threeConstants ∧ reportedLines a = [1, 2] ∧
      reportedLines a ≠ (os.filter fun o => o.constant.value.isNone).map Occurrence.line := by
  have htag : IsContainer {} "body" [] := ⟨by decide +kernel, by simp, by decide⟩
  have hscript : Spells (threeConstants.flatMap Constant.shapes)
      "const A = (1 + 2);\nconst B;\nconst C = 1;".toList :=
    @spells_layout [([], .keyword, "const"), ([' '], .identifier, "A"), ([' '], .operator, "="),
      ([' '], .leftParen, "("), ([], .number, "1"), ([' '], .operator, "+"), ([' '], .number, "2"),
      ([], .rightParen, ")"), ([], .punctuation, ";"), (['\n'], .keyword, "const"),
      ([' '], .identifier, "B"), ([], .punctuation, ";"), (['\n'], .keyword, "const"),
      ([' '], .identifier, "C"), ([' '], .operator, "="), ([' '], .number, "1"),
      ([], .punctuation, ";")] (by decide +kernel)
  obtain ⟨a, os, tag, opening, tail, ha, htokens, hconstants, -, hkept⟩ :=
    constants_reported (by decide) htag hscript none
  have hlines : (analyze? {} threeConstantsPage none).map reportedLines = some [1, 2] := by
    decide +kernel
  have hpage : scriptPage "body" [] "const A = (1 + 2);\nconst B;\nconst C = 1;".toList
      = threeConstantsPage := by decide +kernel
  rw [hpage] at ha htokens
  rw [ha] at hlines
  refine ⟨by decide, htag, a, os, tag, opening, tail, ha, htokens, hconstants,
    Option.some.inj hlines, fun h => ?_⟩
  exact absurd (hkept.1 h) (by decide)

end PageLint.Written
