import PageLint.Proofs.Comments.Pages

/-!
# Which comments change a page

Well placed comments change nothing in the contents of a page. The condition cannot ask for less of
the token behind a comment: for every token that does not close there is a page that a single
comment in front of it changes. Five pages show it, each the body of a page with one script.

* in front of a word, `let` loses the name it declares
* in front of a literal, a call loses its argument
* in front of an operator or of what has no place in an expression, a call takes another argument
* in front of an equals sign, a declaration loses its value
* in front of an opening brace, a function loses its body

`comments_ignored_where_placed` is both statements together.
-/

namespace PageLint

/-- Whether there is a page without comments that changes when a comment is put in front of a
token. -/
def ChangedByComment (config : Config) (u : Token) : Prop :=
  ∃ before after : List Token, (∀ t ∈ before ++ after, t.isComment = false) ∧
    ∀ c : Token, c.isComment = true → ∀ file, ∃ page page',
      readTokens? config (before ++ c :: u :: after) file = some page ∧
      readTokens? config (before ++ u :: after) file = some page' ∧ ¬ page.SameContents page'

/-! ## Scripts that differ -/

/-- Scripts with other statements or names make pages with other contents. -/
theorem ChangedByComment.of_scripts {config : Config} (hvoid : "body" ∉ config.voidElements)
    {u : Token} (front after : List Token) (hfree : ∀ t ∈ front ++ after, t.isComment = false)
    (h : ∀ c : Token, c.isComment = true → ∃ a b,
      scriptFrom? config (front ++ c :: u :: after) = some a ∧ a.rest = [] ∧
      scriptFrom? config (front ++ u :: after) = some b ∧ b.rest = [] ∧
      (a.statements ≠ b.statements ∨ a.declared ≠ b.declared)) : ChangedByComment config u := by
  refine ⟨.bare .tagOpen "<body>" :: .bare .scriptOpen "<script>" :: front, after, ?_, ?_⟩
  · intro t ht
    rcases List.mem_cons.1 ht with rfl | ht
    · rfl
    rcases List.mem_cons.1 ht with rfl | ht
    · rfl
    · exact hfree t ht
  · intro c hc file
    obtain ⟨a, b, ha, har, hb, hbr, hne⟩ := h c hc
    obtain ⟨page, hpage, hchildren, -, hnames⟩ :=
      readTokens?_body hvoid (.bare .tagOpen "<body>") (.bare .scriptOpen "<script>") rfl rfl rfl
        ha har file
    obtain ⟨page', hpage', hchildren', -, hnames'⟩ :=
      readTokens?_body hvoid (.bare .tagOpen "<body>") (.bare .scriptOpen "<script>") rfl rfl rfl
        hb hbr file
    refine ⟨page, page', hpage, hpage', ?_⟩
    rintro ⟨hdocument, -, hdeclared⟩
    rcases hne with hne | hne
    · rw [hdocument, hchildren'] at hchildren
      refine hne ?_
      simpa [Progress.bodyNode, Opening.toTag] using hchildren.symm
    · rw [hnames, hnames'] at hdeclared
      exact hne hdeclared

/-! ## Small scripts -/

section Small

variable {config : Config} (hlimit : 1 ≤ config.maxExpressionTokens)

/-- A last name or literal is an expression of its own. -/
theorem readExpression_last (limit : Int) (args : Reader (List Node)) {t : Token}
    (ht : (t.kind == .identifier || t.kind.isLiteral) = true) :
    readExpression limit args [t] = { value := some (.identifier t.toIdentifier), rest := [] } := by
  rw [Bool.or_eq_true, beq_iff_eq] at ht
  rcases ht with hk | hk
  · simp [readExpression, hk, goesOn, isTerminator]
  · cases h : t.kind <;> simp_all [readExpression, TokenKind.isLiteral, isTerminator]

theorem readSimple?_last (limit : Int) {t : Token} (ht : t.kind = .identifier) :
    readSimple? limit t [] =
      some { statements := [.identifier t.toIdentifier], rest := [] } := by
  have hlinks : assignmentLinks [t] = ([], [t]) := by
    rw [assignmentLinks, if_pos (by simpa using ht)]
    rfl
  have hread : (outerExpression limit).read [t] =
      { value := some (.identifier t.toIdentifier), rest := [] } := by
    rw [outerExpression, expression_eq]
    exact readExpression_last limit _ (by simp [ht])
  simp [readSimple?, readAssignment, ht, hlinks, hread, chainNode, dropSemicolon]

/-- A name at the end of a script is a statement. -/
theorem readStatement?_last (config : Config) {t : Token} (ht : t.kind = .identifier) :
    readStatement? config t [] =
      some { statements := [.identifier t.toIdentifier], rest := [] } := by
  simp [readStatement?, readSimple?_last _ ht]

/-- A single token declares no name. -/
theorem declared_last {t : Token} {found : Harvest}
    (h : readStatement? config t [] = some found) : found.declared = [] := by
  have hdeclare : ∀ build, readDeclaration config.maxExpressionTokens build [] = { rest := [] } :=
    fun _ => rfl
  simp only [readStatement?] at h
  split at h
  · rename_i simple hs
    rw [← Option.some.inj h]
    unfold readSimple? at hs
    split at hs
    · rw [← Option.some.inj hs, hdeclare]
    split at hs
    · rw [← Option.some.inj hs, hdeclare]
    split at hs
    · rw [← Option.some.inj hs]
      rfl
    · simp at hs
  split at h
  · rw [← Option.some.inj h]
  split at h
  · rw [← Option.some.inj h]
  · rw [← Option.some.inj h]

include hlimit

/-- The script of a single word is read to its end and declares nothing. -/
theorem scriptFrom?_word {t : Token} (ht : t.kind.isWord = true) :
    ∃ found, scriptFrom? config [t] = some found ∧ found.rest = [] ∧ found.declared = [] := by
  have he : t.kind ≠ .eof ∧ t.kind ≠ .scriptClose := by
    cases hk : t.kind <;> simp_all [TokenKind.isWord]
  obtain ⟨found, hfound⟩ := readStatement?_isSome hlimit t []
  have hrest : found.rest = [] :=
    List.suffix_nil.1 (readStatement?_suffix_tail hlimit hfound)
  refine ⟨found.append { rest := [] }, ?_, rfl, ?_⟩
  · exact scriptFrom?_statement hlimit he.1 he.2 hfound (by rw [hrest, scriptFrom?_nil])
  · simp [Harvest.append, declared_last hfound]

/-- The script of a single name. -/
theorem scriptFrom?_name {t : Token} (ht : t.kind = .identifier) :
    scriptFrom? config [t] =
      some { statements := [.identifier t.toIdentifier], rest := [] } := by
  rw [scriptFrom?_statement hlimit (by simp [ht]) (by simp [ht]) (readStatement?_last config ht)
    (scriptFrom?_nil config)]
  rfl

theorem scriptFrom?_comment {c : Token} (hc : c.isComment = true) (ts : List Token) :
    scriptFrom? config (c :: ts) = scriptFrom? config ts := by
  have hk : c.kind = .comment := by simpa [Token.isComment] using hc
  exact scriptFrom?_pass hlimit (by simp [hk]) (by simp [hk]) (by simp [hk]) (by simp [hk]) ts

/-! ## Declarations and functions -/

theorem changedByComment_word (hvoid : "body" ∉ config.voidElements) {u : Token}
    (hu : u.kind.isWord = true) : ChangedByComment config u := by
  refine .of_scripts hvoid [.bare .keyword "let"] [] (by simp [Token.isComment, Token.bare]) ?_
  intro c hc
  obtain ⟨last, hlast, hrest, hdeclared⟩ := scriptFrom?_word hlimit hu
  have hstops : stops [c, u] = true := by simp [stops, hc]
  have hlost : readStatement? config (.bare .keyword "let") [c, u] = some { rest := [c, u] } := by
    show some (readDeclaration _ _ [c, u]) = _
    rw [readDeclaration_closes _ _ hstops]
  have hkept : ∃ found, readStatement? config (.bare .keyword "let") [u] = some found ∧
      found.declared = [u.text] ∧ found.rest = [] := by
    refine ⟨readDeclaration _ _ [u], rfl, ?_⟩
    rw [readDeclaration, hu]
    exact ⟨rfl, rfl⟩
  obtain ⟨found, hfound, hname, hleft⟩ := hkept
  refine ⟨_, _, scriptFrom?_statement hlimit (by decide) (by decide) hlost
      (by rw [scriptFrom?_comment hlimit hc, hlast]), hrest,
    scriptFrom?_statement hlimit (by decide) (by decide) hfound
      (by rw [hleft, scriptFrom?_nil]), rfl, Or.inr ?_⟩
  simp [Harvest.append, hdeclared, hname]

/-- The statements of two scripts whose first statements are as many, when the first goes on and the
second ends. -/
theorem statements_ne {t y : Token} {ts ts' : List Token} {lost kept : Harvest}
    (hk : t.kind = .keyword) (hlost : readStatement? config t ts = some lost)
    (hkept : readStatement? config t ts' = some kept)
    (hlength : lost.statements.length = kept.statements.length) (hy : y.kind = .identifier)
    (hmore : scriptFrom? config lost.rest = scriptFrom? config [y]) (hrest : kept.rest = []) :
    ∃ a b, scriptFrom? config (t :: ts) = some a ∧ a.rest = [] ∧
      scriptFrom? config (t :: ts') = some b ∧ b.rest = [] ∧
      (a.statements ≠ b.statements ∨ a.declared ≠ b.declared) := by
  rw [scriptFrom?_name hlimit hy] at hmore
  refine ⟨_, _, scriptFrom?_statement hlimit (by simp [hk]) (by simp [hk]) hlost hmore, rfl,
    scriptFrom?_statement hlimit (by simp [hk]) (by simp [hk]) hkept
      (by rw [hrest, scriptFrom?_nil]), rfl, Or.inl ?_⟩
  intro heq
  have hlengths := congrArg List.length heq
  simp [Harvest.append, hlength] at hlengths

theorem changedByComment_equals (hvoid : "body" ∉ config.voidElements) {u : Token}
    (hk : u.kind = .operator) (ht : u.text = "=") : ChangedByComment config u := by
  -- Without the comment, the value is a last name.
  have hvalue : ∀ y : Token, y.kind = .identifier →
      (readInitializer config.maxExpressionTokens [u, y]).rest = [] := by
    intro y hy
    rw [readInitializer, if_pos (by simp [hk, ht]), outerExpression, expression_eq]
    show (readExpression _ _ [y]).rest = []
    rw [readExpression_last _ _ (by simp [hy])]
  refine .of_scripts hvoid [.bare .keyword "let", .bare .identifier "x"] [.bare .identifier "y"]
    (by simp [Token.isComment, Token.bare]) ?_
  intro c hc
  have hstops : ∀ ts, stops (c :: ts) = true := fun ts => by simp [stops, hc]
  have hkind : c.kind = .comment := by simpa [Token.isComment] using hc
  refine statements_ne hlimit rfl rfl rfl rfl (y := .bare .identifier "y") rfl ?_ ?_
  · show scriptFrom? config (dropSemicolon (readInitializer _ (c :: _)).rest) = _
    rw [readInitializer_closes _ (hstops _)]
    show scriptFrom? config (if c.isMark ";" then _ else c :: _) = _
    rw [if_neg (by simp [Token.isMark, hkind]), scriptFrom?_comment hlimit hc]
    exact scriptFrom?_pass hlimit (by simp [hk]) (by simp [hk]) (by simp [hk]) (by simp [hk]) _
  · show dropSemicolon (readInitializer _ [u, _]).rest = []
    rw [hvalue _ rfl]
    rfl

theorem changedByComment_leftBrace (hvoid : "body" ∉ config.voidElements) {u : Token}
    (hk : u.kind = .leftBrace) : ChangedByComment config u := by
  have hbody : ∀ y : Token, y.kind = .identifier →
      bodyFrom? config.maxExpressionTokens 1 [y] =
        some { statements := [.identifier y.toIdentifier], rest := [] } := by
    intro y hy
    rw [bodyFrom?_simple hlimit (by simp [hy, TokenKind.isBoundary]) (readSimple?_last _ hy),
      bodyFrom?]
    rfl
  have hkept : ∀ f y : Token, f.kind = .identifier → y.kind = .identifier → ∃ found,
      readFunction? config.maxExpressionTokens (.bare .keyword "function") [f, u, y] = some found ∧
      found.statements.length = 1 ∧ found.rest = [] := by
    intro f y hf hy
    have hlist : readParameterList [u, y] = ([], [u, y]) := by simp [readParameterList, hk]
    rw [readFunction?, if_pos (by simp [hf, TokenKind.isWord]), hlist]
    simp only
    rw [readBody?, if_pos (by simpa using hk), hbody y hy]
    exact ⟨_, rfl, rfl, rfl⟩
  have hlost : ∀ (f c : Token) (ts : List Token), f.kind = .identifier → c.isComment = true →
      ∃ found, readFunction? config.maxExpressionTokens (.bare .keyword "function")
        (f :: c :: ts) = some found ∧ found.statements.length = 1 ∧ found.rest = c :: ts := by
    intro f c ts hf hc
    have hkind : c.kind = .comment := by simpa [Token.isComment] using hc
    have hlist : readParameterList (c :: ts) = ([], c :: ts) := by simp [readParameterList, hkind]
    rw [readFunction?, if_pos (by simp [hf, TokenKind.isWord]), hlist]
    simp only
    rw [readBody?, if_neg (by simp [hkind])]
    exact ⟨_, rfl, rfl, rfl⟩
  refine .of_scripts hvoid [.bare .keyword "function", .bare .identifier "f"]
    [.bare .identifier "y"] (by simp [Token.isComment, Token.bare]) ?_
  intro c hc
  obtain ⟨lost, hlost, hone, hrest⟩ :=
    hlost (.bare .identifier "f") c [u, .bare .identifier "y"] rfl hc
  obtain ⟨kept, hkept, hone', hrest'⟩ :=
    hkept (.bare .identifier "f") (.bare .identifier "y") rfl rfl
  refine statements_ne hlimit rfl hlost hkept (by rw [hone, hone'])
    (y := .bare .identifier "y") rfl ?_ hrest'
  rw [hrest, scriptFrom?_comment hlimit hc]
  exact scriptFrom?_pass hlimit (by simp [hk]) (by simp [hk]) (by simp [hk]) (by simp [hk]) _

/-! ## Arguments -/

omit hlimit in
/-- A call that ends the script is a statement with what is read as its arguments. -/
theorem readStatement?_call {f paren : Token} (hf : f.kind = .identifier)
    (hp : paren.kind = .leftParen) {inner : List Token}
    (hnone : findAssignment? (paren :: inner) = none)
    (hrest : (argumentsFrom (expression config.maxExpressionTokens 99) inner).rest = []) :
    ∃ found site callee, readStatement? config f (paren :: inner) = some found ∧
      found.statements = [.call site callee
        (argumentsFrom (expression config.maxExpressionTokens 99) inner).value] ∧
      found.rest = [] := by
  have hlinks : assignmentLinks (f :: paren :: inner) = ([], f :: paren :: inner) := by
    rw [assignmentLinks, if_pos (by simpa using hf)]
    split
    · rfl
    · rename_i hsome
      rw [hnone] at hsome
      simp at hsome
  have htail : dottedTail (paren :: inner) = ([], paren :: inner) := by
    cases inner with
    | nil => rfl
    | cons t ts => simp [dottedTail, Token.isMark, hp]
  have hname : dottedName false (f :: paren :: inner) = ([f.text], paren :: inner) := by
    rw [dottedName, if_pos (by simp [hf]), htail]
  have hargs : argumentsAt (readArguments (expression config.maxExpressionTokens 99))
      (paren :: inner) =
      { value := some (argumentsFrom (expression config.maxExpressionTokens 99) inner).value
        events := (argumentsFrom (expression config.maxExpressionTokens 99) inner).events
        rest := [] } := by
    rw [argumentsAt, if_pos (by simpa using hp)]
    simp only [readArguments, hrest, dropRightParen]
  have hread : ∃ site callee events, (outerExpression config.maxExpressionTokens).read
      (f :: paren :: inner) =
      { value := some (.call site callee
          (argumentsFrom (expression config.maxExpressionTokens 99) inner).value)
        events
        rest := [] } := by
    show ∃ site callee events, readExpression config.maxExpressionTokens
      (readArguments (expression config.maxExpressionTokens 99)) (f :: paren :: inner) = _
    have hgo : goesOn (paren :: inner) = true := by simp [goesOn, hp]
    simp only [readExpression, hf, hgo, Bool.and_true, beq_self_eq_true, if_true,
      (by decide : (TokenKind.identifier == TokenKind.eof) = false),
      (by decide : (TokenKind.identifier == TokenKind.keyword) = false), Bool.false_and,
      Bool.false_eq_true, if_false, namedOperand, hname, List.isEmpty_cons, hargs]
    rw [chainedNames]
    exact ⟨_, _, _, rfl⟩
  obtain ⟨site, callee, events, hread⟩ := hread
  refine ⟨readAssignment config.maxExpressionTokens (f :: paren :: inner), site, callee, ?_, ?_, ?_⟩
  · simp [readStatement?, readSimple?, hf]
  · simp [readAssignment, hlinks, hread, chainNode]
  · simp [readAssignment, hlinks, hread, dropSemicolon]

/-- A comment that changes the arguments of a call changes a page. -/
theorem ChangedByComment.of_arguments (hvoid : "body" ∉ config.voidElements) {u : Token}
    (hends : endsArguments u = false) (after : List Token)
    (hfree : ∀ t ∈ after, t.isComment = false) (hnone : findAssignment? (u :: after) = none)
    (hafter : (argumentsFrom (expression config.maxExpressionTokens 99) after).rest = [])
    (hall : (argumentsFrom (expression config.maxExpressionTokens 99) (u :: after)).rest = [])
    (hne : (argumentsFrom (expression config.maxExpressionTokens 99) after).value ≠
      (argumentsFrom (expression config.maxExpressionTokens 99) (u :: after)).value) :
    ChangedByComment config u := by
  refine .of_scripts hvoid [.bare .identifier "f", .bare .leftParen "("] after ?_ ?_
  · intro t ht
    rcases List.mem_append.1 ht with ht | ht
    · simp only [List.mem_cons, List.not_mem_nil, or_false] at ht
      rcases ht with rfl | rfl <;> rfl
    · exact hfree t ht
  intro c hc
  have hkind : c.kind = .comment := by simpa [Token.isComment] using hc
  -- The comment is read in place of the argument, and the token behind it is skipped.
  obtain ⟨hvalue, hrest⟩ := argumentsFrom_cons (expression config.maxExpressionTokens 99)
    (endsArguments_comment hc) (u :: after)
  obtain ⟨hvoided, hleft⟩ := (expression_agree hlimit 99).comment c (u :: after) hc
  rw [hvoided, hleft, afterArgument, hends] at hvalue
  rw [hleft, afterArgument, hends] at hrest
  have hopen : ∀ ts, findAssignment? ts = none →
      findAssignment? (Token.bare .leftParen "(" :: ts) = none := by
    intro ts hts
    rw [findAssignment?, hts]
    rfl
  have hcomment : findAssignment? (c :: u :: after) = none := by
    rw [findAssignment?, hnone]
    simp [hkind, TokenKind.isBoundary, Token.isMark]
  have hf : (Token.bare .identifier "f").kind = .identifier := rfl
  obtain ⟨lost, site, callee, hlost, hcall, hlrest⟩ :=
    readStatement?_call hf rfl (hopen _ hcomment) (by rw [hrest]; exact hafter)
  obtain ⟨kept, site', callee', hkept, hcall', hkrest⟩ :=
    readStatement?_call hf rfl (hopen _ hnone) hall
  refine ⟨_, _, scriptFrom?_statement hlimit (by decide) (by decide) hlost
      (by rw [hlrest, scriptFrom?_nil]), rfl,
    scriptFrom?_statement hlimit (by decide) (by decide) hkept
      (by rw [hkrest, scriptFrom?_nil]), rfl, Or.inl ?_⟩
  intro heq
  rw [hvalue] at hcall
  simp only [Harvest.append, hcall, hcall', List.append_nil] at heq
  simp only [List.cons.injEq, Node.call.injEq, and_true] at heq
  exact hne heq.2.2

theorem changedByComment_literal (hvoid : "body" ∉ config.voidElements) {u : Token}
    (hu : u.kind.isLiteral = true) : ChangedByComment config u := by
  have hends : endsArguments u = false := by
    cases hk : u.kind <;>
      simp_all [endsArguments, TokenKind.isLiteral, TokenKind.isBoundary]
  have hread : (expression config.maxExpressionTokens 99).read [u] =
      { value := some (.identifier u.toIdentifier), rest := [] } := by
    rw [expression_eq]
    exact readExpression_last _ _ (by rw [hu, Bool.or_true])
  obtain ⟨hvalue, hrest⟩ := argumentsFrom_cons (expression config.maxExpressionTokens 99) hends []
  rw [hread] at hvalue hrest
  have hnil : argumentsFrom (expression config.maxExpressionTokens 99) [] =
      { value := [], rest := [] } := by rw [argumentsFrom]
  refine .of_arguments hlimit hvoid hends [] (by simp) ?_ (by rw [hnil]) (by rw [hrest]; rfl) ?_
  · cases hk : u.kind <;>
      simp_all [findAssignment?, TokenKind.isLiteral, TokenKind.isBoundary, Token.isMark]
  · rw [hnil, hvalue]
    simp

/-- In front of a name, a token that neither is nor ends an operand leaves the name to be skipped,
or makes an expression with it. -/
theorem readExpression_pair {u y : Token} (args : Reader (List Node))
    (hb : u.kind.isBoundary = false) (ht : isTerminator (some u) = false)
    (hw : u.kind.isWord = false) (hl : u.kind.isLiteral = false)
    (ha : (u.kind == .operator && isAssignmentOperator u.text) = false)
    (hy : y.kind = .identifier) :
    let r := readExpression config.maxExpressionTokens args [u, y]
    (r.value = none ∧ r.rest = [y]) ∨
      (∃ site operands operators, r.value = some (.expression site operands operators)) ∧
        r.rest = [] := by
  obtain ⟨n, hn⟩ : ∃ n, config.maxExpressionTokens.toNat = n + 1 :=
    ⟨config.maxExpressionTokens.toNat - 1, by omega⟩
  have hkind : u.kind ≠ .identifier ∧ u.kind ≠ .keyword ∧ u.kind ≠ .eof := by
    refine ⟨?_, ?_, ?_⟩ <;> intro hk <;> simp [hk, TokenKind.isWord, TokenKind.isBoundary] at hw hb
  have hid : (u.kind == .identifier && goesOn [y]) = false := by simp [hkind.1]
  obtain ⟨hvalue, hrest⟩ :=
    readExpression_flat hlimit args hkind.2.2 (by simp [hkind.2.1]) hid
  intro r
  rw [show r = readExpression config.maxExpressionTokens args [u, y] from rfl, hvalue, hrest, hn,
    flatRun, hb, ht]
  by_cases hop : u.kind = .operator
  · have hassign : isAssignmentOperator u.text = false := by simpa [hop] using ha
    simp only [hop, hassign, beq_self_eq_true, if_true, Bool.or_self, Bool.false_eq_true, if_false]
    cases n with
    | zero => exact Or.inl ⟨rfl, rfl⟩
    | succ n =>
      have hlast : ∀ cut, (flatRun args cut (n + 1) [y]).value =
          ([.identifier y.toIdentifier], []) ∧ (flatRun args cut (n + 1) [y]).rest = [] := by
        intro cut
        cases n <;>
          simp [flatRun, hy, TokenKind.isBoundary, isTerminator, Token.isMark, goesOn]
      rw [(hlast _).1, (hlast _).2]
      exact Or.inr ⟨⟨_, _, _, rfl⟩, rfl⟩
  · left
    simp [hop, hkind.1, hl, flatNode]

/-- What has no place in an expression, and an operator that stores nothing. -/
theorem changedByComment_other (hvoid : "body" ∉ config.voidElements) {u : Token}
    (hb : u.kind.isBoundary = false) (ht : isTerminator (some u) = false)
    (hw : u.kind.isWord = false) (hl : u.kind.isLiteral = false)
    (ha : (u.kind == .operator && isAssignmentOperator u.text) = false) :
    ChangedByComment config u := by
  have hends : endsArguments u = false := by
    rw [endsArguments, hb]
    simp only [isTerminator, Bool.or_eq_false_iff] at ht
    exact ht.1.1
  have hnil : argumentsFrom (expression config.maxExpressionTokens 99) [] =
      { value := [], rest := [] } := by rw [argumentsFrom]
  have hyends : ∀ y : Token, y.kind = .identifier → endsArguments y = false := by
    intro y hy
    simp [endsArguments, hy, TokenKind.isBoundary]
  have hname : ∀ y : Token, y.kind = .identifier →
      (argumentsFrom (expression config.maxExpressionTokens 99) [y]).value =
          [.identifier y.toIdentifier] ∧
        (argumentsFrom (expression config.maxExpressionTokens 99) [y]).rest = [] := by
    intro y hy
    have hread : (expression config.maxExpressionTokens 99).read [y] =
        { value := some (.identifier y.toIdentifier), rest := [] } := by
      rw [expression_eq]
      exact readExpression_last _ _ (by simp [hy])
    obtain ⟨hvalue, hrest⟩ :=
      argumentsFrom_cons (expression config.maxExpressionTokens 99) (hyends y hy) []
    rw [hread] at hvalue hrest
    exact ⟨hvalue, hrest⟩
  have hpair : ∀ y : Token, y.kind = .identifier →
      (argumentsFrom (expression config.maxExpressionTokens 99) [u, y]).rest = [] ∧
        (argumentsFrom (expression config.maxExpressionTokens 99) [u, y]).value ≠
          [.identifier y.toIdentifier] := by
    intro y hy
    have hread : (expression config.maxExpressionTokens 99).read [u, y] = readExpression
        config.maxExpressionTokens (argumentReader config.maxExpressionTokens 99) [u, y] := by
      rw [expression_eq]
      rfl
    obtain ⟨hvalue, hrest⟩ :=
      argumentsFrom_cons (expression config.maxExpressionTokens 99) hends [y]
    rw [hread] at hvalue hrest
    rcases readExpression_pair hlimit (argumentReader config.maxExpressionTokens 99) hb ht hw hl ha
      hy with ⟨hnone, hleft⟩ | ⟨⟨site, operands, operators, hsome⟩, hleft⟩
    · rw [hnone, hleft, afterArgument, hyends y hy, hnil] at hvalue
      rw [hleft, afterArgument, hyends y hy, hnil] at hrest
      exact ⟨hrest, by rw [hvalue]; simp⟩
    · rw [hsome, hleft, afterArgument] at hvalue
      rw [hleft, afterArgument] at hrest
      exact ⟨hrest, by rw [hvalue]; simp⟩
  obtain ⟨hone, hone'⟩ := hname (.bare .identifier "y") rfl
  obtain ⟨htwo, htwo'⟩ := hpair (.bare .identifier "y") rfl
  refine .of_arguments hlimit hvoid hends [.bare .identifier "y"]
    (by simp [Token.isComment, Token.bare]) ?_ hone' htwo ?_
  · have hsemi : u.isMark ";" = false := by
      simp only [isTerminator, Bool.or_eq_false_iff] at ht
      exact ht.1.2
    rw [findAssignment?, hb, hsemi, ha]
    rfl
  · rw [hone]
    exact htwo'.symm

/-! ## All tokens that do not close -/

/-- **A comment in front of a token that does not close changes some page.** -/
theorem changedByComment_of_not_closes (hvoid : "body" ∉ config.voidElements) {u : Token}
    (hn : u.closes = false) : ChangedByComment config u := by
  by_cases hw : u.kind.isWord = true
  · exact changedByComment_word hlimit hvoid hw
  by_cases hl : u.kind.isLiteral = true
  · exact changedByComment_literal hlimit hvoid hl
  by_cases hbrace : u.kind = .leftBrace
  · exact changedByComment_leftBrace hlimit hvoid hbrace
  by_cases hequals : u.kind = .operator ∧ u.text = "="
  · exact changedByComment_equals hlimit hvoid hequals.1 hequals.2
  · have hother : u.kind.isBoundary = false ∧ isTerminator (some u) = false ∧
        (u.kind == .operator && isAssignmentOperator u.text) = false := by
      unfold Token.closes at hn
      cases hk : u.kind <;> simp_all [TokenKind.isBoundary, isTerminator, Token.isMark]
    exact changedByComment_other hlimit hvoid hother.1 hother.2.1 (by simpa using hw)
      (by simpa using hl) hother.2.2

end Small

/-- **Comments are ignored where they are well placed**: the page has the same document, ids and
declared names as without them. Where the token behind a comment matters, it has to be one that
closes, for any other token can be put into a page that a comment in front of it changes. -/
theorem comments_ignored_where_placed (config : Config)
    (hlimit : 1 ≤ config.maxExpressionTokens) :
    (∀ ts file, placed .markup ts = true → ∃ page page',
      readTokens? config ts file = some page ∧
      readTokens? config (withoutComments ts) file = some page' ∧ page.SameContents page') ∧
    ("body" ∉ config.voidElements → ∀ u : Token, u.isComment = false → u.closes = false →
      ChangedByComment config u) := by
  refine ⟨?_, ?_⟩
  · intro ts file h
    exact readTokens?_agree hlimit h file
  · intro hvoid u _ hn
    exact changedByComment_of_not_closes hlimit hvoid hn

/-- A script with comments in the target of an assignment, behind the argument of a call, between
two statements and in front of an `else`. -/
def commentedScript : List Token :=
  [.bare .tagOpen "<body>", .bare .comment "<!-- page -->", .bare .scriptOpen "<script>",
    .bare .comment "// start", .bare .identifier "x", .bare .comment "/* note */",
    .bare .operator "=", .bare .identifier "f", .bare .leftParen "(", .bare .identifier "a",
    .bare .comment "/* last */", .bare .rightParen ")", .bare .punctuation ";",
    .bare .keyword "if", .bare .leftParen "(", .bare .identifier "x", .bare .rightParen ")",
    .bare .comment "/* then */", .bare .leftBrace "\x7b", .bare .rightBrace "\x7d",
    .bare .comment "/* or */", .bare .keyword "else", .bare .scriptClose "</script>"]

theorem commentedScript_ignored :
    (1 : Int) ≤ ({} : Config).maxExpressionTokens ∧ placed .markup commentedScript = true ∧
      (∃ page page', readTokens? {} commentedScript none = some page ∧
        readTokens? {} (withoutComments commentedScript) none = some page' ∧
        page.SameContents page') ∧
      ChangedByComment {} (.bare .identifier "x") := by
  have hlimit : (1 : Int) ≤ ({} : Config).maxExpressionTokens := by decide
  have hplaced : placed .markup commentedScript = true := by decide
  refine ⟨hlimit, hplaced, ?_, ?_⟩
  · exact (comments_ignored_where_placed {} hlimit).1 commentedScript none hplaced
  · exact (comments_ignored_where_placed {} hlimit).2 (by decide) (.bare .identifier "x") rfl rfl

end PageLint
