import PageLint.Proofs.Written.Singles
import PageLint.Proofs.Written.Sums

/-!
# Written calls

The arguments of a call are names, literals and further calls. Written with commas between its
arguments and a semicolon behind it, a call is read back as it is, as long as its calls do not nest
deeper than calls are read. How long an expression may get does not matter: a call and each of its
arguments is read as one operand and starts no run.

* `Tree`, `Tree.IsReadAs` — calls as they are written and as they stand in the tree of a page
* `Tree.depth` — how deep the calls of a tree nest
* `Tree.spells` — the text of a tree spells its tokens
* `Tree.readAs` — expressions that read calls deep enough read a tree in full
* `exists_page_of_statement` — the page of a tag around a script with one statement
* `call_readBack` — a call that is the only statement of a script is read back
-/

namespace PageLint.Written

/-! ## Trees of calls -/

/-- A name or a literal, or the call of a name with its arguments. -/
inductive Tree where
  | atom (a : Atom)
  | call (first : String) (others : List Word) (arguments : List Tree)

namespace Tree

/-- Induction on trees, with all arguments of a call at once. -/
theorem induct {P : Tree → Prop} (atom : ∀ a, P (atom a))
    (call : ∀ first others arguments, (∀ t ∈ arguments, P t) → P (call first others arguments)) :
    ∀ t, P t
  | .atom a => atom a
  | .call first others arguments =>
    call first others arguments fun t _ => induct atom call t

mutual

/-- The tokens of a tree. -/
def shapes : Tree → List (TokenKind × String)
  | atom a => a.shapes
  | call first others arguments =>
    nameShapes first others ++ (.leftParen, "(") ::
      (List.intercalate [(.punctuation, ",")] (argumentShapes arguments) ++ [(.rightParen, ")")])

/-- The tokens of each argument of a call. -/
def argumentShapes : List Tree → List (List (TokenKind × String))
  | [] => []
  | t :: ts => t.shapes :: argumentShapes ts

end

mutual

/-- The text of a tree: the arguments of a call in parentheses, with a comma and a space between
them. -/
def text : Tree → List Char
  | atom a => a.text.toList
  | call first others arguments =>
    (nameText first others).toList ++
      '(' :: (List.intercalate [',', ' '] (argumentTexts arguments) ++ [')'])

/-- The text of each argument of a call. -/
def argumentTexts : List Tree → List (List Char)
  | [] => []
  | t :: ts => t.text :: argumentTexts ts

end

mutual

/-- How deep the calls of a tree nest. -/
def depth : Tree → Nat
  | atom _ => 0
  | call _ _ arguments => argumentDepth arguments + 1

/-- How deep calls nest in the arguments of a call. -/
def argumentDepth : List Tree → Nat
  | [] => 0
  | t :: ts => max t.depth (argumentDepth ts)

end

theorem argumentShapes_eq_map (ts : List Tree) : argumentShapes ts = ts.map shapes := by
  induction ts with
  | nil => rfl
  | cons t ts ih => rw [argumentShapes, ih, List.map_cons]

theorem argumentTexts_eq_map (ts : List Tree) : argumentTexts ts = ts.map text := by
  induction ts with
  | nil => rfl
  | cons t ts ih => rw [argumentTexts, ih, List.map_cons]

theorem depth_le_argumentDepth {t : Tree} {ts : List Tree} (h : t ∈ ts) :
    t.depth ≤ argumentDepth ts := by
  induction ts with
  | nil => cases h
  | cons u ts ih =>
    rw [argumentDepth]
    rcases List.mem_cons.1 h with rfl | h
    · exact Nat.le_max_left _ _
    · exact Nat.le_trans (ih h) (Nat.le_max_right _ _)

/-- Whether a node is a tree: an atom, or a call with its name and its arguments in their order. -/
inductive IsReadAs : Tree → Node → Prop
  | atom {a : Atom} {n : Node} (h : a.IsReadAs n) : IsReadAs (.atom a) n
  | call {first : String} {others : List Word} {arguments : List Tree} {callee : Identifier}
      {nodes : List Node} (site : Site) (name : callee.name = nameText first others)
      (arguments_read : List.Forall₂ IsReadAs arguments nodes) :
      IsReadAs (.call first others arguments) (.call site callee nodes)

/-- A tree can be written: its names and literals are words, numbers and closed strings. -/
def IsWritten (t : Tree) : Prop := ∀ shape ∈ t.shapes, IsLexeme shape

end Tree

/-! ## The text of a tree -/

/-- Whether a text starts with a mark that goes on no token in front of it. -/
def startsWithMark (rest : List Char) : Bool :=
  rest.head?.any fun c => c == '(' || c == ')' || c == ',' || c == ';'

theorem mayFollow_of_startsWithMark (kind : TokenKind) {rest : List Char}
    (h : startsWithMark rest = true) : mayFollow kind rest = true := by
  have hmarks : (['(', ')', ',', ';'].all fun c =>
      TokenKind.all.all fun kind => mayFollow kind [c]) = true := by
    decide +kernel
  obtain ⟨c, hhead, hc⟩ := (Option.any_eq_true _ _).1 h
  obtain ⟨tail, rfl⟩ := List.head?_eq_some_iff.1 hhead
  have hmem : c ∈ ['(', ')', ',', ';'] := by simpa [or_assoc] using hc
  have hkind : kind ∈ TokenKind.all := by cases kind <;> decide
  rw [mayFollow_congr (show (c :: tail).head? = [c].head? from rfl)]
  exact List.all_eq_true.1 (List.all_eq_true.1 hmarks c hmem) kind hkind

theorem startsWithMark_append {rest : List Char} (h : startsWithMark rest = true)
    (more : List Char) : startsWithMark (rest ++ more) = true := by
  cases rest with
  | nil => cases h
  | cons c rest => exact h

/-- A word ends in front of a dot or a mark. -/
theorem mayFollow_of_isWord {kind : TokenKind} (hkind : kind.isWord = true) {rest : List Char}
    (h : endsWord rest = true) : mayFollow kind rest = true := by
  cases kind <;> simp only [TokenKind.isWord, Bool.false_eq_true] at hkind <;> exact h

section Spelling

variable {more : List (TokenKind × String)} {rest : List Char} (h : Spells more rest)

include h

theorem spells_gap {gap : List Char} (hgap : gap.all isSkipped = true) :
    Spells more (gap ++ rest) := by
  cases h with
  | nil hgap' => exact .nil (by rw [List.all_append, hgap, hgap']; rfl)
  | cons hgap' hshape hfollow hrest =>
    rw [← List.append_assoc]
    exact .cons (by rw [List.all_append, hgap, hgap']; rfl) hshape hfollow hrest

/-- A token that nothing behind it goes on. -/
theorem spells_lexeme {shape : TokenKind × String} (hshape : IsLexeme shape)
    (hfollow : mayFollow shape.1 (rest ++ ['<']) = true) :
    Spells (shape :: more) (shape.2.toList ++ rest) :=
  .cons (show [].all isSkipped = true from rfl) hshape hfollow h

theorem spells_mark {c : Char} (hc : c ∈ marks) :
    Spells ((markKind c, String.ofList [c]) :: more) (c :: rest) := by
  have hkinds : (marks.all fun c => markKind c == .leftParen || markKind c == .rightParen ||
      markKind c == .punctuation) = true := by
    decide
  have hkind := List.all_eq_true.1 hkinds c hc
  simp only [Bool.or_eq_true, beq_iff_eq] at hkind
  have hfollow : mayFollow (markKind c) (rest ++ ['<']) = true := by
    rcases hkind with (hk | hk) | hk <;> rw [hk] <;> rfl
  have hmark := spells_lexeme h (.mark hc) hfollow
  rwa [String.toList_ofList] at hmark

variable (hrest : startsWithMark rest = true)

include hrest

/-- Words behind dots. -/
theorem spells_words {words : List Word} (hwords : ∀ w ∈ words, IsLexeme (w.kind, w.text)) :
    Spells (words.flatMap (fun w => [(.punctuation, "."), (w.kind, w.text)]) ++ more)
        (words.flatMap (fun w => '.' :: w.text.toList) ++ rest) ∧
      endsWord (words.flatMap (fun w => '.' :: w.text.toList) ++ rest ++ ['<']) = true := by
  induction words with
  | nil =>
    exact ⟨h, mayFollow_of_startsWithMark .identifier (startsWithMark_append hrest _)⟩
  | cons w words ih =>
    obtain ⟨hw, hwords⟩ := List.forall_mem_cons.1 hwords
    obtain ⟨hspells, hends⟩ := ih hwords
    have hword := spells_lexeme hspells hw (mayFollow_of_isWord w.isWord hends)
    have hdot : Text.isWordPart '.' = false := by decide +kernel
    refine ⟨?_, by simp [endsWord, hdot]⟩
    rw [List.flatMap_cons, List.flatMap_cons, List.append_assoc, List.append_assoc]
    exact spells_mark hword (show '.' ∈ marks by decide)

omit h hrest in
theorem toList_nameText (first : String) (others : List Word) : (nameText first others).toList =
    first.toList ++ others.flatMap fun w => '.' :: w.text.toList := by
  have hjoined (front : List Char) (others : List Word) :
      List.intercalate ['.'] (front :: others.map fun w => w.text.toList) =
        front ++ others.flatMap fun w => '.' :: w.text.toList := by
    induction others generalizing front with
    | nil => simp
    | cons w others ih => simp [List.intercalate_cons_cons, ih]
  rw [nameText, String.toList_intercalate, List.map_cons, List.map_map]
  exact hjoined first.toList others

/-- The text of a name is its words with dots between them. -/
theorem spells_name {first : String} {others : List Word}
    (hname : ∀ shape ∈ nameShapes first others, IsLexeme shape) :
    Spells (nameShapes first others ++ more) ((nameText first others).toList ++ rest) := by
  obtain ⟨hfirst, hothers⟩ := List.forall_mem_cons.1 hname
  have hwords : ∀ w ∈ others, IsLexeme (w.kind, w.text) := fun w hw =>
    hothers _ (List.mem_flatMap.2 ⟨w, hw, by simp⟩)
  obtain ⟨hspells, hends⟩ := spells_words h hrest hwords
  rw [toList_nameText, List.append_assoc]
  exact spells_lexeme hspells hfirst hends

end Spelling

/-- The text of arguments, each of which is spelled, with commas and spaces between them. -/
theorem spells_arguments {ts : List Tree}
    (hts : ∀ t ∈ ts, t.IsWritten → ∀ {more rest}, Spells more rest → startsWithMark rest = true →
      Spells (t.shapes ++ more) (t.text ++ rest))
    (hwritten : ∀ shape ∈ List.intercalate [(TokenKind.punctuation, ",")] (ts.map Tree.shapes),
      IsLexeme shape)
    {more : List (TokenKind × String)} {rest : List Char} (h : Spells more rest)
    (hrest : startsWithMark rest = true) :
    Spells (List.intercalate [(.punctuation, ",")] (ts.map Tree.shapes) ++ more)
      (List.intercalate [',', ' '] (ts.map Tree.text) ++ rest) := by
  induction ts with
  | nil => exact h
  | cons t ts ih =>
    obtain ⟨ht, hts⟩ := List.forall_mem_cons.1 hts
    cases ts with
    | nil =>
      simp only [List.map_cons, List.map_nil, List.intercalate_singleton] at hwritten ⊢
      exact ht hwritten h hrest
    | cons u ts =>
      simp only [List.map_cons, List.intercalate_cons_cons, List.append_assoc,
        List.forall_mem_append] at hwritten ih ⊢
      obtain ⟨hfront, -, hback⟩ := hwritten
      have hspace : [' '].all isSkipped = true := rfl
      have hmore := spells_mark (spells_gap (ih hts hback) hspace) (show ',' ∈ marks by decide)
      exact ht hfront hmore rfl

/-- **The text of a tree spells its tokens.** -/
theorem Tree.spells (t : Tree) (ht : t.IsWritten) : ∀ {more rest}, Spells more rest →
    startsWithMark rest = true → Spells (t.shapes ++ more) (t.text ++ rest) := by
  induction t using Tree.induct with
  | atom a =>
    intro more rest h hrest
    cases a with
    | name first others => exact spells_name h hrest ht
    | literal kind text isLiteral =>
      exact spells_lexeme h (ht _ (List.mem_singleton_self _))
        (mayFollow_of_startsWithMark kind (startsWithMark_append hrest _))
  | call first others arguments ih =>
    intro more rest h hrest
    simp only [IsWritten, shapes, List.forall_mem_append, List.forall_mem_cons] at ht
    obtain ⟨hname, -, harguments, -⟩ := ht
    rw [argumentShapes_eq_map] at harguments
    rw [shapes, text, argumentShapes_eq_map, argumentTexts_eq_map]
    have hclose := spells_mark h (show ')' ∈ marks by decide)
    have hopen := spells_mark (spells_arguments ih harguments hclose rfl)
      (show '(' ∈ marks by decide)
    have hall := spells_name hopen rfl hname
    simp only [List.append_assoc, List.cons_append, List.nil_append]
    exact hall

/-! ## Reading trees -/

theorem ReadAs.imp {ι : Type} {expr : ι → Reader (Option Node)} {shapes : List (TokenKind × String)}
    {P Q : Node → Prop} (h : ReadAs expr shapes P) (himp : ∀ n, P n → Q n) :
    ReadAs expr shapes Q where
  starts := h.starts
  reads ts hshapes next hnext rest := by
    obtain ⟨n, hn, hread⟩ := h.reads ts hshapes next hnext rest
    exact ⟨n, himp n hn, hread⟩

/-- A name in front of a parenthesis starts with an identifier that goes on. -/
theorem exists_goesOn_name {first : String} {others : List Word} {names : List Token}
    (hnames : names.map Token.shape = nameShapes first others) {opening : Token}
    (hopening : opening.kind = .leftParen) (inner : List Token) :
    ∃ t us, names ++ opening :: inner = t :: us ∧ t.kind = .identifier ∧ goesOn us = true := by
  obtain ⟨t, names, rfl, ht, hwords⟩ := List.map_eq_cons_iff.1 hnames
  refine ⟨t, names ++ opening :: inner, rfl, (Prod.mk.inj ht).1, ?_⟩
  cases others with
  | nil =>
    obtain rfl : names = [] := List.map_eq_nil_iff.1 hwords
    simp [goesOn, hopening]
  | cons w others =>
    obtain ⟨dot, names, rfl, hdot, -⟩ := List.map_eq_cons_iff.1 hwords
    simp [goesOn, isMark_of_shape hdot]

/-- **A tree is read in full** by expressions that read calls as deep as it nests them, however long
an expression may get. -/
theorem Tree.readAs (t : Tree) : ∀ k, t.depth ≤ k →
    ReadAs (fun limit => expression limit k) t.shapes t.IsReadAs := by
  induction t using Tree.induct with
  | atom a =>
    intro k _
    simp only [expression_eq]
    exact (a.readAs (fun limit => limit) fun limit => argumentReader limit k).imp fun n => .atom
  | call first others arguments ih =>
    intro k hdepth
    rw [depth] at hdepth
    obtain ⟨k, rfl⟩ : ∃ m, k = m + 1 := ⟨k - 1, by omega⟩
    refine ⟨rfl, fun ts hshapes next hnext rest => ?_⟩
    rw [shapes, argumentShapes_eq_map] at hshapes
    obtain ⟨names, called, rfl, hnames, hcalled⟩ := List.map_eq_append_iff.1 hshapes
    obtain ⟨opening, called, rfl, hopening, hcalled⟩ := List.map_eq_cons_iff.1 hcalled
    obtain ⟨inner, closing, rfl, hinner, hclosing⟩ := List.map_eq_append_iff.1 hcalled
    obtain ⟨close, rfl, hclose⟩ := List.map_eq_singleton_iff.1 hclosing
    have hopening : opening.kind = .leftParen := (Prod.mk.inj hopening).1
    have hclose : close.kind = .rightParen := (Prod.mk.inj hclose).1
    have hshallow : ∀ t ∈ arguments, t.depth ≤ k := fun t ht =>
      Nat.le_trans (depth_le_argumentDepth ht) (Nat.le_of_succ_le_succ hdepth)
    obtain ⟨nodes, hnodes, hread⟩ := argumentsFrom_items (fun t ht => ih t ht k (hshallow t ht))
      hinner hclose (next :: rest)
    obtain ⟨site, callee, hname, hcall⟩ := namedOperand_called hnames hopening
      (inner ++ close :: next :: rest) (stops_of_isTerminator hnext)
    refine ⟨.call site callee nodes, .call site hname hnodes, fun limit => ?_⟩
    have hall := hcall _ nodes rest (readArguments_closed hclose (hread limit))
    obtain ⟨t, us, hsplit, hk, hgoes⟩ :=
      exists_goesOn_name hnames hopening (inner ++ close :: next :: rest)
    simp only [List.append_assoc, List.cons_append, List.nil_append]
    rw [hsplit] at hall ⊢
    rw [← hall]
    exact readExpression_goesOn hk hgoes

/-! ## A call as a statement -/

/-- Tokens without operators in front of a semicolon assign nothing. -/
theorem findAssignment?_none {ts : List Token} (hts : ∀ t ∈ ts, t.kind ≠ .operator)
    {semicolon : Token} (hsemicolon : semicolon.isMark ";" = true) (rest : List Token) :
    findAssignment? (ts ++ semicolon :: rest) = none := by
  induction ts with
  | nil => simp [findAssignment?, hsemicolon]
  | cons t ts ih =>
    obtain ⟨ht, hts⟩ := List.forall_mem_cons.1 hts
    have hoperator : (t.kind == .operator && isAssignmentOperator t.text) = false := by simp [ht]
    rw [List.cons_append, findAssignment?, hoperator, ih hts]
    simp

theorem forall_mem_intercalate {α : Type} {P : α → Prop} {sep : List α} (hsep : ∀ x ∈ sep, P x)
    {pieces : List (List α)} (h : ∀ piece ∈ pieces, ∀ x ∈ piece, P x) :
    ∀ x ∈ List.intercalate sep pieces, P x := by
  induction pieces with
  | nil => exact List.forall_mem_nil _
  | cons piece pieces ih =>
    obtain ⟨hpiece, hpieces⟩ := List.forall_mem_cons.1 h
    cases pieces with
    | nil => rwa [List.intercalate_singleton]
    | cons other pieces =>
      rw [List.intercalate_cons_cons, List.forall_mem_append, List.forall_mem_append]
      exact ⟨⟨hpiece, hsep⟩, ih hpieces⟩

theorem nameShapes_not_operator (first : String) (others : List Word) :
    ∀ shape ∈ nameShapes first others, shape.1 ≠ .operator := by
  refine List.forall_mem_cons.2 ⟨by simp, fun shape hshape => ?_⟩
  obtain ⟨w, -, hw⟩ := List.mem_flatMap.1 hshape
  have hkind : w.kind ≠ .operator := by
    intro hk
    have := w.isWord
    rw [hk] at this
    cases this
  simp only [List.mem_cons, List.not_mem_nil, or_false] at hw
  rcases hw with rfl | rfl
  · simp
  · exact hkind

/-- A tree has no operators. -/
theorem Tree.not_operator (t : Tree) : ∀ shape ∈ t.shapes, shape.1 ≠ .operator := by
  induction t using Tree.induct with
  | atom a =>
    cases a with
    | name first others => exact nameShapes_not_operator first others
    | literal kind text isLiteral =>
      refine List.forall_mem_singleton.2 fun hk => ?_
      obtain rfl : kind = .operator := hk
      cases isLiteral
  | call first others arguments ih =>
    have harguments : ∀ shape ∈ List.intercalate [(.punctuation, ",")] (arguments.map shapes),
        shape.1 ≠ TokenKind.operator :=
      forall_mem_intercalate (by simp) (List.forall_mem_map.2 ih)
    simp only [shapes, argumentShapes_eq_map, List.forall_mem_append, List.forall_mem_cons]
    exact ⟨nameShapes_not_operator first others, by simp, harguments, by simp, by simp⟩

/-- The tokens of a call as a statement. -/
def statementShapes (t : Tree) : List (TokenKind × String) := t.shapes ++ [(.punctuation, ";")]

/-- **A call is a statement** under all settings. -/
theorem readStatement?_call {first : String} {others : List Word} {arguments : List Tree}
    (hdepth : (Tree.call first others arguments).depth ≤ maxCallDepth) {ts : List Token}
    (hts : ts.map Token.shape = statementShapes (.call first others arguments))
    (rest : List Token) :
    ∃ t us n, ts = t :: us ∧ t.kind = .identifier ∧
      (Tree.call first others arguments).IsReadAs n ∧
      ∀ config, readStatement? config t (us ++ rest) = some { statements := [n], rest } := by
  obtain ⟨ts, closing, rfl, hcall, hclosing⟩ := List.map_eq_append_iff.1 hts
  obtain ⟨semicolon, rfl, hsemicolon⟩ := List.map_eq_singleton_iff.1 hclosing
  have hmark : semicolon.isMark ";" = true := isMark_of_shape hsemicolon
  obtain ⟨n, hn, hread⟩ := ((Tree.call first others arguments).readAs maxCallDepth hdepth).reads
    ts hcall semicolon (by simp [isTerminator, hmark]) rest
  have hoperators : ∀ u ∈ ts, u.kind ≠ .operator := fun u hu =>
    (Tree.call first others arguments).not_operator u.shape (hcall ▸ List.mem_map_of_mem hu)
  obtain ⟨t, us, rfl⟩ : ∃ t us, ts = t :: us := by
    cases ts with
    | nil => cases hcall
    | cons t us => exact ⟨t, us, rfl⟩
  have hk : t.kind = .identifier := (Prod.mk.inj (List.cons.inj hcall).1).1
  have hlinks : assignmentLinks (t :: (us ++ semicolon :: rest)) =
      ([], t :: (us ++ semicolon :: rest)) := by
    have hnone := findAssignment?_none (fun u hu => hoperators u (List.mem_cons_of_mem t hu)) hmark
      rest
    rw [assignmentLinks, if_pos (by simp [hk])]
    split
    · rfl
    · rename_i before operator after hfound
      rw [hnone] at hfound
      cases hfound
  refine ⟨t, us ++ [semicolon], n, rfl, hk, hn, fun config => ?_⟩
  have hvalue := hread config.maxExpressionTokens
  rw [List.cons_append] at hvalue
  have hsimple : readSimple? config.maxExpressionTokens t (us ++ semicolon :: rest) =
      some { statements := [n], rest } := by
    simp [readSimple?, hk, readAssignment, hlinks, outerExpression, hvalue, chainNode,
      dropSemicolon, hmark]
  rw [List.append_assoc, List.singleton_append, readStatement?]
  simp only [hsimple]

/-! ## The page of a statement -/

/-- Tokens that are one statement under all settings, whatever stands behind them. -/
def IsStatement (shapes : List (TokenKind × String)) (P : Node → Prop) : Prop :=
  ∀ (ts : List Token), ts.map Token.shape = shapes → ∀ rest : List Token, ∃ t us n,
    ts = t :: us ∧ t.kind = .identifier ∧ P n ∧
      ∀ config, readStatement? config t (us ++ rest) = some { statements := [n], rest }

/-- A tag around one statement is read alike however long an expression may get. -/
theorem readPage?_statement_alike {c c' : Config} (hvoid : c'.voidElements = c.voidElements)
    {name : String} {attributes : List (String × String)} (htag : IsContainer c name attributes)
    {script : List Char} {shapes : List (TokenKind × String)} (hscript : Spells shapes script)
    {P : Node → Prop} (hstatement : IsStatement shapes P) (file : Option String) :
    readPage? c' (scriptPage name attributes script) file =
      readPage? c (scriptPage name attributes script) file := by
  obtain ⟨tag, opening, inside, tail, htokens, hpage⟩ := exists_tokens htag hscript file
  obtain ⟨t, us, n, rfl, hk, -, hread⟩ := hstatement inside hpage.shapes_eq tail
  have hended := hpage.ended
  have hfound (config : Config) := scriptFrom?_single hk hended (hread config)
  rw [tokenize] at htokens
  rw [readPage?, readPage?, htokens]
  congr 1
  exact readFrom?_script_alike hvoid hended hpage.not_opening rfl hpage.opensTag.kind
    hpage.isOpening rfl (hfound c) (hfound c')

/-- **The page of a tag around one statement** has a script with that statement and declares
nothing, however long an expression may get. -/
theorem exists_page_of_statement {config : Config} {name : String}
    {attributes : List (String × String)} (htag : IsContainer config name attributes)
    {script : List Char} {shapes : List (TokenKind × String)} (hscript : Spells shapes script)
    {P : Node → Prop} (hstatement : IsStatement shapes P) (file : Option String) :
    ∃ page site n, readPage? config (scriptPage name attributes script) file = some page ∧
      page.document.scripts = [.script site [n]] ∧ P n ∧ page.declaredNames = [] := by
  -- Settings that allow an expression to take a token read every page.
  let allowing : Config := { config with maxExpressionTokens := 1 }
  have hone : 1 ≤ allowing.maxExpressionTokens := Int.le_refl 1
  have htag' : IsContainer allowing name attributes :=
    ⟨htag.isTagName, htag.isAttribute, htag.not_void⟩
  obtain ⟨page, inside, site, hpage, hshapes, hinside, hscripts, hnames⟩ :=
    exists_page hone htag' hscript file
  obtain ⟨t, us, n, rfl, -, hn, hread⟩ := hstatement inside hshapes []
  have hfound := hread allowing
  rw [List.append_nil] at hfound
  rw [harvestOf_statement hone hinside hfound] at hscripts hnames
  refine ⟨page, site, n, ?_, ?_, hn, ?_⟩
  · rw [← hpage]
    exact @readPage?_statement_alike allowing config rfl _ _ htag' _ _ hscript _ hstatement file
  · simpa [Harvest.append, harvestOf, scriptFrom?_nil] using hscripts
  · simpa [Harvest.append, harvestOf, scriptFrom?_nil] using hnames

/-- **A call is read back**: a script with the text of a call and a semicolon, inside a tag, has the
call with its name and its arguments as its only statement, when its calls nest no deeper than calls
are read. -/
theorem call_readBack {config : Config} {name : String} {attributes : List (String × String)}
    (htag : IsContainer config name attributes) {first : String} {others : List Word}
    {arguments : List Tree} (hwritten : (Tree.call first others arguments).IsWritten)
    (hdepth : (Tree.call first others arguments).depth ≤ maxCallDepth) (file : Option String) :
    ∃ page site n, readPage? config
        (scriptPage name attributes ((Tree.call first others arguments).text ++ [';'])) file
        = some page ∧
      page.document.scripts = [.script site [n]] ∧
      (Tree.call first others arguments).IsReadAs n ∧ page.declaredNames = [] := by
  have hsemicolon : Spells [(.punctuation, ";")] [';'] :=
    spells_mark (.nil (show [].all isSkipped = true from rfl)) (show ';' ∈ marks by decide)
  exact exists_page_of_statement htag
    ((Tree.call first others arguments).spells hwritten hsemicolon rfl)
    (fun ts hts rest => readStatement?_call hdepth hts rest) file

/-- The call `f(a.let, "x", g.new(1, k()))`. -/
def sampleCall : Tree :=
  .call "f" [] [.atom (.name "a" [⟨.keyword, "let", rfl⟩]), .atom (.literal .string "\"x\"" rfl),
    .call "g" [⟨.keyword, "new", rfl⟩] [.atom (.literal .number "1" rfl), .call "k" [] []]]

theorem sampleCall_isWritten : sampleCall.IsWritten := by
  have hstring : IsLexeme (.string, "\"x\"") := .string ⟨'"', [.plain 'x'], rfl, by simp⟩
  have hplain : ∀ shape ∈ sampleCall.shapes, shape = (.string, "\"x\"") ∨
      isPlainLexeme shape = true := by
    decide +kernel
  intro shape hshape
  rcases hplain shape hshape with rfl | h
  · exact hstring
  · exact isLexeme_of_isPlainLexeme h

theorem sampleCall_readBack :
    IsContainer {} "body" [] ∧ sampleCall.IsWritten ∧ sampleCall.depth ≤ maxCallDepth ∧
    ∃ page site n, readPage? {}
        "<body><script>f(a.let, \"x\", g.new(1, k()));</script></body>" none = some page ∧
      page.document.scripts = [.script site [n]] ∧ sampleCall.IsReadAs n ∧
      page.declaredNames = [] := by
  have htag : IsContainer {} "body" [] := ⟨by decide +kernel, by simp, by decide⟩
  have hdepth : sampleCall.depth ≤ maxCallDepth := by decide
  have hsource : scriptPage "body" [] (sampleCall.text ++ [';']) =
      "<body><script>f(a.let, \"x\", g.new(1, k()));</script></body>" := by
    decide +kernel
  rw [← hsource]
  exact ⟨htag, sampleCall_isWritten, hdepth, call_readBack htag sampleCall_isWritten hdepth none⟩

end PageLint.Written
