import Mathlib.Data.List.Forall2
import PageLint.Proofs.Comments.Expressions
import PageLint.Proofs.Suffix
import PageLint.Proofs.Views.Nodes

/-!
# Expressions and views

A token may stand for another one in a view: it is of the same kind and on the line where the view
moves the other, and it is spelled as the view spells the other. Reading expressions from tokens
that stand for others gives nodes that stand for the nodes of the others.

* `Token.ShownAs` — a token as a view shows it
* `Reading.ShownAs` — two readings with values in a relation and tokens left that are shown alike
* `expression_shown` — expressions, whatever depth of calls is read
-/

namespace PageLint

/-! ## Tokens -/

/-- Whether tokens of a kind are spelled in one way, without line ends. -/
def TokenKind.isSpelled : TokenKind → Bool
  | keyword | identifier | number | boolean | null | operator | punctuation => true
  | _ => false

/-- A token as a view shows it. Comments may be of any text, and a tag is moved as a whole. -/
structure Token.ShownAs (v : View) (t t' : Token) : Prop where
  kind : t'.kind = t.kind
  line : t'.line = v.line t.line
  text : t.kind ≠ .comment → t'.text = v.text t.text
  spelled : t.kind.isSpelled = true → v.text t.text = t.text
  within : t.kind = .tagOpen → ∀ n < t.text.toList.length,
    v.line (t.line + (t.text.toList.take n).count '\n') =
      v.line t.line + (t.text.toList.take n).count '\n'

/-- Tokens as a view shows them. -/
abbrev TokensShown (v : View) : List Token → List Token → Prop := List.Forall₂ (Token.ShownAs v)

/-- Nodes as a view shows them. -/
def NodesShown (v : View) (ns ns' : List Node) : Prop :=
  ns'.map (Node.view .bare) = ns.map (Node.view v)

/-- A node as a view shows it, if there is one. -/
def NodeShown (v : View) (o o' : Option Node) : Prop :=
  o'.map (Node.view .bare) = o.map (Node.view v)

/-- Names without line ends. -/
structure NamesShown (v : View) (names names' : List String) : Prop where
  same : names' = names
  spelled : ∀ name ∈ names, v.text name = name

section

variable {v : View} {t t' : Token}

theorem Token.ShownAs.location (h : t.ShownAs v t') :
    t'.location.view .bare = t.location.view v := by
  simp [Location.view, Token.location, h.line]

theorem Token.ShownAs.site (h : t.ShownAs v t') :
    Site.view .bare { location := t'.location } = Site.view v { location := t.location } := by
  simp only [Site.view, h.location]

theorem Token.ShownAs.text_eq (h : t.ShownAs v t') (hk : t.kind.isSpelled = true) :
    t'.text = t.text := by
  have hcomment : t.kind ≠ .comment := by
    intro hkind
    rw [hkind] at hk
    cases hk
  rw [h.text hcomment, h.spelled hk]

/-- A token of a kind that is spelled in one way is compared alike. -/
theorem Token.ShownAs.beq (h : t.ShownAs v t') (kind : TokenKind) (hk : kind.isSpelled = true)
    (p : String → Bool) : (t'.kind == kind && p t'.text) = (t.kind == kind && p t.text) := by
  rw [h.kind]
  by_cases hkind : t.kind = kind
  · rw [h.text_eq (hkind ▸ hk)]
  · rw [beq_eq_false_iff_ne.2 hkind, Bool.false_and, Bool.false_and]

theorem Token.ShownAs.isMark (h : t.ShownAs v t') (mark : String) :
    t'.isMark mark = t.isMark mark :=
  h.beq _ rfl (· == mark)

theorem Token.ShownAs.word (h : t.ShownAs v t') (hk : t.kind.isWord = true) :
    t'.text = t.text ∧ v.text t.text = t.text := by
  have hspelled : t.kind.isSpelled = true := by
    cases hkind : t.kind <;> simp [hkind, TokenKind.isWord] at hk <;> rfl
  exact ⟨h.text_eq hspelled, h.spelled hspelled⟩

theorem Token.ShownAs.toIdentifier (h : t.ShownAs v t') (hk : t.kind ≠ .comment) :
    t'.toIdentifier.view .bare = t.toIdentifier.view v := by
  simp only [Token.toIdentifier, Identifier.view, Site.view, h.location, View.text_bare, h.text hk]

theorem Token.ShownAs.toIdentifier_declared (h : t.ShownAs v t') (hk : t.kind.isWord = true) :
    t'.toIdentifier.viewDeclared .bare = t.toIdentifier.viewDeclared v := by
  simp only [Token.toIdentifier, Identifier.viewDeclared, Site.view, h.location, (h.word hk).1]

theorem TokensShown.length {ts ts' : List Token} (h : TokensShown v ts ts') :
    ts'.length = ts.length :=
  (List.Forall₂.length_eq h).symm

theorem NodeShown.toList {o o' : Option Node} (h : NodeShown v o o') :
    NodesShown v o.toList o'.toList := by
  cases o <;> cases o' <;> simp_all [NodeShown, NodesShown]

theorem NodesShown.append {ns ns' ms ms' : List Node} (h : NodesShown v ns ns')
    (h' : NodesShown v ms ms') : NodesShown v (ns ++ ms) (ns' ++ ms') := by
  rw [NodesShown, List.map_append, List.map_append, h, h']

theorem NamesShown.nil : NamesShown v [] [] := ⟨rfl, by simp⟩

theorem NamesShown.cons {name : String} {names names' : List String} (hname : v.text name = name)
    (h : NamesShown v names names') : NamesShown v (name :: names) (name :: names') := by
  refine ⟨by rw [h.same], fun s hs => ?_⟩
  rcases List.mem_cons.1 hs with rfl | hs
  · exact hname
  · exact h.spelled s hs

theorem NamesShown.append {names names' more more' : List String} (h : NamesShown v names names')
    (h' : NamesShown v more more') : NamesShown v (names ++ more) (names' ++ more') := by
  refine ⟨by rw [h.same, h'.same], fun s hs => ?_⟩
  rcases List.mem_append.1 hs with hs | hs
  · exact h.spelled s hs
  · exact h'.spelled s hs

/-- A dotted name has no line ends when its names have none. -/
theorem NamesShown.intercalate {names names' : List String} (h : NamesShown v names names') :
    v.text (String.intercalate "." names) = String.intercalate "." names := by
  have hall := h.spelled
  induction names generalizing names' with
  | nil => rfl
  | cons name names ih =>
    cases names with
    | nil => simpa using hall name List.mem_cons_self
    | cons name' names =>
      have hrest : NamesShown v (name' :: names) (name' :: names) :=
        ⟨rfl, fun s hs => hall s (List.mem_cons_of_mem name hs)⟩
      have hdot : v.text "." = "." := v.text_of_not_mem (by decide)
      rw [String.intercalate_cons_cons, View.text_append, View.text_append,
        hall name List.mem_cons_self, hdot, ih hrest hrest.spelled]

end

/-- Two readings with values in a relation, which leave tokens that are shown alike. -/
structure Reading.ShownAs {α : Type} (v : View) (R : α → α → Prop) (r r' : Reading α) : Prop where
  value : R r.value r'.value
  rest : TokensShown v r.rest r'.rest

/-- A reader that reads tokens as a view shows them. -/
def Reader.Shown {α : Type} (v : View) (R : α → α → Prop) (reader : Reader α) : Prop :=
  ∀ {ts ts' : List Token}, TokensShown v ts ts' →
    Reading.ShownAs v R (reader.read ts) (reader.read ts')

section Readers

variable {v : View} {ts ts' : List Token} (h : TokensShown v ts ts')

include h

theorem dropSemicolon_shown : TokensShown v (dropSemicolon ts) (dropSemicolon ts') := by
  cases h with
  | nil => exact .nil
  | cons ht hts =>
    rw [dropSemicolon, dropSemicolon, ht.isMark]
    split
    · exact hts
    · exact .cons ht hts

theorem dropRightParen_shown : TokensShown v (dropRightParen ts) (dropRightParen ts') := by
  cases h with
  | nil => exact .nil
  | cons ht hts =>
    rw [dropRightParen, dropRightParen, ht.kind]
    split
    · exact hts
    · exact .cons ht hts

theorem goesOn_shown : goesOn ts' = goesOn ts := by
  cases h with
  | nil => rfl
  | cons ht hts => rw [goesOn, goesOn, ht.isMark, ht.kind]

theorem isTerminator_shown : isTerminator ts'.head? = isTerminator ts.head? := by
  cases h with
  | nil => rfl
  | cons ht hts =>
    rw [List.head?_cons, List.head?_cons, isTerminator, isTerminator, ht.kind, ht.isMark, ht.isMark]

theorem skipParens_shown (depth : Nat) :
    TokensShown v (skipParens depth ts) (skipParens depth ts') := by
  induction h generalizing depth with
  | nil =>
    cases depth with
    | zero => exact .nil
    | succ depth => exact .nil
  | cons ht hts ih =>
    cases depth with
    | zero => exact .cons ht hts
    | succ depth =>
      rw [skipParens, skipParens, ht.kind]
      split
      · exact .cons ht hts
      split
      · exact ih _
      split
      · exact ih _
      · exact ih _

/-! ## Names and calls -/

theorem dottedTail_shown : NamesShown v (dottedTail ts).1 (dottedTail ts').1 ∧
    TokensShown v (dottedTail ts).2 (dottedTail ts').2 := by
  fun_induction dottedTail ts generalizing ts' with
  | case1 dot name ts hc names rest eq ih =>
    cases h with
    | cons hdot h =>
      cases h with
      | cons hname h =>
        have hword : name.kind.isWord = true := (Bool.and_eq_true _ _ ▸ hc).2
        obtain ⟨hnames, hrest⟩ := ih h
        rw [eq] at hnames hrest
        rw [dottedTail, hdot.isMark, hname.kind, if_pos hc, (hname.word hword).1]
        exact ⟨hnames.cons (hname.word hword).2, hrest⟩
  | case2 dot name ts hc =>
    cases h with
    | cons hdot h =>
      cases h with
      | cons hname h =>
        rw [dottedTail, hdot.isMark, hname.kind, if_neg hc]
        exact ⟨.nil, .cons hdot (.cons hname h)⟩
  | case3 ts hshort =>
    cases h with
    | nil => exact ⟨.nil, .nil⟩
    | cons hdot h =>
      cases h with
      | nil => exact ⟨.nil, .cons hdot .nil⟩
      | cons hname h => exact absurd rfl (hshort _ _ _)

theorem dottedName_shown (anyWord : Bool) :
    NamesShown v (dottedName anyWord ts).1 (dottedName anyWord ts').1 ∧
      TokensShown v (dottedName anyWord ts).2 (dottedName anyWord ts').2 := by
  cases h with
  | nil => exact ⟨.nil, .nil⟩
  | @cons t t' ts ts' ht hts =>
    rw [dottedName, dottedName, ht.kind]
    split
    · rename_i hc
      have hword : t.kind.isWord = true := by
        rw [Bool.or_eq_true, beq_iff_eq, Bool.and_eq_true] at hc
        rcases hc with hc | hc
        · rw [hc]
          rfl
        · exact hc.2
      obtain ⟨hnames, hrest⟩ := dottedTail_shown hts
      rw [(ht.word hword).1]
      exact ⟨hnames.cons (ht.word hword).2, hrest⟩
    · exact ⟨.nil, .cons ht hts⟩

section Calls

variable {args : Reader (List Node)} (hargs : args.Shown v (NodesShown v))

include hargs

theorem argumentsAt_shown : Reading.ShownAs v (Option.Rel (NodesShown v)) (argumentsAt args ts)
    (argumentsAt args ts') := by
  cases h with
  | nil => exact ⟨.none, .nil⟩
  | cons ht hts =>
    rw [argumentsAt, argumentsAt, ht.kind]
    split
    · exact ⟨.some (hargs hts).value, (hargs hts).rest⟩
    · exact ⟨.none, .cons ht hts⟩

omit h in
theorem chainedNames_shown (ts : List Token) : ∀ ts' : List Token, TokensShown v ts ts' →
    Reading.ShownAs v (NamesShown v) (chainedNames args ts) (chainedNames args ts') := by
  fun_induction chainedNames args ts with
  | case1 =>
    intro ts' h
    cases h
    rw [chainedNames]
    exact ⟨.nil, .nil⟩
  | case2 t ts hdot named hnone =>
    intro ts' h
    cases h with
    | cons ht hts =>
      obtain ⟨hnames, hrest⟩ := dottedName_shown hts true
      rw [chainedNames, ht.isMark, if_pos hdot]
      simp only [hnames.same]
      rw [if_pos hnone]
      exact ⟨.nil, hrest⟩
  | case3 t ts hdot named hsome dropped hlt more ih =>
    intro ts' h
    cases h with
    | cons ht hts =>
      obtain ⟨hnames, hrest⟩ := dottedName_shown hts true
      have hdropped := argumentsAt_shown hrest hargs
      have hmore := ih _ hdropped.rest
      rw [chainedNames, ht.isMark, if_pos hdot]
      simp only [hnames.same]
      rw [if_neg hsome]
      exact ⟨(hnames.same ▸ hnames).append hmore.value, hmore.rest⟩
  | case4 t ts hdot =>
    intro ts' h
    cases h with
    | cons ht hts =>
      rw [chainedNames, ht.isMark, if_neg hdot]
      exact ⟨.nil, .cons ht hts⟩

end Calls

end Readers

variable {v : View}

/-- The operand of a dotted name, its arguments and the names chained to it. -/
theorem operand_shown {site site' : Site} (hsite : site'.view .bare = site.view v)
    {names chained chained' : List String} (hnames : NamesShown v names names)
    (hchained : NamesShown v chained chained') {called called' : Option (List Node)}
    (hcalled : Option.Rel (NodesShown v) called called') :
    let node (site : Site) (called : Option (List Node)) (chained : List String) : Node :=
      let callee : Identifier := { site, name := String.intercalate "." names }
      if chained.isEmpty then
        match called with
        | some arguments => .call site callee arguments
        | none => .identifier callee
      else .identifier { site, name := String.intercalate "." (callee.name :: chained) }
    NodeShown v (some (node site called chained)) (some (node site' called' chained')) := by
  obtain rfl := hchained.same
  intro node
  have hcallee := hnames.intercalate
  simp only [node, NodeShown, Option.map_some, Option.some.injEq]
  split
  · cases hcalled with
    | none => simp only [Node.view, Identifier.view, hsite, hcallee, View.text_bare]
    | some h =>
      have hargs := h
      rw [NodesShown] at hargs
      simp only [Node.view, Node.viewAll_eq_map, Identifier.view, hsite, hcallee, View.text_bare,
        hargs]
  · have hname := (hchained.cons hcallee).intercalate
    simp only [Node.view, Identifier.view, hsite, hname, View.text_bare]

section Calls

variable {args : Reader (List Node)} (hargs : args.Shown v (NodesShown v))
  {ts ts' : List Token} (h : TokensShown v ts ts')

include hargs h

theorem namedOperand_shown :
    Reading.ShownAs v (NodeShown v) (namedOperand args ts) (namedOperand args ts') := by
  cases h with
  | nil => exact ⟨rfl, .nil⟩
  | @cons t t' ts ts' ht hts =>
    obtain ⟨hnames, hrest⟩ := dottedName_shown (.cons ht hts) false
    have hcalled := argumentsAt_shown hrest hargs
    have hchained := chainedNames_shown hargs _ _ hcalled.rest
    rw [namedOperand, namedOperand]
    simp only [hnames.same]
    split
    · exact ⟨rfl, hrest⟩
    · exact ⟨operand_shown ht.site (hnames.same ▸ hnames) hchained.value hcalled.value,
        hchained.rest⟩

/-! ## Expressions -/

/-- Operands as a view shows them, between the same operators. -/
def RunShown (v : View) (run run' : List Node × List String) : Prop :=
  NodesShown v run.1 run'.1 ∧ run'.2 = run.2

omit h in
theorem flatRun_shown (cut cut' : Event) (n : Nat) {ts ts' : List Token}
    (h : TokensShown v ts ts') :
    Reading.ShownAs v (RunShown v) (flatRun args cut n ts) (flatRun args cut' n ts') := by
  induction n generalizing ts ts' with
  | zero => exact ⟨⟨rfl, rfl⟩, h⟩
  | succ n ih =>
    cases h with
    | nil => exact ⟨⟨rfl, rfl⟩, .nil⟩
    | @cons t t' ts ts' ht hts =>
      have hends : isTerminator (some t') = isTerminator (some t) :=
        isTerminator_shown (.cons ht hts)
      rw [flatRun, flatRun, hends, ht.kind, goesOn_shown hts]
      split
      · exact ⟨⟨rfl, rfl⟩, .cons ht hts⟩
      split
      · rename_i hop
        have htext : t'.text = t.text := ht.text_eq (by rw [beq_iff_eq.1 hop]; rfl)
        rw [htext]
        split
        · exact ⟨⟨rfl, rfl⟩, .cons ht hts⟩
        · obtain ⟨⟨hnodes, hops⟩, hrest⟩ := ih hts
          exact ⟨⟨hnodes, congrArg (t.text :: ·) hops⟩, hrest⟩
      split
      · have hoperand := namedOperand_shown hargs (.cons ht hts)
        obtain ⟨⟨hnodes, hops⟩, hrest⟩ := ih hoperand.rest
        exact ⟨⟨hoperand.value.toList.append hnodes, hops⟩, hrest⟩
      split
      · rename_i hname
        have hkind : t.kind ≠ .comment := by
          intro hkind
          simp [hkind, TokenKind.isLiteral] at hname
        obtain ⟨⟨hnodes, hops⟩, hrest⟩ := ih hts
        refine ⟨⟨?_, hops⟩, hrest⟩
        simp only [NodesShown, List.map_cons, Node.view, ht.toIdentifier hkind]
        rw [show List.map _ _ = List.map _ _ from hnodes]
      · exact ⟨⟨rfl, rfl⟩, hts⟩

omit hargs h in
theorem flatNode_shown {t t' : Token} (ht : t.ShownAs v t') {run run' : List Node × List String}
    (hrun : RunShown v run run') :
    NodeShown v (flatNode t run.1 run.2) (flatNode t' run'.1 run'.2) := by
  obtain ⟨operands, operators⟩ := run
  obtain ⟨operands', operators'⟩ := run'
  obtain ⟨hnodes, rfl⟩ := hrun
  rw [NodesShown] at hnodes
  have hwhole : NodeShown v (some (.expression { location := t.location } operands operators'))
      (some (.expression { location := t'.location } operands' operators')) := by
    simp only [NodeShown, Option.map_some, Node.view, Node.viewAll_eq_map, ht.site, hnodes]
  cases operands with
  | nil =>
    obtain rfl := List.map_eq_nil_iff.1 hnodes
    rfl
  | cons n rest =>
    obtain ⟨n', rest', rfl, hn, hrest⟩ := List.map_eq_cons_iff.1 hnodes
    cases rest with
    | nil =>
      obtain rfl := List.map_eq_nil_iff.1 hrest
      cases operators' with
      | nil => exact congrArg some hn
      | cons op ops => exact hwhole
    | cons m rest =>
      obtain ⟨m', rest', rfl, -, -⟩ := List.map_eq_cons_iff.1 hrest
      exact hwhole

theorem readExpression_shown (limit : Int) :
    Reading.ShownAs v (NodeShown v) (readExpression limit args ts)
      (readExpression limit args ts') := by
  cases h with
  | nil => exact ⟨rfl, .nil⟩
  | @cons t t' ts ts' ht hts =>
    have hnew := ht.beq .keyword rfl (· == "new")
    rw [readExpression, readExpression, hnew, ht.kind, goesOn_shown hts, isTerminator_shown hts]
    split
    · exact ⟨rfl, .cons ht hts⟩
    split
    · exact namedOperand_shown hargs hts
    split
    · exact namedOperand_shown hargs (.cons ht hts)
    split
    · rename_i hname
      have hkind : t.kind ≠ .comment := by
        intro hkind
        simp [hkind, TokenKind.isLiteral] at hname
      refine ⟨?_, hts⟩
      simp only [NodeShown, Option.map_some, Node.view, ht.toIdentifier hkind]
    · have hrun := flatRun_shown hargs (.expressionCut t.location limit)
        (.expressionCut t'.location limit) limit.toNat (.cons ht hts)
      exact ⟨flatNode_shown ht hrun.value, hrun.rest⟩

end Calls

/-! ## Argument lists -/

theorem endsArguments_shown {v : View} {t t' : Token} (h : t.ShownAs v t') :
    endsArguments t' = endsArguments t := by
  rw [endsArguments, endsArguments, h.kind]

theorem argumentsFrom_shown {expr : Reader (Option Node)} (hexpr : expr.Shown v (NodeShown v))
    {ts ts' : List Token} (h : TokensShown v ts ts') :
    Reading.ShownAs v (NodesShown v) (argumentsFrom expr ts) (argumentsFrom expr ts') := by
  match ts, ts', h with
  | [], [], _ =>
    rw [argumentsFrom]
    exact ⟨rfl, .nil⟩
  | t :: ts, t' :: ts', .cons ht hts =>
    by_cases hends : endsArguments t = true
    · rw [argumentsFrom, argumentsFrom, endsArguments_shown ht, if_pos hends, if_pos hends]
      exact ⟨rfl, .cons ht hts⟩
    have hends : endsArguments t = false := by simpa using hends
    obtain ⟨hvalue, hrest⟩ := argumentsFrom_cons expr hends ts
    obtain ⟨hvalue', hrest'⟩ := argumentsFrom_cons expr ((endsArguments_shown ht).trans hends) ts'
    have hfirst := hexpr (.cons ht hts)
    have hle := expr.rest_le (t :: ts)
    -- The loop goes on behind the argument in the same way.
    have hafter : NodesShown v (afterArgument expr (expr.read (t :: ts)).rest).1
          (afterArgument expr (expr.read (t' :: ts')).rest).1 ∧
        TokensShown v (afterArgument expr (expr.read (t :: ts)).rest).2
          (afterArgument expr (expr.read (t' :: ts')).rest).2 := by
      have hback := hfirst.rest
      revert hback hle
      generalize (expr.read (t :: ts)).rest = us, (expr.read (t' :: ts')).rest = us'
      intro hle hback
      cases hback with
      | nil => exact ⟨rfl, .nil⟩
      | @cons u u' us us' hu hus =>
        rw [afterArgument, afterArgument, endsArguments_shown hu]
        split
        · exact ⟨rfl, .cons hu hus⟩
        · have hlt : us.length < (t :: ts).length := hle
          have hmore := argumentsFrom_shown hexpr hus
          exact ⟨hmore.value, hmore.rest⟩
    constructor
    · rw [hvalue, hvalue']
      exact hfirst.value.toList.append hafter.1
    · rw [hrest, hrest']
      exact hafter.2
termination_by ts.length
decreasing_by exact hlt

theorem readArguments_shown {expr : Reader (Option Node)} (hexpr : expr.Shown v (NodeShown v)) :
    (readArguments expr).Shown v (NodesShown v) := by
  intro ts ts' h
  have hargs := argumentsFrom_shown hexpr h
  exact ⟨hargs.value, dropRightParen_shown hargs.rest⟩

theorem skipArguments_shown : skipArguments.Shown v (NodesShown v) := by
  intro ts ts' h
  exact ⟨rfl, skipParens_shown h 1⟩

theorem argumentReader_shown (limit : Int) (k : Nat) :
    (argumentReader limit k).Shown v (NodesShown v) := by
  induction k with
  | zero => exact skipArguments_shown
  | succ k ih =>
    refine readArguments_shown ?_
    intro ts ts' h
    rw [expression_eq]
    exact readExpression_shown ih h limit

/-- **Expressions are read as a view shows them**, however deep their calls are read. -/
theorem expression_shown (limit : Int) (k : Nat) :
    (expression limit k).Shown v (NodeShown v) := by
  intro ts ts' h
  rw [expression_eq]
  exact readExpression_shown (argumentReader_shown limit k) h limit

end PageLint
