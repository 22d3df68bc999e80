import Mathlib.Data.List.Forall2
import PageLint.Proofs.Declarations.Reading
import PageLint.Proofs.Written.Spelling

/-!
# Written sums

A sum is operands with operators between them: names, dotted names, literals and calls. Inside an
expression every operand is read alike. At its start a dotted name or a call is taken for the whole
expression, so a declared variable keeps its sum exactly when the sum starts with a plain name or a
literal.

* `Operand`, `Operand.IsReadAs` — operands as they are written and as they stand in the tree
* `flatRun_sum` — a run of operands and operators is read to its end
* `letSum_kept_iff` — when a variable keeps the sum it is declared with
-/

namespace PageLint.Written

/-! ## Operands -/

/-- A word behind a dot, reserved or not. -/
structure Word where
  kind : TokenKind
  text : String
  isWord : kind.isWord = true

/-- A name, dotted when other words follow, or a literal. -/
inductive Atom where
  | name (first : String) (others : List Word)
  | literal (kind : TokenKind) (text : String) (isLiteral : kind.isLiteral = true)

/-- An operand: a name or a literal, or the call of a name. -/
inductive Operand where
  | atom (a : Atom)
  | call (first : String) (others : List Word) (arguments : List Atom)

/-- The tokens of a name. -/
def nameShapes (first : String) (others : List Word) : List (TokenKind × String) :=
  (.identifier, first) :: others.flatMap fun w => [(.punctuation, "."), (w.kind, w.text)]

/-- The text of a name in the tree. -/
def nameText (first : String) (others : List Word) : String :=
  String.intercalate "." (first :: others.map Word.text)

namespace Atom

def shapes : Atom → List (TokenKind × String)
  | name first others => nameShapes first others
  | literal kind text _ => [(kind, text)]

def text : Atom → String
  | name first others => nameText first others
  | literal _ text _ => text

/-- Whether a node is an atom: one identifier with all its text. -/
def IsReadAs (a : Atom) : Node → Prop
  | .identifier i => i.name = a.text
  | _ => False

end Atom

namespace Operand

def shapes : Operand → List (TokenKind × String)
  | atom a => a.shapes
  | call first others arguments =>
    nameShapes first others ++ (.leftParen, "(") ::
      (List.intercalate [(.punctuation, ",")] (arguments.map Atom.shapes) ++ [(.rightParen, ")")])

/-- Whether a node is an operand: an atom, or a call with its name and its arguments. -/
def IsReadAs : Operand → Node → Prop
  | atom a, n => a.IsReadAs n
  | call first others arguments, .call _ callee nodes =>
    callee.name = nameText first others ∧ List.Forall₂ Atom.IsReadAs arguments nodes
  | _, _ => False

/-- Whether an operand is a plain name or a literal. -/
def isPlain : Operand → Bool
  | atom (.name _ others) => others.isEmpty
  | atom (.literal ..) => true
  | call .. => false

end Operand

/-! ## Reading names -/

/-- A token that goes on neither a name nor a call. -/
def Stops (t : Token) : Prop := t.isMark "." = false ∧ t.kind ≠ .leftParen

theorem stops_of_kind {t : Token} (h : t.kind = .operator ∨ t.kind = .rightParen) : Stops t := by
  rcases h with h | h <;> simp [Stops, Token.isMark, h]

theorem kind_of_isMark {t : Token} {mark : String} (h : t.isMark mark = true) :
    t.kind = .punctuation ∧ t.text = mark := by
  simpa [Token.isMark] using h

theorem isMark_of_kind {t : Token} (h : t.kind ≠ .punctuation) (mark : String) :
    t.isMark mark = false := by
  simp [Token.isMark, h]

theorem isMark_of_shape {t : Token} {mark : String} (h : t.shape = (.punctuation, mark)) :
    t.isMark mark = true := by
  obtain ⟨hk, ht⟩ := Prod.mk.inj h
  simp [Token.isMark, hk, ht]

theorem stops_of_isMark {t : Token} {mark : String} (hmark : mark ≠ ".")
    (h : t.isMark mark = true) : Stops t := by
  obtain ⟨hk, ht⟩ := kind_of_isMark h
  simp [Stops, Token.isMark, hk, ht, hmark]

theorem goesOn_of_stops {t : Token} (h : Stops t) (ts : List Token) : goesOn (t :: ts) = false := by
  simp [goesOn, h.1, h.2]

theorem dottedTail_words {others : List Word} {ts : List Token}
    (h : ts.map Token.shape = others.flatMap fun w => [(.punctuation, "."), (w.kind, w.text)])
    {next : Token} (hnext : next.isMark "." = false) (rest : List Token) :
    dottedTail (ts ++ next :: rest) = (others.map Word.text, next :: rest) := by
  induction others generalizing ts with
  | nil =>
    obtain rfl : ts = [] := List.map_eq_nil_iff.1 h
    cases rest with
    | nil => rfl
    | cons u us => simp [dottedTail, hnext]
  | cons w others ih =>
    obtain ⟨dot, ts, rfl, hdot, hts⟩ := List.map_eq_cons_iff.1 h
    obtain ⟨word, ts, rfl, hword, hts⟩ := List.map_eq_cons_iff.1 hts
    obtain ⟨hk, ht⟩ := Prod.mk.inj hword
    have hboth : (dot.isMark "." && word.kind.isWord) = true := by
      rw [isMark_of_shape hdot, hk, w.isWord]
      rfl
    rw [List.cons_append, List.cons_append, dottedTail, if_pos hboth, ih hts]
    simp [ht]

/-- A name is read to its end. -/
theorem dottedName_name {first : String} {others : List Word} {ts : List Token}
    (h : ts.map Token.shape = nameShapes first others) {next : Token}
    (hnext : next.isMark "." = false) (rest : List Token) :
    dottedName false (ts ++ next :: rest) = (first :: others.map Word.text, next :: rest) := by
  obtain ⟨t, ts, rfl, ht, hts⟩ := List.map_eq_cons_iff.1 h
  obtain ⟨hk, htext⟩ := Prod.mk.inj ht
  rw [List.cons_append, dottedName, if_pos (by simp [hk]), dottedTail_words hts hnext]
  simp [htext]

theorem chainedNames_stops {args : Reader (List Node)} {next : Token} (hnext : Stops next)
    (rest : List Token) :
    chainedNames args (next :: rest) = { value := [], rest := next :: rest } := by
  rw [chainedNames, if_neg (by simp [hnext.1])]

/-- A name that nothing goes on is an operand of its own. -/
theorem namedOperand_name {first : String} {others : List Word} {ts : List Token}
    (h : ts.map Token.shape = nameShapes first others) {next : Token} (hnext : Stops next)
    (rest : List Token) : ∃ site, ∀ args, namedOperand args (ts ++ next :: rest) =
      { value := some (.identifier { site, name := nameText first others })
        rest := next :: rest } := by
  have hname := dottedName_name h hnext.1 rest
  obtain ⟨t, ts, rfl, -, -⟩ := List.map_eq_cons_iff.1 h
  refine ⟨{ location := t.location }, fun args => ?_⟩
  rw [List.cons_append] at hname ⊢
  rw [namedOperand, hname]
  simp [argumentsAt, hnext.2, chainedNames_stops hnext, nameText]

/-! ## Plain operands -/

/-- A token that is an operand on its own: a name or a literal. -/
def IsPlain (t : Token) : Prop := t.kind = .identifier ∨ t.kind.isLiteral = true

/-- A plain operand is one token. -/
theorem Operand.exists_plain {e : Operand} (hplain : e.isPlain = true) {ts : List Token}
    (h : ts.map Token.shape = e.shapes) :
    ∃ t, ts = [t] ∧ IsPlain t ∧ e.IsReadAs (.identifier t.toIdentifier) := by
  match e with
  | .call .. => exact absurd hplain Bool.false_ne_true
  | .atom (.name first others) =>
    obtain rfl : others = [] := List.isEmpty_iff.1 hplain
    obtain ⟨t, rfl, ht⟩ := List.map_eq_singleton_iff.1 h
    obtain ⟨hk, rfl⟩ := Prod.mk.inj ht
    refine ⟨t, rfl, Or.inl hk, ?_⟩
    simp [IsReadAs, Atom.IsReadAs, Atom.text, nameText, Token.toIdentifier]
  | .atom (.literal kind text isLiteral) =>
    obtain ⟨t, rfl, ht⟩ := List.map_eq_singleton_iff.1 h
    obtain ⟨rfl, rfl⟩ := Prod.mk.inj ht
    exact ⟨t, rfl, Or.inr isLiteral, rfl⟩

/-- Any other operand starts with a name that goes on. -/
theorem Operand.exists_goesOn {e : Operand} (hplain : e.isPlain = false) {ts : List Token}
    (h : ts.map Token.shape = e.shapes) :
    ∃ t us, ts = t :: us ∧ t.kind = .identifier ∧ ∀ rest, goesOn (us ++ rest) = true := by
  have hdot : ∀ {u : Token} {us : List Token}, u.shape = (.punctuation, ".") →
      ∀ rest, goesOn (u :: us ++ rest) = true := by
    intro u us hu rest
    simp [goesOn, isMark_of_shape hu]
  cases e with
  | atom a =>
    cases a with
    | literal kind text isLiteral => exact absurd hplain (by simp [isPlain])
    | name first others =>
      cases others with
      | nil => exact absurd hplain (by simp [isPlain])
      | cons w others =>
        obtain ⟨t, ts, rfl, ht, hts⟩ := List.map_eq_cons_iff.1 h
        obtain ⟨u, us, rfl, hu, -⟩ := List.map_eq_cons_iff.1 hts
        exact ⟨t, u :: us, rfl, (Prod.mk.inj ht).1, hdot hu⟩
  | call first others arguments =>
    obtain ⟨t, ts, rfl, ht, hts⟩ := List.map_eq_cons_iff.1 h
    cases others with
    | nil =>
      obtain ⟨u, us, rfl, hu, -⟩ := List.map_eq_cons_iff.1 hts
      refine ⟨t, u :: us, rfl, (Prod.mk.inj ht).1, fun rest => ?_⟩
      simp [goesOn, (Prod.mk.inj hu).1]
    | cons w others =>
      obtain ⟨u, us, rfl, hu, -⟩ := List.map_eq_cons_iff.1 hts
      exact ⟨t, u :: us, rfl, (Prod.mk.inj ht).1, hdot hu⟩

/-- An expression that starts with a name that goes on is this name. -/
theorem readExpression_goesOn {limit : Int} {args : Reader (List Node)} {t : Token}
    (hk : t.kind = .identifier) {ts : List Token} (hgoes : goesOn ts = true) :
    readExpression limit args (t :: ts) = namedOperand args (t :: ts) := by
  simp [readExpression, hk, hgoes]

section Plain

variable {t : Token} (ht : IsPlain t) {next : Token} (hnext : Stops next) {limit : Int}
  {args : Reader (List Node)} {cut : Event} (rest : List Token)

include ht hnext

/-- A plain operand that ends is an expression of its own. -/
theorem readExpression_plain (hend : isTerminator (some next) = true) :
    readExpression limit args (t :: next :: rest)
      = { value := some (.identifier t.toIdentifier), rest := next :: rest } := by
  rcases ht with hk | hl
  · simp [readExpression, hk, goesOn_of_stops hnext, hend]
  · obtain ⟨he, hk, hi, -⟩ := kind_of_isLiteral hl
    simp [readExpression, he, hk, hi, hl, hend]

/-- A plain operand that does not end starts a run. -/
theorem readExpression_run (hend : isTerminator (some next) = false) :
    readExpression limit args (t :: next :: rest)
      = let run := flatRun args (.expressionCut t.location limit) limit.toNat (t :: next :: rest)
        { value := flatNode t run.value.1 run.value.2
          events := run.events
          rest := run.rest } := by
  rcases ht with hk | hl
  · simp [readExpression, hk, goesOn_of_stops hnext, hend]
  · obtain ⟨he, hk, hi, -⟩ := kind_of_isLiteral hl
    simp [readExpression, he, hk, hi, hend]

/-- A plain operand is one step of a run. -/
theorem flatRun_plain (n : Nat) :
    flatRun args cut (n + 1) (t :: next :: rest)
      = let more := flatRun args cut n (next :: rest)
        { more with value := (.identifier t.toIdentifier :: more.value.1, more.value.2) } := by
  rcases ht with hk | hl
  · simp [flatRun, TokenKind.isBoundary, isTerminator, Token.isMark, hk, goesOn_of_stops hnext]
  · exact flatRun_literal args cut n hl (next :: rest)

end Plain

/-! ## Reading calls -/

theorem stops_of_isTerminator {t : Token} (h : isTerminator (some t) = true) : Stops t := by
  simp only [isTerminator, Bool.or_eq_true, beq_iff_eq] at h
  rcases h with (h | h) | h
  · exact stops_of_kind (Or.inr h)
  · exact stops_of_isMark (by decide) h
  · exact stops_of_isMark (by decide) h

/-- Whether tokens start with one that does not end arguments. -/
def startsArgument (shapes : List (TokenKind × String)) : Bool :=
  shapes.head?.any fun shape => !shape.1.isBoundary && shape.1 != .rightParen

/-- Readers of expressions read tokens, in front of one that ends an expression, as a node with a
property. The node is the same for all of the readers. -/
structure ReadAs {ι : Type} (expr : ι → Reader (Option Node)) (shapes : List (TokenKind × String))
    (P : Node → Prop) : Prop where
  starts : startsArgument shapes = true
  reads : ∀ (ts : List Token), ts.map Token.shape = shapes → ∀ (next : Token),
    isTerminator (some next) = true → ∀ rest : List Token, ∃ n, P n ∧
      ∀ i, (expr i).read (ts ++ next :: rest) = { value := some n, rest := next :: rest }

theorem ReadAs.exists_cons {ι : Type} {expr : ι → Reader (Option Node)}
    {shapes : List (TokenKind × String)} {P : Node → Prop} (h : ReadAs expr shapes P)
    {ts : List Token} (hshapes : ts.map Token.shape = shapes) (rest : List Token) :
    ∃ t us, ts ++ rest = t :: us ∧ endsArguments t = false := by
  have hstarts := h.starts
  rw [startsArgument, Option.any_eq_true] at hstarts
  obtain ⟨shape, hhead, hshape⟩ := hstarts
  obtain ⟨more, rfl⟩ := List.head?_eq_some_iff.1 hhead
  obtain ⟨t, us, rfl, rfl, -⟩ := List.map_eq_cons_iff.1 hshapes
  refine ⟨t, us ++ rest, rfl, ?_⟩
  simpa [endsArguments, Token.shape] using hshape

/-- The loop over arguments goes on behind an argument that has been read. -/
theorem argumentsFrom_read {expr : Reader (Option Node)} {ts : List Token}
    (hts : ∃ t us, ts = t :: us ∧ endsArguments t = false) {n : Node} {next : Token}
    {rest : List Token} (hread : expr.read ts = { value := some n, rest := next :: rest }) :
    argumentsFrom expr ts =
      if endsArguments next then { value := [n], rest := next :: rest }
      else
        let more := argumentsFrom expr rest
        { more with value := n :: more.value } := by
  fun_cases argumentsFrom expr ts with
  | case1 =>
    obtain ⟨t, us, heq, -⟩ := hts
    cases heq
  | case2 t us hends =>
    obtain ⟨t', us', heq, hopen⟩ := hts
    rw [(List.cons.inj heq).1, hopen] at hends
    exact absurd hends Bool.false_ne_true
  | case3 t us hends first hrest =>
    simp only [first, hread] at hrest
    cases hrest
  | case4 t us hends first u vs hrest hu =>
    simp only [first, hread, List.cons.injEq] at hrest
    obtain ⟨rfl, rfl⟩ := hrest
    rw [if_pos hu]
    simp only [first, hread, Option.toList_some]
  | case5 t us hends first u vs hrest hu hlt more =>
    simp only [first, hread, List.cons.injEq] at hrest
    obtain ⟨rfl, rfl⟩ := hrest
    rw [if_neg hu]
    simp only [first, hread, Option.toList_some, List.nil_append, List.singleton_append, more]

/-- **The arguments of a call are read in full.** -/
theorem argumentsFrom_items {ι α : Type} {expr : ι → Reader (Option Node)}
    {shapes : α → List (TokenKind × String)} {P : α → Node → Prop} {items : List α}
    (hitems : ∀ a ∈ items, ReadAs expr (shapes a) (P a)) {ts : List Token}
    (h : ts.map Token.shape = List.intercalate [(.punctuation, ",")] (items.map shapes))
    {close : Token} (hclose : close.kind = .rightParen) (rest : List Token) :
    ∃ nodes, List.Forall₂ P items nodes ∧ ∀ i,
      argumentsFrom (expr i) (ts ++ close :: rest) = { value := nodes, rest := close :: rest } := by
  have hends : endsArguments close = true := by simp [endsArguments, hclose]
  induction items generalizing ts with
  | nil =>
    obtain rfl : ts = [] := List.map_eq_nil_iff.1 h
    refine ⟨[], .nil, fun i => ?_⟩
    rw [List.nil_append, argumentsFrom, if_pos hends]
  | cons a items ih =>
    obtain ⟨ha, hitems⟩ := List.forall_mem_cons.1 hitems
    cases items with
    | nil =>
      replace h : ts.map Token.shape = shapes a := by simpa using h
      obtain ⟨n, hn, hread⟩ := ha.reads ts h close (by simp [isTerminator, hclose]) rest
      refine ⟨[n], .cons hn .nil, fun i => ?_⟩
      rw [argumentsFrom_read (ha.exists_cons h _) (hread i), if_pos hends]
    | cons b items =>
      rw [List.map_cons, List.map_cons, List.intercalate_cons_cons, List.append_assoc] at h
      obtain ⟨front, others, rfl, hfront, hothers⟩ := List.map_eq_append_iff.1 h
      obtain ⟨comma, others, rfl, hcomma, hothers⟩ := List.map_eq_cons_iff.1 hothers
      have hcommaEnds : endsArguments comma = false := by
        obtain ⟨hk, -⟩ := Prod.mk.inj hcomma
        simp [endsArguments, TokenKind.isBoundary, hk]
      obtain ⟨n, hn, hread⟩ := ha.reads front hfront comma
        (by simp [isTerminator, isMark_of_shape hcomma]) (others ++ close :: rest)
      obtain ⟨nodes, hnodes, hmore⟩ := ih hitems hothers
      refine ⟨n :: nodes, .cons hn hnodes, fun i => ?_⟩
      rw [List.append_assoc, List.cons_append,
        argumentsFrom_read (ha.exists_cons hfront _) (hread i), if_neg (by simp [hcommaEnds]),
        hmore i]

/-- The reader of arguments goes on behind the closing parenthesis. -/
theorem readArguments_closed {expr : Reader (Option Node)} {ts rest : List Token} {close : Token}
    {nodes : List Node} (hclose : close.kind = .rightParen)
    (h : argumentsFrom expr ts = { value := nodes, rest := close :: rest }) :
    (readArguments expr).read ts = { value := nodes, rest } := by
  simp [readArguments, h, dropRightParen, hclose]

/-- **A call is an operand**, with its arguments. -/
theorem namedOperand_called {first : String} {others : List Word} {names : List Token}
    (hnames : names.map Token.shape = nameShapes first others) {opening : Token}
    (hopening : opening.kind = .leftParen) (inner : List Token) {next : Token}
    (hnext : Stops next) :
    ∃ site callee, callee.name = nameText first others ∧
      ∀ (args : Reader (List Node)) (nodes : List Node) (rest : List Token),
        args.read inner = { value := nodes, rest := next :: rest } →
        namedOperand args (names ++ opening :: inner) =
          { value := some (.call site callee nodes), rest := next :: rest } := by
  have hdot : opening.isMark "." = false := isMark_of_kind (by simp [hopening]) "."
  have hname := dottedName_name hnames hdot inner
  obtain ⟨t, ts, rfl, -, -⟩ := List.map_eq_cons_iff.1 hnames
  refine ⟨{ location := t.location },
    { site := { location := t.location }, name := nameText first others }, rfl,
    fun args nodes rest hread => ?_⟩
  rw [List.cons_append] at hname ⊢
  rw [namedOperand, hname]
  simp [argumentsAt, hopening, hread, chainedNames_stops hnext, nameText]

/-- An atom that ends is an expression of its own. -/
theorem Atom.readAs {ι : Type} (limit : ι → Int) (args : ι → Reader (List Node)) (a : Atom) :
    ReadAs (fun i => expressionReader (limit i) (args i)) a.shapes a.IsReadAs where
  starts := by
    cases a with
    | name first others => rfl
    | literal kind text isLiteral =>
      cases kind <;> simp [TokenKind.isLiteral] at isLiteral <;> rfl
  reads := by
    intro ts h next hnext rest
    have hstops := stops_of_isTerminator hnext
    cases hplain : (Operand.atom a).isPlain with
    | true =>
      obtain ⟨t, rfl, ht, hread⟩ := Operand.exists_plain hplain h
      exact ⟨.identifier t.toIdentifier, hread, fun i => readExpression_plain ht hstops rest hnext⟩
    | false =>
      obtain ⟨t, us, rfl, hk, hgoes⟩ := Operand.exists_goesOn hplain h
      cases a with
      | literal kind text isLiteral => exact absurd hplain (by simp [Operand.isPlain])
      | name first others =>
        obtain ⟨site, hread⟩ := namedOperand_name h hstops rest
        refine ⟨.identifier { site, name := nameText first others }, rfl, fun i => ?_⟩
        rw [← hread (args i)]
        exact readExpression_goesOn hk (hgoes _)

/-- The call of a name is an operand, with its arguments. -/
theorem namedOperand_call {limit : Int} {k : Nat} {first : String} {others : List Word}
    {arguments : List Atom} {ts : List Token}
    (h : ts.map Token.shape = (Operand.call first others arguments).shapes) {next : Token}
    (hnext : Stops next) (rest : List Token) :
    ∃ n, (Operand.call first others arguments).IsReadAs n ∧
      (namedOperand (argumentReader limit (k + 1)) (ts ++ next :: rest)).value = some n ∧
      (namedOperand (argumentReader limit (k + 1)) (ts ++ next :: rest)).rest = next :: rest := by
  obtain ⟨names, called, rfl, hnames, hcalled⟩ := List.map_eq_append_iff.1 h
  obtain ⟨opening, called, rfl, hopening, hcalled⟩ := List.map_eq_cons_iff.1 hcalled
  obtain ⟨inner, closing, rfl, hinner, hclosing⟩ := List.map_eq_append_iff.1 hcalled
  obtain ⟨close, rfl, hclose⟩ := List.map_eq_singleton_iff.1 hclosing
  have hclose : close.kind = .rightParen := (Prod.mk.inj hclose).1
  obtain ⟨nodes, hnodes, hread⟩ := argumentsFrom_items
    (fun a _ => Atom.readAs (fun _ : Unit => limit) (fun _ => argumentReader limit k) a) hinner
    hclose (next :: rest)
  obtain ⟨site, callee, hname, hcall⟩ := namedOperand_called hnames (Prod.mk.inj hopening).1
    (inner ++ close :: next :: rest) hnext
  have hall := hcall (argumentReader limit (k + 1)) nodes rest (by
    rw [argumentReader, expression_eq]
    exact readArguments_closed hclose (hread ()))
  refine ⟨.call site callee nodes, ⟨hname, hnodes⟩, ?_⟩
  simp only [List.append_assoc, List.cons_append, List.nil_append, hall, and_self]

/-- An operand that is not plain is read as one name that goes on. -/
theorem namedOperand_operand {limit : Int} {k : Nat} {e : Operand} (hplain : e.isPlain = false)
    {ts : List Token} (h : ts.map Token.shape = e.shapes) {next : Token} (hnext : Stops next)
    (rest : List Token) :
    ∃ n, e.IsReadAs n ∧
      (namedOperand (argumentReader limit (k + 1)) (ts ++ next :: rest)).value = some n ∧
      (namedOperand (argumentReader limit (k + 1)) (ts ++ next :: rest)).rest = next :: rest := by
  match e with
  | .call .. => exact namedOperand_call h hnext rest
  | .atom (.literal ..) => exact absurd hplain (by simp [Operand.isPlain])
  | .atom (.name first others) =>
    obtain ⟨site, hread⟩ := namedOperand_name h hnext rest
    exact ⟨.identifier { site, name := nameText first others }, rfl, by rw [hread], by rw [hread]⟩

/-! ## Reading sums -/

/-- The tokens of a sum: an operand, and each further one behind its operator. -/
def sumShapes (first : Operand) (others : List (String × Operand)) : List (TokenKind × String) :=
  first.shapes ++ others.flatMap fun p => (.operator, p.1) :: p.2.shapes

section Runs

variable {limit : Int} {k : Nat} {cut : Event}

theorem flatRun_goesOn {args : Reader (List Node)} {t : Token} (hk : t.kind = .identifier)
    {ts : List Token} (hgoes : goesOn ts = true) {n : Nat} {node : Node} {rest : List Token}
    (hvalue : (namedOperand args (t :: ts)).value = some node)
    (hrest : (namedOperand args (t :: ts)).rest = rest) :
    (flatRun args cut (n + 1) (t :: ts)).value
        = (node :: (flatRun args cut n rest).value.1, (flatRun args cut n rest).value.2) ∧
      (flatRun args cut (n + 1) (t :: ts)).rest = (flatRun args cut n rest).rest := by
  simp [flatRun, TokenKind.isBoundary, isTerminator, Token.isMark, hk, hgoes, hvalue, hrest]

/-- **Inside a run every operand is read alike**, in one step. -/
theorem flatRun_operand {e : Operand} {ts : List Token} (h : ts.map Token.shape = e.shapes)
    {next : Token} (hnext : Stops next) (n : Nat) (rest : List Token) :
    ∃ node, e.IsReadAs node ∧
      (flatRun (argumentReader limit (k + 1)) cut (n + 1) (ts ++ next :: rest)).value
        = (node :: (flatRun (argumentReader limit (k + 1)) cut n (next :: rest)).value.1,
          (flatRun (argumentReader limit (k + 1)) cut n (next :: rest)).value.2) ∧
      (flatRun (argumentReader limit (k + 1)) cut (n + 1) (ts ++ next :: rest)).rest
        = (flatRun (argumentReader limit (k + 1)) cut n (next :: rest)).rest := by
  cases hplain : e.isPlain with
  | true =>
    obtain ⟨t, rfl, ht, hread⟩ := Operand.exists_plain hplain h
    refine ⟨.identifier t.toIdentifier, hread, ?_⟩
    rw [List.singleton_append, flatRun_plain ht hnext]
    exact ⟨rfl, rfl⟩
  | false =>
    obtain ⟨node, hnode, hvalue, hrest⟩ :=
      @namedOperand_operand limit k e hplain ts h next hnext rest
    obtain ⟨t, us, rfl, hk, hgoes⟩ := Operand.exists_goesOn hplain h
    exact ⟨node, hnode, flatRun_goesOn hk (hgoes _) hvalue hrest⟩

theorem flatRun_semicolon {args : Reader (List Node)} {semicolon : Token}
    (h : semicolon.isMark ";" = true) (n : Nat) (rest : List Token) :
    (flatRun args cut n (semicolon :: rest)).value = ([], []) ∧
      (flatRun args cut n (semicolon :: rest)).rest = semicolon :: rest := by
  cases n with
  | zero => exact ⟨rfl, rfl⟩
  | succ n => simp [flatRun, isTerminator, h]

/-- **A run of operands and operators is read to its end** when there are as many steps as operands
and operators. -/
theorem flatRun_sum {first : Operand} {others : List (String × Operand)} {ts : List Token}
    (h : ts.map Token.shape = sumShapes first others)
    (hoperators : ∀ p ∈ others, isAssignmentOperator p.1 = false) {n : Nat}
    (hn : 2 * others.length + 1 ≤ n) {semicolon : Token} (hsemicolon : semicolon.isMark ";" = true)
    (rest : List Token) :
    List.Forall₂ Operand.IsReadAs (first :: others.map Prod.snd)
        (flatRun (argumentReader limit (k + 1)) cut n (ts ++ semicolon :: rest)).value.1 ∧
      (flatRun (argumentReader limit (k + 1)) cut n (ts ++ semicolon :: rest)).value.2
        = others.map Prod.fst ∧
      (flatRun (argumentReader limit (k + 1)) cut n (ts ++ semicolon :: rest)).rest
        = semicolon :: rest := by
  induction others generalizing first ts n with
  | nil =>
    obtain ⟨n, rfl⟩ : ∃ m, n = m + 1 := ⟨n - 1, by simp at hn; omega⟩
    replace h : ts.map Token.shape = first.shapes := by simpa [sumShapes] using h
    obtain ⟨node, hnode, hvalue, hrest⟩ := @flatRun_operand limit k cut first ts h semicolon
      (stops_of_isMark (by decide) hsemicolon) n rest
    obtain ⟨hempty, hleft⟩ := @flatRun_semicolon cut (argumentReader limit (k + 1)) semicolon
      hsemicolon n rest
    rw [hvalue, hrest, hempty, hleft]
    exact ⟨.cons hnode .nil, rfl, rfl⟩
  | cons p others ih =>
    obtain ⟨n, rfl⟩ : ∃ m, n = m + 2 := ⟨n - 2, by simp at hn; omega⟩
    obtain ⟨front, back, rfl, hfront, hback⟩ := List.map_eq_append_iff.1 h
    obtain ⟨operator, back, rfl, hoperator, hback⟩ := List.map_eq_cons_iff.1 hback
    obtain ⟨hk, ht⟩ := Prod.mk.inj hoperator
    obtain ⟨node, hnode, hvalue, hrest⟩ := @flatRun_operand limit k cut first front hfront operator
      (stops_of_kind (Or.inl hk)) (n + 1) (back ++ semicolon :: rest)
    obtain ⟨hnodes, hothers, hleft⟩ := @ih p.2 back hback
      (fun q hq => hoperators q (List.mem_cons_of_mem p hq)) n (by simp at hn; omega)
    have hstep : flatRun (argumentReader limit (k + 1)) cut (n + 1)
        (operator :: (back ++ semicolon :: rest))
        = let more := flatRun (argumentReader limit (k + 1)) cut n (back ++ semicolon :: rest)
          { more with value := (more.value.1, p.1 :: more.value.2) } := by
      simp [flatRun, TokenKind.isBoundary, isTerminator, Token.isMark, hk, ht,
        hoperators p List.mem_cons_self]
    rw [List.append_assoc, List.cons_append, hvalue, hrest, hstep]
    exact ⟨.cons hnode hnodes, by rw [List.map_cons, ← hothers], hleft⟩

end Runs

/-! ## Sums as expressions -/

theorem flatNode_expression {start : Token} {operands : List Node} {operators : List String}
    (hoperands : operands ≠ []) (hoperators : operators ≠ []) :
    flatNode start operands operators
      = some (.expression { location := start.location } operands operators) := by
  obtain ⟨a, as, rfl⟩ := List.exists_cons_of_ne_nil hoperands
  obtain ⟨o, os, rfl⟩ := List.exists_cons_of_ne_nil hoperators
  cases as <;> rfl

section Expressions

variable {limit : Int} {first : Operand} {others : List (String × Operand)} {ts : List Token}
  (h : ts.map Token.shape = sumShapes first others) (hothers : others ≠ []) {semicolon : Token}

include h hothers

/-- Behind the first operand of a sum stands an operator. -/
theorem exists_operator : ∃ front operator back, ts = front ++ operator :: back ∧
    front.map Token.shape = first.shapes ∧ operator.kind = .operator := by
  obtain ⟨p, others, rfl⟩ := List.exists_cons_of_ne_nil hothers
  obtain ⟨front, back, rfl, hfront, hback⟩ := List.map_eq_append_iff.1 h
  obtain ⟨operator, back, rfl, hoperator, -⟩ := List.map_eq_cons_iff.1 hback
  exact ⟨front, operator, back, rfl, hfront, (Prod.mk.inj hoperator).1⟩

/-- **A sum that starts with a plain operand is read in full.** -/
theorem outerExpression_sum (hoperators : ∀ p ∈ others, isAssignmentOperator p.1 = false)
    (hlimit : (2 * others.length + 1 : Int) ≤ limit) (hplain : first.isPlain = true)
    (hsemicolon : semicolon.isMark ";" = true) (rest : List Token) :
    ∃ site operands, List.Forall₂ Operand.IsReadAs (first :: others.map Prod.snd) operands ∧
      ((outerExpression limit).read (ts ++ semicolon :: rest)).value
        = some (.expression site operands (others.map Prod.fst)) ∧
      ((outerExpression limit).read (ts ++ semicolon :: rest)).rest = semicolon :: rest := by
  obtain ⟨front, operator, back, rfl, hfront, hk⟩ := exists_operator h hothers
  obtain ⟨t, rfl, ht, -⟩ := Operand.exists_plain hplain hfront
  have hend : isTerminator (some operator) = false := by simp [isTerminator, Token.isMark, hk]
  obtain ⟨k, hdepth⟩ : ∃ k, maxCallDepth = k + 1 := ⟨99, rfl⟩
  obtain ⟨hnodes, hoperator, hleft⟩ := @flatRun_sum limit k (.expressionCut t.location limit)
    first others _ h hoperators limit.toNat (by omega) semicolon hsemicolon rest
  have hrun := @readExpression_run t ht operator (stops_of_kind (Or.inl hk)) limit
    (argumentReader limit (k + 1)) (back ++ semicolon :: rest) hend
  simp only [List.cons_append, List.nil_append] at hnodes hoperator hleft ⊢
  rw [outerExpression, hdepth, expression_eq]
  refine ⟨{ location := t.location }, _, hnodes, ?_, (congrArg Reading.rest hrun).trans hleft⟩
  refine (congrArg Reading.value hrun).trans ?_
  rw [← hoperator]
  refine flatNode_expression ?_ ?_
  · intro hnil
    rw [hnil] at hnodes
    cases hnodes
  · rw [hoperator]
    exact fun hnil => hothers (List.map_eq_nil_iff.1 hnil)

/-- **A sum that starts with a dotted name or a call is read as this operand alone.** -/
theorem outerExpression_cut (hplain : first.isPlain = false) (rest : List Token) :
    ∃ n, first.IsReadAs n ∧
      ((outerExpression limit).read (ts ++ semicolon :: rest)).value = some n := by
  obtain ⟨front, operator, back, rfl, hfront, hk⟩ := exists_operator h hothers
  obtain ⟨k, hdepth⟩ : ∃ k, maxCallDepth = k + 1 := ⟨99, rfl⟩
  obtain ⟨n, hn, hvalue, -⟩ := @namedOperand_operand limit k first hplain front hfront operator
    (stops_of_kind (Or.inl hk)) (back ++ semicolon :: rest)
  obtain ⟨t, us, rfl, hident, hgoes⟩ := Operand.exists_goesOn hplain hfront
  refine ⟨n, hn, ?_⟩
  rw [outerExpression, hdepth, expression_eq, List.append_assoc, ← hvalue]
  exact congrArg Reading.value (readExpression_goesOn hident (hgoes _))

end Expressions

/-! ## Declared sums -/

/-- The tokens of a variable that is declared with a sum. -/
def letShapes (x : String) (first : Operand) (others : List (String × Operand)) :
    List (TokenKind × String) :=
  (.keyword, "let") :: (.identifier, x) :: (.operator, "=") ::
    (sumShapes first others ++ [(.punctuation, ";")])

/-- **A page keeps a declared sum**: its only statement is the variable, with all the operands and
operators in their order. -/
structure KeepsSum (x : String) (first : Operand) (others : List (String × Operand)) (page : Page) :
    Prop where
  scripts : ∃ site letSite target sumSite operands, page.document.scripts =
      [.script site [.varDecl letSite "let" target
        (some (.expression sumSite operands (others.map Prod.fst)))]] ∧
    target.name = x ∧ List.Forall₂ Operand.IsReadAs (first :: others.map Prod.snd) operands
  names : page.declaredNames = [x]

/-- **A page cuts a declared sum**: the variable has the first operand alone. -/
def CutsSum (x : String) (first : Operand) (page : Page) : Prop :=
  ∃ site letSite target n more, page.document.scripts =
      [.script site (.varDecl letSite "let" target (some n) :: more)] ∧
    target.name = x ∧ first.IsReadAs n

theorem not_keepsSum_of_cutsSum {x : String} {first : Operand} {others : List (String × Operand)}
    {page : Page} (h : CutsSum x first page) : ¬ KeepsSum x first others page := by
  rintro ⟨⟨_, _, _, _, _, hkept, -⟩, -⟩
  obtain ⟨_, _, _, n, _, hcut, -, hn⟩ := h
  rw [hcut] at hkept
  simp only [List.cons.injEq, Node.script.injEq, Node.varDecl.injEq, Option.some.injEq] at hkept
  obtain ⟨⟨-, ⟨-, -, -, rfl⟩, -⟩, -⟩ := hkept
  cases first <;> exact hn

/-- A declaration is read with its value. -/
theorem readStatement?_declares (config : Config) {w : DeclaringWord} {t name : Token}
    (ht : t.shape = (.keyword, w.text)) (hname : name.kind = .identifier) (ts : List Token) :
    readStatement? config t (name :: ts) =
      let value := readInitializer config.maxExpressionTokens ts
      some {
        statements := [w.node t name.toIdentifier value.value]
        declared := [name.text]
        events := value.events
        rest := dropSemicolon value.rest } := by
  obtain ⟨hk, htext⟩ := Prod.mk.inj ht
  rw [readStatement?_declaringWord config hk htext, readDeclaration, if_pos (by rw [hname]; rfl)]

theorem readInitializer_sign {limit : Int} {sign : Token} (h : sign.shape = (.operator, "="))
    (ts : List Token) : readInitializer limit (sign :: ts) = (outerExpression limit).read ts := by
  obtain ⟨hk, htext⟩ := Prod.mk.inj h
  rw [readInitializer, if_pos (by simp [hk, htext])]

/-- **A variable keeps the sum that it is declared with** exactly when the sum starts with a plain
name or a literal. A dotted name or a call in front is all that is kept of it. -/
theorem letSum_kept_iff {config : Config} {name : String} {attributes : List (String × String)}
    (htag : IsContainer config name attributes) {x : String} {first : Operand}
    {others : List (String × Operand)} (hothers : others ≠ [])
    (hoperators : ∀ p ∈ others, isAssignmentOperator p.1 = false)
    (hlimit : (2 * others.length + 1 : Int) ≤ config.maxExpressionTokens) {script : List Char}
    (hscript : Spells (letShapes x first others) script) (file : Option String) :
    ∃ page, readPage? config (scriptPage name attributes script) file = some page ∧
      (KeepsSum x first others page ↔ first.isPlain = true) ∧
      (first.isPlain = false → CutsSum x first page) := by
  have hone : 1 ≤ config.maxExpressionTokens := by omega
  obtain ⟨page, inside, site, hpage, hshapes, hinside, hscripts, hnames⟩ :=
    exists_page hone htag hscript file
  obtain ⟨t, inside, rfl, ht, hshapes⟩ := List.map_eq_cons_iff.1 hshapes
  obtain ⟨target, inside, rfl, htarget, hshapes⟩ := List.map_eq_cons_iff.1 hshapes
  obtain ⟨sign, inside, rfl, hsign, hshapes⟩ := List.map_eq_cons_iff.1 hshapes
  obtain ⟨ts, last, rfl, hsum, hlast⟩ := List.map_eq_append_iff.1 hshapes
  obtain ⟨semicolon, rfl, hsemicolon⟩ := List.map_eq_singleton_iff.1 hlast
  have hread := @readStatement?_declares config .letWord t target ht (Prod.mk.inj htarget).1
    (sign :: (ts ++ [semicolon]))
  rw [readInitializer_sign hsign] at hread
  rw [harvestOf_statement hone hinside hread] at hscripts hnames
  have hx : target.text = x := (Prod.mk.inj htarget).2
  refine ⟨page, hpage, ?_⟩
  cases hplain : first.isPlain with
  | true =>
    obtain ⟨sumSite, operands, hoperands, hvalue, hrest⟩ := outerExpression_sum hsum hothers
      hoperators hlimit hplain (isMark_of_shape hsemicolon) []
    have hnothing : dropSemicolon [semicolon] = [] := by
      simp [dropSemicolon, isMark_of_shape hsemicolon]
    rw [hvalue, hrest, hnothing] at hscripts
    rw [hrest, hnothing] at hnames
    have hkept : KeepsSum x first others page := by
      refine ⟨⟨site, { location := t.location }, target.toIdentifier, sumSite, operands,
        hscripts.trans ?_, hx, hoperands⟩, hnames.trans ?_⟩
      · simp [Harvest.append, harvestOf, scriptFrom?_nil, DeclaringWord.node, DeclaringWord.text]
      · simp [Harvest.append, harvestOf, scriptFrom?_nil, hx]
    exact ⟨iff_of_true hkept rfl, fun hfalse => absurd hfalse (by decide)⟩
  | false =>
    obtain ⟨n, hn, hvalue⟩ := @outerExpression_cut config.maxExpressionTokens first others ts hsum
      hothers semicolon hplain []
    rw [hvalue] at hscripts
    have hcut : CutsSum x first page :=
      ⟨site, { location := t.location }, target.toIdentifier, n, _, hscripts, hx, hn⟩
    exact ⟨iff_of_false (not_keepsSum_of_cutsSum hcut) (by decide), fun _ => hcut⟩

/-- The name `a.b`. -/
def dotted : Operand := .atom (.name "a" [⟨.identifier, "b", rfl⟩])

/-- The name `c`. -/
def plain : Operand := .atom (.name "c" [])

theorem dottedSum_cut :
    IsContainer {} "body" [] ∧
    (∃ page, readPage? {} "<body><script>let x = c + a.b;</script></body>" none = some page ∧
      KeepsSum "x" plain [("+", dotted)] page) ∧
    ∃ page, readPage? {} "<body><script>let x = a.b + c;</script></body>" none = some page ∧
      CutsSum "x" dotted page ∧ ¬ KeepsSum "x" dotted [("+", plain)] page := by
  have htag : IsContainer {} "body" [] := ⟨by decide +kernel, by simp, by decide⟩
  refine ⟨htag, ?_, ?_⟩
  · have hscript : Spells (letShapes "x" plain [("+", dotted)]) "let x = c + a.b;".toList :=
      @spells_layout [([], .keyword, "let"), ([' '], .identifier, "x"), ([' '], .operator, "="),
        ([' '], .identifier, "c"), ([' '], .operator, "+"), ([' '], .identifier, "a"),
        ([], .punctuation, "."), ([], .identifier, "b"), ([], .punctuation, ";")]
        (by decide +kernel)
    obtain ⟨page, hpage, hkept, -⟩ := letSum_kept_iff htag (List.cons_ne_nil _ _)
      (by decide +kernel) (by decide) hscript none
    exact ⟨page, hpage, hkept.2 rfl⟩
  · have hscript : Spells (letShapes "x" dotted [("+", plain)]) "let x = a.b + c;".toList :=
      @spells_layout [([], .keyword, "let"), ([' '], .identifier, "x"), ([' '], .operator, "="),
        ([' '], .identifier, "a"), ([], .punctuation, "."), ([], .identifier, "b"),
        ([' '], .operator, "+"), ([' '], .identifier, "c"), ([], .punctuation, ";")]
        (by decide +kernel)
    obtain ⟨page, hpage, hkept, hcut⟩ := letSum_kept_iff htag (List.cons_ne_nil _ _)
      (by decide +kernel) (by decide) hscript none
    exact ⟨page, hpage, hcut rfl, fun h => absurd (hkept.1 h) (by decide)⟩

end PageLint.Written
