import PageLint.Proofs.Passes.Operators
import PageLint.Proofs.Written.Singles
import PageLint.Proofs.Written.Sums

/-!
# Written chains of assignments

A chain of assignments is a list of links, each with a target and an operator, in front of a value.
A target is any tokens from an identifier on, up to the next assignment operator of the statement.
However many links there are, and however long their targets, the chain is read back link by link,
and ends at a value that no assignment operator follows.

* `Link`, `Link.IsWritten` — the links of a chain as they are written
* `IsChain` — chains as they stand in the tree of a page, nested to the right
* `assignmentLinks_chain` — all links of a chain are found
* `readStatement?_chain` — a chain is one statement under all settings
* `chain_readBack` — a chain that is the only statement of a script is read back
-/

namespace PageLint.Written

/-! ## Chains -/

/-- A token that is an assignment operator. -/
def Assigns (t : Token) : Prop := t.kind = .operator ∧ t.text ∈ assignmentOperators

/-- One target of a chain, from its first token on, with the operator behind it. -/
structure Link where
  first : Token
  others : List Token
  operator : Token

namespace Link

/-- The tokens of a link. -/
def tokens (l : Link) : List Token := l.first :: (l.others ++ [l.operator])

/-- A target starts with an identifier. None of its tokens ends the statement or assigns. -/
structure IsWritten (l : Link) : Prop where
  identifier : l.first.kind = .identifier
  goes_on : ∀ t ∈ l.others, t.kind.isBoundary = false ∧ t.isMark ";" = false ∧ ¬ Assigns t
  assigns : Assigns l.operator

/-- The text of a target, without comments. -/
def targetText (l : Link) : String :=
  String.join (((l.first :: l.others).filter fun t => t.kind != .comment).map Token.text)

/-- The assignment of a link to what is inside it. -/
def assignment (l : Link) (inner : Node) : Node :=
  let site : Site := { location := l.first.location }
  .assignment site { site, name := l.targetText } l.operator.text (some inner)

end Link

/-- The node of a chain: assignments nested to the right, with the value innermost. -/
inductive IsChain (value : Token) : List Link → Node → Prop
  | value : IsChain value [] (.identifier value.toIdentifier)
  | link {links : List Link} {inner : Node} (l : Link) (h : IsChain value links inner) :
      IsChain value (l :: links) (l.assignment inner)

/-- The tokens of a chain as a statement. -/
def chainTokens (links : List Link) (value semicolon : Token) : List Token :=
  links.flatMap Link.tokens ++ [value, semicolon]

theorem chainTokens_cons (l : Link) (links : List Link) (value semicolon : Token) :
    chainTokens (l :: links) value semicolon = l.tokens ++ chainTokens links value semicolon := by
  rw [chainTokens, chainTokens, List.flatMap_cons, List.append_assoc]

section Shape

variable {value : Token} {links : List Link} {n : Node} (h : IsChain value links n)

include h

/-- The targets of a chain in their order. -/
theorem IsChain.chainTargets_eq : n.chainTargets = links.map Link.targetText := by
  induction h with
  | value => simp [Node.chainTargets]
  | link l _ ih => rw [Link.assignment, Node.chainTargets, ih, List.map_cons]

/-- The operators of a chain in their order. -/
theorem IsChain.operators_eq :
    n.links.map Node.assignmentOperator = links.map fun l => l.operator.text := by
  induction h with
  | value => simp [Node.links]
  | link l _ ih => rw [Link.assignment, Node.links, List.map_cons, ih, List.map_cons]; rfl

end Shape

/-! ## Reading a chain -/

theorem assigns_iff {t : Token} :
    (t.kind == .operator && isAssignmentOperator t.text) = true ↔ Assigns t := by
  simp [isAssignmentOperator, Assigns]

/-- The first assignment operator of a statement is found. -/
theorem findAssignment?_first {others : List Token}
    (hothers : ∀ t ∈ others, t.kind.isBoundary = false ∧ t.isMark ";" = false ∧ ¬ Assigns t)
    {operator : Token} (hoperator : Assigns operator) (rest : List Token) :
    findAssignment? (others ++ operator :: rest) = some (others, operator, rest) := by
  induction others with
  | nil =>
    have hends : (operator.kind.isBoundary || operator.isMark ";") = false := by
      simp [TokenKind.isBoundary, Token.isMark, hoperator.1]
    rw [List.nil_append, findAssignment?, hends, if_neg Bool.false_ne_true,
      if_pos (assigns_iff.2 hoperator)]
  | cons t others ih =>
    obtain ⟨⟨hboundary, hmark, hnot⟩, hothers⟩ := List.forall_mem_cons.1 hothers
    rw [List.cons_append, findAssignment?, hboundary, hmark, Bool.or_false,
      if_neg Bool.false_ne_true, if_neg (mt assigns_iff.1 hnot), ih hothers]
    rfl

/-- A link in front of other tokens is the first link. -/
theorem assignmentLinks_link {l : Link} (h : l.IsWritten) (rest : List Token) :
    assignmentLinks (l.tokens ++ rest) =
      ((targetOf l.first l.others, l.operator.text) :: (assignmentLinks rest).1,
        (assignmentLinks rest).2) := by
  have hfind := findAssignment?_first h.goes_on h.assigns rest
  rw [Link.tokens, List.cons_append, List.append_assoc, List.singleton_append, assignmentLinks,
    if_pos (by simp [h.identifier])]
  split
  · rename_i hnone
    rw [hfind] at hnone
    cases hnone
  · rename_i before operator after hsome
    rw [hfind] at hsome
    cases hsome
    rfl

/-- A value in front of a semicolon is no link. -/
theorem assignmentLinks_value (value : Token) {semicolon : Token}
    (hsemicolon : semicolon.isMark ";" = true) (rest : List Token) :
    assignmentLinks (value :: semicolon :: rest) = ([], value :: semicolon :: rest) := by
  have hnone : findAssignment? (semicolon :: rest) = none := by
    simp [findAssignment?, hsemicolon]
  rw [assignmentLinks]
  split
  · split
    · rfl
    · rename_i before operator after hsome
      rw [hnone] at hsome
      cases hsome
  · rfl

/-- **All links of a chain are found**, and nothing of its value is taken for a link. -/
theorem assignmentLinks_chain {links : List Link} (hlinks : ∀ l ∈ links, l.IsWritten)
    (value : Token) {semicolon : Token} (hsemicolon : semicolon.isMark ";" = true)
    (rest : List Token) :
    assignmentLinks (chainTokens links value semicolon ++ rest) =
      (links.map fun l => (targetOf l.first l.others, l.operator.text),
        value :: semicolon :: rest) := by
  induction links with
  | nil => exact assignmentLinks_value value hsemicolon rest
  | cons l links ih =>
    obtain ⟨hl, hlinks⟩ := List.forall_mem_cons.1 hlinks
    rw [chainTokens_cons, List.append_assoc, assignmentLinks_link hl, ih hlinks, List.map_cons]

/-- The node that links and a value make is a chain. -/
theorem exists_chainNode (links : List Link) (value : Token) : ∃ n, IsChain value links n ∧
    chainNode (links.map fun l => (targetOf l.first l.others, l.operator.text))
      (some (.identifier value.toIdentifier)) = some n := by
  induction links with
  | nil => exact ⟨_, .value, rfl⟩
  | cons l links ih =>
    obtain ⟨n, hn, hnode⟩ := ih
    refine ⟨_, .link l hn, ?_⟩
    rw [chainNode] at hnode ⊢
    rw [List.map_cons, List.foldr_cons, hnode]
    rfl

/-- **A chain is a statement** under all settings. -/
theorem readStatement?_chain {links : List Link} (hne : links ≠ [])
    (hlinks : ∀ l ∈ links, l.IsWritten) {value : Token} (hvalue : IsPlain value)
    {semicolon : Token} (hsemicolon : semicolon.isMark ";" = true) :
    ∃ t us n, chainTokens links value semicolon = t :: us ∧ t.kind = .identifier ∧
      IsChain value links n ∧
      ∀ config rest, readStatement? config t (us ++ rest) = some { statements := [n], rest } := by
  obtain ⟨l, others, rfl⟩ := List.exists_cons_of_ne_nil hne
  obtain ⟨n, hn, hnode⟩ := exists_chainNode (l :: others) value
  have hk : l.first.kind = .identifier := (hlinks l List.mem_cons_self).identifier
  refine ⟨l.first, l.others ++ [l.operator] ++ chainTokens others value semicolon, n,
    chainTokens_cons .., hk, hn, fun config rest => ?_⟩
  have hfound := assignmentLinks_chain hlinks value hsemicolon rest
  have hend : isTerminator (some semicolon) = true := by simp [isTerminator, hsemicolon]
  have hread : (outerExpression config.maxExpressionTokens).read (value :: semicolon :: rest) =
      { value := some (.identifier value.toIdentifier), rest := semicolon :: rest } := by
    rw [outerExpression, expression_eq]
    exact readExpression_plain hvalue (stops_of_isTerminator hend) rest hend
  have hsimple : readSimple? config.maxExpressionTokens l.first
      (l.others ++ [l.operator] ++ chainTokens others value semicolon ++ rest) =
      some (readAssignment config.maxExpressionTokens
        (chainTokens (l :: others) value semicolon ++ rest)) := by
    simp [readSimple?, hk, chainTokens_cons, Link.tokens]
  have hassignment : readAssignment config.maxExpressionTokens
      (chainTokens (l :: others) value semicolon ++ rest) = { statements := [n], rest } := by
    simp only [readAssignment, hfound, hread, hnode, dropSemicolon, hsemicolon, if_true]
    rfl
  rw [readStatement?, hsimple, hassignment]

/-! ## Scripts that are chains -/

theorem IsPlain.not_boundary {t : Token} (h : IsPlain t) : t.kind.isBoundary = false := by
  rcases h with hk | hk
  · rw [hk]; rfl
  · cases hkind : t.kind <;> rw [hkind] at hk <;> first | rfl | cases hk

/-- No token of a chain ends its script. -/
theorem inside_chainTokens {links : List Link} (hlinks : ∀ l ∈ links, l.IsWritten)
    {value : Token} (hvalue : IsPlain value) {semicolon : Token}
    (hsemicolon : semicolon.isMark ";" = true) : Inside (chainTokens links value semicolon) := by
  have hkinds : ∀ t ∈ chainTokens links value semicolon, t.kind.isBoundary = false := by
    refine List.forall_mem_append.2 ⟨fun t ht => ?_, ?_⟩
    · obtain ⟨l, hl, ht⟩ := List.mem_flatMap.1 ht
      have hl := hlinks l hl
      rcases List.mem_cons.1 ht with rfl | ht
      · rw [hl.identifier]; rfl
      · rcases List.mem_append.1 ht with ht | ht
        · exact (hl.goes_on t ht).1
        · rw [List.mem_singleton.1 ht, hl.assigns.1]; rfl
    · have hplain := hvalue.not_boundary
      have hmark : semicolon.kind.isBoundary = false := by
        rw [(kind_of_isMark hsemicolon).1]; rfl
      simp [hplain, hmark]
  intro t ht
  refine Bool.eq_false_iff.2 fun hends => ?_
  have hkind := hkinds t ht
  rcases kind_of_endsScript hends with hk | hk <;> rw [hk] at hkind <;> cases hkind

/-- **A script that is a chain has the chain as its only statement**, under all settings. -/
theorem isSingle_chain {links : List Link} (hne : links ≠ [])
    (hlinks : ∀ l ∈ links, l.IsWritten) {value : Token} (hvalue : IsPlain value)
    {semicolon : Token} (hsemicolon : semicolon.isMark ";" = true) :
    ∃ n, IsChain value links n ∧ IsSingle (chainTokens links value semicolon) n := by
  obtain ⟨t, us, n, htokens, hk, hn, hread⟩ := readStatement?_chain hne hlinks hvalue hsemicolon
  refine ⟨n, hn, fun config tail htail => ?_⟩
  rw [htokens]
  exact scriptFrom?_single hk htail (hread config tail)

/-- **A chain of assignments is read back**: a script with links, a value and a semicolon, inside a
tag, has one statement, whatever the settings are. It is the chain of the links, nested to the right
around the value; its targets are the texts of the targets without comments, and its operators are
those of the links. -/
theorem chain_readBack {links : List Link} (hne : links ≠ []) (hlinks : ∀ l ∈ links, l.IsWritten)
    {value : Token} (hvalue : IsPlain value) {semicolon : Token}
    (hsemicolon : semicolon.isMark ";" = true) {opening : Token}
    (hopening : opening.kind = .scriptOpen) :
    ∃ n, IsChain value links n ∧ n.chainTargets = links.map Link.targetText ∧
      n.links.map Node.assignmentOperator = links.map (fun l => l.operator.text) ∧
      (∀ (config : Config) (p : Progress) (close : Token) (rest : List Token),
        p.region = none → p.forest.openTags.isEmpty = false → close.kind = .scriptClose →
        p.readFrom? config (opening :: (chainTokens links value semicolon ++ close :: rest)) =
          (withScript p opening n).readFrom? config rest) ∧
      ∀ (config : Config) (tag : Token) (tail : List Token) (file : Option String),
        tag.OpensTag config → Ended tail → (∀ t ∈ tail, t.kind ≠ .scriptOpen) → ∃ page site,
          readTokens? config (tag :: opening :: (chainTokens links value semicolon ++ tail)) file =
            some page ∧
          page.document.scripts = [.script site [n]] := by
  obtain ⟨n, hn, hsingle⟩ := isSingle_chain hne hlinks hvalue hsemicolon
  have hinside := inside_chainTokens hlinks hvalue hsemicolon
  exact ⟨n, hn, hn.chainTargets_eq, hn.operators_eq,
    fun config p close rest hregion htags hclose =>
      hsingle.readFrom? hopening hregion htags hclose rest,
    fun config tag tail file htag htail hlast =>
      hsingle.exists_page hopening hinside htag htail hlast file⟩

/-- The chain `a.b /* c */ [0] = d ^= "x";`. -/
def sampleLinks : List Link :=
  [⟨.bare .identifier "a", [.bare .punctuation ".", .bare .identifier "b",
      .bare .comment "/* c */", .bare .leftBracket "[", .bare .number "0",
      .bare .rightBracket "]"], .bare .operator "="⟩,
    ⟨.bare .identifier "d", [], .bare .operator "^="⟩]

/-- The chain is read where expressions may take no token, in a body that is left open. -/
theorem sampleLinks_readBack : sampleLinks ≠ [] ∧ (∀ l ∈ sampleLinks, l.IsWritten) ∧
    IsPlain (.bare .string "\"x\"") ∧ (Token.bare .punctuation ";").isMark ";" = true ∧
    (Token.bare .scriptOpen "<script>").kind = .scriptOpen ∧
    ∃ n page site, readTokens? { maxExpressionTokens := 0 } (.bare .tagOpen "<body>" ::
        .bare .scriptOpen "<script>" :: (chainTokens sampleLinks (.bare .string "\"x\"")
          (.bare .punctuation ";") ++ [.bare .scriptClose "</script>"])) none = some page ∧
      page.document.scripts = [.script site [n]] ∧ n.chainTargets = ["a.b[0]", "d"] ∧
      n.links.map Node.assignmentOperator = ["=", "^="] := by
  have hlinks : ∀ l ∈ sampleLinks, l.IsWritten := by
    have hothers : ∀ l ∈ sampleLinks, l.first.kind = .identifier ∧
        (∀ t ∈ l.others, t.kind.isBoundary = false ∧ t.isMark ";" = false ∧
          t.kind ≠ .operator) ∧ l.operator.kind = .operator ∧
          l.operator.text ∈ assignmentOperators := by
      decide
    intro l hl
    obtain ⟨hk, hgoes, hassigns⟩ := hothers l hl
    exact ⟨hk, fun t ht => ⟨(hgoes t ht).1, (hgoes t ht).2.1, fun h => (hgoes t ht).2.2 h.1⟩,
      hassigns⟩
  have hvalue : IsPlain (.bare .string "\"x\"") := Or.inr rfl
  have htag : (Token.bare .tagOpen "<body>").OpensTag { maxExpressionTokens := 0 } :=
    ⟨rfl, by decide +kernel⟩
  obtain ⟨n, -, htargets, hoperators, -, hpage⟩ := @chain_readBack sampleLinks (by decide) hlinks
    (.bare .string "\"x\"") hvalue (.bare .punctuation ";") rfl (.bare .scriptOpen "<script>") rfl
  obtain ⟨page, site, hread, hscripts⟩ := hpage _ _ [.bare .scriptClose "</script>"] none htag
    (ended_close rfl []) (by decide)
  exact ⟨by decide, hlinks, hvalue, rfl, rfl, n, page, site, hread, hscripts, htargets, hoperators⟩

end PageLint.Written
