import PageLint.Proofs.Desk.Pages
import PageLint.Proofs.Grammar.Pages

/-!
# The shape of trees

Trees put together by hand may have any shape; the trees that are read have one. Functions stand in
scripts only, declarations in scripts and functions, and an assignment is a statement or the value
of another one. Values are names, calls and expressions, and expressions are flat. Calls nest only
as deep as their arguments are read.

* `NodeKind.held` — what a node of a kind may hold
* `Node.Shaped` — a node that holds nothing else, and whose own fields are in order
* `Node.CallsWithin` — how many calls a path down from a node may hold
* `readTokens?_shaped` — every list of tokens becomes a document of this shape
-/

namespace PageLint

/-! ## What nodes may hold -/

/-- The nodes in the fields of a node, in order, apart from attributes, targets, parameters and
callees, whose kinds are fixed. -/
def Node.fieldNodes : Node → List Node
  | document _ children doctype root => children ++ (doctype.toList ++ root.toList)
  | tag _ _ _ children _ _ => children
  | script _ statements => statements
  | function _ _ _ body => body
  | varDecl _ _ _ initializer => initializer.toList
  | constDecl _ _ initializer => initializer.toList
  | assignment _ _ _ value => value.toList
  | call _ _ arguments => arguments
  | expression _ operands _ => operands
  | attr _ | text .. | identifier _ | plain _ => []

theorem Node.fieldNodes_eq_children {n : Node} (h : n.kind ≠ .document) :
    n.fieldNodes = n.children := by
  cases n with
  | document => exact absurd rfl h
  | _ => rfl

/-- The kinds of the values that initialise, are passed to calls and are assigned. -/
def valueKinds : List NodeKind := [.identifier, .call, .expression]

/-- The kinds of the statements of a function. -/
def simpleKinds : List NodeKind := .varDecl :: .constDecl :: .assignment :: valueKinds

/-- The kinds of the nodes that may stand in the fields of a node of a kind. -/
def NodeKind.held : NodeKind → List NodeKind
  | document => [.tag]
  | tag => [.tag, .text, .script]
  | script => .function :: simpleKinds
  | function => simpleKinds
  | assignment => .assignment :: valueKinds
  | varDecl | constDecl | call => valueKinds
  | expression => [.identifier, .call]
  | attr | text | identifier | plain => []

/-- What is asked of a node apart from the nodes that it holds. -/
def Node.OwnShape (limit : Int) : Node → Prop
  | .tag _ _ _ _ _ closing => closing = false
  | .assignment _ _ operator _ => operator ∈ assignmentOperators
  | .expression _ operands operators =>
    operands ≠ [] ∧ (operators ≠ [] ∨ 2 ≤ operands.length) ∧
      (operands.length + operators.length : Int) ≤ limit
  | _ => True

/-- A node that holds only what it may hold, with its own fields in order. -/
structure Node.Shaped (limit : Int) (n : Node) : Prop where
  held : ∀ c ∈ n.fieldNodes, c.kind ∈ n.kind.held
  own : n.OwnShape limit

/-! ## Calls on a path -/

/-- No path down from a node holds more than a number of calls. -/
def Node.CallsWithin (k : Nat) (n : Node) : Prop :=
  ∀ path : List Node, path.head? = some n → path.IsChain (fun m c => c ∈ m.fieldNodes) →
    path.countP (fun m => m.kind == .call) ≤ k

theorem Node.CallsWithin.mono {k l : Nat} {n : Node} (h : n.CallsWithin k) (hkl : k ≤ l) :
    n.CallsWithin l :=
  fun path hhead hchain => Nat.le_trans (h path hhead hchain) hkl

/-- A path goes on through a node that stands in a field, and a call is one more. -/
theorem Node.callsWithin_of_fields {j k : Nat} {n : Node}
    (hfields : ∀ c ∈ n.fieldNodes, c.CallsWithin j)
    (hk : (if n.kind == .call then j + 1 else j) ≤ k) : n.CallsWithin k := by
  intro path hhead hchain
  obtain ⟨tail, rfl⟩ := List.head?_eq_some_iff.1 hhead
  have htail : tail.countP (fun m => m.kind == .call) ≤ j := by
    cases tail with
    | nil => simp
    | cons c tail =>
      obtain ⟨hc, hrest⟩ := List.isChain_cons_cons.1 hchain
      exact hfields c hc _ rfl hrest
  rw [List.countP_cons]
  split at hk <;> rename_i hcall <;> simp only [hcall] <;> simp <;> omega

/-! ## Trees of code -/

/-- All nodes of a tree are shaped, and their paths hold at most `k` calls. -/
def Node.Grown (limit : Int) (k : Nat) (n : Node) : Prop :=
  ∀ m ∈ n.preorder, m.Shaped limit ∧ m.CallsWithin k

/-- A tree has its shape from its children. -/
theorem Node.grown_of_children {limit : Int} {j k : Nat} {n : Node} (hn : n.kind ≠ .document)
    (hchildren : ∀ c ∈ n.children, c.kind ∈ n.kind.held ∧ c.Grown limit j)
    (hown : n.OwnShape limit) (hk : (if n.kind == .call then j + 1 else j) ≤ k) :
    n.Grown limit k := by
  have hjk : j ≤ k := by split at hk <;> omega
  intro m hm
  rw [Node.preorder_eq] at hm
  rcases List.mem_cons.1 hm with rfl | hm
  · refine ⟨⟨?_, hown⟩, Node.callsWithin_of_fields ?_ hk⟩
    · rw [Node.fieldNodes_eq_children hn]
      exact fun c hc => (hchildren c hc).1
    · rw [Node.fieldNodes_eq_children hn]
      exact fun c hc => ((hchildren c hc).2 c c.self_mem_preorder).2
  · obtain ⟨c, hc, hpre⟩ := List.mem_flatMap.1 hm
    obtain ⟨hshaped, hcalls⟩ := (hchildren c hc).2 m hpre
    exact ⟨hshaped, hcalls.mono hjk⟩

/-- A node without children has the shape of its own fields. -/
theorem Node.grown_of_leaf {limit : Int} {k : Nat} {n : Node} (hn : n.kind ≠ .document)
    (hchildren : n.children = []) (hown : n.OwnShape limit)
    (hk : (if n.kind == .call then 1 else 0) ≤ k) : n.Grown limit k :=
  grown_of_children (j := 0) hn (by simp [hchildren]) hown hk

/-- **Expressions have their shape**: inside `k` levels of calls, paths hold at most one more. -/
theorem Value.grown {limit : Int} (k : Nat) {ts : List Token} {n : Node}
    (h : Value limit (Arguments limit k) ts n) :
    n.kind ∈ valueKinds ∧ n.Grown limit (k + 1) := by
  refine Value.induction (motive := fun k _ n => n.kind ∈ valueKinds ∧ n.Grown limit (k + 1))
    ?_ ?_ ?_ ?_ k h
  · intro k t ts i _
    exact ⟨(by decide : NodeKind.identifier ∈ valueKinds),
      Node.grown_of_leaf (by simp [Node.kind]) rfl trivial (Nat.zero_le _)⟩
  · intro t ts callee _
    exact ⟨(by decide : NodeKind.call ∈ valueKinds),
      Node.grown_of_leaf (by simp [Node.kind]) rfl trivial (Nat.le_refl 1)⟩
  · intro k t before inner after callee arguments _ along
    refine ⟨(by decide : NodeKind.call ∈ valueKinds), Node.grown_of_children (by simp [Node.kind])
      (fun c hc => ?_) trivial (Nat.le_refl (k + 1 + 1))⟩
    obtain ⟨_, -, hform⟩ := along.exists_piece c hc
    exact hform
  · intro k t ts operands operators along hne hseveral hshort
    refine ⟨(by decide : NodeKind.expression ∈ valueKinds), Node.grown_of_children
      (by simp [Node.kind]) (fun c hc => ?_) ⟨hne, hseveral, ?_⟩ (Nat.le_refl (k + 1))⟩
    · obtain ⟨_, -, hform, -, hgrown⟩ := along.exists_piece c hc
      refine ⟨?_, hgrown⟩
      cases hform with
      | name => exact List.mem_cons_self
      | call => exact List.mem_cons_of_mem _ List.mem_cons_self
    · have := List.length_pos_iff.2 hne
      omega

section Statements

variable {limit : Int} {ts : List Token} {n : Node}

theorem Chain.grown (h : Chain limit ts n) :
    n.kind ∈ .assignment :: valueKinds ∧ n.Grown limit (maxCallDepth + 1) := by
  induction h with
  | value form =>
    obtain ⟨hkind, hgrown⟩ := Value.grown maxCallDepth form
    exact ⟨List.mem_cons_of_mem _ hkind, hgrown⟩
  | last _ assigns =>
    refine ⟨List.mem_cons_self, Node.grown_of_leaf (by simp [Node.kind]) rfl ?_ (Nat.zero_le _)⟩
    exact List.contains_iff_mem.1 assigns
  | link _ assigns _ ih =>
    refine ⟨List.mem_cons_self, Node.grown_of_children (by simp [Node.kind]) (fun c hc => ?_) ?_
      (Nat.le_refl (maxCallDepth + 1))⟩
    · obtain rfl := List.mem_singleton.1 hc
      exact ih
    · exact List.contains_iff_mem.1 assigns

theorem Along.grown {ns : List Node} (h : Along (OuterValue limit) ts ns) :
    ∀ c ∈ ns, c.kind ∈ valueKinds ∧ c.Grown limit (maxCallDepth + 1) := by
  intro c hc
  obtain ⟨_, -, form⟩ := h.exists_piece c hc
  exact Value.grown maxCallDepth form

theorem Simple.grown (h : Simple limit ts n) :
    n.kind ∈ simpleKinds ∧ n.Grown limit (maxCallDepth + 1) := by
  cases h with
  | varDecl along =>
    exact ⟨List.mem_cons_self, Node.grown_of_children (by simp [Node.kind]) along.grown trivial
      (Nat.le_refl (maxCallDepth + 1))⟩
  | constDecl along =>
    exact ⟨(by decide : NodeKind.constDecl ∈ simpleKinds),
      Node.grown_of_children (by simp [Node.kind]) along.grown trivial
        (Nat.le_refl (maxCallDepth + 1))⟩
  | chain form =>
    obtain ⟨hkind, hgrown⟩ := form.grown
    exact ⟨List.mem_cons_of_mem _ (List.mem_cons_of_mem _ hkind), hgrown⟩

theorem Statement.grown (h : Statement limit ts n) :
    n.kind ∈ NodeKind.script.held ∧ n.Grown limit (maxCallDepth + 1) := by
  cases h with
  | simple form =>
    obtain ⟨hkind, hgrown⟩ := form.grown
    exact ⟨List.mem_cons_of_mem _ hkind, hgrown⟩
  | function _ along =>
    refine ⟨List.mem_cons_self, Node.grown_of_children (by simp [Node.kind]) (fun c hc => ?_)
      trivial (Nat.le_refl (maxCallDepth + 1))⟩
    obtain ⟨_, -, form⟩ := along.exists_piece c hc
    exact form.grown

end Statements

theorem scriptNode_grown (config : Config) (opening : Token) (inside : List Token) :
    (scriptNode config opening inside).Grown config.maxExpressionTokens (maxCallDepth + 1) := by
  refine Node.grown_of_children (by simp [scriptNode, Node.kind]) (fun c hc => ?_) trivial
    (Nat.le_refl (maxCallDepth + 1))
  obtain ⟨_, -, form⟩ := (harvestOf_yields config inside).1.exists_piece c hc
  exact form.grown

/-! ## Documents -/

/-- A document of the shape that all documents have which are read. -/
structure Document.Shaped (limit : Int) (d : Document) : Prop where
  /-- Functions are statements of scripts. -/
  functions : ∀ n ∈ d.nodes, ∀ c ∈ n.fieldNodes, c.kind = .function → n.kind = .script
  /-- Declarations are statements of scripts and functions. -/
  declarations : ∀ n ∈ d.nodes, ∀ c ∈ n.fieldNodes, c.kind = .varDecl ∨ c.kind = .constDecl →
    n.kind = .script ∨ n.kind = .function
  /-- Assignments are statements or values of assignments. -/
  assignments : ∀ n ∈ d.nodes, ∀ c ∈ n.fieldNodes, c.kind = .assignment →
    n.kind = .script ∨ n.kind = .function ∨ n.kind = .assignment
  operators : ∀ site target operator value, .assignment site target operator value ∈ d.nodes →
    operator ∈ assignmentOperators
  /-- Expressions are flat, and neither a single operand nor too long. -/
  expressions : ∀ site operands operators, .expression site operands operators ∈ d.nodes →
    (∀ n ∈ operands, n.kind = .identifier ∨ n.kind = .call) ∧ operands ≠ [] ∧
      (operators ≠ [] ∨ 2 ≤ operands.length) ∧
      (operands.length + operators.length : Int) ≤ limit
  /-- Initializers and arguments are values. -/
  values : ∀ n ∈ d.nodes, n.kind = .varDecl ∨ n.kind = .constDecl ∨ n.kind = .call →
    ∀ c ∈ n.fieldNodes, c.kind ∈ valueKinds
  /-- What is assigned is a value at the end of a chain. -/
  finals : ∀ n ∈ d.nodes, n.kind = .assignment →
    ∀ c ∈ n.fieldNodes, c.kind ≠ .assignment → c.kind ∈ valueKinds
  calls : d.toNode.CallsWithin (maxCallDepth + 1)
  closing : ∀ site name attributes children selfClosing closing,
    .tag site name attributes children selfClosing closing ∈ d.nodes → closing = false

/-- **The shape of a document is that of its nodes.** -/
theorem Document.shaped_of_nodes {limit : Int} {d : Document}
    (h : ∀ n ∈ d.nodes, n.Shaped limit) (hcalls : d.toNode.CallsWithin (maxCallDepth + 1)) :
    d.Shaped limit where
  functions := by
    intro n hn c hc hkind
    have hheld := (h n hn).held c hc
    rw [hkind] at hheld
    revert hheld
    cases n.kind <;> decide
  declarations := by
    rintro n hn c hc (hkind | hkind) <;>
    · have hheld := (h n hn).held c hc
      rw [hkind] at hheld
      revert hheld
      cases n.kind <;> decide
  assignments := by
    intro n hn c hc hkind
    have hheld := (h n hn).held c hc
    rw [hkind] at hheld
    revert hheld
    cases n.kind <;> decide
  operators := fun site target operator value hn => (h _ hn).own
  expressions := by
    intro site operands operators hn
    refine ⟨fun c hc => ?_, (h _ hn).own⟩
    simpa [Node.kind, NodeKind.held] using (h _ hn).held c hc
  values := by
    rintro n hn (hkind | hkind | hkind) c hc <;>
    · have hheld := (h n hn).held c hc
      rwa [hkind] at hheld
  finals := by
    intro n hn hkind c hc hne
    have hheld := (h n hn).held c hc
    rw [hkind] at hheld
    exact (List.mem_cons.1 hheld).resolve_left hne
  calls := hcalls
  closing := fun site name attributes children selfClosing closing hn => (h _ hn).own

/-- The tags at the top level of a page, with all that stands under them, have their shape. -/
theorem Page.Shows.grown {config : Config} {ts : List Token} {file : Option String} {page : Page}
    (h : page.Shows file (progressOf config ts)) : ∀ n ∈ page.document.children,
      n.kind = .tag ∧ n.Grown config.maxExpressionTokens (maxCallDepth + 1) := by
  have hall : ∀ n ∈ page.document.children, n.kind ∈ NodeKind.tag.held ∧
      n.Grown config.maxExpressionTokens (maxCallDepth + 1) := by
    refine h.induction (fun c _ n hn => ?_) fun c _ o _ ns hns => ?_
    · cases hn with
      | text =>
        exact ⟨(by decide : NodeKind.text ∈ NodeKind.tag.held),
          Node.grown_of_leaf (by simp [Node.kind]) rfl trivial (Nat.zero_le _)⟩
      | script opening inside =>
        exact ⟨(by decide : NodeKind.script ∈ NodeKind.tag.held),
          scriptNode_grown config opening inside⟩
    · exact ⟨List.mem_cons_self, Node.grown_of_children (by simp [Opening.toTag, Node.kind]) hns rfl
        (Nat.le_refl (maxCallDepth + 1))⟩
  intro n hn
  refine ⟨?_, (hall n hn).2⟩
  rw [h.children] at hn
  obtain ⟨f, -, rfl⟩ := List.mem_map.1 hn
  rfl

theorem Progress.doctypeNode_grown (limit : Int) (t : Token) :
    (doctypeNode t).Grown limit (maxCallDepth + 1) :=
  Node.grown_of_leaf (by simp [doctypeNode, Node.kind]) rfl rfl (Nat.zero_le _)

/-- In the fields of a document stand the tags at the top level, the doctype and the root. -/
theorem Page.Shows.fields_grown {config : Config} {ts : List Token} {file : Option String}
    {page : Page} (h : page.Shows file (progressOf config ts)) :
    ∀ n ∈ page.document.toNode.fieldNodes,
      n.kind = .tag ∧ n.Grown config.maxExpressionTokens (maxCallDepth + 1) := by
  intro n hn
  rcases List.mem_append.1 hn with hn | hn
  · exact h.grown n hn
  rcases List.mem_append.1 hn with hn | hn
  · obtain ⟨t, -, -, rfl⟩ := h.doctype_from n (Option.mem_toList.1 hn)
    exact ⟨rfl, Progress.doctypeNode_grown _ t⟩
  · obtain ⟨htag, hmem⟩ := h.root_mem n (Option.mem_toList.1 hn)
    obtain ⟨c, hc, hpre⟩ := List.mem_flatMap.1 hmem
    exact ⟨by simpa [Node.isTag] using htag,
      fun m hm => (h.grown c hc).2 m (Node.preorder_trans hpre hm)⟩

/-- **The document of a page has its shape.** -/
theorem Page.Shows.shaped {config : Config} {ts : List Token} {file : Option String} {page : Page}
    (h : page.Shows file (progressOf config ts)) :
    page.document.Shaped config.maxExpressionTokens := by
  refine Document.shaped_of_nodes (h.forall_nodes ?_ ?_ ?_) ?_
  · refine ⟨fun c hc => ?_, trivial⟩
    rw [(h.fields_grown c hc).1]
    exact List.mem_singleton.2 rfl
  · exact fun n hn m hm => ((h.grown n hn).2 m hm).1
  · exact fun t _ _ => (Progress.doctypeNode_grown _ t _ (Node.self_mem_preorder _)).1
  · exact Node.callsWithin_of_fields
      (fun c hc => ((h.fields_grown c hc).2 c c.self_mem_preorder).2) (Nat.le_refl _)

theorem Progress.readFrom?_region_eq_none {config : Config} {p q : Progress} {ts : List Token}
    (h : p.readFrom? config ts = some q) : q.region = none := by
  have hfinish : ∀ p : Progress, p.finish.region = none := by
    intro p
    cases hregion : p.region with
    | none => rw [Progress.finish, hregion]; exact hregion
    | some region => rw [Progress.finish, hregion]; exact closeScript_region p region
  fun_induction Progress.readFrom? config p ts with
  | case1 p => exact Option.some.inj h ▸ hfinish p
  | case2 p => exact Option.some.inj h ▸ hfinish p
  | case3 p t ts _ _ ih => exact ih h
  | case4 p t ts _ region _ _ ih => exact ih h
  | case5 => simp at h
  | case6 p t ts _ region _ _ found _ _ ih => exact ih h
  | case7 p t ts _ region _ _ found _ _ ih => exact ih h

/-- **The shape of what is read**: every list of tokens becomes a page whose document has the shape
of documents. When reading ends no script is open; read with a desk, the page is the same, no list
of statements is left and no call is counted. -/
theorem readTokens?_shaped {config : Config} (hlimit : 1 ≤ config.maxExpressionTokens)
    (ts : List Token) (file : Option String) : ∃ last page,
      ({} : Progress).readFrom? config ts = some last ∧ last.page? file = some page ∧
      page.document.Shaped config.maxExpressionTokens ∧ last.region = none ∧
      ∀ room, maxCallDepth < room →
        (Kept.readFrom? config room {} ts).run {} =
          (some last, { sinks := [], callDepth := 0 }) := by
  obtain ⟨last, hlast⟩ := Progress.readFrom?_isSome hlimit {} ts
  obtain ⟨page, hpage, hshows⟩ := readTokens?_shows hlimit ts file
  rw [readTokens?, hlast, Option.bind_some] at hpage
  refine ⟨last, page, hlast, hpage, hshows.shaped, ?_, fun room hroom => ?_⟩
  · exact Progress.readFrom?_region_eq_none hlast
  · exact Kept.readFrom?_keeps hroom hlast

/-- An assignment of a call to two names, in a function, with a call as its argument. -/
def nestedCall : List Token :=
  [.bare .tagOpen "<body>", .bare .scriptOpen "<script>", .bare .keyword "function",
    .bare .identifier "f", .bare .leftBrace "\x7b", .bare .identifier "a", .bare .operator "=",
    .bare .identifier "b", .bare .operator "+=", .bare .identifier "g", .bare .leftParen "(",
    .bare .identifier "h", .bare .leftParen "(", .bare .number "1", .bare .operator "+",
    .bare .number "2", .bare .rightParen ")", .bare .rightParen ")", .bare .rightBrace "\x7d"]

theorem nestedCall_shaped : 1 ≤ ({} : Config).maxExpressionTokens ∧ ∃ last page,
    ({} : Progress).readFrom? {} nestedCall = some last ∧ last.page? none = some page ∧
      page.document.Shaped 1000 ∧ last.region = none ∧
      ∀ room, maxCallDepth < room →
        (Kept.readFrom? {} room {} nestedCall).run {} =
          (some last, { sinks := [], callDepth := 0 }) :=
  ⟨by decide, readTokens?_shaped (by decide) nestedCall none⟩

end PageLint
