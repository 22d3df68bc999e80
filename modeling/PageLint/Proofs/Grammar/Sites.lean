import PageLint.Proofs.Grammar.Pages

/-!
# Where code stands

A node of a script, and every name that belongs to it, stands where one of its tokens does. Where
the offsets of the tokens go up, those of the nodes never go down in preorder: a node stands at its
first token, and the nodes under it are made of tokens in order.

* `Node.sites` — the sites of a node and of what belongs to it
* `Along.offsets` — offsets along pieces of a list of tokens are offsets along the list
* `Node.Placed` — a tree of nodes that stand along a list of tokens
* `harvestOf_placed` — the statements of a script stand along its tokens
* `Page.Shows.distinct` — no two nodes of a document carry one label, so a walk is its preorder
-/

namespace PageLint

/-- The sites of a node and of the attributes, target, parameters or callee that belong to it. -/
def Node.sites : Node → List Site
  | .tag site _ attributes _ _ _ => site :: attributes.map Attribute.site
  | .varDecl site _ target _ | .constDecl site target _ | .assignment site target _ _ =>
    [site, target.site]
  | .function site _ parameters _ => site :: parameters.map Identifier.site
  | .call site callee _ => [site, callee.site]
  | n => [n.site]

theorem Node.site_mem_sites (n : Node) : n.site ∈ n.sites := by
  cases n <;> exact List.mem_cons_self

/-- The offset of a node. -/
def Node.offset (n : Node) : Int := n.location.offset

/-- The offsets of tokens go up. -/
def Rising (ts : List Token) : Prop := ts.Pairwise fun t u => t.offset < u.offset

theorem Rising.of_infix {ts us : List Token} (h : Rising ts) (hs : us <:+: ts) : Rising us :=
  List.Pairwise.sublist hs.sublist h

/-- Offsets that are those of tokens, and related in order where the offsets of the tokens go up. -/
structure OffsetsAlong (R : Int → Int → Prop) (ts : List Token) (xs : List Int) : Prop where
  mem : ∀ x ∈ xs, ∃ t ∈ ts, x = t.offset
  order : Rising ts → xs.Pairwise R

/-- **Offsets along pieces of a list of tokens are offsets along the list**, for a relation that
rising offsets are in. -/
theorem Along.offsets {R : Int → Int → Prop} (hR : ∀ {x y}, x < y → R x y) {f : Node → List Int}
    {ts : List Token} {ns : List Node}
    (h : Along (fun us n => OffsetsAlong R us (f n)) ts ns) :
    OffsetsAlong R ts (ns.flatMap f) := by
  induction h with
  | nil ts => exact ⟨by simp, fun _ => List.Pairwise.nil⟩
  | @cons skipped piece rest n ns head tail ih =>
    have hpiece : piece <:+: skipped ++ (piece ++ rest) := ⟨skipped, rest, by simp⟩
    have hrest : rest <:+: skipped ++ (piece ++ rest) := ⟨skipped ++ piece, [], by simp⟩
    rw [List.flatMap_cons]
    constructor
    · intro x hx
      rcases List.mem_append.1 hx with hx | hx
      · obtain ⟨t, ht, hxt⟩ := head.mem x hx
        exact ⟨t, hpiece.subset ht, hxt⟩
      · obtain ⟨t, ht, hxt⟩ := ih.mem x hx
        exact ⟨t, hrest.subset ht, hxt⟩
    · intro hrising
      rw [List.pairwise_append]
      refine ⟨head.order (hrising.of_infix hpiece), ih.order (hrising.of_infix hrest), ?_⟩
      -- The first piece stands in front of the others.
      intro x hx y hy
      obtain ⟨t, ht, rfl⟩ := head.mem x hx
      obtain ⟨u, hu, rfl⟩ := ih.mem y hy
      have hboth : Rising (piece ++ rest) := hrising.of_infix ⟨skipped, [], by simp⟩
      exact hR ((List.pairwise_append.1 hboth).2.2 t ht u hu)

/-- A tree of nodes that stand along a list of tokens. -/
structure Node.Placed (ts : List Token) (n : Node) : Prop where
  sites : ∀ m ∈ n.preorder, ∀ s ∈ m.sites, ∃ t ∈ ts, s = t.site
  offsets : OffsetsAlong (· ≤ ·) ts (n.preorder.map Node.offset)

theorem Along.sites {ts : List Token} {ns : List Node}
    (h : Along (fun us n => n.Placed us) ts ns) :
    ∀ m ∈ ns.flatMap Node.preorder, ∀ s ∈ m.sites, ∃ t ∈ ts, s = t.site := by
  intro m hm s hs
  obtain ⟨n, hn, hpre⟩ := List.mem_flatMap.1 hm
  obtain ⟨piece, hpiece, hplaced⟩ := h.exists_piece n hn
  obtain ⟨t, ht, hsite⟩ := hplaced.sites m hpre s hs
  exact ⟨t, hpiece.subset ht, hsite⟩

/-- **A tree stands along tokens** when its node stands at the first of them and the trees under it
stand along some that are among them. -/
theorem Node.placed_of_children {n : Node} {t : Token} {ts inner : List Token}
    (hsite : n.site = t.site) (hsites : ∀ s ∈ n.sites, ∃ u ∈ t :: ts, s = u.site)
    (hinner : inner <:+: t :: ts) (hchildren : Along (fun us m => m.Placed us) inner n.children) :
    n.Placed (t :: ts) := by
  have hn : n.offset = t.offset := by rw [Node.offset, Node.location, hsite]; rfl
  have hunder : OffsetsAlong (· ≤ ·) inner
      ((n.children.flatMap Node.preorder).map Node.offset) := by
    rw [List.map_flatMap]
    exact Along.offsets Int.le_of_lt (hchildren.imp fun _ _ h => h.offsets)
  refine ⟨?_, ?_, ?_⟩
  · intro m hm s hs
    rw [Node.preorder_eq] at hm
    rcases List.mem_cons.1 hm with rfl | hm
    · exact hsites s hs
    · obtain ⟨u, hu, hs⟩ := hchildren.sites m hm s hs
      exact ⟨u, hinner.subset hu, hs⟩
  · rw [Node.preorder_eq, List.map_cons]
    intro x hx
    rcases List.mem_cons.1 hx with rfl | hx
    · exact ⟨t, List.mem_cons_self, hn⟩
    · obtain ⟨u, hu, hxu⟩ := hunder.mem x hx
      exact ⟨u, hinner.subset hu, hxu⟩
  · intro hrising
    rw [Node.preorder_eq, List.map_cons, List.pairwise_cons]
    refine ⟨fun x hx => ?_, hunder.order (hrising.of_infix hinner)⟩
    obtain ⟨u, hu, rfl⟩ := hunder.mem x hx
    rcases List.mem_cons.1 (hinner.subset hu) with rfl | hu
    · exact Int.le_of_eq hn
    · have hlt := (List.pairwise_cons.1 hrising).1 u hu
      omega

/-! ## Forms of code -/

theorem Value.placed {limit : Int} (k : Nat) {ts : List Token} {n : Node}
    (h : Value limit (Arguments limit k) ts n) : n.Placed ts := by
  refine Value.induction (motive := fun _ ts n => n.Placed ts) ?_ ?_ ?_ ?_ k h
  · intro k t ts i hi
    refine Node.placed_of_children hi ?_ List.infix_rfl (.nil _)
    intro s hs
    obtain rfl := List.mem_singleton.1 hs
    exact ⟨t, List.mem_cons_self, hi⟩
  · intro t ts callee hcallee
    refine Node.placed_of_children rfl ?_ List.infix_rfl (.nil _)
    intro s hs
    refine ⟨t, List.mem_cons_self, ?_⟩
    rcases List.mem_cons.1 hs with rfl | hs
    · rfl
    · rw [List.mem_singleton.1 hs, hcallee]
  · intro k t before inner after callee arguments hcallee along
    refine Node.placed_of_children rfl ?_ ⟨t :: before, after, by simp⟩ along
    intro s hs
    refine ⟨t, List.mem_cons_self, ?_⟩
    rcases List.mem_cons.1 hs with rfl | hs
    · rfl
    · rw [List.mem_singleton.1 hs, hcallee]
  · intro k t ts operands operators along _ _ _
    refine Node.placed_of_children rfl ?_ List.infix_rfl (along.imp fun _ _ h => h.2)
    intro s hs
    exact ⟨t, List.mem_cons_self, List.mem_singleton.1 hs⟩

section Statements

variable {limit : Int} {ts : List Token} {n : Node}

theorem Chain.placed (h : Chain limit ts n) : n.Placed ts := by
  induction h with
  | value form => exact Value.placed maxCallDepth form
  | @last t ts target operator site _ =>
    refine Node.placed_of_children rfl ?_ List.infix_rfl (.nil _)
    intro s hs
    refine ⟨t, List.mem_cons_self, ?_⟩
    rcases List.mem_cons.1 hs with rfl | hs
    · rfl
    · rw [List.mem_singleton.1 hs, site]
  | @link t before inner after target operator n site _ _ ih =>
    refine Node.placed_of_children rfl ?_ ⟨t :: before, after, by simp⟩ (.singleton ih)
    intro s hs
    refine ⟨t, List.mem_cons_self, ?_⟩
    rcases List.mem_cons.1 hs with rfl | hs
    · rfl
    · rw [List.mem_singleton.1 hs, site]

/-- The sites of a declaration are those of its keyword and its name. -/
theorem sites_declaration {keyword name : Token} {ts : List Token} {s : Site}
    (hs : s ∈ [keyword.site, name.site]) : ∃ u ∈ keyword :: name :: ts, s = u.site := by
  rcases List.mem_cons.1 hs with rfl | hs
  · exact ⟨keyword, List.mem_cons_self, rfl⟩
  · exact ⟨name, List.mem_cons_of_mem _ List.mem_cons_self, List.mem_singleton.1 hs⟩

theorem Simple.placed (h : Simple limit ts n) : n.Placed ts := by
  cases h with
  | @varDecl keyword name ts initializer along =>
    exact Node.placed_of_children rfl (fun _ => sites_declaration) ⟨[keyword, name], [], by simp⟩
      (along.imp fun _ _ => Value.placed maxCallDepth)
  | @constDecl keyword name ts initializer along =>
    exact Node.placed_of_children rfl (fun _ => sites_declaration) ⟨[keyword, name], [], by simp⟩
      (along.imp fun _ _ => Value.placed maxCallDepth)
  | chain form => exact form.placed

theorem Statement.placed (h : Statement limit ts n) : n.Placed ts := by
  cases h with
  | simple form => exact form.placed
  | @function keyword name list inner parameters body named along =>
    refine Node.placed_of_children rfl ?_ ⟨keyword :: name :: list, [], by simp⟩
      (along.imp fun _ _ form => form.placed)
    intro s hs
    rcases List.mem_cons.1 hs with rfl | hs
    · exact ⟨keyword, List.mem_cons_self, rfl⟩
    · obtain ⟨i, hi, rfl⟩ := List.mem_map.1 hs
      obtain ⟨t, ht, -, rfl⟩ := named i hi
      exact ⟨t, by simp [ht], rfl⟩

end Statements

/-- **The statements of a script stand along its tokens.** -/
theorem harvestOf_placed (config : Config) (inside : List Token) :
    Along (fun us n => n.Placed us) inside (harvestOf config inside).statements :=
  (harvestOf_yields config inside).1.imp fun _ _ form => form.placed

/-- A script stands at its opening tag, and its code along its tokens. -/
theorem scriptNode_placed (config : Config) (opening : Token) (inside : List Token) :
    (scriptNode config opening inside).Placed (opening :: inside) := by
  refine Node.placed_of_children rfl ?_ (List.suffix_cons opening inside).isInfix
    (harvestOf_placed config inside)
  intro s hs
  exact ⟨opening, List.mem_cons_self, List.mem_singleton.1 hs⟩

/-! ## Labels of a document -/

theorem Node.Placed.label_eq_none {ts : List Token} {n m : Node} (h : n.Placed ts)
    (hm : m ∈ n.preorder) : m.label = none := by
  obtain ⟨t, -, hsite⟩ := h.sites m hm m.site m.site_mem_sites
  rw [Node.label, hsite]
  rfl

/-- **No two nodes of a document carry one label**: only tags carry any, and they are numbered. -/
theorem Page.Shows.distinct {config : Config} {ts : List Token} {file : Option String} {page : Page}
    (h : page.Shows file (progressOf config ts)) : page.document.toNode.Distinct := by
  have hnumbered := (numbered_progressOf config ts).serials_eq
  have hnodes : labelsOf (page.document.children.flatMap Node.preorder) =
      (progressOf config ts).forest.serials := by
    rw [labelsOf, List.filterMap_eq_flatMap_toList,
      h.nodes_flatMap_items (g := fun o => [o.serial]) fun o ns => rfl, Forest.serials,
      List.filterMap_eq_flatMap_toList]
    refine List.flatMap_congr fun i hi => ?_
    obtain ⟨c, -, hitem⟩ := from_of_mem_items hi
    cases hitem with
    | opening => rfl
    | text => rw [Item.listing, Node.preorder_eq]; rfl
    | script opening inside =>
      refine List.flatMap_eq_nil_iff.2 fun m hm => ?_
      rw [(scriptNode_placed config opening inside).label_eq_none hm]
      rfl
  have hdocument : page.document.toNode.label = none := by
    rw [Node.label]
    exact congrArg Site.label (Progress.document?_fields h.document).1
  rw [Node.Distinct, Node.preorder_eq, labelsOf, List.filterMap_cons_none hdocument, ← labelsOf]
  show (labelsOf (page.document.children.flatMap Node.preorder)).Nodup
  rw [hnodes, hnumbered]
  exact List.nodup_range

end PageLint
