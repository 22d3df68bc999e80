import Mathlib.Data.List.Pairwise
import PageLint.Proofs.Dumps.Tables
import PageLint.Proofs.Grammar.Sites
import PageLint.Proofs.Shape

/-!
# Pages as objects

Every page that is read can be converted. What its nodes share is the first `html` tag, which a
document holds in a field of its own and among its tags as well; tags are numbered, and nothing else
carries a label.

* `Node.held_eq_append` — what a node holds belongs to it or is in its contents
* `Node.Grown.mem_preorder_or` — what a tree holds stands in it or carries no label
* `Page.Shows.consistent` — a label names one node of a page
* `readTokens?_dumps` — every list of tokens becomes a page that is converted
-/

namespace PageLint

/-- The nodes that belong to a node itself: attributes, a target, parameters or a callee. -/
def Node.own : Node → List Node
  | tag _ _ attributes _ _ _ => attributes.map attr
  | varDecl _ _ target _ | constDecl _ target _ | assignment _ target _ _ => [identifier target]
  | function _ _ parameters _ => parameters.map identifier
  | call _ callee _ => [identifier callee]
  | _ => []

/-- **What a node holds** belongs to it or is in its contents. -/
theorem Node.held_eq_append (n : Node) : n.held = n.own ++ n.fieldNodes := by
  cases n <;> simp [held, fields, Field.held, own, fieldNodes]

/-- What belongs to a node has one of its sites, and holds nothing. -/
theorem Node.site_of_mem_own {n c : Node} (h : c ∈ n.own) :
    c.site ∈ n.sites.tail ∧ c.held = [] := by
  cases n with
  | tag =>
    obtain ⟨a, ha, rfl⟩ := List.mem_map.1 h
    exact ⟨List.mem_map_of_mem ha, rfl⟩
  | function =>
    obtain ⟨i, hi, rfl⟩ := List.mem_map.1 h
    exact ⟨List.mem_map_of_mem hi, rfl⟩
  | varDecl | constDecl | assignment | call =>
    rw [List.mem_singleton.1 h]
    exact ⟨List.mem_cons_self, rfl⟩
  | _ => cases h

/-- The attributes, targets, parameters and callees in a tree carry no label. -/
def Node.OwnsUnlabelled (n : Node) : Prop := ∀ m ∈ n.preorder, ∀ s ∈ m.sites.tail, s.label = none

/-- **What a tree holds** stands in it or carries no label. -/
theorem Node.Grown.mem_preorder_or {limit : Int} {k : Nat} {n m : Node} (h : n.Grown limit k)
    (hkind : n.kind ≠ .document) (howns : n.OwnsUnlabelled) (hm : n.Holds m) :
    m ∈ n.preorder ∨ m.label = none := by
  -- What belongs to a node holds nothing more, and no document stands in a tree.
  have hcases : m ∈ n.preorder ∧ m.kind ≠ .document ∨ m.label = none ∧ m.held = [] := by
    induction hm with
    | refl => exact Or.inl ⟨n.self_mem_preorder, hkind⟩
    | @tail m c _ hc ih =>
      rcases ih with ⟨hm, hkind⟩ | ⟨-, hnil⟩
      · rw [held_eq_append, List.mem_append] at hc
        rcases hc with hc | hc
        · obtain ⟨hsite, hnil⟩ := site_of_mem_own hc
          exact Or.inr ⟨howns m hm c.site hsite, hnil⟩
        · refine Or.inl ⟨?_, fun hdocument => ?_⟩
          · rw [fieldNodes_eq_children hkind] at hc
            exact preorder_trans hm (mem_preorder_of_mem_children hc)
          · have hheld := (h m hm).1.held c hc
            rw [hdocument] at hheld
            revert hheld
            cases m.kind <;> decide
      · rw [hnil] at hc
        cases hc
  exact hcases.imp And.left And.left

/-- Where no two nodes carry one label, a label names one node. -/
theorem Node.Distinct.eq_of_label {n a b : Node} (h : n.Distinct) (ha : a ∈ n.preorder)
    (hb : b ∈ n.preorder) {k : Nat} (hka : a.label = some k) (hkb : b.label = some k) : a = b := by
  by_contra hne
  have hpairs := List.pairwise_filterMap.1 h
  have hsymm : Std.Symm fun a b : Node =>
      ∀ k, a.label = some k → ∀ l, b.label = some l → k ≠ l :=
    ⟨fun a b hab l hl k hk heq => hab k hk l hl heq.symm⟩
  exact hpairs.forall ha hb hne k hka k hkb rfl

/-! ## Pages -/

section Pages

variable {config : Config} {ts : List Token} {file : Option String} {page : Page}

/-- In the trees of a page what belongs to a node carries no label. -/
theorem Page.Shows.ownsUnlabelled (h : page.Shows file (progressOf config ts)) :
    ∀ n ∈ page.document.children, n.OwnsUnlabelled := by
  refine h.induction (fun c _ n hn => ?_) fun c _ o ho ns hns => ?_
  · cases hn with
    | text => exact Node.forall_preorder (by simp [Node.sites]) (by simp [Node.children])
    | script opening inside =>
      intro m hm s hs
      obtain ⟨t, -, rfl⟩ :=
        (scriptNode_placed config opening inside).sites m hm s (List.mem_of_mem_tail hs)
      rfl
  · refine Node.forall_preorder (fun s hs => ?_) hns
    cases ho
    obtain ⟨a, ha, rfl⟩ := List.mem_map.1 hs
    obtain ⟨x, -, rfl⟩ := List.mem_map.1 ha
    rfl

/-- What carries a label and stands in a tree in the fields of a document stands among its tags:
the doctype carries none, and the root is one of the tags. -/
theorem Page.Shows.mem_preorder_of_fields (h : page.Shows file (progressOf config ts)) {c a : Node}
    (hc : c ∈ page.document.toNode.fieldNodes) (ha : c.Holds a) {k : Nat}
    (hk : a.label = some k) : a ∈ page.document.toNode.preorder := by
  have hstands (howns : c.OwnsUnlabelled) : a ∈ c.preorder := by
    obtain ⟨hkind, hgrown⟩ := h.fields_grown c hc
    exact (hgrown.mem_preorder_or (by simp [hkind]) howns ha).resolve_right (by simp [hk])
  rcases List.mem_append.1 hc with hc | hc
  · exact Node.preorder_trans (Node.mem_preorder_of_mem_children hc)
      (hstands (h.ownsUnlabelled c hc))
  rcases List.mem_append.1 hc with hc | hc
  · obtain ⟨t, -, -, rfl⟩ := h.doctype_from c (Option.mem_toList.1 hc)
    have hpreorder : (Progress.doctypeNode t).preorder = [Progress.doctypeNode t] := by
      rw [Node.preorder_eq]
      rfl
    have hself : a = Progress.doctypeNode t := by
      refine List.mem_singleton.1 (hpreorder ▸ hstands fun m hm s hs => ?_)
      rw [hpreorder, List.mem_singleton] at hm
      simp [hm, Progress.doctypeNode, Node.sites] at hs
    rw [hself] at hk
    cases hk
  · obtain ⟨-, hmem⟩ := h.root_mem c (Option.mem_toList.1 hc)
    obtain ⟨b, hb, hpre⟩ := List.mem_flatMap.1 hmem
    have howns : c.OwnsUnlabelled := fun m hm =>
      h.ownsUnlabelled b hb m (Node.preorder_trans hpre hm)
    exact Node.preorder_trans (Node.mem_preorder_of_mem_children hb)
      (Node.preorder_trans hpre (hstands howns))

/-- **A label names one node of a page**, of those in the fields of its document too. -/
theorem Page.Shows.consistent (h : page.Shows file (progressOf config ts)) :
    page.document.toNode.Consistent := by
  have hmem : ∀ a, page.document.toNode.Holds a → ∀ k, a.label = some k →
      a ∈ page.document.toNode.preorder := by
    intro a ha k hk
    rcases ha.cases_head with rfl | ⟨c, hc, ha⟩
    · exact Node.self_mem_preorder _
    · rw [Node.held_eq_append] at hc
      exact h.mem_preorder_of_fields hc ha hk
  intro a ha b hb k hka hkb
  exact h.distinct.eq_of_label (hmem a ha k hka) (hmem b hb k hkb) hka hkb

end Pages

/-- **Every page that is read is converted**: a list of tokens becomes a page whose document becomes
the object that the recursion gives. -/
theorem readTokens?_dumps {config : Config} (hlimit : 1 ≤ config.maxExpressionTokens)
    (ts : List Token) (file : Option String) : ∃ page, readTokens? config ts file = some page ∧
      page.document.toNode.dump? = some page.document.toNode.toJson := by
  obtain ⟨page, hpage, hshows⟩ := readTokens?_shows hlimit ts file
  exact ⟨page, hpage, Node.dump?_eq hshows.consistent⟩

end PageLint
