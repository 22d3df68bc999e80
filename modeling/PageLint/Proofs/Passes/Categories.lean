import PageLint.Proofs.Passes.Collecting

/-!
# Categories of findings

All that a pass finds is of one category, and the descriptions start with letters of the pass. A
finding of a category that only one pass has was found by that pass, and so was one whose
description starts with a letter that only one pass has.

* `Pass.category`, `Pass.letters` — the category of what a pass finds and how descriptions start
* `Pass.marked_of_mem_run` — every finding of a pass is of its category and starts like that
* `filter_findingsOf` — the findings of a category are those of its passes
-/

namespace PageLint

/-- A finding of a category whose description starts with one of some letters. -/
structure Finding.Marked (category : Category) (letters : List Char) (f : Finding) : Prop where
  category : f.category = category
  initial : ∃ c ∈ letters, f.description.toList.head? = some c

namespace Rule

theorem initial_append {start : String} {c : Char} (h : start.toList.head? = some c)
    (rest : String) : (start ++ rest).toList.head? = some c := by
  rw [String.toList_append, List.head?_append, h, Option.some_or]

section Marks

variable {category : Category} {c : Char} {start : String} (h : start.toList.head? = some c)
  (line : Int)

include h

theorem marked : Finding.Marked category [c] { line, description := start, category } :=
  ⟨rfl, c, List.mem_singleton_self c, h⟩

theorem marked_append (rest : String) :
    Finding.Marked category [c] { line, description := start ++ rest, category } :=
  marked (initial_append h rest) line

end Marks

theorem marked_nameFindings (name : String) (line : Int) :
    ∀ f ∈ nameFindings name line, f.Marked .identifier ['I'] := by
  have hshown : ("Identifier '" ++ name ++ "'").toList.head? = some 'I' :=
    initial_append (initial_append rfl name) "'"
  unfold nameFindings
  split
  · exact List.forall_mem_singleton.2 (marked rfl line)
  · simp only [List.forall_mem_append]
    refine ⟨⟨⟨⟨?_, ?_⟩, ?_⟩, ?_⟩, ?_⟩ <;> split
    · exact List.forall_mem_nil _
    · exact List.forall_mem_singleton.2 (marked_append hshown line _)
    · exact List.forall_mem_singleton.2
        (marked_append (initial_append (initial_append hshown _) _) line _)
    · exact List.forall_mem_nil _
    · exact List.forall_mem_singleton.2 (marked_append hshown line _)
    · exact List.forall_mem_nil _
    · exact List.forall_mem_singleton.2
        (marked_append (initial_append (initial_append hshown _) _) line _)
    · exact List.forall_mem_nil _
    · exact List.forall_mem_singleton.2 (marked_append hshown line _)
    · exact List.forall_mem_nil _

theorem marked_identifierRule (n : Node) :
    ∀ f ∈ identifierRule n, f.Marked .identifier ['I'] := by
  unfold identifierRule
  split
  · exact marked_nameFindings _ _
  · exact marked_nameFindings _ _
  · rw [List.forall_mem_append]
    refine ⟨marked_nameFindings _ _, fun f hf => ?_⟩
    obtain ⟨p, -, hp⟩ := List.mem_flatMap.1 hf
    exact marked_nameFindings _ _ f hp
  · exact List.forall_mem_nil _

theorem marked_scopeFindings (afterVariable : Bool) (statements : List Node) :
    ∀ f ∈ scopeFindings afterVariable statements, f.Marked .constant ['C'] := by
  fun_induction scopeFindings afterVariable statements with
  | case1 => exact List.forall_mem_nil _
  | case2 _ _ _ _ _ _ ih => exact ih
  | case3 afterVariable _ target initializer _ ih =>
    rw [List.forall_mem_append]
    refine ⟨?_, ih⟩
    have hshown : ("Constant name '" ++ target.name).toList.head? = some 'C' :=
      initial_append rfl target.name
    unfold constantFindings
    simp only [List.forall_mem_append]
    refine ⟨⟨⟨?_, ?_⟩, ?_⟩, ?_⟩ <;> split
    · exact List.forall_mem_nil _
    · exact List.forall_mem_singleton.2 (marked_append hshown _ _)
    · exact List.forall_mem_singleton.2 (marked_append hshown _ _)
    · exact List.forall_mem_nil _
    · exact List.forall_mem_singleton.2 (marked rfl _)
    · exact List.forall_mem_nil _
    · exact List.forall_mem_singleton.2 (marked rfl _)
    · exact List.forall_mem_nil _
  | case4 _ _ _ _ _ ih => exact ih

theorem marked_constantRule (n : Node) : ∀ f ∈ constantRule n, f.Marked .constant ['C'] := by
  unfold constantRule
  split
  · exact marked_scopeFindings _ _
  · exact marked_scopeFindings _ _
  · exact List.forall_mem_nil _

theorem marked_operatorFindings (n : Node) :
    ∀ f ∈ operatorFindings n, f.Marked .assignment ['I'] := by
  unfold operatorFindings
  split
  · split
    · exact List.forall_mem_nil _
    · exact List.forall_mem_singleton.2 (marked_append rfl _ _)
  · exact List.forall_mem_nil _

theorem marked_assignmentsFrom (chained : List Nat) (vs : List Visit) :
    ∀ f ∈ (assignmentsFrom chained vs).1, f.Marked .assignment ['I'] := by
  fun_induction assignmentsFrom chained vs with
  | case1 => exact List.forall_mem_nil _
  | case2 _ _ _ _ _ ih => exact ih
  | case3 _ v vs _ _ _ findings events hrest ih =>
    rw [hrest] at ih
    rw [List.forall_mem_append]
    exact ⟨marked_operatorFindings _, ih⟩
  | case4 _ v vs links _ _ findings events hrest ih =>
    rw [hrest] at ih
    rw [List.forall_mem_append]
    refine ⟨fun f hf => ?_, ih⟩
    obtain ⟨n, -, hn⟩ := List.mem_flatMap.1 hf
    exact marked_operatorFindings n f hn

theorem marked_functionNameFindings {what : String} (h : what.toList.head? = some 'F')
    (name : String) (line : Int) :
    ∀ f ∈ functionNameFindings what name line, f.Marked .function ['F'] := by
  have hshown : (what ++ " '" ++ name ++ "'").toList.head? = some 'F' :=
    initial_append (initial_append (initial_append h " '") name) "'"
  unfold functionNameFindings
  simp only [List.forall_mem_append]
  constructor <;> split
  · exact List.forall_mem_nil _
  · exact List.forall_mem_singleton.2 (marked_append hshown line _)
  · exact List.forall_mem_singleton.2 (marked_append hshown line _)
  · exact List.forall_mem_nil _

theorem marked_functionRule (n : Node) : ∀ f ∈ functionRule n, f.Marked .function ['F'] := by
  unfold functionRule
  split
  · simp only
    split
    · exact List.forall_mem_singleton.2 (marked rfl _)
    · simp only [List.forall_mem_append]
      refine ⟨⟨marked_functionNameFindings rfl _ _, fun f hf => ?_⟩, ?_⟩
      · obtain ⟨p, -, hp⟩ := List.mem_flatMap.1 hf
        exact marked_functionNameFindings rfl _ _ f hp
      · split
        · exact List.forall_mem_singleton.2 (marked rfl _)
        · exact List.forall_mem_nil _
  · exact List.forall_mem_nil _

theorem marked_dataInputRule (ids : List String) (n : Node) :
    ∀ f ∈ dataInputRule ids n, f.Marked .dataInput ['g'] := by
  unfold dataInputRule
  split
  · split
    · simp only
      split
      · exact List.forall_mem_nil _
      · exact List.forall_mem_singleton.2 (marked_append (initial_append rfl _) _ _)
    · exact List.forall_mem_nil _
  · exact List.forall_mem_nil _

theorem marked_dataOutputRule (ids : List String) (n : Node) :
    ∀ f ∈ dataOutputRule ids n, f.Marked .dataOutput ['i'] := by
  unfold dataOutputRule
  split
  · split
    · split
      · exact List.forall_mem_nil _
      · simp only
        split
        · exact List.forall_mem_nil _
        · exact List.forall_mem_singleton.2 (marked_append (initial_append rfl _) _ _)
    · exact List.forall_mem_nil _
  · exact List.forall_mem_nil _

theorem marked_doctypeFindings (config : Config) (document : Document) :
    ∀ f ∈ doctypeFindings config document, f.Marked .htmlStructure ['M', 'D'] := by
  unfold doctypeFindings
  split
  · exact List.forall_mem_singleton.2 ⟨rfl, 'M', by simp, rfl⟩
  · split
    · have hstart :
          "DOCTYPE declaration must be at the very beginning of the document".toList.head? =
            some 'D' := rfl
      exact List.forall_mem_singleton.2 ⟨rfl, 'D', by simp, hstart⟩
    · exact List.forall_mem_nil _

theorem marked_skeletonFindings (document : Document) :
    ∀ f ∈ skeletonFindings document, f.Marked .htmlStructure ['M'] := by
  unfold skeletonFindings
  split
  · exact List.forall_mem_singleton.2 (marked rfl _)
  · simp only [List.forall_mem_append]
    constructor <;> split
    · exact List.forall_mem_nil _
    · exact List.forall_mem_singleton.2 (marked rfl _)
    · exact List.forall_mem_nil _
    · exact List.forall_mem_singleton.2 (marked rfl _)

end Rule

namespace Pass

/-- The category of what a pass finds. -/
def category : Pass → Category
  | identifiers => .identifier
  | constants => .constant
  | assignments => .assignment
  | functions => .function
  | dataInput => .dataInput
  | dataOutput => .dataOutput
  | doctype | skeleton => .htmlStructure

/-- The letters with which the descriptions of a pass start. -/
def letters : Pass → List Char
  | identifiers | assignments => ['I']
  | constants => ['C']
  | functions => ['F']
  | dataInput => ['g']
  | dataOutput => ['i']
  | doctype => ['M', 'D']
  | skeleton => ['M']

section Runs

variable {config : Config} {ids : List String} {document : Document} {pass : Pass} {f : Finding}
  (h : f ∈ (pass.run config ids document).1)

include h

/-- **Every finding of a pass is of its category and starts with one of its letters.** -/
theorem marked_of_mem_run : f.Marked pass.category pass.letters := by
  have hwalk : ∀ {rule : Node → List Finding} {category : Category} {letters : List Char},
      (∀ n, ∀ f ∈ rule n, f.Marked category letters) →
      f ∈ document.toNode.walk.flatMap rule → f.Marked category letters := by
    intro rule category letters hrule hf
    obtain ⟨n, -, hn⟩ := List.mem_flatMap.1 hf
    exact hrule n f hn
  cases pass with
  | identifiers => exact hwalk Rule.marked_identifierRule h
  | constants => exact hwalk Rule.marked_constantRule h
  | assignments => exact Rule.marked_assignmentsFrom _ _ f h
  | functions => exact hwalk Rule.marked_functionRule h
  | dataInput => exact hwalk (Rule.marked_dataInputRule ids) h
  | dataOutput => exact hwalk (Rule.marked_dataOutputRule ids) h
  | doctype => exact Rule.marked_doctypeFindings config document f h
  | skeleton => exact Rule.marked_skeletonFindings document f h

theorem category_of_mem_run : f.category = pass.category := (marked_of_mem_run h).category

end Runs

end Pass

/-- A finding was found by a pass of its category. -/
theorem exists_pass_of_mem_findingsOf {config : Config} {ids : List String} {document : Document}
    {passes : List Pass} {f : Finding} (h : f ∈ findingsOf config ids document passes) :
    ∃ pass ∈ passes, pass.category = f.category ∧ f ∈ (pass.run config ids document).1 := by
  obtain ⟨pass, hpass, hf⟩ := List.mem_flatMap.1 h
  exact ⟨pass, hpass, (Pass.category_of_mem_run hf).symm, hf⟩

/-- **The findings of a category are those of its passes.** -/
theorem filter_findingsOf (config : Config) (ids : List String) (document : Document)
    (passes : List Pass) (category : Category) :
    (findingsOf config ids document passes).filter (fun f => f.category == category) =
      findingsOf config ids document (passes.filter fun pass => pass.category == category) := by
  induction passes with
  | nil => rfl
  | cons pass passes ih =>
    rw [findingsOf, List.flatMap_cons, List.filter_append, ← findingsOf, ih, List.filter_cons]
    by_cases hpass : pass.category = category
    · rw [if_pos (by simpa using hpass), findingsOf, findingsOf, List.flatMap_cons]
      congr 1
      refine List.filter_eq_self.2 fun f hf => ?_
      simp [Pass.category_of_mem_run hf, hpass]
    · rw [if_neg (by simpa using hpass)]
      have hnone : (pass.run config ids document).1.filter (fun f => f.category == category) =
          [] := by
        refine List.filter_eq_nil_iff.2 fun f hf => ?_
        simp [Pass.category_of_mem_run hf, hpass]
      rw [hnone, List.nil_append]

end PageLint
