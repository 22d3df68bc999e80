import PageLint.Proofs.Tables
import PageLint.Tree.Frame

/-!
# Freezing a forest

`freeze?` makes the tags of a forest with a list of tasks and a table. When no two frames of the
forest have the same number, every look-up finds the tag that the recursion of `Frame.toTag`
gives.

* `Frame.runTasks_frames` — the tasks for the frames among contents put their tags in front of the
  table, in preorder
* `freeze?_eq_some` — the tags are those of the recursion, and the table holds every frame once
-/

namespace PageLint

open PageLint.Frame

/-! ## The tags of all frames in preorder -/

mutual

/-- The tag of every element in content, by its number, in preorder. -/
def Content.entries : Content → Table
  | .element opening contents =>
    (opening.serial, opening.toTag (Content.toNodes contents)) :: Content.entriesOf contents
  | .leaf _ => []

def Content.entriesOf : List Content → Table
  | [] => []
  | c :: cs => c.entries ++ Content.entriesOf cs

end

/-- The tag of a frame and of every element in it, by its number, in preorder. -/
def Frame.entries (f : Frame) : Table := f.toContent.entries

theorem Frame.entries_eq (f : Frame) :
    f.entries = (f.opening.serial, f.toTag) :: Content.entriesOf f.contents := by
  rw [Frame.entries, Frame.toContent, Content.entries, Frame.toTag]

theorem Content.entries_mem {c : Content} {cs : List Content} (h : c ∈ cs) :
    ∀ e ∈ c.entries, e ∈ Content.entriesOf cs := by
  induction cs with
  | nil => cases h
  | cons d ds ih =>
    intro e he
    rw [Content.entriesOf, List.mem_append]
    rcases List.mem_cons.1 h with rfl | h
    · exact Or.inl he
    · exact Or.inr (ih h e he)

/-! ## Look-ups -/

theorem lookUp?_eq_toNode {front table : Table} (hnd : (front.map Prod.fst).Nodup) {c : Content}
    (h : ∀ e ∈ c.entries, e ∈ front) : lookUp? (front ++ table) c = some c.toNode := by
  cases c with
  | leaf n => rw [lookUp?, Content.toNode]
  | element o contents =>
    rw [lookUp?, Content.toNode]
    exact lookup_append_of_mem hnd (h _ (by simp [Content.entries]))

theorem mapM_eq_some_map {α β : Type} {f : α → Option β} {g : α → β} {as : List α}
    (h : ∀ a ∈ as, f a = some (g a)) : as.mapM f = some (as.map g) := by
  induction as with
  | nil => rfl
  | cons a as ih =>
    rw [List.mapM_cons, h a List.mem_cons_self, ih fun b hb => h b (List.mem_cons_of_mem a hb)]
    rfl

theorem Content.toNodes_eq_map (cs : List Content) : Content.toNodes cs = cs.map Content.toNode := by
  induction cs with
  | nil => rfl
  | cons c cs ih => rw [Content.toNodes, ih, List.map_cons]

/-- When the tags of all elements among contents stand in front of the table, the look-ups give
the nodes of the recursion. -/
theorem mapM_lookUp? {cs : List Content} (hnd : ((Content.entriesOf cs).map Prod.fst).Nodup)
    (table : Table) :
    cs.mapM (lookUp? (Content.entriesOf cs ++ table)) = some (Content.toNodes cs) := by
  rw [Content.toNodes_eq_map]
  exact mapM_eq_some_map fun c hc => lookUp?_eq_toNode hnd (Content.entries_mem hc)

/-! ## Tasks -/

/-- **The tasks for the frames among contents** leave their tags in front of the table. -/
theorem Frame.runTasks_frames (cs : List Content) (table : Table) (tasks : List Task)
    (hnd : ((Content.entriesOf cs).map Prod.fst).Nodup) :
    runTasks table ((Content.frames cs).reverse.map Task.expand ++ tasks)
      = runTasks (Content.entriesOf cs ++ table) tasks := by
  match cs, hnd with
  | [], _ => rfl
  | .leaf n :: cs, hnd =>
    have ih := Frame.runTasks_frames cs table tasks
    rw [Content.frames, Content.entriesOf, Content.entries, List.nil_append]
    exact ih (by simpa [Content.entriesOf, Content.entries] using hnd)
  | .element o inner :: cs, hnd =>
    simp only [Content.entriesOf, Content.entries, List.cons_append, List.map_cons,
      List.map_append] at hnd
    obtain ⟨-, hnd⟩ := List.nodup_cons.1 hnd
    obtain ⟨hinner, hcs, -⟩ := List.nodup_append.1 hnd
    -- the last frames come first, then this one: its own frames, and then itself
    rw [Content.frames, List.reverse_cons, List.map_append, List.append_assoc,
      Frame.runTasks_frames cs table _ hcs, List.map_singleton, List.singleton_append, runTasks,
      Frame.runTasks_frames inner _ _ hinner, runTasks,
      mapM_lookUp? hinner]
    simp only [Content.entriesOf, Content.entries, List.cons_append, List.append_assoc]
termination_by sizeOf cs

/-! ## Whole forests -/

/-- The contents of a page whose top level holds the frames. -/
def Frame.asContents (roots : List Frame) : List Content := roots.map Frame.toContent

theorem Content.frames_asContents (roots : List Frame) :
    Content.frames (asContents roots) = roots := by
  induction roots with
  | nil => rfl
  | cons f fs ih =>
    rw [asContents, List.map_cons, Frame.toContent, Content.frames]
    exact congrArg (f :: ·) ih

theorem Content.entriesOf_eq_flatMap (cs : List Content) :
    Content.entriesOf cs = cs.flatMap Content.entries := by
  induction cs with
  | nil => rfl
  | cons c cs ih => rw [Content.entriesOf, ih, List.flatMap_cons]

theorem Content.entriesOf_asContents (roots : List Frame) :
    Content.entriesOf (asContents roots) = roots.flatMap Frame.entries := by
  rw [Content.entriesOf_eq_flatMap, asContents, List.flatMap_map]
  rfl

theorem entries_reverse_perm (roots : List Frame) :
    (roots.reverse.flatMap Frame.entries).Perm (roots.flatMap Frame.entries) :=
  (List.reverse_perm roots).flatMap_right _

/-- The table that freezing leaves has the entries of the forest. -/
theorem built_perm (roots : List Frame) :
    ((roots.reverse.flatMap Frame.entries).reverse).Perm (roots.flatMap Frame.entries) :=
  (List.reverse_perm _).trans (entries_reverse_perm roots)

/-- **Freezing gives the tags of the recursion.** The table holds the tag of every frame, those of
later roots first. -/
theorem freeze?_eq_some {roots : List Frame}
    (hnd : ((roots.flatMap Frame.entries).map Prod.fst).Nodup) :
    freeze? roots = some
      { tags := roots.map Frame.toTag
        built := (roots.reverse.flatMap Frame.entries).reverse } := by
  have hperm := entries_reverse_perm roots
  have htable : runTasks [] (roots.map Task.expand) = some (roots.reverse.flatMap Frame.entries) := by
    have h := runTasks_frames (asContents roots.reverse) [] []
      (by rw [Content.entriesOf_asContents]; exact ((hperm.map Prod.fst).nodup_iff).2 hnd)
    rw [Content.frames_asContents, List.reverse_reverse, List.append_nil, List.append_nil,
      Content.entriesOf_asContents] at h
    rw [h, runTasks]
  have htags : roots.mapM (fun f => (roots.reverse.flatMap Frame.entries).lookup f.opening.serial)
      = some (roots.map Frame.toTag) := by
    refine mapM_eq_some_map fun f hf => lookup_of_perm hperm hnd ?_
    exact List.mem_flatMap.2 ⟨f, hf, by simp [Frame.entries_eq]⟩
  rw [freeze?, htable]
  simp [htags]

end PageLint
