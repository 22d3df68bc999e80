import PageLint.Proofs.Freeze
import PageLint.Reading.Page

/-!
# Forests under construction

What a forest holds is listed in source order: opening tags and finished nodes. The open tags are
always the rightmost path of the forest, so whatever is added comes last in the list, and closing
tags does not change the list at all.

* `Forest.items_eq` — finished elements first, then the open tags from the outermost inwards
* `Forest.frames_close?` — closing a tag leaves the finished forest as it is
* `Progress.Numbered` — the elements of a page are numbered in source order from zero; every step
  of reading keeps it
* `Progress.page?_isSome` — so the document of what has been read can always be made
-/

namespace PageLint

/-! ## Items in source order -/

/-- What a forest holds: an opening tag, or a node that is finished. -/
inductive Item where
  | opening (opening : Opening)
  | leaf (node : Node)

mutual

/-- The opening tags and finished nodes of content, in source order. -/
def Content.items : Content → List Item
  | .element opening contents => .opening opening :: Content.itemsOf contents
  | .leaf node => [.leaf node]

def Content.itemsOf : List Content → List Item
  | [] => []
  | c :: cs => c.items ++ Content.itemsOf cs

end

theorem Content.itemsOf_append (cs ds : List Content) :
    Content.itemsOf (cs ++ ds) = Content.itemsOf cs ++ Content.itemsOf ds := by
  induction cs with
  | nil => rfl
  | cons c cs ih => rw [List.cons_append, Content.itemsOf, ih, Content.itemsOf, List.append_assoc]

/-- The opening tags and finished nodes of a frame, in source order. -/
def Frame.items (f : Frame) : List Item := f.toContent.items

theorem Frame.items_add (f : Frame) (c : Content) : (f.add c).items = f.items ++ c.items := by
  simp only [Frame.items, Frame.toContent, Frame.add, Content.items, Content.itemsOf_append,
    Content.itemsOf, List.append_nil, List.cons_append]

theorem Frame.items_closeInto (f : Frame) (fs : List Frame) :
    (f.closeInto fs).items = fs.reverse.flatMap Frame.items ++ f.items := by
  induction fs generalizing f with
  | nil => rfl
  | cons outer fs ih =>
    rw [Frame.closeInto, ih, Frame.items_add, List.reverse_cons, List.flatMap_append,
      List.flatMap_singleton, List.append_assoc]
    rfl

theorem Frame.closeInto_append (f : Frame) (fs gs : List Frame) :
    f.closeInto (fs ++ gs) = (f.closeInto fs).closeInto gs := by
  induction fs generalizing f with
  | nil => rfl
  | cons outer fs ih => exact ih (outer.add f.toContent)

namespace Forest

/-- The opening tags and finished nodes of a forest, in source order. -/
def items (forest : Forest) : List Item := forest.frames.flatMap Frame.items

/-- **The open tags are the rightmost path**: they come after all finished elements, the outermost
first. -/
theorem items_eq (forest : Forest) :
    forest.items = forest.roots.flatMap Frame.items
      ++ forest.openTags.frames.reverse.flatMap Frame.items := by
  unfold items frames
  split
  · rename_i h
    rw [h, List.reverse_nil, List.flatMap_nil, List.append_nil]
  · rename_i f fs h
    rw [h, List.flatMap_append, List.flatMap_singleton, Frame.items_closeInto, List.reverse_cons,
      List.flatMap_append, List.flatMap_singleton]

theorem items_openFrame (forest : Forest) (f : Frame) :
    (forest.openFrame f).items = forest.items ++ f.items := by
  rw [items_eq, items_eq]
  simp only [openFrame, OpenTags.push, List.reverse_cons, List.flatMap_append,
    List.flatMap_singleton, List.append_assoc]

theorem items_addFrame (forest : Forest) (f : Frame) :
    (forest.addFrame f).items = forest.items ++ f.items := by
  rw [items_eq, items_eq]
  unfold addFrame
  split
  · rename_i h
    simp only [h, List.flatMap_append, List.flatMap_singleton, List.reverse_nil, List.flatMap_nil,
      List.append_nil]
  · rename_i top rest h
    simp only [h, List.reverse_cons, List.flatMap_append, List.flatMap_singleton, Frame.items_add,
      List.append_assoc]
    rfl

/-- A node is added inside the innermost open tag, and dropped when no tag is open. -/
theorem items_addLeaf (forest : Forest) (n : Node) :
    (forest.addLeaf n).items
      = forest.items ++ if forest.openTags.isEmpty then [] else [.leaf n] := by
  rw [items_eq, items_eq]
  unfold addLeaf OpenTags.isEmpty
  split
  · rename_i h
    simp [h]
  · rename_i top rest h
    simp only [h, List.reverse_cons, List.flatMap_append, List.flatMap_singleton, Frame.items_add,
      List.isEmpty_cons, Bool.false_eq_true, if_false, List.append_assoc]
    rfl

/-! ## Closing tags -/

theorem splitAt?_eq_some {name : String} {fs inner outer : List Frame} {found : Frame}
    (h : OpenTags.splitAt? name fs = some (inner, found, outer)) :
    fs = inner ++ found :: outer := by
  induction fs generalizing inner with
  | nil => simp [OpenTags.splitAt?] at h
  | cons f fs ih =>
    rw [OpenTags.splitAt?] at h
    split at h
    · obtain ⟨rfl, rfl, rfl⟩ : [] = inner ∧ f = found ∧ fs = outer := by simpa using h
      rfl
    · obtain ⟨⟨i, g, o⟩, hsplit, he⟩ := Option.map_eq_some_iff.1 h
      obtain ⟨rfl, rfl, rfl⟩ : f :: i = inner ∧ g = found ∧ o = outer := by simpa using he
      rw [ih hsplit, List.cons_append]

theorem frames_addFrame (forest : Forest) (f : Frame) :
    (forest.addFrame f).frames = forest.roots ++ [f.closeInto forest.openTags.frames] := by
  unfold addFrame
  split
  · rename_i h
    simp [frames, h, Frame.closeInto]
  · rename_i top rest h
    simp [frames, h, Frame.closeInto]

/-- **Closing a tag leaves the finished forest as it is.** -/
theorem frames_close? {forest closed : Forest} {name : String}
    (h : forest.close? name = some closed) : closed.frames = forest.frames := by
  obtain ⟨⟨inner, found, outer⟩, hsplit, rfl⟩ := Option.map_eq_some_iff.1 h
  have hopen := splitAt?_eq_some hsplit
  simp only [frames_addFrame]
  rw [frames, hopen]
  cases inner with
  | nil => rfl
  | cons f fs =>
    simp only [List.cons_append]
    rw [← Frame.closeInto_append, List.append_assoc, List.singleton_append]

theorem items_close? {forest closed : Forest} {name : String}
    (h : forest.close? name = some closed) : closed.items = forest.items := by
  rw [items, frames_close? h, items]

end Forest

/-! ## Numbers -/

/-- The number of an opening tag. -/
def Item.serial? : Item → Option Nat
  | .opening o => some o.serial
  | .leaf _ => none

mutual

theorem Content.serials_items (c : Content) :
    c.items.filterMap Item.serial? = c.entries.map Prod.fst := by
  match c with
  | .leaf n => rfl
  | .element o cs =>
    rw [Content.items, List.filterMap_cons, Content.serials_itemsOf cs, Content.entries,
      List.map_cons]
    rfl

theorem Content.serials_itemsOf (cs : List Content) :
    (Content.itemsOf cs).filterMap Item.serial? = (Content.entriesOf cs).map Prod.fst := by
  match cs with
  | [] => rfl
  | c :: cs =>
    rw [Content.itemsOf, List.filterMap_append, Content.serials_items c,
      Content.serials_itemsOf cs, Content.entriesOf, List.map_append]

end

/-- The numbers of the elements of a forest, in source order. -/
def Forest.serials (forest : Forest) : List Nat := forest.items.filterMap Item.serial?

theorem Forest.serials_eq (forest : Forest) :
    forest.serials = (forest.frames.flatMap Frame.entries).map Prod.fst := by
  have h : (fun f : Frame => f.items.filterMap Item.serial?) = fun f => f.entries.map Prod.fst :=
    funext fun f => Content.serials_items f.toContent
  rw [Forest.serials, Forest.items, List.filterMap_flatMap, h, List.map_flatMap]

namespace Progress

/-- The elements read so far are numbered in source order from zero, and the one taken for the
root is among them. -/
structure Numbered (p : Progress) : Prop where
  serials_eq : p.forest.serials = List.range p.nextSerial
  root_lt : ∀ serial, p.rootSerial = some serial → serial < p.nextSerial

theorem numbered_empty (events : List Event) : ({ events } : Progress).Numbered where
  serials_eq := rfl
  root_lt := by simp

/-- What only changes other parts of a page keeps its numbers. -/
theorem Numbered.of_items {p q : Progress} (h : p.Numbered)
    (hs : q.forest.serials = p.forest.serials) (hn : q.nextSerial = p.nextSerial)
    (hr : q.rootSerial = p.rootSerial) : q.Numbered where
  serials_eq := by rw [hs, hn, h.serials_eq]
  root_lt := by rw [hr, hn]; exact h.root_lt

theorem Numbered.closeTag {p : Progress} (h : p.Numbered) (name : String) (location : Location) :
    (p.closeTag name location).Numbered := by
  unfold Progress.closeTag
  split
  · rename_i closed hclose
    refine h.of_items ?_ rfl rfl
    rw [Forest.serials, Forest.items_close? hclose, Forest.serials]
  · exact h.of_items rfl rfl rfl

theorem serials_addLeaf (forest : Forest) (n : Node) :
    (forest.addLeaf n).serials = forest.serials := by
  rw [Forest.serials, Forest.items_addLeaf, List.filterMap_append, Forest.serials]
  split <;> simp [Item.serial?]

/-- An opening tag takes the next number. -/
theorem Numbered.openTag {p : Progress} (h : p.Numbered) (config : Config) {opening : Opening}
    (hs : opening.serial = p.nextSerial) : (p.openTag config opening).Numbered where
  serials_eq := by
    have hitems : (p.openTag config opening).forest.items
        = p.forest.items ++ [.opening opening] := by
      simp only [Progress.openTag]
      split
      · exact Forest.items_addFrame _ _
      · exact Forest.items_openFrame _ _
    rw [Forest.serials, hitems, List.filterMap_append, ← Forest.serials, h.serials_eq]
    show _ = List.range (p.nextSerial + 1)
    rw [List.range_succ, ← hs]
    rfl
  root_lt := by
    intro serial hroot
    show serial < p.nextSerial + 1
    simp only [Progress.openTag] at hroot
    split at hroot
    · have := Option.some.inj hroot
      omega
    · exact Nat.lt_succ_of_lt (h.root_lt serial hroot)

theorem Numbered.readSpan {p : Progress} (h : p.Numbered) (config : Config) (t : Token)
    (span : Markup.Span) : (p.readSpan config t span).Numbered := by
  simp only [Progress.readSpan]
  split
  · exact h.closeTag _ _
  · split
    · exact h
    · exact h.openTag config rfl

theorem Numbered.foldl_readSpan {p : Progress} (h : p.Numbered) (config : Config) (t : Token)
    (spans : List Markup.Span) : (spans.foldl (Progress.readSpan config t) p).Numbered := by
  induction spans generalizing p with
  | nil => exact h
  | cons span spans ih => exact ih (h.readSpan config t span)

/-- **A token outside scripts keeps the numbering.** -/
theorem Numbered.readMarkup {p : Progress} (h : p.Numbered) (config : Config) (t : Token) :
    (p.readMarkup config t).Numbered := by
  unfold Progress.readMarkup
  split
  · split
    · exact h.of_items rfl rfl rfl
    · exact h
  · exact h.foldl_readSpan config t _
  · exact h.closeTag _ _
  · split
    · exact h
    · exact h.of_items (serials_addLeaf _ _) rfl rfl
  · exact h.of_items rfl rfl rfl
  · exact h

theorem Numbered.closeScript {p : Progress} (h : p.Numbered) (region : Region) :
    (p.closeScript region).Numbered := by
  simp only [Progress.closeScript]
  split
  · split
    · exact h.of_items rfl rfl rfl
    · exact h.of_items rfl rfl rfl
  · exact h.of_items (serials_addLeaf _ _) rfl rfl

theorem Numbered.collect {p : Progress} (h : p.Numbered) (region : Region) (found : Harvest) :
    (p.collect region found).Numbered := h.of_items rfl rfl rfl

theorem Numbered.finish {p : Progress} (h : p.Numbered) : p.finish.Numbered := by
  unfold Progress.finish
  split
  · exact h.closeScript _
  · exact h

/-- **Reading keeps the numbering.** -/
theorem Numbered.readFrom? {config : Config} {p q : Progress} {ts : List Token}
    (h : p.Numbered) (hq : p.readFrom? config ts = some q) : q.Numbered := by
  fun_induction Progress.readFrom? config p ts with
  | case1 p =>
    rw [← Option.some.inj hq]
    exact h.finish
  | case2 p t ts ht =>
    rw [← Option.some.inj hq]
    exact h.finish
  | case3 p t ts ht hr ih => exact ih (h.readMarkup config t) hq
  | case4 p t ts ht region hr hc ih => exact ih (h.closeScript region) hq
  | case5 => simp at hq
  | case6 p t ts ht region hr hc found hf hlt ih => exact ih (h.collect region found) hq
  | case7 p t ts ht region hr hc found hf hlt ih => exact ih (h.collect region found) hq

/-! ## Documents -/

/-- No two elements of a numbered page have one number. -/
theorem Numbered.nodup_entries {p : Progress} (h : p.Numbered) :
    ((p.forest.frames.flatMap Frame.entries).map Prod.fst).Nodup := by
  rw [← Forest.serials_eq, h.serials_eq]
  exact List.nodup_range

/-- The root is one of the elements of a numbered page. -/
theorem Numbered.root_mem {p : Progress} (h : p.Numbered) {serial : Nat}
    (hroot : p.rootSerial = some serial) :
    serial ∈ (p.forest.frames.flatMap Frame.entries).map Prod.fst := by
  rw [← Forest.serials_eq, h.serials_eq]
  exact List.mem_range.2 (h.root_lt serial hroot)

/-- The frames of a numbered page can be frozen, and the root is among their tags. -/
theorem Numbered.exists_frozen {p : Progress} (h : p.Numbered) :
    ∃ frozen, freeze? p.forest.frames = some frozen ∧
      ∀ serial, p.rootSerial = some serial → (frozen.built.lookup serial).isSome := by
  have hnd := h.nodup_entries
  refine ⟨_, freeze?_eq_some hnd, ?_⟩
  intro serial hroot
  -- the root is one of the elements, and the table holds them all
  obtain ⟨⟨_, node⟩, hentry, rfl⟩ := List.mem_map.1 (h.root_mem hroot)
  rw [lookup_of_perm (built_perm p.forest.frames) hnd hentry]
  rfl

/-- **The document of a numbered page can be made**: every look-up in the table of its tags
succeeds, that of the root included. -/
theorem Numbered.page?_isSome {p : Progress} (h : p.Numbered) (file : Option String) :
    ∃ page, p.page? file = some page := by
  obtain ⟨frozen, hfrozen, hlookup⟩ := h.exists_frozen
  suffices ∃ d, p.document? file = some d by
    obtain ⟨d, hd⟩ := this
    exact ⟨_, by rw [Progress.page?, hd]; rfl⟩
  unfold Progress.document?
  rw [hfrozen]
  cases hroot : p.rootSerial with
  | none => exact ⟨_, rfl⟩
  | some serial =>
    obtain ⟨node, hnode⟩ := Option.isSome_iff_exists.1 (hlookup serial hroot)
    simp [hnode]

end Progress

end PageLint
