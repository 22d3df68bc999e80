import PageLint.Proofs.Forest
import PageLint.Proofs.Passes.Sharing

/-!
# Where frozen tags stand

A forest and its tags have the same places: where a frame stands in the forest, the tag made from it
stands among the tags, and a text or a script stands where it stood. The table holds each frame once
with the very tag at its place. So the tag that a page takes for its root is one of its tags, at the
place of the frame.

* `Content.below?`, `contentAt?` — what stands at a place in content, and in a forest
* `Frozen.Freezes` — a forest and its tags, place by place
* `freeze?_freezes` — freezing makes such tags
* `frames_frozen` — any forest, and those that are read
-/

namespace PageLint

/-! ## Places -/

/-- What is directly inside content. -/
def Content.contents : Content → List Content
  | element _ contents => contents
  | leaf _ => []

/-- The content at the end of a way that leads back up to content. -/
def Content.below? (c : Content) : List Nat → Option Content
  | [] => some c
  | i :: way => (c.below? way).bind (·.contents[i]?)

/-- What stands in a forest at a place: in a frame at the top level, at the end of a way. -/
def contentAt? (roots : List Frame) (place : Nat × List Nat) : Option Content :=
  roots[place.1]?.bind fun f => f.toContent.below? place.2

/-- The node that stands at a place among nodes. -/
def nodeAt? (nodes : List Node) (place : Nat × List Nat) : Option Node :=
  nodes[place.1]?.bind fun n => n.below? place.2

namespace Content

theorem below?_append (c : Content) (i : Nat) (way : List Nat) :
    c.below? (way ++ [i]) = c.contents[i]?.bind (·.below? way) := by
  induction way with
  | nil =>
    rw [List.nil_append, below?, below?, Option.bind_some]
    cases c.contents[i]? <;> rfl
  | cons j way ih =>
    rw [List.cons_append, below?, ih]
    cases c.contents[i]? <;> rfl

/-- **Content and its node have the same places.** -/
theorem toNode_below? {c d : Content} {way : List Nat} (h : c.below? way = some d) :
    c.toNode.below? way = some d.toNode := by
  induction way generalizing d with
  | nil =>
    rw [Option.some.inj h]
    rfl
  | cons i way ih =>
    obtain ⟨e, he, hd⟩ := Option.bind_eq_some_iff.1 h
    rw [Node.below?, ih he, Option.bind_some]
    cases e with
    | leaf n => simp [contents] at hd
    | element o cs =>
      rw [toNode, Opening.toTag, Node.children, toNodes_eq_map, List.getElem?_map]
      rw [contents] at hd
      rw [hd]
      rfl

/-- The tags inside what stands in content are tags inside the content. -/
theorem entries_of_below? {c d : Content} {way : List Nat} (h : c.below? way = some d) :
    d.entries ⊆ c.entries := by
  induction way generalizing d with
  | nil => rw [Option.some.inj h]; exact List.Subset.refl _
  | cons i way ih =>
    obtain ⟨e, he, hd⟩ := Option.bind_eq_some_iff.1 h
    cases e with
    | leaf n => simp [contents] at hd
    | element o cs =>
      refine List.Subset.trans (fun x hx => ?_) (ih he)
      rw [entries]
      exact List.mem_cons_of_mem _ (entries_mem (List.mem_of_getElem? hd) x hx)

/-- Every tag in content belongs to an element that stands there. -/
theorem exists_below? (c : Content) : ∀ e ∈ c.entries, ∃ way o cs,
    c.below? way = some (.element o cs) ∧ e = (o.serial, o.toTag (toNodes cs)) := by
  intro e he
  match c with
  | .leaf n => simp [entries] at he
  | .element o cs =>
    rw [entries] at he
    rcases List.mem_cons.1 he with rfl | he
    · exact ⟨[], o, cs, rfl, rfl⟩
    · rw [entriesOf_eq_flatMap] at he
      obtain ⟨d, hd, he⟩ := List.mem_flatMap.1 he
      obtain ⟨way, o', cs', hway, rfl⟩ := exists_below? d e he
      obtain ⟨i, hi⟩ := List.getElem?_of_mem hd
      refine ⟨way ++ [i], o', cs', ?_, rfl⟩
      rw [below?_append, contents, hi]
      exact hway
termination_by sizeOf c
decreasing_by
  have := List.sizeOf_lt_of_mem hd
  simp only [Content.element.sizeOf_spec]
  omega

end Content

/-- What stands in a forest is among its tags. -/
theorem entry_of_contentAt? {roots : List Frame} {place : Nat × List Nat} {o : Opening}
    {cs : List Content} (h : contentAt? roots place = some (.element o cs)) :
    (o.serial, o.toTag (Content.toNodes cs)) ∈ roots.flatMap Frame.entries := by
  obtain ⟨f, hf, hway⟩ := Option.bind_eq_some_iff.1 h
  refine List.mem_flatMap.2 ⟨f, List.mem_of_getElem? hf, Content.entries_of_below? hway ?_⟩
  rw [Content.entries]
  exact List.mem_cons_self

theorem nodeAt?_map_toTag {roots : List Frame} {place : Nat × List Nat} {c : Content}
    (h : contentAt? roots place = some c) :
    nodeAt? (roots.map Frame.toTag) place = some c.toNode := by
  obtain ⟨f, hf, hway⟩ := Option.bind_eq_some_iff.1 h
  have hnode := Content.toNode_below? hway
  rw [Frame.toContent, Content.toNode, ← Frame.toTag] at hnode
  rw [nodeAt?, List.getElem?_map, hf]
  exact hnode

/-! ## Forests -/

/-- The numbers of the frames of a forest, in source order. -/
def Frame.numbers (roots : List Frame) : List Nat :=
  (roots.flatMap Frame.items).filterMap Item.serial?

theorem Frame.numbers_eq (roots : List Frame) :
    numbers roots = (roots.flatMap Frame.entries).map Prod.fst :=
  Forest.serials_eq { roots }

/-- The tags of a forest and the table of its frames. -/
structure Frozen.Freezes (frozen : Frozen) (roots : List Frame) : Prop where
  /-- The tags are those that the recursion makes. -/
  tags : frozen.tags = roots.map Frame.toTag
  /-- The table has one entry for each frame. -/
  once : (frozen.built.map Prod.fst).Perm (Frame.numbers roots)
  /-- The entry of a frame is the tag that stands in its place. -/
  inPlace : ∀ place opening contents,
    contentAt? roots place = some (.element opening contents) → ∃ tag,
      nodeAt? frozen.tags place = some tag ∧ frozen.built.lookup opening.serial = some tag ∧
      tag = opening.toTag (Content.toNodes contents)
  /-- Nodes that are no frames stand where they stood. -/
  leaves : ∀ place node, contentAt? roots place = some (.leaf node) →
    nodeAt? frozen.tags place = some node

/-- **Freezing keeps all places**: where each frame has a number of its own, every look-up succeeds,
and the tags stand where their frames do. -/
theorem freeze?_freezes {roots : List Frame} (hnd : (Frame.numbers roots).Nodup) :
    ∃ frozen, freeze? roots = some frozen ∧ frozen.Freezes roots := by
  rw [Frame.numbers_eq] at hnd
  refine ⟨_, freeze?_eq_some hnd, rfl, ?_, fun place o cs h => ?_, fun place n h => ?_⟩
  · rw [Frame.numbers_eq]
    exact (built_perm roots).map _
  · refine ⟨_, nodeAt?_map_toTag h, ?_, ?_⟩
    · rw [Content.toNode]
      exact lookup_of_perm (built_perm roots) hnd (entry_of_contentAt? h)
    · rw [Content.toNode]
  · rw [nodeAt?_map_toTag h, Content.toNode]

/-! ## Pages -/

namespace Progress

theorem Numbered.readTimes? {config : Config} {ts : List Token} {times : Nat} {p q : Progress}
    (h : p.Numbered) (hq : p.readTimes? config ts times = some q) : q.Numbered := by
  induction times generalizing p with
  | zero => exact Option.some.inj hq ▸ h
  | succ times ih =>
    obtain ⟨mid, hmid, hq⟩ := Option.bind_eq_some_iff.1 hq
    exact ih (h.readFrom? hmid) hq

/-- The frame taken for the root stands in the forest. -/
theorem Numbered.exists_root {p : Progress} (h : p.Numbered) {serial : Nat}
    (hroot : p.rootSerial = some serial) : ∃ place opening contents,
      contentAt? p.forest.frames place = some (.element opening contents) ∧
      opening.serial = serial := by
  obtain ⟨e, he, rfl⟩ := List.mem_map.1 (h.root_mem hroot)
  obtain ⟨f, hf, he⟩ := List.mem_flatMap.1 he
  obtain ⟨i, hi⟩ := List.getElem?_of_mem hf
  obtain ⟨way, o, cs, hway, rfl⟩ := f.toContent.exists_below? e he
  exact ⟨(i, way), o, cs, by rw [contentAt?, hi]; exact hway, rfl⟩

/-- The root of the document of what has been read is the tag in the place of its frame. -/
structure RootInPlace (p : Progress) (frozen : Frozen) (d : Document) : Prop where
  children : d.children = frozen.tags
  root_none : p.rootSerial = none → d.root = none
  root_some : ∀ serial, p.rootSerial = some serial → ∃ place opening contents root,
    contentAt? p.forest.frames place = some (.element opening contents) ∧
    opening.serial = serial ∧ frozen.built.lookup serial = some root ∧ d.root = some root ∧
    nodeAt? d.children place = some root

theorem Numbered.rootInPlace {p : Progress} (h : p.Numbered) {frozen : Frozen}
    (hfrozen : freeze? p.forest.frames = some frozen) (hfreezes : frozen.Freezes p.forest.frames)
    (file : Option String) : ∃ d, p.document? file = some d ∧ p.RootInPlace frozen d := by
  rw [document?, hfrozen]
  cases hroot : p.rootSerial with
  | none =>
    refine ⟨_, rfl, rfl, fun _ => rfl, fun serial hserial => ?_⟩
    rw [hroot] at hserial
    cases hserial
  | some serial =>
    obtain ⟨place, o, cs, hplace, rfl⟩ := h.exists_root hroot
    obtain ⟨root, hnode, hlookup, -⟩ := hfreezes.inPlace place o cs hplace
    refine ⟨{ site := { location := { line := 1, column := 1, file } }, children := frozen.tags,
              doctype := p.doctype, root := some root }, ?_, rfl, ?_, ?_⟩
    · simp [hlookup]
    · intro hnone
      rw [hroot] at hnone
      cases hnone
    · intro serial hserial
      rw [hroot] at hserial
      obtain rfl := Option.some.inj hserial
      exact ⟨place, o, cs, root, hplace, rfl, hlookup, rfl, hnode⟩

end Progress

/-- **Forests are frozen place by place.** A forest of frames with a number each becomes the tags
that the recursion makes, with one entry for each frame in the table. The frames of a page are such
a forest, however often its tokens have been read, and the root of its document is the tag in the
place of the frame taken for it. -/
theorem frames_frozen :
    (∀ roots : List Frame, (Frame.numbers roots).Nodup →
      ∃ frozen, freeze? roots = some frozen ∧ frozen.Freezes roots) ∧
    ∀ (config : Config) (events : List Event) (ts : List Token) (times : Nat) (p : Progress),
      ({ events } : Progress).readTimes? config ts times = some p →
        (Frame.numbers p.forest.frames).Nodup ∧
        ∃ frozen, freeze? p.forest.frames = some frozen ∧ frozen.Freezes p.forest.frames ∧
          ∀ file, ∃ d, p.document? file = some d ∧ p.RootInPlace frozen d := by
  refine ⟨fun roots hnd => freeze?_freezes hnd, fun config events ts times p hp => ?_⟩
  have hnumbered := (Progress.numbered_empty events).readTimes? hp
  have hnd : (Frame.numbers p.forest.frames).Nodup := by
    rw [Frame.numbers_eq]
    exact hnumbered.nodup_entries
  obtain ⟨frozen, hfrozen, hfreezes⟩ := freeze?_freezes hnd
  exact ⟨hnd, frozen, hfrozen, hfreezes, hnumbered.rootInPlace hfrozen hfreezes⟩

/-- A division that holds a text, a paragraph with a text, and another text, beside a paragraph. -/
def dividedForest : List Frame :=
  let opening (serial : Nat) (name : String) : Opening := { serial, name, location := .unknown }
  let text (s : String) : Content := .leaf (.text { location := .unknown } s)
  [{ opening := opening 4 "div"
     contents := [text "a", .element (opening 2 "p") [text "b"], text "c"] },
    { opening := opening 7 "p" }]

/-- An `html` tag inside a division, both left open. -/
def openedRoot : List Token :=
  [{ kind := .tagOpen, text := "<div>", line := 1, column := 1, offset := 0 },
    { kind := .tagOpen, text := "<html>", line := 1, column := 6, offset := 5 },
    { kind := .text, text := "x", line := 1, column := 12, offset := 11 }]

/-- The forest by hand, and the frames of a page whose tokens are read twice. -/
theorem dividedForest_frozen : (Frame.numbers dividedForest).Nodup ∧
    (∃ frozen, freeze? dividedForest = some frozen ∧ frozen.Freezes dividedForest) ∧
    ∃ p, ({ events := [] } : Progress).readTimes? {} openedRoot 2 = some p ∧
      p.rootSerial = some 1 ∧ (Frame.numbers p.forest.frames).Nodup ∧
      ∃ frozen, freeze? p.forest.frames = some frozen ∧ frozen.Freezes p.forest.frames ∧
        ∀ file, ∃ d, p.document? file = some d ∧ p.RootInPlace frozen d := by
  have hnd : (Frame.numbers dividedForest).Nodup := by decide
  have hroot : (({ events := [] } : Progress).readTimes? {} openedRoot 2).map
      Progress.rootSerial = some (some 1) := by decide +kernel
  obtain ⟨p, hp, hserial⟩ := Option.map_eq_some_iff.1 hroot
  exact ⟨hnd, frames_frozen.1 dividedForest hnd, p, hp, hserial,
    frames_frozen.2 {} [] openedRoot 2 p hp⟩

end PageLint
