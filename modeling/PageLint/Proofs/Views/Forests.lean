import PageLint.Proofs.Freeze
import PageLint.Proofs.Views.Nodes
import PageLint.Tree.OpenTags

/-!
# Forests and views

The elements of a page under construction as a view shows them. Adding, opening and closing
elements goes past a view, and so does making the tags at the end.

* `Forest.view` — the elements of a page so far
* `Forest.view_addFrame`, `Forest.view_addLeaf`, `Forest.view_close?` — what is done to them
* `Frame.view_entries` — the tags that are made from them
-/

namespace PageLint

/-- An opening tag as a view shows it: without its attributes. -/
def Opening.view (v : View) (o : Opening) : Opening :=
  { serial := o.serial
    name := v.text o.name
    location := o.location.view v
    selfClosing := o.selfClosing }

mutual

/-- Content as a view shows it. -/
def Content.view (v : View) : Content → Content
  | .element opening contents => .element (opening.view v) (Content.viewAll v contents)
  | .leaf n => .leaf (n.view v)

def Content.viewAll (v : View) : List Content → List Content
  | [] => []
  | c :: cs => c.view v :: Content.viewAll v cs

end

/-- A frame as a view shows it. -/
def Frame.view (v : View) (f : Frame) : Frame :=
  { opening := f.opening.view v, contents := Content.viewAll v f.contents }

variable (v : View)

theorem Content.viewAll_append (cs ds : List Content) :
    Content.viewAll v (cs ++ ds) = Content.viewAll v cs ++ Content.viewAll v ds := by
  induction cs with
  | nil => rfl
  | cons c cs ih => rw [List.cons_append, Content.viewAll, ih, Content.viewAll, List.cons_append]

/-! ## Frames -/

theorem Frame.view_add (f : Frame) (c : Content) :
    (f.add c).view v = (f.view v).add (c.view v) := by
  simp only [Frame.view, Frame.add, Content.viewAll_append, Content.viewAll]

theorem Frame.view_toContent (f : Frame) : f.toContent.view v = (f.view v).toContent := by
  rw [Frame.toContent, Content.view]
  rfl

theorem Frame.view_closeInto (f : Frame) (fs : List Frame) :
    (f.closeInto fs).view v = (f.view v).closeInto (fs.map (Frame.view v)) := by
  induction fs generalizing f with
  | nil => rfl
  | cons outer fs ih =>
    rw [Frame.closeInto, ih, Frame.view_add, Frame.view_toContent]
    rfl

theorem Opening.view_toTag (o : Opening) (children : List Node) :
    (o.view v).toTag (Node.viewAll v children) = (o.toTag children).view v := by
  rw [Opening.toTag, Opening.toTag, Node.view]
  rfl

mutual

theorem Content.view_toNode (c : Content) : (c.view v).toNode = c.toNode.view v := by
  match c with
  | .leaf n =>
    rw [Content.view]
    rfl
  | .element o cs =>
    rw [Content.view, Content.toNode, Content.toNode, Content.view_toNodes cs, Opening.view_toTag]

theorem Content.view_toNodes (cs : List Content) :
    Content.toNodes (Content.viewAll v cs) = Node.viewAll v (Content.toNodes cs) := by
  match cs with
  | [] => rfl
  | c :: cs =>
    rw [Content.viewAll, Content.toNodes, Content.toNodes, Node.viewAll, Content.view_toNode c,
      Content.view_toNodes cs]

end

theorem Frame.view_toTag (f : Frame) : (f.view v).toTag = f.toTag.view v := by
  have h := Content.view_toNode v f.toContent
  rw [Frame.view_toContent] at h
  exact h

mutual

theorem Content.view_entries (c : Content) :
    (c.view v).entries = c.entries.map fun e => (e.1, e.2.view v) := by
  match c with
  | .leaf n =>
    rw [Content.view]
    rfl
  | .element o cs =>
    rw [Content.view, Content.entries, Content.entries, Content.view_entriesOf cs, List.map_cons,
      Content.view_toNodes, Opening.view_toTag]
    rfl

theorem Content.view_entriesOf (cs : List Content) :
    Content.entriesOf (Content.viewAll v cs) =
      (Content.entriesOf cs).map fun e => (e.1, e.2.view v) := by
  match cs with
  | [] => rfl
  | c :: cs =>
    rw [Content.viewAll, Content.entriesOf, Content.entriesOf, List.map_append,
      Content.view_entries c, Content.view_entriesOf cs]

end

theorem Frame.view_entries (f : Frame) :
    (f.view v).entries = f.entries.map fun e => (e.1, e.2.view v) := by
  rw [Frame.entries, Frame.entries, ← Content.view_entries, Frame.view_toContent]

/-! ## Forests -/

/-- The elements of a page so far, as a view shows them. -/
def Forest.view (forest : Forest) : Forest :=
  { roots := forest.roots.map (Frame.view v)
    openTags := { frames := forest.openTags.frames.map (Frame.view v) } }

namespace Forest

theorem view_addFrame (forest : Forest) (f : Frame) :
    (forest.addFrame f).view v = (forest.view v).addFrame (f.view v) := by
  unfold addFrame
  cases hopen : forest.openTags.frames with
  | nil => simp [view, hopen]
  | cons top rest => simp [view, hopen, Frame.view_add, Frame.view_toContent]

theorem view_addLeaf (forest : Forest) (n : Node) :
    (forest.addLeaf n).view v = (forest.view v).addLeaf (n.view v) := by
  unfold addLeaf
  cases hopen : forest.openTags.frames with
  | nil => simp [view, hopen]
  | cons top rest => simp [view, hopen, Frame.view_add, Content.view]

theorem view_openFrame (forest : Forest) (f : Frame) :
    (forest.openFrame f).view v = (forest.view v).openFrame (f.view v) :=
  rfl

/-- A view does not make two names alike. -/
theorem isNamed_view (name : String) (f : Frame) :
    OpenTags.isNamed (v.text name) (f.view v) = OpenTags.isNamed name f := by
  show (lowered (v.text f.opening.name) == lowered (v.text name)) = _
  rw [View.lowered_text, View.lowered_text, OpenTags.isNamed, Bool.eq_iff_iff, beq_iff_eq,
    beq_iff_eq, v.text_injective.eq_iff]

theorem splitAt?_view (name : String) (fs : List Frame) :
    OpenTags.splitAt? (v.text name) (fs.map (Frame.view v)) =
      (OpenTags.splitAt? name fs).map fun (inner, found, outer) =>
        (inner.map (Frame.view v), found.view v, outer.map (Frame.view v)) := by
  induction fs with
  | nil => rfl
  | cons f fs ih =>
    rw [List.map_cons, OpenTags.splitAt?, OpenTags.splitAt?, isNamed_view, ih]
    split
    · rfl
    · cases OpenTags.splitAt? name fs <;> rfl

theorem view_close? (forest : Forest) (name : String) :
    (forest.close? name).map (view v) = (forest.view v).close? (v.text name) := by
  unfold close?
  show _ = (OpenTags.splitAt? (v.text name) (forest.openTags.frames.map (Frame.view v))).map _
  rw [splitAt?_view, Option.map_map, Option.map_map]
  refine congrArg (Option.map · _) (funext fun ⟨inner, found, outer⟩ => ?_)
  cases inner with
  | nil => exact view_addFrame v _ found
  | cons f fs =>
    simp only [Function.comp_apply, List.map_cons]
    rw [view_addFrame, Frame.view_closeInto, List.map_append]
    rfl

theorem view_frames (forest : Forest) :
    (forest.view v).frames = forest.frames.map (Frame.view v) := by
  unfold frames
  cases hopen : forest.openTags.frames with
  | nil => simp [view, hopen]
  | cons f fs => simp [view, hopen, Frame.view_closeInto]

end Forest

end PageLint
