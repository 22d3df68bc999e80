import PageLint.Tree.Node

/-!
# Frames

An element whose contents are known but which is not yet a tag of a tree. Frames are numbered in
the order in which their opening tags appear, and the tag made from a frame keeps its number as
its label.

`Frame.toTag` makes the tag by recursion. `freeze?` makes the tags of a whole forest with a list
of tasks, however deep it is: a frame is taken apart into the frames among its contents and put
together when their tags stand in the table. Frames among the contents finish from the last to
the first, and every look-up in the table succeeds.
-/

namespace PageLint

/-- An opening tag: its number, name, place and attributes, and whether it closes itself. -/
structure Opening where
  serial : Nat
  name : String
  location : Location
  attributes : List Attribute := []
  selfClosing : Bool := false
  deriving DecidableEq, Repr, Inhabited

/-- What stands inside an element: elements, and nodes that are finished. -/
inductive Content where
  | element (opening : Opening) (contents : List Content)
  | leaf (node : Node)
  deriving Inhabited

/-- An element with its contents in source order. -/
structure Frame where
  opening : Opening
  contents : List Content := []
  deriving Inhabited

/-- The tag of an opening tag around its children. -/
def Opening.toTag (o : Opening) (children : List Node) : Node :=
  .tag { location := o.location, label := some o.serial } o.name o.attributes children
    o.selfClosing false

/-- A frame as the content of another. -/
def Frame.toContent (f : Frame) : Content := .element f.opening f.contents

/-! ## By recursion -/

mutual

/-- Content as a node of a tree. -/
def Content.toNode : Content → Node
  | .element opening contents => opening.toTag (Content.toNodes contents)
  | .leaf node => node

def Content.toNodes : List Content → List Node
  | [] => []
  | c :: cs => c.toNode :: Content.toNodes cs

end

/-- A frame as a tag. -/
def Frame.toTag (f : Frame) : Node := f.opening.toTag (Content.toNodes f.contents)

/-! ## By a list of tasks -/

/-- The frames directly among contents. -/
def Content.frames : List Content → List Frame
  | [] => []
  | .element opening contents :: cs => { opening, contents } :: Content.frames cs
  | .leaf _ :: cs => Content.frames cs

namespace Frame

/-- A step of the conversion: take a frame apart, or put it together. -/
inductive Task where
  | expand (f : Frame)
  | build (f : Frame)

-- The zero of a sum is the one that the lemmas of the library on sums of numbers speak of.
attribute [local instance (high)] Zero.ofOfNat0

/-- How much work a task is. -/
noncomputable def Task.weight : Task → Nat
  | .expand f => 2 * sizeOf f.contents
  | .build _ => 1

/-- The tasks for the frames among contents are less work than the contents. -/
theorem weight_frames (cs : List Content) :
    (((Content.frames cs).reverse.map Task.expand).map Task.weight).sum + 1 < 2 * sizeOf cs := by
  rw [List.map_reverse, List.map_reverse, List.sum_reverse]
  induction cs with
  | nil => simp [Content.frames]
  | cons c cs ih =>
    cases c with
    | leaf n => simp only [Content.frames, List.cons.sizeOf_spec]; omega
    | element o inner =>
      simp only [Content.frames, List.map_cons, List.sum_cons, Task.weight, List.cons.sizeOf_spec,
        Content.element.sizeOf_spec]
      omega

/-- The tags made so far, by the number of their frame, newest first. -/
abbrev Table := List (Nat × Node)

/-- The node of content, where the tag of an element is looked up. -/
def lookUp? (table : Table) : Content → Option Node
  | .element opening _ => table.lookup opening.serial
  | .leaf node => some node

/-- Runs tasks over a table and gives the table at the end; none when a tag is missing. -/
def runTasks (table : Table) (tasks : List Task) : Option Table :=
  match tasks with
  | [] => some table
  | .expand f :: tasks =>
    runTasks table ((Content.frames f.contents).reverse.map Task.expand ++ (.build f :: tasks))
  | .build f :: tasks =>
    match f.contents.mapM (lookUp? table) with
    | none => none
    | some children => runTasks ((f.opening.serial, f.opening.toTag children) :: table) tasks
termination_by (tasks.map Task.weight).sum
decreasing_by
  · have := weight_frames f.contents
    simp only [List.map_append, List.map_cons, List.sum_append_nat, List.sum_cons, Task.weight]
    omega
  · simp only [List.map_cons, List.sum_cons, Task.weight]; omega

end Frame

/-- The tags of a forest, and the tag of every frame in the order in which they were finished. -/
structure Frozen where
  tags : List Node
  built : List (Nat × Node)
  deriving Inhabited

/-- The tags of a forest of frames. -/
def freeze? (roots : List Frame) : Option Frozen := do
  let table ← Frame.runTasks [] (roots.map Frame.Task.expand)
  let tags ← roots.mapM fun f => table.lookup f.opening.serial
  return { tags, built := table.reverse }

end PageLint
