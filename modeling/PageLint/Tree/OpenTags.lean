import PageLint.Config
import PageLint.Tree.Frame

/-!
# Open tags

The elements that are open at a point of a page, innermost first, each with its contents so far.
Names are kept as they are and compared in lower case.

A `Forest` is a page under construction: the open tags and the top-level elements that are
finished. Closing a tag closes the tags inside it and hands the whole element to the tag around
it, or to the top level.
-/

namespace PageLint

/-- The open elements, innermost first. -/
structure OpenTags where
  frames : List Frame := []
  deriving Inhabited

namespace OpenTags

/-- Why a tag cannot be taken off. -/
inductive Fault where
  | empty
  deriving DecidableEq, Repr

/-- The wording of a fault. -/
def Fault.message : Fault → String
  | empty => "pop from empty list"

/-- The number of open tags. -/
def size (tags : OpenTags) : Nat := tags.frames.length

/-- Whether no tag is open. -/
def isEmpty (tags : OpenTags) : Bool := tags.frames.isEmpty

/-- The innermost open tag. -/
def top? (tags : OpenTags) : Option Frame := tags.frames.head?

/-- Opens a tag inside all others. -/
def push (tags : OpenTags) (f : Frame) : OpenTags := { frames := f :: tags.frames }

/-- Takes the innermost tag off. -/
def pop (tags : OpenTags) : Except Fault (Frame × OpenTags) :=
  match tags.frames with
  | [] => .error .empty
  | f :: fs => .ok (f, { frames := fs })

/-- Whether a frame has a name, in lower case. -/
def isNamed (name : String) (f : Frame) : Bool := lowered f.opening.name == lowered name

/-- How many tags are open around the innermost tag of a name. -/
def index? (tags : OpenTags) (name : String) : Option Nat :=
  (tags.frames.findIdx? (isNamed name)).map fun i => tags.size - 1 - i

/-- Splits open tags below the innermost one of a name: the tags inside it, the tag itself and the
tags around it. -/
def splitAt? (name : String) : List Frame → Option (List Frame × Frame × List Frame)
  | [] => none
  | f :: fs =>
    if isNamed name f then some ([], f, fs)
    else (splitAt? name fs).map fun (inner, found, outer) => (f :: inner, found, outer)

/-- Takes tags off down to the innermost one of a name, which is given back. -/
def popTo? (tags : OpenTags) (name : String) : Option (Frame × OpenTags) :=
  (splitAt? name tags.frames).map fun (_, found, outer) => (found, { frames := outer })

/-- The names of the open tags, outermost first. -/
def names (tags : OpenTags) : List String := tags.frames.reverse.map fun f => f.opening.name

end OpenTags

/-! ## Forests under construction -/

/-- A frame with more contents. -/
def Frame.add (f : Frame) (c : Content) : Frame := { f with contents := f.contents ++ [c] }

/-- A frame with the open frames around it closed one after the other, innermost first. -/
def Frame.closeInto (f : Frame) : List Frame → Frame
  | [] => f
  | outer :: rest => (outer.add f.toContent).closeInto rest

/-- The elements of a page so far: finished ones at the top level, and open ones. -/
structure Forest where
  roots : List Frame := []
  openTags : OpenTags := {}
  deriving Inhabited

namespace Forest

/-- Adds a finished element inside the innermost open tag, or at the top level. -/
def addFrame (forest : Forest) (f : Frame) : Forest :=
  match forest.openTags.frames with
  | [] => { forest with roots := forest.roots ++ [f] }
  | top :: rest => { forest with openTags := { frames := top.add f.toContent :: rest } }

/-- Adds a node inside the innermost open tag; at the top level it is dropped. -/
def addLeaf (forest : Forest) (n : Node) : Forest :=
  match forest.openTags.frames with
  | [] => forest
  | top :: rest => { forest with openTags := { frames := top.add (.leaf n) :: rest } }

/-- Opens an element. -/
def openFrame (forest : Forest) (f : Frame) : Forest :=
  { forest with openTags := forest.openTags.push f }

/-- Closes the innermost element of a name and all elements inside it. -/
def close? (forest : Forest) (name : String) : Option Forest :=
  (OpenTags.splitAt? name forest.openTags.frames).map fun (inner, found, outer) =>
    let closed :=
      match inner with
      | [] => found
      | f :: fs => f.closeInto (fs ++ [found])
    ({ forest with openTags := { frames := outer } } : Forest).addFrame closed

/-- All top-level elements, the open ones closed. -/
def frames (forest : Forest) : List Frame :=
  match forest.openTags.frames with
  | [] => forest.roots
  | f :: fs => forest.roots ++ [f.closeInto fs]

end Forest

end PageLint
