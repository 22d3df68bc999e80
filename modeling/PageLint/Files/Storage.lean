import PageLint.Files.Path

/-!
# Storage

Files and directories as a value. An entry is found by the parts that lead to it from the root;
a relative path starts at the home directory. On the way every part but the last has to be a
directory, and double dots lead one step back.
-/

namespace PageLint

/-- What stands at a place of a storage. -/
inductive Entry where
  | file (data : List UInt8)
  | directory
  deriving DecidableEq, Repr, Inhabited

/-- Files and directories, by the parts that lead to them, and the home directory. -/
structure Storage where
  home : List String := []
  entries : List (List String × Entry) := []
  deriving DecidableEq, Repr, Inhabited

namespace Storage

/-- Why a file cannot be read or written. -/
inductive Failure where
  | missing
  | notDirectory
  | isDirectory
  | nameTooLong
  deriving DecidableEq, Repr

/-- The wording of a failure at a path. -/
def Failure.message (failure : Failure) (path : String) : String :=
  let cause :=
    match failure with
    | missing => "[Errno 2] No such file or directory"
    | notDirectory => "[Errno 20] Not a directory"
    | isDirectory => "[Errno 21] Is a directory"
    | nameTooLong => "[Errno 36] File name too long"
  cause ++ ": " ++ Text.displayText path

/-- The entry at a place. The root and the home directory are always there. -/
def entryAt? (s : Storage) (place : List String) : Option Entry :=
  match s.entries.lookup place with
  | some entry => some entry
  | none => if place.isPrefixOf s.home then some .directory else none

/-- Puts an entry at a place, instead of what is there. -/
def put (s : Storage) (place : List String) (entry : Entry) : Storage :=
  { s with entries := (place, entry) :: s.entries.filter fun e => e.1 != place }

/-- The longest name of an entry, in bytes. -/
def maxNameLength : Nat := 255

/-- Goes one part further from a place. -/
def enter (s : Storage) (place : List String) (part : String) : Except Failure (List String) :=
  match s.entryAt? place with
  | none => .error .missing
  | some (.file _) => .error .notDirectory
  | some .directory =>
    if part == ".." then .ok place.dropLast
    else if maxNameLength < part.utf8ByteSize then .error .nameTooLong
    else .ok (place ++ [part])

/-- The longest text of a path, in bytes. -/
def maxPathLength : Nat := 4095

/-- The place that a path leads to. -/
def resolve (s : Storage) (p : Path) : Except Failure (List String) :=
  if maxPathLength < p.text.utf8ByteSize then .error .nameTooLong
  else (Path.partsOf p.text.toList).foldlM s.enter (if p.root.isEmpty then s.home else [])

/-- The data of a file. -/
def read (s : Storage) (p : Path) : Except Failure (List UInt8) := do
  let place ← s.resolve p
  match s.entryAt? place with
  | none => .error .missing
  | some .directory => .error .isDirectory
  | some (.file data) => .ok data

/-- Writes a file, new or not, into a directory that is there. -/
def write (s : Storage) (p : Path) (data : List UInt8) : Except Failure Storage := do
  let place ← s.resolve p
  match s.entryAt? place with
  | some .directory => .error .isDirectory
  | _ => .ok (s.put place (.file data))

/-- The place of a directory, if there is one at a path. A path that leads nowhere is none. -/
def directory? (s : Storage) (p : Path) : Except Failure (Option (List String)) :=
  match s.resolve p with
  | .error .nameTooLong => .error .nameTooLong
  | .error _ => .ok none
  | .ok place => .ok (if s.entryAt? place == some .directory then some place else none)

/-- The names of the files directly in a directory. -/
def fileNames (s : Storage) (place : List String) : List String :=
  s.entries.filterMap fun (key, entry) =>
    match entry with
    | .file _ => if key.dropLast == place && !key.isEmpty then key.getLast? else none
    | .directory => none

/-! ## Building a storage -/

/-- The places that lead to a place, without the root and the place itself. -/
def ancestors (place : List String) : List (List String) :=
  (List.range place.length).tail.map fun n => place.take n

/-- Puts an entry at a place and makes the directories that lead to it. -/
def add (s : Storage) (place : List String) (entry : Entry) : Storage :=
  let s := (ancestors place).foldl
    (fun s dir => if (s.entryAt? dir).isSome then s else s.put dir .directory) s
  s.put place entry

/-- The entries below the home directory, with their paths from there. -/
def contents (s : Storage) : List (String × Entry) :=
  s.entries.filterMap fun (key, entry) =>
    if s.home.isPrefixOf key && key != s.home then
      some (String.intercalate "/" (key.drop s.home.length), entry)
    else none

end Storage

end PageLint
