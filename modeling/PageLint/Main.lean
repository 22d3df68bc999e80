import PageLint.Command.Run

/-!
# Running the command

The outer layer: it brings the files that a request names into a storage, runs the command on it,
prints what the run printed and writes the files that the run changed.
-/

namespace PageLint.Main

/-- The text of a place. -/
def placeText (place : List String) : String := "/" ++ String.intercalate "/" place

/-- Brings what stands at a place into a storage; nothing if nothing can be read there. -/
def load (storage : Storage) (place : List String) : IO Storage := do
  try
    let real ← IO.FS.realPath (placeText place)
    if ← real.isDir then
      return storage.put place .directory
    else
      let data ← IO.FS.readBinFile real
      return storage.put place (.file data.toList)
  catch _ => return storage

/-- Brings the files directly in a directory into a storage. -/
def loadDirectory (storage : Storage) (place : List String) : IO Storage := do
  try
    let real ← IO.FS.realPath (placeText place)
    let children ← real.readDir
    children.foldlM (fun s child => load s (place ++ [child.fileName])) storage
  catch _ => return storage

/-- The places on the way of a path and the reports that may stand beside its end. -/
def placesOf (config : Config) (home : List String) (p : Path) : List (List String) :=
  let start := if p.root.isEmpty then home else []
  let next (place : List String) (part : String) : List String :=
    if part == ".." then place.dropLast else place ++ [part]
  let way := (List.range (p.parts.length + 1)).map fun n => (p.parts.take n).foldl next start
  let last := p.parts.foldl next start
  match p.report config with
  | .ok report => way ++ [last.dropLast ++ [report.reread.name]]
  | .error _ => way

/-- Brings what a request is about into a storage. -/
def loadRequest (config : Config) (home : List String) (request : Command.Request) : IO Storage := do
  let p := Path.ofText request.path
  let storage ← (placesOf config home p).foldlM load { home }
  match request.batch, storage.directory? p with
  | true, .ok (some place) => loadDirectory storage place
  | _, _ => return storage

/-- Writes the files that differ from those of an earlier storage. -/
def store (before after : Storage) : IO Unit :=
  after.entries.forM fun (place, entry) => do
    match entry with
    | .file data =>
      if before.entryAt? place != some entry then
        IO.FS.writeBinFile (placeText place) ⟨data.toArray⟩
    | .directory => return ()

/-- Runs the command and gives the number that tells how it ended. -/
def run (arguments : List String) : IO UInt32 := do
  let config : Config := {}
  let home := Path.partsOf (← IO.currentDir).toString.toList
  let storage ←
    match Command.interpret arguments with
    | .run request => loadRequest config home request
    | _ => pure { home }
  match Command.run? config arguments storage with
  | none =>
    IO.eprintln "Error: the document cannot be read to its end"
    return 1
  | some (.error trouble) =>
    IO.eprintln trouble.message
    return 1
  | some (.ok outcome) =>
    store storage outcome.session.storage
    IO.print outcome.session.stdout
    IO.eprint outcome.session.stderr
    return outcome.exit.code.toUInt32

end PageLint.Main

/-- Checks documents from the command line. -/
def main (arguments : List String) : IO UInt32 := PageLint.Main.run arguments
