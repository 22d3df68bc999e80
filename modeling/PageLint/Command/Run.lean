import PageLint.Command.Arguments
import PageLint.Files.Check
import PageLint.Tree.Dump

/-!
# The command

Checks one document, all documents of a directory, or prints the tree of a document. A run goes
from a storage to a storage, and says what is printed on either stream and how it ends: well, with
a document that could not be read or a report that could not be written, or with a wrong use.

There is no result when a document cannot be read to its end.
-/

namespace PageLint.Command

/-- The first line of the help, which also stands before every refusal. -/
def usage : String := "usage: markscript [-h] [--batch] [--dump-ast] [-v] [--version] path\n"

/-- The help. -/
def helpText : String :=
  usage ++ String.join
    ["\n",
      "Static analysis of HTML documents with embedded JavaScript.\n",
      "\n",
      "positional arguments:\n",
      "  path           document to analyze, or a directory with --batch\n",
      "\n",
      "options:\n",
      "  -h, --help     show this help message and exit\n",
      "  --batch        analyze every document in the directory PATH\n",
      "  --dump-ast     print the syntax tree as JSON instead of writing a report\n",
      "  -v, --verbose  log progress (-v) or parser and pass details (-vv)\n",
      "  --version      show program's version number and exit\n"]

/-- The version. -/
def versionText : String := "markscript 0.1.0\n"

/-- How a run ends. -/
inductive Exit where
  | ok
  | fileTrouble
  | wrongUse
  deriving DecidableEq, Repr, Inhabited

/-- The number that tells how a run ended. -/
def Exit.code : Exit → Nat
  | ok => 0
  | fileTrouble => 1
  | wrongUse => 2

/-- A run so far: the storage and what has been printed. -/
structure Session where
  storage : Storage
  stdout : String := ""
  stderr : String := ""
  deriving Inhabited

namespace Session

/-- Prints a line. -/
def print (s : Session) (line : String) : Session := { s with stdout := s.stdout ++ line ++ "\n" }

/-- Prints a line on the stream for errors. -/
def complain (s : Session) (line : String) : Session :=
  { s with stderr := s.stderr ++ line ++ "\n" }

/-- Whether an event is told at a verbosity. -/
def isTold (verbosity : Nat) (e : Event) : Bool :=
  match e.level with
  | .info => 1 ≤ verbosity
  | .debug => 2 ≤ verbosity

/-- Tells the events that a verbosity asks for. -/
def log (verbosity : Nat) (s : Session) (events : List Event) : Session :=
  (events.filter (isTold verbosity)).foldl (fun s e => s.complain e.logLine) s

end Session

/-- What a run gives. -/
structure Outcome where
  exit : Exit
  session : Session
  deriving Inhabited

/-! ## Lines about diagnostics -/

/-- The lines that list diagnostics; none when there are none. -/
def diagnosticLines (indent : String) (a : Analysis) : List String :=
  if a.ok then []
  else
    (indent ++ "Errors:") ::
      a.collector.sortedByLine.map fun d => indent ++ "  " ++ d.text

/-- Prints several lines. -/
def Session.printAll (s : Session) (lines : List String) : Session := lines.foldl Session.print s

/-! ## One document -/

/-- The wording for a path without the source extension. -/
def extensionComplaint (config : Config) (p : Path) : String :=
  "Error: input file must have " ++ config.sourceExtension ++ " extension: " ++ p.text

/-- Ends a run with a trouble; troubles about paths alone stop it without an outcome. -/
def endWith (s : Session) (trouble : Trouble) : Except Trouble Outcome :=
  match trouble with
  | .report .. =>
    .ok
      { exit := .fileTrouble
        session := s.complain ("Error reading or writing file: " ++ trouble.message) }
  | _ => .error trouble

/-- The lines about a document that was checked. -/
def singleLines (a : Analysis) (report : Path) : List String :=
  ["Validation complete!",
    "Errors found: " ++ Text.natText a.diagnostics.length,
    "Report generated: " ++ report.text] ++ diagnosticLines "" a

/-- Checks one document. -/
def runSingle? (config : Config) (verbosity : Nat) (p : Path) (s : Session) :
    Option (Except Trouble Outcome) :=
  (checkFile? config s.storage p).map fun check =>
    let s := ({ s with storage := check.storage } : Session).log verbosity check.events
    match check.result with
    | .error trouble => endWith s trouble
    | .ok (a, report) => .ok { exit := .ok, session := s.printAll (singleLines a report) }

/-- Prints the tree of one document. -/
def runDump? (config : Config) (verbosity : Nat) (p : Path) (s : Session) :
    Option (Except Trouble Outcome) :=
  match readSource s.storage p p.text with
  | .error trouble => some (endWith s trouble)
  | .ok source => do
    let a ← analyze? config source (some p.text)
    let tree ← a.page.document.toNode.dumpText? (.indented 2)
    return .ok { exit := .ok, session := (s.log verbosity a.events).print tree }

/-! ## All documents of a directory -/

/-- The documents directly in a directory, in ascending order of their names. -/
def documentsIn (config : Config) (storage : Storage) (directory : Path) (place : List String) :
    List Path :=
  let names := (storage.fileNames place).mergeSort fun a b => Decidable.decide (a ≤ b)
  (names.map directory.child).filter fun p => p.hasExtension config.sourceExtension

/-- How many documents of a batch went well and how many did not. -/
structure Tally where
  passed : Nat := 0
  failed : Nat := 0
  deriving DecidableEq, Repr, Inhabited

/-- The lines about a document of a batch. -/
def batchLines (a : Analysis) (report : Path) : List String :=
  ["  Completed - Errors found: " ++ Text.natText a.diagnostics.length,
    "  Output: " ++ report.name] ++ diagnosticLines "  " a

/-- Checks documents one after the other; one that fails does not stop the others. -/
def runDocuments? (config : Config) (verbosity : Nat) :
    List Path → Tally → Session → Option (Except Trouble (Tally × Session))
  | [], tally, s => some (.ok (tally, s))
  | p :: ps, tally, s =>
    match checkFile? config s.storage p with
    | none => none
    | some check =>
      let s := s.print ("\nFile: " ++ p.name)
      let s := ({ s with storage := check.storage } : Session).log verbosity check.events
      match check.result with
      | .ok (a, report) =>
        runDocuments? config verbosity ps { tally with passed := tally.passed + 1 }
          (s.printAll (batchLines a report))
      | .error (.report path detail) =>
        runDocuments? config verbosity ps { tally with failed := tally.failed + 1 }
          (s.complain ("  FAILED - " ++ (Trouble.report path detail).message))
      | .error trouble => some (.error trouble)

/-- The lines at the end of a batch. -/
def summaryLines (tally : Tally) : List String :=
  ["\n" ++ String.ofList (List.replicate 40 '='),
    "Summary:",
    "  Passed: " ++ Text.natText tally.passed,
    "  Failed: " ++ Text.natText tally.failed,
    "  Total:  " ++ Text.natText (tally.passed + tally.failed)]

/-- Checks all documents of a directory. -/
def runBatch? (config : Config) (verbosity : Nat) (directory : Path) (s : Session) :
    Option (Except Trouble Outcome) :=
  let notFound : Except Trouble Outcome :=
    .ok
      { exit := .wrongUse
        session := s.complain ("Error: directory not found: " ++ directory.text) }
  if directory.hasNull then some notFound
  else
    match s.storage.directory? directory with
    | .error failure => some (.error (.unreachable directory.text failure))
    | .ok none => some notFound
    | .ok (some place) =>
      match documentsIn config s.storage directory place with
      | [] =>
        some (.ok
          { exit := .ok
            session := s.print
              ("No " ++ config.sourceExtension ++ " files found in " ++ directory.text) })
      | documents =>
        let s := s.print ("Running validation on " ++ Text.natText documents.length ++ " files...")
        (runDocuments? config verbosity documents {} s).map fun result =>
          match result with
          | .error trouble => .error trouble
          | .ok (tally, s) =>
            .ok
              { exit := if tally.failed == 0 then .ok else .fileTrouble
                session := s.printAll (summaryLines tally) }

/-! ## The whole command -/

/-- Does what is asked for. -/
def perform? (config : Config) (request : Request) (s : Session) :
    Option (Except Trouble Outcome) :=
  let p := Path.ofText request.path
  if request.batch then runBatch? config request.verbosity p s
  else if !p.hasExtension config.sourceExtension then
    some (.ok { exit := .wrongUse, session := s.complain (extensionComplaint config p) })
  else if request.dumpTree then runDump? config request.verbosity p s
  else runSingle? config request.verbosity p s

/-- Runs the command with its arguments. -/
def run? (config : Config) (arguments : List String) (storage : Storage) :
    Option (Except Trouble Outcome) :=
  let s : Session := { storage }
  match interpret arguments with
  | .help => some (.ok { exit := .ok, session := { s with stdout := helpText } })
  | .version => some (.ok { exit := .ok, session := { s with stdout := versionText } })
  | .refuse refusal =>
    some (.ok
      { exit := .wrongUse
        session := { s with stderr := usage ++ "markscript: error: " ++ refusal.message ++ "\n" } })
  | .run request => perform? config request s

end PageLint.Command
