import PageLint.Analysis
import PageLint.Files.Storage
import PageLint.Report
import PageLint.Text.Utf8

/-!
# Checking files

Reads a document from a storage, analyses it and writes the report beside it. A document that
cannot be read and a report that cannot be written are troubles of their own; a path that holds a
null character or makes no report name is refused as it is.
-/

namespace PageLint

/-- What can go wrong with files. -/
inductive Trouble where
  /-- A document cannot be read or a report cannot be written. -/
  | report (path detail : String)
  /-- A path does not give the path of a report. -/
  | badPath (fault : Path.Fault)
  /-- A path holds a null character. -/
  | nullByte
  /-- A path cannot be looked at. -/
  | unreachable (path : String) (failure : Storage.Failure)
  deriving DecidableEq, Repr

/-- The wording of a trouble. -/
def Trouble.message : Trouble → String
  | report path detail => path ++ ": " ++ detail
  | badPath fault => fault.message
  | nullByte => "embedded null byte"
  | unreachable path failure => failure.message path

/-- Whether a path holds a null character. -/
def Path.hasNull (p : Path) : Bool := p.text.toList.contains '\x00'

/-- Reads a document; `shown` is its path as it is told. -/
def readSource (s : Storage) (p : Path) (shown : String) : Except Trouble String :=
  let refuse (cause : String) : Except Trouble String :=
    .error (.report shown ("cannot read source: " ++ cause))
  if p.hasNull then .error .nullByte
  else
    match s.read p with
    | .error failure => refuse (failure.message p.text)
    | .ok data =>
      match Text.Utf8.decode data with
      | .error fault => refuse fault.message
      | .ok chars => .ok (String.ofList (Text.unifyLineEnds chars))

/-- A report that has been written: where, the storage that holds it and what is told of it. -/
structure Written where
  path : Path
  storage : Storage
  event : Event

/-- Writes the report of a source at a path, which is read again first. -/
def writeReport (s : Storage) (source : String) (ds : List Diagnostic) (target : Path) :
    Except Trouble Written :=
  let p := target.reread
  if p.hasNull then .error .nullByte
  else
    let text := Report.format source ds
    match s.write p (Text.Utf8.encode text) with
    | .error failure => .error (.report p.text ("cannot write report: " ++ failure.message p.text))
    | .ok storage => .ok { path := p, storage, event := .reportWritten p.text text.length }

/-- What checking a file gives: the storage and the events in any case, and the analysis with the
path of the report if all went well. -/
structure FileCheck where
  storage : Storage
  events : List Event := []
  result : Except Trouble (Analysis × Path)

/-- Writes the report of an analysis of a document. -/
def reportOn (config : Config) (s : Storage) (p : Path) (source : String) (a : Analysis) :
    FileCheck :=
  match p.report config with
  | .error fault => { storage := s, events := a.events, result := .error (.badPath fault) }
  | .ok target =>
    match writeReport s source a.diagnostics target with
    | .error trouble => { storage := s, events := a.events, result := .error trouble }
    | .ok written =>
      { storage := written.storage
        events := a.events
          ++ [written.event, .documentFinished p.text a.diagnostics.length written.path.text]
        result := .ok (a, target) }

/-- Checks a document and writes its report. There is no result when the document cannot be read to
its end. -/
def checkFile? (config : Config) (s : Storage) (p : Path) : Option FileCheck :=
  match readSource s p p.text with
  | .error trouble => some { storage := s, result := .error trouble }
  | .ok source => (analyze? config source (some p.text)).map (reportOn config s p source)

end PageLint
