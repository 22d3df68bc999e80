import PageLint.Rule.Assignment
import PageLint.Rule.Constant
import PageLint.Rule.Function
import PageLint.Rule.Lookup
import PageLint.Rule.Skeleton

/-!
# Passes

The eight passes over a document. Each looks at the document on its own and gives its findings,
which go into the collector in the order in which the passes run.
-/

namespace PageLint

/-- The passes, in the order in which they run. -/
inductive Pass where
  | identifiers
  | constants
  | assignments
  | functions
  | dataInput
  | dataOutput
  | doctype
  | skeleton
  deriving DecidableEq, Repr, Inhabited

namespace Pass

/-- All passes, in the order in which they run. -/
def all : List Pass :=
  [identifiers, constants, assignments, functions, dataInput, dataOutput, doctype, skeleton]

/-- The name of a pass. -/
def label : Pass → String
  | identifiers => "identifiers"
  | constants => "constants"
  | assignments => "assignments"
  | functions => "functions"
  | dataInput => "data-input"
  | dataOutput => "data-output"
  | doctype => "doctype"
  | skeleton => "skeleton"

/-- The pass with a given name. -/
def ofLabel? (label : String) : Option Pass := all.find? fun p => p.label == label

/-- What a pass finds in a document whose elements have the given ids, and its events. -/
def run (config : Config) (ids : List String) (document : Document) :
    Pass → List Finding × List Event
  | identifiers => (document.toNode.walk.flatMap Rule.identifierRule, [])
  | constants => (document.toNode.walk.flatMap Rule.constantRule, [])
  | assignments => Rule.assignmentsFrom [] document.toNode.visits
  | functions => (document.toNode.walk.flatMap Rule.functionRule, [])
  | dataInput => (document.toNode.walk.flatMap (Rule.dataInputRule ids), [])
  | dataOutput => (document.toNode.walk.flatMap (Rule.dataOutputRule ids), [])
  | doctype => (Rule.doctypeFindings config document, [])
  | skeleton => (Rule.skeletonFindings document, [])

/-- What stands in the way of a pass over a document that was put together by hand. -/
def lack? (document : Document) : Pass → Option Node.Lack
  | skeleton => Rule.skeletonLack? document
  | _ => none

/-! ## Passes that are not running -/

/-- The full name of a pass. -/
def fullName : Pass → String
  | identifiers => "IdentifierValidator"
  | constants => "ConstantValidator"
  | assignments => "AssignmentValidator"
  | functions => "FunctionValidator"
  | dataInput => "DataInputValidator"
  | dataOutput => "DataOutputValidator"
  | doctype => "DoctypeValidator"
  | skeleton => "SkeletonValidator"

/-- Why a pass that is not running has no collector to report to: the passes that walk the tree
have one only during a run, the passes over the skeleton never. -/
inductive IdleFault where
  | notRunning (pass : Pass)
  | noCollector (pass : Pass)
  deriving DecidableEq, Repr

/-- What asking an idle pass for its collector gives. -/
def idleFault (pass : Pass) : IdleFault :=
  match pass with
  | doctype | skeleton => .noCollector pass
  | _ => .notRunning pass

/-- The wording of the fault of an idle pass. -/
def IdleFault.message : IdleFault → String
  | notRunning pass => pass.fullName ++ " used outside validate()"
  | noCollector pass => "'" ++ pass.fullName ++ "' object has no attribute 'collector'"

end Pass

/-- Runs passes in order; each adds its findings to the collector. -/
def runPasses (config : Config) (ids : List String) (document : Document) :
    List Pass → Collector → Collector × List Event
  | [], collector => (collector, [])
  | pass :: passes, collector =>
    let (findings, events) := pass.run config ids document
    let collected := collector.addAll findings
    let (final, more) := runPasses config ids document passes collected
    (final,
      events ++ .passFinished pass.label (collected.count - collector.count) :: more)

/-- Runs all passes. -/
def validate (config : Config) (ids : List String) (document : Document) (collector : Collector) :
    Collector × List Event :=
  runPasses config ids document Pass.all collector

end PageLint
