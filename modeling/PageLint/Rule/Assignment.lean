import PageLint.Diagnostic
import PageLint.Event
import PageLint.Tree.Walk

/-!
# Assignments

Only some assignment operators are allowed. A chain of assignments is checked as a whole when its
outermost assignment is met, and its inner ones are passed over later. Where the two sides of a
plain assignment spell literals of different kinds, an event tells so.
-/

namespace PageLint.Rule

/-- The assignment operators that are allowed. -/
def allowedOperators : List String := ["=", "+=", "-=", "*=", "/=", "%="]

/-- What is wrong with the operator of an assignment. -/
def operatorFindings : Node → List Finding
  | .assignment site _ operator _ =>
    if allowedOperators.contains operator then []
    else
      [{ line := site.location.line
         description := "Invalid assignment operator: " ++ operator
         category := .assignment }]
  | _ => []

/-- The event of an assignment between literals of different kinds. -/
def kindEvents : Node → List Event
  | .assignment site target _ (some value) =>
    let targetKind := (Node.identifier target).literalKind
    let valueKind := value.literalKind
    if targetKind.conflict valueKind then
      [.kindsDiffer site.location.line targetKind valueKind]
    else []
  | _ => []

/-- Whether a node is a link of a chain that has been checked. -/
def isChecked (chained : List Nat) (v : Visit) : Bool :=
  v.inChain || v.node.label.any chained.contains

/-- The findings and events of the assignments on a walk; `chained` holds the labels of the links
of chains that have been checked. -/
def assignmentsFrom (chained : List Nat) : List Visit → List Finding × List Event
  | [] => ([], [])
  | v :: vs =>
    let links := v.node.links
    if links.isEmpty || isChecked chained v then assignmentsFrom chained vs
    else if links.length == 1 then
      let (findings, events) := assignmentsFrom chained vs
      (operatorFindings v.node ++ findings, kindEvents v.node ++ events)
    else
      let (findings, events) := assignmentsFrom (links.filterMap Node.label ++ chained) vs
      (links.flatMap operatorFindings ++ findings,
        .chainFound v.node.line v.node.chainTargets :: events)

end PageLint.Rule
