import PageLint.Config
import PageLint.Diagnostic
import PageLint.Tree.Node

/-!
# The skeleton of a page

A page declares its doctype near the top and has an `html` tag with a `head` and a `body` directly
inside.
-/

namespace PageLint.Rule

/-- A finding about the skeleton. -/
def skeletonFinding (line : Int) (description : String) : Finding :=
  { line, description, category := .htmlStructure }

/-- What the pass over the doctype finds. -/
def doctypeFindings (config : Config) (document : Document) : List Finding :=
  match document.doctype with
  | none =>
    [skeletonFinding 1 "Missing DOCTYPE declaration. Must be <!DOCTYPE html> at the beginning"]
  | some doctype =>
    if config.doctypeMaxLine < doctype.line then
      [skeletonFinding doctype.line
        "DOCTYPE declaration must be at the very beginning of the document"]
    else []

/-- Whether a node is a tag with a name, in lower case. -/
def isTagNamed (name : String) (n : Node) : Bool :=
  match n.tagName? with
  | some tagName => lowered tagName == name
  | none => false

/-- Whether a node has the name `html`, in lower case. -/
def isHtml (n : Node) : Bool := n.name?.any fun name => lowered name == "html"

/-- The `html` tag of a document: its root, or else the first top-level node of that name. -/
def htmlTag? (document : Document) : Option Node :=
  match document.root with
  | some root => some root
  | none => document.children.find? isHtml

/-- What stands in the way of looking for the `html` tag: a top-level node without a name before
it. Documents with tags alone at the top level have nothing of the kind. -/
def htmlLack? (document : Document) : Option Node.Lack :=
  match document.root with
  | some _ => none
  | none => (document.children.takeWhile fun n => !isHtml n).findSome? Node.nameLack?

/-- What stands in the way of the pass over the skeleton; the `html` tag has to be a tag as
well. -/
def skeletonLack? (document : Document) : Option Node.Lack :=
  (htmlLack? document).or ((htmlTag? document).bind (Node.tagLack? "child_tags"))

/-- What the pass over the skeleton finds. -/
def skeletonFindings (document : Document) : List Finding :=
  match htmlTag? document with
  | none =>
    [skeletonFinding 1
      "Missing <html> tag. Required structure: <!DOCTYPE html> -> <html> -> <head> -> <body>"]
  | some html =>
    (if html.children.any (isTagNamed "head") then []
      else [skeletonFinding html.line
        "Missing <head> tag. Required structure: <html> -> <head> -> <body>"])
    ++ (if html.children.any (isTagNamed "body") then []
      else [skeletonFinding html.line
        "Missing <body> tag. Required structure: <html> -> <head> -> <body>"])

end PageLint.Rule
