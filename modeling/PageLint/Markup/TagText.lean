import PageLint.Markup.Part
import PageLint.Text.Lower
import PageLint.Text.Search

/-!
# The text of a tag

What the text of a single tag says: the name of an opening or closing tag, and for an opening tag
its attributes and whether it closes itself.
-/

namespace PageLint.Markup

/-- A text without the angle brackets around it. -/
def withoutAngles (cs : List Char) : List Char :=
  Text.dropFinal '>' (Text.dropFirst '<' cs)

/-- The name of an opening or closing tag in lower case; empty when there is none. -/
def tagName (cs : List Char) : List Char :=
  let inner := Text.trim (Text.dropFirst '/' (Text.trim (withoutAngles (Text.trim cs))))
  Text.lower (Text.dropFinal '/' (inner.takeWhile fun c => !Text.isBlank c))

/-- Whether a tag text starts a closing tag. -/
def isClosing (cs : List Char) : Bool := ['<', '/'].isPrefixOf (Text.trimLeft cs)

/-- Whether the text of an opening tag closes the tag as well. -/
def isSelfClosing (cs : List Char) : Bool :=
  let reversed := (Text.trimRight cs).reverse
  ['>', '/'].isPrefixOf reversed || ['/', ' '].isPrefixOf reversed

/-- The inside of an opening tag, without angle brackets, a slash in front and one at the end. -/
def inside (cs : List Char) : List Char :=
  let inner := Text.trimLeft (Text.dropFirst '/' (Text.trim (withoutAngles (Text.trim cs))))
  if inner.getLast? == some '/' then Text.trimRight inner.dropLast else inner

/-- The name and value that a part of a tag gives to an attribute; a lone slash gives none. -/
def attributeOf? (part : List Char) : Option (List Char × List Char) :=
  if part.contains '=' then
    let name := part.takeWhile (· != '=')
    let value := (part.dropWhile (· != '=')).tail
    some (Text.trim name, Text.unquoted (Text.trim value))
  else if part == ['/'] then none
  else some (part, [])

/-- What an opening tag says. -/
structure TagText where
  name : List Char
  attributes : List (List Char × List Char)
  selfClosing : Bool
  deriving DecidableEq, Repr

/-- Reads the text of an opening tag; none when it has no name. -/
def TagText.read? (cs : List Char) : Option TagText :=
  match parts (inside cs) with
  | [] => none
  | name :: rest =>
    some
      { name := Text.lower name
        attributes := rest.filterMap attributeOf?
        selfClosing := isSelfClosing cs }

end PageLint.Markup
