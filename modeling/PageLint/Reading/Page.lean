import PageLint.Markup.Span
import PageLint.Markup.TagText
import PageLint.Reading.Statement
import PageLint.Token.Stream
import PageLint.Tree.OpenTags

/-!
# Reading pages

A page is read token by token. Outside scripts, tags open and close, and text goes into the
innermost open tag. A script collects statements until it ends, and becomes a child of the tag
around it; outside all tags it is dropped.

What has been read so far is a `Progress`, which reading more tokens goes on with. Every step of
`readFrom?` takes at least one token. There is no result when the body of a function does not come
to an end.
-/

namespace PageLint

/-- A script that is being read. -/
structure Region where
  location : Location
  statements : List Node := []
  deriving Inhabited

/-- What has been read of a page. -/
structure Progress where
  forest : Forest := {}
  nextSerial : Nat := 0
  rootSerial : Option Nat := none
  doctype : Option Node := none
  elementIds : List String := []
  declaredNames : List String := []
  region : Option Region := none
  events : List Event := []
  deriving Inhabited

namespace Progress

/-- Adds an event. -/
def note (p : Progress) (e : Event) : Progress := { p with events := p.events ++ [e] }

/-! ## Tags -/

/-- Closes the innermost tag of a name, at a location of a closing tag. -/
def closeTag (p : Progress) (name : String) (location : Location) : Progress :=
  match p.forest.close? name with
  | some forest => { p with forest }
  | none => p.note (.closeUnmatched name location)

/-- The values of the attributes that give an element its id. -/
def idsOf (attributes : List Attribute) : List String :=
  (attributes.filter fun a => lowered a.name == "id").map Attribute.value

/-- The opening tag of a tag text at a location. -/
def openingOf (serial : Nat) (location : Location) (tag : Markup.TagText) : Opening :=
  { serial
    name := String.ofList tag.name
    location
    attributes := tag.attributes.map fun (name, value) =>
      { site := { location }, name := String.ofList name, value := String.ofList value }
    selfClosing := tag.selfClosing }

/-- Adds an element at its opening tag; it stays open unless it closes itself or never has
contents. -/
def openTag (config : Config) (p : Progress) (opening : Opening) : Progress :=
  let frame : Frame := { opening }
  let forest :=
    if opening.selfClosing || config.voidElements.contains opening.name then
      p.forest.addFrame frame
    else p.forest.openFrame frame
  { p with
    forest
    nextSerial := p.nextSerial + 1
    rootSerial :=
      if p.rootSerial.isNone && opening.name == "html" then some opening.serial else p.rootSerial
    elementIds := p.elementIds ++ idsOf opening.attributes }

/-- Takes one span of a token of opening tags. -/
def readSpan (config : Config) (token : Token) (p : Progress) (span : Markup.Span) : Progress :=
  let location :=
    if span.offset == 0 then token.location
    else token.location.shifted (token.text.toList.take span.offset)
  if Markup.isClosing span.text then
    p.closeTag (String.ofList (Markup.tagName span.text)) location
  else
    match Markup.TagText.read? span.text with
    | none => p
    | some tag => p.openTag config (openingOf p.nextSerial location tag)

/-! ## Tokens outside scripts -/

/-- The node of a doctype. -/
def doctypeNode (t : Token) : Node := .tag { location := t.location } "!DOCTYPE" [] [] false false

/-- Takes one token outside scripts. -/
def readMarkup (config : Config) (p : Progress) (t : Token) : Progress :=
  match t.kind with
  | .doctype => if p.doctype.isNone then { p with doctype := some (doctypeNode t) } else p
  | .tagOpen => (Markup.spans t.text.toList).foldl (readSpan config t) p
  | .tagClose => p.closeTag (String.ofList (Markup.tagName t.text.toList)) t.location
  | .text =>
    if t.text.isEmpty then p
    else { p with forest := p.forest.addLeaf (.text { location := t.location } t.text) }
  | .scriptOpen => { p with region := some { location := t.location } }
  | _ => p

/-! ## Scripts -/

/-- Ends a script and hands it to the tag around it. -/
def closeScript (p : Progress) (region : Region) : Progress :=
  let p := { p with region := none }
  if p.forest.openTags.isEmpty then
    if region.statements.isEmpty then p else p.note (.scriptDropped region.location)
  else
    { p with
      forest := p.forest.addLeaf (.script { location := region.location } region.statements) }

/-- Adds what a statement of a script gives. -/
def collect (p : Progress) (region : Region) (found : Harvest) : Progress :=
  { p with
    region := some { region with statements := region.statements ++ found.statements }
    declaredNames := p.declaredNames ++ found.declared
    events := p.events ++ found.events }

/-- Ends a script that is still open. -/
def finish (p : Progress) : Progress :=
  match p.region with
  | some region => p.closeScript region
  | none => p

/-! ## Whole pages -/

/-- Reads tokens up to the end of the input. -/
def readFrom? (config : Config) (p : Progress) (ts : List Token) : Option Progress :=
  match ts with
  | [] => some p.finish
  | t :: ts =>
    if t.kind == .eof then some p.finish
    else
      match p.region with
      | none => readFrom? config (p.readMarkup config t) ts
      | some region =>
        if t.kind == .scriptClose then readFrom? config (p.closeScript region) ts
        else
          match readStatement? config t ts with
          | none => none
          | some found =>
            if found.rest.length < (t :: ts).length then
              readFrom? config (p.collect region found) found.rest
            else readFrom? config (p.collect region found) ts
termination_by ts.length
decreasing_by all_goals simp only [List.length_cons] at *; omega

/-- The document that has been read. -/
def document? (file : Option String) (p : Progress) : Option Document := do
  let frozen ← freeze? p.forest.frames
  let root ←
    match p.rootSerial with
    | none => some none
    | some serial => (frozen.built.lookup serial).map some
  return {
    site := { location := { line := 1, column := 1, file } }
    children := frozen.tags
    doctype := p.doctype
    root }

end Progress

/-- A page that has been read: its document, the ids of its elements and the names it declares, in
order and with repetitions, and the tags left open, outermost first. -/
structure Page where
  document : Document
  elementIds : List String
  declaredNames : List String
  openTags : List String
  events : List Event
  deriving Inhabited

/-- The page that has been read. -/
def Progress.page? (file : Option String) (p : Progress) : Option Page :=
  (p.document? file).map fun document =>
    { document
      elementIds := p.elementIds
      declaredNames := p.declaredNames
      openTags := p.forest.openTags.names
      events := p.events }

/-- Reads the same tokens a number of times, each time going on from where the last ended. -/
def Progress.readTimes? (config : Config) (ts : List Token) : Nat → Progress → Option Progress
  | 0, p => some p
  | n + 1, p => (p.readFrom? config ts).bind (readTimes? config ts n)

/-- Reads a list of tokens as a page. -/
def readTokens? (config : Config) (ts : List Token) (file : Option String) : Option Page :=
  (({} : Progress).readFrom? config ts).bind fun p => p.page? file

/-- Reads the source of a page. -/
def readPage? (config : Config) (source : String) (file : Option String) : Option Page :=
  let scanned := scan source file
  (({ events := scanned.events } : Progress).readFrom? config scanned.tokens).bind fun p =>
    p.page? file

end PageLint
