import PageLint.Text.CharClass
import PageLint.Text.Display

/-!
# Command line arguments

One path and a few switches. A switch may be given by any beginning of its long name that fits no
other, short switches may be run together, and after a double dash everything is a path. All
arguments are told apart first; then they are taken in order, and asking for help or for the
version ends that at once.
-/

namespace PageLint.Command

/-- The switches. -/
inductive Switch where
  | help
  | batch
  | dumpTree
  | verbose
  | version
  deriving DecidableEq, Repr

/-- The names of the switches. -/
def switchNames : List (String × Switch) :=
  [("-h", .help), ("--help", .help), ("--batch", .batch), ("--dump-ast", .dumpTree),
    ("-v", .verbose), ("--verbose", .verbose), ("--version", .version)]

/-- All names of a switch, as told in messages. -/
def Switch.title : Switch → String
  | help => "-h/--help"
  | batch => "--batch"
  | dumpTree => "--dump-ast"
  | verbose => "-v/--verbose"
  | version => "--version"

/-- What is asked for. -/
structure Request where
  path : String := ""
  batch : Bool := false
  dumpTree : Bool := false
  verbosity : Nat := 0
  deriving DecidableEq, Repr, Inhabited

/-- Why arguments are refused. -/
inductive Refusal where
  | ambiguous (argument : String) (names : List String)
  | uselessValue (switch : Switch) (value : String)
  | pathMissing
  | unrecognized (arguments : List String)
  deriving DecidableEq, Repr

/-- The wording of a refusal. -/
def Refusal.message : Refusal → String
  | ambiguous argument names =>
    "ambiguous option: " ++ argument ++ " could match " ++ String.intercalate ", " names
  | uselessValue switch value =>
    "argument " ++ switch.title ++ ": ignored explicit argument " ++ Text.displayText value
  | pathMissing => "the following arguments are required: path"
  | unrecognized arguments => "unrecognized arguments: " ++ String.intercalate " " arguments

/-! ## Telling arguments apart -/

/-- What an argument is. -/
inductive Word where
  | plain (text : String)
  | dashes
  | switch (switch : Switch) (name : String) (value : Option String)
  | unknown (text : String)
  deriving DecidableEq, Repr

/-- A text at its first equals sign. -/
def splitEquals (cs : List Char) : List Char × Option (List Char) :=
  match cs.dropWhile (· != '=') with
  | [] => (cs, none)
  | _ :: value => (cs.takeWhile (· != '='), some value)

/-- Whether a text is a negative number: digits after a dash, with a point or without. One newline
may follow. -/
def isNegativeNumber (cs : List Char) : Bool :=
  match cs with
  | '-' :: rest =>
    let body := if rest.getLast? == some '\n' then rest.dropLast else rest
    let after := body.dropWhile Text.isDecimal
    match after with
    | [] => !body.isEmpty
    | c :: fraction => c == '.' && !fraction.isEmpty && fraction.all Text.isDecimal
  | _ => false

/-- The switches that an argument may stand for, in the order of their names. -/
def candidates (cs : List Char) : List (Switch × String × Option String) :=
  if ['-', '-'].isPrefixOf cs then
    let (name, value) := splitEquals cs
    switchNames.filterMap fun (full, switch) =>
      if name.isPrefixOf full.toList then some (switch, full, value.map String.ofList) else none
  else
    switchNames.filterMap fun (full, switch) =>
      if full.toList == cs.take 2 then some (switch, full, some (String.ofList (cs.drop 2)))
      else if cs.isPrefixOf full.toList then some (switch, full, none)
      else none

/-- The switch that an argument names in full, with the value after an equals sign. -/
def exactSwitch? (argument : String) : Option Word :=
  match switchNames.lookup argument with
  | some switch => some (.switch switch argument none)
  | none =>
    match splitEquals argument.toList with
    | (_, none) => none
    | (name, some value) =>
      let name := String.ofList name
      (switchNames.lookup name).map fun switch => .switch switch name (some (String.ofList value))

/-- Tells what an argument before a double dash is. -/
def classify (argument : String) : Except Refusal Word :=
  let cs := argument.toList
  if cs.head? != some '-' || cs.length == 1 then .ok (.plain argument)
  else
    match exactSwitch? argument with
    | some word => .ok word
    | none =>
      match candidates cs with
      | [(switch, name, value)] => .ok (.switch switch name value)
      | [] =>
        if isNegativeNumber cs || cs.contains ' ' then .ok (.plain argument)
        else .ok (.unknown argument)
      | several => .error (.ambiguous argument (several.map fun c => c.2.1))

/-- Tells all arguments apart. -/
def classifyAll : List String → Except Refusal (List Word)
  | [] => .ok []
  | argument :: rest =>
    if argument == "--" then .ok (.dashes :: rest.map .plain)
    else do
      let word ← classify argument
      let words ← classifyAll rest
      return word :: words

/-! ## Taking arguments -/

/-- The switches that one argument asks for: short ones may be run together, and no switch takes a
value. -/
def switchesOf (switch : Switch) (isShort : Bool) : List Char → Except Refusal (List Switch)
  | [] => .ok [switch]
  | c :: cs =>
    let refused : Except Refusal (List Switch) :=
      .error (.uselessValue switch (String.ofList (c :: cs)))
    if isShort then
      match switchNames.lookup (String.ofList ['-', c]) with
      | none => refused
      | some next => (switchesOf next true cs).map (switch :: ·)
    else refused

/-- The switches of an argument with its value. -/
def expand (switch : Switch) (name : String) (value : Option String) :
    Except Refusal (List Switch) :=
  match value with
  | none => .ok [switch]
  | some value =>
    if value.isEmpty then .error (.uselessValue switch value)
    else switchesOf switch (name.toList.length == 2) value.toList

/-- What the arguments so far come to. -/
structure Taken where
  request : Request := {}
  path : Option String := none
  extras : List String := []

/-- What arguments come to in the end. -/
inductive Decision where
  | run (request : Request)
  | help
  | version
  | refuse (refusal : Refusal)
  deriving DecidableEq, Repr

/-- Takes switches in order; help and version end it. -/
def takeSwitches (taken : Taken) : List Switch → Except Decision Taken
  | [] => .ok taken
  | .help :: _ => .error .help
  | .version :: _ => .error .version
  | .batch :: rest =>
    takeSwitches { taken with request := { taken.request with batch := true } } rest
  | .dumpTree :: rest =>
    takeSwitches { taken with request := { taken.request with dumpTree := true } } rest
  | .verbose :: rest =>
    takeSwitches
      { taken with request := { taken.request with verbosity := taken.request.verbosity + 1 } } rest

/-- The decision when no argument is left. -/
def settle (taken : Taken) : Decision :=
  match taken.path with
  | none => .refuse .pathMissing
  | some path =>
    if taken.extras.isEmpty then .run { taken.request with path }
    else .refuse (.unrecognized taken.extras)

/-- The arguments after a double dash that stands right after a path. -/
def dropDashes : List Word → List Word
  | .dashes :: rest => rest
  | words => words

/-- Takes arguments in order. The first plain one is the path, and a double dash right before or
after it belongs to it. -/
def takeWords (taken : Taken) (words : List Word) : Decision :=
  match words with
  | [] => settle taken
  | .switch switch name value :: rest =>
    match expand switch name value with
    | .error refusal => .refuse refusal
    | .ok switches =>
      match takeSwitches taken switches with
      | .error decision => decision
      | .ok taken => takeWords taken rest
  | .unknown text :: rest => takeWords { taken with extras := taken.extras ++ [text] } rest
  | .dashes :: rest =>
    if taken.path.isNone && !rest.isEmpty then takeWords taken rest
    else takeWords { taken with extras := taken.extras ++ ["--"] } rest
  | .plain text :: rest =>
    if taken.path.isNone then
      have : (dropDashes rest).length ≤ rest.length := by
        unfold dropDashes; split <;> simp
      takeWords { taken with path := some text } (dropDashes rest)
    else takeWords { taken with extras := taken.extras ++ [text] } rest
termination_by words.length
decreasing_by all_goals simp only [List.length_cons]; omega

/-- What the arguments of a command line come to. -/
def interpret (arguments : List String) : Decision :=
  match classifyAll arguments with
  | .error refusal => .refuse refusal
  | .ok words => takeWords {} words

end PageLint.Command
