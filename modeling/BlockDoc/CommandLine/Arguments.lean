import BlockDoc.Options
import BlockDoc.Text.Digit
import BlockDoc.Text.Lines
import BlockDoc.Text.Quoted

/-!
# Command line arguments

The program takes options and no other arguments. An option may be abbreviated as long as no other
option starts like that, and its value may stand in the same word or in the next one.

## Main definitions

* `Flag` — the options
* `Word.classify` — what a word of the command line is
* `Arguments` — the settings that the options give
* `Arguments.parse` — the settings that the words give, or why the run stops at once
-/

namespace BlockDoc

/-- The options. -/
inductive Flag
  | help
  | importer
  | tree
  | output
  | config
  | debug
  | stopOnError
  | allowDownloads
  | variableFile
  | version
  deriving DecidableEq, Repr

namespace Flag

/-- All options, in the order in which they are looked through. -/
def all : List Flag :=
  [.help, .importer, .tree, .output, .config, .debug, .stopOnError, .allowDownloads,
   .variableFile, .version]

/-- The names of an option. -/
def names : Flag → List String
  | .help => ["-h", "--help"]
  | .importer => ["--importer"]
  | .tree => ["--tree"]
  | .output => ["--output", "-o"]
  | .config => ["--config"]
  | .debug => ["--debug"]
  | .stopOnError => ["--stop-on-hcl-error"]
  | .allowDownloads => ["--allow-downloads"]
  | .variableFile => ["--var-file"]
  | .version => ["--version"]

/-- Whether an option has a value. -/
def takesValue : Flag → Bool
  | .importer | .tree | .output | .config | .variableFile => true
  | _ => false

/-- The names of all options with the options. -/
def table : List (String × Flag) :=
  all.flatMap fun f => f.names.map fun name => (name, f)

/-- The option of a name. -/
def ofName? (name : String) : Option Flag :=
  Table.find? table name

end Flag

/-- Why a run stops before it has started. -/
inductive Stop
  | help
  | version
  /-- The command line is at fault. -/
  | usage (message : String)
  deriving DecidableEq, Repr

/-- The fault of a single option. -/
def Stop.ofFlag (f : Flag) (problem : String) : Stop :=
  .usage ("argument " ++ Text.joinWith "/" f.names ++ ": " ++ problem)

/-! ## Words -/

/-- The value that stands in the word of an option: after an equality sign, or right after the
letter of the option. -/
inductive InlineValue
  | assigned (s : String)
  | joined (s : String)

/-- The text of a value. -/
def InlineValue.text : InlineValue → String
  | .assigned s => s
  | .joined s => s

/-- What a word of the command line is: an option under one of its names, possibly with a value; a
word that looks like an option and is none; the mark that ends the options; or something else. -/
inductive Word
  | option (f : Flag) (name : String) (value : Option InlineValue)
  | unknown (s : String)
  | endMark
  | plain (s : String)

namespace Word

/-- A word cut at its first equality sign. -/
def cutAtEquals? (s : String) : Option (String × String) :=
  let cs := s.toList
  match cs.dropWhile (· ≠ '=') with
  | [] => none
  | _ :: value => some (String.ofList (cs.takeWhile (· ≠ '=')), String.ofList value)

/-- Whether a text starts with another one. -/
def startsWith (s start : String) : Bool :=
  start.toList.isPrefixOf s.toList

/-- The options as whose abbreviation a word with two hyphens can be read. -/
def longReadings (s : String) : List Word :=
  let (name, value) := match cutAtEquals? s with
    | some (name, value) => (name, some (InlineValue.assigned value))
    | none => (s, none)
  (Flag.table.filter fun e => startsWith e.1 name).map fun e => .option e.2 e.1 value

/-- The options as which a word with one hyphen can be read: one of a single letter with the value
right after it, or an abbreviation. -/
def shortReadings (s : String) : List Word :=
  let cs := s.toList
  Flag.table.filterMap fun e =>
    if e.1.toList = cs.take 2 then
      some (.option e.2 e.1 (some (.joined (String.ofList (cs.drop 2)))))
    else if startsWith e.1 s then some (.option e.2 e.1 none)
    else none

/-- The options as which a word can be read. -/
def readings (s : String) : List Word :=
  match s.toList with
  | '-' :: '-' :: _ => longReadings s
  | _ => shortReadings s

/-- The name of the option of a word. -/
def optionName : Word → String
  | .option _ name _ => name
  | .unknown s => s
  | .endMark => "--"
  | .plain s => s

/-- Whether characters are decimal digits. -/
def areDigits (cs : List Char) : Bool :=
  cs.all fun c => (Text.digitValue? c).isSome

/-- Whether a word is a negative number: a minus and digits, possibly with a point before the last
of them. -/
def isNegativeNumber (s : String) : Bool :=
  match s.toList with
  | '-' :: cs =>
    match cs.dropWhile (· ≠ '.') with
    | [] => !cs.isEmpty && areDigits cs
    | _ :: fraction => areDigits (cs.takeWhile (· ≠ '.')) && !fraction.isEmpty && areDigits fraction
  | _ => false

/-- A word that has no reading as an option. -/
def ofOther (s : String) : Word :=
  if isNegativeNumber s || s.toList.contains ' ' then .plain s else .unknown s

/-- A word that starts with a hyphen and is not the name of an option: its only reading, if it has
one. -/
def ofAbbreviation (s : String) : Except Stop Word :=
  match readings s with
  | [] => .ok (ofOther s)
  | [w] => .ok w
  | ws =>
    .error (.usage ("ambiguous option: " ++ s ++ " could match " ++
      Text.joinWith ", " (ws.map optionName)))

/-- A word that starts with a hyphen and has something after it. -/
def ofHyphened (s : String) : Except Stop Word :=
  match Flag.ofName? s with
  | some f => .ok (.option f s none)
  | none =>
    match cutAtEquals? s with
    | none => ofAbbreviation s
    | some (name, value) =>
      match Flag.ofName? name with
      | some f => .ok (.option f name (some (.assigned value)))
      | none => ofAbbreviation s

/-- What a single word is. -/
def ofText (s : String) : Except Stop Word :=
  match s.toList with
  | '-' :: _ :: _ => ofHyphened s
  | _ => .ok (.plain s)

/-- What the words of a command line are. After the mark that ends the options, there are no
options. -/
def classify : List String → Except Stop (List Word)
  | [] => .ok []
  | s :: rest =>
    if s = "--" then .ok (.endMark :: rest.map .plain)
    else do
      let w ← ofText s
      let ws ← classify rest
      return w :: ws

end Word

/-! ## Arguments -/

/-- The settings that the options give. -/
structure Arguments where
  importer : String := "tree"
  tree : Option String := none
  output : Option String := none
  config : Option String := none
  debug : Bool := false
  stopOnError : Bool := false
  allowDownloads : Bool := false
  variableFiles : List String := []
  deriving DecidableEq, Repr

namespace Arguments

/-- The names of the importers. -/
def importers : List String := ["tree", "mock"]

/-- The fault of a name that is none of an importer. -/
def unknownImporter (s : String) : Stop :=
  .ofFlag .importer <|
    "invalid choice: " ++ Text.quoted s ++ " (choose from " ++
      Text.joinWith ", " (importers.map Text.quoted) ++ ")"

/-- The settings after an option with a value. -/
def setValue (a : Arguments) (f : Flag) (value : String) : Except Stop Arguments :=
  match f with
  | .importer =>
    if importers.contains value then .ok { a with importer := value }
    else .error (unknownImporter value)
  | .tree => .ok { a with tree := some value }
  | .output => .ok { a with output := some value }
  | .config => .ok { a with config := some value }
  | .variableFile => .ok { a with variableFiles := a.variableFiles ++ [value] }
  | _ => .ok a

/-- The settings after an option without a value, or the stop that it calls for. -/
def setSwitch (a : Arguments) : Flag → Except Stop Arguments
  | .help => .error .help
  | .version => .error .version
  | .debug => .ok { a with debug := true }
  | .stopOnError => .ok { a with stopOnError := true }
  | .allowDownloads => .ok { a with allowDownloads := true }
  | _ => .ok a

/-- The fault of a value where none is called for. -/
def ignoredValue (f : Flag) (value : String) : Stop :=
  .ofFlag f ("ignored explicit argument " ++ Text.quoted value)

/-- The fault of an option that lacks its value. -/
def missingValue (f : Flag) : Stop :=
  .ofFlag f "expected one argument"

/-- The stop that the option of help calls for when letters follow it in its word. They are options
of a single letter as long as there are such options; the last of these may take the rest of the
word, or the next one, as its value. -/
def clusteredHelp (nextIsValue : Bool) : List Char → Stop
  | [] => .help
  | '-' :: cs => ignoredValue .help (String.ofList ('-' :: cs))
  | 'h' :: '=' :: cs => ignoredValue .help (String.ofList cs)
  | 'h' :: cs => clusteredHelp nextIsValue cs
  | ['o'] => if nextIsValue then .help else missingValue .output
  | _ => .help

/-- The stop that an option without a value calls for when it is given one. -/
def valueOnSwitch (f : Flag) (value : InlineValue) (nextIsValue : Bool) : Stop :=
  match value with
  | .assigned s => ignoredValue f s
  | .joined s => clusteredHelp nextIsValue s.toList

/-- Whether the first word can be a value. -/
def startsPlain : List Word → Bool
  | .plain _ :: _ => true
  | _ => false

/-- The settings that words give, and the words that are not understood. -/
def apply (a : Arguments) (extras : List String) : List Word → Except Stop (Arguments × List String)
  | [] => .ok (a, extras)
  | .plain s :: rest => apply a (extras ++ [s]) rest
  | .unknown s :: rest => apply a (extras ++ [s]) rest
  | .endMark :: rest => apply a (extras ++ ["--"]) rest
  | .option f _ (some value) :: rest =>
    if f.takesValue then do apply (← a.setValue f value.text) extras rest
    else .error (valueOnSwitch f value (startsPlain rest))
  | .option f _ none :: rest =>
    if f.takesValue then
      match rest with
      | .plain value :: rest => do apply (← a.setValue f value) extras rest
      | _ => .error (missingValue f)
    else do apply (← a.setSwitch f) extras rest

/-- The settings that the words of a command line give. -/
def parse (words : List String) : Except Stop Arguments := do
  let ws ← Word.classify words
  let (a, extras) ← apply {} [] ws
  if extras.isEmpty then return a
  else throw (.usage ("unrecognized arguments: " ++ Text.joinWith " " extras))

/-- The options of the parser, with those of the command line over the given ones. -/
def overlay (a : Arguments) (o : ParserOptions) : ParserOptions where
  debug := o.debug || a.debug
  stopOnError := o.stopOnError || a.stopOnError
  allowDownloads := o.allowDownloads || a.allowDownloads
  variableFiles := o.variableFiles ++ a.variableFiles

/-- The name of the file for the document. An empty name counts as none. -/
def outputName? (a : Arguments) : Option String :=
  a.output.filter (· ≠ "")

end Arguments

end BlockDoc
