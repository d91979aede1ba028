import BlockDoc.Files.Tree
import BlockDoc.Host
import BlockDoc.Journal
import BlockDoc.Options
import BlockDoc.Tree.Load

/-!
# Settings

The settings of the program stand in a YAML file. Where there is none, or none that can be read, the
default settings hold. Only a fault of the host that is none of the text ends the program.

## Main definitions

* `Settings` — the settings
* `Settings.load` — the settings of a file
* `Settings.get`, `Settings.part` — single settings
* `Settings.parserOptions` — the options of the parser
-/

namespace BlockDoc

/-- The settings: the entries of the mapping in the settings file. -/
structure Settings where
  entries : List (Datum × Datum)

/-- Why a settings file is not used. -/
inductive SettingsFault
  | missing
  | file (f : FileFault)
  | undecodable (f : Utf8.Fault)
  | unread (f : YamlFault)
  | notMapping (kind : String)
  deriving DecidableEq, Repr

/-- What is said about a settings file of the given path for which the default settings stand in. Of
a file whose contents are malformed nothing more is said. Nothing stands in where the host has
broken off or gives no data. -/
def SettingsFault.detail? (path : String) : SettingsFault → Option String
  | .missing => some (": Configuration file not found: " ++ path)
  | .file f => some (": " ++ f.message path)
  | .undecodable f => some (": " ++ f.message)
  | .unread .malformed => some ""
  | .unread (.noValue message) => some (": " ++ message)
  | .unread .brokenOff => none
  | .unread .foreign => none
  | .notMapping kind => some (": Configuration root must be a mapping, got " ++ kind)

/-- Why the options of the parser cannot be taken from the settings. -/
inductive OptionsFault
  /-- The options are no mapping with string keys. -/
  | notNamed
  | invalid (findings : List Finding)
  deriving DecidableEq, Repr

namespace Settings

/-! ## Loading -/

/-- The format of log records where none is set. -/
def defaultFormat : String := "%(asctime)s - %(name)s - %(levelname)s - %(message)s"

/-- The settings that hold where none can be read. -/
def standard : Settings :=
  let group (name : String) (entries : List (String × Datum)) : Datum × Datum :=
    (.str name, .object entries)
  ⟨[group "parser"
      [("debug", .bool false), ("stop_on_hcl_error", .bool false),
       ("allow_downloads", .bool false), ("tfvars_paths", .list [])],
    group "logging"
      [("level", .str "INFO"), ("format", .str defaultFormat), ("file", .null)],
    group "output" [("indent", .int 2)]]⟩

/-- The settings that the contents of a file give. A value that does not count as present gives
empty settings. -/
def ofDatum (d : Datum) : Except SettingsFault Settings :=
  if !d.truthy then .ok ⟨[]⟩
  else match d with
    | .map entries => .ok ⟨entries⟩
    | d => .error (.notMapping d.kindName)

/-- The settings that the octets of a file give. -/
def ofOctets (host : Host) (octets : List UInt8) : Except SettingsFault Settings :=
  match decodeText octets with
  | .error f => .error (.undecodable f.fromTail)
  | .ok cs =>
    match host.readYaml cs with
    | .ok d => ofDatum d
    | .error f => .error (.unread f)

/-- The settings in a file. -/
def read (host : Host) (files : FileTree) (path : Path) : Except SettingsFault Settings :=
  if !files.contains path then .error .missing
  else match files.read path with
    | .error f => .error (.file f)
    | .ok octets => ofOctets host octets

/-- The settings in a file, or the default settings, or a fault for which these do not stand in. -/
def load (host : Host) (files : FileTree) (path : Path) :
    Journaled (Except SettingsFault Settings) :=
  match read host files path with
  | .ok s => do
    Journaled.note ⟨.info, "root", "Configuration loaded from " ++ path.text⟩
    return .ok s
  | .error f =>
    match f.detail? path.text with
    | none => return .error f
    | some detail => do
      Journaled.note ⟨.debug, "root", "Using default configuration" ++ detail⟩
      return .ok standard

/-! ## Single settings -/

/-- The value to which names lead in nested mappings. -/
def lookup? (d : Datum) : List String → Option Datum
  | [] => some d
  | name :: rest =>
    match d.field? name with
    | some d => lookup? d rest
    | none => none

/-- The setting under names with points between them. -/
def get? (s : Settings) (names : String) : Option Datum :=
  lookup? (.map s.entries) (Text.split '.' names)

/-- The setting under names with points between them, or a default. -/
def get (s : Settings) (names : String) (default : Datum) : Datum :=
  (s.get? names).getD default

/-- A part of the settings; empty if it does not count as present. -/
def part (s : Settings) (name : String) : Datum :=
  match Datum.member? s.entries name with
  | some d => if d.truthy then d else .map []
  | none => .map []

/-- Whether all keys of a mapping are strings. -/
def isNamed (entries : List (Datum × Datum)) : Bool :=
  entries.all fun e => match e.1 with
    | .str _ => true
    | _ => false

/-- The options of the parser. -/
def parserOptions (s : Settings) : Except OptionsFault ParserOptions :=
  match s.part "parser" with
  | .map entries =>
    if !isNamed entries then .error .notNamed
    else match ParserOptions.checkFields entries with
      | .valid o => .ok o
      | .invalid findings => .error (.invalid findings)
      | .broken _ => .error .notNamed
  | _ => .error .notNamed

/-- The name of the least level of log records. -/
def logLevel (s : Settings) : Datum :=
  s.get "logging.level" (.str "INFO")

/-- The format of log records. -/
def logFormat (s : Settings) : Datum :=
  s.get "logging.format" (.str defaultFormat)

/-- The file for log records, if there is one. -/
def logFile (s : Settings) : Datum :=
  s.get "logging.file" .null

/-- The indentation of the output. -/
def outputIndent (s : Settings) : Datum :=
  s.get "output.indent" (.int 2)

end Settings

end BlockDoc
