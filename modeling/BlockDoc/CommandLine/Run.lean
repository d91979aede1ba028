import BlockDoc.CommandLine.Arguments
import BlockDoc.Conversion
import BlockDoc.Json.Writer
import BlockDoc.Logging
import BlockDoc.Sample
import BlockDoc.Settings
import BlockDoc.Tree.Importer

/-!
# A run of the program

A run reads its arguments and its settings, sets up its log, converts the block tree, and writes the
document to a file or to standard output. What it notes stands in the log file before its next step,
so a step may find there what has been noted before. Faults that are foreseen end the run with a
status of one; any other fault ends it with that fault.

## Main definitions

* `RunFault` — the faults that can end a run
* `RunFault.failure?` — what a run reports on a fault that is foreseen
* `World` — what has been printed, and the files
* `Action` — a step of a run; what it has done before a fault stays done
* `writeOutput` — the step that writes a document
* `Report` — what a run leaves behind
* `run` — a run
-/

namespace BlockDoc

/-- The faults that can end a run after its log has been set up. -/
inductive RunFault
  | options (f : OptionsFault)
  /-- A tree is called for and none is named. -/
  | noTree
  | load (f : LoadFault)
  | conversion (f : ConversionFault)
  /-- The indentation is of a kind that cannot be used. -/
  | indent
  /-- An integer of the document has too many digits. -/
  | oversizedInteger
  | file (f : FileFault) (name : String)
  deriving DecidableEq, Repr

/-- The message for a tree that is called for and not named. -/
def noTreeText : String := "--tree is required for the tree importer"

/-- The message for an integer of too many digits in a document. -/
def oversizedOutputText : String :=
  "Exceeds the limit (4300 digits) for integer string conversion; " ++
    "use sys.set_int_max_str_digits() to increase the limit"

/-- What follows on the statement that a run has failed, for faults that are foreseen. -/
def LoadFault.failure? (path : String) : LoadFault → Option String
  | .refused r => some (": " ++ r.message path)
  | .undecodable f => some (": " ++ f.message)
  | .oversizedInteger digits => some (": " ++ oversizedText digits)
  | .unread (.noValue message) => some (": " ++ message)
  | .unread _ => none
  | .tooDeep => none
  | .broken _ => none

/-- What follows on the statement that a run has failed, for faults that are foreseen. The tree is
in the file `path`. -/
def RunFault.failure? (path : String) : RunFault → Option String
  | .options .notNamed => none
  | .options (.invalid _) => some ""
  | .noTree => some (": " ++ noTreeText)
  | .load f => f.failure? path
  | .conversion (.conflict e) => some (": " ++ e.message)
  | .conversion (.build .notText) => none
  | .indent => none
  | .oversizedInteger => some (": " ++ oversizedOutputText)
  | .file f name => some (": " ++ f.message name)

/-! ## Importers -/

/-- Where the modules come from. -/
inductive Importer
  | sample
  | tree (t : TreeImporter)

/-- The importer that arguments call for. -/
def Importer.create (importer : String) (tree : Option String) (options : ParserOptions) :
    Attempt RunFault Importer :=
  if importer = "mock" then pure .sample
  else
    let name := tree.getD ""
    if name = "" then throw .noTree
    else liftM (Importer.tree <$> TreeImporter.start name options)

/-- The modules of an importer with their lineage. -/
def Importer.modules (host : Host) (files : FileTree) :
    Importer → Attempt RunFault (List Module × Lineage)
  | .sample => pure (Sample.modules, Sample.lineage)
  | .tree t => ExceptT.mk do
    let (outcome, t) ← t.get host files
    return (outcome.map fun modules => (modules, t.lineage)).mapError .load

/-- An attempt whose faults are faults of a run. -/
def Attempt.asRun {ε α : Type} (f : ε → RunFault) (x : Attempt ε α) : Attempt RunFault α :=
  ExceptT.mk do
    let outcome ← x.run
    return outcome.mapError f

/-- The document of the modules of an importer. -/
def Importer.document (host : Host) (files : FileTree) (i : Importer) :
    Attempt RunFault Datum := do
  let (modules, lineage) ← i.modules host files
  let output ← (convert lineage modules).asRun .conversion
  return outputDatum output

/-! ## Actions -/

/-- What a run acts on: what it has printed, and the files. -/
structure World where
  printed : String := ""
  files : FileTree

/-- A step of a run. -/
abbrev Action (α : Type) := ExceptT RunFault (StateT World Journaled) α

namespace Action

/-- The files as they are. -/
def files : Action FileTree := do
  return (← get).files

/-- An attempt, whose notes are then added to the log file. -/
def noting {α : Type} (setup : LogSetup) (x : Attempt RunFault α) : Action α :=
  fun w =>
    ⟨(x.run.result, { w with files := setup.keep w.files (x.run.notes.filter setup.admits) }),
      x.run.notes⟩

/-- Prints a text. -/
def print (text : String) : Action Unit :=
  modify fun w => { w with printed := w.printed ++ text }

/-- Gives the file of a name new contents. -/
def write (name : String) (octets : List UInt8) : Action Unit := do
  let w ← get
  match w.files.write name octets with
  | .error f => throw (.file f name)
  | .ok files => set { w with files }

end Action

/-! ## Output -/

/-- The layout for an indentation: a number of blanks, a text, or one line for nothing. -/
def layoutOf? : Datum → Option Json.Layout
  | .null => some .oneLine
  | .int n => some (.indented (String.ofList (List.replicate n.toNat ' ')))
  | .bool b => some (.indented (if b then " " else ""))
  | .str s => some (.indented s)
  | _ => none

/-- The text of a document under an indentation. -/
def outputText (d : Datum) (indent : Datum) : Except RunFault String :=
  match layoutOf? indent with
  | none => .error .indent
  | some layout =>
    match Json.write? layout d with
    | none => .error .oversizedInteger
    | some text => .ok (text ++ "\n")

/-- A note made by the run itself. -/
def runNote (level : LogLevel) (text : String) : LogRecord :=
  ⟨level, "root", text⟩

/-- Writes a document to the file of a name, or prints it if there is none. -/
def writeOutput (setup : LogSetup) (d : Datum) (name : Option String) (indent : Datum) :
    Action Unit := do
  let text ← ofExcept (outputText d indent)
  match name with
  | none => Action.print text
  | some name => do
    Action.write name (Utf8.encode text)
    Action.noting setup (liftM (Journaled.note (runNote .info ("Wrote document to " ++ name))))

/-! ## Runs -/

/-- The document that arguments and settings call for. -/
def runConversion (host : Host) (setup : LogSetup) (a : Arguments) (s : Settings) :
    Action Datum := do
  let options ← ofExcept (s.parserOptions.mapError .options)
  let importer ← Action.noting setup (Importer.create a.importer a.tree (a.overlay options))
  let files ← Action.files
  Action.noting setup (importer.document host files)

/-- The part of a run that is watched for faults: from the options to the output. -/
def work (host : Host) (setup : LogSetup) (a : Arguments) (s : Settings) : Action Unit := do
  let d ← runConversion host setup a s
  writeOutput setup d a.outputName? s.outputIndent

/-- How a run ends. -/
inductive Ending
  | status (code : Nat)
  | stopped (s : Stop)
  /-- The settings cannot be read, and the default settings do not stand in for them. -/
  | badSettings (f : SettingsFault)
  /-- The options in the settings are at fault before the log has been set up. -/
  | badOptions (f : OptionsFault)
  /-- The log cannot be set up. -/
  | badLog (f : LogSetupFault)
  /-- A fault that is not foreseen. -/
  | fault (f : RunFault)
  deriving DecidableEq, Repr

/-- What a run leaves behind: how it ended, what it printed, the records that its log admits, and
the files. -/
structure Report where
  ending : Ending
  stdout : String
  notes : List LogRecord
  files : FileTree

/-- The name and version of the program. -/
def versionText : String := "tfdoc 0.1.0\n"

/-- The note on a run that has failed. -/
def failedNote (detail : String) : LogRecord :=
  runNote .error ("Conversion failed" ++ detail)

/-- The name of the tree in messages. -/
def treeName (a : Arguments) : String :=
  (Path.ofText (a.tree.getD "")).text

/-- The end of a run after its log has been set up. A failure is noted in the log file as well. -/
def finish (a : Arguments) (setup : LogSetup) (x : Journaled (Except RunFault Unit × World)) :
    Report :=
  let (outcome, w) := x.result
  let notes := x.notes.filter setup.admits
  match outcome with
  | .ok () => ⟨.status 0, w.printed, notes, w.files⟩
  | .error f =>
    match f.failure? (treeName a) with
    | none => ⟨.fault f, w.printed, notes, w.files⟩
    | some detail =>
      let last := [failedNote detail].filter setup.admits
      ⟨.status 1, w.printed, notes ++ last, setup.keep w.files last⟩

/-- Whether all log records are admitted: if the arguments or the settings call for that. -/
def verbose (a : Arguments) (s : Settings) : Except OptionsFault Bool :=
  if a.debug then .ok true else s.parserOptions.map ParserOptions.debug

/-- The name of the settings file where none is given. -/
def settingsName : String := "config.yaml"

/-- The settings that arguments call for. -/
def settingsOf (host : Host) (a : Arguments) (files : FileTree) : Except SettingsFault Settings :=
  let name := match a.config with
    | none => settingsName
    | some name => if name = "" then settingsName else name
  (Settings.load host files (.ofText name)).result

/-- A run with the settings that it is to have. -/
def runWith (host : Host) (a : Arguments) (s : Settings) (files : FileTree) : Report :=
  match verbose a s with
  | .error f => ⟨.badOptions f, "", [], files⟩
  | .ok verbose =>
    match LogSetup.ofSettings s verbose files with
    | (.error f, files) => ⟨.badLog f, "", [], files⟩
    | (.ok setup, files) => finish a setup ((work host setup a s).run.run { files })

/-- A run of the program with the given words on its command line. -/
def run (host : Host) (files : FileTree) (words : List String) : Report :=
  match Arguments.parse words with
  | .error .version => ⟨.stopped .version, versionText, [], files⟩
  | .error s => ⟨.stopped s, "", [], files⟩
  | .ok a =>
    match settingsOf host a files with
    | .error f => ⟨.badSettings f, "", [], files⟩
    | .ok s => runWith host a s files

end BlockDoc
