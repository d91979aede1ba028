import BlockDoc.Document.Builder
import BlockDoc.Tree.Load

/-!
# Importers of block trees

An importer belongs to one file. It loads the file when its modules are asked for, and keeps the
modules of the first load that succeeds. The lineage is kept throughout, so that the entries made by
a load that fails later on stay in it. The blocks of every load have keys of their own.

## Main definitions

* `TreeImporter` — an importer
* `TreeImporter.start` — a new importer
* `TreeImporter.load` — a load
* `TreeImporter.get` — the modules, loaded if need be
-/

namespace BlockDoc

/-- An importer: its file, the options of the parser, the modules if they have been loaded, the
lineage, and the first key that no block has had. -/
structure TreeImporter where
  path : Path
  options : ParserOptions
  modules : Option (List Module) := none
  lineage : Lineage := []
  nextKey : Nat := 0

namespace TreeImporter

/-- A note made by an importer. -/
def record (level : LogLevel) (text : String) : LogRecord :=
  ⟨level, "tfdoc.importers", text⟩

/-- A new importer of the file of the given name. -/
def start (name : String) (options : ParserOptions) : Journaled TreeImporter := do
  let path := Path.ofText name
  Journaled.note (record .info ("Initialized tree file importer for: " ++ path.text))
  Journaled.note (record .debug ("Parser options: " ++ options.toDatum.literal))
  return { path, options }

/-- The notes on diagnostics. -/
def noteDiagnostics : List Diagnostic → Journaled Unit
  | [] => pure ()
  | d :: rest => do
    Journaled.note d.note
    noteDiagnostics rest

/-- Diagnostics among which there are errors are a fault if errors are fatal. -/
def refuseErrors (options : ParserOptions) (ds : List Diagnostic) : Except Refusal Unit :=
  if options.stopOnError && !(errorTexts ds).isEmpty then .error (.reported (errorTexts ds))
  else .ok ()

/-- The note at the end of a load. -/
def loadedNote (path : Path) (modules : List Module) : LogRecord :=
  record .info <|
    "Loaded " ++ Text.intText modules.length ++ " modules with " ++
      Text.intText (Module.countBlocks (modules.map Module.blocks)) ++ " root blocks from " ++
      path.text

/-- The importer after the modules of a tree have been checked: the blocks have their keys, and the
lineage has the entries of the modules that have a parent. -/
def link (t : TreeImporter) (list : ModuleList) :
    Journaled (Except LoadFault (List Module) × TreeImporter) :=
  let modules := Module.listOfBlocks t.nextKey list.blocks
  let t := { t with nextKey := t.nextKey + Module.countBlocks list.blocks }
  match linkParents modules t.lineage list.parents with
  | (.error e, lineage) => pure (.error (.refused e), { t with lineage })
  | (.ok (), lineage) => do
    Journaled.note (loadedNote t.path modules)
    return (.ok modules, { t with lineage, modules := some modules })

/-- The importer after the diagnostics of a tree have been checked. -/
def loadModules (t : TreeImporter) (entries : List (Datum × Datum)) :
    Journaled (Except LoadFault (List Module) × TreeImporter) :=
  match checkModules entries with
  | .error e => pure (.error e, t)
  | .ok list =>
    match ParentTable.cycle? list.parents with
    | some way => pure (.error (.refused (.parentCycle way)), t)
    | none => t.link list

/-- The importer after the mapping of a tree has been read. -/
def loadEntries (t : TreeImporter) (entries : List (Datum × Datum)) :
    Journaled (Except LoadFault (List Module) × TreeImporter) :=
  match checkDiagnostics entries with
  | .error e => pure (.error e, t)
  | .ok ds => do
    noteDiagnostics ds
    match refuseErrors t.options ds with
    | .error e => return (.error (.refused e), t)
    | .ok () => t.loadModules entries

/-- The modules that the file of an importer holds, and the importer after the load. -/
def load (t : TreeImporter) (host : Host) (files : FileTree) :
    Journaled (Except LoadFault (List Module) × TreeImporter) :=
  match readTree host files t.path with
  | .error e => pure (.error e, t)
  | .ok entries => t.loadEntries entries

/-- The modules of an importer, loaded if they have not been, and the importer after that. -/
def get (t : TreeImporter) (host : Host) (files : FileTree) :
    Journaled (Except LoadFault (List Module) × TreeImporter) :=
  match t.modules with
  | some modules => pure (.ok modules, t)
  | none => t.load host files

end TreeImporter

end BlockDoc
