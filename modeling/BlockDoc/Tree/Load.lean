import BlockDoc.Block.Check
import BlockDoc.Diagnostic
import BlockDoc.Files.Tree
import BlockDoc.Host
import BlockDoc.Journal
import BlockDoc.Json.Reader
import BlockDoc.Lineage
import BlockDoc.Options
import BlockDoc.Text.Lines
import BlockDoc.Text.Utf8
import BlockDoc.Tree.Parent

/-!
# Loading block trees

A block tree stands in a JSON or YAML file: a mapping with the list of modules, and optionally the
diagnostics that the parser has reported. Loading goes through stages, and the first fault decides:
the file is read, the diagnostics are checked, the modules are checked one after the other, the
parents are checked for cycles, and the blocks of each module with a parent are entered into the
lineage.

## Main definitions

* `Refusal` — why a tree is refused
* `LoadFault` — a refusal, or one of the faults for which there is no message of the tree's own
* `readData`, `readTree` — the data and the mapping that a file holds
* `checkDiagnostics`, `checkModules` — what the mapping gives
* `linkParents` — the lineage of the modules
-/

namespace BlockDoc

/-- Why a tree is refused. -/
inductive Refusal
  | notFound
  | malformedJson (problem : Json.Problem) (place : Text.Position)
  | malformedYaml
  | notMapping
  | noModules
  | notModule (position : Nat)
  | invalidTree (findings : List Finding)
  | invalidDiagnostics (findings : List Finding)
  /-- The parser has reported errors, and errors are fatal. -/
  | reported (errors : List String)
  | parentCycle (way : List Nat)
  | noParentModule (position : Nat)
  | noModuleBlock (reference : String) (position : Nat)
  deriving DecidableEq, Repr

/-- The faults that end loading. Beside a refusal, these are octets that are no text, integers that
cannot be read, faults of the host, and data without the items or members that are called for. -/
inductive LoadFault
  | refused (r : Refusal)
  | undecodable (f : Utf8.Fault)
  | oversizedInteger (digits : Nat)
  /-- A YAML text gives no data. If it is malformed, the tree is refused instead. -/
  | unread (f : YamlFault)
  /-- The text is nested too deeply to be gone through. -/
  | tooDeep
  | broken (b : Breakdown)
  deriving DecidableEq, Repr

/-- The message for a problem with its place. -/
def problemText (problem : Json.Problem) (place : Text.Position) : String :=
  problem.message ++ ": line " ++ Text.intText place.line ++ " column " ++
    Text.intText place.column ++ " (char " ++ Text.intText place.offset ++ ")"

/-- The message for errors that the parser has reported. -/
def reportedText (errors : List String) : String :=
  "Parser reported " ++ Text.intText errors.length ++ " error(s): " ++ Text.joinWith "; " errors

/-- The message for a tree in the file `path` that is refused. -/
def Refusal.message (path : String) : Refusal → String
  | .notFound => "Block tree file not found: " ++ path
  | .malformedJson problem place =>
    "Failed to read block tree " ++ path ++ ": " ++ problemText problem place
  | .malformedYaml => "Failed to read block tree " ++ path
  | .notMapping => path ++ ": expected a mapping at the top level"
  | .noModules => path ++ ": expected a 'modules' list"
  | .notModule position => path ++ ": module " ++ Text.intText position ++ " is not a mapping"
  | .invalidTree _ => path ++ ": invalid block tree"
  | .invalidDiagnostics _ => path ++ ": invalid diagnostics"
  | .reported errors => reportedText errors
  | .parentCycle way =>
    path ++ ": module parent cycle: " ++
      Text.joinWith " -> " (way.map fun (p : Nat) => Text.intText p)
  | .noParentModule position =>
    path ++ ": parent module " ++ Text.intText position ++ " does not exist"
  | .noModuleBlock reference position =>
    path ++ ": module block '" ++ reference ++ "' not found in module " ++ Text.intText position

/-! ## Reading the file -/

/-- The ends of the names of YAML files, in small letters. -/
def yamlSuffixes : List String := [".yaml", ".yml"]

/-- Whether a file is read as YAML. -/
def isYaml (p : Path) : Bool :=
  yamlSuffixes.contains (Text.lowerAscii p.suffix)

/-- The text of octets, with every line end as a line feed. -/
def decodeText (octets : List UInt8) : Except Utf8.Fault (List Char) :=
  (Utf8.decode octets).map Text.unifyLineEnds

/-- The value of a text that is JSON. -/
def readJson (cs : List Char) : Except LoadFault Datum :=
  match Json.read cs with
  | .ok d => .ok d
  | .error (.malformed problem offset) =>
    .error (.refused (.malformedJson problem (.ofOffset cs offset)))
  | .error (.oversized digits) => .error (.oversizedInteger digits)

/-- The value of a text that is YAML. -/
def readYaml (host : Host) (cs : List Char) : Except LoadFault Datum :=
  match host.readYaml cs with
  | .ok d => .ok d
  | .error .malformed => .error (.refused .malformedYaml)
  | .error f => .error (.unread f)

/-- The value of the text in a file of a path. -/
def readText (host : Host) (path : Path) (cs : List Char) : Except LoadFault Datum :=
  if !host.reaches cs then .error .tooDeep
  else if isYaml path then readYaml host cs
  else readJson cs

/-- The data that a file holds. -/
def readData (host : Host) (files : FileTree) (path : Path) : Except LoadFault Datum :=
  if !files.isFile path then .error (.refused .notFound)
  else
    match files.read path with
    | .error _ => .error (.refused .notFound)
    | .ok octets =>
      match decodeText octets with
      | .error f => .error (.undecodable (if isYaml path then f.fromTail else f))
      | .ok cs => readText host path cs

/-- The entries of the mapping that a file holds. -/
def readTree (host : Host) (files : FileTree) (path : Path) :
    Except LoadFault (List (Datum × Datum)) :=
  match readData host files path with
  | .error f => .error f
  | .ok (.map entries) => .ok entries
  | .ok _ => .error (.refused .notMapping)

/-! ## Diagnostics -/

/-- The items that a value holds: those of a list, the characters of a string, or the keys of a
mapping. A value that does not count as present holds none. -/
def itemsOf (d : Datum) : Except Breakdown (List Datum) :=
  if !d.truthy then .ok []
  else match d with
    | .list items => .ok items
    | .str s => .ok (s.toList.map fun c => .str (String.singleton c))
    | .map entries => .ok (entries.map Prod.fst)
    | _ => .error .noItems

/-- The diagnostics that items give, up to the first that is invalid. -/
def checkDiagnosticItems : List Datum → Except LoadFault (List Diagnostic)
  | [] => .ok []
  | d :: rest =>
    match Diagnostic.check d with
    | .valid x => (checkDiagnosticItems rest).map (x :: ·)
    | .invalid findings => .error (.refused (.invalidDiagnostics findings))
    | .broken b => .error (.broken b)

/-- The diagnostics of a tree. -/
def checkDiagnostics (entries : List (Datum × Datum)) : Except LoadFault (List Diagnostic) :=
  match itemsOf ((Datum.member? entries "diagnostics").getD .null) with
  | .ok items => checkDiagnosticItems items
  | .error b => .error (.broken b)

/-- The note on a diagnostic. -/
def Diagnostic.note (d : Diagnostic) : LogRecord :=
  ⟨.warning, "tfdoc.importers", "Parser " ++ d.severity ++ ": " ++ d.text⟩

/-- The texts of the diagnostics that are errors. -/
def errorTexts (ds : List Diagnostic) : List String :=
  (ds.filter Diagnostic.isError).map Diagnostic.text

/-! ## Modules -/

/-- The modules of a tree: the blocks of each, and the parents of those that have one. -/
structure ModuleList where
  blocks : List (List Block)
  parents : ParentTable

/-- A value, unless it is null. -/
def present? : Option Datum → Option Datum
  | some .null => none
  | d => d

/-- What a check gives, as a part of loading a tree. -/
def treePart {α : Type} : Checked α → Except LoadFault α
  | .valid a => .ok a
  | .invalid findings => .error (.refused (.invalidTree findings))
  | .broken b => .error (.broken b)

/-- The parent that the entries of a module give. -/
def checkParent (entries : List (Datum × Datum)) : Except LoadFault (Option ParentRef) :=
  match present? (Datum.member? entries "parent") with
  | none => .ok none
  | some d => (treePart (ParentRef.check d)).map some

/-- The blocks that the entries of a module give; there are none if the value does not count as
present. -/
def checkBlocks (entries : List (Datum × Datum)) : Except LoadFault (List Block) :=
  let blocks := (Datum.member? entries "blocks").getD .null
  treePart (Module.check (.object [("blocks", if blocks.truthy then blocks else .list [])]))

/-- The modules that items give, counted from `position`. -/
def checkModuleItems (position : Nat) : List Datum → Except LoadFault ModuleList
  | [] => .ok ⟨[], []⟩
  | .map entries :: rest => do
    let parent ← checkParent entries
    let blocks ← checkBlocks entries
    let others ← checkModuleItems (position + 1) rest
    let parents := match parent with
      | none => others.parents
      | some p => (position, p) :: others.parents
    return ⟨blocks :: others.blocks, parents⟩
  | _ :: _ => .error (.refused (.notModule position))

/-- The modules of a tree. -/
def checkModules (entries : List (Datum × Datum)) : Except LoadFault ModuleList :=
  match Datum.member? entries "modules" with
  | some (.list items) => checkModuleItems 0 items
  | _ => .error (.refused .noModules)

/-! ## Parents -/

/-- The module block to which a parent leads: the first one with the address. -/
def findModuleBlock (modules : List Module) (parent : ParentRef) : Except Refusal RootBlock :=
  match modules[parent.module]? with
  | none => .error (.noParentModule parent.module)
  | some m =>
    match m.blocks.find? fun b => b.block.type = Block.moduleType && b.reference = parent.block with
    | some b => .ok b
    | none => .error (.noModuleBlock parent.block parent.module)

/-- The lineage with the blocks of all modules that have a parent, and the fault that has ended the
work before that. -/
def linkParents (modules : List Module) (l : Lineage) :
    List (Nat × ParentRef) → Except Refusal Unit × Lineage
  | [] => (.ok (), l)
  | (position, parent) :: rest =>
    match findModuleBlock modules parent with
    | .error e => (.error e, l)
    | .ok b =>
      match l.registerModule ((modules[position]?).getD ⟨[]⟩) b with
      | .ok l => linkParents modules l rest
      | .error _ => (.error (.noModuleBlock parent.block parent.module), l)

end BlockDoc
