import BlockDoc.Document.Builder
import BlockDoc.Lineage

/-!
# Conversion of modules

The blocks of all modules are visited in order. Each block is entered into the index of references,
and if its type is supported, its document is filed in the output.

## Main definitions

* `Conversion` — where a conversion stands
* `Visit` — a step of a conversion; what it has done before a fault stays done
* `visitBlock`, `visitModule` — the steps
* `convert` — the conversion of a list of modules
* `outputDatum` — the output as a mapping
-/

namespace BlockDoc

/-- The faults that end a conversion. -/
inductive ConversionFault
  | conflict (e : PrefixConflict)
  | build (e : BuildFault)
  deriving DecidableEq, Repr

/-- Where a conversion stands: the blocks that have been visited, and the documents that have been
filed. -/
structure Conversion where
  index : ReferenceIndex
  output : Collection Document

/-- A conversion before its first step. -/
def Conversion.start : Conversion := ⟨[], []⟩

/-- A step of a conversion. -/
abbrev Visit (α : Type) := ExceptT ConversionFault (StateT Conversion Journaled) α

/-- A note made by a conversion. -/
def conversionNote (level : LogLevel) (text : String) : LogRecord :=
  ⟨level, "tfdoc.converter", text⟩

namespace Visit

variable {α : Type}

/-- A step that only makes notes. -/
def journaled (x : Journaled α) : Visit α :=
  fun s => ⟨(.ok x.result, s), x.notes⟩

/-- A note on a step. -/
def note (level : LogLevel) (text : String) : Visit Unit :=
  journaled (Journaled.note (conversionNote level text))

/-- A step that changes nothing and may fail. -/
def attempt (x : Attempt BuildFault α) : Visit α :=
  fun s => ⟨(x.run.result.mapError .build, s), x.run.notes⟩

end Visit

/-! ## Steps -/

/-- The types of blocks that have documents. -/
def supportedTypes : List String :=
  ["data", "locals", "output", "provider", "terraform", "variable", "module", "moved", "resource"]

/-- The types of blocks whose documents are filed under their first label. -/
def labelledTypes : List String :=
  ["data", "resource"]

namespace Block

/-- Whether documents of a block are filed under its first label, so that they record the type. -/
def isLabelled (b : Block) : Bool :=
  labelledTypes.contains b.type

/-- The key under which the document of a block is filed. -/
def collectionKey (b : Block) : String :=
  if b.isLabelled then b.typeLabel else b.type

/-- The type that the document of a block records. -/
def recordedType (b : Block) : Option String :=
  if b.isLabelled then some b.type else none

end Block

/-- Enters a block into the index of references. -/
def registerBlock (b : RootBlock) : Visit Unit := do
  let s ← get
  let index ← Visit.journaled (ReferenceIndex.register s.index b)
  set { s with index }

/-- Files the document of a block that is in the module of the given path. -/
def fileDocument (path : String) (b : Block) : Visit Unit := do
  let s ← get
  let d ← Visit.attempt (b.document s.index (some (b.path path)) b.recordedType)
  set { s with output := Table.extend s.output b.collectionKey d }

/-- Visits a block of the module of the given path. -/
def visitBlock (path : String) (b : RootBlock) : Visit Unit := do
  registerBlock b
  if supportedTypes.contains b.block.type then fileDocument path b.block
  else Visit.note .warning ("unknown block type: " ++ b.block.type)

/-- The blocks of a module, one after the other. -/
def visitBlocks (path : String) : List RootBlock → Visit Unit
  | [] => pure ()
  | b :: rest => do
    visitBlock path b
    visitBlocks path rest

/-- Visits the blocks of a module. -/
def visitModule (lineage : Lineage) (m : Module) : Visit Unit :=
  match lineage.modulePath m with
  | .error e => throw (.conflict e)
  | .ok path => do
    Visit.note .debug <|
      "Visiting module '" ++ (if path = "" then "<root>" else path) ++ "' with " ++
        Text.intText m.blocks.length ++ " blocks"
    visitBlocks path m.blocks

/-- Visits modules one after the other. -/
def visitModules (lineage : Lineage) : List Module → Visit Unit
  | [] => pure ()
  | m :: rest => do
    visitModule lineage m
    visitModules lineage rest

/-! ## Conversion -/

/-- The note at the end of a conversion. -/
def summary (output : Collection Document) : LogRecord :=
  conversionNote .info <|
    "Converted " ++ Text.intText (Collection.size output) ++ " blocks into " ++
      Text.intText output.length ++ " collections"

/-- The documents of the blocks of all modules, filed under their keys. -/
def convert (lineage : Lineage) (modules : List Module) :
    Attempt ConversionFault (Collection Document) :=
  ExceptT.mk do
    let (outcome, s) ← (visitModules lineage modules).run Conversion.start
    match outcome with
    | .error e => return .error e
    | .ok () => do
      Journaled.note (summary s.output)
      return .ok s.output

/-- The output of a conversion as a mapping from keys to lists of documents. -/
def outputDatum (output : Collection Document) : Datum :=
  .object (output.map fun e => (e.1, .list (e.2.map Document.toDatum)))

end BlockDoc
