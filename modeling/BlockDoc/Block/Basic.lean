import BlockDoc.Text.Digit
import BlockDoc.Text.Lines
import BlockDoc.TypedValue.Basic
import BlockDoc.Validation.Rule

/-!
# Blocks

An evaluated configuration consists of modules, and a module of blocks: resources, variables, calls
of other modules, and so on. A block has labels, attributes with typed values, and blocks inside.

## Main definitions

* `SourceRange` — the lines on which a block stands
* `Attribute` — a name with a typed value
* `Block` — the blocks
* `Block.reference` — the address under which other blocks refer to a block
* `RootBlock` — a block of a module, told apart from equal blocks
* `Module` — the blocks of a module
-/

namespace BlockDoc

/-- The place of a block in its source file. -/
structure SourceRange where
  filename : String
  startLine : Nat
  endLine : Nat
  startLine_le_endLine : startLine ≤ endLine := by omega

/-- A name with the typed value of its expression, the expression as it is written, and the
references to other blocks in it. -/
structure Attribute where
  name : String
  value : TypedValue := .unknown .null
  raw : String := ""
  references : List String := []

/-- A configuration block. Its children are all those that the evaluator lists; for a dynamic block
these are the template as well as the instances into which it expands. -/
structure Block where
  type : String
  labels : List String := []
  attributes : List Attribute := []
  children : List Block := []
  id : String := ""
  index : Option InstanceKey := none
  range : SourceRange
  explicitReference : Option String := none

/-- What is appended to the address of one instance of a block. -/
def InstanceKey.suffix : InstanceKey → String
  | .number n => "[" ++ Text.intText n ++ "]"
  | .name s => "[\"" ++ s ++ "\"]"

namespace Block

/-- The first label, or nothing. -/
def typeLabel (b : Block) : String :=
  b.labels.headD ""

/-- The second label, or nothing. -/
def nameLabel (b : Block) : String :=
  (b.labels.drop 1).headD ""

/-- What sets the address of this instance apart. -/
def indexSuffix (b : Block) : String :=
  match b.index with
  | none => ""
  | some key => key.suffix

/-- The parts of the address of a block. -/
def addressParts (b : Block) : List String :=
  if b.type = "resource" then [b.typeLabel, b.nameLabel]
  else if b.type = "variable" then "var" :: b.labels
  else if b.type = "locals" ∨ b.type = "terraform" ∨ b.type = "moved" then [b.type]
  else b.type :: b.labels

/-- The address that follows from the type, the labels and the index: the parts that are not empty,
with points between them. -/
def derivedReference (b : Block) : String :=
  Text.joinWith "." (b.addressParts.filter (· ≠ "")) ++ b.indexSuffix

/-- The address under which other blocks refer to a block: the one that the evaluator has given, or
else the one that follows from the block. -/
def reference (b : Block) : String :=
  match b.explicitReference with
  | none => b.derivedReference
  | some r => if r = "" then b.derivedReference else r

/-- The first attribute of a name. -/
def getAttribute? (b : Block) (name : String) : Option Attribute :=
  b.attributes.find? fun a => a.name = name

end Block

/-- A block of a module. Two blocks with the same contents are told apart by their keys. -/
structure RootBlock where
  key : Nat
  block : Block

/-- The address of a root block. -/
def RootBlock.reference (b : RootBlock) : String :=
  b.block.reference

/-- The blocks of a module: of the root module, or of one instance of a called module. -/
structure Module where
  blocks : List RootBlock

namespace Module

/-- The module of the given blocks, whose keys are counted from `first`. -/
def ofBlocks (first : Nat) : List Block → Module
  | bs => ⟨(bs.zipIdx first).map fun e => ⟨e.2, e.1⟩⟩

/-- The number of blocks in lists of blocks. -/
def countBlocks {α : Type} : List (List α) → Nat
  | [] => 0
  | bs :: rest => bs.length + countBlocks rest

/-- The modules of the given lists of blocks, whose keys are counted from `first` on. -/
def listOfBlocks (first : Nat) : List (List Block) → List Module
  | [] => []
  | bs :: rest => ofBlocks first bs :: listOfBlocks (first + bs.length) rest

end Module

end BlockDoc
