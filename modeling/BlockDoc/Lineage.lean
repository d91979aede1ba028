import BlockDoc.Block.Basic

/-!
# Lineage of blocks

Which module block has brought in the root blocks of a called module. The blocks of the root module
have no entry.

## Main definitions

* `Lineage` — the module blocks under the keys of the blocks that they have brought in
* `Lineage.register`, `Lineage.registerModule` — the lineage with further entries
* `Lineage.chain` — the module blocks around a block, from the inside out
* `Lineage.moduleName` — the name of the module that a block is in
* `Lineage.modulePath` — the name that the blocks of a module share
-/

namespace BlockDoc

/-- The module blocks under the keys of the blocks that they have brought in. -/
abbrev Lineage := Table Nat RootBlock

/-- A block other than a module block in the place of one. -/
structure NotModuleBlock where
  reference : String
  type : String
  deriving DecidableEq, Repr

/-- The message for a block in the place of a module block. -/
def NotModuleBlock.message (e : NotModuleBlock) : String :=
  "'" ++ e.reference ++ "' is a " ++ e.type ++ " block, not a module block"

/-- The names of the different modules that the blocks of one module claim to be in. -/
structure PrefixConflict where
  names : List String
  deriving DecidableEq, Repr

/-- The message for blocks of one module that claim to be in different modules. -/
def PrefixConflict.message (e : PrefixConflict) : String :=
  "Conflicting module prefixes: " ++ Text.joinWith ", " e.names

/-- The type of module blocks. -/
def Block.moduleType : String := "module"

namespace Lineage

/-! ## Registration -/

/-- The lineage with a block below a module block. -/
def register (l : Lineage) (b parent : RootBlock) : Except NotModuleBlock Lineage :=
  if parent.block.type = Block.moduleType then .ok (Table.put l b.key parent)
  else .error ⟨parent.reference, parent.block.type⟩

/-- The lineage with all blocks of a module below a module block. -/
def registerModule (l : Lineage) (m : Module) (parent : RootBlock) :
    Except NotModuleBlock Lineage :=
  m.blocks.foldlM (fun l b => register l b parent) l

/-- The module block that has brought in a block. -/
def parent? (l : Lineage) (b : RootBlock) : Option RootBlock :=
  Table.find? l b.key

/-! ## Names of modules -/

/-- The module blocks that are met on the way up from a key, from the inside out. An entry that has
been used is of no use again, so the way ends. -/
def chainFrom (l : Lineage) (key : Nat) : List RootBlock :=
  match _ : Table.find? l key with
  | none => []
  | some parent => parent :: chainFrom (Table.remove l key) parent.key
termination_by l.length
decreasing_by exact Table.length_remove_lt ‹_›

/-- The module blocks around a block, from the inside out. -/
def chain (l : Lineage) (b : RootBlock) : List RootBlock :=
  chainFrom l b.key

/-- The name of the module that a block is in: the addresses of the module blocks around it, the
outermost first. It is empty for a block of the root module. -/
def moduleName (l : Lineage) (b : RootBlock) : String :=
  Text.joinWith "." ((chain l b).reverse.map RootBlock.reference)

/-- The names of the modules that the blocks of a module are in, each once, the root module left
out. -/
def moduleNames (l : Lineage) (m : Module) : List String :=
  ((m.blocks.map (moduleName l)).filter (· ≠ "")).eraseDups

/-- The name of the module that all blocks of a module are in; blocks of the root module are of no
account. -/
def modulePath (l : Lineage) (m : Module) : Except PrefixConflict String :=
  match moduleNames l m with
  | [] => .ok ""
  | [name] => .ok name
  | names => .error ⟨names.mergeSort⟩

end Lineage

/-- The path of a block in the module of the given path. -/
def Block.path (b : Block) (parent : String) : String :=
  if parent = "" then b.reference else parent ++ "." ++ b.reference

end BlockDoc
