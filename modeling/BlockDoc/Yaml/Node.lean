import BlockDoc.Yaml.Scalar

/-!
# Nodes of YAML documents

A document as a tree of scalars, sequences and mappings, before scalars have values.

## Main definitions

* `Yaml.Node` — the trees
* `Yaml.Node.toDatum` — the value of a tree
-/

namespace BlockDoc

namespace Yaml

/-- A node. A scalar without quotes is resolved to a value by its spelling, one in quotes is a
string. -/
inductive Node
  | plain (s : String)
  | quoted (s : String)
  | sequence (items : List Node)
  | mapping (entries : List (Node × Node))

namespace Node

/-- The node of a place where nothing is written. -/
def absent : Node := .plain ""

mutual

/-- The value of a node. Keys are scalars, and a key that is set twice keeps its first place and has
its last value. -/
def toDatum : Node → Except Fault Datum
  | .plain s => plainDatum s
  | .quoted s => .ok (.str s)
  | .sequence items => (itemData items).map .list
  | .mapping entries => (memberData entries).map fun members => .map (Table.ofList members)

/-- The values of the items of a sequence. -/
def itemData : List Node → Except Fault (List Datum)
  | [] => .ok []
  | n :: rest => do
    let d ← toDatum n
    let ds ← itemData rest
    pure (d :: ds)

/-- The keys and values of a mapping, as they are written. -/
def memberData : List (Node × Node) → Except Fault (List (Datum × Datum))
  | [] => .ok []
  | (k, v) :: rest => do
    let key ← match toDatum k with
      | .ok (.list _) => .error .malformed
      | .ok (.map _) => .error .malformed
      | r => r
    let d ← toDatum v
    let ds ← memberData rest
    pure ((key, d) :: ds)

end

end Node

end Yaml

end BlockDoc
