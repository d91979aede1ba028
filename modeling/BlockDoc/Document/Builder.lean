import BlockDoc.Block.Children
import BlockDoc.Document.Basic
import BlockDoc.Document.References
import BlockDoc.TypeExpr
import BlockDoc.TypedValue.Plain

/-!
# The document of a block

A document is built up in this order: the documents of the logical children, grouped by type; the
values of the attributes; the identifier; and the metadata. What comes later takes the place of an
earlier entry of the same name.

## Main definitions

* `Attempt` — a result or a fault, with the notes that were made
* `Attribute.plain` — the data of an attribute
* `Block.metadata` — the metadata of a block
* `Block.document` — the document of a block
-/

namespace BlockDoc

/-- A result or a fault, together with the notes that were made until then. -/
abbrev Attempt (ε α : Type) := ExceptT ε Journaled α

/-- The fault that ends a conversion: the value of a type expression claims to be a string and is
none. -/
inductive BuildFault
  | notText
  deriving DecidableEq, Repr

/-- The data of an attribute: those of its value, or its expression if the value has no plain
form. -/
def Attribute.plain (a : Attribute) : Datum :=
  a.value.plain?.getD (.str a.raw)

namespace Block

/-! ## Attributes -/

/-- Whether an attribute of a block states the type of a variable. -/
def isTypeOf (b : Block) (a : Attribute) : Bool :=
  b.type = "variable" && a.name = "type"

/-- The note on an attribute that states no type. -/
def typeNote (b : Block) (fault : TypeFault) : LogRecord :=
  ⟨.warning, "tfdoc.converter",
    "Could not decode type of " ++ b.reference ++ ": " ++ fault.message⟩

/-- The name of the type that an attribute of a variable states, or else the expression. -/
def variableType (b : Block) (a : Attribute) : Attempt BuildFault Datum :=
  match TypeExpr.ofAttribute a with
  | .ok t => pure (.str t.name)
  | .error (.type fault) => do
    liftM (Journaled.note (b.typeNote fault))
    return .str a.raw
  | .error .notText => throw .notText

/-- The data of an attribute of a block. -/
def attributeDatum (b : Block) (a : Attribute) : Attempt BuildFault Datum :=
  if b.isTypeOf a then b.variableType a else pure a.plain

/-- The entries that attributes give. -/
def attributeEntries (b : Block) : List Attribute → Attempt BuildFault (List (String × Entry))
  | [] => pure []
  | a :: rest => do
    let d ← b.attributeDatum a
    let others ← attributeEntries b rest
    return (a.name, .value d) :: others

/-! ## Metadata -/

/-- The references in the attributes of a block, each once and in the order of their first
occurrences. -/
def references (b : Block) : List String :=
  (b.attributes.flatMap Attribute.references).eraseDups

/-- A text, unless it is empty. -/
def nonEmpty? (s : String) : Option String :=
  if s = "" then none else some s

/-- The metadata of a block, with the given path and type. -/
def metadata (b : Block) (index : ReferenceIndex) (path type : Option String) : Metadata where
  path := path
  type := type
  label := nonEmpty? b.typeLabel
  filename := b.range.filename
  lineStart := b.range.startLine
  lineEnd := b.range.endLine
  references := match index.describe b.references with
    | [] => none
    | rs => some rs

/-! ## Documents -/

/-- The entry of a group of children. -/
def groupEntry : Group Document → Entry
  | .single d => .single d
  | .several ds => .several ds

/-- The document made of the documents of the children, the entries of the attributes, the
identifier of the block and its metadata. -/
def assemble (children : List (String × Document)) (attributes : List (String × Entry))
    (id : String) (m : Metadata) : Document :=
  let groups : Document := (Collection.ofItems children).groups.map fun e => (e.1, groupEntry e.2)
  let values := Table.putAll groups attributes
  let named := if id = "" then values else Table.put values "id" (.value (.str id))
  Table.put named Document.metadataKey (.metadata m)

mutual

/-- The document of a block, whose metadata record the given path and type. -/
def document (index : ReferenceIndex) (path type : Option String) :
    Block → Attempt BuildFault Document
  | ⟨blockType, labels, attributes, children, id, key, range, explicit⟩ => do
    let b : Block := ⟨blockType, labels, attributes, children, id, key, range, explicit⟩
    let kept ← liftM (selectFrom .start children)
    let parts ← childDocuments index kept children
    let values ← b.attributeEntries attributes
    return assemble parts values id (b.metadata index path type)
termination_by structural b => b

/-- The documents of the children that are marked, each with the type of the child. -/
def childDocuments (index : ReferenceIndex) (marks : List Bool) :
    List Block → Attempt BuildFault (List (String × Document))
  | [] => pure []
  | child :: rest =>
    match marks with
    | [] => pure []
    | false :: marks => childDocuments index marks rest
    | true :: marks => do
      let d ← document index none none child
      let others ← childDocuments index marks rest
      return (child.type, d) :: others
termination_by structural children => children

end

end Block

end BlockDoc
