import BlockDoc.Document.Metadata

/-!
# Documents

The document of a block is a table of what its attributes and its children give, with the metadata
of the block under a name of their own.

## Main definitions

* `Entry` — what stands under a name of a document
* `Document` — the documents
* `Document.toDatum` — a document as a mapping
* `Collection` — grouping by keys
-/

namespace BlockDoc

/-- What stands under a name of a document: a plain value, the document of a single child or the
documents of several, or metadata. -/
inductive Entry
  | value (d : Datum)
  | single (entries : List (String × Entry))
  | several (documents : List (List (String × Entry)))
  | metadata (m : Metadata)

/-- The entries of a document under their names. -/
abbrev Document := Table String Entry

namespace Document

/-- The name under which metadata stand. -/
def metadataKey : String := "__tfmeta"

mutual

/-- An entry as data. -/
def entryDatum : Entry → Datum
  | .value d => d
  | .single entries => .map (memberData entries)
  | .several documents => .list (documentData documents)
  | .metadata m => m.toDatum
termination_by structural e => e

/-- The entries of a document as the members of a mapping. -/
def memberData : List (String × Entry) → List (Datum × Datum)
  | [] => []
  | (name, e) :: rest => (.str name, entryDatum e) :: memberData rest
termination_by structural entries => entries

/-- Documents as mappings. -/
def documentData : List (List (String × Entry)) → List Datum
  | [] => []
  | entries :: rest => .map (memberData entries) :: documentData rest
termination_by structural documents => documents

end

/-- A document as a mapping. -/
def toDatum (d : Document) : Datum :=
  .map (memberData d)

end Document

/-! ## Grouping -/

/-- The items that have been filed under keys: for each key those filed under it, in order. -/
abbrev Collection (α : Type) := Table String (List α)

/-- What a key of a collection leads to: its only item, or all of its items. -/
inductive Group (α : Type)
  | single (item : α)
  | several (items : List α)
  deriving Repr

/-- The items of a key as a group. -/
def Group.ofList {α : Type} : List α → Group α
  | [item] => .single item
  | items => .several items

namespace Collection

variable {α : Type}

/-- The collection of the given items under their keys. -/
def ofItems (items : List (String × α)) : Collection α :=
  items.foldl (fun c e => Table.extend c e.1 e.2) []

/-- The number of items in a collection. -/
def size (c : Collection α) : Nat :=
  match c with
  | [] => 0
  | (_, items) :: rest => items.length + size rest

/-- The groups of a collection. -/
def groups (c : Collection α) : Table String (Group α) :=
  c.map fun e => (e.1, Group.ofList e.2)

end Collection

end BlockDoc
