import BlockDoc.Block.Basic
import BlockDoc.TypedValue.Check

/-!
# Blocks as data

## Main definitions

* `SourceRange.check`, `Attribute.check`, `Block.check` — what data give
* `Module.check` — the blocks of a module that data give
-/

namespace BlockDoc

namespace SourceRange

/-- The range of the given lines, provided that they are in order. -/
def ofLines (filename : String) (startLine endLine : Nat) : Checked SourceRange :=
  if h : startLine ≤ endLine then .valid ⟨filename, startLine, endLine, h⟩
  else .violated (.reversedRange filename startLine endLine)

/-- The range that the fields of a mapping give. -/
def checkFields (entries : List (Datum × Datum)) : Checked SourceRange :=
  let filename := Rule.required Rule.string entries "filename"
  let startLine := Rule.required Rule.natural entries "start_line"
  let endLine := Rule.required Rule.natural entries "end_line"
  (filename.both (startLine.both endLine)).andThen fun p => ofLines p.1 p.2.1 p.2.2

/-- The range that data give. -/
def check : Datum → Checked SourceRange :=
  Rule.model checkFields

end SourceRange

namespace Attribute

/-- The attribute that the fields of a mapping give. -/
def checkFields (entries : List (Datum × Datum)) : Checked Attribute :=
  Attribute.mk
    <$> Rule.required Rule.string entries "name"
    <*> Rule.defaulted TypedValue.check (.unknown .null) entries "value"
    <*> Rule.defaulted Rule.string "" entries "raw"
    <*> Rule.defaulted (Rule.list Rule.string) [] entries "references"

/-- The attribute that data give. -/
def check : Datum → Checked Attribute :=
  Rule.model checkFields

end Attribute

namespace Block

/-- The address that the evaluator has given. It has two names, of which the shorter takes
precedence. -/
def checkReference (entries : List (Datum × Datum)) : Checked (Option String) :=
  match Datum.member? entries "reference" with
  | some _ => Rule.defaulted (Rule.optional Rule.string) none entries "reference"
  | none => Rule.defaulted (Rule.optional Rule.string) none entries "explicit_reference"

/-- The block that the fields of a mapping give, together with its children. -/
def checkFields (entries : List (Datum × Datum)) (children : Checked (List Block)) :
    Checked Block :=
  Block.mk
    <$> Rule.required Rule.string entries "type"
    <*> Rule.defaulted (Rule.list Rule.string) [] entries "labels"
    <*> Rule.defaulted (Rule.list Attribute.check) [] entries "attributes"
    <*> children
    <*> Rule.defaulted Rule.string "" entries "id"
    <*> Rule.defaulted (Rule.optional Rule.instanceKey) none entries "index"
    <*> Rule.required SourceRange.check entries "range"
    <*> checkReference entries

mutual

/-- The block that data give. -/
def check : Datum → Checked Block
  | .map entries => checkFields entries (checkChildrenIn entries)
  | _ => .violated .notMapping
termination_by structural d => d

/-- The children that stand among the entries of a mapping. -/
def checkChildrenIn : List (Datum × Datum) → Checked (List Block)
  | [] => .valid []
  | (k, v) :: rest =>
    if k == .str "children" then (checkChildren v).under (.field "children")
    else checkChildrenIn rest
termination_by structural entries => entries

/-- The children that data give. -/
def checkChildren : Datum → Checked (List Block)
  | .list items => checkItems 0 items
  | _ => .violated .notList
termination_by structural d => d

/-- The blocks that the items of a list give, each under its position. -/
def checkItems (position : Nat) : List Datum → Checked (List Block)
  | [] => .valid []
  | d :: rest =>
    List.cons <$> (check d).under (.position position) <*> checkItems (position + 1) rest
termination_by structural items => items

end

end Block

namespace Module

/-- The blocks of a module that data give. -/
def check : Datum → Checked (List Block) :=
  Rule.model (Rule.defaulted (Rule.list Block.check) [] · "blocks")

end Module

end BlockDoc
