import BlockDoc.Document.Metadata
import BlockDoc.Validation.Rule

/-!
# Metadata as data

## Main definitions

* `ReferenceMeta.check`, `Metadata.check` — what data give
-/

namespace BlockDoc

namespace ReferenceMeta

/-- The description of a block that the fields of a mapping give. -/
def checkFields (entries : List (Datum × Datum)) : Checked ReferenceMeta :=
  ReferenceMeta.mk
    <$> Rule.required Rule.string entries "id"
    <*> Rule.required Rule.string entries "label"
    <*> Rule.required Rule.string entries "name"

/-- The description of a block that data give. -/
def check : Datum → Checked ReferenceMeta :=
  Rule.model checkFields

end ReferenceMeta

namespace Metadata

/-- The metadata that the fields of a mapping give. -/
def checkFields (entries : List (Datum × Datum)) : Checked Metadata :=
  Metadata.mk
    <$> Rule.defaulted (Rule.optional Rule.string) none entries "path"
    <*> Rule.defaulted (Rule.optional Rule.string) none entries "type"
    <*> Rule.defaulted (Rule.optional Rule.string) none entries "label"
    <*> Rule.required Rule.string entries "filename"
    <*> Rule.required Rule.integer entries "line_start"
    <*> Rule.required Rule.integer entries "line_end"
    <*> Rule.defaulted (Rule.optional (Rule.list ReferenceMeta.check)) none entries "references"

/-- The metadata that data give. -/
def check : Datum → Checked Metadata :=
  Rule.model checkFields

end Metadata

end BlockDoc
