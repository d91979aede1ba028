import BlockDoc.Datum.Literal
import BlockDoc.Validation.Rule

/-!
# Parser options

The options of the parser that has produced a block tree. The conversion itself does not depend on
them, but for the one that refuses a tree for which the parser has reported errors.

## Main definitions

* `ParserOptions` — the options
* `ParserOptions.check` — the options that data give
* `ParserOptions.toDatum` — the options as a mapping
-/

namespace BlockDoc

/-- The options of the parser: verbose diagnostics, whether reported errors are fatal, whether
remote modules may be fetched, and the files that define variables. -/
structure ParserOptions where
  debug : Bool := false
  stopOnError : Bool := false
  allowDownloads : Bool := false
  variableFiles : List String := []
  deriving DecidableEq, Repr

namespace ParserOptions

/-- The options that the fields of a mapping give. -/
def checkFields (entries : List (Datum × Datum)) : Checked ParserOptions :=
  ParserOptions.mk
    <$> Rule.defaulted Rule.boolean false entries "debug"
    <*> Rule.defaulted Rule.boolean false entries "stop_on_hcl_error"
    <*> Rule.defaulted Rule.boolean false entries "allow_downloads"
    <*> Rule.defaulted (Rule.list Rule.string) [] entries "tfvars_paths"

/-- The options that data give. -/
def check : Datum → Checked ParserOptions :=
  Rule.model checkFields

/-- The options as a mapping. -/
def toDatum (o : ParserOptions) : Datum :=
  .object
    [("debug", .bool o.debug), ("stop_on_hcl_error", .bool o.stopOnError),
     ("allow_downloads", .bool o.allowDownloads),
     ("tfvars_paths", .list (o.variableFiles.map .str))]

end ParserOptions

end BlockDoc
