import BlockDoc.Text.Digit
import BlockDoc.Text.Lines
import BlockDoc.Validation.Rule

/-!
# Diagnostics

The problems that the parser has reported while it produced a block tree.

## Main definitions

* `Diagnostic` — a problem
* `Diagnostic.text` — a problem in one line
* `Diagnostic.isError` — whether a problem is an error
-/

namespace BlockDoc

/-- A problem that the parser has reported, and its place as far as that is known. -/
structure Diagnostic where
  severity : String := "error"
  summary : String
  filename : Option String := none
  line : Option Int := none
  deriving DecidableEq, Repr

namespace Diagnostic

/-- The diagnostic that the fields of a mapping give. -/
def checkFields (entries : List (Datum × Datum)) : Checked Diagnostic :=
  Diagnostic.mk
    <$> Rule.defaulted Rule.string "error" entries "severity"
    <*> Rule.required Rule.string entries "summary"
    <*> Rule.defaulted (Rule.optional Rule.string) none entries "filename"
    <*> Rule.defaulted (Rule.optional Rule.integer) none entries "line"

/-- The diagnostic that data give. -/
def check : Datum → Checked Diagnostic :=
  Rule.model checkFields

/-- The place of a problem in front of its summary; a line without a file is left out. -/
def location (d : Diagnostic) : String :=
  match d.filename, d.line with
  | none, _ => ""
  | some file, line =>
    if file = "" then ""
    else match line with
      | some n => file ++ ":" ++ Text.intText n ++ ": "
      | none => file ++ ": "

/-- A problem in one line. -/
def text (d : Diagnostic) : String :=
  d.location ++ d.summary

/-- Whether a problem is an error, by the name of its severity in letters of any case. -/
def isError (d : Diagnostic) : Bool :=
  Text.lowerAscii d.severity = "error"

end Diagnostic

end BlockDoc
