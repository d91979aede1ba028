import BlockDoc.Datum.Basic
import BlockDoc.Text.Digit

/-!
# Hosts

YAML texts are read by a library, and texts and data are gone through by nested calls, which cannot
be nested without end. Both belong to the host of the program, and whatever reads files has a host
as a parameter. JSON texts are read by `Json.read` on every host.

A host may know values that are no data: dates, octets and sets, strings with surrogates that have
no partner, collections that hold themselves, and integers of more digits than can be written. A
text with such a value counts as foreign, and reading it ends there, whatever else could come of it.

## Main definitions

* `YamlFault` — why a YAML text gives no data
* `Host` — a reader of YAML texts, and which texts of trees can be gone through
-/

namespace BlockDoc

/-- Why a YAML text gives no data. -/
inductive YamlFault
  | malformed
  /-- A scalar has the form of a number or of a date, and has no value. -/
  | noValue (message : String)
  /-- Reading has been broken off, for example because calls would be nested too deeply. -/
  | brokenOff
  /-- The text has a value that is none of the data. -/
  | foreign
  deriving DecidableEq, Repr

/-- What the host of a program provides. -/
structure Host where
  /-- The value of a YAML text, or why there is none. -/
  readYaml : List Char → Except YamlFault Datum
  /-- Whether calls can be nested deeply enough to read the text of a tree and to go through its
  data. -/
  reaches : List Char → Bool

/-- The message for an integer of too many digits. -/
def oversizedText (digits : Nat) : String :=
  "Exceeds the limit (4300 digits) for integer string conversion: value has " ++
    Text.intText digits ++ " digits; use sys.set_int_max_str_digits() to increase the limit"

/-- The message for an integer without digits. -/
def emptyIntegerText (base : Nat) : String :=
  "invalid literal for int() with base " ++ Text.intText base ++ ": ''"

end BlockDoc
