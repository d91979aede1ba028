import BlockDoc.Binary64.Shortest
import BlockDoc.Datum.Basic
import BlockDoc.Text.Digit
import BlockDoc.Text.Lines
import BlockDoc.Text.Quoted

/-!
# Data as text in messages

One-line forms of a value, as they appear in log lines and where a number is given by something that
is not a text.

## Main definitions

* `Datum.literal` — the form in which strings are quoted
* `Datum.display` — the form in which a string stands for itself
-/

namespace BlockDoc

namespace Datum

/-- The spelling of a truth value. -/
def boolText (b : Bool) : String :=
  if b then "True" else "False"

mutual

/-- A value in one line: strings in quotes, lists in brackets, and mappings in braces. -/
def literal : Datum → String
  | .null => "None"
  | .bool b => boolText b
  | .int n => Text.intText n
  | .float x => x.text
  | .str s => Text.quoted s
  | .list items => "[" ++ Text.joinWith ", " (literals items) ++ "]"
  | .map entries => "\x7b" ++ Text.joinWith ", " (entryLiterals entries) ++ "\x7d"

/-- The items of a list, one by one. -/
def literals : List Datum → List String
  | [] => []
  | d :: rest => literal d :: literals rest

/-- The members of a mapping, one by one, each as its key, a colon and its value. -/
def entryLiterals : List (Datum × Datum) → List String
  | [] => []
  | (k, v) :: rest => (literal k ++ ": " ++ literal v) :: entryLiterals rest

end

/-- The text of a value where a text is called for: a string is its own text. -/
def display : Datum → String
  | .str s => s
  | d => literal d

end Datum

end BlockDoc
