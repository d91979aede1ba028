import BlockDoc.Binary64.Basic
import BlockDoc.Table

/-!
# Data of the tree formats

The values that a tree file or a configuration file holds before they are checked against a model.
Integers are kept apart from floating-point numbers, and mappings keep their order. Strings consist
of characters. The escapes of JSON can also name surrogates without a partner, which are none; all
of these stand as the replacement character here, and what is said about strings does not extend to
strings that hold them.

## Main definitions

* `Datum` — the values
* `Datum.sameKey` — when two values are one key of a mapping
* `Datum.truthy` — whether a value counts as present in a condition
* `Datum.kindName` — the name of the kind of a value
* `Datum.field?` — the member of a mapping under a name
-/

namespace BlockDoc

/-- A value of a tree format. The keys of a mapping are pairwise different in the sense of
`Datum.sameKey`; in JSON they are strings. -/
inductive Datum
  | null
  | bool (b : Bool)
  | int (n : Int)
  | float (x : Binary64)
  | str (s : String)
  | list (items : List Datum)
  | map (entries : List (Datum × Datum))

namespace Datum

instance : Inhabited Datum := ⟨.null⟩

/-- The integer that a boolean, an integer or an integral number equals. -/
def toInt? : Datum → Option Int
  | .bool b => some (if b then 1 else 0)
  | .int n => some n
  | .float x => x.toInt?
  | _ => none

/-- Whether two values are the same key. Booleans count as the integers 0 and 1, numbers are
compared by value, and lists and mappings are no keys at all. -/
def sameKey (a b : Datum) : Bool :=
  match a, b with
  | .null, .null => true
  | .str s, .str t => s == t
  | .float x, .float y => x.same y
  | a, b =>
    match a.toInt?, b.toInt? with
    | some m, some n => m == n
    | _, _ => false

instance : BEq Datum := ⟨sameKey⟩

/-- Whether a value counts as present in a condition: all but null, false, zeros, and the empty
string, list and mapping. -/
def truthy : Datum → Bool
  | .null => false
  | .bool b => b
  | .int n => n != 0
  | .float x => !x.isZero
  | .str s => s != ""
  | .list items => !items.isEmpty
  | .map entries => !entries.isEmpty

/-- The name of the kind of a value, as messages give it. -/
def kindName : Datum → String
  | .null => "NoneType"
  | .bool _ => "bool"
  | .int _ => "int"
  | .float _ => "float"
  | .str _ => "str"
  | .list _ => "list"
  | .map _ => "dict"

/-- Whether a value is null. -/
def isNull : Datum → Bool
  | .null => true
  | _ => false

/-- A mapping with string keys. -/
def object (entries : List (String × Datum)) : Datum :=
  .map (entries.map fun e => (.str e.1, e.2))

/-- The value under a string key in the entries of a mapping. -/
def member? (entries : List (Datum × Datum)) (name : String) : Option Datum :=
  Table.find? entries (.str name)

/-- The member of a mapping under a name. -/
def field? (d : Datum) (name : String) : Option Datum :=
  match d with
  | .map entries => member? entries name
  | _ => none

end Datum

end BlockDoc
