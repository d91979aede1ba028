import BlockDoc.Decimal.Text
import BlockDoc.TypedValue.Basic

/-!
# Plain data of typed values

The data as which a typed value stands in a document. A value whose type has no plain form, or whose
number cannot be given, has none, and neither has a sequence or record with such a part.

## Main definitions

* `Decimal.toDatum?` — a number as an integer if it is integral, and else as a floating-point number
* `TypedValue.plain?` — the plain data of a typed value
-/

namespace BlockDoc

/-- A floating-point number as data, unless it is infinite or `nan`. -/
def Binary64.toDatum? (x : Binary64) : Option Datum :=
  if x.isFinite then some (.float x) else none

/-- A finite number as data: an integer, exactly, if it is integral, and else the nearest
floating-point number. Numbers that round to infinity have no such form. -/
def Decimal.toDatum? (d : Decimal) : Option Datum :=
  match d.toInt? with
  | some n => some (.int n)
  | none => d.toBinary64.toDatum?

/-- Whether the items of a sequence have an order, so that they can be given as a list. -/
def SequenceKind.isOrdered : SequenceKind → Bool
  | .set => false
  | _ => true

namespace TypedValue

/-- The data of a number. -/
def plainNumber? (text : Option String) : Option Datum := do
  let s ← text
  let d ← Decimal.ofText? s
  d.toDatum?

mutual

/-- The plain data of a typed value. Nulls and unknown values are null. -/
def plain? : TypedValue → Option Datum
  | .null _ => some .null
  | .unknown _ => some .null
  | .string payload => some payload
  | .number text => plainNumber? text
  | .bool payload => some (.bool payload.truthy)
  | .sequence kind none => if kind.isOrdered then some (.list []) else none
  | .sequence kind (some items) =>
    if kind.isOrdered then (plainItems? items).map .list else none
  | .record _ none => some (.map [])
  | .record _ (some members) => (plainMembers? members).map .map
  | .foreign _ _ => none
termination_by structural t => t

/-- The plain data of the items of a sequence. -/
def plainItems? : List TypedValue → Option (List Datum)
  | [] => some []
  | t :: rest => do
    let d ← plain? t
    let ds ← plainItems? rest
    return d :: ds
termination_by structural items => items

/-- The plain data of the members of a record. -/
def plainMembers? : List (Datum × TypedValue) → Option (List (Datum × Datum))
  | [] => some []
  | (k, t) :: rest => do
    let d ← plain? t
    let ds ← plainMembers? rest
    return (k, d) :: ds
termination_by structural members => members

end

end TypedValue

end BlockDoc
