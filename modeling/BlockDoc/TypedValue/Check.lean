import BlockDoc.Datum.Literal
import BlockDoc.TypedValue.Basic
import BlockDoc.Validation.Rule

/-!
# Typed values as data

A typed value is given by a mapping with its tag under `type` and its payload under `value`. The
payload is checked before the tag. The items of a sequence and the members of a record are checked
one after the other, and the first that fails decides the outcome: its findings keep the places that
they have within that item.

## Main definitions

* `TypedValue.check` — the typed value that data give
* `TypedValue.dump` — the data that give a typed value
-/

namespace BlockDoc

namespace TypedValue

/-! ## Reading -/

/-- The text of the payload of a number: numbers may also be given by something else than a
text. -/
def numberText : Datum → Option String
  | .null => none
  | .str s => some s
  | d => some d.literal

/-- A sequence without items, from something that is gone through item by item and whose items are
no typed values: there are none, or the first is at fault. -/
def emptySequence (kind : SequenceKind) (isEmpty : Bool) : Checked TypedValue :=
  if isEmpty then .valid (.sequence kind (some [])) else .violated .notMapping

/-- The typed value with a tag and a payload in which there are no typed values. A sequence may be
given by a string, which is gone through character by character, or by a mapping, which is gone
through key by key. -/
def ofBarePayload (tag : Tag) (payload : Datum) : Checked TypedValue :=
  match tag with
  | .null => .valid (.null payload)
  | .unknown => .valid (.unknown payload)
  | .string => .valid (.string payload)
  | .bool => .valid (.bool payload)
  | .number => .valid (.number (numberText payload))
  | .sequence kind =>
    match payload with
    | .null => .valid (.sequence kind none)
    | .str s => emptySequence kind s.toList.isEmpty
    | .list items => emptySequence kind items.isEmpty
    | .map entries => emptySequence kind entries.isEmpty
    | _ => .broken .noItems
  | .record kind =>
    match payload with
    | .null => .valid (.record kind none)
    | _ => .broken .noMembers

mutual

/-- The typed value that data give. -/
def check : Datum → Checked TypedValue
  | .map entries =>
    match Datum.member? entries "type" with
    | none => .invalid [⟨[.field "type"], .missing⟩]
    | some (.str name) =>
      match h : Tag.ofName? name with
      | some tag => checkPayloadIn tag entries
      | none =>
        .valid (.foreign ⟨name, h⟩ ((Datum.member? entries "value").getD .null))
    | some _ => .invalid [⟨[.field "type"], .notString⟩]
  | _ => .violated .notMapping
termination_by structural d => d

/-- The typed value with a tag whose payload stands among the entries of a mapping. -/
def checkPayloadIn (tag : Tag) : List (Datum × Datum) → Checked TypedValue
  | [] => ofBarePayload tag .null
  | (k, v) :: rest => if k == .str "value" then checkPayload tag v else checkPayloadIn tag rest
termination_by structural entries => entries

/-- The typed value with a tag and a payload. -/
def checkPayload (tag : Tag) : Datum → Checked TypedValue
  | .list items =>
    match tag with
    | .sequence kind => (checkItems items).map fun ts => .sequence kind (some ts)
    | tag => ofBarePayload tag (.list items)
  | .map entries =>
    match tag with
    | .record kind => (checkMembers entries).map fun ms => .record kind (some ms)
    | tag => ofBarePayload tag (.map entries)
  | payload => ofBarePayload tag payload
termination_by structural payload => payload

/-- The items of a list, up to the first fault. -/
def checkItems : List Datum → Checked (List TypedValue)
  | [] => .valid []
  | d :: rest => (check d).andThen fun t => (checkItems rest).map (t :: ·)
termination_by structural items => items

/-- The members of a mapping, up to the first fault. -/
def checkMembers : List (Datum × Datum) → Checked (List (Datum × TypedValue))
  | [] => .valid []
  | (k, v) :: rest => (check v).andThen fun t => (checkMembers rest).map ((k, t) :: ·)
termination_by structural members => members

end

/-! ## Writing -/

/-- The payload of a number. -/
def textDatum : Option String → Datum
  | none => .null
  | some s => .str s

/-- The mapping with a tag and a payload. -/
def pack (typeName : String) (payload : Datum) : Datum :=
  .object [("type", .str typeName), ("value", payload)]

mutual

/-- The data that give a typed value. -/
def dump : TypedValue → Datum
  | .null payload => pack Tag.null.name payload
  | .unknown payload => pack Tag.unknown.name payload
  | .string payload => pack Tag.string.name payload
  | .number text => pack Tag.number.name (textDatum text)
  | .bool payload => pack Tag.bool.name payload
  | .sequence kind none => pack kind.name .null
  | .sequence kind (some items) => pack kind.name (.list (dumpItems items))
  | .record kind none => pack kind.name .null
  | .record kind (some members) => pack kind.name (.map (dumpMembers members))
  | .foreign tag payload => pack tag.name payload

/-- The data of the items of a sequence. -/
def dumpItems : List TypedValue → List Datum
  | [] => []
  | t :: rest => dump t :: dumpItems rest

/-- The data of the members of a record. -/
def dumpMembers : List (Datum × TypedValue) → List (Datum × Datum)
  | [] => []
  | (k, t) :: rest => (k, dump t) :: dumpMembers rest

end

end TypedValue

end BlockDoc
