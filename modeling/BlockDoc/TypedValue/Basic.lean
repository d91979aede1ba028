import BlockDoc.Datum.Basic

/-!
# Typed values

The values to which the expressions of a configuration evaluate. Each has a tag that names its type;
the sequences and records among them hold typed values again, and numbers are kept as text, so that
no digit is lost.

## Main definitions

* `Tag` — the tags whose values are understood
* `ForeignTag` — any other tag
* `TypedValue` — the values
* `TypedValue.length?`, `TypedValue.length` — the number of items or members, if there is one
-/

namespace BlockDoc

/-- The types of values that hold items in order. -/
inductive SequenceKind
  | list
  | tuple
  | set
  deriving DecidableEq, Repr

/-- The types of values that hold members under keys. -/
inductive RecordKind
  | object
  | map
  deriving DecidableEq, Repr

/-- The tags whose values are understood. -/
inductive Tag
  | null
  | unknown
  | string
  | number
  | bool
  | sequence (kind : SequenceKind)
  | record (kind : RecordKind)
  deriving DecidableEq, Repr

/-- The name of a type of sequences. -/
def SequenceKind.name : SequenceKind → String
  | .list => "list"
  | .tuple => "tuple"
  | .set => "set"

/-- The name of a type of records. -/
def RecordKind.name : RecordKind → String
  | .object => "object"
  | .map => "map"

namespace Tag

/-- The name of a tag. -/
def name : Tag → String
  | .null => "null"
  | .unknown => "unknown"
  | .string => "string"
  | .number => "number"
  | .bool => "bool"
  | .sequence kind => kind.name
  | .record kind => kind.name

/-- All tags. -/
def all : List Tag :=
  [.null, .unknown, .string, .number, .bool, .sequence .list, .sequence .tuple, .sequence .set,
   .record .object, .record .map]

/-- The tag of a name. -/
def ofName? (s : String) : Option Tag :=
  all.find? fun t => t.name = s

@[simp]
theorem ofName?_name (t : Tag) : ofName? t.name = some t := by
  cases t with
  | sequence kind => cases kind <;> rfl
  | record kind => cases kind <;> rfl
  | _ => rfl

/-- A tag that is found under a name has that name. -/
theorem name_of_ofName? {s : String} {t : Tag} (h : ofName? s = some t) : t.name = s := by
  simpa using List.find?_some h

end Tag

/-- A tag whose values are not understood and are kept as they are. -/
structure ForeignTag where
  name : String
  isForeign : Tag.ofName? name = none

/-- A value with its tag. The payload of a value that is not understood, or needs none, is kept
unchanged; the payloads of numbers, sequences and records may be absent. -/
inductive TypedValue
  | null (payload : Datum)
  | unknown (payload : Datum)
  | string (payload : Datum)
  | number (text : Option String)
  | bool (payload : Datum)
  | sequence (kind : SequenceKind) (items : Option (List TypedValue))
  | record (kind : RecordKind) (members : Option (List (Datum × TypedValue)))
  | foreign (tag : ForeignTag) (payload : Datum)

namespace TypedValue

instance : Inhabited TypedValue := ⟨.null .null⟩

/-- The name of the type of a value. -/
def typeName : TypedValue → String
  | .null _ => Tag.null.name
  | .unknown _ => Tag.unknown.name
  | .string _ => Tag.string.name
  | .number _ => Tag.number.name
  | .bool _ => Tag.bool.name
  | .sequence kind _ => kind.name
  | .record kind _ => kind.name
  | .foreign tag _ => tag.name

/-- Whether a value is a null. -/
def isNull : TypedValue → Bool
  | .null _ => true
  | _ => false

/-- Whether a value is known. -/
def isKnown : TypedValue → Bool
  | .unknown _ => false
  | _ => true

/-- The number of items of a sequence or members of a record, zero if the payload is absent. Other
values have no length. -/
def length? : TypedValue → Option Nat
  | .sequence _ items => some (items.getD []).length
  | .record _ members => some (members.getD []).length
  | _ => none

/-- The fault of asking for the length of a value that has none. -/
structure NoLength where
  typeName : String
  deriving DecidableEq, Repr

/-- The message for a value without a length. -/
def NoLength.message (f : NoLength) : String :=
  "value of type '" ++ f.typeName ++ "' has no length"

/-- The length of a value, or the fault of having none. -/
def length (t : TypedValue) : Except NoLength Nat :=
  match t.length? with
  | some n => .ok n
  | none => .error ⟨t.typeName⟩

end TypedValue

end BlockDoc
