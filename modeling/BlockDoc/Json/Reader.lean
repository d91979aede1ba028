import BlockDoc.Json.Token

/-!
# Reading JSON

The reader is a machine that takes one token after the other. Its state is what it expects next,
with the containers around that place, so that the first token that does not fit decides the fault.

## Main definitions

* `Json.State`, `Json.State.step` — the machine
* `Json.Fault` — why a text is not read
* `Json.read` — the value of a text, or the first fault
-/

namespace BlockDoc

namespace Json

/-- Why a text is not read: it is not JSON, or it holds an integer of too many digits. -/
inductive Fault
  | malformed (problem : Problem) (offset : Nat)
  | oversized (digits : Nat)
  deriving DecidableEq, Repr

/-- The wording of a problem. -/
def Problem.message : Problem → String
  | .valueExpected => "Expecting value"
  | .nameExpected => "Expecting property name enclosed in double quotes"
  | .colonExpected => "Expecting ':' delimiter"
  | .commaExpected => "Expecting ',' delimiter"
  | .extraData => "Extra data"
  | .unterminatedString => "Unterminated string starting at"
  | .controlCharacter => "Invalid control character at"
  | .unknownEscape => "Invalid \\escape"
  | .malformedCodePoint => "Invalid \\uXXXX escape"
  | .byteOrderMark => "Unexpected UTF-8 BOM (decode using utf-8-sig)"

/-- A container with a value missing: a list with the items before that value in reverse, or a
mapping with the members before it and its name. -/
inductive Frame
  | item (before : List Datum)
  | member (before : List (Datum × Datum)) (name : String)

/-- What the reader expects, within the containers `outer`, the innermost first. -/
inductive State
  /-- A value. -/
  | value (outer : List Frame)
  /-- The first item of a list, or its end. -/
  | firstItem (outer : List Frame)
  /-- A comma or the end of a list, after the given items in reverse. -/
  | afterItem (items : List Datum) (outer : List Frame)
  /-- The first name of a mapping, or its end. -/
  | firstName (outer : List Frame)
  /-- A name, after the given members. -/
  | nextName (members : List (Datum × Datum)) (outer : List Frame)
  /-- A colon after a name. -/
  | colon (members : List (Datum × Datum)) (name : String) (outer : List Frame)
  /-- A comma or the end of a mapping, after the given members. -/
  | afterMember (members : List (Datum × Datum)) (outer : List Frame)
  /-- Nothing more. -/
  | finished (d : Datum)

/-- The state after a value is complete. -/
def State.complete (d : Datum) : List Frame → State
  | [] => .finished d
  | .item before :: outer => .afterItem (d :: before) outer
  | .member before name :: outer => .afterMember (Table.put before (.str name) d) outer

/-- The state after a token where a value is expected. -/
def State.takeValue (outer : List Frame) (t : Token) : Except Fault State :=
  match t.lexeme with
  | .scalar d => .ok (.complete d outer)
  | .text s => .ok (.complete (.str s) outer)
  | .bracket '[' => .ok (.firstItem outer)
  | .bracket '\x7b' => .ok (.firstName outer)
  | .broken problem offset => .error (.malformed problem offset)
  | .oversized digits => .error (.oversized digits)
  | _ => .error (.malformed .valueExpected t.offset)

/-- The state after a token where a name is expected. -/
def State.takeName (members : List (Datum × Datum)) (outer : List Frame) (t : Token) :
    Except Fault State :=
  match t.lexeme with
  | .text s => .ok (.colon members s outer)
  | .broken problem offset => .error (.malformed problem offset)
  | _ => .error (.malformed .nameExpected t.offset)

/-- The state after a token. -/
def State.step : State → Token → Except Fault State
  | .value outer, t => takeValue outer t
  | .firstItem outer, t =>
    match t.lexeme with
    | .bracket ']' => .ok (.complete (.list []) outer)
    | _ => takeValue (.item [] :: outer) t
  | .afterItem items outer, t =>
    match t.lexeme with
    | .bracket ',' => .ok (.value (.item items :: outer))
    | .bracket ']' => .ok (.complete (.list items.reverse) outer)
    | _ => .error (.malformed .commaExpected t.offset)
  | .firstName outer, t =>
    match t.lexeme with
    | .bracket '\x7d' => .ok (.complete (.map []) outer)
    | _ => takeName [] outer t
  | .nextName members outer, t => takeName members outer t
  | .colon members name outer, t =>
    match t.lexeme with
    | .bracket ':' => .ok (.value (.member members name :: outer))
    | _ => .error (.malformed .colonExpected t.offset)
  | .afterMember members outer, t =>
    match t.lexeme with
    | .bracket ',' => .ok (.nextName members outer)
    | .bracket '\x7d' => .ok (.complete (.map members) outer)
    | _ => .error (.malformed .commaExpected t.offset)
  | .finished _, t => .error (.malformed .extraData t.offset)

/-- The value that is complete at the end of the text, or what is missing there. -/
def State.result (length : Nat) : State → Except Fault Datum
  | .value _ => .error (.malformed .valueExpected length)
  | .firstItem _ => .error (.malformed .valueExpected length)
  | .afterItem _ _ => .error (.malformed .commaExpected length)
  | .firstName _ => .error (.malformed .nameExpected length)
  | .nextName _ _ => .error (.malformed .nameExpected length)
  | .colon _ _ _ => .error (.malformed .colonExpected length)
  | .afterMember _ _ => .error (.malformed .commaExpected length)
  | .finished d => .ok d

/-- The run of the machine over tokens. -/
def State.run (length : Nat) (s : State) : List Token → Except Fault Datum
  | [] => s.result length
  | t :: ts =>
    match s.step t with
    | .ok s => s.run length ts
    | .error f => .error f

/-- The value of a JSON text, or the first fault in it. A text must not begin with a byte order
mark. -/
def read (cs : List Char) : Except Fault Datum :=
  match cs with
  | '\ufeff' :: _ => .error (.malformed .byteOrderMark 0)
  | cs => State.run cs.length (.value []) (tokens cs)

end Json

end BlockDoc
