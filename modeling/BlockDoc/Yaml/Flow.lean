import BlockDoc.Text.Digit
import BlockDoc.Yaml.Node

/-!
# Scalars and bracketed collections on a line

## Main definitions

* `Yaml.scanPlain` — a scalar without quotes at the start of a text
* `Yaml.scanQuoted?` — a scalar in quotes
* `Yaml.FlowState` — the machine that builds a collection from its tokens
* `Yaml.scanNode?` — a scalar or collection at the start of a text, with what follows it
-/

namespace BlockDoc

namespace Yaml

/-- Whether a text is at an end or goes on with a space or tab, as after an indicator. -/
def atBlank : List Char → Bool
  | [] => true
  | c :: _ => c == ' ' || c == '\t'

/-! ## Scalars without quotes -/

/-- Whether a scalar without quotes starts here. Most punctuation starts none; a minus, question
mark or colon does if no blank follows, the latter two only outside brackets. -/
def startsPlain (inFlow : Bool) : List Char → Bool
  | [] => false
  | c :: cs =>
    if " \t".toList.contains c then false
    else if c = '-' then !atBlank cs
    else if c = '?' ∨ c = ':' then !inFlow && !atBlank cs
    else !(",[]\x7b\x7d#&*!|>\'\"%@\x60".toList.contains c)

/-- Whether a scalar without quotes ends before this text. A colon ends it if a blank follows, and
brackets, commas and question marks end it within brackets, as does a colon before one of them. -/
def endsPlain (inFlow : Bool) : List Char → Bool
  | [] => true
  | c :: cs =>
    if c = '\t' then true
    else if c = ':' then
      atBlank cs || (inFlow && (cs.head?.any fun d => ",[]\x7b\x7d".toList.contains d))
    else inFlow && ",?[]\x7b\x7d".toList.contains c

/-- The scalar without quotes that continues a text, and what follows it. `done` holds its
characters so far in reverse, and `spaces` counts the spaces after them, which belong to the scalar
only if it goes on. A number sign after a space starts a comment. -/
def scanPlainFrom (inFlow : Bool) (done : List Char) (spaces : Nat) :
    List Char → List Char × List Char
  | [] => (done.reverse, [])
  | c :: cs =>
    if c = ' ' then scanPlainFrom inFlow done (spaces + 1) cs
    else if (c = '#' ∧ 0 < spaces) ∨ endsPlain inFlow (c :: cs) = true then (done.reverse, c :: cs)
    else scanPlainFrom inFlow (c :: (List.replicate spaces ' ' ++ done)) 0 cs

/-- The scalar without quotes at the start of a text, and what follows it. -/
def scanPlain (inFlow : Bool) (cs : List Char) : List Char × List Char :=
  scanPlainFrom inFlow [] 0 cs

/-! ## Scalars in quotes -/

/-- The character that a single character after a backslash stands for. -/
def simpleEscape? (c : Char) : Option Char :=
  match c with
  | '0' => some '\x00'
  | 'a' => some '\x07'
  | 'b' => some '\x08'
  | 't' => some '\t'
  | '\t' => some '\t'
  | 'n' => some '\n'
  | 'v' => some '\x0b'
  | 'f' => some '\x0c'
  | 'r' => some '\r'
  | 'e' => some '\x1b'
  | ' ' => some ' '
  | '"' => some '"'
  | '\\' => some '\\'
  | '/' => some '/'
  | 'N' => some '\u0085'
  | '_' => some '\u00a0'
  | 'L' => some '\u2028'
  | 'P' => some '\u2029'
  | _ => none

/-- The character with the code point that hexadecimal digits denote. -/
def codePoint? (ds : List Char) : Option Char := do
  let ds ← ds.mapM Text.hexDigit?
  let n := Text.ofDigits 16 ds
  if n < 0xD800 ∨ (0xDFFF < n ∧ n < 0x110000) then some (Char.ofNat n) else none

/-- The rest of a scalar in double quotes, and what follows it. -/
def scanDouble? (done : List Char) : List Char → Option (List Char × List Char)
  | [] => none
  | '"' :: cs => some (done.reverse, cs)
  | '\\' :: 'x' :: a :: b :: cs => do
    let c ← codePoint? [a, b]
    scanDouble? (c :: done) cs
  | '\\' :: 'u' :: a :: b :: c :: d :: cs => do
    let c ← codePoint? [a, b, c, d]
    scanDouble? (c :: done) cs
  | '\\' :: 'U' :: a :: b :: c :: d :: e :: f :: g :: h :: cs => do
    let c ← codePoint? [a, b, c, d, e, f, g, h]
    scanDouble? (c :: done) cs
  | '\\' :: c :: cs => do
    let c ← simpleEscape? c
    scanDouble? (c :: done) cs
  | c :: cs => if c = '\\' then none else scanDouble? (c :: done) cs

/-- The rest of a scalar in single quotes, in which a quote is written twice, and what follows. -/
def scanSingle? (done : List Char) : List Char → Option (List Char × List Char)
  | [] => none
  | '\'' :: '\'' :: cs => scanSingle? ('\'' :: done) cs
  | '\'' :: cs => some (done.reverse, cs)
  | c :: cs => scanSingle? (c :: done) cs

/-- The scalar in quotes at the start of a text, and what follows it. -/
def scanQuoted? : List Char → Option (List Char × List Char)
  | '"' :: cs => scanDouble? [] cs
  | '\'' :: cs => scanSingle? [] cs
  | _ => none

/-! ## Collections in brackets -/

/-- A token within brackets. -/
inductive FlowToken
  | mark (c : Char)
  | scalar (n : Node)

/-- The tokens of a text within `depth` brackets up to the end of the outermost one, and what
follows it. The next `skip` characters belong to a token already found. A collection ends on the
line on which it begins. -/
def flowTokens? (depth skip : Nat) : List Char → Option (List FlowToken × List Char)
  | [] => none
  | c :: cs =>
    match skip with
    | k + 1 => flowTokens? depth k cs
    | 0 =>
      if c = ' ' then flowTokens? depth 0 cs
      else if c = '[' ∨ c = '\x7b' then
        (flowTokens? (depth + 1) 0 cs).map fun r => (.mark c :: r.1, r.2)
      else if c = ']' ∨ c = '\x7d' then
        if depth ≤ 1 then some ([.mark c], cs)
        else (flowTokens? (depth - 1) 0 cs).map fun r => (.mark c :: r.1, r.2)
      else if c = ',' ∨ c = ':' then
        (flowTokens? depth 0 cs).map fun r => (.mark c :: r.1, r.2)
      else if c = '"' ∨ c = '\'' then
        match scanQuoted? (c :: cs) with
        | none => none
        | some (text, rest) =>
          (flowTokens? depth (cs.length - rest.length) cs).map fun r =>
            (.scalar (.quoted (String.ofList text)) :: r.1, r.2)
      else if startsPlain true (c :: cs) then
        let (text, rest) := scanPlain true (c :: cs)
        (flowTokens? depth (cs.length - rest.length) cs).map fun r =>
          (.scalar (.plain (String.ofList text)) :: r.1, r.2)
      else none

/-- A collection with a node missing: a list with an item missing or with the value of a single pair
missing, or a mapping with a key or with a value missing. What stands before is in reverse. -/
inductive FlowFrame
  | item (before : List Node)
  | pair (before : List Node) (key : Node)
  | key (before : List (Node × Node))
  | value (before : List (Node × Node)) (key : Node)

/-- What may follow within the collections `outer`. -/
inductive FlowState
  /-- The innermost frame lacks a node. -/
  | missing (frame : FlowFrame) (outer : List FlowFrame)
  /-- After an item that may turn out to be the key of a single pair. -/
  | afterItem (before : List Node) (item : Node) (outer : List FlowFrame)
  /-- After a whole pair in a list. -/
  | afterPair (before : List Node) (outer : List FlowFrame)
  /-- After a key of a mapping. -/
  | afterKey (before : List (Node × Node)) (key : Node) (outer : List FlowFrame)
  /-- After a member of a mapping. -/
  | afterMember (before : List (Node × Node)) (outer : List FlowFrame)
  /-- After the outermost collection. -/
  | finished (n : Node)

/-- The state after the missing node of a frame. -/
def FlowState.fill (n : Node) : FlowFrame → List FlowFrame → FlowState
  | .item before, outer => .afterItem before n outer
  | .pair before key, outer => .afterPair (.mapping [(key, n)] :: before) outer
  | .key before, outer => .afterKey before n outer
  | .value before key, outer => .afterMember ((key, n) :: before) outer

/-- The state after a collection ends. -/
def FlowState.close (n : Node) : List FlowFrame → FlowState
  | [] => .finished n
  | frame :: outer => fill n frame outer

/-- The state after the end of a list with the given items in reverse. -/
def FlowState.closeList (items : List Node) (outer : List FlowFrame) : FlowState :=
  close (.sequence items.reverse) outer

/-- The state after the end of a mapping with the given members in reverse. -/
def FlowState.closeMapping (members : List (Node × Node)) (outer : List FlowFrame) : FlowState :=
  close (.mapping members.reverse) outer

/-- The state after a token. A comma may stand before the closing bracket, and a value that is not
written is absent. -/
def FlowState.step? : FlowState → FlowToken → Option FlowState
  | .missing frame outer, .scalar n => some (fill n frame outer)
  | .missing frame outer, .mark '[' => some (.missing (.item []) (frame :: outer))
  | .missing frame outer, .mark '\x7b' => some (.missing (.key []) (frame :: outer))
  | .missing (.item before) outer, .mark ']' => some (closeList before outer)
  | .missing (.key before) outer, .mark '\x7d' => some (closeMapping before outer)
  | .missing (.pair before key) outer, .mark ',' =>
    some (.missing (.item (.mapping [(key, .absent)] :: before)) outer)
  | .missing (.pair before key) outer, .mark ']' =>
    some (closeList (.mapping [(key, .absent)] :: before) outer)
  | .missing (.value before key) outer, .mark ',' =>
    some (.missing (.key ((key, .absent) :: before)) outer)
  | .missing (.value before key) outer, .mark '\x7d' =>
    some (closeMapping ((key, .absent) :: before) outer)
  | .afterItem before n outer, .mark ',' => some (.missing (.item (n :: before)) outer)
  | .afterItem before n outer, .mark ']' => some (closeList (n :: before) outer)
  | .afterItem before n outer, .mark ':' => some (.missing (.pair before n) outer)
  | .afterPair before outer, .mark ',' => some (.missing (.item before) outer)
  | .afterPair before outer, .mark ']' => some (closeList before outer)
  | .afterKey before k outer, .mark ':' => some (.missing (.value before k) outer)
  | .afterKey before k outer, .mark ',' => some (.missing (.key ((k, .absent) :: before)) outer)
  | .afterKey before k outer, .mark '\x7d' => some (closeMapping ((k, .absent) :: before) outer)
  | .afterMember before outer, .mark ',' => some (.missing (.key before) outer)
  | .afterMember before outer, .mark '\x7d' => some (closeMapping before outer)
  | _, _ => none

/-- The collection that the tokens after its opening bracket complete. -/
def FlowState.run? (s : FlowState) : List FlowToken → Option Node
  | [] =>
    match s with
    | .finished n => some n
    | _ => none
  | t :: ts => (s.step? t).bind fun s => s.run? ts

/-- The collection whose opening bracket stands before the text, and what follows it. -/
def scanFlow? (frame : FlowFrame) (cs : List Char) : Option (Node × List Char) := do
  let (tokens, rest) ← flowTokens? 1 0 cs
  let n ← FlowState.run? (.missing frame []) tokens
  some (n, rest)

/-! ## Nodes -/

/-- The scalar or collection at the start of a text, and what follows it. -/
def scanNode? (cs : List Char) : Option (Node × List Char) :=
  match cs with
  | '[' :: rest => scanFlow? (.item []) rest
  | '\x7b' :: rest => scanFlow? (.key []) rest
  | c :: _ =>
    if c = '"' ∨ c = '\'' then
      (scanQuoted? cs).map fun r => (.quoted (String.ofList r.1), r.2)
    else if startsPlain false cs then
      let (text, rest) := scanPlain false cs
      some (.plain (String.ofList text), rest)
    else none
  | [] => none

end Yaml

end BlockDoc
