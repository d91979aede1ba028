import BlockDoc.Yaml.Flow

/-!
# Indented collections

Each line holds marks with their columns: dashes that start items of a sequence, keys of a mapping,
and nodes. The columns of the marks decide which collections they belong to.

## Main definitions

* `Yaml.Mark`, `Yaml.lineMarks?` — the marks of a line
* `Yaml.Outline`, `Yaml.Outline.step?` — the collections that are open, and the effect of a mark
* `Yaml.Outline.result` — the node that the marks describe
-/

namespace BlockDoc

namespace Yaml

/-! ## Marks -/

/-- What a mark is. -/
inductive MarkKind
  | dash
  | key (n : Node)
  | node (n : Node)

/-- A mark with its column, and whether it is the first one on its line. -/
structure Mark where
  column : Nat
  first : Bool
  kind : MarkKind

/-- The rest of a line after its nodes: spaces and a comment. -/
def isTrailer (cs : List Char) : Bool :=
  match cs.dropWhile (· == ' ') with
  | [] => true
  | c :: _ => c == '#'

/-- The longest key, in characters with the spaces after it. -/
def keyLimit : Nat := 1024

/-- The node at the end of a line, as a mark. -/
def valueMark? (column : Nat) (first : Bool) (cs : List Char) : Option (List Mark) :=
  match scanNode? cs with
  | none => none
  | some (n, rest) => if isTrailer rest then some [⟨column, first, .node n⟩] else none

/-- The marks of a text that starts at a column without a space or dash: a node, or a key with the
node after its colon, if there is one. -/
def entryMarks? (column : Nat) (first : Bool) (cs : List Char) : Option (List Mark) :=
  match scanNode? cs with
  | none => none
  | some (n, rest) =>
    match rest.dropWhile (· == ' ') with
    | ':' :: after =>
      if atBlank after && cs.length - (after.length + 1) ≤ keyLimit then
        let key : Mark := ⟨column, first, .key n⟩
        if isTrailer after then some [key]
        else
          let value := after.dropWhile (· == ' ')
          if value.head? == some '-' && atBlank (value.drop 1) then none
          else (valueMark? (column + (cs.length - value.length)) false value).map (key :: ·)
      else none
    | _ => if isTrailer rest then some [⟨column, first, .node n⟩] else none

/-- The marks of a line from a column on. -/
def marksFrom? (column : Nat) (first : Bool) : List Char → Option (List Mark)
  | [] => some []
  | c :: cs =>
    if c = ' ' then marksFrom? (column + 1) first cs
    else if c = '#' then some []
    else if c = '-' ∧ atBlank cs = true then
      (marksFrom? (column + 1) false cs).map (⟨column, first, .dash⟩ :: ·)
    else entryMarks? column first (c :: cs)

/-- The marks of a line. -/
def lineMarks? (line : List Char) : Option (List Mark) :=
  marksFrom? 0 true line

/-! ## Open collections -/

/-- An open collection at a column, with its parts so far in reverse: a sequence, whose last dash
may lack its item, or a mapping, whose last key may lack its value. -/
inductive Level
  | sequence (column : Nat) (items : List Node) (lacking : Bool)
  | mapping (column : Nat) (entries : List (Node × Node)) (key : Option Node)

/-- The column of the dashes or keys of a collection. -/
def Level.column : Level → Nat
  | .sequence c _ _ => c
  | .mapping c _ _ => c

/-- The node of a collection that ends; what is lacking is absent. -/
def Level.node : Level → Node
  | .sequence _ items lacking =>
    .sequence (if lacking then Node.absent :: items else items).reverse
  | .mapping _ entries none => .mapping entries.reverse
  | .mapping _ entries (some k) => .mapping ((k, Node.absent) :: entries).reverse

/-- The collection with the node that it lacks, or nothing if it lacks none. -/
def Level.fill? (n : Node) : Level → Option Level
  | .sequence c items true => some (.sequence c (n :: items) false)
  | .mapping c entries (some k) => some (.mapping c ((k, n) :: entries) none)
  | _ => none

/-- Whether a collection lacks a node. -/
def Level.lacksNode : Level → Bool
  | .sequence _ _ lacking => lacking
  | .mapping _ _ key => key.isSome

/-- The open collections, the innermost first, and the node of the document once it is complete. -/
structure Outline where
  levels : List Level
  root : Option Node

/-- The outline of an empty document. -/
def Outline.empty : Outline := ⟨[], none⟩

/-- The outline with a node at the place where one is lacking. -/
def Outline.place? (o : Outline) (n : Node) : Option Outline :=
  match o.levels, o.root with
  | [], none => some ⟨[], some n⟩
  | [], some _ => none
  | level :: outer, _ => (level.fill? n).map fun level => { o with levels := level :: outer }

/-- The outline with the collections closed whose columns satisfy `p`, from the innermost on up to
the first that does not. `ended` is the node of the collection closed last, which the next one
lacks. -/
def Outline.closeWhile? (p : Nat → Bool) (ended : Option Node) :
    List Level → Option Node → Option Outline
  | [], root => some ⟨[], ended.or root⟩
  | level :: outer, root =>
    let level := match ended with
      | none => some level
      | some n => level.fill? n
    match level with
    | none => none
    | some level =>
      if p level.column then closeWhile? p (some level.node) outer root
      else some ⟨level :: outer, root⟩

/-- The level that a mark opens where a node is lacking. -/
def Mark.level? (m : Mark) : Option Level :=
  match m.kind with
  | .dash => some (.sequence m.column [] true)
  | .key k => some (.mapping m.column [] (some k))
  | .node _ => none

/-- The outline with a mark at a place deeper than the innermost collection, which lacks a node. -/
def Outline.descend? (o : Outline) (m : Mark) : Option Outline :=
  match m.kind, m.level? with
  | .node n, _ => o.place? n
  | _, none => none
  | _, some level =>
    match o.levels, o.root with
    | [], none => some ⟨[level], none⟩
    | [], some _ => none
    | top :: outer, root => if top.lacksNode then some ⟨level :: top :: outer, root⟩ else none

/-- The outline with a mark at the column of the innermost collection. A dash continues a sequence
and a key continues a mapping. A dash at the column of a mapping starts a sequence if the last key
lacks its value. -/
def Outline.continue? (o : Outline) (m : Mark) : Option Outline :=
  match o.levels, m.kind with
  | .sequence c items lacking :: outer, .dash =>
    let items := if lacking then Node.absent :: items else items
    some ⟨.sequence c items true :: outer, o.root⟩
  | .mapping c entries key :: outer, .key k =>
    let entries := match key with
      | none => entries
      | some k => (k, Node.absent) :: entries
    some ⟨.mapping c entries (some k) :: outer, o.root⟩
  | .mapping c entries (some k) :: outer, .dash =>
    some ⟨.sequence m.column [] true :: .mapping c entries (some k) :: outer, o.root⟩
  | _, _ => none

/-- The outline with a mark at the column of the innermost collection, where a key ends a sequence
that is the value of a key at the same column. -/
def Outline.beside? (o : Outline) (m : Mark) : Option Outline :=
  match o.levels, m.kind with
  | .sequence c items lacking :: parent :: outer, .key _ =>
    if parent.column = c then
      (parent.fill? (Level.sequence c items lacking).node).bind fun parent =>
        Outline.continue? ⟨parent :: outer, o.root⟩ m
    else none
  | _, _ => o.continue? m

/-- The outline with a mark. The first mark of a line closes the collections at greater columns. -/
def Outline.step? (o : Outline) (m : Mark) : Option Outline := do
  let o ← if m.first then closeWhile? (fun c => m.column < c) none o.levels o.root else some o
  match o.levels with
  | [] => o.descend? m
  | top :: _ => if top.column = m.column then o.beside? m else o.descend? m

/-- The outline with marks in order. -/
def Outline.steps? (o : Outline) (ms : List Mark) : Option Outline :=
  ms.foldlM Outline.step? o

/-- The node of the document after all marks; a document without marks is absent. -/
def Outline.result? (o : Outline) : Option Node :=
  (closeWhile? (fun _ => true) none o.levels o.root).map fun o => o.root.getD Node.absent

end Yaml

end BlockDoc
