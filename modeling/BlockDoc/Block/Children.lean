import BlockDoc.Block.Basic
import BlockDoc.Journal

/-!
# The logical children of a block

The evaluator lists the children of a block in source order, and a dynamic block among them twice:
as the template, and as the instances into which it expands, which stand on lines of the template.
The logical children are the blocks without the templates and without surplus copies of instances.

## Main definitions

* `Block.forEachCount` — the number of instances into which a template expands
* `Block.Selection` — what is known after a part of the children
* `Block.selectFrom` — which children are kept
* `Block.logicalChildren` — the children that are kept
-/

namespace BlockDoc

namespace Block

/-- The type of templates. -/
def dynamicType : String := "dynamic"

/-- The note on a template whose collection is none. -/
def notCollection (b : Block) (value : TypedValue) : LogRecord :=
  ⟨.warning, "tfdoc.converter.children",
    "for_each of " ++ b.reference ++ " is a " ++ value.typeName ++ ", not a collection"⟩

/-- The number of instances into which a template with the given collection expands: none, if the
collection is null or unknown, or is no collection. -/
def instanceCount (b : Block) (value : TypedValue) : Journaled Nat :=
  if value.isNull || !value.isKnown then pure 0
  else match value.length? with
    | some n => pure n
    | none => do
      Journaled.note (notCollection b value)
      return 0

/-- The number of instances into which a template expands. -/
def forEachCount (b : Block) : Journaled Nat :=
  match b.getAttribute? "for_each" with
  | none => pure 0
  | some a => instanceCount b a.value

/-- What is known after a part of the children: how many instances are still expected, and the
furthest line on which a child ends. -/
structure Selection where
  expected : Int
  furthest : Nat

/-- Nothing is expected and no line is covered. -/
def Selection.start : Selection := ⟨0, 0⟩

/-- Whether a child is kept, and what is known after it. A template is dropped, and its instances
are expected. A child that starts at or after the furthest line is a new one. A child that starts
before that line is an instance, and is kept as long as more than one instance is expected. -/
def Selection.step (s : Selection) (child : Block) : Journaled (Bool × Selection) :=
  if child.type = dynamicType then do
    let n ← child.forEachCount
    return (false, ⟨s.expected + n, s.furthest⟩)
  else if s.furthest ≤ child.range.startLine then
    pure (true, ⟨s.expected, child.range.endLine⟩)
  else
    pure (0 < s.expected - 1, ⟨s.expected - 1, s.furthest⟩)

/-- Which of the children are kept, given what is known before them. -/
def selectFrom (s : Selection) : List Block → Journaled (List Bool)
  | [] => pure []
  | child :: rest => do
    let (kept, s) ← s.step child
    let others ← selectFrom s rest
    return kept :: others

/-- Which of the children of a block are kept. -/
def selection (b : Block) : Journaled (List Bool) :=
  selectFrom .start b.children

/-- The elements of a list that are marked. -/
def marked {α : Type} (marks : List Bool) (xs : List α) : List α :=
  ((marks.zip xs).filter Prod.fst).map Prod.snd

/-- The logical children of a block, in source order. -/
def logicalChildren (b : Block) : Journaled (List Block) := do
  let marks ← b.selection
  return marked marks b.children

end Block

end BlockDoc
