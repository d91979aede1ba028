import BlockDoc.Proofs.Block.Selection
import BlockDoc.Proofs.Outcome
import Mathlib.Data.List.Forall2

/-!
# Assembly of documents

The document of a block is assembled from the documents of its logical children, the entries of its
attributes, its identifier and its metadata. `Block.document_outcome_eq_ok` says so without the
notes and the marks through which the document is computed; the other statements follow from it.

## Main definitions

* `Block.IsPart` — the document of a child under its type

## Main results

* `Block.document_outcome_eq_ok` — how a document is assembled, and when there is one
* `Block.exists_document_of_mem` — with a document, there are those of all logical children
-/

namespace BlockDoc

namespace Block

/-- The document of a child under its type, as a part of the document of its parent. -/
def IsPart (index : ReferenceIndex) (c : Block) (part : String × Document) : Prop :=
  part.1 = c.type ∧ (document index none none c).outcome = .ok part.2

-- ════════════════════════════════════════════════════════════════════════
-- Parts and the whole
-- ════════════════════════════════════════════════════════════════════════

theorem childDocuments_outcome_eq_ok {index : ReferenceIndex} {marks : List Bool}
    {children : List Block} {parts : List (String × Document)} :
    (childDocuments index marks children).outcome = .ok parts ↔
      List.Forall₂ (IsPart index) (marked marks children) parts := by
  induction children generalizing marks parts with
  | nil =>
    cases marks <;> simp [childDocuments, eq_comm]
  | cons c rest ih =>
    cases marks with
    | nil => simp [childDocuments, eq_comm]
    | cons m marks =>
      cases m with
      | false => simpa [childDocuments] using ih
      | true =>
        simp only [childDocuments, marked_cons_cons, if_true, Attempt.outcome_bind_eq_ok, ih,
          Attempt.outcome_pure, Except.ok.injEq, List.forall₂_cons_left_iff]
        constructor
        · rintro ⟨d, hd, others, hothers, rfl⟩
          exact ⟨(c.type, d), others, ⟨rfl, hd⟩, hothers, rfl⟩
        · rintro ⟨⟨type, d⟩, others, ⟨htype, hd⟩, hothers, rfl⟩
          obtain rfl : type = c.type := htype
          exact ⟨d, hd, others, hothers, rfl⟩

/-- A document is assembled from the documents of the logical children and the entries of the
attributes, and there is one if and only if there are all of these. -/
theorem document_outcome_eq_ok {index : ReferenceIndex} {path type : Option String} {b : Block}
    {d : Document} :
    (document index path type b).outcome = .ok d ↔
      ∃ parts values, List.Forall₂ (IsPart index) b.logicalChildren.result parts ∧
        (b.attributeEntries b.attributes).outcome = .ok values ∧
        assemble parts values b.id (b.metadata index path type) = d := by
  cases b with
  | mk blockType labels attributes children id key range explicit =>
    simp only [document, Attempt.outcome_bind_eq_ok, Attempt.outcome_liftM, Attempt.outcome_pure,
      childDocuments_outcome_eq_ok, Except.ok.injEq, exists_eq_left', logicalChildren_result]
    constructor
    · rintro ⟨parts, hparts, values, hvalues, hd⟩
      exact ⟨parts, values, hparts, hvalues, hd⟩
    · rintro ⟨parts, values, hparts, hvalues, hd⟩
      exact ⟨parts, hparts, values, hvalues, hd⟩

/-- The metadata of a block stand in its document. -/
theorem find?_metadataKey_of_document {index : ReferenceIndex} {path type : Option String}
    {b : Block} {d : Document} (h : (document index path type b).outcome = .ok d) :
    Table.find? d Document.metadataKey = some (.metadata (b.metadata index path type)) := by
  obtain ⟨parts, values, -, -, rfl⟩ := document_outcome_eq_ok.mp h
  exact Table.find?_put_self _ _ _

/-- A block that has a document has documents of all its logical children. -/
theorem exists_document_of_mem {index : ReferenceIndex} {path type : Option String} {b c : Block}
    {d : Document} (h : (document index path type b).outcome = .ok d)
    (hc : c ∈ b.logicalChildren.result) :
    ∃ e, (document index none none c).outcome = .ok e := by
  obtain ⟨parts, values, hparts, -, -⟩ := document_outcome_eq_ok.mp h
  obtain ⟨i, hi, rfl⟩ := List.getElem_of_mem hc
  have hlen : i < parts.length := hparts.length_eq ▸ hi
  exact ⟨parts[i].2, (hparts.get hi hlen).2⟩

end Block

end BlockDoc
