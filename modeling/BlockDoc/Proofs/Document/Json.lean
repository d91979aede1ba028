import BlockDoc.Proofs.Document.Contents

/-!
# Documents are JSON data

Every fault on the way to a document has a fallback within the block: an attribute whose value has
no plain data, or whose type cannot be decoded, stands with its expression, and a template whose
collection is none has no instances. The one fault without a fallback needs a string that is no
text. A textual block therefore has a document, whatever has been visited before, and that document
is JSON data.

## Main definitions

* `Block.isTextual` — whether the values of a block and of the blocks in it are textual
* `Document.IsJson` — the documents whose entries are JSON data
-/

namespace BlockDoc

namespace Block

mutual

/-- Whether all values of attributes are textual, in the block and in the blocks in it. -/
def isTextual : Block → Bool
  | ⟨_, _, attributes, children, _, _, _, _⟩ =>
    attributes.all (fun a => a.value.isTextual) && areTextual children
termination_by structural b => b

/-- Whether blocks are textual. -/
def areTextual : List Block → Bool
  | [] => true
  | b :: rest => isTextual b && areTextual rest
termination_by structural bs => bs

end

theorem areTextual_iff {bs : List Block} :
    areTextual bs = true ↔ ∀ b ∈ bs, b.isTextual = true := by
  induction bs with
  | nil => simp [areTextual]
  | cons b rest ih => simp [areTextual, ih]

theorem isTextual_iff {b : Block} :
    b.isTextual = true ↔ (∀ a ∈ b.attributes, a.value.isTextual = true) ∧
      ∀ c ∈ b.children, c.isTextual = true := by
  cases b with
  | mk blockType labels attributes children id key range explicit =>
    simp only [isTextual, Bool.and_eq_true, List.all_eq_true, areTextual_iff]

end Block

-- ════════════════════════════════════════════════════════════════════════
-- Attributes
-- ════════════════════════════════════════════════════════════════════════

theorem Attribute.hasText_of_isTextual {a : Attribute} (h : a.value.isTextual = true) :
    a.hasText = true := by
  unfold hasText
  cases hvalue : a.value with
  | string payload =>
    rw [hvalue] at h
    exact h
  | _ => rfl

namespace Document

/-- The documents whose entries are JSON data. -/
def IsJson (d : Document) : Prop :=
  ∀ e ∈ d, (entryDatum e.2).IsJson

theorem exists_mem_of_mem_memberData {entries : List (String × Entry)} {m : Datum × Datum}
    (h : m ∈ memberData entries) : ∃ e ∈ entries, m = (.str e.1, entryDatum e.2) := by
  rw [memberData_eq_map] at h
  obtain ⟨e, he, rfl⟩ := List.mem_map.mp h
  exact ⟨e, he, rfl⟩

theorem IsJson.map_memberData {d : Document} (h : d.IsJson) :
    (Datum.map (memberData d)).IsJson := by
  refine .map ?_ ?_
  · intro m hm
    obtain ⟨e, -, rfl⟩ := exists_mem_of_mem_memberData hm
    exact ⟨e.1, rfl⟩
  · intro m hm
    obtain ⟨e, he, rfl⟩ := exists_mem_of_mem_memberData hm
    exact h e he

theorem IsJson.toDatum {d : Document} (h : d.IsJson) : d.toDatum.IsJson :=
  h.map_memberData

theorem isJson_documentData (ds : List Document) (h : ∀ d ∈ ds, d.IsJson) :
    ∀ x ∈ documentData ds, x.IsJson := by
  intro x hx
  rw [documentData_eq_map] at hx
  obtain ⟨d, hd, rfl⟩ := List.mem_map.mp hx
  exact (h d hd).toDatum

end Document

-- ════════════════════════════════════════════════════════════════════════
-- Metadata and groups
-- ════════════════════════════════════════════════════════════════════════

theorem ReferenceMeta.isJson_toDatum (r : ReferenceMeta) : r.toDatum.IsJson := by
  refine .object ?_
  simp only [List.forall_mem_cons, List.not_mem_nil, false_implies, implies_true, and_true]
  exact ⟨.str r.id, .str r.label, .str r.name⟩

theorem Metadata.isJson_toDatum (m : Metadata) : m.toDatum.IsJson := by
  refine .object fun e he => ?_
  obtain ⟨f, hf, he⟩ := List.mem_filterMap.mp he
  obtain ⟨d, hd, rfl⟩ := Option.map_eq_some_iff.mp he
  have hmembers : ∀ f ∈ m.members, ∀ d, f.2 = some d → d.IsJson := by
    simp only [members, List.forall_mem_cons, Option.map_eq_some_iff, Option.some.injEq,
      List.not_mem_nil, false_implies, implies_true, and_true]
    refine ⟨?_, ?_, ?_, ?_, ?_, ?_, ?_⟩
    · rintro d ⟨s, -, rfl⟩
      exact .str s
    · rintro d ⟨s, -, rfl⟩
      exact .str s
    · rintro d ⟨s, -, rfl⟩
      exact .str s
    · rintro d rfl
      exact .str m.filename
    · rintro d rfl
      exact .int m.lineStart
    · rintro d rfl
      exact .int m.lineEnd
    · rintro d ⟨rs, -, rfl⟩
      refine .list fun x hx => ?_
      obtain ⟨r, -, rfl⟩ := List.mem_map.mp hx
      exact r.isJson_toDatum
  exact hmembers f hf d hd

namespace Block

/-- A single document and a list of documents are JSON data if the documents are. -/
theorem isJson_groupEntry {ds : List Document} (h : ∀ d ∈ ds, d.IsJson) :
    (Document.entryDatum (groupEntry (.ofList ds))).IsJson := by
  match ds with
  | [] => exact .list (Document.isJson_documentData [] h)
  | [d] => exact (h d (List.mem_singleton_self d)).map_memberData
  | d :: e :: rest => exact .list (Document.isJson_documentData (d :: e :: rest) h)

/-- A document that is assembled from JSON data is JSON data. -/
theorem isJson_assemble {parts : List (String × Document)} {values : List (String × Entry)}
    {id : String} {m : Metadata} (hparts : ∀ p ∈ parts, p.2.IsJson)
    (hvalues : ∀ e ∈ values, (Document.entryDatum e.2).IsJson) :
    (assemble parts values id m).IsJson :=
  forall_mem_assemble (P := fun e => (Document.entryDatum e).IsJson)
    (fun g hg => isJson_groupEntry (Collection.forall_mem_ofItems hparts g hg)) hvalues (.str id)
    m.isJson_toDatum

-- ════════════════════════════════════════════════════════════════════════
-- Documents
-- ════════════════════════════════════════════════════════════════════════

theorem hasTexts_of_isTextual {b : Block} (h : b.isTextual = true) : b.hasTexts = true := by
  induction b using induction_children with
  | step b ih =>
    obtain ⟨hattributes, hchildren⟩ := isTextual_iff.mp h
    exact hasTexts_iff.mpr ⟨fun a ha => Attribute.hasText_of_isTextual (hattributes a ha),
      fun c hc => ih c hc (hchildren c hc)⟩

/-- The type of a variable is given by a text, and so is a value without plain data. -/
theorem isJson_attributeValue {b : Block} {a : Attribute} (h : a.value.isTextual = true) :
    (b.attributeValue a).IsJson := by
  unfold attributeValue
  split
  · cases TypeExpr.ofAttribute a with
    | ok t => exact .str t.name
    | error fault => exact .str a.raw
  · cases hplain : a.value.plain? with
    | none => exact .str a.raw
    | some d => exact TypedValue.isJson_of_plain? a.value h hplain

theorem isJson_of_mem_valueEntries {b : Block} {as : List Attribute}
    (h : ∀ a ∈ as, a.value.isTextual = true) :
    ∀ e ∈ b.valueEntries as, (Document.entryDatum e.2).IsJson := by
  intro e he
  obtain ⟨a, ha, rfl⟩ := List.mem_map.mp he
  exact isJson_attributeValue (h a ha)

theorem isJson_of_mem_parts {index : ReferenceIndex} {cs : List Block}
    {parts : List (String × Document)} (hparts : List.Forall₂ (IsPart index) cs parts)
    (h : ∀ c ∈ cs, ∀ d, (document index none none c).outcome = .ok d → d.IsJson) :
    ∀ p ∈ parts, p.2.IsJson := by
  induction hparts with
  | nil => simp
  | cons hpart _ ih =>
    obtain ⟨hc, hcs⟩ := List.forall_mem_cons.mp h
    exact List.forall_mem_cons.mpr ⟨hc _ hpart.2, ih hcs⟩

/-- The document of a textual block is JSON data. -/
theorem isJson_of_document {index : ReferenceIndex} {path type : Option String} {b : Block}
    {d : Document} (h : b.isTextual = true) (hd : (document index path type b).outcome = .ok d) :
    d.IsJson := by
  induction b using induction_children generalizing path type d with
  | step b ih =>
    obtain ⟨hattributes, hchildren⟩ := isTextual_iff.mp h
    obtain ⟨parts, values, hparts, hvalues, rfl⟩ := document_outcome_eq_ok.mp hd
    obtain rfl := eq_valueEntries_of_outcome hvalues
    refine isJson_assemble ?_ (isJson_of_mem_valueEntries hattributes)
    refine isJson_of_mem_parts hparts fun c hc e he => ?_
    have hmem := mem_children_of_mem_logicalChildren hc
    exact ih c hmem (hchildren c hmem) he

end Block

end BlockDoc
