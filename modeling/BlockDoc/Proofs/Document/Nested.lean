import BlockDoc.Proofs.Document.Contents
import BlockDoc.Proofs.Document.Metadata
import Mathlib.Logic.Relation

/-!
# Documents in documents

The documents that stand in the document of a block are those of the blocks below it, which are the
logical children, their logical children, and so on. The document of a logical child stands there
under its type, among those of its siblings of that type, unless an attribute, the identifier or the
metadata take that name. No template is among the blocks below a block, and none of the documents
records a path or a type.

## Main definitions

* `Document.HasPart`, `Document.Contains` — the documents that stand in a document
* `Block.IsAbove` — the blocks below a block
* `Block.Exposes` — nothing takes the place of the children of a type
* `Block.Places`, `Block.Stands` — the documents that stand in the document of a block, each with
  its own block
* `Document.Describes` — a document has metadata that describe a block

## Main results

* `Block.type_ne_dynamicType_of_isAbove` — no block below another one is a template
* `Block.exists_document_of_isAbove` — every block below a block with a document has a document
* `Block.exists_places_of_mem` — the documents of children that are not replaced stand in the
  document
* `Block.exists_stands_of_contains` — no other documents stand in the document of the block
* `Block.document_of_stands` — what stands for a block is its document
* `Block.describes_of_document` — a document has the metadata of its block
-/

namespace BlockDoc

/-- The documents that stand directly in an entry. -/
def Entry.documents : Entry → List Document
  | .single d => [d]
  | .several ds => ds
  | .value _ | .metadata _ => []

namespace Document

/-- A document stands under a name of another one, by itself or among several. -/
def HasPart (d e : Document) : Prop :=
  ∃ entry ∈ d, e ∈ Entry.documents entry.2

/-- A document stands in another one, at any depth. -/
def Contains : Document → Document → Prop :=
  Relation.TransGen HasPart

/-- A document has metadata that describe a block under the name for metadata, and no name stands in
it twice. -/
structure Describes (d : Document) (b : Block) (path type : Option String) : Prop where
  metadata : ∃ m, d.toDatum.field? metadataKey = some m ∧ b.IsDescribedBy path type m
  once : ∃ entries, d.toDatum = .object entries ∧ (Table.keys entries).Nodup

end Document

namespace Block

/-- A block is below another one: a logical child, a logical child of such a child, and so on. -/
def IsAbove : Block → Block → Prop :=
  Relation.TransGen fun b c => c ∈ b.logicalChildren.result

/-- Nothing takes the place of the children of a type in the document of a block: no attribute has
that name, and the name is neither that of the metadata nor that of the identifier. -/
structure Exposes (b : Block) (type : String) : Prop where
  ne_metadataKey : type ≠ Document.metadataKey
  not_id : ¬(type = "id" ∧ b.id ≠ "")
  ne_name : ∀ a ∈ b.attributes, a.name ≠ type

/-- In the document `d` of a block, `e` stands for the logical child `c`: under the type of the
child, at the place that the child has among the logical children of that type. -/
def Places (b : Block) (d : Document) (c : Block) (e : Document) : Prop :=
  ∃ (es : List Document) (i : Nat),
    Table.find? d c.type = some (groupEntry (.ofList es)) ∧
    (b.logicalChildren.result.filter fun k => k.type = c.type)[i]? = some c ∧ es[i]? = some e

/-- The documents that stand in the document `d` of `b`, each with its own block: `d` itself, and
those that stand in one of these for a logical child. -/
inductive Stands (b : Block) (d : Document) : Block → Document → Prop
  | whole : Stands b d b d
  | part {c k : Block} {e f : Document} (hc : Stands b d c e) (hk : c.Places e k f) : Stands b d k f

-- ════════════════════════════════════════════════════════════════════════
-- Blocks below a block
-- ════════════════════════════════════════════════════════════════════════

/-- Whatever is known before them, no template is kept among blocks. -/
theorem not_isTemplate_of_mem_marked (s : Selection) (bs : List Block) :
    ∀ c ∈ marked (selectFrom s bs).result bs, ¬c.IsTemplate := by
  induction bs generalizing s with
  | nil => simp
  | cons b rest ih =>
    rw [selectFrom_cons_result, marked_cons_cons]
    by_cases hb : b.IsTemplate
    · rw [s.step_template hb]
      exact ih _
    · split
      · exact List.forall_mem_cons.mpr ⟨hb, ih _⟩
      · exact ih _

/-- No block below another one is a template. -/
theorem type_ne_dynamicType_of_isAbove {b c : Block} (h : b.IsAbove c) : c.type ≠ dynamicType := by
  obtain ⟨p, -, hc⟩ := Relation.TransGen.tail'_iff.mp h
  exact not_isTemplate_of_mem_marked .start p.children c hc

section Nested

variable {index : ReferenceIndex} {path type : Option String} {b : Block} {d : Document}

/-- With the document of a block, those of all blocks below it are built. -/
theorem exists_document_of_isAbove {c : Block} (h : (document index path type b).outcome = .ok d)
    (hc : b.IsAbove c) : ∃ e, (document index none none c).outcome = .ok e := by
  induction hc with
  | single hc => exact exists_document_of_mem h hc
  | tail _ hk ih =>
    obtain ⟨e, he⟩ := ih
    exact exists_document_of_mem he hk

theorem documents_groupEntry (ds : List Document) :
    (groupEntry (.ofList ds)).documents = ds := by
  match ds with
  | [] => rfl
  | [d] => rfl
  | d :: e :: rest => rfl

-- ════════════════════════════════════════════════════════════════════════
-- One level
-- ════════════════════════════════════════════════════════════════════════

/-- If documents stand under a name, they are those of the logical children of that type. -/
theorem exists_children_of_find? {key : String} {entry : Entry}
    (h : (document index path type b).outcome = .ok d) (hfind : Table.find? d key = some entry)
    (hdocs : entry.documents ≠ []) :
    ∃ es, entry = groupEntry (.ofList es) ∧
      List.Forall₂ (fun c e => (document index none none c).outcome = .ok e)
        (b.logicalChildren.result.filter fun c => c.type = key) es := by
  obtain ⟨parts, values, hparts, hvalues, rfl⟩ := document_outcome_eq_ok.mp h
  obtain rfl := eq_valueEntries_of_outcome hvalues
  rw [find?_assemble, last?_valueEntries] at hfind
  -- Neither metadata nor an identifier nor the value of an attribute holds a document.
  split at hfind
  · cases hfind
    exact absurd rfl hdocs
  split at hfind
  · cases hfind
    exact absurd rfl hdocs
  cases hlast : b.lastAttribute? key with
  | some a =>
    rw [hlast] at hfind
    cases hfind
    exact absurd rfl hdocs
  | none =>
    rw [hlast, Option.map_none, Option.none_or, Collection.find?_ofItems] at hfind
    refine ⟨Collection.under parts key, ?_, forall₂_under hparts key⟩
    split at hfind
    · cases hfind
    · exact (Option.some.inj hfind).symm

/-- What stands for a child is its document. -/
theorem document_of_places {c : Block} {e : Document}
    (h : (document index path type b).outcome = .ok d) (hc : b.Places d c e) :
    c ∈ b.logicalChildren.result ∧ (document index none none c).outcome = .ok e := by
  obtain ⟨es, i, hfind, hci, hei⟩ := hc
  have hdocs : (groupEntry (.ofList es)).documents ≠ [] := by
    rw [documents_groupEntry]
    exact List.ne_nil_of_mem (List.mem_of_getElem? hei)
  obtain ⟨fs, hfs, hall⟩ := exists_children_of_find? h hfind hdocs
  obtain rfl : es = fs := by rw [← documents_groupEntry es, hfs, documents_groupEntry]
  have hmem : c ∈ b.logicalChildren.result := List.mem_of_mem_filter (List.mem_of_getElem? hci)
  obtain ⟨hi, hci⟩ := List.getElem?_eq_some_iff.mp hci
  obtain ⟨hj, hei⟩ := List.getElem?_eq_some_iff.mp hei
  refine ⟨hmem, ?_⟩
  simpa only [List.get_eq_getElem, hci, hei] using hall.get hi hj

/-- A document that stands under a name stands there for a child. -/
theorem exists_places_of_find? {key : String} {entry : Entry} {e : Document}
    (h : (document index path type b).outcome = .ok d) (hfind : Table.find? d key = some entry)
    (he : e ∈ entry.documents) : ∃ c, b.Places d c e := by
  obtain ⟨es, rfl, hall⟩ := exists_children_of_find? h hfind (List.ne_nil_of_mem he)
  rw [documents_groupEntry] at he
  obtain ⟨i, hi, rfl⟩ := List.getElem_of_mem he
  have hlen := hall.length_eq
  obtain ⟨c, hc⟩ : ∃ c, (b.logicalChildren.result.filter fun c => c.type = key)[i]? = some c :=
    ⟨_, List.getElem?_eq_getElem (hlen ▸ hi)⟩
  obtain rfl : c.type = key := by simpa using (List.mem_filter.mp (List.mem_of_getElem? hc)).2
  exact ⟨c, es, i, hfind, hc, List.getElem?_eq_getElem hi⟩

/-- Every document that stands directly in that of a block stands there for a child. -/
theorem exists_places_of_hasPart {e : Document} (h : (document index path type b).outcome = .ok d)
    (he : d.HasPart e) : ∃ c, b.Places d c e := by
  obtain ⟨entry, hentry, he⟩ := he
  have hkeys : (Table.keys d).Nodup := by
    obtain ⟨parts, values, -, -, rfl⟩ := document_outcome_eq_ok.mp h
    rw [keys_assemble]
    exact Table.nodup_eraseDups _
  exact exists_places_of_find? h (Table.find?_of_mem hkeys hentry) he

/-- The document of a logical child that nothing replaces stands in the document of the block. -/
theorem exists_places_of_mem {c : Block} (h : (document index path type b).outcome = .ok d)
    (hc : c ∈ b.logicalChildren.result) (hexposes : b.Exposes c.type) : ∃ e, b.Places d c e := by
  obtain ⟨parts, values, hparts, hvalues, rfl⟩ := document_outcome_eq_ok.mp h
  obtain rfl := eq_valueEntries_of_outcome hvalues
  have hnone : b.lastAttribute? c.type = none := by
    refine List.find?_eq_none.mpr fun a ha => ?_
    simpa using hexposes.ne_name a (List.mem_reverse.mp ha)
  have hmem : c ∈ b.logicalChildren.result.filter fun k => k.type = c.type :=
    List.mem_filter.mpr ⟨hc, by simp⟩
  obtain ⟨i, hi, hci⟩ := List.getElem_of_mem hmem
  have hunder := forall₂_under hparts c.type
  have hj : i < (Collection.under parts c.type).length := hunder.length_eq ▸ hi
  refine ⟨(Collection.under parts c.type)[i], Collection.under parts c.type, i, ?_,
    List.getElem?_eq_some_iff.mpr ⟨hi, hci⟩, List.getElem?_eq_getElem hj⟩
  rw [find?_assemble, if_neg hexposes.ne_metadataKey, if_neg hexposes.not_id, last?_valueEntries,
    hnone, Option.map_none, Option.none_or, Collection.find?_ofItems,
    if_neg (List.ne_nil_of_length_pos (Nat.zero_lt_of_lt hj))]
  rfl

-- ════════════════════════════════════════════════════════════════════════
-- All levels
-- ════════════════════════════════════════════════════════════════════════

/-- What stands for a block is its document, built with the same index. -/
theorem document_of_stands {c : Block} {e : Document}
    (h : (document index path type b).outcome = .ok d) (hc : b.Stands d c e) :
    (c = b ∧ e = d) ∨ (b.IsAbove c ∧ (document index none none c).outcome = .ok e) := by
  induction hc with
  | whole => exact .inl ⟨rfl, rfl⟩
  | part _ hk ih =>
    rcases ih with ⟨rfl, rfl⟩ | ⟨habove, hdoc⟩
    · obtain ⟨hmem, hdoc⟩ := document_of_places h hk
      exact .inr ⟨.single hmem, hdoc⟩
    · obtain ⟨hmem, hdoc⟩ := document_of_places hdoc hk
      exact .inr ⟨habove.tail hmem, hdoc⟩

theorem exists_document_of_stands {c : Block} {e : Document}
    (h : (document index path type b).outcome = .ok d) (hc : b.Stands d c e) :
    ∃ p t, (document index p t c).outcome = .ok e := by
  rcases document_of_stands h hc with ⟨rfl, rfl⟩ | ⟨-, hdoc⟩
  · exact ⟨path, type, h⟩
  · exact ⟨none, none, hdoc⟩

/-- At every level, the documents of logical children that nothing replaces stand in the document of
their parent. -/
theorem exists_places_of_stands {c k : Block} {e : Document}
    (h : (document index path type b).outcome = .ok d) (hc : b.Stands d c e)
    (hk : k ∈ c.logicalChildren.result) (hexposes : c.Exposes k.type) :
    ∃ f, c.Places e k f ∧ (document index none none k).outcome = .ok f := by
  obtain ⟨p, t, hdoc⟩ := exists_document_of_stands h hc
  obtain ⟨f, hf⟩ := exists_places_of_mem hdoc hk hexposes
  exact ⟨f, hf, (document_of_places hdoc hf).2⟩

/-- The documents that stand in the document of a block, at any depth, stand for blocks below it. -/
theorem exists_stands_of_contains {e : Document}
    (h : (document index path type b).outcome = .ok d) (he : d.Contains e) :
    ∃ c, b.IsAbove c ∧ b.Stands d c e ∧ (document index none none c).outcome = .ok e := by
  induction he with
  | single he =>
    obtain ⟨c, hc⟩ := exists_places_of_hasPart h he
    obtain ⟨hmem, hdoc⟩ := document_of_places h hc
    exact ⟨c, .single hmem, .part .whole hc, hdoc⟩
  | tail _ he ih =>
    obtain ⟨c, habove, hc, hdoc⟩ := ih
    obtain ⟨k, hk⟩ := exists_places_of_hasPart hdoc he
    obtain ⟨hmem, hdoc'⟩ := document_of_places hdoc hk
    exact ⟨k, habove.tail hmem, .part hc hk, hdoc'⟩

/-- Neither an attribute nor a child takes the place of the metadata of a block. -/
theorem describes_of_document (h : (document index path type b).outcome = .ok d) :
    d.Describes b path type := by
  have hcontents := contents_of_document h
  obtain ⟨entries, hentries, hkeys⟩ := hcontents.keys
  refine ⟨⟨_, hcontents.metadata, b.isDescribedBy_metadata index path type⟩, entries, hentries, ?_⟩
  rw [hkeys]
  exact Table.nodup_eraseDups _

end Nested

end Block

end BlockDoc
