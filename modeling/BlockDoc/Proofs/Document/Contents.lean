import BlockDoc.Proofs.Document.Assembly
import BlockDoc.Proofs.Document.Grouping
import BlockDoc.Proofs.TypedValue.Plain

/-!
# What stands in a document

Four sources write into the document of a block: its logical children, its attributes, its
identifier and its metadata. Names may collide and repeat. For each name the last source that has it
decides what stands there, and within the attributes the last one; the place of a name is where it
has been set first.

## Main definitions

* `Block.attributeValue` — the data of an attribute, told without notes and faults
* `Block.hasTexts` — the blocks whose strings are texts or absent
* `Block.Contents` — the keys of a document and what stands under each of them
-/

namespace BlockDoc

/-- Whether a value that is tagged as a string is a text or absent. -/
def Attribute.hasText (a : Attribute) : Bool :=
  match a.value with
  | .string payload => payload.isNull || payload.isText
  | _ => true

/-- The type of an attribute that has a text may be undecodable, but is given by a text. -/
theorem TypeExpr.ofAttribute_ne_notText {a : Attribute} (h : a.hasText = true) :
    ofAttribute a ≠ .error .notText := by
  have hexpression : ∀ s, (ofText s).mapError VariableFault.type ≠ .error .notText := by
    intro s
    cases ofText s <;> simp [Except.mapError]
  have hraw : (if a.raw = "" then .error (.type (.noExpression a.name))
      else (ofText a.raw).mapError VariableFault.type) ≠ .error VariableFault.notText := by
    split
    · simp
    · exact hexpression a.raw
  unfold Attribute.hasText at h
  unfold ofAttribute
  dsimp only
  cases hvalue : a.value with
  | string payload =>
    rw [hvalue] at h
    cases payload with
    | null => exact hraw
    | str s =>
      dsimp only
      split
      · exact hraw
      · exact hexpression s
    | _ => cases h
  | _ => exact hraw

namespace Block

-- ════════════════════════════════════════════════════════════════════════
-- Attributes
-- ════════════════════════════════════════════════════════════════════════

/-- The data of an attribute of a block. The type of a variable is given by its name, or by the
expression if it cannot be decoded; any other value by its plain data, or by the expression if it
has none. -/
def attributeValue (b : Block) (a : Attribute) : Datum :=
  if b.type = "variable" ∧ a.name = "type" then
    match TypeExpr.ofAttribute a with
    | .ok t => .str t.name
    | .error _ => .str a.raw
  else
    match a.value.plain? with
    | some d => d
    | none => .str a.raw

def valueEntries (b : Block) (as : List Attribute) : List (String × Entry) :=
  as.map fun a => (a.name, .value (b.attributeValue a))

section Attributes

variable {b : Block}

theorem isTypeOf_iff {a : Attribute} :
    b.isTypeOf a = true ↔ b.type = "variable" ∧ a.name = "type" := by
  simp [isTypeOf]

theorem variableType_outcome (a : Attribute) :
    (b.variableType a).outcome =
      match TypeExpr.ofAttribute a with
      | .ok t => .ok (.str t.name)
      | .error (.type _) => .ok (.str a.raw)
      | .error .notText => .error .notText := by
  unfold variableType
  cases TypeExpr.ofAttribute a with
  | ok t => rfl
  | error fault => cases fault <;> rfl

/-- The data of an attribute of an ordinary name. -/
theorem attributeDatum_of_not_isTypeOf {a : Attribute} (h : ¬b.isTypeOf a = true) :
    (b.attributeDatum a).outcome = .ok (b.attributeValue a) := by
  rw [attributeDatum, if_neg h, attributeValue, if_neg (mt isTypeOf_iff.mpr h)]
  rw [Attempt.outcome_pure, Attribute.plain]
  cases a.value.plain? <;> rfl

theorem eq_attributeValue_of_outcome {a : Attribute} {d : Datum}
    (h : (b.attributeDatum a).outcome = .ok d) : d = b.attributeValue a := by
  by_cases ha : b.isTypeOf a = true
  · rw [attributeDatum, if_pos ha, variableType_outcome] at h
    rw [attributeValue, if_pos (isTypeOf_iff.mp ha)]
    cases htype : TypeExpr.ofAttribute a with
    | ok t =>
      rw [htype] at h
      exact (Except.ok.inj h).symm
    | error fault =>
      rw [htype] at h
      cases fault with
      | type fault => exact (Except.ok.inj h).symm
      | notText => cases h
  · rw [attributeDatum_of_not_isTypeOf ha] at h
    exact (Except.ok.inj h).symm

theorem attributeDatum_outcome {a : Attribute} (h : a.hasText = true) :
    (b.attributeDatum a).outcome = .ok (b.attributeValue a) := by
  by_cases ha : b.isTypeOf a = true
  · rw [attributeDatum, if_pos ha, variableType_outcome, attributeValue,
      if_pos (isTypeOf_iff.mp ha)]
    cases htype : TypeExpr.ofAttribute a with
    | ok t => rfl
    | error fault =>
      cases fault with
      | type fault => rfl
      | notText => exact absurd htype (TypeExpr.ofAttribute_ne_notText h)
  · exact attributeDatum_of_not_isTypeOf ha

/-- If attributes give entries at all, each gives its data under its name. -/
theorem eq_valueEntries_of_outcome {as : List Attribute} {values : List (String × Entry)}
    (h : (b.attributeEntries as).outcome = .ok values) : values = b.valueEntries as := by
  induction as generalizing values with
  | nil => exact (Except.ok.inj h).symm
  | cons a rest ih =>
    obtain ⟨d, hd, hrest⟩ := Attempt.outcome_bind_eq_ok.mp h
    obtain ⟨others, hothers, hvalues⟩ := Attempt.outcome_bind_eq_ok.mp hrest
    obtain rfl := Except.ok.inj hvalues
    rw [eq_attributeValue_of_outcome hd, ih hothers]
    rfl

theorem attributeEntries_outcome {as : List Attribute} (h : ∀ a ∈ as, a.hasText = true) :
    (b.attributeEntries as).outcome = .ok (b.valueEntries as) := by
  induction as with
  | nil => rfl
  | cons a rest ih =>
    obtain ⟨ha, hrest⟩ := List.forall_mem_cons.mp h
    exact Attempt.outcome_bind_eq_ok.mpr
      ⟨_, attributeDatum_outcome ha, Attempt.outcome_bind_eq_ok.mpr ⟨_, ih hrest, rfl⟩⟩

end Attributes

-- ════════════════════════════════════════════════════════════════════════
-- Blocks that have a document
-- ════════════════════════════════════════════════════════════════════════

mutual

/-- Whether all strings of attributes are texts or absent, in the block and in the blocks in it. -/
def hasTexts : Block → Bool
  | ⟨_, _, attributes, children, _, _, _, _⟩ =>
    attributes.all Attribute.hasText && haveTexts children
termination_by structural b => b

/-- Whether the strings of blocks are texts or absent. -/
def haveTexts : List Block → Bool
  | [] => true
  | b :: rest => hasTexts b && haveTexts rest
termination_by structural bs => bs

end

theorem haveTexts_iff {bs : List Block} : haveTexts bs = true ↔ ∀ b ∈ bs, b.hasTexts = true := by
  induction bs with
  | nil => simp [haveTexts]
  | cons b rest ih => simp [haveTexts, ih]

theorem hasTexts_iff {b : Block} :
    b.hasTexts = true ↔
      (∀ a ∈ b.attributes, a.hasText = true) ∧ ∀ c ∈ b.children, c.hasTexts = true := by
  cases b with
  | mk blockType labels attributes children id key range explicit =>
    simp only [hasTexts, Bool.and_eq_true, List.all_eq_true, haveTexts_iff]

/-- What holds of a block whenever it holds of its children holds of all blocks. -/
theorem induction_children {P : Block → Prop} (step : ∀ b, (∀ c ∈ b.children, P c) → P b)
    (b : Block) : P b :=
  step b fun c _ => induction_children step c
termination_by sizeOf b
decreasing_by
  next hc =>
  have := List.sizeOf_lt_of_mem hc
  cases b
  simp only [Block.mk.sizeOf_spec]
  dsimp only at this
  omega

theorem mem_of_mem_marked {α : Type} {marks : List Bool} {xs : List α} {x : α}
    (h : x ∈ marked marks xs) : x ∈ xs := by
  obtain ⟨e, he, rfl⟩ := List.mem_map.mp h
  exact (List.of_mem_zip (List.mem_of_mem_filter he)).2

theorem mem_children_of_mem_logicalChildren {b c : Block} (h : c ∈ b.logicalChildren.result) :
    c ∈ b.children :=
  mem_of_mem_marked h

theorem exists_parts (index : ReferenceIndex) {cs : List Block}
    (h : ∀ c ∈ cs, ∃ d, (document index none none c).outcome = .ok d) :
    ∃ parts, List.Forall₂ (IsPart index) cs parts := by
  induction cs with
  | nil => exact ⟨[], .nil⟩
  | cons c rest ih =>
    obtain ⟨⟨d, hd⟩, hrest⟩ := List.forall_mem_cons.mp h
    obtain ⟨parts, hparts⟩ := ih hrest
    exact ⟨(c.type, d) :: parts, .cons ⟨rfl, hd⟩ hparts⟩

/-- Every fault on the way to a document has a fallback within the block, but for a string that is
no text in the place of a type. -/
theorem exists_document_of_hasTexts (index : ReferenceIndex) (path type : Option String)
    (b : Block) (h : b.hasTexts = true) :
    ∃ d, (document index path type b).outcome = .ok d := by
  induction b using induction_children generalizing path type with
  | step b ih =>
    obtain ⟨hattributes, hchildren⟩ := hasTexts_iff.mp h
    obtain ⟨parts, hparts⟩ := exists_parts index fun c hc =>
      have hmem := mem_children_of_mem_logicalChildren hc
      ih c hmem none none (hchildren c hmem)
    exact ⟨_, document_outcome_eq_ok.mpr
      ⟨parts, _, hparts, attributeEntries_outcome hattributes, rfl⟩⟩

-- ════════════════════════════════════════════════════════════════════════
-- Entries of an assembled document
-- ════════════════════════════════════════════════════════════════════════

section Assembled

variable (parts : List (String × Document)) (values : List (String × Entry)) (id : String)
  (m : Metadata)

/-- The groups of the children stand in the order of the first children of their types. -/
theorem keys_assemble :
    Table.keys (assemble parts values id m) =
      (parts.map Prod.fst ++ values.map Prod.fst ++ (if id = "" then [] else ["id"]) ++
        [Document.metadataKey]).eraseDups := by
  have hgroups : Table.keys
      ((Collection.ofItems parts).groups.map fun e => (e.1, groupEntry e.2)) =
        (parts.map Prod.fst).eraseDups := by
    rw [← Collection.keys_ofItems]
    simp [Table.keys, Collection.groups]
  have hvalues := Table.keys_putAll_of_eq_eraseDups hgroups values
  refine Table.keys_put_of_eq_eraseDups ?_ Document.metadataKey _
  by_cases hid : id = ""
  · simpa [hid] using hvalues
  · simpa [hid] using Table.keys_put_of_eq_eraseDups hvalues "id" (.value (.str id))

/-- Metadata come before the identifier, the identifier before attributes, and attributes before
children. -/
theorem find?_assemble (key : String) :
    Table.find? (assemble parts values id m) key =
      if key = Document.metadataKey then some (.metadata m)
      else if key = "id" ∧ id ≠ "" then some (.value (.str id))
      else (Table.last? values key).or
        ((Table.find? (Collection.ofItems parts) key).map fun ds => groupEntry (.ofList ds)) := by
  have hgroups : Table.find?
      ((Collection.ofItems parts).groups.map fun e => (e.1, groupEntry e.2)) key =
        (Table.find? (Collection.ofItems parts) key).map fun ds => groupEntry (.ofList ds) := by
    rw [Table.find?_map, Collection.groups, Table.find?_map, Option.map_map]
    rfl
  unfold assemble
  dsimp only
  by_cases hmeta : key = Document.metadataKey
  · rw [if_pos hmeta, hmeta, Table.find?_put_self]
  rw [if_neg hmeta, Table.find?_put_of_ne _ _ (Ne.symm hmeta)]
  by_cases hid : id = ""
  · rw [if_pos hid, if_neg fun h => h.2 hid, Table.find?_putAll, hgroups]
  rw [if_neg hid]
  by_cases hkey : key = "id"
  · rw [if_pos ⟨hkey, hid⟩, hkey, Table.find?_put_self]
  · rw [if_neg fun h => hkey h.1, Table.find?_put_of_ne _ _ (Ne.symm hkey), Table.find?_putAll,
      hgroups]

/-- What holds of the groups of the children, of the entries of the attributes, of the identifier
and of the metadata holds of all entries. -/
theorem forall_mem_assemble {P : Entry → Prop} {parts : List (String × Document)}
    {values : List (String × Entry)} {id : String} {m : Metadata}
    (hgroups : ∀ g ∈ Collection.ofItems parts, P (groupEntry (.ofList g.2)))
    (hvalues : ∀ e ∈ values, P e.2) (hid : P (.value (.str id))) (hmetadata : P (.metadata m)) :
    ∀ e ∈ assemble parts values id m, P e.2 := by
  have hchildren : ∀ e ∈ (Collection.ofItems parts).groups.map fun e => (e.1, groupEntry e.2),
      P e.2 := by
    intro e he
    simp only [Collection.groups, List.map_map, List.mem_map, Function.comp_apply] at he
    obtain ⟨g, hg, rfl⟩ := he
    exact hgroups g hg
  have hall := Table.forall_mem_putAll hchildren hvalues
  unfold assemble
  refine Table.forall_mem_put ?_ hmetadata
  split
  · exact hall
  · exact Table.forall_mem_put hall hid

end Assembled

end Block

-- ════════════════════════════════════════════════════════════════════════
-- Documents as data
-- ════════════════════════════════════════════════════════════════════════

namespace Document

theorem memberData_eq_map (entries : List (String × Entry)) :
    memberData entries = entries.map fun e => (.str e.1, entryDatum e.2) := by
  induction entries with
  | nil => rfl
  | cons e rest ih => rw [memberData, ih, List.map_cons]

theorem documentData_eq_map (ds : List Document) : documentData ds = ds.map toDatum := by
  induction ds with
  | nil => rfl
  | cons d rest ih => rw [documentData, ih, List.map_cons, toDatum]

theorem toDatum_eq_object (d : Document) :
    d.toDatum = .object (d.map fun e => (e.1, entryDatum e.2)) := by
  rw [toDatum, memberData_eq_map, Datum.object, List.map_map]
  rfl

theorem field?_toDatum (d : Document) (key : String) :
    d.toDatum.field? key = (Table.find? d key).map entryDatum := by
  rw [toDatum_eq_object, Datum.field?_object, Table.find?_map]

/-- A single document stands for itself, and several ones stand in a list. -/
theorem entryDatum_groupEntry (ds : List Document) :
    entryDatum (Block.groupEntry (.ofList ds)) =
      match ds with
      | [d] => d.toDatum
      | ds => .list (ds.map toDatum) := by
  match ds with
  | [] => rfl
  | [d] => rfl
  | d :: e :: rest => exact congrArg Datum.list (documentData_eq_map (d :: e :: rest))

end Document

namespace Block

def lastAttribute? (b : Block) (name : String) : Option Attribute :=
  b.attributes.reverse.find? fun a => a.name = name

theorem last?_valueEntries (b : Block) (key : String) :
    Table.last? (b.valueEntries b.attributes) key =
      (b.lastAttribute? key).map fun a => .value (b.attributeValue a) := by
  rw [Table.last?, valueEntries, ← List.map_reverse, List.find?_map, Option.map_map,
    lastAttribute?]
  rfl

/-- The parts under a key are the documents of the children of that type, in order. -/
theorem forall₂_under {index : ReferenceIndex} {cs : List Block} {parts : List (String × Document)}
    (h : List.Forall₂ (IsPart index) cs parts) (key : String) :
    List.Forall₂ (fun c d => (document index none none c).outcome = .ok d)
      (cs.filter fun c => c.type = key) (Collection.under parts key) := by
  unfold Collection.under
  induction h with
  | nil => exact .nil
  | @cons c part _ _ hpart _ ih =>
    rw [List.filter_cons, List.filter_cons, hpart.1]
    by_cases hkey : c.type = key
    · simp only [hkey, decide_true, if_true, List.map_cons]
      exact .cons hpart.2 ih
    · simpa only [hkey, decide_false, Bool.false_eq_true, if_false] using ih

theorem map_fst_of_forall₂_isPart {index : ReferenceIndex} {cs : List Block}
    {parts : List (String × Document)} (h : List.Forall₂ (IsPart index) cs parts) :
    parts.map Prod.fst = cs.map Block.type := by
  induction h with
  | nil => rfl
  | cons hpart _ ih => rw [List.map_cons, List.map_cons, hpart.1, ih]

/-- The keys of a document and what stands under each of them. -/
structure Contents (index : ReferenceIndex) (path type : Option String) (b : Block)
    (d : Document) : Prop where
  /-- The keys are the types of the logical children, the names of the attributes, that of the
  identifier if there is one, and that of the metadata, each where it comes first in this order. -/
  keys : ∃ entries, d.toDatum = .object entries ∧ Table.keys entries =
    (b.logicalChildren.result.map Block.type ++ b.attributes.map Attribute.name ++
      (if b.id = "" then [] else ["id"]) ++ [Document.metadataKey]).eraseDups
  metadata : d.toDatum.field? Document.metadataKey = some (b.metadata index path type).toDatum
  id : b.id ≠ "" → d.toDatum.field? "id" = some (.str b.id)
  /-- Under the name of an attribute stands the value of the last attribute of that name. -/
  named : ∀ key a, key ≠ Document.metadataKey → ¬(key = "id" ∧ b.id ≠ "") →
    b.lastAttribute? key = some a → d.toDatum.field? key = some (b.attributeValue a)
  /-- Under any other key stand the documents of the logical children of that type: the document
  itself if there is one, and a list in source order if there are several. -/
  children : ∀ key, key ≠ Document.metadataKey → ¬(key = "id" ∧ b.id ≠ "") →
    b.lastAttribute? key = none →
    ∃ ds, List.Forall₂ (fun c e => (document index none none c).outcome = .ok e)
        (b.logicalChildren.result.filter fun c => c.type = key) ds ∧
      d.toDatum.field? key =
        match ds with
        | [] => none
        | [e] => some e.toDatum
        | es => some (.list (es.map Document.toDatum))

theorem contents_of_document {index : ReferenceIndex} {path type : Option String} {b : Block}
    {d : Document} (h : (document index path type b).outcome = .ok d) :
    b.Contents index path type d := by
  obtain ⟨parts, values, hparts, hvalues, rfl⟩ := document_outcome_eq_ok.mp h
  obtain rfl := eq_valueEntries_of_outcome hvalues
  -- What stands under a key that is neither that of the metadata nor that of the identifier.
  have hother : ∀ key, key ≠ Document.metadataKey → ¬(key = "id" ∧ b.id ≠ "") →
      Table.find? (assemble parts (b.valueEntries b.attributes) b.id (b.metadata index path type))
          key =
        ((b.lastAttribute? key).map fun a => .value (b.attributeValue a)).or
          ((Table.find? (Collection.ofItems parts) key).map fun ds => groupEntry (.ofList ds)) := by
    intro key hmeta hid
    rw [find?_assemble, if_neg hmeta, if_neg hid, last?_valueEntries]
  refine ⟨⟨_, Document.toDatum_eq_object _, ?_⟩, ?_, ?_, ?_, ?_⟩
  · have hkeys := keys_assemble parts (b.valueEntries b.attributes) b.id
      (b.metadata index path type)
    have hnames : (b.valueEntries b.attributes).map Prod.fst = b.attributes.map Attribute.name := by
      rw [valueEntries, List.map_map]
      rfl
    rw [map_fst_of_forall₂_isPart hparts, hnames] at hkeys
    rw [← hkeys, Table.keys, List.map_map]
    rfl
  · rw [Document.field?_toDatum, find?_assemble, if_pos rfl]
    rfl
  · intro hid
    rw [Document.field?_toDatum, find?_assemble, if_neg (by decide), if_pos ⟨rfl, hid⟩]
    rfl
  · intro key a hmeta hid ha
    rw [Document.field?_toDatum, hother key hmeta hid, ha]
    rfl
  · intro key hmeta hid hnone
    refine ⟨Collection.under parts key, forall₂_under hparts key, ?_⟩
    rw [Document.field?_toDatum, hother key hmeta hid, hnone, Collection.find?_ofItems]
    cases Collection.under parts key with
    | nil => rfl
    | cons e rest =>
      cases rest with
      | nil => rfl
      | cons f rest => exact congrArg some (Document.entryDatum_groupEntry (e :: f :: rest))

/-- A block whose strings are texts or absent has a document, and the contents of the document are
determined key by key. -/
theorem exists_contents (index : ReferenceIndex) (path type : Option String) (b : Block)
    (h : b.hasTexts = true) :
    ∃ d, (document index path type b).outcome = .ok d ∧ b.Contents index path type d := by
  obtain ⟨d, hd⟩ := exists_document_of_hasTexts index path type b h
  exact ⟨d, hd, contents_of_document hd⟩

namespace Colliding

def child (type : String) (line : Nat) : Block where
  type := type
  range := ⟨"main.tf", line, line, Nat.le_refl line⟩

/-- A variable whose names collide: an attribute has the type of a child as its name, another one is
repeated, and there are attributes and children with the names of the identifier and the
metadata. -/
def crowded : Block where
  type := "variable"
  labels := ["v"]
  id := "var-v"
  attributes :=
    [{ name := "type", raw := "list(number)" },
     { name := "nested", value := .string (.str "in place of the child"), raw := "s" },
     { name := "default", value := .number (some "1"), raw := "1" },
     { name := "default", value := .number (some "NaN"), raw := "0/0" },
     { name := "id", value := .bool (.bool true), raw := "true" },
     { name := "__tfmeta", value := .string .null, raw := "null" }]
  children :=
    [child "nested" 12, child "rule" 13, child "id" 14, child "rule" 15, child "__tfmeta" 16]
  range := ⟨"main.tf", 11, 17, by decide⟩

/-- Each name stands where it comes first, children before attributes. -/
theorem exists_contents_crowded :
    crowded.hasTexts = true ∧ ∃ d entries,
      (document [] none none crowded).outcome = .ok d ∧ crowded.Contents [] none none d ∧
        d.toDatum = .object entries ∧
        Table.keys entries = ["nested", "rule", "id", "__tfmeta", "type", "default"] := by
  have htexts : crowded.hasTexts = true := by decide +kernel
  obtain ⟨d, hd, hcontents⟩ := exists_contents [] none none crowded htexts
  obtain ⟨entries, hentries, hkeys⟩ := hcontents.keys
  refine ⟨htexts, d, entries, hd, hcontents, hentries, hkeys.trans ?_⟩
  decide +kernel

end Colliding

end Block

end BlockDoc
