import BlockDoc.Proofs.Conversion.Run
import BlockDoc.Proofs.Document.Bare

/-!
# When a conversion succeeds

The visit of a root block fails only if its type is supported and it has no document, and whether it
has one does not depend on the state of the conversion. So a conversion succeeds if and only if each
module can be converted on its own.

## Main definitions

* `Block.IsBuildable` — the blocks that have a document
* `Module.IsConvertible` — the modules whose visits succeed
-/

namespace BlockDoc

namespace Block

/-- A block has a document. -/
def IsBuildable (b : Block) : Prop :=
  ∃ d, (b.document [] none none).outcome = .ok d

/-- Whether a block has a document depends on neither the index nor the path and type that are
recorded. -/
theorem exists_document_iff {index : ReferenceIndex} {path type : Option String} {b : Block} :
    (∃ d, (b.document index path type).outcome = .ok d) ↔ b.IsBuildable := by
  -- The path and the type stand in the metadata, on which nothing depends.
  have hrecorded : ∀ (p t p' t' : Option String) (d : Document),
      (b.document [] p t).outcome = .ok d → ∃ e, (b.document [] p' t').outcome = .ok e := by
    intro p t p' t' d hd
    obtain ⟨parts, values, hparts, hvalues, -⟩ := document_outcome_eq_ok.mp hd
    exact ⟨_, document_outcome_eq_ok.mpr ⟨parts, values, hparts, hvalues, rfl⟩⟩
  have hbare := document_outcome_withoutReferences index path type b
  constructor
  · rintro ⟨d, hd⟩
    rw [hd] at hbare
    exact hrecorded path type none none _ hbare.symm
  · rintro ⟨d, hd⟩
    obtain ⟨e, he⟩ := hrecorded none none path type d hd
    rw [he] at hbare
    cases hdoc : (b.document index path type).outcome with
    | ok d => exact ⟨d, rfl⟩
    | error fault =>
      rw [hdoc] at hbare
      cases hbare

end Block

/-- Nothing ends the visits of the blocks of a module: their names agree, and the supported ones
among them have documents. -/
def Module.IsConvertible (l : Lineage) (m : Module) : Prop :=
  (∃ path, l.modulePath m = .ok path) ∧
    ∀ b ∈ m.blocks, b.block.IsSupported → b.block.IsBuildable

-- ════════════════════════════════════════════════════════════════════════
-- Visits
-- ════════════════════════════════════════════════════════════════════════

section Visits

variable {l : Lineage} {s : Conversion}

theorem exists_after_bind_iff {x y : Visit Unit} :
    (∃ t, Visit.after (x >>= fun _ => y) s = (.ok (), t)) ↔
      ∃ u, x.after s = (.ok (), u) ∧ ∃ t, y.after u = (.ok (), t) := by
  constructor
  · rintro ⟨t, ht⟩
    obtain ⟨⟨⟩, u, hu, hy⟩ := Visit.after_bind_eq_ok.mp ht
    exact ⟨u, hu, t, hy⟩
  · rintro ⟨u, hu, t, hy⟩
    exact ⟨t, Visit.after_bind_eq_ok.mpr ⟨(), u, hu, hy⟩⟩

theorem exists_visitBlock_after_iff (path : String) {b : RootBlock} :
    (∃ t, (visitBlock path b).after s = (.ok (), t)) ↔
      (b.block.IsSupported → b.block.IsBuildable) := by
  by_cases hb : b.block.IsSupported
  · rw [visitBlock_after_of_supported s hb]
    constructor
    · rintro ⟨t, ht⟩ -
      cases hd : (b.block.document (Table.put s.index b.reference b)
          (some (b.block.path path)) b.block.recordedType).outcome with
      | ok d => exact Block.exists_document_iff.mp ⟨d, hd⟩
      | error e =>
        rw [fileDocument_after_of_error hd] at ht
        cases ht
    · intro h
      obtain ⟨d, hd⟩ := Block.exists_document_iff.mpr (h hb)
      exact ⟨_, fileDocument_after_of_ok hd⟩
  · rw [visitBlock_after_of_not_supported s hb]
    exact ⟨fun _ h => absurd h hb, fun _ => ⟨_, rfl⟩⟩

theorem exists_visitBlocks_after_iff {path : String} {bs : List RootBlock} :
    (∃ t, (visitBlocks path bs).after s = (.ok (), t)) ↔
      ∀ b ∈ bs, b.block.IsSupported → b.block.IsBuildable := by
  induction bs generalizing s with
  | nil => simp [visitBlocks]
  | cons b rest ih =>
    rw [List.forall_mem_cons, visitBlocks, exists_after_bind_iff,
      ← exists_visitBlock_after_iff (s := s) path]
    simp only [ih, exists_and_right]

theorem exists_visitModule_after_iff {m : Module} :
    (∃ t, (visitModule l m).after s = (.ok (), t)) ↔ m.IsConvertible l := by
  unfold Module.IsConvertible
  cases hpath : l.modulePath m with
  | error e => simp [visitModule_after_of_error hpath]
  | ok path => simp [visitModule_after_of_ok hpath, exists_visitBlocks_after_iff]

theorem exists_visitModules_after_iff {ms : List Module} :
    (∃ t, (visitModules l ms).after s = (.ok (), t)) ↔ ∀ m ∈ ms, m.IsConvertible l := by
  induction ms generalizing s with
  | nil => simp [visitModules]
  | cons m rest ih =>
    rw [List.forall_mem_cons, visitModules, exists_after_bind_iff,
      ← exists_visitModule_after_iff (s := s)]
    simp only [ih, exists_and_right]

/-- A conversion succeeds if and only if each module can be converted. -/
theorem exists_convert_iff {ms : List Module} :
    (∃ output, (convert l ms).outcome = .ok output) ↔ ∀ m ∈ ms, m.IsConvertible l := by
  rw [← exists_visitModules_after_iff (s := .start)]
  constructor
  · rintro ⟨output, h⟩
    obtain ⟨t, ht, -⟩ := convert_eq_ok_iff.mp h
    exact ⟨t, ht⟩
  · rintro ⟨t, ht⟩
    exact ⟨t.output, convert_eq_ok_iff.mpr ⟨t, ht, rfl⟩⟩

end Visits

end BlockDoc
