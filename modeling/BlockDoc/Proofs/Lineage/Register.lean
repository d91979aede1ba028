import BlockDoc.Lineage
import BlockDoc.Proofs.Table

/-!
# Registration of modules

The blocks of a module are entered into a lineage one after the other. All the same, the call comes
to one thing or the other: below a module block all of them are entered, and below any other block
not even the first is.
-/

namespace BlockDoc

namespace Lineage

variable {l l' : Lineage} {m : Module} {parent : RootBlock}

theorem registerModule_eq (l : Lineage) (m : Module) (parent : RootBlock) :
    l.registerModule m parent =
      if parent.block.type = Block.moduleType ∨ m.blocks = [] then
        .ok (Table.putAll l (m.blocks.map fun b => (b.key, parent)))
      else .error ⟨parent.reference, parent.block.type⟩ := by
  obtain ⟨bs⟩ := m
  unfold registerModule
  dsimp only
  by_cases h : parent.block.type = Block.moduleType
  · rw [if_pos (.inl h)]
    induction bs generalizing l with
    | nil => rfl
    | cons b rest ih =>
      rw [List.foldlM_cons, register, if_pos h]
      exact ih _
  · cases bs with
    | nil =>
      rw [if_pos (.inr rfl)]
      rfl
    | cons b rest =>
      rw [List.foldlM_cons, register, if_neg h, if_neg (by simp [h])]
      rfl

/-- A call that succeeds has entered all blocks of the module, below a module block unless there are
none. -/
theorem registerModule_eq_ok (h : l.registerModule m parent = .ok l') :
    (parent.block.type = Block.moduleType ∨ m.blocks = []) ∧
      l' = Table.putAll l (m.blocks.map fun b => (b.key, parent)) := by
  rw [registerModule_eq] at h
  split at h
  · next hallowed => exact ⟨hallowed, (Except.ok.inj h).symm⟩
  · cases h

/-- The blocks of a module are entered below a module block, and nothing else changes. -/
theorem find?_registerModule (h : l.registerModule m parent = .ok l') (key : Nat) :
    Table.find? l' key =
      if key ∈ m.blocks.map RootBlock.key then some parent else Table.find? l key := by
  obtain ⟨-, rfl⟩ := registerModule_eq_ok h
  have hentries : m.blocks.map (fun b => (b.key, parent)) =
      (m.blocks.map RootBlock.key).map fun k => (k, parent) := by
    rw [List.map_map]
    rfl
  rw [Table.find?_putAll, hentries, Table.last?_map_const]
  split <;> rfl

end Lineage

end BlockDoc
