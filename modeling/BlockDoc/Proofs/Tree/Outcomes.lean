import BlockDoc.Tree.Importer

/-!
# What a load can come to

A load fails before the parents are linked, and has changed nothing then, or while they are linked,
over a parent that leads nowhere, or it succeeds.

## Main definitions

* `LoadFault.IsDangling` — the faults of parents that lead nowhere
* `TreeImporter.linked` — an importer after the parents have been linked

## Main results

* `TreeImporter.get_cases` — the three ways in which a load ends
-/

namespace BlockDoc

/-- The fault of a parent that leads to no module block. -/
inductive LoadFault.IsDangling : LoadFault → Prop
  | noParentModule (position : Nat) : IsDangling (.refused (.noParentModule position))
  | noModuleBlock (reference : String) (position : Nat) :
    IsDangling (.refused (.noModuleBlock reference position))

/-- Linking the parents fails only over a parent that leads nowhere. -/
theorem isDangling_of_linkParents {modules : List Module} {l : Lineage}
    {parents : List (Nat × ParentRef)} {e : Refusal}
    (h : (linkParents modules l parents).1 = .error e) : (LoadFault.refused e).IsDangling := by
  induction parents generalizing l with
  | nil => cases h
  | cons d rest ih =>
    obtain ⟨position, parent⟩ := d
    unfold linkParents at h
    split at h
    · next f hfind =>
      obtain rfl := Except.error.inj h
      unfold findModuleBlock at hfind
      split at hfind
      · obtain rfl := Except.error.inj hfind
        exact .noParentModule _
      · split at hfind
        · cases hfind
        · obtain rfl := Except.error.inj hfind
          exact .noModuleBlock _ _
    · split at h
      · exact ih h
      · obtain rfl := Except.error.inj h
        exact .noModuleBlock _ _

namespace TreeImporter

/-- The importer after the parents of modules have been linked, as far as they lead somewhere. -/
def linked (t : TreeImporter) (list : ModuleList) : TreeImporter :=
  { t with
    nextKey := t.nextKey + Module.countBlocks list.blocks
    lineage := (linkParents (Module.listOfBlocks t.nextKey list.blocks) t.lineage list.parents).2 }

/-- What linking the parents comes to, and the importer after that. -/
theorem link_cases (t : TreeImporter) (list : ModuleList) :
    (∃ f, (t.link list).result = (.error f, t.linked list) ∧ f.IsDangling) ∨
      ∃ modules, (t.link list).result =
        (.ok modules, { t.linked list with modules := some modules }) := by
  unfold link linked
  dsimp only
  split
  · next e l hlink =>
    refine .inl ⟨.refused e, ?_, isDangling_of_linkParents (congrArg Prod.fst hlink)⟩
    rw [hlink]
    rfl
  · next l hlink =>
    refine .inr ⟨Module.listOfBlocks t.nextKey list.blocks, ?_⟩
    rw [hlink]
    rfl

theorem loadModules_cases (t : TreeImporter) (entries : List (Datum × Datum)) :
    (∃ f, (t.loadModules entries).result = (.error f, t)) ∨
      ∃ list, (t.loadModules entries).result = (t.link list).result := by
  unfold loadModules
  split
  · exact .inl ⟨_, rfl⟩
  · split
    · exact .inl ⟨_, rfl⟩
    · exact .inr ⟨_, rfl⟩

theorem load_cases (t : TreeImporter) (host : Host) (files : FileTree) :
    (∃ f, (t.load host files).result = (.error f, t)) ∨
      ∃ list, (t.load host files).result = (t.link list).result := by
  unfold load
  split
  · exact .inl ⟨_, rfl⟩
  · unfold loadEntries
    split
    · exact .inl ⟨_, rfl⟩
    · rw [Journaled.bind_result]
      split
      · exact .inl ⟨_, rfl⟩
      · exact t.loadModules_cases _

/-- A load fails before the parents are linked, and has changed nothing then, or while they are
linked, or it succeeds. -/
theorem get_cases {t : TreeImporter} (h : t.modules = none) (host : Host) (files : FileTree) :
    (∃ f, (t.get host files).result = (.error f, t)) ∨
    (∃ list f, (t.get host files).result = (.error f, t.linked list) ∧ f.IsDangling) ∨
    ∃ list modules, (t.get host files).result =
      (.ok modules, { t.linked list with modules := some modules }) := by
  have hload : t.get host files = t.load host files := by
    unfold get
    rw [h]
  rw [hload]
  rcases t.load_cases host files with hfault | ⟨list, hlink⟩
  · exact .inl hfault
  · rw [hlink]
    rcases t.link_cases list with ⟨f, hf, hdangling⟩ | ⟨modules, hmodules⟩
    · exact .inr (.inl ⟨list, f, hf, hdangling⟩)
    · exact .inr (.inr ⟨list, modules, hmodules⟩)

end TreeImporter

end BlockDoc
