import BlockDoc.Proofs.Conversion.References
import BlockDoc.Proofs.Conversion.Totality

/-!
# Growth of a conversion

A conversion only grows. A visit changes nothing in the documents that have been filed: it adds
documents at the ends of the lists, keys at the end of the output, and blocks to the index. The
visit of a module is done as a whole or not at all, since the names of its blocks are compared
before the first of them is visited. So the output for some modules is contained in the output for
these and further ones.

## Main definitions

* `Conversion.Grows` — how a conversion goes on by the visits of root blocks

## Main results

* `visitModules_grows` — visits of modules let a conversion grow
* `visitModule_all_or_nothing` — the visit of a module is done as a whole or not at all
-/

namespace BlockDoc

/-- How a conversion goes on from one state to another by the visits of root blocks. -/
structure Conversion.Grows (bs : List RootBlock) (s t : Conversion) : Prop where
  /-- Each address leads to the last of the blocks that has it, and to where it has led before if
  there is none. -/
  index : ∀ reference, Table.find? t.index reference =
    (lastWith? bs reference).or (Table.find? s.index reference)
  /-- What has been filed under a key comes first in what is filed there afterwards. -/
  output : ∀ key ds, Table.find? s.output key = some ds →
    ∃ more, Table.find? t.output key = some (ds ++ more)
  /-- The keys of the output stay in their order, and new ones come after them. -/
  keys : Table.keys s.output <+: Table.keys t.output

theorem lastWith?_append (bs cs : List RootBlock) (reference : String) :
    lastWith? (bs ++ cs) reference = (lastWith? cs reference).or (lastWith? bs reference) := by
  rw [lastWith?, lastWith?, lastWith?, List.reverse_append, List.find?_append]

theorem lastWith?_singleton (b : RootBlock) (reference : String) :
    lastWith? [b] reference = if b.reference = reference then some b else none :=
  lastWith?_concat [] b reference

/-- The address of one of some blocks is the address of a last one. -/
theorem exists_lastWith?_of_mem {bs : List RootBlock} {b : RootBlock} (h : b ∈ bs) :
    ∃ c ∈ bs, c.reference = b.reference ∧ lastWith? bs b.reference = some c := by
  cases hlast : lastWith? bs b.reference with
  | some c =>
    obtain ⟨hc, href⟩ := mem_of_lastWith? hlast
    exact ⟨c, hc, href, rfl⟩
  | none =>
    have hnone := List.find?_eq_none.mp hlast b (List.mem_reverse.mpr h)
    simp at hnone

namespace Conversion

variable {bs cs : List RootBlock} {s t u : Conversion}

theorem Grows.refl (s : Conversion) : Grows [] s s where
  index _ := rfl
  output _ ds h := ⟨[], by rw [h, List.append_nil]⟩
  keys := List.prefix_refl _

theorem Grows.trans (h : Grows bs s t) (h' : Grows cs t u) : Grows (bs ++ cs) s u where
  index reference := by
    rw [h'.index, h.index, lastWith?_append, Option.or_assoc]
  output key ds hds := by
    obtain ⟨more, hmore⟩ := h.output key ds hds
    obtain ⟨rest, hrest⟩ := h'.output key _ hmore
    exact ⟨more ++ rest, by rw [hrest, List.append_assoc]⟩
  keys := h.keys.trans h'.keys

/-- All blocks that are visited are entered into the index. -/
theorem Grows.exists_entry (h : Grows bs s t) {b : RootBlock} (hb : b ∈ bs) :
    ∃ c ∈ bs, c.reference = b.reference ∧ Table.find? t.index b.reference = some c := by
  obtain ⟨c, hc, href, hlast⟩ := exists_lastWith?_of_mem hb
  exact ⟨c, hc, href, by rw [h.index, hlast, Option.some_or]⟩

end Conversion

-- ════════════════════════════════════════════════════════════════════════
-- Visits
-- ════════════════════════════════════════════════════════════════════════

section Visits

variable {l : Lineage} {s t : Conversion}

theorem find?_put_eq_or (index : ReferenceIndex) (b : RootBlock) (reference : String) :
    Table.find? (Table.put index b.reference b) reference =
      (lastWith? [b] reference).or (Table.find? index reference) := by
  rw [lastWith?_singleton]
  by_cases h : b.reference = reference
  · rw [if_pos h, ← h, Table.find?_put_self]
    rfl
  · rw [if_neg h, Table.find?_put_of_ne _ _ h]
    rfl

/-- Entering a block into the index leaves the output as it is. -/
theorem Conversion.grows_register (s : Conversion) (b : RootBlock) :
    s.Grows [b] ⟨Table.put s.index b.reference b, s.output⟩ where
  index := find?_put_eq_or s.index b
  output _ ds h := ⟨[], by rw [h, List.append_nil]⟩
  keys := List.prefix_refl _

/-- Filing a document adds it to the list under its key. -/
theorem Conversion.grows_file (s : Conversion) (key : String) (d : Document) :
    s.Grows [] ⟨s.index, Table.extend s.output key d⟩ where
  index _ := rfl
  output other ds h := by
    rw [Table.find?_extend]
    split
    · next heq =>
      rw [eq_of_beq heq, h]
      exact ⟨[d], rfl⟩
    · exact ⟨[], by rw [h, List.append_nil]⟩
  keys := by
    rw [Table.keys_extend]
    split
    · exact List.prefix_refl _
    · exact List.prefix_append _ _

theorem visitBlock_grows {path : String} {b : RootBlock}
    (h : (visitBlock path b).after s = (.ok (), t)) : s.Grows [b] t := by
  by_cases hb : b.block.IsSupported
  · rw [visitBlock_after_of_supported s hb] at h
    cases hd : (b.block.document (Table.put s.index b.reference b) (some (b.block.path path))
        b.block.recordedType).outcome with
    | error e =>
      rw [fileDocument_after_of_error hd] at h
      cases h
    | ok d =>
      rw [fileDocument_after_of_ok hd] at h
      obtain ⟨-, rfl⟩ := Prod.mk.inj h
      exact (s.grows_register b).trans (Conversion.grows_file _ _ d)
  · rw [visitBlock_after_of_not_supported s hb] at h
    obtain ⟨-, rfl⟩ := Prod.mk.inj h
    exact s.grows_register b

theorem visitBlocks_grows {path : String} {bs : List RootBlock}
    (h : (visitBlocks path bs).after s = (.ok (), t)) : s.Grows bs t := by
  induction bs generalizing s with
  | nil =>
    obtain ⟨-, rfl⟩ := Prod.mk.inj h
    exact .refl s
  | cons b rest ih =>
    obtain ⟨⟨⟩, u, hb, hrest⟩ := Visit.after_bind_eq_ok.mp h
    exact (visitBlock_grows hb).trans (ih hrest)

theorem visitModule_grows {m : Module} (h : (visitModule l m).after s = (.ok (), t)) :
    s.Grows m.blocks t := by
  cases hpath : l.modulePath m with
  | error e =>
    rw [visitModule_after_of_error hpath] at h
    cases h
  | ok path =>
    rw [visitModule_after_of_ok hpath] at h
    exact visitBlocks_grows h

/-- A whole run enters the root blocks of its modules, and only adds to the output. -/
theorem visitModules_grows {ms : List Module} (h : (visitModules l ms).after s = (.ok (), t)) :
    s.Grows (ms.flatMap Module.blocks) t := by
  induction ms generalizing s with
  | nil =>
    obtain ⟨-, rfl⟩ := Prod.mk.inj h
    exact .refl s
  | cons m rest ih =>
    obtain ⟨⟨⟩, u, hm, hrest⟩ := Visit.after_bind_eq_ok.mp h
    exact (visitModule_grows hm).trans (ih hrest)

/-- A run over some modules and further ones first comes to the end of the run over the former. -/
theorem exists_visitModules_append {ms ns : List Module} {u : Conversion}
    (h : (visitModules l (ms ++ ns)).after s = (.ok (), u)) :
    ∃ t, (visitModules l ms).after s = (.ok (), t) ∧
      (visitModules l ns).after t = (.ok (), u) := by
  induction ms generalizing s with
  | nil => exact ⟨s, rfl, h⟩
  | cons m rest ih =>
    obtain ⟨⟨⟩, v, hm, hrest⟩ := Visit.after_bind_eq_ok.mp h
    obtain ⟨t, ht, hu⟩ := ih hrest
    exact ⟨t, Visit.after_bind_eq_ok.mpr ⟨(), v, hm, ht⟩, hu⟩

end Visits

-- ════════════════════════════════════════════════════════════════════════
-- Conversions
-- ════════════════════════════════════════════════════════════════════════

/-- The visit of a module whose strings are texts or absent is refused for a conflict and changes
nothing, or it enters all blocks of the module into the index and adds to the output without
changing what is there. The output for some modules is therefore contained in the output for these
and further ones, and exists whenever that does. -/
theorem visitModule_all_or_nothing (l : Lineage) :
    (∀ (s : Conversion) (m : Module), (∀ b ∈ m.blocks, b.block.hasTexts = true) →
      (∃ e, l.modulePath m = .error e ∧ (visitModule l m).after s = (.error (.conflict e), s)) ∨
        ∃ path t, l.modulePath m = .ok path ∧ (visitModule l m).after s = (.ok (), t) ∧
          s.Grows m.blocks t ∧ ∀ b ∈ m.blocks, ∃ c ∈ m.blocks,
            c.reference = b.reference ∧ Table.find? t.index b.reference = some c) ∧
    ∀ (ms ns : List Module) (output : Collection Document),
      (convert l (ms ++ ns)).outcome = .ok output →
        ∃ first, (convert l ms).outcome = .ok first ∧
          ∀ key ds, Table.find? first key = some ds →
            ∃ more, Table.find? output key = some (ds ++ more) := by
  refine ⟨fun s m h => ?_, fun ms ns output h => ?_⟩
  · rcases visitModule_after_cases (l := l) (s := s) h with ⟨e, he, hv⟩ | ⟨path, t, hpath, hv⟩
    · exact .inl ⟨e, he, hv⟩
    · have hgrows := visitModule_grows hv
      exact .inr ⟨path, t, hpath, hv, hgrows, fun b hb => hgrows.exists_entry hb⟩
  · obtain ⟨u, hu, rfl⟩ := convert_eq_ok_iff.mp h
    obtain ⟨t, ht, hrest⟩ := exists_visitModules_append hu
    exact ⟨t.output, convert_eq_ok_iff.mpr ⟨t, ht, rfl⟩, (visitModules_grows hrest).output⟩

namespace Repetition

/-- A block on the second line of a file, with a mapping one key of which is no text. -/
def block (type : String) (labels : List String) (id : String) : Block where
  type := type
  labels := labels
  attributes := [{ name := "ports", value := .record .map (some [(.int 80, .string .null)]) }]
  id := id
  range := ⟨"main.tf", 2, 2, by decide⟩

/-- The call of one module. -/
def call : RootBlock := ⟨1, block "module" ["m"] ""⟩

/-- The call of another module. -/
def otherCall : RootBlock := ⟨2, block "module" ["n"] ""⟩

/-- The root module. -/
def rootModule : Module := ⟨[⟨0, block "resource" ["a", "b"] "first"⟩, call, otherCall]⟩

/-- A called module with a block of the same address as one in the root module. -/
def calledModule : Module := ⟨[⟨3, block "resource" ["a", "b"] "second"⟩]⟩

/-- A module with blocks below different calls. -/
def mixedModule : Module :=
  ⟨[⟨3, block "resource" ["a", "b"] "second"⟩, ⟨4, block "output" ["o"] ""⟩]⟩

/-- The called module is below one call, and a block of the mixed module is below the other. -/
def lineage : Lineage := [(3, call), (4, otherCall)]

/-- After the root module, the called module adds to the output and takes over the address, while
the mixed module is refused and leaves everything as it is. -/
theorem visitModule_after_rootModule :
    ∃ s t e, (visitModule lineage rootModule).after .start = (.ok (), s) ∧
      (visitModule lineage calledModule).after s = (.ok (), t) ∧ s.Grows calledModule.blocks t ∧
      (visitModule lineage mixedModule).after t = (.error (.conflict e), t) ∧
      ∃ first output, (convert lineage [rootModule]).outcome = .ok first ∧
        (convert lineage [rootModule, calledModule]).outcome = .ok output ∧
        ∀ key ds, Table.find? first key = some ds →
          ∃ more, Table.find? output key = some (ds ++ more) := by
  have hroot : ∀ b ∈ rootModule.blocks, b.block.hasTexts = true := by decide +kernel
  have hcalled : ∀ b ∈ calledModule.blocks, b.block.hasTexts = true := by decide +kernel
  have hmixed : ∀ b ∈ mixedModule.blocks, b.block.hasTexts = true := by decide +kernel
  have hpaths : (lineage.modulePath rootModule).toBool = true ∧
      (lineage.modulePath calledModule).toBool = true ∧
      (lineage.modulePath mixedModule).toBool = false := by decide +kernel
  obtain ⟨hpath, hpath', hconflict⟩ := hpaths
  obtain ⟨hvisit, hprefix⟩ := visitModule_all_or_nothing lineage
  rcases hvisit .start rootModule hroot with ⟨e, he, -⟩ | ⟨path, s, -, hs, -⟩
  · rw [he] at hpath
    cases hpath
  rcases hvisit s calledModule hcalled with ⟨e, he, -⟩ | ⟨path', t, -, ht, hgrows, -⟩
  · rw [he] at hpath'
    cases hpath'
  rcases hvisit t mixedModule hmixed with ⟨e, -, he⟩ | ⟨path'', u, hu, -⟩
  · have hok : (convert lineage ([rootModule] ++ [calledModule])).outcome.toBool = true := by
      decide +kernel
    obtain ⟨output, houtput⟩ := exists_ok_of_toBool hok
    obtain ⟨first, hfirst, hlists⟩ := hprefix [rootModule] [calledModule] output houtput
    exact ⟨s, t, e, hs, ht, hgrows, he, first, output, hfirst, houtput, hlists⟩
  · rw [hu] at hconflict
    cases hconflict

end Repetition

end BlockDoc
