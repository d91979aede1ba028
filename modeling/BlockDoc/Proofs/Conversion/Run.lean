import BlockDoc.Conversion
import BlockDoc.Proofs.Document.Assembly
import BlockDoc.Proofs.Document.Grouping

/-!
# Runs of a conversion

The state of a conversion is a function of the root blocks that have been visited: the index holds
them under their addresses, and the output is the list of their documents grouped by key. A document
is built with the index as it stands at the visit of its block. One step preserves this, and hence a
whole run does.

## Main definitions

* `Visit.after` — what a step comes to and where it leaves the conversion
* `visits` — the root blocks of modules in the order in which they are visited
* `Filing` — a document that has been filed, with its block
* `Filed` — the filings that belong to a list of visits
* `Reached` — the invariant
-/

namespace BlockDoc

namespace Visit

variable {α β : Type}

/-- What a step of a conversion comes to, and where it leaves the conversion. Its notes are left
aside. -/
def after (x : Visit α) (s : Conversion) : Except ConversionFault α × Conversion :=
  (x.run.run s).result

@[simp]
theorem after_pure (a : α) (s : Conversion) : after (pure a : Visit α) s = (.ok a, s) := rfl

@[simp]
theorem after_throw (e : ConversionFault) (s : Conversion) :
    after (throw e : Visit α) s = (.error e, s) := rfl

@[simp]
theorem after_get (s : Conversion) : after (get : Visit Conversion) s = (.ok s, s) := rfl

@[simp]
theorem after_set (s t : Conversion) : after (set t : Visit Unit) s = (.ok (), t) := rfl

@[simp]
theorem after_journaled (x : Journaled α) (s : Conversion) :
    after (journaled x) s = (.ok x.result, s) := rfl

@[simp]
theorem after_note (level : LogLevel) (text : String) (s : Conversion) :
    after (note level text) s = (.ok (), s) := rfl

@[simp]
theorem after_attempt (x : Attempt BuildFault α) (s : Conversion) :
    after (attempt x) s = (x.outcome.mapError .build, s) := rfl

theorem after_bind (x : Visit α) (f : α → Visit β) (s : Conversion) :
    after (x >>= f) s =
      match after x s with
      | (.ok a, t) => after (f a) t
      | (.error e, t) => (.error e, t) := by
  refine (Journaled.after_bind x f s).trans ?_
  unfold after
  unfold Journaled.after
  obtain ⟨outcome, t⟩ := (x.run.run s).result
  cases outcome with
  | ok a => rfl
  | error e => rfl

theorem after_bind_eq_ok {x : Visit α} {f : α → Visit β} {s u : Conversion} {b : β} :
    after (x >>= f) s = (.ok b, u) ↔
      ∃ a t, after x s = (.ok a, t) ∧ after (f a) t = (.ok b, u) :=
  Journaled.after_bind_eq_ok

theorem after_bind_eq_error {x : Visit α} {f : α → Visit β} {s u : Conversion}
    {e : ConversionFault} :
    after (x >>= f) s = (.error e, u) ↔
      after x s = (.error e, u) ∨
        ∃ a t, after x s = (.ok a, t) ∧ after (f a) t = (.error e, u) :=
  Journaled.after_bind_eq_error

end Visit

-- ════════════════════════════════════════════════════════════════════════
-- One step
-- ════════════════════════════════════════════════════════════════════════

namespace ReferenceIndex

/-- The index of blocks that are entered one after the other. -/
def ofBlocks (bs : List RootBlock) : ReferenceIndex :=
  bs.foldl (fun index b => Table.put index b.reference b) []

theorem ofBlocks_concat (bs : List RootBlock) (b : RootBlock) :
    ofBlocks (bs ++ [b]) = Table.put (ofBlocks bs) b.reference b := by
  rw [ofBlocks, List.foldl_append, List.foldl_cons, List.foldl_nil, ofBlocks]

theorem register_result (index : ReferenceIndex) (b : RootBlock) :
    (register index b).result = Table.put index b.reference b := by
  unfold register
  cases Table.find? index b.reference with
  | none => rfl
  | some earlier => by_cases h : earlier.key = b.key <;> simp [h]

end ReferenceIndex

/-- A block whose document is filed. -/
abbrev Block.IsSupported (b : Block) : Prop := b.type ∈ supportedTypes

@[simp]
theorem registerBlock_after (b : RootBlock) (s : Conversion) :
    (registerBlock b).after s = (.ok (), ⟨Table.put s.index b.reference b, s.output⟩) := by
  simp [registerBlock, Visit.after_bind, ReferenceIndex.register_result]

theorem fileDocument_after_of_ok {path : String} {b : Block} {s : Conversion} {d : Document}
    (h : (b.document s.index (some (b.path path)) b.recordedType).outcome = .ok d) :
    (fileDocument path b).after s =
      (.ok (), ⟨s.index, Table.extend s.output b.collectionKey d⟩) := by
  simp [fileDocument, Visit.after_bind, h, Except.mapError]

theorem fileDocument_after_of_error {path : String} {b : Block} {s : Conversion} {e : BuildFault}
    (h : (b.document s.index (some (b.path path)) b.recordedType).outcome = .error e) :
    (fileDocument path b).after s = (.error (.build e), s) := by
  simp [fileDocument, Visit.after_bind, h, Except.mapError]

theorem visitBlock_after_of_supported {path : String} {b : RootBlock} (s : Conversion)
    (h : b.block.IsSupported) :
    (visitBlock path b).after s =
      (fileDocument path b.block).after ⟨Table.put s.index b.reference b, s.output⟩ := by
  simp [visitBlock, Visit.after_bind, h]

theorem visitBlock_after_of_not_supported {path : String} {b : RootBlock} (s : Conversion)
    (h : ¬b.block.IsSupported) :
    (visitBlock path b).after s = (.ok (), ⟨Table.put s.index b.reference b, s.output⟩) := by
  simp [visitBlock, Visit.after_bind, h]

/-- A module whose blocks claim to be in different modules is refused before anything is changed. -/
theorem visitModule_after_of_error {l : Lineage} {m : Module} {e : PrefixConflict} {s : Conversion}
    (h : l.modulePath m = .error e) :
    (visitModule l m).after s = (.error (.conflict e), s) := by
  unfold visitModule
  rw [h, Visit.after_throw]

theorem visitModule_after_of_ok {l : Lineage} {m : Module} {path : String} {s : Conversion}
    (h : l.modulePath m = .ok path) :
    (visitModule l m).after s = (visitBlocks path m.blocks).after s := by
  unfold visitModule
  rw [h]
  simp [Visit.after_bind]

-- ════════════════════════════════════════════════════════════════════════
-- Visits and filings
-- ════════════════════════════════════════════════════════════════════════

/-- A root block on the way of a conversion, with the module that it is in. -/
structure Visited where
  module : Module
  root : RootBlock

/-- The root blocks of modules in the order in which they are visited: the modules in order, and the
blocks of each in order. -/
def visits (ms : List Module) : List Visited :=
  ms.flatMap fun m => m.blocks.map (Visited.mk m)

theorem mem_visits {ms : List Module} {v : Visited} :
    v ∈ visits ms ↔ v.module ∈ ms ∧ v.root ∈ v.module.blocks := by
  obtain ⟨m, b⟩ := v
  simp [visits]

/-- A document that has been filed: the visit of its block, and the number of the visits before. -/
structure Filing extends Visited where
  position : Nat
  document : Document

namespace Filing

/-- The document under the key under which it is filed. -/
def item (f : Filing) : String × Document :=
  (f.root.block.collectionKey, f.document)

/-- The index at the visit of the block: that of all blocks visited so far, itself included. -/
def index (vs : List Visited) (f : Filing) : ReferenceIndex :=
  .ofBlocks ((vs.take (f.position + 1)).map Visited.root)

/-- The document is that of the block at its position among the visits, built with the index at the
visit and the path in its module. -/
structure IsMade (l : Lineage) (vs : List Visited) (f : Filing) : Prop where
  visited : vs[f.position]? = some f.toVisited
  supported : f.root.block.IsSupported
  built : ∃ path, l.modulePath f.module = .ok path ∧
    (f.root.block.document (f.index vs) (some (f.root.block.path path))
      f.root.block.recordedType).outcome = .ok f.document

/-- Further visits change nothing about a filing. -/
theorem IsMade.append {l : Lineage} {vs : List Visited} {f : Filing} (h : f.IsMade l vs)
    (more : List Visited) : f.IsMade l (vs ++ more) := by
  have hlt : f.position < vs.length := (List.getElem?_eq_some_iff.mp h.visited).1
  have hindex : f.index (vs ++ more) = f.index vs := by
    rw [index, index, List.take_append_of_le_length hlt]
  refine ⟨?_, h.supported, ?_⟩
  · rw [List.getElem?_append_left hlt]
    exact h.visited
  · rw [hindex]
    exact h.built

end Filing

/-- The filings that belong to a list of visits: one for each visit of a supported block, in the
order of the visits. -/
structure Filed (l : Lineage) (vs : List Visited) (fs : List Filing) : Prop where
  order : fs.map (fun f => (f.toVisited, f.position)) =
    vs.zipIdx.filter fun e => e.1.root.block.IsSupported
  made : ∀ f ∈ fs, f.IsMade l vs

/-- There is a filing for each visit of a supported block. -/
theorem Filed.exists_filing {l : Lineage} {vs : List Visited} {fs : List Filing}
    (h : Filed l vs fs) {k : Nat} {v : Visited} (hk : vs[k]? = some v)
    (hv : v.root.block.IsSupported) : ∃ f ∈ fs, f.toVisited = v ∧ f.position = k := by
  have hmem : (v, k) ∈ fs.map fun f => (f.toVisited, f.position) := by
    rw [h.order]
    exact List.mem_filter.mpr ⟨List.mem_zipIdx_iff_getElem?.mpr hk, by simpa using hv⟩
  obtain ⟨f, hf, heq⟩ := List.mem_map.mp hmem
  exact ⟨f, hf, Prod.mk.inj heq⟩

/-- Where a conversion stands after a list of visits. -/
structure Reached (l : Lineage) (vs : List Visited) (s : Conversion) : Prop where
  index : s.index = .ofBlocks (vs.map Visited.root)
  output : ∃ fs, Filed l vs fs ∧ s.output = Collection.ofItems (fs.map Filing.item)

theorem Filed.concat_of_not_supported {l : Lineage} {vs : List Visited} {fs : List Filing}
    (h : Filed l vs fs) {v : Visited} (hv : ¬v.root.block.IsSupported) :
    Filed l (vs ++ [v]) fs where
  order := by
    rw [List.zipIdx_append, List.filter_append, ← h.order]
    simp [hv]
  made f hf := (h.made f hf).append [v]

theorem Filed.concat_of_supported {l : Lineage} {vs : List Visited} {fs : List Filing}
    (h : Filed l vs fs) {f : Filing} (hpos : f.position = vs.length)
    (hf : f.IsMade l (vs ++ [f.toVisited])) : Filed l (vs ++ [f.toVisited]) (fs ++ [f]) where
  order := by
    rw [List.zipIdx_append, List.filter_append, ← h.order, List.map_append]
    simp [hf.supported, hpos]
  made g hg := by
    rcases List.mem_append.mp hg with hg | hg
    · exact (h.made g hg).append [f.toVisited]
    · rw [List.mem_singleton.mp hg]
      exact hf

-- ════════════════════════════════════════════════════════════════════════
-- Preservation
-- ════════════════════════════════════════════════════════════════════════

section Preservation

variable {l : Lineage} {vs : List Visited} {s t : Conversion}

theorem reached_start (l : Lineage) : Reached l [] .start where
  index := rfl
  output := ⟨[], ⟨rfl, by simp⟩, rfl⟩

/-- The visit of a block that is not supported only enters it into the index. -/
theorem Reached.visit_of_not_supported (h : Reached l vs s) {m : Module} {path : String}
    {b : RootBlock} (hb : ¬b.block.IsSupported)
    (hv : (visitBlock path b).after s = (.ok (), t)) : Reached l (vs ++ [⟨m, b⟩]) t := by
  rw [visitBlock_after_of_not_supported s hb] at hv
  obtain ⟨-, rfl⟩ := Prod.mk.inj hv
  obtain ⟨fs, hfs, hout⟩ := h.output
  refine ⟨?_, fs, hfs.concat_of_not_supported hb, hout⟩
  rw [List.map_append, List.map_cons, List.map_nil, ReferenceIndex.ofBlocks_concat, ← h.index]

/-- The visit of a supported block enters it into the index and files its document. -/
theorem Reached.visit_of_supported (h : Reached l vs s) {m : Module} {path : String}
    {b : RootBlock} (hpath : l.modulePath m = .ok path) (hb : b.block.IsSupported)
    (hv : (visitBlock path b).after s = (.ok (), t)) : Reached l (vs ++ [⟨m, b⟩]) t := by
  obtain ⟨fs, hfs, hout⟩ := h.output
  have hindex : Table.put s.index b.reference b =
      ReferenceIndex.ofBlocks ((vs ++ [Visited.mk m b]).map Visited.root) := by
    rw [List.map_append, List.map_cons, List.map_nil, ReferenceIndex.ofBlocks_concat, ← h.index]
  rw [visitBlock_after_of_supported s hb] at hv
  cases hd : (b.block.document (Table.put s.index b.reference b) (some (b.block.path path))
      b.block.recordedType).outcome with
  | error e =>
    rw [fileDocument_after_of_error hd] at hv
    cases hv
  | ok d =>
    rw [fileDocument_after_of_ok hd] at hv
    obtain ⟨-, rfl⟩ := Prod.mk.inj hv
    let f : Filing := ⟨⟨m, b⟩, vs.length, d⟩
    have hmade : f.IsMade l (vs ++ [⟨m, b⟩]) := by
      refine ⟨by simp [f], hb, path, hpath, ?_⟩
      rw [hindex] at hd
      rw [Filing.index, List.take_of_length_le (by simp [f])]
      exact hd
    refine ⟨hindex, fs ++ [f], hfs.concat_of_supported (f := f) rfl hmade, ?_⟩
    rw [List.map_append, List.map_cons, List.map_nil, Collection.ofItems_concat, ← hout]
    rfl

theorem Reached.visitBlock (h : Reached l vs s) {m : Module} {path : String} {b : RootBlock}
    (hpath : l.modulePath m = .ok path) (hv : (visitBlock path b).after s = (.ok (), t)) :
    Reached l (vs ++ [⟨m, b⟩]) t := by
  by_cases hb : b.block.IsSupported
  · exact h.visit_of_supported hpath hb hv
  · exact h.visit_of_not_supported hb hv

theorem Reached.visitBlocks (h : Reached l vs s) {m : Module} {path : String}
    {bs : List RootBlock} (hpath : l.modulePath m = .ok path)
    (hv : (visitBlocks path bs).after s = (.ok (), t)) :
    Reached l (vs ++ bs.map (Visited.mk m)) t := by
  induction bs generalizing vs s with
  | nil =>
    obtain ⟨-, rfl⟩ := Prod.mk.inj hv
    rwa [List.map_nil, List.append_nil]
  | cons b rest ih =>
    obtain ⟨⟨⟩, u, hb, hrest⟩ := Visit.after_bind_eq_ok.mp hv
    have hu := ih (h.visitBlock hpath hb) hrest
    rwa [List.append_assoc] at hu

theorem Reached.visitModule (h : Reached l vs s) {m : Module}
    (hv : (visitModule l m).after s = (.ok (), t)) :
    Reached l (vs ++ m.blocks.map (Visited.mk m)) t := by
  cases hpath : l.modulePath m with
  | error e =>
    rw [visitModule_after_of_error hpath] at hv
    cases hv
  | ok path =>
    rw [visitModule_after_of_ok hpath] at hv
    exact h.visitBlocks hpath hv

/-- The invariant is preserved by the visits of any modules. -/
theorem Reached.visitModules (h : Reached l vs s) {ms : List Module}
    (hv : (visitModules l ms).after s = (.ok (), t)) : Reached l (vs ++ visits ms) t := by
  induction ms generalizing vs s with
  | nil =>
    obtain ⟨-, rfl⟩ := Prod.mk.inj hv
    rwa [visits, List.flatMap_nil, List.append_nil]
  | cons m rest ih =>
    obtain ⟨⟨⟩, u, hm, hrest⟩ := Visit.after_bind_eq_ok.mp hv
    have hu := ih (h.visitModule hm) hrest
    rwa [List.append_assoc] at hu

end Preservation

-- ════════════════════════════════════════════════════════════════════════
-- Whole conversions
-- ════════════════════════════════════════════════════════════════════════

/-- A conversion comes to what the visits of all modules come to. -/
theorem convert_outcome (l : Lineage) (ms : List Module) :
    (convert l ms).outcome =
      match (visitModules l ms).after .start with
      | (.ok (), s) => .ok s.output
      | (.error e, _) => .error e := by
  rcases hrun : (visitModules l ms).after .start with ⟨outcome, s⟩
  have hresult : (visitModules l ms .start).result = (outcome, s) := hrun
  cases outcome with
  | error e => simp [convert, Attempt.outcome, ExceptT.run, ExceptT.mk, hresult]
  | ok u => simp [convert, Attempt.outcome, ExceptT.run, ExceptT.mk, hresult]

theorem convert_eq_ok_iff {l : Lineage} {ms : List Module} {output : Collection Document} :
    (convert l ms).outcome = .ok output ↔
      ∃ s, (visitModules l ms).after .start = (.ok (), s) ∧ s.output = output := by
  rw [convert_outcome]
  rcases (visitModules l ms).after .start with ⟨outcome, s⟩
  cases outcome with
  | error e => simp
  | ok u => simp

/-- The output of a conversion consists of the documents of the supported root blocks, grouped by
key. -/
theorem exists_filed_of_convert {l : Lineage} {ms : List Module} {output : Collection Document}
    (h : (convert l ms).outcome = .ok output) :
    ∃ fs, Filed l (visits ms) fs ∧ output = Collection.ofItems (fs.map Filing.item) := by
  obtain ⟨s, hrun, rfl⟩ := convert_eq_ok_iff.mp h
  exact ((reached_start l).visitModules hrun).output

section Conflicts

variable {l : Lineage} {s t : Conversion} {e : PrefixConflict}

theorem fileDocument_after_ne_conflict (path : String) (b : Block) :
    (fileDocument path b).after s ≠ (.error (.conflict e), t) := by
  intro h
  cases hd : (b.document s.index (some (b.path path)) b.recordedType).outcome with
  | error f =>
    rw [fileDocument_after_of_error hd] at h
    cases h
  | ok d =>
    rw [fileDocument_after_of_ok hd] at h
    cases h

/-- The visit of a block may fail to build a document, and in no other way. -/
theorem visitBlock_after_ne_conflict (path : String) (b : RootBlock) :
    (visitBlock path b).after s ≠ (.error (.conflict e), t) := by
  by_cases hb : b.block.IsSupported
  · rw [visitBlock_after_of_supported s hb]
    exact fileDocument_after_ne_conflict path b.block
  · rw [visitBlock_after_of_not_supported s hb]
    intro h
    cases h

theorem visitBlocks_after_ne_conflict (path : String) (bs : List RootBlock) :
    (visitBlocks path bs).after s ≠ (.error (.conflict e), t) := by
  induction bs generalizing s with
  | nil =>
    intro h
    cases h
  | cons b rest ih =>
    intro h
    rcases Visit.after_bind_eq_error.mp h with hb | ⟨⟨⟩, u, -, hrest⟩
    · exact visitBlock_after_ne_conflict path b hb
    · exact ih hrest

/-- Visits of modules end in a conflict only at a module whose blocks claim to be in different
ones. -/
theorem exists_conflict_of_visitModules {ms : List Module}
    (h : (visitModules l ms).after s = (.error (.conflict e), t)) :
    ∃ m ∈ ms, l.modulePath m = .error e := by
  induction ms generalizing s with
  | nil => cases h
  | cons m rest ih =>
    rcases Visit.after_bind_eq_error.mp h with hm | ⟨⟨⟩, u, -, hrest⟩
    · refine ⟨m, List.mem_cons_self .., ?_⟩
      cases hpath : l.modulePath m with
      | error f =>
        rw [visitModule_after_of_error hpath] at hm
        cases hm
        rfl
      | ok path =>
        rw [visitModule_after_of_ok hpath] at hm
        exact absurd hm (visitBlocks_after_ne_conflict path m.blocks)
    · obtain ⟨n, hn, hpath⟩ := ih hrest
      exact ⟨n, List.mem_cons_of_mem m hn, hpath⟩

end Conflicts

/-- A conversion ends in a conflict only at a module whose blocks claim to be in different ones. -/
theorem exists_conflict_of_convert {l : Lineage} {ms : List Module} {e : PrefixConflict}
    (h : (convert l ms).outcome = .error (.conflict e)) : ∃ m ∈ ms, l.modulePath m = .error e := by
  rw [convert_outcome] at h
  rcases hrun : (visitModules l ms).after .start with ⟨outcome, s⟩
  rw [hrun] at h
  cases outcome with
  | ok u => cases h
  | error f =>
    obtain rfl : f = .conflict e := Except.error.inj h
    exact exists_conflict_of_visitModules hrun

end BlockDoc
