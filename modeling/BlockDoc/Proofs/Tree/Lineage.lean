import BlockDoc.Proofs.Conversion.Run
import BlockDoc.Proofs.Lineage.Chain
import BlockDoc.Proofs.Tree.Load
import BlockDoc.Proofs.Tree.Parent
import BlockDoc.Yaml.Host

/-!
# The lineage of a loaded tree

The check for cycles goes over positions of modules, the lineage over blocks, and the names of
modules come from a recursion over module blocks. They fit together: since no way over the positions
comes back, the recursion ends for every root block, all root blocks of a module are in one module,
and a conversion of the loaded modules finds no conflict.

## Main definitions

* `Climbs` — the module blocks that are met by following the parents from a position
* `LoadedTree` — how the lineage and the paths of a loaded tree follow from its items
-/

namespace BlockDoc

/-- The module blocks that are met by following the parents of the items of a tree, from a position
to one without a parent, from the inside out. -/
inductive Climbs (items : List Datum) (modules : List Module) : Nat → List RootBlock → Prop
  | root {position : Nat} : parentAt? items position = none → Climbs items modules position []
  | child {position : Nat} {parent : ParentRef} {b : RootBlock} {chain : List RootBlock} :
    parentAt? items position = some parent → moduleBlockAt? modules parent = some b →
      Climbs items modules parent.module chain → Climbs items modules position (b :: chain)

/-- How the modules and the lineage of a loaded tree follow from its items, and what this means for
the conversion of the modules. -/
structure LoadedTree (items : List Datum) (modules : List Module) (l : Lineage) : Prop where
  length : modules.length = items.length
  /-- A module has the blocks of the item at its position. -/
  blocks : ∀ (p : Nat) (m : Module), modules[p]? = some m →
    ∃ entries, items[p]? = some (.map entries) ∧ checkParent entries = .ok (parentAt? items p) ∧
      checkBlocks entries = .ok (m.blocks.map RootBlock.block)
  /-- Blocks of a module without a parent have no entry in the lineage. -/
  unlinked : ∀ p m, modules[p]? = some m → parentAt? items p = none →
    ∀ b ∈ m.blocks, l.parent? b = none
  /-- Blocks of a module with a parent have the module block that it names. -/
  linked : ∀ p m parent, modules[p]? = some m → parentAt? items p = some parent →
    ∃ n, moduleBlockAt? modules parent = some n ∧ ∀ b ∈ m.blocks, l.parent? b = some n
  /-- The recursion for the name of a module ends for every root block, and all root blocks of a
  module have the name that the module blocks on the way up make up. -/
  names : ∀ p m, modules[p]? = some m → ∃ chain, Climbs items modules p chain ∧
    ∀ b ∈ m.blocks, l.Named b (Lineage.joined chain) ∧ l.moduleName b = Lineage.joined chain
  noConflict : ∀ e, (convert l modules).outcome ≠ .error (.conflict e)
  /-- The path of a filed document is the name of its module, then the address of its block. -/
  paths : ∀ output, (convert l modules).outcome = .ok output →
    ∃ fs, Filed l (visits modules) fs ∧ output = Collection.ofItems (fs.map Filing.item) ∧
      ∀ f ∈ fs, ∀ p chain, modules[p]? = some f.module → Climbs items modules p chain →
        ∃ m, Table.find? f.document Document.metadataKey = some (.metadata m) ∧
          m.path = some (if chain = [] then f.root.reference
            else Lineage.joined chain ++ "." ++ f.root.reference)

-- ════════════════════════════════════════════════════════════════════════
-- From positions to blocks
-- ════════════════════════════════════════════════════════════════════════

section Ways

variable {items : List Datum} {modules : List Module} {p : Nat} {chain : List RootBlock}

/-- Only module blocks are met. -/
theorem Climbs.type_eq (h : Climbs items modules p chain) :
    ∀ b ∈ chain, b.block.type = Block.moduleType := by
  induction h with
  | root _ => simp
  | child _ hb _ ih => exact List.forall_mem_cons.mpr ⟨(exists_of_moduleBlockAt? hb).1, ih⟩

/-- If each parent names a module block, following the parents meets one at each step. -/
theorem exists_climbs_of_ends {parents : ParentTable}
    (hparent : ∀ q, Table.find? parents q = parentAt? items q)
    (hblock : ∀ q r, parentAt? items q = some r → (moduleBlockAt? modules r).isSome)
    (h : parents.Ends p) : ∃ chain, Climbs items modules p chain := by
  induction h with
  | root hnone =>
    rw [hparent] at hnone
    exact ⟨[], .root hnone⟩
  | child hsome _ ih =>
    rw [hparent] at hsome
    obtain ⟨chain, hchain⟩ := ih
    obtain ⟨b, hb⟩ := Option.isSome_iff_exists.mp (hblock _ _ hsome)
    exact ⟨b :: chain, .child hsome hb hchain⟩

/-- The lineage leads from a root block over the module blocks that are met by following the parents
from the position of its module. -/
theorem Climbs.isChain {l : Lineage} (h : Climbs items modules p chain)
    (hl : ∀ q n, modules[q]? = some n → ∀ c ∈ n.blocks,
      l.parent? c = (parentAt? items q).bind (moduleBlockAt? modules))
    {m : Module} (hm : modules[p]? = some m) {b : RootBlock} (hb : b ∈ m.blocks) :
    l.IsChain b.key chain := by
  induction h generalizing m b with
  | root hnone =>
    have hparent := hl _ m hm b hb
    rw [hnone] at hparent
    exact .root hparent
  | child hsome hblock _ ih =>
    have hparent := hl _ m hm b hb
    rw [hsome, Option.bind_some, hblock] at hparent
    obtain ⟨-, n, hn, hmem⟩ := exists_of_moduleBlockAt? hblock
    exact .child hparent (ih hn hmem)

end Ways

-- ════════════════════════════════════════════════════════════════════════
-- Loads
-- ════════════════════════════════════════════════════════════════════════

namespace TreeImporter

section Loads

variable {t t' : TreeImporter} {host : Host} {files : FileTree} {entries : List (Datum × Datum)}
  {items : List Datum} {list : ModuleList} {modules : List Module}

theorem Loads.find?_parents (h : t.Loads host files entries items list modules t') (p : Nat) :
    Table.find? list.parents p = parentAt? items p := by
  rw [find?_parents_of_checkModuleItems h.checked p, if_neg (Nat.not_lt_zero p), Nat.sub_zero]

/-- The parent that an item names names a module block. -/
theorem Loads.isSome_moduleBlockAt? (h : t.Loads host files entries items list modules t') {p : Nat}
    {parent : ParentRef} (hp : parentAt? items p = some parent) :
    (moduleBlockAt? modules parent).isSome := by
  rw [← h.find?_parents p] at hp
  exact isSome_moduleBlockAt?_of_linkParents h.linked (Table.mem_of_find? hp)

/-- The module block of a root block is the one that the parent of its module names. -/
theorem Loads.parent?_eq (h : t.Loads host files entries items list modules t')
    (ht : t.lineage = []) {p : Nat} {m : Module} (hm : modules[p]? = some m) {b : RootBlock}
    (hb : b ∈ m.blocks) :
    t'.lineage.parent? b = (parentAt? items p).bind (moduleBlockAt? modules) := by
  have hkeys : (Module.keys modules).Nodup := by
    rw [h.numbered, Module.keys_listOfBlocks]
    exact List.nodup_range'
  have hparents : (Table.keys list.parents).Nodup :=
    (keys_parents_sublist h.checked).nodup List.nodup_range'
  have hfind := find?_linkParents hkeys hparents h.linked hm (List.mem_map_of_mem hb)
  rw [Lineage.parent?, hfind, h.find?_parents p, ht]
  cases parentAt? items p with
  | none => rfl
  | some parent => rfl

/-- A module has the blocks of the item at its position. -/
theorem Loads.blocks (h : t.Loads host files entries items list modules t') {p : Nat} {m : Module}
    (hm : modules[p]? = some m) :
    ∃ entries, items[p]? = some (.map entries) ∧ checkParent entries = .ok (parentAt? items p) ∧
      checkBlocks entries = .ok (m.blocks.map RootBlock.block) := by
  have hget := Module.getElem?_listOfBlocks t.nextKey list.blocks p
  rw [← h.numbered, hm] at hget
  obtain ⟨entries, hitem, hblocks⟩ :=
    (getElem?_blocks_of_checkModuleItems h.checked p _).mp hget.symm
  exact ⟨entries, hitem, checkParent_of_checkModuleItems h.checked hitem, hblocks⟩

theorem Loads.length_eq (h : t.Loads host files entries items list modules t') :
    modules.length = items.length := by
  rw [h.numbered, Module.length_listOfBlocks, length_blocks_of_checkModuleItems h.checked]

/-- The module blocks that are met by following the parents from a position. -/
theorem Loads.exists_climbs (h : t.Loads host files entries items list modules t') (p : Nat) :
    ∃ chain, Climbs items modules p chain :=
  exists_climbs_of_ends h.find?_parents (fun _ _ => h.isSome_moduleBlockAt?)
    (ParentTable.ends_of_cycle?_eq_none h.acyclic p)

/-- All root blocks of a module have the name that the module blocks on the way up make up. -/
theorem Loads.moduleName_eq (h : t.Loads host files entries items list modules t')
    (ht : t.lineage = []) {p : Nat} {m : Module} {chain : List RootBlock}
    (hm : modules[p]? = some m) (hchain : Climbs items modules p chain) {b : RootBlock}
    (hb : b ∈ m.blocks) :
    t'.lineage.Named b (Lineage.joined chain) ∧
      t'.lineage.moduleName b = Lineage.joined chain := by
  have hway : t'.lineage.IsChain b.key chain :=
    hchain.isChain (fun _ _ hn _ hc => h.parent?_eq ht hn hc) hm hb
  exact ⟨hway.named hchain.type_eq, hway.moduleName_eq⟩

/-- The path of a module is the name of its blocks, if it has any. -/
theorem Loads.modulePath_eq (h : t.Loads host files entries items list modules t')
    (ht : t.lineage = []) {p : Nat} {m : Module} {chain : List RootBlock}
    (hm : modules[p]? = some m) (hchain : Climbs items modules p chain) :
    t'.lineage.modulePath m = .ok (if m.blocks = [] then "" else Lineage.joined chain) :=
  Lineage.modulePath_of_forall fun _ hb => (h.moduleName_eq ht hm hchain hb).2

/-- The modules of a load into an empty lineage are converted without a conflict. -/
theorem Loads.convert_ne_conflict (h : t.Loads host files entries items list modules t')
    (ht : t.lineage = []) (e : PrefixConflict) :
    (convert t'.lineage modules).outcome ≠ .error (.conflict e) := by
  intro hconflict
  obtain ⟨m, hmem, hpath⟩ := exists_conflict_of_convert hconflict
  obtain ⟨p, hm⟩ := List.mem_iff_getElem?.mp hmem
  obtain ⟨chain, hchain⟩ := h.exists_climbs p
  rw [h.modulePath_eq ht hm hchain] at hpath
  cases hpath

/-- The path of a filed document is the name of its module, then the address of its block. -/
theorem Loads.path_eq (h : t.Loads host files entries items list modules t') (ht : t.lineage = [])
    {f : Filing} (hf : f.IsMade t'.lineage (visits modules)) {p : Nat} {chain : List RootBlock}
    (hm : modules[p]? = some f.module) (hchain : Climbs items modules p chain) :
    ∃ m, Table.find? f.document Document.metadataKey = some (.metadata m) ∧
      m.path = some (if chain = [] then f.root.reference
        else Lineage.joined chain ++ "." ++ f.root.reference) := by
  obtain ⟨path, hpath, hdoc⟩ := hf.built
  have hmem : f.root ∈ f.module.blocks :=
    (mem_visits.mp (List.mem_of_getElem? hf.visited)).2
  rw [h.modulePath_eq ht hm hchain, if_neg (List.ne_nil_of_mem hmem)] at hpath
  obtain rfl : Lineage.joined chain = path := Except.ok.inj hpath
  refine ⟨_, Block.find?_metadataKey_of_document hdoc, ?_⟩
  exact congrArg some (Lineage.path_joined f.root.block hchain.type_eq)

end Loads

/-- The modules and the lineage that a new importer gives for a file of a tree follow from the items
of the tree, and are converted without a conflict. -/
theorem exists_loadedTree_of_get (host : Host) (name : String) (options : ParserOptions)
    (files : FileTree) (modules : List Module) (t : TreeImporter)
    (h : ((start name options).result.get host files).result = (.ok modules, t)) :
    ∃ entries items, readTree host files (Path.ofText name) = .ok entries ∧
      Datum.member? entries "modules" = some (.list items) ∧
      LoadedTree items modules t.lineage := by
  obtain ⟨entries, items, list, hloads⟩ := exists_loads_of_load h
  have ht : (start name options).result.lineage = [] := rfl
  refine ⟨entries, items, hloads.read, hloads.member, hloads.length_eq, fun _ _ => hloads.blocks,
    ?_, ?_, ?_, hloads.convert_ne_conflict ht, ?_⟩
  · intro p m hm hp b hb
    rw [hloads.parent?_eq ht hm hb, hp]
    rfl
  · intro p m parent hm hp
    obtain ⟨n, hn⟩ := Option.isSome_iff_exists.mp (hloads.isSome_moduleBlockAt? hp)
    refine ⟨n, hn, ?_⟩
    intro b hb
    rw [hloads.parent?_eq ht hm hb, hp, Option.bind_some, hn]
  · intro p m hm
    obtain ⟨chain, hchain⟩ := hloads.exists_climbs p
    exact ⟨chain, hchain, fun b hb => hloads.moduleName_eq ht hm hchain hb⟩
  · intro output hok
    obtain ⟨fs, hfs, hout⟩ := exists_filed_of_convert hok
    refine ⟨fs, hfs, hout, ?_⟩
    intro f hf p chain hm hchain
    exact hloads.path_eq ht (hfs.made f hf) hm hchain

namespace Nested

/-- The lines of a block of the given type and label. -/
def blockLines (type label : String) : List String :=
  ["  - type: " ++ type, "    labels: [" ++ label ++ "]", "    range:",
   "      filename: main.tf", "      start_line: 1", "      end_line: 1"]

/-- The lines of a module whose parent is the module block of the given address in the module at the
given position. -/
def parentLines (position address : String) : List String :=
  ["- parent:", "    module: " ++ position, "    block: " ++ address, "  blocks:"]

/-- A tree of three modules. The root module calls the last one in two blocks of one address, and
the last module calls the one in the middle. -/
def lines : List String :=
  ["modules:", "- blocks:"] ++ blockLines "module" "a" ++ blockLines "module" "a" ++
    parentLines "2" "module.b" ++ blockLines "output" "c" ++
    parentLines "0" "module.a" ++ blockLines "module" "b" ++ blockLines "locals" "d"

/-- The file of the tree. -/
def files : FileTree where
  files := [(["tree.yaml"],
    lines.flatMap fun line => (line.toList ++ ['\n']).map fun c => UInt8.ofNat c.toNat)]

/-- The names of the modules that the blocks of each module are in. -/
def names (modules : List Module) (t : TreeImporter) : List (List String) :=
  modules.map fun m => m.blocks.map t.lineage.moduleName

theorem exists_of_toOption_map {ε α β γ : Type} {x : Except ε α × β} {f : α → β → γ} {c : γ}
    (h : x.1.toOption.map (f · x.2) = some c) : ∃ a b, x = (.ok a, b) ∧ f a b = c := by
  obtain ⟨outcome, b⟩ := x
  cases outcome with
  | error e => cases h
  | ok a => exact ⟨a, b, rfl, Option.some.inj h⟩

/-- The names are made of the calls, the outermost first, wherever the modules stand. -/
theorem exists_loadedTree_of_get_nested :
    ∃ modules t, ((start "tree.yaml" {}).result.get .plain files).result = (.ok modules, t) ∧
      names modules t = [["", ""], ["module.a.module.b"], ["module.a", "module.a"]] ∧
      ∃ entries items, readTree .plain files (Path.ofText "tree.yaml") = .ok entries ∧
        Datum.member? entries "modules" = some (.list items) ∧
        LoadedTree items modules t.lineage := by
  have hnames : ((start "tree.yaml" {}).result.get .plain files).result.1.toOption.map
        (names · ((start "tree.yaml" {}).result.get .plain files).result.2) =
      some [["", ""], ["module.a.module.b"], ["module.a", "module.a"]] := by decide +kernel
  obtain ⟨modules, t, hloaded, hmap⟩ := exists_of_toOption_map hnames
  exact ⟨modules, t, hloaded, hmap,
    exists_loadedTree_of_get .plain "tree.yaml" {} files modules t hloaded⟩

end Nested

end TreeImporter

end BlockDoc
