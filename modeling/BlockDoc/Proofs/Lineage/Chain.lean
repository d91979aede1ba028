import BlockDoc.Lineage
import BlockDoc.Proofs.Table

/-!
# Chains of module blocks

The name of the module that a block is in is given by a recursion over the module blocks around it:
the name that the module block around the block is in, then the address of that module block. The
recursion ends exactly if the way up ends, and then the module blocks on the way, joined from the
outermost one, make up the name.

## Main definitions

* `Lineage.IsChain` — the module blocks on a way up that ends
* `Lineage.Named` — the recursion for the name of a module
* `Lineage.joined` — the addresses of the module blocks of a chain
-/

namespace BlockDoc

namespace Lineage

/-- The module blocks that are met on the way up from a key to one without an entry, from the inside
out. -/
inductive IsChain (l : Lineage) : Nat → List RootBlock → Prop
  | root {key : Nat} : Table.find? l key = none → IsChain l key []
  | child {key : Nat} {parent : RootBlock} {chain : List RootBlock} :
    Table.find? l key = some parent → IsChain l parent.key chain → IsChain l key (parent :: chain)

/-- A block is in the module of the given name: in the root module if there is no module block
around it, and otherwise in the module that this module block calls. A derivation is a recursion
that ends. -/
inductive Named (l : Lineage) : RootBlock → String → Prop
  | root {b : RootBlock} : l.parent? b = none → Named l b ""
  | child {b parent : RootBlock} {name : String} :
    l.parent? b = some parent → Named l parent name → Named l b (parent.block.path name)

/-- The addresses of the module blocks of a chain, the outermost first. -/
def joined (chain : List RootBlock) : String :=
  Text.joinWith "." (chain.reverse.map RootBlock.reference)

section Chains

variable {l : Lineage} {key : Nat} {chain : List RootBlock}

/-- There is one way up from a key. -/
theorem IsChain.unique (h : IsChain l key chain) {other : List RootBlock}
    (ho : IsChain l key other) : chain = other := by
  induction h generalizing other with
  | root hkey =>
    cases ho with
    | root _ => rfl
    | child hparent _ =>
      rw [hkey] at hparent
      cases hparent
  | child hkey _ ih =>
    cases ho with
    | root hnone =>
      rw [hkey] at hnone
      cases hnone
    | child hparent hrest =>
      obtain rfl := Option.some.inj (hkey.symm.trans hparent)
      rw [ih hrest]

/-- The way on from a module block of a chain is shorter than the chain. -/
theorem IsChain.exists_shorter (h : IsChain l key chain) {m : RootBlock} (hm : m ∈ chain) :
    ∃ rest, IsChain l m.key rest ∧ rest.length < chain.length := by
  induction h with
  | root _ => cases hm
  | @child key parent chain hkey hchain ih =>
    rcases List.mem_cons.mp hm with rfl | hm
    · exact ⟨chain, hchain, by simp⟩
    · obtain ⟨rest, hrest, hlt⟩ := ih hm
      refine ⟨rest, hrest, ?_⟩
      rw [List.length_cons]
      omega

/-- A way up that ends does not come back to its start. -/
theorem IsChain.key_ne (h : IsChain l key chain) {m : RootBlock} (hm : m ∈ chain) :
    key ≠ m.key := by
  rintro rfl
  obtain ⟨rest, hrest, hlt⟩ := h.exists_shorter hm
  rw [h.unique hrest] at hlt
  exact Nat.lt_irrefl _ hlt

/-- A way up is not cut short by taking out the entries that have been used, since it does not come
back to them. The table `t` is what is left of the lineage. -/
theorem IsChain.chainFrom_eq_of_agree (h : IsChain l key chain) {t : Lineage}
    (hkey : Table.find? t key = Table.find? l key)
    (hchain : ∀ m ∈ chain, Table.find? t m.key = Table.find? l m.key) :
    chainFrom t key = chain := by
  induction h generalizing t with
  | root hnone =>
    rw [hnone] at hkey
    rw [chainFrom, hkey]
  | @child key parent chain hparent hrest ih =>
    -- The entry that is taken out here is not needed further up.
    have hne : ∀ m ∈ parent :: chain, key ≠ m.key := fun m hm =>
      (IsChain.child hparent hrest).key_ne hm
    have hagree : ∀ m ∈ parent :: chain,
        Table.find? (Table.remove t key) m.key = Table.find? l m.key := by
      intro m hm
      rw [Table.find?_remove_of_ne t (hne m hm)]
      exact hchain m hm
    have hon := ih (hagree parent (List.mem_cons_self ..))
      fun m hm => hagree m (List.mem_cons_of_mem parent hm)
    rw [hparent] at hkey
    rw [chainFrom, hkey]
    exact congrArg (parent :: ·) hon

theorem IsChain.chainFrom_eq (h : IsChain l key chain) : chainFrom l key = chain :=
  h.chainFrom_eq_of_agree rfl fun _ _ => rfl

end Chains

-- ════════════════════════════════════════════════════════════════════════
-- Names
-- ════════════════════════════════════════════════════════════════════════

/-- The address of a module block is not empty: it begins with its type if nothing else is
given. -/
theorem reference_ne_empty {b : Block} (h : b.type = Block.moduleType) : b.reference ≠ "" := by
  have hderived : b.derivedReference ≠ "" := by
    have hparts : b.addressParts = "module" :: b.labels := by
      simp [Block.addressParts, h, Block.moduleType]
    have hjoin : ∀ rest, Text.joinWith "." ("module" :: rest) ≠ "" := by
      intro rest
      cases rest with
      | nil => simp [Text.joinWith]
      | cons s rest => simp [Text.joinWith]
    rw [Block.derivedReference, hparts, List.filter_cons_of_pos (by decide)]
    intro hempty
    exact hjoin _ (String.append_eq_empty_iff.mp hempty).1
  unfold Block.reference
  cases b.explicitReference with
  | none => exact hderived
  | some r =>
    by_cases hr : r = ""
    · simpa [hr] using hderived
    · simp [hr]

theorem joinWith_concat (sep s : String) {ss : List String} (h : ss ≠ []) :
    Text.joinWith sep (ss ++ [s]) = Text.joinWith sep ss ++ sep ++ s := by
  induction ss with
  | nil => exact absurd rfl h
  | cons r rest ih =>
    cases rest with
    | nil => rfl
    | cons q rest =>
      have hon := ih (List.cons_ne_nil q rest)
      calc Text.joinWith sep (r :: q :: rest ++ [s])
          = r ++ sep ++ Text.joinWith sep (q :: rest ++ [s]) := rfl
        _ = r ++ sep ++ (Text.joinWith sep (q :: rest) ++ sep ++ s) := by rw [hon]
        _ = Text.joinWith sep (r :: q :: rest) ++ sep ++ s := by
          simp only [Text.joinWith, String.append_assoc]

/-- A further module block inside adds its address to that of a chain. -/
theorem joined_cons (m : RootBlock) {chain : List RootBlock} (h : chain ≠ []) :
    joined (m :: chain) = joined chain ++ "." ++ m.reference := by
  have hne : chain.reverse.map RootBlock.reference ≠ [] := by simpa using h
  rw [joined, List.reverse_cons, List.map_append, List.map_cons, List.map_nil,
    joinWith_concat _ _ hne, joined]

/-- The name that a chain of module blocks makes up is empty only if the chain is. -/
theorem joined_eq_empty_iff {chain : List RootBlock}
    (h : ∀ m ∈ chain, m.block.type = Block.moduleType) : joined chain = "" ↔ chain = [] := by
  cases chain with
  | nil => exact ⟨fun _ => rfl, fun _ => rfl⟩
  | cons m rest =>
    have hm : m.reference ≠ "" := reference_ne_empty (h m (List.mem_cons_self ..))
    refine ⟨fun hempty => absurd hempty ?_, fun hnil => absurd hnil (List.cons_ne_nil m rest)⟩
    cases rest with
    | nil => exact hm
    | cons n rest =>
      rw [joined_cons m (List.cons_ne_nil n rest)]
      exact fun hempty => hm (String.append_eq_empty_iff.mp hempty).2

/-- The path of a block below a chain of module blocks. -/
theorem path_joined (b : Block) {chain : List RootBlock}
    (h : ∀ m ∈ chain, m.block.type = Block.moduleType) :
    b.path (joined chain) =
      if chain = [] then b.reference else joined chain ++ "." ++ b.reference := by
  unfold Block.path
  by_cases hnil : chain = []
  · rw [if_pos hnil, if_pos ((joined_eq_empty_iff h).mpr hnil)]
  · rw [if_neg hnil, if_neg (mt (joined_eq_empty_iff h).mp hnil)]

/-- The path of a module block below a chain is the name that the longer chain makes up. -/
theorem path_joined_eq_joined_cons (m : RootBlock) {chain : List RootBlock}
    (h : ∀ n ∈ chain, n.block.type = Block.moduleType) :
    m.block.path (joined chain) = joined (m :: chain) := by
  rw [path_joined m.block h]
  by_cases hnil : chain = []
  · subst hnil
    rfl
  · rw [if_neg hnil, joined_cons m hnil]
    rfl

/-- The recursion for the name of a module ends, and its result is what the chain makes up. -/
theorem IsChain.named {l : Lineage} {b : RootBlock} {chain : List RootBlock}
    (h : IsChain l b.key chain) (hm : ∀ m ∈ chain, m.block.type = Block.moduleType) :
    Named l b (joined chain) := by
  induction chain generalizing b with
  | nil =>
    cases h with
    | root hnone => exact .root hnone
  | cons m rest ih =>
    cases h with
    | child hparent hrest =>
      have hmem : ∀ n ∈ rest, n.block.type = Block.moduleType := fun n hn =>
        hm n (List.mem_cons_of_mem m hn)
      rw [← path_joined_eq_joined_cons m hmem]
      exact .child hparent (ih hrest hmem)

theorem IsChain.moduleName_eq {l : Lineage} {b : RootBlock} {chain : List RootBlock}
    (h : IsChain l b.key chain) : l.moduleName b = joined chain := by
  rw [moduleName, Lineage.chain, h.chainFrom_eq, joined]

/-- If blocks are all in one module, there is one name among theirs, or none if that is the root
module. -/
theorem moduleNames_of_forall {l : Lineage} {m : Module} {name : String}
    (hne : m.blocks ≠ []) (h : ∀ b ∈ m.blocks, l.moduleName b = name) :
    l.moduleNames m = if name = "" then [] else [name] := by
  have hmap : m.blocks.map l.moduleName = List.replicate m.blocks.length name := by
    rw [List.eq_replicate_iff]
    refine ⟨List.length_map .., ?_⟩
    intro s hs
    obtain ⟨b, hb, rfl⟩ := List.mem_map.mp hs
    exact h b hb
  obtain ⟨n, hn⟩ := Nat.exists_eq_succ_of_ne_zero (mt List.length_eq_zero_iff.mp hne)
  rw [moduleNames, hmap, hn]
  by_cases hname : name = ""
  · simp [hname]
  · rw [if_neg hname, List.filter_replicate_of_pos (by simpa using hname), List.replicate_succ,
      List.eraseDups_cons, List.filter_replicate_of_neg (by simp), List.eraseDups_nil]

/-- Blocks that are all in one module have that as the path of their module. -/
theorem modulePath_of_forall {l : Lineage} {m : Module} {name : String}
    (h : ∀ b ∈ m.blocks, l.moduleName b = name) :
    l.modulePath m = .ok (if m.blocks = [] then "" else name) := by
  unfold modulePath
  by_cases hnil : m.blocks = []
  · simp [moduleNames, hnil]
  · rw [moduleNames_of_forall hnil h, if_neg hnil]
    by_cases hname : name = ""
    · simp [hname]
    · simp [hname]

end Lineage

end BlockDoc
