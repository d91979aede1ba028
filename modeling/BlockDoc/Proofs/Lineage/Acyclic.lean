import BlockDoc.Proofs.Lineage.Chain
import Mathlib.Logic.Relation

/-!
# Acyclic lineages

In an acyclic lineage no block is, directly or through others, its own module block. Every way up
then ends, although nothing in a lineage says where: the entries that have been used are never
needed again. So the recursion for the name of a module ends for every block.

## Main definitions

* `Lineage.Leads` — one step on the way up
* `Lineage.IsAcyclic` — the lineages in which no way up comes back to its start
-/

namespace BlockDoc

namespace Lineage

/-- The step from the key of a block to that of the module block around it. -/
def Leads (l : Lineage) (key above : Nat) : Prop :=
  ∃ parent, Table.find? l key = some parent ∧ parent.key = above

/-- No way up comes back to its start. -/
def IsAcyclic (l : Lineage) : Prop :=
  ∀ key, ¬Relation.TransGen l.Leads key key

/-- On the way up in an acyclic lineage, the entries that have been taken out are those of keys from
which the way has come. The rest `t` of the lineage therefore suffices for the rest of the way. -/
theorem IsAcyclic.isChain_chainFrom_of_agree {l : Lineage} (hl : l.IsAcyclic) (t : Lineage)
    (key : Nat)
    (h : ∀ k, Table.find? t k ≠ Table.find? l k → Relation.TransGen l.Leads k key) :
    IsChain l key (chainFrom t key) := by
  induction t, key using chainFrom.induct with
  | case1 t key hnone =>
    have hagree : Table.find? t key = Table.find? l key :=
      Classical.byContradiction fun hne => hl key (h key hne)
    rw [chainFrom, hnone]
    exact .root (hagree ▸ hnone)
  | case2 t key parent hparent ih =>
    have hagree : Table.find? t key = Table.find? l key :=
      Classical.byContradiction fun hne => hl key (h key hne)
    have hkey : Table.find? l key = some parent := hagree ▸ hparent
    have hstep : Relation.TransGen l.Leads key parent.key := .single ⟨parent, hkey, rfl⟩
    rw [chainFrom, hparent]
    refine .child hkey (ih fun k hk => ?_)
    by_cases hsame : key = k
    · exact hsame ▸ hstep
    · rw [Table.find?_remove_of_ne t hsame] at hk
      exact (h k hk).trans hstep

theorem IsAcyclic.isChain_chain {l : Lineage} (hl : l.IsAcyclic) (b : RootBlock) :
    IsChain l b.key (l.chain b) :=
  hl.isChain_chainFrom_of_agree l b.key fun _ hne => absurd rfl hne

/-- A way up that ends gives a name. -/
theorem IsChain.exists_named {l : Lineage} {b : RootBlock} {chain : List RootBlock}
    (h : IsChain l b.key chain) : ∃ name, l.Named b name := by
  induction chain generalizing b with
  | nil =>
    cases h with
    | root hnone => exact ⟨"", .root hnone⟩
  | cons parent rest ih =>
    cases h with
    | child hparent hrest =>
      obtain ⟨name, hname⟩ := ih hrest
      exact ⟨parent.block.path name, .child hparent hname⟩

/-- In an acyclic lineage the recursion for the name of a module ends for every block. -/
theorem IsAcyclic.exists_named {l : Lineage} (hl : l.IsAcyclic) (b : RootBlock) :
    ∃ name, l.Named b name :=
  (hl.isChain_chain b).exists_named

/-- A lineage whose module blocks have lower keys than the blocks that they have brought in is
acyclic. -/
theorem isAcyclic_of_key_lt {l : Lineage} (h : ∀ e ∈ l, e.2.key < e.1) : l.IsAcyclic := by
  have hdescends : ∀ key above, Relation.TransGen l.Leads key above → above < key := by
    intro key above hway
    induction hway with
    | single hstep =>
      obtain ⟨parent, hfind, rfl⟩ := hstep
      exact h _ (Table.mem_of_find? hfind)
    | tail _ hstep ih =>
      obtain ⟨parent, hfind, rfl⟩ := hstep
      exact Nat.lt_trans (h _ (Table.mem_of_find? hfind)) ih
  exact fun key hway => Nat.lt_irrefl key (hdescends key key hway)

end Lineage

end BlockDoc
