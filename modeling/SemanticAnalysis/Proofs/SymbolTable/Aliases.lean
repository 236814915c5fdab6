import Mathlib.Data.Finset.Card
import Mathlib.Data.Finset.Range
import Mathlib.Logic.Relation
import SemanticAnalysis.Proofs.SymbolTable.Lookup

/-!
# Where aliases lead

`LeadsTo` says where a chain of aliases ends, with no bound on its length. A chain that ends passes no item
twice, and every alias on it is an item of the table. So the bound of `resolveAlias`, the size of the table,
stops no chain that ends (`resolveAlias_eq_ok_iff`).
-/

namespace SemanticAnalysis.SymbolTable

open Relation

variable {t : SymbolTable} {i j k : ItemId}

/-- `i` is an alias of `j`. -/
def IsAliasOf (t : SymbolTable) (i j : ItemId) : Prop := t.aliasTarget? i = some j

/-- Aliases lead from `i` to `j`, and no further. -/
structure LeadsTo (t : SymbolTable) (i j : ItemId) : Prop where
  follows : ReflTransGen t.IsAliasOf i j
  ends : t.aliasTarget? j = none

theorem IsAliasOf.eq (h : t.IsAliasOf i j) (h' : t.IsAliasOf i k) : j = k :=
  Option.some.inj (h.symm.trans h')

theorem not_isAliasOf_of_none (h : t.aliasTarget? i = none) : ¬ t.IsAliasOf i j := fun h' => by
  cases h.symm.trans h'

/-- A chain that ends does not come back to where it began. -/
theorem LeadsTo.not_cycle (h : t.LeadsTo i j) : ¬ TransGen t.IsAliasOf i i := by
  obtain ⟨hchain, hend⟩ := h
  induction hchain using ReflTransGen.head_induction_on with
  | refl =>
    intro hcycle
    obtain ⟨k, hstep, -⟩ := TransGen.head'_iff.1 hcycle
    exact not_isAliasOf_of_none hend hstep
  | head hstep _ ih =>
    intro hcycle
    obtain ⟨k, hstep', hrest⟩ := TransGen.head'_iff.1 hcycle
    obtain rfl := hstep.eq hstep'
    exact ih (TransGen.tail' hrest hstep)

/-- Aliases of items lead from items to items. -/
theorem lt_of_follows (htargets : ∀ i j, t.IsAliasOf i j → j.index < t.items.size)
    (hi : i.index < t.items.size) (h : ReflTransGen t.IsAliasOf i j) : j.index < t.items.size := by
  rcases ReflTransGen.cases_tail h with rfl | ⟨k, -, htarget⟩
  · exact hi
  · exact htargets k j htarget

/-! ## Following aliases -/

theorem leadsTo_of_followAliases {n : Nat} (h : t.followAliases n i = some j) : t.LeadsTo i j := by
  induction n generalizing i with
  | zero =>
    unfold followAliases at h
    split at h
    · cases h
    · rename_i hnone
      cases h
      exact ⟨.refl, by simpa using hnone⟩
  | succ n ih =>
    unfold followAliases at h
    split at h
    · rename_i target htarget
      have hrest := ih h
      exact ⟨.head htarget hrest.follows, hrest.ends⟩
    · rename_i hnone
      cases h
      exact ⟨.refl, hnone⟩

/-- The bound need not count the items that the chain does not pass. -/
theorem followAliases_of_leadsTo (h : t.LeadsTo i j) (passed : Finset Nat)
    (hpassed : passed ⊆ Finset.range t.items.size)
    (havoids : ∀ k, ReflTransGen t.IsAliasOf i k → k.index ∉ passed) :
    t.followAliases (t.items.size - passed.card) i = some j := by
  obtain ⟨hchain, hend⟩ := h
  induction hchain using ReflTransGen.head_induction_on generalizing passed with
  | refl => exact followAliases_of_none hend _
  | @head i target hstep hrest ih =>
    have hlt : i.index < t.items.size := lt_of_aliasTarget? hstep
    have hnew : i.index ∉ passed := havoids i .refl
    have hpassed' : insert i.index passed ⊆ Finset.range t.items.size :=
      Finset.insert_subset (Finset.mem_range.2 hlt) hpassed
    have hcard : (insert i.index passed).card = passed.card + 1 := Finset.card_insert_of_notMem hnew
    have hle : passed.card + 1 ≤ t.items.size := by
      simpa [hcard] using Finset.card_le_card hpassed'
    have hfollow : t.followAliases (t.items.size - (passed.card + 1)) target = some j := by
      rw [← hcard]
      refine ih (insert i.index passed) hpassed' fun k hk hmem => ?_
      rcases Finset.mem_insert.1 hmem with heq | hmem
      · -- the chain would come back to `i`
        have hki : k = i := congrArg ItemId.mk heq
        rw [hki] at hk
        exact LeadsTo.not_cycle ⟨.head hstep hrest, hend⟩ (.head' hstep hk)
      · exact havoids k (.head hstep hk) hmem
    obtain ⟨n, hn⟩ : ∃ n, t.items.size - passed.card = n + 1 :=
      ⟨t.items.size - (passed.card + 1), by omega⟩
    have hn' : t.items.size - (passed.card + 1) = n := by omega
    rw [hn, followAliases, show t.aliasTarget? i = some target from hstep]
    exact hn' ▸ hfollow

/-- An alias is resolved to the item in which its chain ends. -/
theorem resolveAlias_eq_ok_iff : t.resolveAlias i = .ok j ↔ t.LeadsTo i j := by
  rw [resolveAlias_eq_ok]
  refine ⟨leadsTo_of_followAliases, fun h => ?_⟩
  have := followAliases_of_leadsTo h ∅ (Finset.empty_subset _) fun _ _ => Finset.notMem_empty _
  simpa using this

end SemanticAnalysis.SymbolTable
