import Mathlib.Data.Finset.Card
import Mathlib.Data.Finset.Range
import Mathlib.Logic.Relation
import SemanticAnalysis.SymbolTable.Hierarchy

/-!
# Paths of parents

`IsParent` is the relation that the lists of parents spell out, and a hierarchy is acyclic when no
class is reached from itself along it.

1. The search for ancestors misses nothing (`mem_withAncestors_of_climbs`): what it has seen in the end
   is closed under parents, since every layer but the last uses up an item of the table.
2. A path from a class depends only on the parents of the classes on it (`climbs_of_agree`).
3. New parents close no cycle when the class is not reached from any of them (`IsAcyclic.of_parents`).
-/

namespace SemanticAnalysis.SymbolTable

open Relation

variable {t u : SymbolTable}

/-- `p` is in the list of parents of `i`. -/
def IsParent (t : SymbolTable) (i p : ItemId) : Prop := p ∈ t.parentsOf i

/-- A path of parents, possibly empty, leads from one class to another. -/
abbrev Climbs (t : SymbolTable) : ItemId → ItemId → Prop := ReflTransGen t.IsParent

/-- No class is reached from itself through parents. -/
def IsAcyclic (t : SymbolTable) : Prop := ∀ i, ¬ TransGen t.IsParent i i

/-! ## The search for ancestors -/

theorem mem_firstSeen {seen is : List ItemId} {i : ItemId} :
    i ∈ firstSeen seen is ↔ i ∈ is ∧ i ∉ seen := by
  induction is generalizing seen with
  | nil => simp [firstSeen]
  | cons j rest ih =>
    by_cases hj : j ∈ seen
    · simp only [firstSeen, List.contains_iff_mem.2 hj, if_true, ih, List.mem_cons]
      grind
    · simp only [firstSeen, List.contains_iff_mem, hj, if_false, List.mem_cons, ih]
      grind

theorem parentsOf_of_size_le {i : ItemId} (h : t.items.size ≤ i.index) : t.parentsOf i = [] := by
  have hnone : t.item? i = none := Array.getElem?_eq_none h
  simp [parentsOf, class?, hnone]

/-- The items of the table that the search has not seen. -/
def unseen (t : SymbolTable) (seen : List ItemId) : Finset Nat :=
  (Finset.range t.items.size).filter fun k => ⟨k⟩ ∉ seen

theorem card_unseen_le (t : SymbolTable) (seen : List ItemId) : (t.unseen seen).card ≤ t.items.size :=
  calc (t.unseen seen).card ≤ (Finset.range t.items.size).card := Finset.card_filter_le _ _
    _ = t.items.size := Finset.card_range _

theorem card_unseen_append_lt {seen next : List ItemId} {i : ItemId} (hi : i ∈ next)
    (hnew : i ∉ seen) (hlt : i.index < t.items.size) :
    (t.unseen (seen ++ next)).card < (t.unseen seen).card := by
  refine Finset.card_lt_card ⟨fun k hk => ?_, fun hsub => ?_⟩
  · simp only [unseen, Finset.mem_filter, List.mem_append, not_or] at hk ⊢
    exact ⟨hk.1, hk.2.1⟩
  · have hk : i.index ∈ t.unseen seen := by simpa [unseen, hlt] using hnew
    have := hsub hk
    simp only [unseen, Finset.mem_filter, List.mem_append, not_or] at this
    exact this.2.2 hi

/-- What the search has seen in the end is closed under parents, if before it everything behind the
frontier was and the bound is more than the number of items left. -/
theorem layersFrom_closed (t : SymbolTable) (bound : Nat) (frontier seen : List ItemId)
    (hfrontier : frontier ⊆ seen) (hseen : ∀ i ∈ seen, i ∉ frontier → t.parentsOf i ⊆ seen)
    (hbound : (t.unseen seen).card < bound ∨ ∀ i ∈ frontier, t.parentsOf i = []) :
    ∀ i ∈ seen ++ (t.layersFrom bound frontier seen).flatten,
      t.parentsOf i ⊆ seen ++ (t.layersFrom bound frontier seen).flatten := by
  induction bound generalizing frontier seen with
  | zero =>
    intro i hi
    simp only [layersFrom, List.flatten_nil, List.append_nil] at hi ⊢
    by_cases hf : i ∈ frontier
    · rw [(hbound.resolve_left (Nat.not_lt_zero _)) i hf]
      exact List.nil_subset _
    · exact hseen i hi hf
  | succ bound ih =>
    have hnext : ∀ i ∈ frontier, ∀ p ∈ t.parentsOf i,
        p ∈ seen ∨ p ∈ firstSeen seen (frontier.flatMap t.parentsOf) := by
      intro i hi p hp
      by_cases hs : p ∈ seen
      · exact .inl hs
      · exact .inr (mem_firstSeen.2 ⟨List.mem_flatMap.2 ⟨i, hi, hp⟩, hs⟩)
    unfold layersFrom
    split
    · rename_i hnil
      intro i hi
      simp only [List.flatten_nil, List.append_nil] at hi ⊢
      by_cases hf : i ∈ frontier
      · intro p hp
        have := hnext i hf p hp
        rw [hnil] at this
        exact this.resolve_right (List.not_mem_nil)
      · exact hseen i hi hf
    · rename_i hne
      rw [List.flatten_cons, ← List.append_assoc]
      refine ih _ _ (List.subset_append_right _ _) (fun i hi hn p hp => ?_) ?_
      · have hi : i ∈ seen := (List.mem_append.1 hi).resolve_right hn
        by_cases hf : i ∈ frontier
        · exact List.mem_append.2 (hnext i hf p hp)
        · exact List.mem_append_left _ (hseen i hi hf hp)
      · -- a layer either has an item of the table or is the last one
        by_cases hitem : ∃ i ∈ firstSeen seen (frontier.flatMap t.parentsOf),
            i.index < t.items.size
        · obtain ⟨i, hi, hlt⟩ := hitem
          have hless := card_unseen_append_lt hi (mem_firstSeen.1 hi).2 hlt
          rcases hbound with hbound | hbound
          · exact .inl (Nat.lt_of_lt_of_le hless (Nat.le_of_lt_succ hbound))
          · obtain ⟨j, hj, hp⟩ := List.mem_flatMap.1 (mem_firstSeen.1 hi).1
            rw [hbound j hj] at hp
            cases hp
        · push Not at hitem
          exact .inr fun i hi => parentsOf_of_size_le (hitem i hi)

theorem withAncestors_closed (t : SymbolTable) (i : ItemId) :
    ∀ j ∈ t.withAncestors i, t.parentsOf j ⊆ t.withAncestors i := by
  have hfront : ∀ j ∈ [i], j ∉ [i] → t.parentsOf j ⊆ [i] := fun j hj hn => absurd hj hn
  refine t.layersFrom_closed t.items.size [i] [i] (List.Subset.refl _) hfront ?_
  by_cases hi : i.index < t.items.size
  · refine .inl ?_
    calc (t.unseen [i]).card < (t.unseen []).card :=
          card_unseen_append_lt (List.mem_singleton_self i) List.not_mem_nil hi
      _ ≤ t.items.size := t.card_unseen_le []
  · refine .inr fun j hj => parentsOf_of_size_le ?_
    rw [List.mem_singleton.1 hj]
    exact Nat.le_of_not_lt hi

/-- The search for ancestors misses nothing. -/
theorem mem_withAncestors_of_climbs {i j : ItemId} (h : t.Climbs i j) : j ∈ t.withAncestors i := by
  induction h with
  | refl => exact List.mem_cons_self
  | tail _ hp ih => exact t.withAncestors_closed i _ ih hp

theorem hasParent_of_climbs {i j : ItemId} (h : t.Climbs i j) (hne : i ≠ j) :
    t.hasParent i j = true := by
  have hmem : j ∈ t.ancestors i :=
    (List.mem_cons.1 (mem_withAncestors_of_climbs h)).resolve_left hne.symm
  obtain ⟨layer, hlayer, hj⟩ := List.mem_flatten.1 hmem
  have hfound : ((t.ancestorLayers i).findIdx? (·.contains j)).isSome := by
    rw [List.findIdx?_isSome, List.any_eq_true]
    exact ⟨layer, hlayer, List.contains_iff_mem.2 hj⟩
  obtain ⟨d, hd⟩ := Option.isSome_iff_exists.1 hfound
  rw [hasParent, distance?, if_neg hne, hd]
  rfl

/-! ## Changed parents -/

/-- A path goes only through what its start reaches. -/
theorem climbs_of_agree {i j : ItemId} (h : u.Climbs i j)
    (hagree : ∀ k, t.Climbs i k → u.parentsOf k = t.parentsOf k) : t.Climbs i j := by
  induction h with
  | refl => exact .refl
  | @tail k l _ hstep ih =>
    rw [IsParent, hagree k ih] at hstep
    exact ih.tail hstep

/-- Give one class other parents. -/
theorem IsAcyclic.of_parents (h : t.IsAcyclic) {item : ItemId} {parents : List ItemId}
    (hothers : ∀ i, i ≠ item → u.parentsOf i = t.parentsOf i)
    (hitem : ∀ p ∈ u.parentsOf item, p ∈ t.parentsOf item ∨ p ∈ parents)
    (hparents : ∀ p ∈ parents, ¬ t.Climbs p item) : u.IsAcyclic := by
  -- the last new step of a path splits it into two paths that were there before
  have hsplit : ∀ i j, TransGen u.IsParent i j →
      TransGen t.IsParent i j ∨ t.Climbs i item ∧ ∃ p ∈ parents, t.Climbs p j := by
    have hstep : ∀ i j, u.IsParent i j → t.IsParent i j ∨ i = item ∧ j ∈ parents := by
      intro i j hij
      by_cases hi : i = item
      · subst hi
        exact (hitem j hij).imp_right fun hj => ⟨rfl, hj⟩
      · exact .inl (by rwa [IsParent, ← hothers i hi])
    intro i j hij
    induction hij with
    | single hij =>
      rcases hstep _ _ hij with hold | ⟨rfl, hj⟩
      · exact .inl (.single hold)
      · exact .inr ⟨.refl, _, hj, .refl⟩
    | tail _ hkj ih =>
      rcases hstep _ _ hkj with hold | ⟨rfl, hj⟩
      · exact ih.imp (·.tail hold) fun ⟨hi, p, hp, hpk⟩ => ⟨hi, p, hp, hpk.tail hold⟩
      · exact .inr ⟨ih.elim (·.to_reflTransGen) (·.1), _, hj, .refl⟩
  intro i hi
  rcases hsplit i i hi with hcycle | ⟨hi, p, hp, hpi⟩
  · exact h i hcycle
  · exact hparents p hp (hpi.trans hi)

theorem IsAcyclic.of_eq (h : t.IsAcyclic) (heq : ∀ i, u.parentsOf i = t.parentsOf i) :
    u.IsAcyclic := by
  have : u.IsParent = t.IsParent := by
    funext i p
    rw [IsParent, IsParent, heq]
  unfold IsAcyclic
  rw [this]
  exact h

end SemanticAnalysis.SymbolTable
