import Mathlib.Data.List.Pairwise
import SemanticAnalysis.Proofs.SymbolTable.Hierarchy

/-!
# Distance in the hierarchy

The search for ancestors goes outward layer by layer. After `d` layers it has seen what a path of at most
`d` parents leads to, and its frontier is what no shorter path leads to (`Searched`). One layer keeps this
(`Searched.next`), so that in the end a class and its ancestors are listed once each, nearest first
(`nearestFirst_withAncestors`).
-/

namespace SemanticAnalysis.SymbolTable

variable {t : SymbolTable} {i j : ItemId} {d n : Nat}

/-- A path of `n` parents leads from one class to another. -/
inductive ClimbsIn (t : SymbolTable) (i : ItemId) : (n : Nat) → (j : ItemId) → Prop
  | refl : ClimbsIn t i 0 i
  | tail {n : Nat} {j k : ItemId} : ClimbsIn t i n j → t.IsParent j k → ClimbsIn t i (n + 1) k

/-- The shortest path of parents from `i` to `j` has length `d`. -/
structure IsDistance (t : SymbolTable) (i j : ItemId) (d : Nat) : Prop where
  path : t.ClimbsIn i d j
  shortest : ∀ n, t.ClimbsIn i n j → d ≤ n

/-- A list of `i` and all that is reached from it along parents, once each, nearest first. -/
structure NearestFirst (t : SymbolTable) (i : ItemId) (walk : List ItemId) : Prop where
  mem : ∀ j, j ∈ walk ↔ t.Climbs i j
  nodup : walk.Nodup
  ordered : walk.Pairwise fun a b => ∀ n, t.ClimbsIn i n b → ∃ m ≤ n, t.ClimbsIn i m a

theorem ClimbsIn.climbs (h : t.ClimbsIn i n j) : t.Climbs i j := by
  induction h with
  | refl => exact .refl
  | tail _ hparent ih => exact ih.tail hparent

/-! ## One layer -/

theorem nodup_firstSeen (seen is : List ItemId) : (firstSeen seen is).Nodup := by
  induction is generalizing seen with
  | nil => exact List.nodup_nil
  | cons i rest ih =>
    unfold firstSeen
    split
    · exact ih seen
    · refine List.nodup_cons.2 ⟨fun hmem => ?_, ih _⟩
      exact (mem_firstSeen.1 hmem).2 List.mem_cons_self

/-- How far the search for ancestors of `i` has come after `d` layers. -/
structure Searched (t : SymbolTable) (i : ItemId) (d : Nat) (frontier seen : List ItemId) : Prop where
  outmost : ∀ j, j ∈ frontier ↔ t.IsDistance i j d
  within : ∀ j, j ∈ seen ↔ ∃ n ≤ d, t.ClimbsIn i n j
  nodup : seen.Nodup
  ordered : seen.Pairwise fun a b => ∀ n, t.ClimbsIn i n b → ∃ m ≤ n, t.ClimbsIn i m a

theorem searched_start (t : SymbolTable) (i : ItemId) : t.Searched i 0 [i] [i] where
  outmost j := by
    rw [List.mem_singleton]
    constructor
    · rintro rfl
      exact ⟨.refl, fun n _ => Nat.zero_le n⟩
    · rintro ⟨⟨⟩, -⟩
      rfl
  within j := by
    rw [List.mem_singleton]
    constructor
    · rintro rfl
      exact ⟨0, Nat.le_refl 0, .refl⟩
    · rintro ⟨n, hn, hpath⟩
      obtain rfl := Nat.le_zero.1 hn
      cases hpath
      rfl
  nodup := List.nodup_singleton i
  ordered := List.pairwise_singleton _ i

namespace Searched

variable {frontier seen : List ItemId}

/-- The next layer is what is one step further away. -/
theorem mem_next (h : t.Searched i d frontier seen) :
    j ∈ firstSeen seen (frontier.flatMap t.parentsOf) ↔ t.IsDistance i j (d + 1) := by
  rw [mem_firstSeen, List.mem_flatMap, h.within]
  constructor
  · rintro ⟨⟨k, hk, hparent⟩, hnew⟩
    refine ⟨((h.outmost k).1 hk).path.tail hparent, fun n hn => ?_⟩
    by_contra hlt
    exact hnew ⟨n, by omega, hn⟩
  · rintro ⟨hpath, hshortest⟩
    refine ⟨?_, fun ⟨n, hn, hpath'⟩ => ?_⟩
    · cases hpath with
      | @tail _ k _ hk hparent =>
        refine ⟨k, (h.outmost k).2 ⟨hk, fun n hn => ?_⟩, hparent⟩
        exact Nat.le_of_succ_le_succ (hshortest _ (hn.tail hparent))
    · have := hshortest n hpath'
      omega

/-- One layer of the search. -/
theorem next (h : t.Searched i d frontier seen) :
    t.Searched i (d + 1) (firstSeen seen (frontier.flatMap t.parentsOf))
      (seen ++ firstSeen seen (frontier.flatMap t.parentsOf)) where
  outmost _ := h.mem_next
  within j := by
    rw [List.mem_append, h.mem_next, h.within]
    constructor
    · rintro (⟨n, hn, hpath⟩ | hj)
      · exact ⟨n, Nat.le_succ_of_le hn, hpath⟩
      · exact ⟨d + 1, Nat.le_refl _, hj.path⟩
    · rintro ⟨n, hn, hpath⟩
      by_cases hseen : ∃ m ≤ d, t.ClimbsIn i m j
      · exact .inl hseen
      · have hfar : ∀ m, t.ClimbsIn i m j → d + 1 ≤ m := fun m hm => by
          by_contra hlt
          exact hseen ⟨m, by omega, hm⟩
        obtain rfl : n = d + 1 := Nat.le_antisymm hn (hfar n hpath)
        exact .inr ⟨hpath, hfar⟩
  nodup := by
    refine List.nodup_append.2 ⟨h.nodup, nodup_firstSeen _ _, ?_⟩
    rintro a ha _ hb rfl
    exact (mem_firstSeen.1 hb).2 ha
  ordered := by
    -- whatever is listed so far is no further away than the new layer
    have hnear : ∀ a b, (∃ m ≤ d + 1, t.ClimbsIn i m a) → t.IsDistance i b (d + 1) →
        ∀ n, t.ClimbsIn i n b → ∃ m ≤ n, t.ClimbsIn i m a := by
      rintro a b ⟨m, hm, hpath⟩ hb n hn
      exact ⟨m, hm.trans (hb.shortest n hn), hpath⟩
    refine List.pairwise_append.2 ⟨h.ordered, ?_, fun a ha b hb => ?_⟩
    · refine List.pairwise_of_forall_mem_list fun a ha b hb => ?_
      exact hnear a b ⟨d + 1, Nat.le_refl _, (h.mem_next.1 ha).path⟩ (h.mem_next.1 hb)
    · obtain ⟨m, hm, hpath⟩ := (h.within a).1 ha
      exact hnear a b ⟨m, Nat.le_succ_of_le hm, hpath⟩ (h.mem_next.1 hb)

/-- All layers of the search. -/
theorem layersFrom (h : t.Searched i d frontier seen) (bound : Nat) :
    ∃ d' frontier', t.Searched i d' frontier' (seen ++ (t.layersFrom bound frontier seen).flatten) := by
  induction bound generalizing d frontier seen with
  | zero => exact ⟨d, frontier, by simpa [SymbolTable.layersFrom] using h⟩
  | succ bound ih =>
    unfold SymbolTable.layersFrom
    split
    · exact ⟨d, frontier, by simpa using h⟩
    · rw [List.flatten_cons, ← List.append_assoc]
      exact ih h.next

end Searched

/-- A class and its ancestors are listed once each, nearest first. -/
theorem nearestFirst_withAncestors (t : SymbolTable) (i : ItemId) :
    t.NearestFirst i (t.withAncestors i) := by
  obtain ⟨d, frontier, h⟩ := (t.searched_start i).layersFrom t.items.size
  refine ⟨fun j => ⟨fun hj => ?_, mem_withAncestors_of_climbs⟩, h.nodup, h.ordered⟩
  obtain ⟨n, -, hpath⟩ := (h.within j).1 hj
  exact hpath.climbs

end SemanticAnalysis.SymbolTable
