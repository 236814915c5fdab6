import Mathlib.Data.List.Induction
import SemanticAnalysis.Proofs.Ty.Erasure

/-!
# Formation of unions

A union of types takes up the members of unmodified unions (`Flattens`), and of types that are the same it
keeps the one that comes first (`firstOccurrences`). A single type that is left stands for itself.

1. Dropping repeated types keeps the first ones (`distinct_eq_firstOccurrences`), so it can be done piece
   by piece (`distinct_append_distinct`).
2. If the unions among the types are flat, then so is their union, and it is taken up by the types that it
   was made of (`spread_union`).
3. **`union_canonical`**: the members are the flattened types in the order of their first occurrence, and
   the union of two lists is the union of their unions.
-/

namespace SemanticAnalysis.Ty

/-! ## Unmodified unions -/

/-- A union without layers, which a larger union takes up by its members. -/
def isBareUnion (t : Ty) : Bool := t.members?.isSome && t.layers.isEmpty

theorem spread_eq_singleton {t : Ty} (h : t.isBareUnion = false) : t.spread = [t] := by
  unfold spread
  split
  · cases h
  · rfl

theorem flatMap_spread {ts : List Ty} (h : ∀ t ∈ ts, t.isBareUnion = false) :
    ts.flatMap spread = ts := by
  induction ts with
  | nil => rfl
  | cons t rest ih =>
    rw [List.flatMap_cons, spread_eq_singleton (h t List.mem_cons_self),
      ih fun u hu => h u (List.mem_cons_of_mem t hu)]
    rfl

/-- A type is an unmodified union, or it stands for itself in a union. -/
theorem bare_union_or_spread (t : Ty) :
    (∃ members, t = bare (.union members)) ∨ t.isBareUnion = false ∧ t.spread = [t] := by
  by_cases h : t.isBareUnion = true
  · obtain ⟨kind, layers⟩ := t
    cases kind <;> cases layers <;> simp_all [isBareUnion, members?, bare]
  · rw [Bool.not_eq_true] at h
    exact .inr ⟨h, spread_eq_singleton h⟩

/-- If the type is an unmodified union, then none of its members is one. -/
def Flat (t : Ty) : Prop :=
  ∀ members, t = bare (.union members) → ∀ m ∈ members, m.isBareUnion = false

theorem flat_iff {t : Ty} : t.Flat ↔ ∀ m ∈ t.spread, m.isBareUnion = false := by
  rcases t.bare_union_or_spread with ⟨members, rfl⟩ | ⟨ht, hspread⟩
  · constructor
    · intro h
      exact h members rfl
    · intro h others heq
      cases heq
      exact h
  · rw [hspread]
    constructor
    · intro _ m hm
      rwa [List.mem_singleton.1 hm]
    · rintro - members rfl
      cases ht

instance (t : Ty) : Decidable t.Flat := decidable_of_iff _ flat_iff.symm

/-- `flat` has the types of a list in their order, but the members of an unmodified union in its place. -/
inductive Flattens : List Ty → List Ty → Prop
  | nil : Flattens [] []
  | members {members ts flat : List Ty} (h : Flattens ts flat) :
    Flattens (bare (.union members) :: ts) (members ++ flat)
  | self {t : Ty} {ts flat : List Ty} (ht : t.isBareUnion = false) (h : Flattens ts flat) :
    Flattens (t :: ts) (t :: flat)

theorem flattens_flatMap_spread (ts : List Ty) : Flattens ts (ts.flatMap spread) := by
  induction ts with
  | nil => exact .nil
  | cons t ts ih =>
    rw [List.flatMap_cons]
    rcases t.bare_union_or_spread with ⟨members, rfl⟩ | ⟨ht, hspread⟩
    · exact .members ih
    · rw [hspread]
      exact .self ht ih

/-! ## Repeated types -/

theorem distinct_concat (ts : List Ty) (t : Ty) :
    distinct (ts ++ [t]) = if ts.contains t then distinct ts else distinct ts ++ [t] := by
  rw [← contains_distinct ts t]
  exact List.foldl_append

/-- The types of a list with none that is the same before them. -/
def firstOccurrences (ts : List Ty) : List Ty :=
  (ts.zipIdx.filter fun (t, i) => !(ts.take i).contains t).map (·.1)

theorem firstOccurrences_concat (ts : List Ty) (t : Ty) :
    firstOccurrences (ts ++ [t]) =
      if ts.contains t then firstOccurrences ts else firstOccurrences ts ++ [t] := by
  have hearlier : ts.zipIdx.filter (fun (u, i) => !((ts ++ [t]).take i).contains u) =
      ts.zipIdx.filter fun (u, i) => !(ts.take i).contains u := by
    refine List.filter_congr fun (u, i) hu => ?_
    have hi : i ≤ ts.length := Nat.le_of_lt (List.snd_lt_of_mem_zipIdx hu)
    dsimp only
    rw [List.take_append_of_le_length hi]
  unfold firstOccurrences
  rw [List.zipIdx_append, List.filter_append, hearlier]
  cases h : ts.contains t <;> simp [h]

theorem distinct_eq_firstOccurrences (ts : List Ty) : distinct ts = firstOccurrences ts := by
  induction ts using List.reverseRecOn with
  | nil => rfl
  | append_singleton ts t ih => rw [distinct_concat, firstOccurrences_concat, ih]

/-- No two types of the list are the same. -/
def Different (ts : List Ty) : Prop := ts.Pairwise fun t u => (t == u) = false

theorem different_distinct (ts : List Ty) : Different (distinct ts) := by
  induction ts using List.reverseRecOn with
  | nil => exact .nil
  | append_singleton ts t ih =>
    rw [distinct_concat]
    split
    · exact ih
    · rename_i hnew
      refine List.pairwise_append.2 ⟨ih, List.pairwise_singleton _ _, fun u hu v hv => ?_⟩
      rw [List.mem_singleton.1 hv, beq_comm]
      rw [← contains_distinct, List.contains_eq_any_beq, List.any_eq_true] at hnew
      exact Bool.eq_false_iff.2 fun hsame => hnew ⟨u, hu, hsame⟩

theorem distinct_of_different {ts : List Ty} (h : Different ts) : distinct ts = ts := by
  induction ts using List.reverseRecOn with
  | nil => rfl
  | append_singleton ts t ih =>
    obtain ⟨hts, -, hnew⟩ := List.pairwise_append.1 h
    have hfresh : ¬ ts.contains t = true := by
      rw [List.contains_eq_any_beq, List.any_eq_true]
      rintro ⟨u, hu, hsame⟩
      rw [beq_comm, hnew u hu t List.mem_cons_self] at hsame
      cases hsame
    rw [distinct_concat, if_neg hfresh, ih hts]

theorem distinct_append (ts us : List Ty) :
    distinct (ts ++ us) = distinct ts ++ (distinct us).filter fun u => !ts.contains u := by
  induction us using List.reverseRecOn with
  | nil => simp [distinct]
  | append_singleton us u ih =>
    rw [← List.append_assoc, distinct_concat, distinct_concat, ih]
    cases hts : ts.contains u <;> cases hus : us.contains u <;> simp [hts, hus]

/-- Repeated types may be dropped from each of two lists before they are dropped from both together. -/
theorem distinct_append_distinct (ts us : List Ty) :
    distinct (distinct ts ++ distinct us) = distinct (ts ++ us) := by
  rw [distinct_append, distinct_append, distinct_of_different (different_distinct ts),
    distinct_of_different (different_distinct us)]
  simp only [contains_distinct]

/-! ## Parts of a union -/

theorem contains_iff_exists_same {ts : List Ty} {t : Ty} :
    ts.contains t = true ↔ ∃ u ∈ ts, t.erase = u.erase := by
  rw [List.contains_eq_any_beq, List.any_eq_true]
  simp only [beq_iff]

theorem exists_mem_distinct {ts : List Ty} {t : Ty} (h : t ∈ ts) :
    ∃ u ∈ distinct ts, t.erase = u.erase := by
  rw [← contains_iff_exists_same, contains_distinct, contains_iff_exists_same]
  exact ⟨t, h, rfl⟩

theorem exists_mem_of_mem_distinct {ts : List Ty} {t : Ty} (h : t ∈ distinct ts) :
    ∃ u ∈ ts, t.erase = u.erase := by
  rw [← contains_iff_exists_same, ← contains_distinct, contains_iff_exists_same]
  exact ⟨t, h, rfl⟩

/-- A union is its only part, or it has its parts as members. -/
theorem union_cases (ts : List Ty) :
    distinct (ts.flatMap spread) = [union ts] ∨
      union ts = bare (.union (distinct (ts.flatMap spread))) := by
  unfold union
  split
  · rename_i t hsingle
    exact .inl hsingle
  · exact .inr rfl

/-- What is left of a list is part of it. -/
theorem mem_of_mem_distinct {ts : List Ty} {t : Ty} (h : t ∈ distinct ts) : t ∈ ts := by
  rw [distinct_eq_firstOccurrences] at h
  obtain ⟨p, hp, rfl⟩ := List.mem_map.1 h
  exact List.fst_mem_of_mem_zipIdx (List.mem_filter.1 hp).1

section Flat

variable {ts us : List Ty}

theorem isBareUnion_of_mem_distinct (h : ∀ t ∈ ts, t.Flat) {m : Ty}
    (hm : m ∈ distinct (ts.flatMap spread)) : m.isBareUnion = false := by
  obtain ⟨t, ht, hmem⟩ := List.mem_flatMap.1 (mem_of_mem_distinct hm)
  exact flat_iff.1 (h t ht) m hmem

/-- A larger union takes up what the union was made of. -/
theorem spread_union (h : ∀ t ∈ ts, t.Flat) : (union ts).spread = distinct (ts.flatMap spread) := by
  rcases union_cases ts with hsingle | hunion
  · rw [hsingle]
    refine spread_eq_singleton (isBareUnion_of_mem_distinct h ?_)
    rw [hsingle]
    exact List.mem_cons_self
  · rw [hunion]
    rfl

theorem flat_union (h : ∀ t ∈ ts, t.Flat) : (union ts).Flat := by
  rw [flat_iff, spread_union h]
  exact fun m => isBareUnion_of_mem_distinct h

theorem union_of_single {t : Ty} (h : distinct (ts.flatMap spread) = [t]) : union ts = t := by
  unfold union
  rw [h]

theorem union_congr (h : distinct (ts.flatMap spread) = distinct (us.flatMap spread)) :
    union ts = union us := by
  unfold union
  rw [h]

/-- The members of an unmodified union are what is left of its parts, and not a single one. -/
theorem members_of_union (h : ∀ t ∈ ts, t.Flat) {members : List Ty}
    (hunion : union ts = bare (.union members)) :
    members = distinct (ts.flatMap spread) ∧ members.length ≠ 1 := by
  -- a single part would be the union itself, but no part is an unmodified union
  have hnone : ∀ t, distinct (ts.flatMap spread) ≠ [t] := by
    intro t hsingle
    have hbare := isBareUnion_of_mem_distinct h (hsingle ▸ List.mem_cons_self : t ∈ distinct _)
    rw [← union_of_single hsingle, hunion] at hbare
    cases hbare
  rcases union_cases ts with hsingle | hparts
  · exact absurd hsingle (hnone _)
  · rw [hunion] at hparts
    cases hparts
    refine ⟨rfl, fun hlength => ?_⟩
    obtain ⟨t, ht⟩ := List.length_eq_one_iff.1 hlength
    exact hnone t ht

theorem union_append (hts : ∀ t ∈ ts, t.Flat) (hus : ∀ t ∈ us, t.Flat) :
    union (ts ++ us) = union [union ts, union us] := by
  refine union_congr ?_
  calc distinct ((ts ++ us).flatMap spread)
      = distinct (ts.flatMap spread ++ us.flatMap spread) := by rw [List.flatMap_append]
    _ = distinct (distinct (ts.flatMap spread) ++ distinct (us.flatMap spread)) :=
        (distinct_append_distinct _ _).symm
    _ = distinct ([union ts, union us].flatMap spread) := by
        rw [← spread_union hts, ← spread_union hus]
        simp

end Flat

/-- **Unions are canonical and associative.** If the unmodified unions among the types are flat, then the
union of the types is the flattened list, of which each type is kept where it first occurs, unless a
single type is left, which stands for itself. The members of an unmodified union are different, none is an
unmodified union, and there is not just one. Unions of lists may be formed one by one. -/
theorem union_canonical {ts us : List Ty} (hts : ∀ t ∈ ts, t.Flat) (hus : ∀ t ∈ us, t.Flat) :
    ∃ flat, Flattens ts flat ∧
      (∀ members, union ts = bare (.union members) →
        members = firstOccurrences flat ∧ Different members ∧ (∀ m ∈ members, m.isBareUnion = false) ∧
          members.length ≠ 1) ∧
      (∀ t, firstOccurrences flat = [t] → union ts = t) ∧
      ((firstOccurrences flat).length ≠ 1 → union ts = bare (.union (firstOccurrences flat))) ∧
      union (ts ++ us) = union [union ts, union us] := by
  refine ⟨ts.flatMap spread, flattens_flatMap_spread ts, ?_, ?_, ?_, union_append hts hus⟩
  · intro members hunion
    obtain ⟨hmembers, hlength⟩ := members_of_union hts hunion
    refine ⟨hmembers.trans (distinct_eq_firstOccurrences _), ?_, flat_union hts members hunion, hlength⟩
    rw [hmembers]
    exact different_distinct _
  · intro t hsingle
    rw [← distinct_eq_firstOccurrences] at hsingle
    exact union_of_single hsingle
  · intro hlength
    rw [← distinct_eq_firstOccurrences] at hlength ⊢
    refine (union_cases ts).resolve_left fun hsingle => hlength ?_
    rw [hsingle]
    rfl

/-- A function of an `int` whose parameter has a name. -/
def labelledFunction (name : String) : Ty := .function ⟨[{ name, ty := .int }], .void⟩

/-- `(int | bool) | (x: int) => void` with `bool | (y: int) => void`: of the two functions, which are the
same, the first one stays. -/
theorem union_canonical_functions :
    let ts : List Ty := [bare (.union [.int, .bool]), labelledFunction "x"]
    let us : List Ty := [.bool, labelledFunction "y"]
    (∀ t ∈ ts, t.Flat) ∧ (∀ t ∈ us, t.Flat) ∧
      union (ts ++ us) = union [union ts, union us] ∧
      union (ts ++ us) = bare (.union [.int, .bool, labelledFunction "x"]) := by
  intro ts us
  have hts : ∀ t ∈ ts, t.Flat := by decide
  have hus : ∀ t ∈ us, t.Flat := by decide
  obtain ⟨-, -, -, -, -, happend⟩ := union_canonical hts hus
  exact ⟨hts, hus, happend, by with_unfolding_all rfl⟩

end SemanticAnalysis.Ty
