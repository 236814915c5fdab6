import SemanticAnalysis.Proofs.Conversion.Guard
import SemanticAnalysis.Proofs.Ty.Unions

/-!
# Unions convert member by member

A value of a union is a value of one of its members, so a union should fit wherever each member fits,
and a member of the destination is as good as the destination. Each of the two takes one step more than
the members take.

1. `Ty.union` spreads unmodified unions and drops repeated types; what is left are the same types
   (`exists_mem_distinct`, `exists_mem_of_mem_distinct`). A single one stands for itself, and then no
   step is needed at all.
2. What converts into a part converts into the union (`finds_into_union`), and a union converts where
   all its parts do (`finds_out_of_union`).
3. **`converts_union`**: both together, so two levels deeper.
-/

namespace SemanticAnalysis

namespace Conversion

open Ty

variable {table : SymbolTable} {depth : Nat} {src dst : Ty} {types : List Ty}

/-! ## One step -/

theorem finds_into_union {part : Ty} (hpart : part ∈ types.flatMap spread)
    (h : Finds (bounded table depth) src part) :
    Finds (bounded table (depth + 1)) src (union types) := by
  obtain ⟨kept, hkept, hsame⟩ := exists_mem_distinct hpart
  rcases union_cases types with hsingle | hunion
  · rw [hsingle, List.mem_singleton] at hkept
    exact bounded_covers table (Nat.le_succ depth) rfl (hkept ▸ hsame) h
  · rw [hunion]
    have hfits := bounded_covers table (Nat.le_refl depth) rfl hsame h
    exact finds_bounded_succ.2 (.inr (.intoUnion rfl rfl hkept hfits))

theorem finds_out_of_union
    (h : ∀ part ∈ types.flatMap spread, Finds (bounded table depth) part dst) :
    Finds (bounded table (depth + 1)) (union types) dst := by
  have hkept : ∀ kept ∈ distinct (types.flatMap spread), Finds (bounded table depth) kept dst := by
    intro kept hkept
    obtain ⟨part, hpart, hsame⟩ := exists_mem_of_mem_distinct hkept
    exact bounded_covers table (Nat.le_refl depth) hsame.symm rfl (h part hpart)
  rcases union_cases types with hsingle | hunion
  · rw [hsingle] at hkept
    exact bounded_covers table (Nat.le_succ depth) rfl rfl (hkept _ List.mem_cons_self)
  · rw [hunion]
    exact finds_bounded_succ.2 (.inr (.outOfUnion rfl rfl hkept))

end Conversion

open Conversion

/-- **Unions convert member by member.** If each of some types fits one of some others, none of them an
unmodified union, then the union of the former fits the union of the latter with a depth bound larger by
two, whatever the order of the types and however often they are repeated. -/
theorem converts_union (table : SymbolTable) (options : Options) {types others : List Ty}
    (htypes : ∀ t ∈ types, t.isBareUnion = false) (hothers : ∀ t ∈ others, t.isBareUnion = false)
    (h : ∀ t ∈ types, ∃ o ∈ others, converts table options t o = true) :
    converts table { options with conversionDepth := options.conversionDepth + 2 } (Ty.union types)
      (Ty.union others) = true := by
  have hinto : ∀ t ∈ types,
      Finds (bounded table (options.conversionDepth + 1)) t (Ty.union others) := by
    intro t ht
    obtain ⟨o, ho, hfits⟩ := h t ht
    rw [← Ty.flatMap_spread hothers] at ho
    exact finds_into_union ho (finds_bounded_iff_converts.2 hfits)
  rw [← finds_bounded_iff_converts]
  rw [← Ty.flatMap_spread htypes] at hinto
  exact finds_out_of_union hinto

/-- `int | bool` fits `double | bool?` with a bound of three, not of two, as its members need one. -/
theorem converts_union_natives :
    let types : List Ty := [.int, .bool, .int]
    let others : List Ty := [.optional .bool, .native .double]
    (∀ t ∈ types, t.isBareUnion = false) ∧ (∀ t ∈ others, t.isBareUnion = false) ∧
      (∀ t ∈ types, ∃ o ∈ others, converts {} { conversionDepth := 1 } t o = true) ∧
      converts {} { conversionDepth := 2 } (Ty.union types) (Ty.union others) = false ∧
      converts {} { conversionDepth := 3 } (Ty.union types) (Ty.union others) = true := by
  intro types others
  have htypes : ∀ t ∈ types, t.isBareUnion = false := by decide
  have hothers : ∀ t ∈ others, t.isBareUnion = false := by decide
  have hfits : ∀ t ∈ types, ∃ o ∈ others, converts {} { conversionDepth := 1 } t o = true := by
    decide +kernel
  exact ⟨htypes, hothers, hfits, by decide +kernel,
    converts_union {} { conversionDepth := 1 } htypes hothers hfits⟩

end SemanticAnalysis
