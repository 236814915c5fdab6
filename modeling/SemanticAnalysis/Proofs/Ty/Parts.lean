import SemanticAnalysis.Ty.Basic

/-!
# Types inside types

`Kind.parts` lists the types that a kind is made of, and `Ty.Within` says that a type occurs in another one
at some depth. What holds of a type whenever it holds of its parts holds of every type (`Ty.induction`).
-/

namespace SemanticAnalysis

/-- The types that a kind is made of. -/
def Kind.parts {τ : Type} : Kind τ → List τ
  | .any | .native _ | .cls _ => []
  | .function s => s.result :: s.params.map (·.ty)
  | .union members => members
  | .optional inner => [inner]

namespace Ty

theorem sizeOf_lt_of_mem_parts {k : Kind Ty} {u : Ty} (h : u ∈ k.parts) : sizeOf u < sizeOf k := by
  cases k with
  | any | native | cls => cases h
  | function s =>
    obtain ⟨params, result⟩ := s
    rcases List.mem_cons.1 h with rfl | h
    · simp only [Kind.function.sizeOf_spec, Signature.mk.sizeOf_spec]
      omega
    · obtain ⟨p, hp, rfl⟩ := List.mem_map.1 h
      have hlist := List.sizeOf_lt_of_mem hp
      cases p
      simp only [Kind.function.sizeOf_spec, Signature.mk.sizeOf_spec, Parameter.mk.sizeOf_spec] at hlist ⊢
      omega
  | union members =>
    have hlist : sizeOf u < sizeOf members := List.sizeOf_lt_of_mem h
    simp only [Kind.union.sizeOf_spec]
    omega
  | optional inner =>
    rw [List.mem_singleton.1 h, Kind.optional.sizeOf_spec]
    omega

/-- What a type has because its parts have it, every type has. -/
theorem induction {motive : Ty → Prop}
    (step : ∀ t, (∀ u ∈ t.kind.parts, motive u) → motive t) (t : Ty) : motive t :=
  step t fun u _ => induction step u
termination_by sizeOf t
decreasing_by
  rename_i h
  have hlt := sizeOf_lt_of_mem_parts h
  cases t
  simp only [mk.sizeOf_spec] at hlt ⊢
  omega

/-- The first type is the second one or occurs in it. -/
inductive Within : Ty → Ty → Prop
  | self (t : Ty) : Within t t
  | part {u p t : Ty} (hp : p ∈ t.kind.parts) (h : Within u p) : Within u t

variable {t : Ty} {p : Ty → Prop}

/-- A property of all that occurs in a type is told part by part. -/
theorem forall_within_iff :
    (∀ u, u.Within t → p u) ↔ p t ∧ ∀ q ∈ t.kind.parts, ∀ u, u.Within q → p u := by
  constructor
  · intro h
    exact ⟨h t (.self t), fun q hq u hu => h u (.part hq hu)⟩
  · rintro ⟨hself, hparts⟩ u hu
    cases hu with
    | self => exact hself
    | part hq hu => exact hparts _ hq u hu

end Ty

end SemanticAnalysis
