import Mathlib.Data.List.Nodup
import Mathlib.Logic.Equiv.Fin.Rotate
import SemanticAnalysis.Proofs.Overload.Resolution

/-!
# Overload resolution does not depend on the order of the candidates

With ambiguity rejected, a call on reordered candidates has the same outcome, told with the new numbers
of the candidates (`resolveCall_reordered`).

1. A candidate is viable at its new place as it was at its old one (`isViable_renumbered`).
2. Scores and arities move along, so the same candidates beat each other (`beats_renumbered`).
3. Hence the new leaders are the old ones renumbered (`leaders_perm`), and the leaders alone decide.
-/

namespace SemanticAnalysis

/-! ## Numbers after reordering -/

section Places

variable {n : Nat} (σ : Equiv.Perm (Fin n))

/-- The new number of a candidate. Numbers beyond the list stay as they are. -/
def placeOf (number : Nat) : Nat :=
  if h : number < n then (σ.symm ⟨number, h⟩).val else number

/-- The number that has come to a place. -/
def numberAt (place : Nat) : Nat :=
  if h : place < n then (σ ⟨place, h⟩).val else place

theorem placeOf_numberAt (place : Nat) : placeOf σ (numberAt σ place) = place := by
  unfold placeOf numberAt
  split <;> simp_all

theorem numberAt_placeOf (number : Nat) : numberAt σ (placeOf σ number) = number := by
  unfold placeOf numberAt
  split <;> simp_all

theorem placeOf_injective : Function.Injective (placeOf σ) :=
  Function.LeftInverse.injective (numberAt_placeOf σ)

/-- The candidates in another order: place `i` goes to the candidate with number `σ i`. -/
def reordered (candidates : List Candidate) (σ : Equiv.Perm (Fin candidates.length)) :
    List Candidate := List.ofFn fun i => candidates.get (σ i)

/-- A candidate is found at its new place. -/
theorem getElem?_reordered {candidates : List Candidate} (σ : Equiv.Perm (Fin candidates.length))
    (number : Nat) : (reordered candidates σ)[placeOf σ number]? = candidates[number]? := by
  unfold reordered placeOf
  by_cases h : number < candidates.length
  · simp [h]
  · simp [h]

end Places

/-! ## Outcomes after reordering -/

/-- A way to take a call, with the number of the candidate replaced. -/
def Resolution.renumbered (place : Nat → Nat) (r : Resolution) : Resolution :=
  { r with candidate := place r.candidate }

/-- The second outcome is the first one with new numbers of the candidates. Each outcome lists tied
candidates in its own order. -/
inductive Renumbers (place : Nat → Nat) :
    Except CallFailure Resolution → Except CallFailure Resolution → Prop where
  | noMatch : Renumbers place (.error .noMatch) (.error .noMatch)
  | chosen (r : Resolution) : Renumbers place (.ok r) (.ok (r.renumbered place))
  | tied {numbers places : List Nat} (h : places.Perm (numbers.map place)) :
      Renumbers place (.error (.ambiguous numbers)) (.error (.ambiguous places))

theorem Resolution.renumbered_injective {place : Nat → Nat} (h : Function.Injective place) :
    Function.Injective (Resolution.renumbered place) := by
  rintro ⟨⟩ ⟨⟩ heq
  simp only [Resolution.renumbered, Resolution.mk.injEq] at heq
  simpa only [Resolution.mk.injEq] using heq.imp_left (h ·)

section Reordering

variable {table : SymbolTable} {options : Options} {arguments : List CallArgument}
  {candidates : List Candidate} {r other : Resolution}

/-- The number of a candidate plays no part in how it takes a call. -/
theorem matchCandidate_renumbered {c : Candidate} {i : Nat} (place : Nat → Nat)
    (h : matchCandidate (convert table options) arguments c i = some r) :
    matchCandidate (convert table options) arguments c (place i) = some (r.renumbered place) := by
  unfold matchCandidate at h ⊢
  obtain ⟨bindings, hbindings, h⟩ := Option.bind_eq_some_iff.1 h
  obtain ⟨fits, hfits, rfl⟩ := Option.map_eq_some_iff.1 h
  rw [hbindings, Option.bind_some, hfits]
  rfl

variable (σ : Equiv.Perm (Fin candidates.length))

theorem isViable_renumbered (h : IsViable table options arguments candidates r) :
    IsViable table options arguments (reordered candidates σ) (r.renumbered (placeOf σ)) := by
  obtain ⟨c, hc, hmatch⟩ := h
  exact ⟨c, (getElem?_reordered σ _).trans hc, matchCandidate_renumbered (placeOf σ) hmatch⟩

/-- What is viable after reordering was viable before. -/
theorem exists_of_isViable_reordered
    (h : IsViable table options arguments (reordered candidates σ) r) :
    ∃ r', IsViable table options arguments candidates r' ∧ r'.renumbered (placeOf σ) = r := by
  obtain ⟨c, hc, hmatch⟩ := h
  have hplace : placeOf σ (numberAt σ r.candidate) = r.candidate := placeOf_numberAt σ _
  refine ⟨r.renumbered (numberAt σ), ⟨c, ?_, matchCandidate_renumbered (numberAt σ) hmatch⟩, ?_⟩
  · rw [← hplace, getElem?_reordered] at hc
    exact hc
  · simp only [Resolution.renumbered, hplace]

@[simp] theorem standingOf_renumbered :
    standingOf (reordered candidates σ) (r.renumbered (placeOf σ)) = standingOf candidates r := by
  unfold standingOf Resolution.renumbered
  rw [getElem?_reordered]

theorem beats_renumbered :
    Beats (reordered candidates σ) (r.renumbered (placeOf σ)) (other.renumbered (placeOf σ)) ↔
      Beats candidates r other := by
  unfold Beats
  rw [standingOf_renumbered, standingOf_renumbered]
  rfl

theorem unbeaten_reordered_iff :
    Unbeaten table options arguments (reordered candidates σ) r ↔
      ∃ r', Unbeaten table options arguments candidates r' ∧ r'.renumbered (placeOf σ) = r := by
  constructor
  · rintro ⟨hviable, hun⟩
    obtain ⟨r', hviable', rfl⟩ := exists_of_isViable_reordered σ hviable
    refine ⟨r', ⟨hviable', fun other hother hbeats => ?_⟩, rfl⟩
    exact hun _ (isViable_renumbered σ hother) ((beats_renumbered σ).2 hbeats)
  · rintro ⟨r', ⟨hviable, hun⟩, rfl⟩
    refine ⟨isViable_renumbered σ hviable, fun other hother hbeats => ?_⟩
    obtain ⟨other', hother', rfl⟩ := exists_of_isViable_reordered σ hother
    exact hun other' hother' ((beats_renumbered σ).1 hbeats)

theorem nodup_leaders (table : SymbolTable) (options : Options) (arguments : List CallArgument)
    (candidates : List Candidate) : (leaders table options arguments candidates).Nodup := by
  refine (pairwise_leaders table options arguments candidates).imp fun {a b} hlt heq => ?_
  rw [heq] at hlt
  exact Nat.lt_irrefl _ hlt

variable (table options arguments) in
/-- **The leaders** of reordered candidates are the same ones. -/
theorem leaders_perm :
    (leaders table options arguments (reordered candidates σ)).Perm
      ((leaders table options arguments candidates).map (·.renumbered (placeOf σ))) := by
  have hinjective := Resolution.renumbered_injective (placeOf_injective σ)
  refine (List.perm_ext_iff_of_nodup (nodup_leaders ..)
    ((nodup_leaders ..).map hinjective)).2 fun r => ?_
  rw [mem_leaders, unbeaten_reordered_iff, List.mem_map]
  simp only [mem_leaders]

end Reordering

/-- **Order of declaration.** With ambiguity rejected, the outcome of a call on reordered candidates is
the image of the outcome on the candidates as they were: the same candidate is chosen and takes the
arguments in the same way, or the same candidates are tied, or there is no match in either order. -/
theorem resolveCall_reordered {options : Options} (hpolicy : options.ambiguity = .reject)
    (table : SymbolTable) (arguments : List CallArgument) (candidates : List Candidate)
    (σ : Equiv.Perm (Fin candidates.length)) :
    Renumbers (placeOf σ) (resolveCall table options arguments candidates)
      (resolveCall table options arguments (reordered candidates σ)) := by
  have hperm := leaders_perm table options arguments σ
  rw [resolveCall_eq, resolveCall_eq, hpolicy]
  generalize leaders table options arguments candidates = before at hperm ⊢
  generalize leaders table options arguments (reordered candidates σ) = after at hperm ⊢
  match before, after with
  | [], after =>
    obtain rfl : after = [] := by simpa using hperm
    exact .noMatch
  | [winner], after =>
    obtain rfl : after = [winner.renumbered (placeOf σ)] := by simpa using hperm
    exact .chosen winner
  | first :: second :: rest, [] => simp at hperm
  | first :: second :: rest, [_] => simp at hperm
  | first :: second :: rest, first' :: second' :: rest' =>
    have hnumbers := hperm.map (·.candidate)
    rw [List.map_map] at hnumbers
    refine .tied ?_
    rwa [List.map_map]

/-- Three functions of one parameter. The first and the last take an integer exactly, but the first one
packs it. -/
def integerCandidates : List Candidate :=
  [⟨none, ⟨[{ name := "x", ty := .int, variadic := true }], .void⟩⟩,
    ⟨none, ⟨[{ name := "x", ty := .any }], .void⟩⟩, ⟨none, ⟨[{ name := "x", ty := .int }], .void⟩⟩]

theorem resolveCall_reordered_rotated :
    ({} : Options).ambiguity = .reject ∧
      resolveCall {} {} [.typed .int] integerCandidates =
        .ok ⟨2, none, [0], [.single 0], [64], [none], [none]⟩ ∧
      Renumbers (placeOf (finRotate 3)) (resolveCall {} {} [.typed .int] integerCandidates)
        (resolveCall {} {} [.typed .int] (reordered integerCandidates (finRotate 3))) :=
  ⟨rfl, by decide +kernel,
    resolveCall_reordered rfl {} [.typed .int] integerCandidates (finRotate 3)⟩

end SemanticAnalysis
