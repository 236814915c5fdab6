import Mathlib.Data.List.FinRange
import SemanticAnalysis.Proofs.Overload.Binding
import SemanticAnalysis.Proofs.Overload.Reordering

/-!
# Overload resolution does not depend on the order of named arguments

A call whose arguments are all named has the same outcome with the arguments in another order, told with
their new numbers (`resolveCall_rearranged`).

1. `rearranged σ` puts the entries of a list at other places. What runs along the arguments is rearranged
   with them; what runs along the parameters stays and refers to arguments by their new numbers
   (`Resolution.rearranged`).
2. Each parameter is bound to the argument that names it, wherever that stands (`bindArguments_rearranged`),
   so each argument meets the same parameter and fits it as before (`fitArguments_rearranged`).
3. A candidate beats another one as before, since both score vectors move alike (`beats_rearranged`), and
   the leaders decide the call (`leaders_rearranged`).
-/

namespace SemanticAnalysis

/-! ## Rearranged lists -/

section Rearranged

variable {α β : Type} {n : Nat} (σ : Equiv.Perm (Fin n))

/-- A list of length `n` in another order: at place `i` stands what was at place `σ i`. -/
def rearranged (l : List α) : List α := (List.finRange n).filterMap fun i => l[(σ i).val]?

theorem rearranged_eq_ofFn {l : List α} (h : l.length = n) :
    rearranged σ l = List.ofFn fun i => l.get ((σ i).cast h.symm) := by
  rw [List.ofFn_eq_map, ← List.filterMap_eq_map]
  refine List.filterMap_congr fun i _ => ?_
  exact List.getElem?_eq_getElem _

theorem getElem?_rearranged {l : List α} (h : l.length = n) (i : Nat) :
    (rearranged σ l)[i]? = l[numberAt σ i]? := by
  rw [rearranged_eq_ofFn σ h, List.getElem?_ofFn]
  unfold numberAt
  split
  · exact (List.getElem?_eq_getElem _).symm
  · rename_i hi
    exact (List.getElem?_eq_none (by omega)).symm

theorem length_rearranged {l : List α} (h : l.length = n) : (rearranged σ l).length = n := by
  rw [rearranged_eq_ofFn σ h, List.length_ofFn]

theorem rearranged_map (f : α → β) (l : List α) :
    rearranged σ (l.map f) = (rearranged σ l).map f := by
  unfold rearranged
  rw [List.map_filterMap]
  refine List.filterMap_congr fun i _ => ?_
  exact List.getElem?_map

theorem rearranged_perm {l : List α} (h : l.length = n) : (rearranged σ l).Perm l := by
  subst h
  rw [rearranged_eq_ofFn σ rfl]
  have hperm := σ.ofFn_comp_perm l.get
  rw [List.ofFn_get] at hperm
  exact hperm

/-- A list with the entries of another one at the places they go to is that one rearranged. -/
theorem eq_rearranged {l l' : List α} (h : l.length = n) (h' : ∀ i : Nat, l'[i]? = l[numberAt σ i]?) :
    l' = rearranged σ l :=
  List.ext_getElem? fun i => (h' i).trans (getElem?_rearranged σ h i).symm

theorem numberAt_surjective : Function.Surjective (numberAt σ) :=
  Function.RightInverse.surjective (numberAt_placeOf σ)

theorem rearranged_inj {l l' : List α} (h : l.length = n) (h' : l'.length = n) :
    rearranged σ l = rearranged σ l' ↔ l = l' := by
  refine ⟨fun heq => List.ext_getElem? fun i => ?_, fun heq => heq ▸ rfl⟩
  obtain ⟨k, rfl⟩ := numberAt_surjective σ i
  rw [← getElem?_rearranged σ h, ← getElem?_rearranged σ h', heq]

/-- The places themselves. -/
theorem rearranged_range : rearranged σ (List.range n) = (List.range n).map (numberAt σ) := by
  refine (eq_rearranged σ (List.length_range) fun i => ?_).symm
  rw [List.getElem?_map]
  unfold numberAt
  split
  · rename_i hi
    rw [List.getElem?_range hi, List.getElem?_range (σ _).isLt, Option.map_some, dif_pos hi]
  · rename_i hi
    rw [List.getElem?_eq_none (by simpa using hi), Option.map_none]

end Rearranged

/-! ## Bindings -/

/-- The same arguments under new numbers. -/
def Binding.renumbered (place : Nat → Nat) : Binding → Binding
  | .single a => .single (place a)
  | .variadic as => .variadic (as.map place)

theorem Binding.arguments_renumbered (place : Nat → Nat) (b : Binding) :
    (b.renumbered place).arguments = b.arguments.map place := by
  cases b <;> rfl

section Bindings

variable {n : Nat} (σ : Equiv.Perm (Fin n))

theorem placeOf_eq_iff {i j : Nat} : placeOf σ i = j ↔ i = numberAt σ j := by
  constructor
  · rintro rfl
    exact (numberAt_placeOf σ i).symm
  · rintro rfl
    exact placeOf_numberAt σ j

/-- The parameter of an argument at its new place. -/
theorem parameterOf_renumbered (bindings : List Binding) (i : Nat) :
    parameterOf (bindings.map (·.renumbered (placeOf σ))) i = parameterOf bindings (numberAt σ i) := by
  unfold parameterOf
  rw [List.findIdx?_map]
  congr 2
  funext b
  rw [Function.comp_apply, Binding.arguments_renumbered, Bool.eq_iff_iff, List.contains_iff_mem,
    List.contains_iff_mem, List.mem_map]
  simp only [placeOf_eq_iff, exists_eq_right]

end Bindings

section Named

variable {s : Signature Ty} {arguments : List CallArgument} {bindings : List Binding}

theorem positions_of_named (hnamed : ∀ a ∈ arguments, a.name ≠ none) : positions arguments 0 = [] := by
  refine List.eq_nil_iff_forall_not_mem.2 fun j hj => ?_
  obtain ⟨-, a, ha, hname⟩ := mem_positions.1 hj
  exact hnamed a (List.mem_of_getElem? ha) hname

/-- Named arguments alone: every fixed parameter has the argument that names it, and nothing is left for a
variadic one. -/
theorem bindArguments_of_named (hnamed : ∀ a ∈ arguments, a.name ≠ none)
    (h : bindArguments s arguments = some bindings) :
    ∃ singles : List Nat, bindings = bindingsOf s singles [] ∧
      ∀ p i : Nat, singles[p]? = some i ↔ ∃ a, arguments[i]? = some a ∧ a.names s p := by
  obtain ⟨slots, singles, surplus, hslots, hfill, -, hbindings⟩ := bindArguments_eq_some h
  rw [positions_of_named hnamed, fillSlots_nil] at hfill
  obtain ⟨rfl, rfl⟩ := Prod.mk.inj hfill
  refine ⟨singles, hbindings, fun p i => ?_⟩
  rw [← slot_eq_some_iff hslots, List.getElem?_map]
  simp

variable (σ : Equiv.Perm (Fin arguments.length))

theorem mem_rearranged {a : CallArgument} : a ∈ rearranged σ arguments ↔ a ∈ arguments :=
  (rearranged_perm σ rfl).mem_iff

theorem bindable_rearranged_iff : Bindable s (rearranged σ arguments) ↔ Bindable s arguments := by
  have hperm := rearranged_perm σ (l := arguments) rfl
  have hsymm : ∀ {a b : CallArgument}, (∀ p, a.names s p → ¬ b.names s p) →
      ∀ p, b.names s p → ¬ a.names s p := fun h p hb ha => h p ha hb
  have hpairs := hperm.pairwise_iff (R := fun a b => ∀ p, a.names s p → ¬ b.names s p) hsymm
  constructor
  · rintro ⟨hknown, hdistinct, hcount⟩
    refine ⟨fun a ha => hknown a ((mem_rearranged σ).2 ha), hpairs.1 hdistinct, ?_⟩
    rwa [length_rearranged σ rfl] at hcount
  · rintro ⟨hknown, hdistinct, hcount⟩
    refine ⟨fun a ha => hknown a ((mem_rearranged σ).1 ha), hpairs.2 hdistinct, ?_⟩
    rwa [length_rearranged σ rfl]

/-- **Binding.** Each parameter gets the argument that it got before, under its new number. -/
theorem bindArguments_rearranged (hnamed : ∀ a ∈ arguments, a.name ≠ none) :
    bindArguments s (rearranged σ arguments) =
      (bindArguments s arguments).map (·.map (·.renumbered (placeOf σ))) := by
  have hiff : (bindArguments s (rearranged σ arguments)).isSome = true ↔
      (bindArguments s arguments).isSome = true := by
    rw [bindArguments_isSome_iff, bindArguments_isSome_iff, bindable_rearranged_iff]
  have hnamed' : ∀ a ∈ rearranged σ arguments, a.name ≠ none :=
    fun a ha => hnamed a ((mem_rearranged σ).1 ha)
  cases hbefore : bindArguments s arguments with
  | none =>
    rw [hbefore] at hiff
    rw [Option.map_none, Option.eq_none_iff_forall_ne_some]
    intro after hafter
    rw [hafter] at hiff
    exact absurd (hiff.1 rfl) Bool.false_ne_true
  | some before =>
    rw [hbefore] at hiff
    obtain ⟨after, hafter⟩ := Option.isSome_iff_exists.1 (hiff.2 rfl)
    obtain ⟨singles, rfl, hsingles⟩ := bindArguments_of_named hnamed hbefore
    obtain ⟨singles', rfl, hsingles'⟩ := bindArguments_of_named hnamed' hafter
    have heq : singles' = singles.map (placeOf σ) := by
      refine List.ext_getElem? fun p => Option.ext fun j => ?_
      rw [hsingles' p j, getElem?_rearranged σ rfl, ← hsingles p, List.getElem?_map,
        Option.map_eq_some_iff]
      simp only [placeOf_eq_iff, exists_eq_right]
    rw [hafter, heq, Option.map_some, bindingsOf, bindingsOf, List.map_append, List.map_map,
      List.map_map]
    congr 2
    split <;> rfl

end Named

/-! ## Fits -/

section Fits

variable {α : Type} {n : Nat} (σ : Equiv.Perm (Fin n))

theorem mapM_id_map_some (l : List α) : (l.map some).mapM id = some l := by
  induction l with
  | nil => rfl
  | cons a rest ih => simp [List.mapM_cons, ih]

/-- All entries are there in one order iff they are in another. -/
theorem mapM_id_rearranged {l : List (Option α)} (h : l.length = n) :
    (rearranged σ l).mapM id = (l.mapM id).map (rearranged σ) := by
  cases hl : l.mapM id with
  | none =>
    have hsome := mapM_isSome id (rearranged σ l)
    simp only [(rearranged_perm σ h).mem_iff] at hsome
    rw [← mapM_isSome id l, hl] at hsome
    rw [Option.map_none]
    exact Option.not_isSome_iff_eq_none.1 fun hsome' => Bool.false_ne_true (hsome.1 hsome')
  | some as =>
    have hmap := map_of_mapM hl
    rw [List.map_id] at hmap
    rw [hmap, rearranged_map, mapM_id_map_some, Option.map_some]

end Fits

/-- A resolution of the call with the arguments in another order. -/
def Resolution.rearranged {n : Nat} (σ : Equiv.Perm (Fin n)) (r : Resolution) : Resolution :=
  { r with
    argumentMap := SemanticAnalysis.rearranged σ r.argumentMap
    bindings := r.bindings.map (·.renumbered (placeOf σ))
    scores := SemanticAnalysis.rearranged σ r.scores
    narrowed := SemanticAnalysis.rearranged σ r.narrowed
    casts := SemanticAnalysis.rearranged σ r.casts }

theorem Resolution.scores_rearranged {n : Nat} (σ : Equiv.Perm (Fin n)) (r : Resolution) :
    (r.rearranged σ).scores = SemanticAnalysis.rearranged σ r.scores := rfl

section Match

variable {arguments : List CallArgument} (σ : Equiv.Perm (Fin arguments.length))

/-- How the arguments fit, each by its place. -/
theorem fitArguments_eq_mapM (convert : Ty → Ty → Conversion) (s : Signature Ty)
    (bindings : List Binding) (arguments : List CallArgument) :
    fitArguments convert s bindings arguments =
      (arguments.zipIdx.map fun (argument, index) =>
        (s.params[parameterOf bindings index]?).bind fun p =>
          bestOption convert p.ty argument.options).mapM id := by
  unfold fitArguments
  rw [List.mapM_map]
  rfl

theorem fitArguments_rearranged (convert : Ty → Ty → Conversion) (s : Signature Ty)
    (bindings : List Binding) :
    fitArguments convert s (bindings.map (·.renumbered (placeOf σ))) (rearranged σ arguments) =
      (fitArguments convert s bindings arguments).map (rearranged σ) := by
  rw [fitArguments_eq_mapM, fitArguments_eq_mapM, ← mapM_id_rearranged σ (by simp)]
  congr 1
  refine eq_rearranged σ (by simp) fun i => ?_
  simp only [List.getElem?_map, List.getElem?_zipIdx, getElem?_rearranged σ (rfl : arguments.length = _),
    parameterOf_renumbered, Nat.zero_add, Option.map_map]
  rfl

theorem matchCandidate_rearranged (hnamed : ∀ a ∈ arguments, a.name ≠ none)
    (convert : Ty → Ty → Conversion) (c : Candidate) (i : Nat) :
    matchCandidate convert (rearranged σ arguments) c i =
      (matchCandidate convert arguments c i).map (·.rearranged σ) := by
  unfold matchCandidate
  rw [bindArguments_rearranged σ hnamed]
  cases bindArguments c.signature arguments with
  | none => rfl
  | some bindings =>
    rw [Option.map_some, Option.bind_some, Option.bind_some, fitArguments_rearranged, Option.map_map,
      Option.map_map]
    congr 1
    funext fits
    have hmap : (List.range (rearranged σ arguments).length).map
          (parameterOf (bindings.map (·.renumbered (placeOf σ)))) =
        rearranged σ ((List.range arguments.length).map (parameterOf bindings)) := by
      rw [length_rearranged σ rfl, rearranged_map, rearranged_range, List.map_map]
      exact List.map_congr_left fun k _ => parameterOf_renumbered σ bindings k
    simp only [Function.comp_apply, hmap, Resolution.rearranged, rearranged_map]

end Match

/-! ## Ranking -/

section Ranking

variable {table : SymbolTable} {options : Options} {arguments : List CallArgument}
  {candidates : List Candidate} {r other : Resolution} (σ : Equiv.Perm (Fin arguments.length))

theorem viable_rearranged (hnamed : ∀ a ∈ arguments, a.name ≠ none) :
    viable table options (rearranged σ arguments) candidates =
      (viable table options arguments candidates).map (·.rearranged σ) := by
  unfold viable
  rw [List.map_filterMap]
  exact List.filterMap_congr fun c _ => matchCandidate_rearranged σ hnamed _ c.1 c.2

theorem IsViable.length_scores (h : IsViable table options arguments candidates r) :
    r.scores.length = arguments.length := by
  obtain ⟨c, -, hmatch⟩ := h
  exact length_scores_of_matchCandidate hmatch

theorem variadic_standingOf_rearranged (r : Resolution) :
    (standingOf candidates (r.rearranged σ)).variadic = (standingOf candidates r).variadic := rfl

/-- Scores that move along compare as before. -/
theorem beats_rearranged (hr : IsViable table options arguments candidates r)
    (ho : IsViable table options arguments candidates other) :
    Beats candidates (r.rearranged σ) (other.rearranged σ) ↔ Beats candidates r other := by
  have hsame := rearranged_inj σ hr.length_scores ho.length_scores
  have hplaces := numberAt_surjective σ
  unfold Beats
  simp only [Resolution.scores_rearranged, getElem?_rearranged σ hr.length_scores,
    getElem?_rearranged σ ho.length_scores, hsame, variadic_standingOf_rearranged]
  refine and_congr ?_ (or_congr_left ?_)
  · exact (hplaces.forall (p := fun k => ∀ x y : Nat, r.scores[k]? = some x →
      other.scores[k]? = some y → y ≤ x)).symm
  · exact (hplaces.exists (p := fun k => ∃ x y : Nat, r.scores[k]? = some x ∧
      other.scores[k]? = some y ∧ y < x)).symm

theorem leaders_rearranged (hnamed : ∀ a ∈ arguments, a.name ≠ none) :
    leaders table options (rearranged σ arguments) candidates =
      (leaders table options arguments candidates).map (·.rearranged σ) := by
  have hviable : ∀ r ∈ viable table options arguments candidates,
      IsViable table options (rearranged σ arguments) candidates (r.rearranged σ) := by
    intro r hr
    rw [← mem_viable, viable_rearranged σ hnamed]
    exact List.mem_map_of_mem hr
  unfold leaders
  rw [viable_rearranged σ hnamed, List.filter_map, List.map_map]
  congr 1
  refine List.filter_congr fun r hr => ?_
  rw [Function.comp_apply, Bool.eq_iff_iff, Standing.isTop_iff, Standing.isTop_iff, List.forall_mem_map,
    List.forall_mem_map]
  refine forall₂_congr fun other ho => ?_
  rw [Function.comp_apply, ← Bool.not_eq_true, ← Bool.not_eq_true,
    dominates_iff_beats (hviable other ho) (hviable r hr),
    beats_rearranged σ (mem_viable.1 ho) (mem_viable.1 hr),
    dominates_iff_beats (mem_viable.1 ho) (mem_viable.1 hr)]

end Ranking

/-- What a parameter takes is what it took before. -/
theorem argumentsOf_rearranged {arguments : List CallArgument}
    (σ : Equiv.Perm (Fin arguments.length)) (r : Resolution) (p : Nat) :
    ((r.rearranged σ).argumentsOf p).map ((rearranged σ arguments)[·]?) =
      (r.argumentsOf p).map (arguments[·]?) := by
  have hnumbers : (r.rearranged σ).argumentsOf p = (r.argumentsOf p).map (placeOf σ) := by
    unfold Resolution.argumentsOf Resolution.rearranged
    rw [List.getElem?_map]
    cases r.bindings[p]? with
    | none => rfl
    | some b => exact b.arguments_renumbered (placeOf σ)
  rw [hnumbers, List.map_map]
  refine List.map_congr_left fun k _ => ?_
  rw [Function.comp_apply, getElem?_rearranged σ rfl, numberAt_placeOf]

/-- **Order of named arguments.** If all arguments of a call are named, the outcome with the arguments in
another order is the outcome as it was, or the same failure: the same candidate is chosen, each parameter
takes the same argument, and scores, narrowed options and casts go along with the arguments. -/
theorem resolveCall_rearranged (table : SymbolTable) (options : Options) {arguments : List CallArgument}
    (hnamed : ∀ a ∈ arguments, a.name ≠ none) (candidates : List Candidate)
    (σ : Equiv.Perm (Fin arguments.length)) :
    resolveCall table options (rearranged σ arguments) candidates =
        (resolveCall table options arguments candidates).map (·.rearranged σ) ∧
      ∀ r, resolveCall table options arguments candidates = .ok r → ∀ p,
        ((r.rearranged σ).argumentsOf p).map ((rearranged σ arguments)[·]?) =
          (r.argumentsOf p).map (arguments[·]?) := by
  refine ⟨?_, fun r _ p => argumentsOf_rearranged σ r p⟩
  rw [resolveCall_eq, resolveCall_eq, leaders_rearranged σ hnamed]
  match leaders table options arguments candidates, options.ambiguity with
  | [], _ => rfl
  | [_], _ => rfl
  | _ :: _ :: _, .firstDeclared => rfl
  | _ :: _ :: _, .reject =>
    simp only [List.map_cons, List.map_map]
    rfl

/-- An integer, a double and an overloaded name, which is an integer or a boolean. -/
def namedArguments : List CallArgument :=
  [{ name := some "x", options := [{ ty := .int }] },
    { name := some "y", options := [{ ty := .native .double }] },
    { name := some "z", options := [{ ty := .int, item := some ⟨4⟩ }, { ty := .bool, item := some ⟨5⟩ }] }]

/-- Three functions that take them. The second one packs nothing and takes the double exactly. -/
def namedCandidates : List Candidate :=
  [⟨none, ⟨[{ name := "z", ty := .bool }, { name := "y", ty := .native .double },
      { name := "x", ty := .native .float }, { name := "rest", ty := .int, variadic := true }], .void⟩⟩,
    ⟨none, ⟨[{ name := "y", ty := .native .double }, { name := "z", ty := .bool },
      { name := "x", ty := .native .float }], .void⟩⟩,
    ⟨none, ⟨[{ name := "x", ty := .any }, { name := "y", ty := .any }, { name := "z", ty := .any }], .void⟩⟩]

theorem resolveCall_rearranged_rotated :
    (∀ a ∈ namedArguments, a.name ≠ none) ∧
      resolveCall {} {} namedArguments namedCandidates =
        .ok ⟨1, none, [2, 0, 1], [.single 1, .single 2, .single 0], [40, 64, 64],
          [none, none, some ⟨5⟩], [none, none, none]⟩ ∧
      resolveCall {} {} (rearranged (finRotate 3) namedArguments) namedCandidates =
        .ok ⟨1, none, [0, 1, 2], [.single 0, .single 1, .single 2], [64, 64, 40],
          [none, some ⟨5⟩, none], [none, none, none]⟩ := by
  have hnamed : ∀ a ∈ namedArguments, a.name ≠ none := by decide
  have hbefore : resolveCall {} {} namedArguments namedCandidates =
      .ok ⟨1, none, [2, 0, 1], [.single 1, .single 2, .single 0], [40, 64, 64],
        [none, none, some ⟨5⟩], [none, none, none]⟩ := by decide +kernel
  refine ⟨hnamed, hbefore, (resolveCall_rearranged {} {} hnamed namedCandidates (finRotate 3)).1.trans ?_⟩
  rw [hbefore]
  decide +kernel

end SemanticAnalysis
