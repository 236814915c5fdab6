import SemanticAnalysis.Proofs.Overload.Resolution

/-!
# Arguments find their parameters

`bindArguments_spec` says which calls can be bound (`Bindable`) and what goes to which parameter when one
is (`Binds`): named arguments to the parameters they name, positional ones to the other fixed parameters
in order, and what is left to a variadic parameter.

1. Named arguments are placed one by one. Each needs a free slot, so all can be placed iff no two ask for
   the same one (`bindNamed_isSome_iff`).
2. Positional arguments fill the free slots in order: all slots are filled iff there are enough of them
   (`fillSlots_full_iff`), and what is left are those beyond (`fillSlots_surplus`).
3. Neither step loses or repeats an argument (`filterMap_bindNamed`, `filterMap_fillSlots`). So counting
   the positional arguments against the free slots is counting all arguments against the parameters
   (`accepts_iff`), and each argument is bound once.
-/

namespace SemanticAnalysis

/-! ## Named arguments -/

section Named

variable {s : Signature Ty} {slots filled : List (Option Nat)} {arguments : List (CallArgument × Nat)}

/-- The argument names the parameter at an index. -/
def CallArgument.names (a : CallArgument) (s : Signature Ty) (p : Nat) : Prop :=
  a.name.bind s.indexOf? = some p

instance (a : CallArgument) (s : Signature Ty) (p : Nat) : Decidable (a.names s p) :=
  inferInstanceAs (Decidable (_ = _))

theorem CallArgument.names.name_ne_none {a : CallArgument} {p : Nat} (h : a.names s p) :
    a.name ≠ none := by
  intro hnone
  rw [CallArgument.names, hnone] at h
  cases h

theorem CallArgument.names.unique {a : CallArgument} {p q : Nat} (h : a.names s p)
    (h' : a.names s q) : p = q := Option.some.inj (h.symm.trans h')

theorem bindNamed_cons_of_name_eq_none {a : CallArgument} {i : Nat} (h : a.name = none) :
    bindNamed s slots ((a, i) :: arguments) = bindNamed s slots arguments := by
  simp only [bindNamed, h]

theorem bindNamed_cons_of_names {a : CallArgument} {i p : Nat} (h : a.names s p) :
    bindNamed s slots ((a, i) :: arguments) =
      if slots[p]? = some none then bindNamed s (slots.set p (some i)) arguments else none := by
  obtain ⟨name, hname, hp⟩ := Option.bind_eq_some_iff.1 h
  simp only [bindNamed, hname, hp]
  split
  · rename_i hfree
    rw [if_pos hfree]
  · rename_i hnot
    rw [if_neg hnot]

theorem bindNamed_cons_of_unknown {a : CallArgument} {i : Nat} (hname : a.name ≠ none)
    (h : ∀ p, ¬ a.names s p) : bindNamed s slots ((a, i) :: arguments) = none := by
  obtain ⟨name, hname⟩ := Option.ne_none_iff_exists'.1 hname
  have hp : s.indexOf? name = none := by
    simpa [CallArgument.names, hname, ← Option.eq_none_iff_forall_ne_some] using h
  simp only [bindNamed, hname, hp]

/-- One argument: it has no name, or it names a parameter whose slot is free and gets it. -/
theorem bindNamed_cons {a : CallArgument} {i : Nat}
    (h : bindNamed s slots ((a, i) :: arguments) = some filled) :
    a.name = none ∧ bindNamed s slots arguments = some filled ∨
      ∃ p, a.names s p ∧ slots[p]? = some none ∧
        bindNamed s (slots.set p (some i)) arguments = some filled := by
  by_cases hname : a.name = none
  · rw [bindNamed_cons_of_name_eq_none hname] at h
    exact .inl ⟨hname, h⟩
  by_cases hknown : ∃ p, a.names s p
  · obtain ⟨p, hnames⟩ := hknown
    rw [bindNamed_cons_of_names hnames] at h
    split at h
    · rename_i hfree
      exact .inr ⟨p, hnames, hfree, h⟩
    · cases h
  · rw [bindNamed_cons_of_unknown hname fun p hnames => hknown ⟨p, hnames⟩] at h
    cases h

theorem length_bindNamed (h : bindNamed s slots arguments = some filled) :
    filled.length = slots.length := by
  induction arguments generalizing slots with
  | nil =>
    cases h
    rfl
  | cons first rest ih =>
    rcases bindNamed_cons h with ⟨-, h⟩ | ⟨p, -, -, h⟩
    · exact ih h
    · exact (ih h).trans List.length_set

/-- What is in a slot stays there. -/
theorem bindNamed_kept (h : bindNamed s slots arguments = some filled) {p j : Nat}
    (hp : slots[p]? = some (some j)) : filled[p]? = some (some j) := by
  induction arguments generalizing slots with
  | nil =>
    cases h
    exact hp
  | cons first rest ih =>
    rcases bindNamed_cons h with ⟨-, h⟩ | ⟨q, -, hfree, h⟩
    · exact ih h hp
    · have hne : q ≠ p := by
        rintro rfl
        rw [hfree] at hp
        cases hp
      exact ih h (by rw [List.getElem?_set_ne hne, hp])

/-- What is in a slot was there, or is an argument that names the parameter. -/
theorem bindNamed_origin (h : bindNamed s slots arguments = some filled) {p j : Nat}
    (hp : filled[p]? = some (some j)) :
    slots[p]? = some (some j) ∨ ∃ a, (a, j) ∈ arguments ∧ a.names s p := by
  induction arguments generalizing slots with
  | nil =>
    cases h
    exact .inl hp
  | cons first rest ih =>
    rcases bindNamed_cons h with ⟨-, h⟩ | ⟨q, hnames, hfree, h⟩
    · exact (ih h).imp_right fun ⟨b, hb, hb'⟩ => ⟨b, List.mem_cons_of_mem _ hb, hb'⟩
    · rcases ih h with hold | ⟨b, hb, hb'⟩
      · by_cases hq : q = p
        · subst hq
          have hlt := (List.getElem?_eq_some_iff.1 hfree).1
          rw [List.getElem?_set_self hlt] at hold
          cases hold
          exact .inr ⟨_, List.mem_cons_self, hnames⟩
        · rw [List.getElem?_set_ne hq] at hold
          exact .inl hold
      · exact .inr ⟨b, List.mem_cons_of_mem _ hb, hb'⟩

/-- A named argument is in the slot of the parameter it names. -/
theorem bindNamed_placed (h : bindNamed s slots arguments = some filled) {a : CallArgument} {j : Nat}
    (hmem : (a, j) ∈ arguments) (hname : a.name ≠ none) :
    ∃ p, a.names s p ∧ filled[p]? = some (some j) := by
  induction arguments generalizing slots with
  | nil => cases hmem
  | cons first rest ih =>
    rcases List.mem_cons.1 hmem with rfl | hrest
    · rcases bindNamed_cons h with ⟨hnone, -⟩ | ⟨p, hnames, hfree, h⟩
      · exact absurd hnone hname
      · have hlt := (List.getElem?_eq_some_iff.1 hfree).1
        exact ⟨p, hnames, bindNamed_kept h (List.getElem?_set_self hlt)⟩
    · rcases bindNamed_cons h with ⟨-, h⟩ | ⟨p, -, -, h⟩ <;> exact ih h hrest

theorem getElem?_set_eq_free {p q i : Nat} :
    (slots.set p (some i))[q]? = some none ↔ q ≠ p ∧ slots[q]? = some none := by
  by_cases hq : q = p
  · subst hq
    rw [List.getElem?_set_self']
    cases slots[q]? <;> simp
  · rw [List.getElem?_set_ne (Ne.symm hq)]
    simp [hq]

/-- The named arguments get their slots iff each names a parameter whose slot is free, no two the
same. -/
theorem bindNamed_isSome_iff :
    (bindNamed s slots arguments).isSome = true ↔
      (∀ x ∈ arguments, x.1.name ≠ none → ∃ p, x.1.names s p ∧ slots[p]? = some none) ∧
        arguments.Pairwise fun x y => ∀ p, x.1.names s p → ¬ y.1.names s p := by
  induction arguments generalizing slots with
  | nil => simp [bindNamed]
  | cons first rest ih =>
    obtain ⟨a, i⟩ := first
    rw [List.forall_mem_cons, List.pairwise_cons]
    by_cases hname : a.name = none
    · have hnot : ∀ p, ¬ a.names s p := fun p h => h.name_ne_none hname
      rw [bindNamed_cons_of_name_eq_none hname, ih]
      simp [hname, hnot]
    by_cases hknown : ∃ p, a.names s p
    · obtain ⟨p, hnames⟩ := hknown
      rw [bindNamed_cons_of_names hnames]
      by_cases hfree : slots[p]? = some none
      · rw [if_pos hfree, ih]
        constructor
        · rintro ⟨hrest, hdistinct⟩
          refine ⟨⟨fun _ => ⟨p, hnames, hfree⟩, fun y hy hyname => ?_⟩, fun y hy q hq hyq => ?_, hdistinct⟩
          · obtain ⟨q, hq, hqfree⟩ := hrest y hy hyname
            exact ⟨q, hq, (getElem?_set_eq_free.1 hqfree).2⟩
          · -- the slot of the first argument is no longer free for another one
            obtain ⟨q', hq', hqfree⟩ := hrest y hy hyq.name_ne_none
            exact (getElem?_set_eq_free.1 hqfree).1 ((hq'.unique hyq).trans (hq.unique hnames))
        · rintro ⟨⟨-, hrest⟩, hhead, hdistinct⟩
          refine ⟨fun y hy hyname => ?_, hdistinct⟩
          obtain ⟨q, hq, hqfree⟩ := hrest y hy hyname
          have hne : q ≠ p := fun heq => hhead y hy p hnames (heq ▸ hq)
          exact ⟨q, hq, getElem?_set_eq_free.2 ⟨hne, hqfree⟩⟩
      · rw [if_neg hfree]
        refine iff_of_false Bool.false_ne_true fun h => ?_
        obtain ⟨q, hq, hqfree⟩ := h.1.1 hname
        exact absurd (hq.unique hnames ▸ hqfree) hfree
    · rw [bindNamed_cons_of_unknown hname fun p hnames => hknown ⟨p, hnames⟩]
      refine iff_of_false Bool.false_ne_true fun h => ?_
      obtain ⟨q, hq, -⟩ := h.1.1 hname
      exact absurd ⟨q, hq⟩ hknown

theorem filterMap_set {p i : Nat} (h : slots[p]? = some none) :
    ((slots.set p (some i)).filterMap id).Perm (i :: slots.filterMap id) := by
  induction slots generalizing p with
  | nil => cases h
  | cons slot rest ih =>
    cases p with
    | zero =>
      cases h
      exact .refl _
    | succ p =>
      have hrest := ih (p := p) h
      cases slot with
      | none => exact hrest
      | some j => exact (hrest.cons j).trans (.swap i j _)

/-- The slots hold the named arguments beside what they held before. -/
theorem filterMap_bindNamed (h : bindNamed s slots arguments = some filled) :
    (filled.filterMap id).Perm
      ((arguments.filter (·.1.name.isSome)).map (·.2) ++ slots.filterMap id) := by
  induction arguments generalizing slots with
  | nil =>
    cases h
    exact .refl _
  | cons first rest ih =>
    obtain ⟨a, i⟩ := first
    rcases bindNamed_cons h with ⟨hname, h⟩ | ⟨p, hnames, hfree, h⟩
    · rw [List.filter_cons_of_neg (by simp [hname])]
      exact ih h
    · have hsome : a.name.isSome = true := Option.isSome_iff_ne_none.2 hnames.name_ne_none
      rw [List.filter_cons_of_pos (by exact hsome)]
      exact ((ih h).trans ((filterMap_set hfree).append_left _)).trans List.perm_middle

end Named

/-! ## Positional arguments -/

/-- The places of positional arguments, counted from `o`. -/
def positions (arguments : List CallArgument) (o : Nat) : List Nat :=
  ((arguments.zipIdx o).filter (·.1.name.isNone)).map (·.2)

theorem positions_cons (a : CallArgument) (arguments : List CallArgument) (o : Nat) :
    positions (a :: arguments) o =
      if a.name = none then o :: positions arguments (o + 1) else positions arguments (o + 1) := by
  unfold positions
  rw [List.zipIdx_cons, List.filter_cons]
  cases a.name <;> simp

theorem mem_positions {arguments : List CallArgument} {o j : Nat} :
    j ∈ positions arguments o ↔ o ≤ j ∧ ∃ a, arguments[j - o]? = some a ∧ a.name = none := by
  unfold positions
  constructor
  · intro hj
    obtain ⟨⟨a, i⟩, hmem, rfl⟩ := List.mem_map.1 hj
    obtain ⟨hzip, hname⟩ := List.mem_filter.1 hmem
    obtain ⟨hle, ha⟩ := List.mk_mem_zipIdx_iff_le_and_getElem?_sub.1 hzip
    exact ⟨hle, a, ha, by simpa using hname⟩
  · rintro ⟨hle, a, ha, hname⟩
    refine List.mem_map.2 ⟨(a, j), List.mem_filter.2 ⟨?_, by simp [hname]⟩, rfl⟩
    exact List.mk_mem_zipIdx_iff_le_and_getElem?_sub.2 ⟨hle, ha⟩

theorem fillSlots_nil (slots : List (Option Nat)) : fillSlots slots [] = (slots, []) := by
  induction slots with
  | nil => rfl
  | cons slot rest ih =>
    cases slot with
    | none => rfl
    | some j =>
      unfold fillSlots
      rw [ih]

theorem length_fillSlots (slots : List (Option Nat)) (rest : List Nat) :
    (fillSlots slots rest).1.length = slots.length := by
  fun_induction fillSlots slots rest <;> simp_all

/-- The free slots, in order. -/
def freeSlots (slots : List (Option Nat)) : List Nat :=
  (List.range slots.length).filter fun p => slots[p]? == some none

theorem freeSlots_cons (slot : Option Nat) (slots : List (Option Nat)) :
    freeSlots (slot :: slots) =
      if slot = none then 0 :: (freeSlots slots).map (· + 1) else (freeSlots slots).map (· + 1) := by
  unfold freeSlots
  rw [List.length_cons, List.range_succ_eq_map, List.filter_cons, List.filter_map]
  cases slot <;> simp [Function.comp_def]

theorem length_freeSlots (slots : List (Option Nat)) :
    (slots.filterMap id).length + (freeSlots slots).length = slots.length := by
  induction slots with
  | nil => rfl
  | cons slot rest ih =>
    rw [freeSlots_cons]
    cases slot with
    | none =>
      rw [if_pos rfl, List.filterMap_cons_none rfl, List.length_cons, List.length_map, List.length_cons]
      omega
    | some j =>
      rw [if_neg (by simp), List.filterMap_cons_some (show id (some j) = some j from rfl),
        List.length_cons, List.length_map, List.length_cons]
      omega

section Fill

variable (slots : List (Option Nat)) (rest : List Nat)

theorem fillSlots_surplus : (fillSlots slots rest).2 = rest.drop (freeSlots slots).length := by
  fun_induction fillSlots slots rest with
  | case1 rest => rfl
  | case2 j slots rest filled surplus hfill ih => simpa [freeSlots_cons, hfill] using ih
  | case3 slots => simp
  | case4 slots j rest filled surplus hfill ih => simpa [freeSlots_cons, hfill] using ih

/-- The free slots are filled iff there are enough arguments. -/
theorem fillSlots_full_iff :
    (∀ slot ∈ (fillSlots slots rest).1, slot.isSome = true) ↔
      (freeSlots slots).length ≤ rest.length := by
  fun_induction fillSlots slots rest with
  | case1 rest => simp [freeSlots]
  | case2 j slots rest filled surplus hfill ih => simpa [freeSlots_cons, hfill] using ih
  | case3 slots => simp [freeSlots_cons]
  | case4 slots j rest filled surplus hfill ih => simpa [freeSlots_cons, hfill] using ih

/-- What is in a slot stays there. -/
theorem fillSlots_kept {p j : Nat} (h : slots[p]? = some (some j)) :
    (fillSlots slots rest).1[p]? = some (some j) := by
  fun_induction fillSlots slots rest generalizing p with
  | case1 rest => cases h
  | case2 j slots rest filled surplus hfill ih =>
    cases p with
    | zero => exact h
    | succ p => simpa [hfill] using ih h
  | case3 slots =>
    exact h
  | case4 slots j rest filled surplus hfill ih =>
    cases p with
    | zero => cases h
    | succ p => simpa [hfill] using ih h

/-- The free slots take the arguments in order. -/
theorem map_fillSlots (h : (freeSlots slots).length ≤ rest.length) :
    (freeSlots slots).map ((fillSlots slots rest).1[·]?) =
      (rest.take (freeSlots slots).length).map (some <| some ·) := by
  fun_induction fillSlots slots rest with
  | case1 rest => rfl
  | case2 j slots rest filled surplus hfill ih =>
    simp only [freeSlots_cons, hfill] at ih h ⊢
    simpa [Function.comp_def] using ih (by simpa using h)
  | case3 slots => simp [freeSlots_cons] at h
  | case4 slots j rest filled surplus hfill ih =>
    simp only [freeSlots_cons, hfill] at ih h ⊢
    simpa [Function.comp_def] using ih (by simpa using h)

/-- No argument is lost. -/
theorem filterMap_fillSlots :
    ((fillSlots slots rest).1.filterMap id ++ (fillSlots slots rest).2).Perm
      (slots.filterMap id ++ rest) := by
  fun_induction fillSlots slots rest with
  | case1 rest => exact .refl _
  | case2 j slots rest filled surplus hfill ih =>
    rw [hfill] at ih
    exact ih.cons j
  | case3 slots => simp
  | case4 slots j rest filled surplus hfill ih =>
    rw [hfill] at ih
    exact (ih.cons j).trans List.perm_middle.symm

end Fill

/-! ## Both steps -/

theorem mapM_id_eq_some {filled : List (Option Nat)} {singles : List Nat}
    (h : filled.mapM id = some singles) : filled = singles.map some := by
  rw [← map_of_mapM h, List.map_id]

/-- A call that can be bound: the named arguments have their slots, the positional ones fill the others,
and only a variadic parameter takes more. -/
theorem bindArguments_eq_some {s : Signature Ty} {arguments : List CallArgument}
    {bindings : List Binding} (h : bindArguments s arguments = some bindings) :
    ∃ (slots : List (Option Nat)) (singles surplus : List Nat),
      bindNamed s (List.replicate s.fixedArity none) arguments.zipIdx = some slots ∧
      fillSlots slots (positions arguments 0) = (singles.map some, surplus) ∧
      (surplus ≠ [] → s.isVariadic = true) ∧
      bindings = singles.map .single ++ if s.isVariadic then [.variadic surplus] else [] := by
  unfold bindArguments at h
  dsimp only at h
  split at h
  · cases h
  · rename_i slots hslots
    split at h
    · cases h
    · rename_i hsurplus
      split at h
      · cases h
      · rename_i singles hsingles
        refine ⟨slots, singles, _, hslots, ?_, fun hne => ?_, (Option.some.inj h).symm⟩
        · rw [← mapM_id_eq_some hsingles]
          rfl
        · simpa [hne] using hsurplus

/-- Once the named arguments have their slots, only the number of positional ones matters. -/
theorem bindArguments_isSome_of_bindNamed {s : Signature Ty} {arguments : List CallArgument}
    {slots : List (Option Nat)}
    (hslots : bindNamed s (List.replicate s.fixedArity none) arguments.zipIdx = some slots) :
    (bindArguments s arguments).isSome = true ↔
      (freeSlots slots).length ≤ (positions arguments 0).length ∧
        (s.isVariadic = true ∨ (positions arguments 0).length ≤ (freeSlots slots).length) := by
  have hpositions : ((arguments.zipIdx).filter (·.1.name.isNone)).map (·.2) = positions arguments 0 := rfl
  have hsurplus : (!s.isVariadic && !(fillSlots slots (positions arguments 0)).2.isEmpty) = true ↔
      ¬ (s.isVariadic = true ∨ (positions arguments 0).length ≤ (freeSlots slots).length) := by
    rw [fillSlots_surplus]
    simp
  unfold bindArguments
  dsimp only
  rw [hslots, hpositions]
  dsimp only
  by_cases hlimit : s.isVariadic = true ∨ (positions arguments 0).length ≤ (freeSlots slots).length
  · rw [if_neg (fun h => hsurplus.1 h hlimit), ← fillSlots_full_iff slots, and_iff_left hlimit]
    have hfull := mapM_isSome id (fillSlots slots (positions arguments 0)).1
    cases hsingles : (fillSlots slots (positions arguments 0)).1.mapM id with
    | none =>
      rw [hsingles] at hfull
      exact hfull
    | some singles =>
      rw [hsingles] at hfull
      exact hfull
  · rw [if_pos (hsurplus.2 hlimit)]
    exact iff_of_false Bool.false_ne_true fun h => hlimit h.2

theorem positions_perm (arguments : List CallArgument) :
    ((arguments.zipIdx.filter (·.1.name.isSome)).map (·.2) ++ positions arguments 0).Perm
      (List.range arguments.length) := by
  have hsplit := (List.filter_append_perm (·.1.name.isSome) arguments.zipIdx).map Prod.snd
  rw [List.map_append, List.zipIdx_map_snd, ← List.range_eq_range'] at hsplit
  simpa only [positions, Option.not_isSome] using hsplit

/-! ## What a call binds -/

section Spec

variable {s : Signature Ty} {arguments : List CallArgument}

/-- The named arguments name fixed parameters, no two the same one, and there are as many arguments as the
signature accepts. -/
structure Bindable (s : Signature Ty) (arguments : List CallArgument) : Prop where
  named : ∀ a ∈ arguments, a.name ≠ none → ∃ p < s.fixedArity, a.names s p
  distinct : arguments.Pairwise fun a b => ∀ p, a.names s p → ¬ b.names s p
  count : s.accepts arguments.length = true

/-- The fixed parameters that no argument names, in order. -/
def freeParameters (s : Signature Ty) (arguments : List CallArgument) : List Nat :=
  (List.range s.fixedArity).filter fun p => ∀ a ∈ arguments, ¬ a.names s p

/-- Each argument has its parameter: a named one the parameter it names, the positional ones the free
parameters in order, and what is left of them the variadic parameter. -/
structure Binds (s : Signature Ty) (arguments : List CallArgument) (bindings : List Binding) : Prop where
  /-- There is one binding for each parameter. -/
  length : bindings.length = s.params.length
  /-- Each argument is bound once. -/
  once : (bindings.flatMap (·.arguments)).Perm (List.range arguments.length)
  named : ∀ (i p : Nat) (a : CallArgument), arguments[i]? = some a → a.names s p →
    bindings[p]? = some (.single i)
  positional : (freeParameters s arguments).map (bindings[·]?) =
    ((positions arguments 0).take (freeParameters s arguments).length).map (some <| .single ·)
  surplus : s.isVariadic = true → bindings.getLast? =
    some (.variadic ((positions arguments 0).drop (freeParameters s arguments).length))

theorem bindNamed_zipIdx_isSome_iff :
    (bindNamed s (List.replicate s.fixedArity none) arguments.zipIdx).isSome = true ↔
      (∀ a ∈ arguments, a.name ≠ none → ∃ p < s.fixedArity, a.names s p) ∧
        arguments.Pairwise fun a b => ∀ p, a.names s p → ¬ b.names s p := by
  have hfree : ∀ p, (List.replicate s.fixedArity (none : Option Nat))[p]? = some none ↔
      p < s.fixedArity := by
    intro p
    rw [List.getElem?_replicate]
    simp
  have hmem := List.forall_mem_map (f := Prod.fst) (l := arguments.zipIdx)
    (P := fun a : CallArgument => a.name ≠ none → ∃ p < s.fixedArity, a.names s p)
  have hpairs := List.pairwise_map (f := Prod.fst) (l := arguments.zipIdx)
    (R := fun a b : CallArgument => ∀ p, a.names s p → ¬ b.names s p)
  rw [List.zipIdx_map_fst] at hmem hpairs
  rw [bindNamed_isSome_iff, hmem, hpairs]
  simp only [hfree, and_comm]

section Slots

variable {slots : List (Option Nat)}
variable (hslots : bindNamed s (List.replicate s.fixedArity none) arguments.zipIdx = some slots)
include hslots

/-- The slots hold the arguments that name their parameters. -/
theorem slot_eq_some_iff {p i : Nat} :
    slots[p]? = some (some i) ↔ ∃ a, arguments[i]? = some a ∧ a.names s p := by
  constructor
  · intro hslot
    rcases bindNamed_origin hslots hslot with hold | ⟨a, ha, hnames⟩
    · rw [List.getElem?_replicate] at hold
      split at hold <;> cases hold
    · exact ⟨a, List.mem_zipIdx_iff_getElem?.1 ha, hnames⟩
  · rintro ⟨a, ha, hnames⟩
    obtain ⟨q, hq, hplaced⟩ :=
      bindNamed_placed hslots (List.mem_zipIdx_iff_getElem?.2 ha) hnames.name_ne_none
    exact hnames.unique hq ▸ hplaced

theorem length_slots : slots.length = s.fixedArity := by
  rw [length_bindNamed hslots, List.length_replicate]

theorem freeSlots_eq : freeSlots slots = freeParameters s arguments := by
  unfold freeSlots freeParameters
  rw [length_slots hslots]
  refine List.filter_congr fun p hp => ?_
  rw [Bool.eq_iff_iff, beq_iff_eq, decide_eq_true_eq]
  constructor
  · intro hfree a ha hnames
    obtain ⟨i, hi⟩ := List.getElem?_of_mem ha
    cases hfree.symm.trans ((slot_eq_some_iff hslots).2 ⟨a, hi, hnames⟩)
  · intro hfree
    have hlt : p < slots.length := length_slots hslots ▸ List.mem_range.1 hp
    cases hslot : slots[p] with
    | none => rw [List.getElem?_eq_getElem hlt, hslot]
    | some i =>
      obtain ⟨a, ha, hnames⟩ :=
        (slot_eq_some_iff hslots).1 ((List.getElem?_eq_getElem hlt).trans (congrArg some hslot))
      exact absurd hnames (hfree a (List.mem_of_getElem? ha))

theorem filterMap_slots :
    (slots.filterMap id).Perm ((arguments.zipIdx.filter (·.1.name.isSome)).map (·.2)) := by
  have hperm := filterMap_bindNamed hslots
  have hnone : (List.replicate s.fixedArity (none : Option Nat)).filterMap id = [] := by
    simp
  rwa [hnone, List.append_nil] at hperm

/-- The number of arguments fits iff that of the positional ones does. -/
theorem accepts_iff :
    s.accepts arguments.length = true ↔
      (freeSlots slots).length ≤ (positions arguments 0).length ∧
        (s.isVariadic = true ∨ (positions arguments 0).length ≤ (freeSlots slots).length) := by
  have hnamed := (filterMap_slots hslots).length_eq
  have hfree := length_freeSlots slots
  have hall := (positions_perm arguments).length_eq
  rw [length_slots hslots] at hfree
  rw [List.length_append, List.length_range] at hall
  unfold Signature.accepts
  split
  · rename_i hvariadic
    rw [decide_eq_true_eq]
    simp only [hvariadic, true_or, and_true]
    omega
  · rename_i hfixed
    rw [beq_iff_eq]
    simp only [hfixed, Bool.false_eq_true, false_or]
    omega

end Slots

/-- **When a call can be bound.** -/
theorem bindArguments_isSome_iff :
    (bindArguments s arguments).isSome = true ↔ Bindable s arguments := by
  cases hslots : bindNamed s (List.replicate s.fixedArity none) arguments.zipIdx with
  | none =>
    have hnone : bindArguments s arguments = none := by
      unfold bindArguments
      dsimp only
      rw [hslots]
    rw [hnone]
    refine iff_of_false Bool.false_ne_true fun h => ?_
    have hsome := bindNamed_zipIdx_isSome_iff.2 ⟨h.named, h.distinct⟩
    rw [hslots] at hsome
    cases hsome
  | some slots =>
    obtain ⟨hnamed, hdistinct⟩ := bindNamed_zipIdx_isSome_iff.1 (Option.isSome_of_eq_some hslots)
    rw [bindArguments_isSome_of_bindNamed hslots, ← accepts_iff hslots]
    exact ⟨fun hcount => ⟨hnamed, hdistinct, hcount⟩, Bindable.count⟩

/-- Without names only their number counts. -/
theorem bindArguments_positional (h : ∀ a ∈ arguments, a.name = none) :
    (bindArguments s arguments).isSome = s.accepts arguments.length := by
  have hnames : ∀ a ∈ arguments, ∀ p, ¬ a.names s p := by
    intro a ha p hnames
    rw [CallArgument.names, h a ha] at hnames
    cases hnames
  rw [Bool.eq_iff_iff, bindArguments_isSome_iff]
  refine ⟨Bindable.count, fun hcount => ⟨fun a ha hname => absurd (h a ha) hname, ?_, hcount⟩⟩
  exact List.pairwise_of_forall_mem_list fun a ha b _ p hp => absurd hp (hnames a ha p)

/-- Without a variadic parameter a signature takes as many arguments as it has parameters. -/
theorem Signature.accepts_of_fixed (h : ∀ p ∈ s.params, p.variadic = false) (n : Nat) :
    s.accepts n = (n == s.params.length) := by
  have hvariadic : s.isVariadic = false := by
    unfold Signature.isVariadic
    split
    · rename_i p hp
      exact h p (List.mem_of_getLast? hp)
    · rfl
  rw [Signature.accepts, Signature.fixedArity, hvariadic, if_neg Bool.false_ne_true, if_neg Bool.false_ne_true]

theorem Signature.length_params (s : Signature Ty) :
    s.params.length = s.fixedArity + if s.isVariadic then 1 else 0 := by
  unfold Signature.fixedArity
  split
  · rename_i hvariadic
    have hpos : 0 < s.params.length := by
      rw [List.length_pos_iff]
      intro hnil
      simp [Signature.isVariadic, hnil] at hvariadic
    omega
  · rfl

/-- The bindings of filled slots: one argument each, and for a variadic parameter what is left. -/
def bindingsOf (s : Signature Ty) (singles surplus : List Nat) : List Binding :=
  singles.map .single ++ if s.isVariadic then [.variadic surplus] else []

theorem length_bindingsOf (singles surplus : List Nat) (h : singles.length = s.fixedArity) :
    (bindingsOf s singles surplus).length = s.params.length := by
  rw [bindingsOf, List.length_append, List.length_map, Signature.length_params, h]
  split <;> rfl

theorem flatMap_bindingsOf {singles surplus : List Nat} (h : surplus ≠ [] → s.isVariadic = true) :
    (bindingsOf s singles surplus).flatMap (·.arguments) = singles ++ surplus := by
  have hsingles : (singles.map Binding.single).flatMap (·.arguments) = singles := by
    rw [List.flatMap_map]
    exact List.flatMap_singleton' singles
  rw [bindingsOf, List.flatMap_append, hsingles]
  split
  · simp [Binding.arguments]
  · rename_i hfixed
    have hnil : surplus = [] := by
      by_contra hne
      exact hfixed (h hne)
    rw [hnil]
    rfl

theorem getElem?_bindingsOf {singles surplus : List Nat} {p : Nat} (h : p < singles.length) :
    (bindingsOf s singles surplus)[p]? = singles[p]?.map .single := by
  rw [bindingsOf, List.getElem?_append_left (by simpa using h), List.getElem?_map]

/-- **What goes where.** -/
theorem binds_of_bindArguments {bindings : List Binding}
    (h : bindArguments s arguments = some bindings) : Binds s arguments bindings := by
  have hcount := (bindArguments_isSome_iff.1 (Option.isSome_of_eq_some h)).count
  obtain ⟨slots, singles, surplus, hslots, hfill, hvariadic, hbindings⟩ := bindArguments_eq_some h
  obtain ⟨henough, -⟩ := (accepts_iff hslots).1 hcount
  have hsurplus := fillSlots_surplus slots (positions arguments 0)
  have hlength := length_fillSlots slots (positions arguments 0)
  have hperm := filterMap_fillSlots slots (positions arguments 0)
  have hpositional := map_fillSlots slots (positions arguments 0) henough
  rw [hfill] at hsurplus hlength hperm hpositional
  rw [freeSlots_eq hslots] at hsurplus hpositional
  rw [List.length_map, length_slots hslots] at hlength
  change bindings = bindingsOf s singles surplus at hbindings
  subst hbindings
  refine ⟨length_bindingsOf singles surplus hlength, ?_, fun i p a hi hnames => ?_, ?_, fun hv => ?_⟩
  · rw [flatMap_bindingsOf hvariadic]
    have hsingles : (singles.map some).filterMap id = singles := by simp
    rw [hsingles] at hperm
    exact (hperm.trans ((filterMap_slots hslots).append_right _)).trans (positions_perm arguments)
  · have hkept := fillSlots_kept slots (positions arguments 0) ((slot_eq_some_iff hslots).2 ⟨a, hi, hnames⟩)
    rw [hfill] at hkept
    have hsingle : singles[p]? = some i := by simpa using hkept
    rw [getElem?_bindingsOf (List.getElem?_eq_some_iff.1 hsingle).1, hsingle]
    rfl
  · have hsame := congrArg (List.map fun slot => slot.join.map Binding.single) hpositional
    rw [List.map_map, List.map_map] at hsame
    refine (List.map_congr_left fun p hp => ?_).trans hsame
    have hlt : p < singles.length := hlength ▸ List.mem_range.1 (List.mem_filter.1 hp).1
    rw [getElem?_bindingsOf hlt, Function.comp_apply, List.getElem?_map]
    cases singles[p]? <;> rfl
  · rw [bindingsOf, if_pos hv, List.getLast?_concat, ← hsurplus]

/-- A bound argument is among those of its parameter. -/
theorem Binds.parameterOf_mem {bindings : List Binding} (h : Binds s arguments bindings) {i : Nat}
    (hi : i < arguments.length) :
    parameterOf bindings i < s.params.length ∧
      ∃ b, bindings[parameterOf bindings i]? = some b ∧ i ∈ b.arguments := by
  obtain ⟨b, hb, hmem⟩ := List.mem_flatMap.1 (h.once.mem_iff.2 (List.mem_range.2 hi))
  have hsome : (bindings.findIdx? (·.arguments.contains i)).isSome = true := by
    rw [List.findIdx?_isSome, List.any_eq_true]
    exact ⟨b, hb, List.contains_iff_mem.2 hmem⟩
  obtain ⟨p, hp⟩ := Option.isSome_iff_exists.1 hsome
  obtain ⟨hlt, hfound, -⟩ := List.findIdx?_eq_some_iff_getElem.1 hp
  have hparameter : parameterOf bindings i = p := by
    rw [parameterOf, hp]
    rfl
  rw [hparameter, ← h.length]
  exact ⟨hlt, bindings[p], List.getElem?_eq_getElem hlt, List.contains_iff_mem.1 hfound⟩

/-- The parameters that a candidate finds for the arguments. -/
theorem argumentMap_of_matchCandidate {convert : Ty → Ty → Conversion} {c : Candidate} {k : Nat}
    {r : Resolution} (h : matchCandidate convert arguments c k = some r) :
    bindArguments c.signature arguments = some r.bindings ∧
      r.argumentMap = (List.range arguments.length).map (parameterOf r.bindings) := by
  obtain ⟨bindings, hbindings, h⟩ := Option.bind_eq_some_iff.1 h
  obtain ⟨fits, -, rfl⟩ := Option.map_eq_some_iff.1 h
  exact ⟨hbindings, rfl⟩

end Spec

/-- **Argument binding.** A call can be bound iff its named arguments name fixed parameters, no two the
same one, and the number of arguments is accepted; each argument then has its parameter, and a candidate
that takes the call maps each argument to a parameter whose binding has it. -/
theorem bindArguments_spec (s : Signature Ty) (arguments : List CallArgument) :
    ((bindArguments s arguments).isSome = true ↔ Bindable s arguments) ∧
      (∀ bindings, bindArguments s arguments = some bindings → Binds s arguments bindings ∧
        ∀ i < arguments.length, parameterOf bindings i < s.params.length ∧
          ∃ b, bindings[parameterOf bindings i]? = some b ∧ i ∈ b.arguments) ∧
      ∀ convert item k r, matchCandidate convert arguments ⟨item, s⟩ k = some r →
        Binds s arguments r.bindings ∧ r.argumentMap.length = arguments.length ∧
          ∀ (i p : Nat), r.argumentMap[i]? = some p → p < s.params.length ∧
            ∃ b, r.bindings[p]? = some b ∧ i ∈ b.arguments := by
  refine ⟨bindArguments_isSome_iff, fun bindings h => ?_, fun convert item k r h => ?_⟩
  · have hbinds := binds_of_bindArguments h
    exact ⟨hbinds, fun i hi => hbinds.parameterOf_mem hi⟩
  · obtain ⟨hbound, hmap⟩ := argumentMap_of_matchCandidate h
    have hbinds := binds_of_bindArguments hbound
    refine ⟨hbinds, by simp [hmap], fun i p hp => ?_⟩
    rw [hmap, List.getElem?_map, Option.map_eq_some_iff] at hp
    obtain ⟨j, hj, rfl⟩ := hp
    obtain ⟨hlt, hji⟩ := List.getElem?_eq_some_iff.1 hj
    rw [List.getElem_range] at hji
    subst hji
    exact hbinds.parameterOf_mem (by simpa using hlt)

/-- `f(7, b: true, 8, 9)` for `fn f(a: int, b: bool, rest: int...)`. -/
example :
    bindArguments
      ⟨[{ name := "a", ty := .int }, { name := "b", ty := .bool, id := 1 },
        { name := "rest", ty := .int, variadic := true, id := 2 }], .void⟩
      [.typed .int, { name := some "b", options := [{ ty := .bool }] }, .typed .int, .typed .int] =
    some [.single 0, .single 1, .variadic [2, 3]] := rfl

end SemanticAnalysis
