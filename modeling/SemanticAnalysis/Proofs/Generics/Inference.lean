import SemanticAnalysis.Analysis.Call
import SemanticAnalysis.Proofs.Course.Rules
import SemanticAnalysis.Proofs.Overload.Binding

/-!
# Inference and the binding of arguments

A call of a generic function infers the types of its instance before it is bound: each argument is paired
with a written parameter, by name or by its place in the call. Binding pairs in another way: positional
arguments go to the parameters that no argument names. The two agree when the places of named arguments
are the parameters that are named (`InPlace`), as in every call without names (`inPlace_of_positional`),
and need not agree in other calls: the last section has one.

1. What binding does to a call with names in place: `fillSlots_positions`, then
   `Seated.parameterOf_named` and `Seated.parameterOf_positional`.
2. So inference pairs each argument with the parameter it is bound to (`writtenArguments_eq`). The names
   of the signature are the written ones (`Analysis.bindParameters_writes`), and so are those of the
   arguments (`Analysis.detailArguments_names`).
3. So each generic parameter takes the type of the first argument that is bound to a parameter written as
   just its name, if there is one (`inferGenerics_ok`).
-/

namespace SemanticAnalysis

/-! ## Positional arguments in place -/

/-- Where exactly the slots of positional arguments are free, each of them stays in its place. -/
theorem fillSlots_positions (slots : List (Option Nat)) (arguments : List CallArgument) (o : Nat)
    (h : ∀ (k : Nat) (a : CallArgument) (slot : Option Nat), arguments[k]? = some a →
      slots[k]? = some slot → (slot = none ↔ a.name = none)) :
    (∀ k : Nat, (fillSlots slots (positions arguments o)).1[k]? =
      slots[k]?.map fun slot => slot.or (arguments[k]?.map fun _ => o + k)) ∧
    (fillSlots slots (positions arguments o)).2 =
      positions (arguments.drop slots.length) (o + slots.length) := by
  induction slots generalizing arguments o with
  | nil => simp [fillSlots]
  | cons slot rest ih =>
    cases arguments with
    | nil =>
      have hnil : positions [] o = [] := rfl
      rw [hnil, fillSlots_nil]
      simp [positions]
    | cons a arguments =>
      have hslot := h 0 a slot rfl rfl
      obtain ⟨ihslots, ihrest⟩ := ih arguments (o + 1) fun k b slot' hb hslot' =>
        h (k + 1) b slot' (by simpa using hb) (by simpa using hslot')
      rw [positions_cons]
      cases slot with
      | none =>
        rw [if_pos (hslot.1 rfl)]
        unfold fillSlots
        constructor
        · intro k
          cases k with
          | zero => rfl
          | succ k => simpa [Nat.add_assoc, Nat.add_comm 1] using ihslots k
        · simpa [Nat.add_assoc, Nat.add_comm 1] using ihrest
      | some j =>
        rw [if_neg (mt hslot.2 (Option.some_ne_none j))]
        unfold fillSlots
        constructor
        · intro k
          cases k with
          | zero => rfl
          | succ k => simpa [Nat.add_assoc, Nat.add_comm 1] using ihslots k
        · simpa [Nat.add_assoc, Nat.add_comm 1] using ihrest

/-! ## Calls with names in place -/

theorem parameterOf_single {singles : List Nat} {others : List Binding} {i p : Nat}
    (hp : singles[p]? = some i) (honly : ∀ q : Nat, singles[q]? = some i → q = p) :
    parameterOf (singles.map .single ++ others) i = p := by
  obtain ⟨hlt, hget⟩ := List.getElem?_eq_some_iff.1 hp
  have hfind : (singles.map Binding.single).findIdx? (·.arguments.contains i) = some p := by
    rw [List.findIdx?_map, List.findIdx?_eq_some_iff_getElem]
    refine ⟨hlt, by simp [Binding.arguments, hget], fun q hq hfound => ?_⟩
    have hqi : singles[q] = i := by simpa [Binding.arguments, eq_comm] using hfound
    have := honly q (List.getElem?_eq_some_iff.2 ⟨Nat.lt_trans hq hlt, hqi⟩)
    omega
  rw [parameterOf, List.findIdx?_append, hfind]
  rfl

theorem parameterOf_variadic {singles surplus : List Nat} {i : Nat} (hsurplus : i ∈ surplus)
    (hsingles : i ∉ singles) :
    parameterOf (singles.map .single ++ [.variadic surplus]) i = singles.length := by
  have hnone : (singles.map Binding.single).findIdx? (·.arguments.contains i) = none := by
    rw [List.findIdx?_map, List.findIdx?_eq_none_iff]
    intro j hj
    have hne : i ≠ j := fun heq => hsingles (heq ▸ hj)
    simpa [Binding.arguments] using hne
  rw [parameterOf, List.findIdx?_append, hnone]
  simp [Binding.arguments, List.findIdx?_cons, hsurplus]

/-- Among the places of fixed parameters, those of named arguments are the parameters that are
named. -/
def InPlace (s : Signature Ty) (arguments : List CallArgument) : Prop :=
  ∀ k < s.fixedArity,
    (arguments[k]?.any (·.name.isSome)) = arguments.any fun a => a.name.bind s.indexOf? == some k

instance (s : Signature Ty) (arguments : List CallArgument) : Decidable (InPlace s arguments) :=
  inferInstanceAs (Decidable (∀ k < s.fixedArity, _ = _))

section InPlace

variable {s : Signature Ty} {arguments : List CallArgument} {bindings : List Binding}
variable {a : CallArgument} {i : Nat}

theorem inPlace_of_positional (h : ∀ a ∈ arguments, a.name = none) : InPlace s arguments := by
  intro k _
  have hany : (arguments.any fun a => a.name.bind s.indexOf? == some k) = false := by
    rw [List.any_eq_false]
    intro a ha
    simp [h a ha]
  rw [hany]
  cases hk : arguments[k]? with
  | none => rfl
  | some a => simp [h a (List.mem_of_getElem? hk)]

theorem InPlace.slot_eq_none_iff (h : InPlace s arguments) {slots : List (Option Nat)}
    (hslots : bindNamed s (List.replicate s.fixedArity none) arguments.zipIdx = some slots)
    (hi : arguments[i]? = some a) {slot : Option Nat} (hslot : slots[i]? = some slot) :
    slot = none ↔ a.name = none := by
  have hlt : i < s.fixedArity := length_slots hslots ▸ (List.getElem?_eq_some_iff.1 hslot).1
  have hplace := h i hlt
  rw [hi, Option.any_some] at hplace
  cases slot with
  | none =>
    -- an argument that names the parameter would be in its slot
    have hunnamed : (arguments.any fun b => b.name.bind s.indexOf? == some i) = false := by
      rw [List.any_eq_false]
      intro b hb hnames
      have hnames : b.names s i := beq_iff_eq.1 hnames
      obtain ⟨j, hj⟩ := List.getElem?_of_mem hb
      cases hslot.symm.trans ((slot_eq_some_iff hslots).2 ⟨b, hj, hnames⟩)
    rw [hunnamed] at hplace
    simpa using hplace
  | some j =>
    -- what is in the slot names the parameter
    have hnamed : (arguments.any fun b => b.name.bind s.indexOf? == some i) = true := by
      obtain ⟨b, hb, hnames⟩ := (slot_eq_some_iff hslots).1 hslot
      exact List.any_eq_true.2 ⟨b, List.mem_of_getElem? hb, beq_iff_eq.2 hnames⟩
    rw [hnamed] at hplace
    constructor
    · intro hsome
      cases hsome
    · intro hnone
      rw [hnone] at hplace
      cases hplace

/-- A call with names in place that can be bound. -/
structure Seated (s : Signature Ty) (arguments : List CallArgument) (bindings : List Binding) : Prop where
  place : InPlace s arguments
  bound : bindArguments s arguments = some bindings

namespace Seated

/-- A parameter that takes one argument takes the one that names it, or else the one in its place. -/
theorem exists_singles (h : Seated s arguments bindings) :
    ∃ singles surplus : List Nat,
      singles.length = s.fixedArity ∧
      bindings = singles.map .single ++ (if s.isVariadic then [.variadic surplus] else []) ∧
      (surplus ≠ [] → s.isVariadic = true) ∧
      (∀ p j : Nat, singles[p]? = some j ↔
        ∃ a, arguments[j]? = some a ∧ (a.names s p ∨ a.name = none ∧ p = j ∧ j < s.fixedArity)) ∧
      (∀ j, j ∈ surplus ↔ s.fixedArity ≤ j ∧ ∃ a, arguments[j]? = some a ∧ a.name = none) := by
  obtain ⟨slots, singles, surplus, hslots, hfill, hvariadic, hbindings⟩ :=
    bindArguments_eq_some h.bound
  have hlength := length_slots hslots
  have hfilled := fillSlots_positions slots arguments 0 fun k a slot hk hslot =>
    h.place.slot_eq_none_iff hslots hk hslot
  have hcount := length_fillSlots slots (positions arguments 0)
  rw [hfill] at hfilled hcount
  obtain ⟨hslot, hsurplus⟩ := hfilled
  dsimp only at hslot hsurplus hcount
  refine ⟨singles, surplus, ?_, hbindings, hvariadic, fun p j => ?_, fun j => ?_⟩
  · simpa [hlength] using hcount
  · have hsingle : singles[p]? = some j ↔
        ∃ slot, slots[p]? = some slot ∧ slot.or (arguments[p]?.map fun _ => p) = some j := by
      have hsome : singles[p]? = some j ↔ (singles.map some)[p]? = some (some j) := by simp
      rw [hsome, hslot, Option.map_eq_some_iff]
      simp only [Nat.zero_add]
    rw [hsingle]
    constructor
    · rintro ⟨slot, hs, hor⟩
      cases slot with
      | some k =>
        cases hor
        obtain ⟨a, ha, hnames⟩ := (slot_eq_some_iff hslots).1 hs
        exact ⟨a, ha, .inl hnames⟩
      | none =>
        obtain ⟨a, ha, rfl⟩ := Option.map_eq_some_iff.1 hor
        have hlt := (List.getElem?_eq_some_iff.1 hs).1
        have hname := (h.place.slot_eq_none_iff hslots ha hs).1 rfl
        exact ⟨a, ha, .inr ⟨hname, rfl, hlength ▸ hlt⟩⟩
    · rintro ⟨a, ha, hnames | ⟨hname, rfl, hlt⟩⟩
      · exact ⟨some j, (slot_eq_some_iff hslots).2 ⟨a, ha, hnames⟩, rfl⟩
      · rw [← hlength] at hlt
        have hs : slots[p]? = some slots[p] := List.getElem?_eq_getElem hlt
        refine ⟨slots[p], hs, ?_⟩
        rw [(h.place.slot_eq_none_iff hslots ha hs).2 hname, ha]
        rfl
  · rw [hsurplus, mem_positions, hlength, Nat.zero_add]
    refine and_congr_right fun hle => ?_
    rw [List.getElem?_drop, Nat.add_sub_cancel' hle]

theorem exists_names (h : Seated s arguments bindings) (hi : arguments[i]? = some a)
    (hname : a.name ≠ none) : ∃ p, a.names s p := by
  obtain ⟨slots, -, -, hslots, -⟩ := bindArguments_eq_some h.bound
  obtain ⟨p, hp, -⟩ := bindNamed_placed hslots (List.mem_zipIdx_iff_getElem?.2 hi) hname
  exact ⟨p, hp⟩

theorem parameterOf_named (h : Seated s arguments bindings) (hi : arguments[i]? = some a) {p : Nat}
    (hnames : a.names s p) : parameterOf bindings i = p := by
  obtain ⟨singles, surplus, -, rfl, -, hsingles, -⟩ := h.exists_singles
  refine parameterOf_single ((hsingles p i).2 ⟨a, hi, .inl hnames⟩) fun q hq => ?_
  obtain ⟨b, hb, hq⟩ := (hsingles q i).1 hq
  cases hi.symm.trans hb
  rcases hq with hq | ⟨hnone, -⟩
  · exact Option.some.inj (hq.symm.trans hnames)
  · exact absurd hnone hnames.name_ne_none

theorem parameterOf_positional (h : Seated s arguments bindings) (hi : arguments[i]? = some a)
    (hname : a.name = none) :
    i < s.fixedArity ∧ parameterOf bindings i = i ∨
      s.fixedArity ≤ i ∧ s.isVariadic = true ∧ parameterOf bindings i = s.fixedArity := by
  obtain ⟨singles, surplus, hlength, rfl, hvariadic, hsingles, hsurplus⟩ := h.exists_singles
  have honly : ∀ q : Nat, singles[q]? = some i → q = i ∧ i < s.fixedArity := by
    intro q hq
    obtain ⟨b, hb, hq⟩ := (hsingles q i).1 hq
    cases hi.symm.trans hb
    rcases hq with hnames | ⟨-, heq, hlt⟩
    · exact absurd hname hnames.name_ne_none
    · exact ⟨heq, hlt⟩
  by_cases hlt : i < s.fixedArity
  · have hsingle := (hsingles i i).2 ⟨a, hi, .inr ⟨hname, rfl, hlt⟩⟩
    exact .inl ⟨hlt, parameterOf_single hsingle fun q hq => (honly q hq).1⟩
  · have hle := Nat.le_of_not_lt hlt
    have hmem := (hsurplus i).2 ⟨hle, a, hi, hname⟩
    have htakes := hvariadic (List.ne_nil_of_mem hmem)
    refine .inr ⟨hle, htakes, ?_⟩
    rw [if_pos htakes, ← hlength]
    refine parameterOf_variadic hmem fun hsingle => ?_
    obtain ⟨q, hq⟩ := List.getElem?_of_mem hsingle
    exact hlt (honly q hq).2

end Seated

end InPlace

/-! ## Inference -/

/-- The signature has the names of written parameters, and is variadic if the last one is. -/
structure Signature.Writes (s : Signature Ty) (params : List (Param Expr)) : Prop where
  names : s.params.map (·.name) = params.map (·.name.name)
  variadic : s.isVariadic = params.getLast?.any (·.variadic)

namespace Signature.Writes

variable {s : Signature Ty} {params : List (Param Expr)}

theorem length_eq (h : s.Writes params) : s.params.length = params.length := by
  simpa using congrArg List.length h.names

theorem fixedArity_le (h : s.Writes params) : s.fixedArity ≤ params.length := by
  have hlength := h.length_eq
  unfold fixedArity
  split <;> omega

/-- A variadic parameter is the last one, behind the others. -/
theorem getLast?_of_variadic (h : s.Writes params) (hvariadic : s.isVariadic = true) :
    ∃ p, p.variadic = true ∧ params.getLast? = some p ∧ params[s.fixedArity]? = some p ∧
      s.fixedArity + 1 = params.length := by
  have hlast := h.variadic
  rw [hvariadic] at hlast
  cases hp : params.getLast? with
  | none =>
    rw [hp] at hlast
    cases hlast
  | some p =>
    rw [hp] at hlast
    have hne : params ≠ [] := by
      rintro rfl
      cases hp
    have hpos := List.length_pos_iff.2 hne
    have hfixed : s.fixedArity = params.length - 1 := by rw [fixedArity, if_pos hvariadic, h.length_eq]
    refine ⟨p, hlast.symm, rfl, ?_, by omega⟩
    rw [hfixed, ← List.getLast?_eq_getElem?, hp]

/-- The parameter that is found by name is the one that is bound by name. -/
theorem find?_eq (h : s.Writes params) {name : String} {p : Nat} (hp : s.indexOf? name = some p) :
    params.find? (·.name.name == name) = params[p]? := by
  have hfind := congrArg (List.findIdx? (· == name)) h.names
  rw [List.findIdx?_map, List.findIdx?_map] at hfind
  have hparams : params.findIdx? (·.name.name == name) = some p := hfind.symm.trans hp
  rw [List.find?_eq_getElem?_findIdx, (List.findIdx?_eq_some_iff_findIdx_eq.1 hparams).2]

end Signature.Writes

namespace Analysis

variable {an : Analyst} {frame : Frame} {scope own : ScopeId} {function : ItemId}

/-- A parameter has its written name, and only the last one can be variadic. -/
theorem bindParameters_marks {written : List (Param Expr)} :
    Returns (bindParameters an frame written function own) fun bound =>
      bound.1.map (fun p => (p.name, p.variadic)) =
        written.zipIdx.map fun x => (x.1.name.name, x.1.variadic && x.2 + 1 == written.length) := by
  have hparameter : ∀ x ∈ written.zipIdx,
      Returns (bindParameter an frame written function own x.1 x.2)
        (fun b => (b.1.name, b.1.variadic) =
          (x.1.name.name, x.1.variadic && x.2 + 1 == written.length)) := by
    intro x _
    unfold bindParameter
    dsimp only
    split
    · exact .bind fun _ => .bind fun _ => .bind fun _ => .bind fun _ => .pure rfl
    · exact .bind fun _ => .bind fun _ => .bind fun _ => .pure rfl
  unfold bindParameters
  refine .bind_from (.mapM hparameter) fun bound hbound => .pure ?_
  rw [List.unzip_fst, List.map_map]
  exact hbound

/-- A signature that is resolved from written parameters. -/
theorem bindParameters_writes {written : List (Param Expr)} {result : Ty} :
    Returns (bindParameters an frame written function own) fun bound =>
      Signature.Writes ⟨bound.1, result⟩ written := by
  intro s bound s' hrun
  have hbound := bindParameters_marks s bound s' hrun
  constructor
  · have hnames := congrArg (List.map Prod.fst) hbound
    have hfst : (written.zipIdx.map (·.1)).map (·.name.name) = written.map (·.name.name) := by
      rw [List.zipIdx_map_fst]
    rw [List.map_map] at hfst
    rw [← hfst]
    rw [List.map_map, List.map_map] at hnames
    exact hnames
  · have hlast := congrArg List.getLast? hbound
    rw [List.getLast?_map, List.getLast?_map, List.getLast?_zipIdx, Option.map_map] at hlast
    rw [Signature.isVariadic]
    cases hp : written.getLast? with
    | none =>
      rw [hp, Option.map_none, Option.map_eq_none_iff] at hlast
      rw [hlast]
      rfl
    | some p =>
      have hpos : 0 < written.length := List.length_pos_iff.2 fun hnil => by simp [hnil] at hp
      rw [hp, Option.map_some] at hlast
      obtain ⟨b, hb, hsame⟩ := Option.map_eq_some_iff.1 hlast
      have hvariadic : b.variadic = (p.variadic && 0 + written.length - 1 + 1 == written.length) :=
        (Prod.mk.inj hsame).2
      have hcount : 0 + written.length - 1 + 1 = written.length := by omega
      rw [hcount, BEq.rfl, Bool.and_true] at hvariadic
      rw [hb]
      exact hvariadic

/-- The arguments of a call, with the names they are written with. -/
theorem detailArguments_names {written : List (Argument Expr)} :
    Returns (detailArguments an frame written scope)
      (·.map (·.name) = written.map (·.name.map (·.name))) := by
  unfold detailArguments
  exact .mapM fun _ _ => .bind fun _ => .bind fun _ => .bind fun _ => .pure rfl

end Analysis

section Inference

variable {s : Signature Ty} {params : List (Param Expr)} {written : List (Argument Expr)}
variable {arguments : List CallArgument} {bindings : List Binding}

/-- **Pairing.** The written parameter of an argument is the one it is bound to. -/
theorem writtenParameter?_eq (hwrites : s.Writes params) (h : Seated s arguments bindings)
    {a : CallArgument} {i : Nat} (hi : arguments[i]? = some a) {ident : Option Ident}
    (hname : a.name = ident.map (·.name)) :
    ∃ p, writtenParameter? params ident i = some p ∧ params[parameterOf bindings i]? = some p := by
  cases ident with
  | some ident =>
    have hnamed : a.name ≠ none := by simp [hname]
    obtain ⟨p, hp⟩ := h.exists_names hi hnamed
    have hindex : s.indexOf? ident.name = some p := by simpa [CallArgument.names, hname] using hp
    have hlt : p < params.length := by
      rw [← hwrites.length_eq]
      exact (List.findIdx?_eq_some_iff_findIdx_eq.1 hindex).1
    refine ⟨params[p], ?_, ?_⟩
    · rw [writtenParameter?, hwrites.find?_eq hindex, List.getElem?_eq_getElem hlt]
    · rw [h.parameterOf_named hi hp, List.getElem?_eq_getElem hlt]
  | none =>
    rcases h.parameterOf_positional hi hname with ⟨hlt, hbound⟩ | ⟨hle, hvariadic, hbound⟩
    · have hlt := Nat.lt_of_lt_of_le hlt hwrites.fixedArity_le
      refine ⟨params[i], ?_, ?_⟩
      · rw [writtenParameter?, List.getElem?_eq_getElem hlt]
        rfl
      · rw [hbound, List.getElem?_eq_getElem hlt]
    · obtain ⟨p, hp, hlast, hget, hlength⟩ := hwrites.getLast?_of_variadic hvariadic
      refine ⟨p, ?_, by rw [hbound, hget]⟩
      rw [writtenParameter?]
      by_cases heq : i = s.fixedArity
      · rw [heq, hget]
        rfl
      · have hover : params[i]? = none := List.getElem?_eq_none (by omega)
        rw [hover, hlast]
        simp [hp]

/-- An argument that has a type, with the bare type name that the parameter it is bound to is written
as. -/
def boundArgument? (params : List (Param Expr)) (bindings : List Binding) (a : CallArgument) (i : Nat) :
    Option WrittenArgument :=
  a.options.head?.map fun o => ⟨params[parameterOf bindings i]?.bind (·.ty.simpleName?), o.ty⟩

/-- The arguments that have a type, in the order of the call. -/
def boundArguments (params : List (Param Expr)) (bindings : List Binding)
    (arguments : List CallArgument) : List WrittenArgument :=
  arguments.zipIdx.filterMap fun (a, i) => boundArgument? params bindings a i

theorem mapM_of_forall {α β : Type} {f : α → Option β} {g : α → β} {l : List α}
    (h : ∀ a ∈ l, f a = some (g a)) : l.mapM f = some (l.map g) := by
  induction l with
  | nil => rfl
  | cons a rest ih =>
    rw [List.mapM_cons, h a List.mem_cons_self, ih fun b hb => h b (List.mem_cons_of_mem _ hb)]
    rfl

/-- Inference sees every argument with the parameter it is bound to. -/
theorem writtenArguments_eq (hwrites : s.Writes params)
    (hwritten : arguments.map (·.name) = written.map (·.name.map (·.name)))
    (h : Seated s arguments bindings) :
    Analysis.writtenArguments params written arguments =
      some (boundArguments params bindings arguments) := by
  have hpair : ∀ x ∈ (written.zip arguments).zipIdx,
      ((writtenParameter? params x.1.1.name x.2).map fun p =>
        x.1.2.options.head?.map fun o => ⟨p.ty.simpleName?, o.ty⟩) =
          some (boundArgument? params bindings x.1.2 x.2) := by
    rintro ⟨⟨w, a⟩, i⟩ hx
    obtain ⟨hw, ha⟩ := List.getElem?_zip_eq_some.1 (List.mem_zipIdx_iff_getElem?.1 hx)
    have hname : a.name = w.name.map (·.name) := by
      have hi := congrArg (·[i]?) hwritten
      simpa [hw, ha] using hi
    obtain ⟨p, hp, hbound⟩ := writtenParameter?_eq hwrites h ha hname
    rw [boundArgument?, hp, hbound]
    rfl
  have hlength : arguments.length = written.length := by simpa using congrArg List.length hwritten
  have hzip : (written.zip arguments).map (·.2) = arguments :=
    List.map_snd_zip (Nat.le_of_eq hlength)
  have hbound : boundArguments params bindings ((written.zip arguments).map (·.2)) =
      (written.zip arguments).zipIdx.filterMap fun x => boundArgument? params bindings x.1.2 x.2 := by
    rw [boundArguments, List.zipIdx_map, List.filterMap_map]
    rfl
  rw [hzip] at hbound
  unfold Analysis.writtenArguments
  dsimp only
  rw [mapM_of_forall hpair, Option.map_some, List.filterMap_map, hbound]
  rfl

/-- Where every generic parameter is decided by an argument, all types are found. -/
theorem inferGenerics_ok {bound : List WrittenArgument} {generics : List String}
    (h : ∀ g ∈ generics, ∃ a ∈ bound, a.written = some g) :
    ∃ types, inferGenerics generics bound = .ok types ∧
      types.map some = generics.map (inferOne bound) := by
  unfold inferGenerics
  generalize 0 = index
  induction generics generalizing index with
  | nil => exact ⟨[], rfl, rfl⟩
  | cons g rest ih =>
    obtain ⟨a, ha, hwritten⟩ := h g List.mem_cons_self
    have hfound : (bound.find? (·.written == some g)).isSome := by
      rw [List.find?_isSome]
      exact ⟨a, ha, beq_iff_eq.2 hwritten⟩
    obtain ⟨b, hb⟩ := Option.isSome_iff_exists.1 hfound
    have hone : inferOne bound g = some b.ty.inferred := by rw [inferOne, hb, Option.map_some]
    obtain ⟨types, hrest, htypes⟩ := ih (fun g' hg' => h g' (List.mem_cons_of_mem _ hg')) (index + 1)
    refine ⟨b.ty.inferred :: types, ?_, ?_⟩
    · unfold inferGenerics.go
      rw [hone, hrest]
    · rw [List.map_cons, List.map_cons, hone, htypes]

/-- **Inference follows binding.** Let a call of a generic function have its names in place, and let every
generic parameter be the written type of a parameter that an argument is bound to. Then the call infers
an instance: each generic parameter takes the type of the first such argument. -/
theorem inference_follows_binding (an : Analyst) {st : State} {template : ItemId} {decl : FunctionDef}
    {scope : ScopeId} {module : ModuleId} {cls : Option ItemId}
    (htemplate : st.templates.lookup template = some (.fn decl scope module cls))
    (hwrites : s.Writes decl.params)
    (hwritten : arguments.map (·.name) = written.map (·.name.map (·.name)))
    (h : Seated s arguments bindings)
    (hdecided : ∀ g ∈ decl.generics,
      ∃ a ∈ boundArguments decl.params bindings arguments, a.written = some g.name)
    (position : Position) :
    ∃ types : List Ty,
      types.map some =
        decl.generics.map (fun g => inferOne (boundArguments decl.params bindings arguments) g.name) ∧
      Analysis.inferInstance? an template written arguments position st =
        (some <$> Analysis.instantiateFunction an template types position) st := by
  have hgenerics : ∀ g ∈ decl.generics.map (·.name),
      ∃ a ∈ boundArguments decl.params bindings arguments, a.written = some g := by
    intro g hg
    obtain ⟨ident, hident, rfl⟩ := List.mem_map.1 hg
    exact hdecided ident hident
  obtain ⟨types, hinfer, htypes⟩ := inferGenerics_ok hgenerics
  refine ⟨types, by rw [htypes, List.map_map]; rfl, ?_⟩
  have hfound : Analysis.template? template st = .ok (some (.fn decl scope module cls)) st := by
    rw [← htemplate]
    rfl
  unfold Analysis.inferInstance?
  rw [Analysis.bind_ok hfound]
  dsimp only
  rw [writtenArguments_eq hwrites hwritten h]
  dsimp only
  rw [hinfer]

end Inference

/-! ## Names in place and out of place -/

/-- `fn g<T>(x: T, y: int)`. -/
def genericPair : FunctionDef where
  node := ⟨.written 1, {}⟩
  name := ⟨"g", {}⟩
  generics := [⟨"T", {}⟩]
  params :=
    [{ node := ⟨.written 2, {}⟩, name := ⟨"x", {}⟩, ty := { form := .named [⟨"T", {}⟩] [] } },
     { node := ⟨.written 3, {}⟩, name := ⟨"y", {}⟩, ty := { form := .native .int } }]

/-- Its signature for `T = bool`. -/
def genericPairSignature : Signature Ty :=
  ⟨[{ name := "x", ty := .bool }, { name := "y", ty := .int, id := 1 }], .void⟩

def genericPairState : State := { templates := [(⟨0⟩, .fn genericPair ⟨0⟩ ⟨0⟩ none)] }

/-- The arguments `true` and `y: 1`, written and typed. -/
def plainArgument : Argument Expr × CallArgument :=
  ({ value := .literal ⟨.written 4, {}⟩ (.bool true) }, .typed .bool)

def namedArgument : Argument Expr × CallArgument :=
  ({ name := some ⟨"y", {}⟩, value := .literal ⟨.written 5, {}⟩ (.int 1) },
   { name := some "y", options := [{ ty := .int }] })

theorem genericPair_writes : genericPairSignature.Writes genericPair.params := ⟨rfl, rfl⟩

/-- `g(true, y: 1)` infers `T = bool`. -/
theorem inference_follows_binding_pair :
    Analysis.inferInstance? (analyst 8) ⟨0⟩ [plainArgument.1, namedArgument.1]
        [plainArgument.2, namedArgument.2] {} genericPairState =
      (some <$> Analysis.instantiateFunction (analyst 8) ⟨0⟩ [.bool] {}) genericPairState := by
  have htemplate : genericPairState.templates.lookup ⟨0⟩ = some (.fn genericPair ⟨0⟩ ⟨0⟩ none) := rfl
  have hnames : [plainArgument.2, namedArgument.2].map (·.name) =
      [plainArgument.1, namedArgument.1].map (·.name.map (·.name)) := rfl
  have hseated : Seated genericPairSignature [plainArgument.2, namedArgument.2] [.single 0, .single 1] :=
    ⟨by decide, rfl⟩
  have hdecided : ∀ g ∈ genericPair.generics,
      ∃ a ∈ boundArguments genericPair.params [.single 0, .single 1]
        [plainArgument.2, namedArgument.2], a.written = some g.name := by
    intro g hg
    cases List.mem_singleton.1 hg
    exact ⟨⟨some "T", .bool⟩, List.mem_cons_self, rfl⟩
  obtain ⟨types, htypes, hrun⟩ :=
    inference_follows_binding (analyst 8) htemplate genericPair_writes hnames hseated hdecided {}
  have hbool : types.map some = [.bool].map some := htypes
  rw [List.map_injective_iff.2 (Option.some_injective Ty) hbool] at hrun
  exact hrun

/-- `g(y: 1, true)` is bound, with `true` as `x`, but `T` is not inferred: inference looks for the second
argument in the second place. -/
theorem swapped_pair_not_inferred :
    bindArguments genericPairSignature [namedArgument.2, plainArgument.2] = some [.single 1, .single 0] ∧
      inferOne (boundArguments genericPair.params [.single 1, .single 0]
        [namedArgument.2, plainArgument.2]) "T" = some .bool ∧
      ∀ an : Analyst, Analysis.inferInstance? an ⟨0⟩ [namedArgument.1, plainArgument.1]
        [namedArgument.2, plainArgument.2] {} genericPairState =
          .error ⟨.cannotInfer "g" "T", {}⟩ genericPairState := by
  exact ⟨rfl, rfl, fun _ => rfl⟩

end SemanticAnalysis
