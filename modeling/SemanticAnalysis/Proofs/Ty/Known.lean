import SemanticAnalysis.Generics.Inference
import SemanticAnalysis.NativeOperation
import SemanticAnalysis.Proofs.Ty.Layers

/-!
# The classes a value names

Types name classes by their numbers, and so does whatever holds types. `classIds` lists the classes
that occur in a value, at any depth, and `Known n a` says that all of them have a number below `n`:
in a table of `n` items they all exist.

Operations on layers look at the outside of a type only, so they neither add nor lose classes; a type
made from parts names what its parts name.
-/

namespace SemanticAnalysis

/-! ## Values that name classes -/

/-- Values with classes in them. -/
class NamesClasses (α : Type) where
  classIds : α → List ItemId

export NamesClasses (classIds)

/-- Anything else names nothing. -/
instance (priority := low) instNamesNone (α : Type) : NamesClasses α := ⟨fun _ => []⟩

instance {α : Type} [NamesClasses α] : NamesClasses (List α) := ⟨(·.flatMap classIds)⟩

instance {α : Type} [NamesClasses α] : NamesClasses (Option α) := ⟨(·.elim [] classIds)⟩

instance {α β : Type} [NamesClasses α] [NamesClasses β] : NamesClasses (α × β) :=
  ⟨fun p => classIds p.1 ++ classIds p.2⟩

/-- Every class that occurs in the value has a number below `n`. -/
def Known {α : Type} [NamesClasses α] (n : Nat) (a : α) : Prop := ∀ c ∈ classIds a, c.index < n

/-- A later number of items. -/
def Later (n m : Nat) : Prop := n ≤ m

/-- A kind of value that names no class. -/
class NamesNone (α : Type) [NamesClasses α] : Prop where
  classIds_eq : ∀ a : α, classIds a = []

instance (priority := low) (α : Type) : @NamesNone α (instNamesNone α) := by
  let := instNamesNone α
  exact ⟨fun _ => rfl⟩

section Known

variable {α β : Type} [NamesClasses α] [NamesClasses β] {n m : Nat} {a : α}

instance [NamesNone α] : NamesNone (List α) :=
  ⟨fun _ => List.flatMap_eq_nil_iff.2 fun a _ => NamesNone.classIds_eq a⟩

instance [NamesNone α] : NamesNone (Option α) where
  classIds_eq
    | none => rfl
    | some a => NamesNone.classIds_eq a

instance [NamesNone α] [NamesNone β] : NamesNone (α × β) :=
  ⟨fun p => by
    show classIds p.1 ++ classIds p.2 = []
    rw [NamesNone.classIds_eq, NamesNone.classIds_eq, List.append_nil]⟩

theorem known_of_nil (h : classIds a = []) : Known n a := by
  intro c hc
  rw [h] at hc
  cases hc

@[grind ←] theorem known_of_namesNone [NamesNone α] (n : Nat) (a : α) : Known n a :=
  known_of_nil (NamesNone.classIds_eq a)

theorem Known.mono (h : Known n a) (hm : Later n m) : Known m a :=
  fun c hc => Nat.lt_of_lt_of_le (h c hc) hm

grind_pattern Known.mono => Known n a, Later n m

@[grind =] theorem known_pair (a : α) (b : β) : Known n (a, b) ↔ Known n a ∧ Known n b :=
  List.forall_mem_append

theorem Known.fst {p : α × β} (h : Known n p) : Known n p.1 := (List.forall_mem_append.1 h).1

theorem Known.snd {p : α × β} (h : Known n p) : Known n p.2 := (List.forall_mem_append.1 h).2

@[grind ←] theorem known_none : Known n (none : Option α) := known_of_nil rfl

@[grind =] theorem known_some (a : α) : Known n (some a) ↔ Known n a := .rfl

theorem Known.of_some (h : Known n (some a)) : Known n a := h

grind_pattern Known.of_some => Known n a, some a

@[grind ←] theorem known_nil : Known n ([] : List α) := known_of_nil rfl

theorem known_list {l : List α} : Known n l ↔ ∀ a ∈ l, Known n a := by
  show (∀ c ∈ l.flatMap classIds, c.index < n) ↔ _
  simp only [List.mem_flatMap, Known]
  exact ⟨fun h a ha c hc => h c ⟨a, ha, hc⟩, fun h c ⟨a, ha, hc⟩ => h a ha c hc⟩

@[grind =] theorem known_cons (a : α) (l : List α) : Known n (a :: l) ↔ Known n a ∧ Known n l := by
  simp only [known_list, List.forall_mem_cons]

@[grind =] theorem known_append (l l' : List α) :
    Known n (l ++ l') ↔ Known n l ∧ Known n l' := by
  simp only [known_list, List.forall_mem_append]

@[grind →] theorem Known.mem {l : List α} (h : Known n l) (ha : a ∈ l) : Known n a :=
  known_list.1 h a ha

theorem Known.sublist {l l' : List α} (h : Known n l) (hsub : ∀ a ∈ l', a ∈ l) : Known n l' :=
  known_list.2 fun a ha => h.mem (hsub a ha)

theorem Known.filterMap {l : List α} {f : α → Option β} (h : Known n l)
    (hf : ∀ a ∈ l, Known n a → Known n (f a)) : Known n (l.filterMap f) := by
  refine known_list.2 fun b hb => ?_
  obtain ⟨a, ha, hab⟩ := List.mem_filterMap.1 hb
  have := hf a ha (h.mem ha)
  rwa [hab] at this

@[grind ←] theorem known_head? {l : List α} (h : Known n l) : Known n l.head? := by
  cases l with
  | nil => exact known_none
  | cons a l => exact (known_some a).2 (h.mem List.mem_cons_self)

@[grind ←] theorem known_getElem? {l : List α} {i : Nat} (h : Known n l) : Known n l[i]? := by
  cases hi : l[i]? with
  | none => exact known_none
  | some a => exact (known_some a).2 (h.mem (List.mem_of_getElem? hi))

@[grind ←] theorem known_unzip {l : List (α × β)} (h : Known n l) : Known n l.unzip := by
  rw [List.unzip_eq_map]
  refine (known_pair _ _).2 ⟨known_list.2 fun a ha => ?_, known_list.2 fun b hb => ?_⟩
  · obtain ⟨p, hp, rfl⟩ := List.mem_map.1 ha
    exact (h.mem hp).fst
  · obtain ⟨p, hp, rfl⟩ := List.mem_map.1 hb
    exact (h.mem hp).snd

@[grind ←] theorem known_take {l : List α} {k : Nat} (h : Known n l) : Known n (l.take k) :=
  h.sublist fun _ => List.mem_of_mem_take

theorem known_of_mapM {γ : Type} {l : List γ} {f : γ → Option β} {bs : List β}
    (hf : ∀ a ∈ l, Known n (f a)) (h : l.mapM f = some bs) : Known n bs := by
  induction l generalizing bs with
  | nil =>
    cases h
    exact known_nil
  | cons a rest ih =>
    rw [List.mapM_cons] at h
    obtain ⟨b, hb, h⟩ := Option.bind_eq_some_iff.1 h
    obtain ⟨bs', hbs, h⟩ := Option.bind_eq_some_iff.1 h
    cases h
    have ha : Known n (f a) := hf a List.mem_cons_self
    rw [hb] at ha
    exact (known_cons _ _).2 ⟨ha, ih (fun c hc => hf c (List.mem_cons_of_mem _ hc)) hbs⟩

@[grind ←] theorem known_optionBind {o : Option α} {f : α → Option β} (h : Known n o)
    (hf : ∀ a, o = some a → Known n a → Known n (f a)) : Known n (o.bind f) := by
  cases o with
  | none => exact known_none
  | some a => exact hf a rfl h

@[grind ←] theorem known_optionMap {o : Option α} {f : α → β} (h : Known n o)
    (hf : ∀ a, o = some a → Known n a → Known n (f a)) : Known n (o.map f) := by
  cases o with
  | none => exact known_none
  | some a => exact hf a rfl h

@[grind ←] theorem known_optionFilter {o : Option α} {p : α → Bool} (h : Known n o) :
    Known n (o.filter p) := by
  cases hf : o.filter p with
  | none => exact known_none
  | some a =>
    obtain ⟨rfl, -⟩ := Option.filter_eq_some_iff.1 hf
    exact h

@[grind ←] theorem known_getD {o : Option α} {a : α} (h : Known n o) (ha : Known n a) :
    Known n (o.getD a) := by
  cases o with
  | none => exact ha
  | some a => exact h

@[grind →] theorem Known.lookup [BEq α] [LawfulBEq α] {l : List (α × β)} (h : Known n l) {b : β}
    (hb : l.lookup a = some b) : Known n b := by
  obtain ⟨l₁, l₂, rfl, -⟩ := List.lookup_eq_some_iff.1 hb
  exact (h.mem (List.mem_append_right _ List.mem_cons_self)).snd

end Known

/-! ## Types -/

mutual

/-- The classes that occur in a type. -/
def Ty.classIds : Ty → List ItemId
  | ⟨k, _⟩ => kindClassIds k

def Ty.kindClassIds : Kind Ty → List ItemId
  | .any | .native _ => []
  | .cls i => [i]
  | .function s => signatureClassIds s
  | .union ts => listClassIds ts
  | .optional t => classIds t

def Ty.signatureClassIds : Signature Ty → List ItemId
  | ⟨ps, r⟩ => paramsClassIds ps ++ classIds r

def Ty.listClassIds : List Ty → List ItemId
  | [] => []
  | t :: ts => classIds t ++ listClassIds ts

def Ty.paramsClassIds : List (Parameter Ty) → List ItemId
  | [] => []
  | p :: ps => paramClassIds p ++ paramsClassIds ps

def Ty.paramClassIds : Parameter Ty → List ItemId
  | ⟨_, t, _, _⟩ => classIds t

end

instance : NamesClasses Ty := ⟨Ty.classIds⟩

instance : NamesClasses (Parameter Ty) := ⟨(·.ty.classIds)⟩

instance : NamesClasses (Signature Ty) := ⟨Ty.signatureClassIds⟩

section Types

variable {n : Nat} {t u : Ty}

theorem Ty.listClassIds_eq (ts : List Ty) : listClassIds ts = NamesClasses.classIds ts := by
  induction ts with
  | nil => rfl
  | cons t ts ih =>
    rw [listClassIds, ih]
    rfl

theorem Ty.paramsClassIds_eq (ps : List (Parameter Ty)) :
    paramsClassIds ps = NamesClasses.classIds ps := by
  induction ps with
  | nil => rfl
  | cons p ps ih =>
    rw [paramsClassIds, paramClassIds, ih]
    rfl

@[grind =] theorem known_parameter (p : Parameter Ty) : Known n p ↔ Known n p.ty := .rfl

theorem known_signature {s : Signature Ty} : Known n s ↔ Known n s.params ∧ Known n s.result := by
  show (∀ c ∈ Ty.signatureClassIds s, c.index < n) ↔ _
  rw [Ty.signatureClassIds, Ty.paramsClassIds_eq]
  exact List.forall_mem_append

@[grind →] theorem Known.result {s : Signature Ty} (h : Known n s) : Known n s.result :=
  (known_signature.1 h).2

/-- What a type names is decided by its kind. -/
theorem Known.of_kind (h : Known n t) (hkind : u.kind = t.kind) : Known n u := by
  cases t
  cases u
  cases hkind
  exact h

/-! ### Types from their parts -/

@[grind ←] theorem known_any : Known n Ty.any := known_of_nil rfl

@[grind ←] theorem known_native (k : Native) : Known n (Ty.native k) := known_of_nil rfl

@[grind ←] theorem known_bool : Known n Ty.bool := known_of_nil rfl

@[grind ←] theorem known_int : Known n Ty.int := known_of_nil rfl

@[grind ←] theorem known_void : Known n Ty.void := known_of_nil rfl

@[grind ←] theorem known_size : Known n Ty.size := known_of_nil rfl

@[grind =] theorem known_cls (i : ItemId) : Known n (Ty.cls i) ↔ i.index < n := by
  show (∀ c ∈ [i], c.index < n) ↔ _
  simp

@[grind =] theorem known_optional (t : Ty) : Known n (Ty.optional t) ↔ Known n t := .rfl

@[grind =] theorem known_function (s : Signature Ty) : Known n (Ty.function s) ↔ Known n s := .rfl

theorem known_bare_union {ts : List Ty} : Known n (Ty.bare (.union ts)) ↔ Known n ts := by
  show (∀ c ∈ Ty.listClassIds ts, c.index < n) ↔ _
  rw [Ty.listClassIds_eq]
  rfl

theorem known_spread (h : Known n t) : Known n t.spread := by
  unfold Ty.spread
  split
  · exact known_bare_union.1 h
  · exact known_list.2 fun u hu => List.mem_singleton.1 hu ▸ h

@[grind ←] theorem known_union {ts : List Ty} (h : Known n ts) : Known n (Ty.union ts) := by
  have hmembers : Known n (Ty.distinct (ts.flatMap Ty.spread)) := by
    refine known_list.2 fun t ht => ?_
    obtain ⟨u, hu, ht⟩ := List.mem_flatMap.1 (Ty.mem_of_mem_distinct ht)
    exact (known_spread (h.mem hu)).mem ht
  unfold Ty.union
  split
  · rename_i t heq
    rw [heq] at hmembers
    exact hmembers.mem (List.mem_singleton_self _)
  · exact known_bare_union.2 hmembers

/-! ### Parts of types -/

theorem Known.classId (h : Known n t) {i : ItemId} (hi : t.classId? = some i) : i.index < n := by
  unfold Ty.classId? at hi
  split at hi
  · rename_i hkind
    cases hi
    exact (known_cls i).1 (h.of_kind hkind.symm)
  · cases hi

@[grind →] theorem Known.valueClass (h : Known n t) {i : ItemId} (hi : t.valueClass? = some i) :
    i.index < n := by
  unfold Ty.valueClass? at hi
  split at hi
  · exact h.classId hi
  · cases hi

@[grind ←] theorem known_inner? (h : Known n t) : Known n t.inner? := by
  unfold Ty.inner?
  split
  · rename_i inner hkind
    exact (known_some _).2 ((known_optional inner).1 (h.of_kind hkind.symm))
  · exact known_none

@[grind ←] theorem known_signature? (h : Known n t) : Known n t.signature? := by
  unfold Ty.signature?
  split
  · rename_i sig hkind
    exact (known_some _).2 ((known_function sig).1 (h.of_kind hkind.symm))
  · exact known_none

/-! ### Layers -/

@[grind ←] theorem known_qualified (layers : List Modifier) (h : Known n t) :
    Known n (t.qualified layers) := h.of_kind (t.kind_qualified layers)

@[grind ←] theorem known_point (h : Known n t) : Known n t.point :=
  h.of_kind (t.kind_withLayer _)

@[grind ←] theorem known_constify (h : Known n t) : Known n t.constify :=
  h.of_kind t.kind_constify

@[grind ←] theorem known_deconstify (h : Known n t) : Known n t.deconstify := h.of_kind rfl

@[grind ←] theorem known_withoutOuterReferences (h : Known n t) :
    Known n t.withoutOuterReferences := h.of_kind rfl

@[grind ←] theorem known_inferred (h : Known n t) : Known n t.inferred :=
  h.of_kind t.kind_inferred

@[grind ←] theorem known_follow? (h : Known n t) : Known n t.follow? := by
  unfold Ty.follow?
  split
  · exact (known_some _).2 (h.of_kind rfl)
  · exact known_none

/-! ### Operators -/

@[grind ←] theorem known_widerOperand (l r : Native) (ht : Known n t) (hu : Known n u) :
    Known n (widerOperand t u l r) := by
  unfold widerOperand
  grind

@[grind ←] theorem known_arithmeticType (op : BinaryOp) (l r : Native) (ht : Known n t)
    (hu : Known n u) : Known n (arithmeticType op t u l r) := by
  unfold arithmeticType
  grind

@[grind ←] theorem known_pointerType (op : BinaryOp) (ht : Known n t) (hu : Known n u) :
    Known n (pointerType op t u) := by
  unfold pointerType
  grind

/-- The type of an operator names what its operands name. -/
@[grind ←] theorem known_nativeBinaryType (op : BinaryOp) (ht : Known n t) (hu : Known n u) :
    Known n (nativeBinaryType op t u) := by
  unfold nativeBinaryType
  grind

/-! ### Inference -/

instance : NamesClasses WrittenArgument := ⟨(·.ty.classIds)⟩

theorem known_inferGenerics {generics : List String} {arguments : List WrittenArgument}
    {types : List Ty} (h : Known n arguments) (hok : inferGenerics generics arguments = .ok types) :
    Known n types := by
  have step : ∀ (generics : List String) (index : Nat) (types : List Ty),
      inferGenerics.go arguments index generics = .ok types → Known n types := by
    intro generics
    induction generics with
    | nil =>
      intro index types h
      cases h
      exact known_nil
    | cons g rest ih =>
      intro index types hgo
      unfold inferGenerics.go at hgo
      split at hgo
      · cases hgo
      · rename_i ty hty
        split at hgo
        · rename_i tys htys
          cases hgo
          obtain ⟨a, ha, rfl⟩ := Option.map_eq_some_iff.1 hty
          have hmem : Known n a := h.mem (List.mem_of_find?_eq_some ha)
          exact (known_cons _ _).2 ⟨known_inferred hmem, ih _ _ htys⟩
        · cases hgo
  exact step generics 0 types hok

end Types

end SemanticAnalysis
