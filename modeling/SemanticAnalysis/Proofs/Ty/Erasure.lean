import SemanticAnalysis.Ty.Layers

/-!
# Questions that do not see parameter names

Two types are the same when they are equal after `Ty.erase`. Every question about the kind and the
layers of a type has the same answer before and after erasing, and every operation on the layers
commutes with erasing, so what is computed from them is the same for types that are the same.
-/

namespace SemanticAnalysis.Ty

variable (t : Ty)

/-- A question that erasing does not change has one answer for types that are the same. -/
theorem eq_of_erase {α : Type} {f : Ty → α} (hf : ∀ t, f t.erase = f t) {a b : Ty}
    (h : a.erase = b.erase) : f a = f b := by
  rw [← hf a, h, hf b]

theorem beq_congr {a a' b b' : Ty} (ha : a.erase = a'.erase) (hb : b.erase = b'.erase) :
    (a == b) = (a' == b') := by
  rw [Bool.eq_iff_iff, beq_iff, beq_iff, ha, hb]

theorem params_beq_iff (ps qs : List (Parameter Ty)) :
    (ps == qs) = true ↔ eraseParams ps = eraseParams qs := by
  induction ps generalizing qs with
  | nil => cases qs <;> simp [eraseParams]
  | cons p ps ih =>
    cases qs with
    | nil => simp [eraseParams]
    | cons q qs =>
      have hhead : (p == q) = true ↔ eraseParam p = eraseParam q := sameParam_iff p q
      simp [eraseParams, hhead, ih]

/-! ## Kind -/

@[simp] theorem layers_erase : t.erase.layers = t.layers := by
  cases t; rw [erase]

@[simp] theorem kind_erase : t.erase.kind = eraseKind t.kind := by
  cases t; rw [erase]

theorem eraseList_eq_map : ∀ ts : List Ty, eraseList ts = ts.map erase
  | [] => by rw [eraseList, List.map_nil]
  | t :: ts => by rw [eraseList, List.map_cons, eraseList_eq_map ts]

@[simp] theorem isAny_erase : t.erase.isAny = t.isAny := by
  unfold isAny
  rw [kind_erase]
  cases t.kind <;> rfl

@[simp] theorem native?_erase : t.erase.native? = t.native? := by
  unfold native?
  rw [kind_erase]
  cases t.kind <;> rfl

@[simp] theorem classId?_erase : t.erase.classId? = t.classId? := by
  unfold classId?
  rw [kind_erase]
  cases t.kind <;> rfl

@[simp] theorem inner?_erase : t.erase.inner? = t.inner?.map erase := by
  unfold inner?
  rw [kind_erase]
  cases t.kind <;> rfl

@[simp] theorem members?_erase : t.erase.members? = t.members?.map (·.map erase) := by
  unfold members?
  rw [kind_erase]
  cases hk : t.kind <;> simp [eraseKind, eraseList_eq_map]

@[simp] theorem isWildcard_erase : t.erase.isWildcard = t.isWildcard := by
  simp [isWildcard]

@[simp] theorem isNull_erase : t.erase.isNull = t.isNull := by
  simp [isNull]

/-- Optionals that are the same hold types that are the same. -/
theorem exists_inner?_of_erase {a b held : Ty} (h : a.erase = b.erase) (ha : a.inner? = some held) :
    ∃ held', b.inner? = some held' ∧ held.erase = held'.erase := by
  have hmap : b.inner?.map erase = some held.erase := by
    rw [← inner?_erase, ← h, inner?_erase, ha, Option.map_some]
  obtain ⟨held', hb, heq⟩ := Option.map_eq_some_iff.1 hmap
  exact ⟨held', hb, heq.symm⟩

theorem isSome_inner?_of_erase {a b : Ty} (h : a.erase = b.erase) :
    a.inner?.isSome = b.inner?.isSome := by
  rw [← Option.isSome_map (f := erase), ← inner?_erase, h, inner?_erase, Option.isSome_map]

/-- Unions that are the same have members that are the same, one by one. -/
theorem exists_members?_of_erase {a b : Ty} {members : List Ty} (h : a.erase = b.erase)
    (ha : a.members? = some members) :
    ∃ members', b.members? = some members' ∧ members.map erase = members'.map erase := by
  have hmap : b.members?.map (·.map erase) = some (members.map erase) := by
    rw [← members?_erase, ← h, members?_erase, ha, Option.map_some]
  obtain ⟨members', hb, heq⟩ := Option.map_eq_some_iff.1 hmap
  exact ⟨members', hb, heq.symm⟩

theorem exists_mem_of_map_erase {as bs : List Ty} (h : as.map erase = bs.map erase) {a : Ty}
    (ha : a ∈ as) : ∃ b ∈ bs, a.erase = b.erase := by
  have hmem : a.erase ∈ bs.map erase := h ▸ List.mem_map_of_mem ha
  obtain ⟨b, hb, heq⟩ := List.mem_map.1 hmem
  exact ⟨b, hb, heq.symm⟩

/-! ## Layers -/

@[simp] theorem baseLayer_erase : t.erase.baseLayer = t.baseLayer := by
  simp [baseLayer]

@[simp] theorem outermost_erase : t.erase.outermost = t.outermost := by
  simp [outermost]

@[simp] theorem indirectionLevel_erase : t.erase.indirectionLevel = t.indirectionLevel := by
  simp [indirectionLevel]

@[simp] theorem referenceLevel_erase : t.erase.referenceLevel = t.referenceLevel := by
  simp [referenceLevel]

@[simp] theorem pointerLevel_erase : t.erase.pointerLevel = t.pointerLevel := by
  simp [pointerLevel]

@[simp] theorem isReference_erase : t.erase.isReference = t.isReference := by
  simp [isReference]

@[simp] theorem isPointer_erase : t.erase.isPointer = t.isPointer := by
  simp [isPointer]

@[simp] theorem isValue_erase : t.erase.isValue = t.isValue := by
  simp [isValue]

@[simp] theorem constnessByLevel_erase : t.erase.constnessByLevel = t.constnessByLevel := by
  simp [constnessByLevel]

@[simp] theorem valueClass?_erase : t.erase.valueClass? = t.valueClass? := by
  simp [valueClass?]

/-! ## Operations -/

theorem erase_mk (kind : Kind Ty) (layers : List Modifier) :
    (⟨kind, layers⟩ : Ty).erase = ⟨eraseKind kind, layers⟩ := by
  rw [erase]

theorem erase_make (kind : Kind Ty) (layers : List Modifier) :
    (make kind layers).erase = make (eraseKind kind) layers := by
  unfold make
  rw [erase_mk]

theorem erase_reference : t.reference.erase = t.erase.reference := by
  unfold reference withLayer
  split <;> simp [erase_mk]

theorem dereference?_erase : t.erase.dereference? = t.dereference?.map erase := by
  unfold dereference? popLayer
  rw [isReference_erase]
  split <;> simp [erase_mk]

theorem exists_dereference?_of_erase {a b value : Ty} (h : a.erase = b.erase)
    (ha : a.dereference? = some value) :
    ∃ value', b.dereference? = some value' ∧ value.erase = value'.erase := by
  have hmap : b.dereference?.map erase = some value.erase := by
    rw [← dereference?_erase, ← h, dereference?_erase, ha, Option.map_some]
  obtain ⟨value', hb, heq⟩ := Option.map_eq_some_iff.1 hmap
  exact ⟨value', hb, heq.symm⟩

theorem erase_withoutOuterReferences :
    t.withoutOuterReferences.erase = t.erase.withoutOuterReferences := by
  unfold withoutOuterReferences
  simp [erase_mk]

theorem erase_deconstify : t.deconstify.erase = t.erase.deconstify := by
  unfold deconstify
  simp [erase_make]

/-! ## Lists of types -/

theorem contains_congr {types : List Ty} {a b : Ty} (h : a.erase = b.erase) :
    types.contains a = types.contains b := by
  rw [List.contains_eq_any_beq, List.contains_eq_any_beq]
  have hbeq : (fun x : Ty => a == x) = fun x => b == x := funext fun _ => beq_congr h rfl
  rw [hbeq]

theorem contains_foldl_distinct (ts kept : List Ty) (t : Ty) :
    (ts.foldl (fun kept t => if kept.contains t then kept else kept ++ [t]) kept).contains t = true ↔
      kept.contains t = true ∨ ts.contains t = true := by
  induction ts generalizing kept with
  | nil => simp
  | cons u rest ih =>
    rw [List.foldl_cons, ih, List.contains_cons, Bool.or_eq_true]
    split
    · rename_i hknown
      constructor
      · rintro (h | h)
        · exact .inl h
        · exact .inr (.inr h)
      · rintro (h | h | h)
        · exact .inl h
        · rw [contains_congr ((beq_iff _ _).1 h)]
          exact .inl hknown
        · exact .inr h
    · rw [List.contains_eq_any_beq (l := kept ++ [u]), List.any_append, Bool.or_eq_true,
        ← List.contains_eq_any_beq]
      simp [or_assoc]

/-- Dropping repeated types loses none. -/
theorem contains_distinct (ts : List Ty) (t : Ty) : (distinct ts).contains t = ts.contains t := by
  unfold distinct
  rw [Bool.eq_iff_iff, contains_foldl_distinct]
  simp

end SemanticAnalysis.Ty
