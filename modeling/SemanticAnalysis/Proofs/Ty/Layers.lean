import Mathlib.Data.List.Basic
import Mathlib.Data.List.Induction
import SemanticAnalysis.Proofs.Ty.Parts
import SemanticAnalysis.Proofs.Ty.Unions
import SemanticAnalysis.Ty.Layers

/-!
# Operations on layers

An operation on layers leaves the kind of a type alone and, if no layer of the type is empty, makes no
empty one (`Ty.Normal`). So a type has no empty layer, at any depth, however it was built from the
constructors and the operations (`Ty.Built`).

1. What each operation does to the kind, to the outermost layer and to a stack without empty layers.
2. Layers written around a type compose with those that it has (`qualified_eq`). Composition is
   associative (`composeLayers_assoc`), and so types may be written in steps (`qualified_qualified`).
3. **`layers_stay_normal`**: the stack of a built type is normal at every depth, and what `point` and
   `reference` put on can be taken off again.
-/

namespace SemanticAnalysis

/-- A layer that joins another one takes no flag from it. -/
theorem Modifier.isEmpty_join {m : Modifier} (h : m.isEmpty = false) (m' : Modifier) :
    (m.join m').isEmpty = false := by
  rw [← Bool.not_eq_true] at h ⊢
  refine fun hjoin => h ?_
  obtain ⟨pointer, reference, constant, signed, unsigned, short, long⟩ := m
  simp only [isEmpty, empty, join, beq_iff_eq, mk.injEq, Bool.or_eq_false_iff] at hjoin ⊢
  obtain ⟨⟨hp, -⟩, ⟨hr, -⟩, ⟨hc, -⟩, ⟨hs, -⟩, ⟨hu, -⟩, ⟨hsh, -⟩, ⟨hl, -⟩⟩ := hjoin
  exact ⟨hp, hr, hc, hs, hu, hsh, hl⟩

theorem Modifier.join_assoc (a b c : Modifier) : (a.join b).join c = a.join (b.join c) := by
  simp [join, Bool.or_assoc]

theorem Modifier.isIndirection_join (m m' : Modifier) :
    (m.join m').isIndirection = (m.isIndirection || m'.isIndirection) := by
  simp only [isIndirection, join]
  ac_rfl

theorem Modifier.isEmpty_of_pointer {m : Modifier} (h : m.pointer = true) : m.isEmpty = false := by
  rw [← Bool.not_eq_true]
  intro hempty
  rw [beq_iff_eq.1 hempty] at h
  cases h

namespace Ty

variable {t u : Ty}

/-! ## The kind stays -/

theorem kind_withLayer (t : Ty) (m : Modifier) : (t.withLayer m).kind = t.kind := by
  unfold withLayer
  split <;> rfl

theorem kind_foldl_withLayer (layers : List Modifier) (t : Ty) :
    (layers.foldl withLayer t).kind = t.kind := by
  induction layers generalizing t with
  | nil => rfl
  | cons m rest ih => rw [List.foldl_cons, ih, kind_withLayer]

theorem kind_qualified (t : Ty) (layers : List Modifier) : (t.qualified layers).kind = t.kind := by
  unfold qualified
  split
  · rfl
  · split
    · exact kind_foldl_withLayer _ t
    · split
      · exact kind_foldl_withLayer _ t
      · exact kind_foldl_withLayer _ _

theorem kind_constify (t : Ty) : t.constify.kind = t.kind := by
  unfold constify
  split <;> rfl

theorem kind_followBlindly (t : Ty) : t.followBlindly.kind = t.kind := by
  unfold followBlindly
  split <;> rfl

theorem kind_of_dereference? (h : t.dereference? = some u) : u.kind = t.kind := by
  unfold dereference? at h
  split at h <;> cases h
  rfl

theorem kind_of_follow? (h : t.follow? = some u) : u.kind = t.kind := by
  unfold follow? at h
  split at h <;> cases h
  rfl

theorem kind_inferred (t : Ty) : t.inferred.kind = t.kind := by
  unfold inferred
  dsimp only
  split <;> rfl

/-! ## The outermost layer -/

theorem mapOutermost_concat (f : Modifier → Modifier) (front : List Modifier) (m : Modifier) :
    mapOutermost f (front ++ [m]) = front ++ [f m] := by
  induction front with
  | nil => rfl
  | cons first rest ih =>
    cases rest with
    | nil => rfl
    | cons second rest =>
      show first :: mapOutermost f (second :: rest ++ [m]) = _
      rw [ih]
      rfl

theorem withoutOuterReferences_concat (kind : Kind Ty) (front : List Modifier) (m : Modifier) :
    (⟨kind, front ++ [m]⟩ : Ty).withoutOuterReferences =
      if m.reference then (⟨kind, front⟩ : Ty).withoutOuterReferences else ⟨kind, front ++ [m]⟩ := by
  unfold withoutOuterReferences
  cases hm : m.reference <;> simp [hm]

theorem isReference_withoutOuterReferences (t : Ty) : t.withoutOuterReferences.isReference = false := by
  obtain ⟨kind, layers⟩ := t
  induction layers using List.reverseRecOn with
  | nil => rfl
  | append_singleton front m ih =>
    rw [withoutOuterReferences_concat]
    split
    · exact ih
    · rename_i hm
      simpa [isReference, outermost] using hm

/-- Only references are taken off. -/
theorem exists_layers_eq_append (t : Ty) :
    ∃ outer, t.layers = t.withoutOuterReferences.layers ++ outer ∧ ∀ m ∈ outer, m.reference = true := by
  obtain ⟨kind, layers⟩ := t
  induction layers using List.reverseRecOn with
  | nil => exact ⟨[], rfl, fun m hm => nomatch hm⟩
  | append_singleton front m ih =>
    rw [withoutOuterReferences_concat]
    split
    · rename_i hm
      obtain ⟨outer, hfront, houter⟩ := ih
      refine ⟨outer ++ [m], ?_, fun l hl => ?_⟩
      · rw [← List.append_assoc, ← hfront]
      · rcases List.mem_append.1 hl with hl | hl
        · exact houter l hl
        · rwa [List.mem_singleton.1 hl]
    · exact ⟨[], (List.append_nil _).symm, fun m hm => nomatch hm⟩

/-! ## No layer becomes empty -/

namespace Normal

theorem mono (h : t.Normal) (hsub : ∀ m ∈ u.layers, m ∈ t.layers) : u.Normal :=
  fun m hm => h m (hsub m hm)

theorem append {kind : Kind Ty} {inner outer : List Modifier} (h : (⟨kind, inner⟩ : Ty).Normal)
    (h' : ∀ m ∈ outer, m.isEmpty = false) : (⟨kind, inner ++ outer⟩ : Ty).Normal :=
  fun m hm => (List.mem_append.1 hm).elim (h m) (h' m)

theorem withLayer (h : t.Normal) (m : Modifier) : (t.withLayer m).Normal := by
  unfold Ty.withLayer
  split
  · exact h
  · rename_i hm
    exact h.append fun l hl => by rw [List.mem_singleton.1 hl, Bool.eq_false_iff]; exact hm

theorem foldl_withLayer (h : t.Normal) (layers : List Modifier) :
    (layers.foldl Ty.withLayer t).Normal := by
  induction layers generalizing t with
  | nil => exact h
  | cons m rest ih => exact ih (h.withLayer m)

theorem qualified (h : t.Normal) (layers : List Modifier) : (t.qualified layers).Normal := by
  unfold Ty.qualified
  split
  · exact h
  · rename_i first rest
    split
    · exact h.foldl_withLayer _
    · split
      · exact h.foldl_withLayer _
      · refine foldl_withLayer ?_ rest
        obtain ⟨kind, layers⟩ := t
        rcases List.eq_nil_or_concat' layers with rfl | ⟨front, m, rfl⟩
        · exact h
        · rw [mapOutermost_concat]
          refine append (h.mono fun l hl => List.mem_append_left _ hl) fun l hl => ?_
          rw [List.mem_singleton.1 hl, Modifier.isEmpty_join (h m (by simp))]

/-- Once a layer is taken off, none is empty, so there is nothing to drop. -/
theorem popLayer_eq_make (h : t.Normal) : t.popLayer = make t.kind t.layers.dropLast := by
  unfold make Ty.popLayer
  rw [List.filter_eq_self.2]
  intro m hm
  rw [h m (List.dropLast_subset _ hm)]
  rfl

theorem popLayer (h : t.Normal) : t.popLayer.Normal := by
  rw [h.popLayer_eq_make]
  exact normal_make _ _

theorem constify (t : Ty) : t.constify.Normal := by
  unfold Ty.constify
  split <;> exact normal_make _ _

theorem dereference? (h : t.Normal) (hu : t.dereference? = some u) : u.Normal := by
  unfold Ty.dereference? at hu
  split at hu <;> cases hu
  exact h.popLayer

theorem follow? (h : t.Normal) (hu : t.follow? = some u) : u.Normal := by
  unfold Ty.follow? at hu
  split at hu <;> cases hu
  exact h.popLayer

theorem followBlindly (h : t.Normal) : t.followBlindly.Normal := by
  unfold Ty.followBlindly
  split
  · exact h.popLayer
  · exact h

theorem withoutOuterReferences (h : t.Normal) : t.withoutOuterReferences.Normal := by
  obtain ⟨outer, houter, -⟩ := exists_layers_eq_append t
  exact h.mono fun m hm => houter ▸ List.mem_append_left outer hm

end Normal

/-! ## References destroyed -/

theorem reference_of_mem_destroyReferences {m : Modifier} (h : m ∈ t.destroyReferences.layers) :
    m.reference = false := by
  obtain ⟨m', -, hm'⟩ := List.mem_filterMap.1 (List.mem_filter.1 h).1
  split at hm'
  · cases hm'
  · cases hm'
    rfl

theorem referenceLevel_destroyReferences (t : Ty) : t.destroyReferences.referenceLevel = 0 := by
  unfold referenceLevel
  rw [List.countP_eq_zero]
  intro m hm
  rw [reference_of_mem_destroyReferences hm]
  decide

theorem pointerLevel_destroyReferences (t : Ty) : t.destroyReferences.pointerLevel = t.pointerLevel := by
  unfold destroyReferences pointerLevel make
  rw [List.countP_filter, List.countP_filterMap]
  refine List.countP_congr fun m _ => ?_
  cases hp : m.pointer <;> cases hr : m.reference <;> simp [Modifier.isEmpty_of_pointer]

/-- Without a reference there is nothing to destroy. -/
theorem destroyReferences_eq_self (h : t.Normal) (hno : ∀ m ∈ t.layers, m.reference = false) :
    t.destroyReferences = t := by
  obtain ⟨kind, layers⟩ := t
  have hkept : ∀ m ∈ layers, (if m.reference && !m.pointer then none
      else some { m with reference := false }) = some m := by
    intro m hm
    obtain ⟨pointer, reference, rest⟩ := m
    cases hno _ hm
    rfl
  unfold destroyReferences make
  rw [List.filterMap_congr hkept, List.filterMap_some, List.filter_eq_self.2]
  intro m hm
  rw [h m hm]
  rfl

theorem destroyReferences_destroyReferences (t : Ty) :
    t.destroyReferences.destroyReferences = t.destroyReferences :=
  destroyReferences_eq_self (normal_make _ _) fun _ => reference_of_mem_destroyReferences

/-! ## There and back -/

section

variable {m : Modifier} (hm : m.isEmpty = false)

include hm

theorem popLayer_withLayer : (t.withLayer m).popLayer = t := by
  obtain ⟨kind, layers⟩ := t
  simp [withLayer, hm, popLayer]

theorem outermost_withLayer : (t.withLayer m).outermost = m := by
  simp [withLayer, hm, outermost]

end

theorem follow?_point (t : Ty) : t.point.follow? = some t := by
  unfold follow? isPointer point
  rw [outermost_withLayer rfl, popLayer_withLayer rfl]
  rfl

theorem dereference?_reference (t : Ty) : t.reference.dereference? = some t := by
  unfold dereference? isReference reference
  rw [outermost_withLayer rfl, popLayer_withLayer rfl]
  rfl

/-! ## Layers around layers -/

/-- Layers `outer` written around what is written with layers `inner`. A first outer layer that is no
indirection joins the last inner one, if there is one. -/
def composeLayers (inner outer : List Modifier) : List Modifier :=
  match inner.getLast?, outer with
  | some last, first :: rest =>
    if first.isIndirection then inner ++ outer else inner.dropLast ++ last.join first :: rest
  | _, _ => inner ++ outer

section Compose

variable {inner front outer rest : List Modifier} {last first : Modifier}

@[simp] theorem composeLayers_nil_left (outer : List Modifier) : composeLayers [] outer = outer := rfl

@[simp] theorem composeLayers_nil_right (inner : List Modifier) : composeLayers inner [] = inner := by
  unfold composeLayers
  cases inner.getLast? <;> simp

theorem composeLayers_indirection (h : first.isIndirection = true) :
    composeLayers inner (first :: rest) = inner ++ first :: rest := by
  unfold composeLayers
  cases inner.getLast? <;> simp [h]

theorem composeLayers_qualifier (h : first.isIndirection = false) :
    composeLayers (front ++ [last]) (first :: rest) = front ++ last.join first :: rest := by
  simp [composeLayers, h]

/-- What follows the first outer layer is written as it is. -/
theorem composeLayers_cons_append (inner : List Modifier) (first : Modifier) (rest more : List Modifier) :
    composeLayers inner (first :: rest ++ more) = composeLayers inner (first :: rest) ++ more := by
  rw [List.cons_append]
  cases h : first.isIndirection with
  | true => simp [composeLayers_indirection h]
  | false =>
    rcases List.eq_nil_or_concat' inner with rfl | ⟨front, last, rfl⟩
    · simp
    · simp [composeLayers_qualifier h]

theorem composeLayers_assoc (a b c : List Modifier) :
    composeLayers (composeLayers a b) c = composeLayers a (composeLayers b c) := by
  cases c with
  | nil => simp
  | cons q rest =>
    cases hq : q.isIndirection with
    | true =>
      -- an indirection goes behind everything
      rw [composeLayers_indirection hq, composeLayers_indirection hq]
      cases b with
      | nil => rw [composeLayers_nil_right, List.nil_append, composeLayers_indirection hq]
      | cons p b => rw [composeLayers_cons_append]
    | false =>
      -- a qualifier joins the last layer of `b`, which itself may join the last layer of `a`
      rcases List.eq_nil_or_concat' b with rfl | ⟨front, last, rfl⟩
      · simp
      · rw [composeLayers_qualifier hq]
        cases front with
        | cons p front =>
          rw [composeLayers_cons_append, composeLayers_qualifier hq, composeLayers_cons_append]
        | nil =>
          rw [List.nil_append, List.nil_append]
          cases hlast : last.isIndirection with
          | true =>
            have hjoin : (last.join q).isIndirection = true := by
              rw [Modifier.isIndirection_join, hlast, Bool.true_or]
            rw [composeLayers_indirection hlast, composeLayers_qualifier hq,
              composeLayers_indirection hjoin]
          | false =>
            have hjoin : (last.join q).isIndirection = false := by
              rw [Modifier.isIndirection_join, hlast, hq, Bool.false_or]
            rcases List.eq_nil_or_concat' a with rfl | ⟨inner, m, rfl⟩
            · rw [composeLayers_nil_left, composeLayers_nil_left]
              show composeLayers ([] ++ [last]) (q :: rest) = [] ++ last.join q :: rest
              exact composeLayers_qualifier hq
            · rw [composeLayers_qualifier hlast, composeLayers_qualifier hq,
                composeLayers_qualifier hjoin, Modifier.join_assoc]

theorem foldl_withLayer_eq (t : Ty) {layers : List Modifier} (h : ∀ m ∈ layers, m.isEmpty = false) :
    layers.foldl withLayer t = ⟨t.kind, t.layers ++ layers⟩ := by
  induction layers generalizing t with
  | nil =>
    cases t
    rw [List.append_nil, List.foldl_nil]
  | cons m rest ih =>
    have hm : t.withLayer m = ⟨t.kind, t.layers ++ [m]⟩ := by simp [withLayer, h m List.mem_cons_self]
    rw [List.foldl_cons, ih _ fun l hl => h l (List.mem_cons_of_mem m hl), hm, List.append_assoc]
    rfl

/-- Writing layers around a type composes them with those that it has. -/
theorem qualified_eq (t : Ty) {layers : List Modifier} (h : ∀ m ∈ layers, m.isEmpty = false) :
    t.qualified layers = ⟨t.kind, composeLayers t.layers layers⟩ := by
  obtain ⟨kind, inner⟩ := t
  cases layers with
  | nil => rw [composeLayers_nil_right, qualified]
  | cons first rest =>
    have hrest : ∀ m ∈ rest, m.isEmpty = false := fun m hm => h m (List.mem_cons_of_mem first hm)
    unfold qualified
    cases hfirst : first.isIndirection with
    | true =>
      rw [composeLayers_indirection hfirst]
      simp only [hfirst, if_true, foldl_withLayer_eq _ h]
    | false =>
      rcases List.eq_nil_or_concat' inner with rfl | ⟨front, last, rfl⟩
      · simp [foldl_withLayer_eq _ h]
      · rw [composeLayers_qualifier hfirst]
        simp [hfirst, mapOutermost_concat, foldl_withLayer_eq _ hrest]

theorem isEmpty_of_mem_composeLayers {a b : List Modifier} (ha : ∀ m ∈ a, m.isEmpty = false)
    (hb : ∀ m ∈ b, m.isEmpty = false) : ∀ m ∈ composeLayers a b, m.isEmpty = false := by
  have hnormal : (⟨.any, a⟩ : Ty).Normal := ha
  have hqualified := hnormal.qualified b
  rwa [qualified_eq _ hb] at hqualified

theorem qualified_qualified (t : Ty) {a b : List Modifier} (ha : ∀ m ∈ a, m.isEmpty = false)
    (hb : ∀ m ∈ b, m.isEmpty = false) :
    (t.qualified a).qualified b = t.qualified (composeLayers a b) := by
  rw [qualified_eq t ha, qualified_eq _ hb, qualified_eq t (isEmpty_of_mem_composeLayers ha hb),
    composeLayers_assoc]

end Compose

/-! ## Types that can be built -/

/-- What the constructors of types and the operations on layers make, from types that they made. -/
inductive Built : Ty → Prop
  | make {kind : Kind Ty} (layers : List Modifier) (h : ∀ u ∈ kind.parts, Built u) :
    Built (make kind layers)
  | any : Built any
  | null : Built null
  | native (n : Native) : Built (native n)
  | cls (id : ItemId) : Built (cls id)
  | function {sig : Signature Ty} (h : ∀ u ∈ (Kind.function sig).parts, Built u) : Built (function sig)
  | union {ts : List Ty} (h : ∀ u ∈ ts, Built u) : Built (union ts)
  | optional {t : Ty} (h : Built t) : Built (optional t)
  | withLayer {t : Ty} (m : Modifier) (h : Built t) : Built (t.withLayer m)
  | qualified {t : Ty} (layers : List Modifier) (h : Built t) : Built (t.qualified layers)
  | deconstify {t : Ty} (h : Built t) : Built t.deconstify
  | constify {t : Ty} (h : Built t) : Built t.constify
  | reference {t : Ty} (h : Built t) : Built t.reference
  | dereference {t u : Ty} (h : Built t) (hu : t.dereference? = some u) : Built u
  | point {t : Ty} (h : Built t) : Built t.point
  | follow {t u : Ty} (h : Built t) (hu : t.follow? = some u) : Built u
  | followBlindly {t : Ty} (h : Built t) : Built t.followBlindly
  | destroyReferences {t : Ty} (h : Built t) : Built t.destroyReferences
  | withoutOuterReferences {t : Ty} (h : Built t) : Built t.withoutOuterReferences

/-- No layer is empty, neither of the type nor of any type in it. -/
def NormalWithin (t : Ty) : Prop := ∀ u : Ty, u.Within t → u.Normal

theorem normalWithin_iff : t.NormalWithin ↔ t.Normal ∧ ∀ u ∈ t.kind.parts, u.NormalWithin :=
  forall_within_iff

namespace NormalWithin

theorem normal (h : t.NormalWithin) : t.Normal := h t (.self t)

/-- An operation on layers has to look after the outermost stack only. -/
theorem of_kind (h : t.NormalWithin) (hkind : u.kind = t.kind) (hu : u.Normal) : u.NormalWithin := by
  rw [normalWithin_iff, hkind]
  exact ⟨hu, (normalWithin_iff.1 h).2⟩

theorem make {kind : Kind Ty} (h : ∀ u ∈ kind.parts, u.NormalWithin) (layers : List Modifier) :
    (make kind layers).NormalWithin := normalWithin_iff.2 ⟨normal_make kind layers, h⟩

theorem bare {kind : Kind Ty} (h : ∀ u ∈ kind.parts, u.NormalWithin) : (bare kind).NormalWithin :=
  make h []

theorem spread (h : t.NormalWithin) : ∀ u ∈ t.spread, u.NormalWithin := by
  rcases t.bare_union_or_spread with ⟨members, rfl⟩ | ⟨-, hspread⟩
  · exact (normalWithin_iff.1 h).2
  · rw [hspread]
    intro u hu
    rwa [List.mem_singleton.1 hu]

theorem union {ts : List Ty} (h : ∀ t ∈ ts, t.NormalWithin) : (union ts).NormalWithin := by
  have hmembers : ∀ u ∈ distinct (ts.flatMap Ty.spread), u.NormalWithin := by
    intro u hu
    obtain ⟨t, ht, hspread⟩ := List.mem_flatMap.1 (mem_of_mem_distinct hu)
    exact (h t ht).spread u hspread
  rcases union_cases ts with hsingle | hunion
  · exact hmembers _ (hsingle ▸ List.mem_cons_self)
  · rw [hunion]
    exact bare hmembers

end NormalWithin

theorem Built.normalWithin (h : Built t) : t.NormalWithin := by
  have hno : ∀ u : Ty, u ∈ ([] : List Ty) → u.NormalWithin := fun u hu => nomatch hu
  induction h with
  | make layers _ ih => exact .make ih layers
  | any => exact .bare hno
  | null => exact normalWithin_iff.2 ⟨by decide, hno⟩
  | native | cls => exact .bare hno
  | function _ ih => exact .bare ih
  | union _ ih => exact .union ih
  | optional _ ih => exact .bare fun u hu => List.mem_singleton.1 hu ▸ ih
  | withLayer m _ ih => exact ih.of_kind (kind_withLayer _ m) (ih.normal.withLayer m)
  | qualified layers _ ih => exact ih.of_kind (kind_qualified _ layers) (ih.normal.qualified layers)
  | deconstify _ ih => exact ih.of_kind rfl (normal_make _ _)
  | constify _ ih => exact ih.of_kind (kind_constify _) (.constify _)
  | reference _ ih => exact ih.of_kind (kind_withLayer _ _) (ih.normal.withLayer _)
  | dereference _ hu ih => exact ih.of_kind (kind_of_dereference? hu) (ih.normal.dereference? hu)
  | point _ ih => exact ih.of_kind (kind_withLayer _ _) (ih.normal.withLayer _)
  | follow _ hu ih => exact ih.of_kind (kind_of_follow? hu) (ih.normal.follow? hu)
  | followBlindly _ ih => exact ih.of_kind (kind_followBlindly _) ih.normal.followBlindly
  | destroyReferences _ ih => exact ih.of_kind rfl (normal_make _ _)
  | withoutOuterReferences _ ih => exact ih.of_kind rfl ih.normal.withoutOuterReferences

/-- **Stacks stay normal and operations undo each other.** However a type was built, neither it nor a type
in it has an empty layer, so a layer that is taken off leaves none behind. What `point` and `reference` put
on can be taken off again; destroying references keeps the pointers and need not be done twice; and reading
through the outer references takes off nothing else. -/
theorem layers_stay_normal {t : Ty} (h : Built t) :
    (∀ u : Ty, u.Within t → u.Normal) ∧
      t.popLayer = make t.kind t.layers.dropLast ∧
      t.point.follow? = some t ∧
      t.reference.dereference? = some t ∧
      t.destroyReferences.referenceLevel = 0 ∧
      t.destroyReferences.pointerLevel = t.pointerLevel ∧
      t.destroyReferences.destroyReferences = t.destroyReferences ∧
      t.withoutOuterReferences.isReference = false ∧
      t.withoutOuterReferences.kind = t.kind ∧
      ∃ outer, t.layers = t.withoutOuterReferences.layers ++ outer ∧ ∀ m ∈ outer, m.reference = true :=
  ⟨h.normalWithin, h.normalWithin.normal.popLayer_eq_make, follow?_point t, dereference?_reference t,
    referenceLevel_destroyReferences t, pointerLevel_destroyReferences t,
    destroyReferences_destroyReferences t, isReference_withoutOuterReferences t, rfl,
    exists_layers_eq_append t⟩

/-- A `const` reference to a pointer to `const`, around a union. -/
def sharedUnion : Ty :=
  ((union [.int, cls ⟨3⟩]).qualified [{ constant := true }, { pointer := true }]).reference.constify

theorem built_sharedUnion : Built sharedUnion := by
  refine .constify (.reference (.qualified _ (.union fun t ht => ?_)))
  rcases List.mem_cons.1 ht with rfl | ht
  · exact .native .int
  · rw [List.mem_singleton.1 ht]
    exact .cls ⟨3⟩

/-- The reference with its `const` goes, and the pointer stays. -/
theorem layers_stay_normal_sharedUnion :
    Built sharedUnion ∧ (∀ u : Ty, u.Within sharedUnion → u.Normal) ∧
      sharedUnion.point.follow? = some sharedUnion ∧
      sharedUnion.destroyReferences.pointerLevel = 1 ∧
      sharedUnion.withoutOuterReferences.layers = [{ constant := true }, { pointer := true }] := by
  obtain ⟨hnormal, -, hfollow, -, -, hpointers, -⟩ := layers_stay_normal built_sharedUnion
  exact ⟨built_sharedUnion, hnormal, hfollow, hpointers.trans (by with_unfolding_all rfl),
    by with_unfolding_all rfl⟩

end Ty

end SemanticAnalysis
