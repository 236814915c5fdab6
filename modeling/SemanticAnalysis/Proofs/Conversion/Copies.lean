import Mathlib.Data.List.Basic
import SemanticAnalysis.Proofs.Conversion.Constness
import SemanticAnalysis.Proofs.Ty.Layers

/-!
# The `const` of a copied value

Unless the destination is a reference, a value is copied into it, and whether the copy is `const` says
nothing about what may be copied. `SameCopy` relates two such destinations. They accept the same types,
with two provisos: two types that are the same need no step, but one of them does if the `const` of its
copy changes, so a level is added to the depth; and `any` is a wildcard without `const` alone.

1. `SameCopy` is an equivalence (`SameCopy.symm`, `SameCopy.trans`), and no rule but those for `any`
   tells the two destinations apart (`SameCopy.constAdjusted_eq`, `SameCopy.derives`).
2. `constify` and `deconstify` change the copy alone, if the layers of the type are written as usual:
   qualifiers of the base first, and then indirections (`sameCopy_constify`, `sameCopy_deconstify`).
3. **`converts_constify`**: a `const` destination accepts what the one without `const` accepts, except for
   `any`, and the other way round. Neither proviso can go (`const_copy_refused`).
-/

namespace SemanticAnalysis

namespace Conversion

open Ty

/-! ## Permitted differences in `const` -/

variable {src dst : Ty}

/-- A difference in `const` is permitted iff the destination guards what is converted. -/
theorem constAdjusted_iff_guards :
    constAdjusted src dst = true ↔
      (withoutConst src == withoutConst dst) = true ∧ src.Guards dst := by
  refine ⟨fun h => ⟨(Bool.and_eq_true_iff.1 h).1, (Aligned.of_constAdjusted h).guards⟩, ?_⟩
  rintro ⟨hsame, hguards⟩
  have hdepth := indirectionLevel_of_withoutConst hsame
  refine Bool.and_eq_true_iff.2 ⟨hsame, List.all_eq_true.2 fun ⟨⟨was, is⟩, level⟩ hmem => ?_⟩
  obtain ⟨hwas, his⟩ := List.getElem?_zip_eq_some.1 (List.mem_zipIdx_iff_getElem?.1 hmem)
  have hlevel : level < dst.indirectionLevel + 1 := by
    rw [← length_constnessByLevel]
    exact (List.getElem?_eq_some_iff.1 his).1
  rw [length_constnessByLevel, Nat.add_sub_cancel, ← hdepth]
  -- a dropped `const` is on a level that `dst` does not share
  by_cases hdropped : was = true ∧ is = false
  · obtain ⟨rfl, rfl⟩ := hdropped
    have hnot : ¬ dst.Shares level := fun hshares => by
      cases his.symm.trans (hguards level hshares hwas)
    unfold Shares at hnot
    have heq : level = dst.indirectionLevel := by omega
    simpa [heq] using hnot
  · cases was <;> cases is <;> simp_all

theorem constAdjusted_of_beq (h : (src == dst) = true) : constAdjusted src dst = true := by
  have hself : constAdjusted dst dst = true :=
    constAdjusted_iff_guards.2 ⟨beq_self _, fun _ _ hconst => hconst⟩
  rwa [constAdjusted_congr ((beq_iff src dst).1 h) rfl]

end Conversion

open Conversion

namespace Ty

/-! ## Destinations of a copy -/

/-- Two types of destinations that differ in the `const` of the copied value only. -/
structure SameCopy (t u : Ty) : Prop where
  stripped : withoutConst t = withoutConst u
  /-- Further in, the two are `const` on the same levels. -/
  inner : t.constnessByLevel.dropLast = u.constnessByLevel.dropLast
  pointer : t.isPointer = u.isPointer
  copied : t.isReference = false ∧ u.isReference = false

theorem referenceLevel_withoutConst (t : Ty) : (withoutConst t).referenceLevel = t.referenceLevel := by
  refine countP_withoutConst (fun m => ?_) t
  rcases m with ⟨p, r, c, s, u, sh, l⟩
  cases r <;> simp [Modifier.withoutConstant, Modifier.isEmpty, Modifier.empty]

theorem pointerLevel_withoutConst (t : Ty) : (withoutConst t).pointerLevel = t.pointerLevel := by
  refine countP_withoutConst (fun m => ?_) t
  rcases m with ⟨p, r, c, s, u, sh, l⟩
  cases p <;> simp [Modifier.withoutConstant, Modifier.isEmpty, Modifier.empty]

/-- Only references are read through. -/
theorem withoutOuterReferences_eq_self {t : Ty} (h : t.isReference = false) :
    t.withoutOuterReferences = t := by
  obtain ⟨kind, layers⟩ := t
  rcases List.eq_nil_or_concat' layers with rfl | ⟨front, m, rfl⟩
  · rfl
  · have hm : m.reference = false := by simpa [isReference, outermost] using h
    simp [withoutOuterReferences, hm]

namespace SameCopy

variable {t u v : Ty}

theorem symm (h : SameCopy t u) : SameCopy u t :=
  ⟨h.stripped.symm, h.inner.symm, h.pointer.symm, h.copied.symm⟩

theorem trans (h : SameCopy t u) (h' : SameCopy u v) : SameCopy t v :=
  ⟨h.stripped.trans h'.stripped, h.inner.trans h'.inner, h.pointer.trans h'.pointer,
    h.copied.1, h'.copied.2⟩

/-! ## What the rules ask of a destination -/

theorem kind_eq (h : SameCopy t u) : t.kind = u.kind := by
  show (withoutConst t).kind = (withoutConst u).kind
  rw [h.stripped]

theorem indirectionLevel_eq (h : SameCopy t u) : t.indirectionLevel = u.indirectionLevel := by
  rw [← indirectionLevel_withoutConst t, h.stripped, indirectionLevel_withoutConst]

theorem referenceLevel_eq (h : SameCopy t u) : t.referenceLevel = u.referenceLevel := by
  rw [← referenceLevel_withoutConst t, h.stripped, referenceLevel_withoutConst]

theorem pointerLevel_eq (h : SameCopy t u) : t.pointerLevel = u.pointerLevel := by
  rw [← pointerLevel_withoutConst t, h.stripped, pointerLevel_withoutConst]

theorem isValue_eq (h : SameCopy t u) : t.isValue = u.isValue := by
  unfold isValue
  rw [h.indirectionLevel_eq]

theorem isAny_eq (h : SameCopy t u) : t.isAny = u.isAny := by
  unfold isAny
  rw [h.kind_eq]

theorem native?_eq (h : SameCopy t u) : t.native? = u.native? := by
  unfold native?
  rw [h.kind_eq]

theorem classId?_eq (h : SameCopy t u) : t.classId? = u.classId? := by
  unfold classId?
  rw [h.kind_eq]

theorem members?_eq (h : SameCopy t u) : t.members? = u.members? := by
  unfold members?
  rw [h.kind_eq]

theorem inner?_eq (h : SameCopy t u) : t.inner? = u.inner? := by
  unfold inner?
  rw [h.kind_eq]

theorem valueClass?_eq (h : SameCopy t u) :
    t.withoutOuterReferences.valueClass? = u.withoutOuterReferences.valueClass? := by
  rw [withoutOuterReferences_eq_self h.copied.1, withoutOuterReferences_eq_self h.copied.2, valueClass?,
    valueClass?, h.isValue_eq, h.classId?_eq]

theorem nativeRule_eq (h : SameCopy t u) (src : Ty) : nativeRule src t = nativeRule src u := by
  unfold nativeRule
  rw [h.isValue_eq, h.native?_eq]

/-- On the levels that both share, both are `const` or neither is. -/
theorem constAt_iff (h : SameCopy t u) {level : Nat} (hlevel : level < t.indirectionLevel) :
    t.ConstAt level ↔ u.ConstAt level := by
  have hinner : ∀ v : Ty, v.indirectionLevel = t.indirectionLevel →
      v.constnessByLevel[level]? = v.constnessByLevel.dropLast[level]? := by
    intro v hv
    rw [List.getElem?_dropLast, if_pos (by rw [length_constnessByLevel]; omega)]
  unfold ConstAt
  rw [hinner t rfl, hinner u h.indirectionLevel_eq.symm, h.inner]

theorem guards_iff (h : SameCopy t u) (src : Ty) : src.Guards t ↔ src.Guards u := by
  have hshares : ∀ v : Ty, v.isReference = false →
      ∀ level, v.Shares level ↔ level < v.indirectionLevel := by
    intro v hv level
    simp [Shares, hv]
  unfold Guards
  simp only [hshares t h.copied.1, hshares u h.copied.2, ← h.indirectionLevel_eq]
  refine forall_congr' fun level => imp_congr_right fun hlevel => imp_congr_right fun _ => ?_
  exact h.constAt_iff hlevel

/-! ## The rules on either destination -/

section Rules

variable {table : SymbolTable} {src : Ty}

theorem constAdjusted_eq (h : SameCopy t u) (src : Ty) :
    constAdjusted src t = constAdjusted src u := by
  rw [Bool.eq_iff_iff, constAdjusted_iff_guards, constAdjusted_iff_guards, h.stripped, h.guards_iff]

theorem constAdjusted_of_same (h : SameCopy t u) (hsame : src.erase = t.erase) :
    constAdjusted src u = true := by
  rw [← h.constAdjusted_eq]
  exact constAdjusted_of_beq ((beq_iff src t).2 hsame)

/-- Being the same is a permitted difference too, so for a rebased class only the latter counts. -/
theorem upcastRule_eq (h : SameCopy t u) (src : Ty) :
    upcastRule table src t = upcastRule table src u := by
  have hfits : ∀ v w : Ty, (v == w || constAdjusted v w) = constAdjusted v w := by
    intro v w
    rw [Bool.or_eq_right_iff_imp]
    exact constAdjusted_of_beq
  unfold upcastRule
  simp only [hfits]
  simp only [h.constAdjusted_eq, h.classId?_eq, h.pointerLevel_eq]

/-- A step to one destination is a step to the other one, as long as `any` counts alike in both. -/
theorem derives (h : SameCopy t u)
    (hany : t.isAny = true → u.isWildcard = true ∨
      t.isWildcard = false ∧ t.layers.length = u.layers.length)
    {p q : Ty → Ty → Prop} (hpq : Covers p q) (hcopy : ∀ x, p x t → q x u)
    (hstep : Derives table p src t) : Derives table q src u := by
  cases hstep with
  | wildcard hwild =>
    rcases hwild with hsrc | hdst
    · exact .wildcard (.inl hsrc)
    · rcases hany (Bool.and_eq_true_iff.1 hdst).1 with hwild | ⟨hnot, -⟩
      · exact .wildcard (.inr hwild)
      · rw [hdst] at hnot
        cases hnot
  | constant hconst => exact .constant (h.constAdjusted_eq src ▸ hconst)
  | null hnull hd =>
    rw [h.pointer, h.isValue_eq, h.inner?_eq] at hd
    exact .null hnull hd
  | bind hl hd _ =>
    rw [h.copied.1] at hd
    cases hd
  | read hl hv hfits => exact .read (h.referenceLevel_eq ▸ hl) hv (hcopy _ hfits)
  | native hn => exact .native (h.nativeRule_eq src ▸ hn)
  | upcast hn => exact .upcast (h.upcastRule_eq src ▸ hn)
  | anything hd hs hl =>
    rcases hany hd with hwild | ⟨-, hlength⟩
    · exact .wildcard (.inr hwild)
    · exact .anything (h.isAny_eq ▸ hd) hs (hl.trans hlength)
  | inside hsv hs hdv hd hfits =>
    exact .inside hsv hs (h.isValue_eq ▸ hdv) (h.inner?_eq ▸ hd) (hpq rfl rfl hfits)
  | wrap hs hdv hd hfits =>
    exact .wrap hs (h.isValue_eq ▸ hdv) (h.inner?_eq ▸ hd) (hpq rfl rfl hfits)
  | intoUnion hdv hd hm hfits =>
    exact .intoUnion (h.isValue_eq ▸ hdv) (h.members?_eq ▸ hd) hm (hpq rfl rfl hfits)
  | outOfUnion hsv hs hfits => exact .outOfUnion hsv hs fun m hm => hcopy m (hfits m hm)
  | outward hs ho hc hcast hf hfits => exact .outward hs ho hc hcast hf (hcopy _ hfits)
  | inward hd hs hc hcast hf hp hfits =>
    exact .inward (h.valueClass?_eq ▸ hd) hs hc hcast hf hp (hpq rfl rfl hfits)

/-- What converts to one destination converts to the other one, one level deeper. -/
theorem finds (h : SameCopy t u)
    (hany : t.isAny = true → u.isWildcard = true ∨
      t.isWildcard = false ∧ t.layers.length = u.layers.length)
    {depth : Nat} (hfinds : Finds (bounded table depth) src t) :
    Finds (bounded table (depth + 1)) src u := by
  induction depth generalizing src with
  | zero =>
    exact finds_bounded_succ.2 (.inr (.constant (h.constAdjusted_of_same (finds_bounded_zero.1 hfinds))))
  | succ depth ih =>
    refine finds_bounded_succ.2 (.inr ?_)
    rcases finds_bounded_succ.1 hfinds with hsame | hstep
    · exact .constant (h.constAdjusted_of_same hsame)
    · exact h.derives hany (bounded_covers table (Nat.le_succ depth)) (fun _ => ih) hstep

end Rules

end SameCopy

/-! ## Adding and dropping the `const` of a copy -/

/-- The qualifiers of the base come first, and every other layer is an indirection. -/
def BaseFirst (t : Ty) : Prop := ∀ m ∈ t.layers.tail, m.isIndirection = true

instance (t : Ty) : Decidable t.BaseFirst :=
  inferInstanceAs (Decidable (∀ m ∈ t.layers.tail, m.isIndirection = true))

section Outermost

variable {kind : Kind Ty} {front : List Modifier} {m m' : Modifier}

theorem front_eq_nil_of_baseFirst (h : (⟨kind, front ++ [m]⟩ : Ty).BaseFirst)
    (hm : m.isIndirection = false) : front = [] := by
  cases front with
  | nil => rfl
  | cons first rest =>
    have hlast := h m (by simp)
    rw [hm] at hlast
    cases hlast

theorem sameCopy_base (kind : Kind Ty) :
    SameCopy ⟨kind, []⟩ ⟨kind, [{ constant := true }]⟩ := ⟨rfl, rfl, rfl, rfl, rfl⟩

/-- Outermost layers that differ in `const` make the same copy. -/
theorem sameCopy_concat (hsame : m.withoutConstant = m'.withoutConstant) (href : m.reference = false)
    (hfront : m.isIndirection = false → front = []) :
    SameCopy ⟨kind, front ++ [m]⟩ ⟨kind, front ++ [m']⟩ := by
  have hpointer : m.pointer = m'.pointer := by
    show m.withoutConstant.pointer = m'.withoutConstant.pointer
    rw [hsame]
  have href' : m'.reference = false := by
    show m'.withoutConstant.reference = false
    rwa [← hsame]
  have hind : m.isIndirection = m'.isIndirection := by
    rw [Modifier.isIndirection, Modifier.isIndirection, hpointer, href, href']
  refine ⟨by simp [withoutConst, hsame], ?_, by simp [isPointer, outermost, hpointer],
    by simp [isReference, outermost, href], by simp [isReference, outermost, href']⟩
  by_cases hm : m.isIndirection = true
  · rw [constnessByLevel_concat kind front hm, constnessByLevel_concat kind front (hind ▸ hm),
      List.dropLast_concat, List.dropLast_concat]
  · rw [Bool.not_eq_true] at hm
    rw [hfront hm]
    simp [constnessByLevel, hm, ← hind]

/-- Layers that are not empty stay when a type is built; the outermost one may have become empty. -/
theorem make_concat (h : (⟨kind, front ++ [m]⟩ : Ty).Normal) (m' : Modifier) :
    make kind (front ++ [m']) = ⟨kind, front ++ if m'.isEmpty then [] else [m']⟩ := by
  have hfront : front.filter (fun l => !l.isEmpty) = front :=
    List.filter_eq_self.2 fun l hl => by rw [h l (List.mem_append_left _ hl)]; rfl
  unfold make
  rw [List.filter_append, hfront]
  cases hm : m'.isEmpty <;> simp [hm]

theorem constify_concat (h : (⟨kind, front ++ [m]⟩ : Ty).Normal) :
    (⟨kind, front ++ [m]⟩ : Ty).constify = ⟨kind, front ++ [m.withConstant]⟩ := by
  have hfull : m.withConstant.isEmpty = false := by
    simp [Modifier.withConstant, Modifier.isEmpty, Modifier.empty]
  unfold constify
  rw [if_neg (by simp)]
  dsimp only
  rw [mapOutermost_concat, make_concat h, hfull]
  rfl

theorem deconstify_concat (h : (⟨kind, front ++ [m]⟩ : Ty).Normal) :
    (⟨kind, front ++ [m]⟩ : Ty).deconstify =
      ⟨kind, front ++ if m.withoutConstant.isEmpty then [] else [m.withoutConstant]⟩ := by
  unfold deconstify
  dsimp only
  rw [mapOutermost_concat, make_concat h]

/-- A layer with `const` alone. -/
theorem eq_constant_of_isEmpty_withoutConstant (h : m.isEmpty = false)
    (hempty : m.withoutConstant.isEmpty = true) : m = { constant := true } := by
  obtain ⟨p, r, c, s, u, sh, l⟩ := m
  simp only [Modifier.withoutConstant, Modifier.isEmpty, Modifier.empty, beq_iff_eq,
    Modifier.mk.injEq] at hempty
  obtain ⟨rfl, rfl, -, rfl, rfl, rfl, rfl⟩ := hempty
  cases c
  · cases h
  · rfl

end Outermost

section Constify

variable {t : Ty} (hnormal : t.Normal) (hvalue : t.isReference = false) (hbase : t.BaseFirst)
include hnormal

include hvalue hbase in
theorem sameCopy_constify : SameCopy t t.constify := by
  obtain ⟨kind, layers⟩ := t
  rcases List.eq_nil_or_concat' layers with rfl | ⟨front, m, rfl⟩
  · exact sameCopy_base kind
  · rw [constify_concat hnormal]
    have href : m.reference = false := by simpa [isReference, outermost] using hvalue
    exact sameCopy_concat rfl href (front_eq_nil_of_baseFirst hbase)

include hvalue hbase in
theorem sameCopy_deconstify : SameCopy t t.deconstify := by
  obtain ⟨kind, layers⟩ := t
  rcases List.eq_nil_or_concat' layers with rfl | ⟨front, m, rfl⟩
  · exact ⟨rfl, rfl, rfl, rfl, rfl⟩
  · rw [deconstify_concat hnormal]
    have href : m.reference = false := by simpa [isReference, outermost] using hvalue
    split
    · -- nothing is left of the layer, so it qualifies the base
      rename_i hempty
      obtain rfl := eq_constant_of_isEmpty_withoutConstant (hnormal m (by simp)) hempty
      rw [front_eq_nil_of_baseFirst hbase rfl]
      exact (sameCopy_base kind).symm
    · exact sameCopy_concat rfl href (front_eq_nil_of_baseFirst hbase)

/-! ### Layers of `any` -/

/-- With `const`, a type has a layer. -/
theorem length_layers_constify : t.constify.layers.length = max 1 t.layers.length := by
  obtain ⟨kind, layers⟩ := t
  rcases List.eq_nil_or_concat' layers with rfl | ⟨front, m, rfl⟩
  · rfl
  · rw [constify_concat hnormal]
    simp

include hbase in
theorem length_layers_deconstify :
    t.deconstify.layers = [] ∨ t.deconstify.layers.length = max 1 t.layers.length := by
  obtain ⟨kind, layers⟩ := t
  rcases List.eq_nil_or_concat' layers with rfl | ⟨front, m, rfl⟩
  · exact .inl rfl
  · rw [deconstify_concat hnormal]
    split
    · rename_i hempty
      obtain rfl := eq_constant_of_isEmpty_withoutConstant (hnormal m (by simp)) hempty
      rw [front_eq_nil_of_baseFirst hbase rfl]
      exact .inl rfl
    · right
      simp

theorem isWildcard_constify : t.constify.isWildcard = false := by
  have hlength := length_layers_constify hnormal
  have hne : t.constify.layers ≠ [] := List.ne_nil_of_length_pos (by omega)
  simp [isWildcard, hne]

end Constify

end Ty

/-- **The `const` of a copy.** A destination into which a value is copied, with `const` added to it, accepts
what it accepts without, unless it is the wildcard; and with `const` dropped from it, it accepts what it
accepts with `const`. The search takes one level more. -/
theorem converts_constify (table : SymbolTable) (options : Options) {src dst : Ty}
    (hnormal : dst.Normal) (hvalue : dst.isReference = false) (hbase : dst.BaseFirst) :
    let deeper : Options := { options with conversionDepth := options.conversionDepth + 1 }
    (dst.isWildcard = false → converts table options src dst = true →
        converts table deeper src dst.constify = true) ∧
      (converts table options src dst.constify = true →
        converts table deeper src dst.deconstify = true) := by
  intro deeper
  have hconst := Ty.sameCopy_constify hnormal hvalue hbase
  have hplain := hconst.symm.trans (Ty.sameCopy_deconstify hnormal hvalue hbase)
  have hlength := Ty.length_layers_constify hnormal
  refine ⟨fun hwild h => ?_, fun h => ?_⟩
  · refine finds_bounded_iff_converts.1 (hconst.finds (fun hany => .inr ⟨hwild, ?_⟩)
      (finds_bounded_iff_converts.2 h))
    have hne : dst.layers ≠ [] := by simpa [Ty.isWildcard, hany] using hwild
    have hpos := List.length_pos_iff.2 hne
    omega
  · refine finds_bounded_iff_converts.1 (hplain.finds (fun hany => ?_)
      (finds_bounded_iff_converts.2 h))
    rw [hplain.isAny_eq] at hany
    rcases Ty.length_layers_deconstify hnormal hbase with hnil | hlength'
    · exact .inl (by simp [Ty.isWildcard, hany, hnil])
    · exact .inr ⟨Ty.isWildcard_constify hnormal, hlength.trans hlength'.symm⟩

/-- An `int*` that is read through a reference becomes a `const int*`, a `const int* const` as well, and
from that a `const int*` again. -/
theorem converts_constify_pointer :
    let src : Ty := ⟨.native .int, [{ pointer := true }, { reference := true }]⟩
    let dst : Ty := ⟨.native .int, [{ constant := true }, { pointer := true }]⟩
    dst.Normal ∧ dst.isReference = false ∧ dst.BaseFirst ∧ dst.isWildcard = false ∧
      converts {} { conversionDepth := 2 } src dst = true ∧
      converts {} { conversionDepth := 3 } src dst.constify = true ∧
      converts {} { conversionDepth := 4 } src dst.deconstify = true := by
  intro src dst
  have hnormal : dst.Normal := by decide
  have hbase : dst.BaseFirst := by decide
  have hplain : converts {} { conversionDepth := 2 } src dst = true := by decide +kernel
  have hconst : converts {} { conversionDepth := 3 } src dst.constify = true :=
    (converts_constify {} { conversionDepth := 2 } hnormal rfl hbase).1 rfl hplain
  exact ⟨hnormal, rfl, hbase, rfl, hplain, hconst,
    (converts_constify {} { conversionDepth := 3 } hnormal rfl hbase).2 hconst⟩

/-- The wildcard with `const` is no wildcard and refuses an `int`. And where an `int` is found at the very
end of the search, a `const int` is out of reach, as an `int` is where a `const int` is found. -/
theorem const_copy_refused :
    let shallow : Options := { conversionDepth := 1 }
    (converts {} {} .int .any = true ∧ converts {} {} .int Ty.any.constify = false) ∧
      (converts {} shallow Ty.int.reference .int = true ∧
        converts {} shallow Ty.int.reference Ty.int.constify = false) ∧
      converts {} shallow Ty.int.constify.reference Ty.int.constify = true ∧
        converts {} shallow Ty.int.constify.reference Ty.int.deconstify = false := by
  decide +kernel

end SemanticAnalysis
