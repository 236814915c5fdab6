import SemanticAnalysis.Proofs.Conversion.Origin

/-!
# Conversions keep `const`

Whoever holds a converted value may write through its indirections, so a conversion may drop `const`
only from a level that is copied. `Ty.Shares` names the other levels of a type, those on which it
refers to something that others see too, and `Ty.Guards` says that a type is `const` on every level
that it shares and that was `const` before.

1. The levels of a type are counted from the base, so binding or reading a reference adds or removes
   the last one (`constnessByLevel_concat`) and moves no other.
2. A conversion without a user cast goes through few rules (`rules_cases`), and each of them passes
   `Aligned` on from the conversion it asks for.
3. **`convert_guards`**: by induction over the depth of the search, every conversion without a user
   cast guards what it converts.
-/

namespace SemanticAnalysis

namespace Ty

/-- A native value, a class or a function, inside any layers. -/
def isPlain (t : Ty) : Bool :=
  match t.kind with
  | .native _ | .cls _ | .function _ => true
  | _ => false

/-- The type is `const` on a level, counted from the base outward. -/
def ConstAt (t : Ty) (level : Nat) : Prop := t.constnessByLevel[level]? = some true

/-- The type leads to something shared on a level: on all but the outermost one, and on that one too
if it is a reference. -/
def Shares (t : Ty) (level : Nat) : Prop :=
  level < t.indirectionLevel ∨ level = t.indirectionLevel ∧ t.isReference = true

/-- What was `const` in `src` is `const` in `dst` on every level that `dst` shares. -/
def Guards (src dst : Ty) : Prop := ∀ level, dst.Shares level → src.ConstAt level → dst.ConstAt level

/-! ## Levels -/

variable {t : Ty}

theorem length_constnessByLevel (t : Ty) : t.constnessByLevel.length = t.indirectionLevel + 1 := by
  unfold constnessByLevel indirectionLevel
  rw [List.length_cons, List.length_map, List.countP_eq_length_filter]

/-- An indirection around a type adds one level to it. -/
theorem constnessByLevel_concat (kind : Kind Ty) (layers : List Modifier) {m : Modifier}
    (hm : m.isIndirection = true) :
    (⟨kind, layers ++ [m]⟩ : Ty).constnessByLevel =
      (⟨kind, layers⟩ : Ty).constnessByLevel ++ [m.constant] := by
  unfold constnessByLevel baseLayer
  cases layers with
  | nil => simp [hm]
  | cons first rest => by_cases hf : first.isIndirection = true <;> simp [hm, hf]

theorem constnessByLevel_reference (t : Ty) :
    t.reference.constnessByLevel = t.constnessByLevel ++ [false] :=
  constnessByLevel_concat t.kind t.layers rfl

/-- A reference has a reference as its last layer. -/
theorem exists_layers_of_isReference (h : t.isReference = true) :
    ∃ layers m, t = ⟨t.kind, layers ++ [m]⟩ ∧ m.reference = true ∧ t.popLayer = ⟨t.kind, layers⟩ := by
  unfold isReference outermost at h
  obtain ⟨kind, layers⟩ := t
  rcases List.eq_nil_or_concat layers with rfl | ⟨front, m, rfl⟩
  · cases h
  · rw [List.concat_eq_append] at h ⊢
    rw [List.getLast?_concat] at h
    exact ⟨front, m, rfl, h, by simp [popLayer]⟩

end Ty

namespace Conversion

open Ty

variable {src dst : Ty}

/-! ## One step of a conversion -/

/-- What a conversion without a user cast leads to: the levels stay aligned at the base. -/
structure Aligned (src dst : Ty) : Prop where
  guards : src.Guards dst
  depth : dst.referenceLevel ≤ src.referenceLevel → dst.indirectionLevel ≤ src.indirectionLevel

/-- Types with the same layers have the same levels. -/
theorem Aligned.of_layers_eq (h : src.layers = dst.layers) : Aligned src dst where
  guards level _ hc := by
    unfold ConstAt constnessByLevel baseLayer at hc ⊢
    rwa [← h]
  depth _ := by
    unfold indirectionLevel
    exact Nat.le_of_eq (by rw [h])

theorem Aligned.of_beq (h : (src == dst) = true) : Aligned src dst := by
  refine .of_layers_eq ?_
  have herase := (beq_iff src dst).1 h
  rw [← layers_erase src, ← layers_erase dst, herase]

/-- A value shares nothing. -/
theorem Aligned.of_isValue (h : dst.isValue = true) : Aligned src dst := by
  have hzero : dst.indirectionLevel = 0 := by simpa [isValue] using h
  refine ⟨fun level hs _ => ?_, fun _ => by omega⟩
  rcases hs with hlt | ⟨-, href⟩
  · omega
  · obtain ⟨layers, m, hdst, hm, -⟩ := exists_layers_of_isReference href
    rw [hdst] at hzero
    simp [indirectionLevel, Modifier.isIndirection, hm] at hzero

/-- Dropping `const`, and the layers that are empty then, leaves as many layers of any other sort. -/
theorem countP_withoutConst {p : Modifier → Bool}
    (hp : ∀ m, (p m.withoutConstant && !m.withoutConstant.isEmpty) = p m) (t : Ty) :
    (withoutConst t).layers.countP p = t.layers.countP p := by
  show List.countP _ (List.filter _ (List.map _ _)) = List.countP _ _
  rw [List.countP_filter, List.countP_map]
  refine List.countP_congr fun m _ => ?_
  simp only [Function.comp_apply, hp]

theorem indirectionLevel_withoutConst (t : Ty) :
    (withoutConst t).indirectionLevel = t.indirectionLevel := by
  refine countP_withoutConst (fun m => ?_) t
  rcases m with ⟨p, r, c, s, u, sh, l⟩
  cases p <;> cases r <;> simp [Modifier.withoutConstant, Modifier.isIndirection,
    Modifier.isEmpty, Modifier.empty]

theorem indirectionLevel_of_withoutConst (h : (withoutConst src == withoutConst dst) = true) :
    dst.indirectionLevel = src.indirectionLevel := by
  rw [← indirectionLevel_withoutConst src, ← indirectionLevel_withoutConst dst,
    ← indirectionLevel_erase (withoutConst src), (beq_iff _ _).1 h, indirectionLevel_erase]

theorem indirectionLevel_of_constAdjusted (h : constAdjusted src dst = true) :
    dst.indirectionLevel = src.indirectionLevel :=
  indirectionLevel_of_withoutConst (Bool.and_eq_true_iff.1 h).1

/-- A permitted difference in `const` drops it from a copied value only. -/
theorem Aligned.of_constAdjusted (h : constAdjusted src dst = true) : Aligned src dst := by
  have hlevel := indirectionLevel_of_constAdjusted h
  refine ⟨fun level hs hc => ?_, fun _ => Nat.le_of_eq hlevel⟩
  have hlt : level < dst.constnessByLevel.length := by
    rw [length_constnessByLevel]
    rcases hs with hlt | ⟨heq, -⟩ <;> omega
  have hall := (Bool.and_eq_true_iff.1 h).2
  rw [List.all_eq_true] at hall
  have hzip : (src.constnessByLevel.zip dst.constnessByLevel)[level]? =
      some (true, dst.constnessByLevel[level]) := by
    rw [List.getElem?_zip_eq_some]
    exact ⟨hc, List.getElem?_eq_getElem hlt⟩
  have hrule := hall ((true, dst.constnessByLevel[level]), level)
    (List.mem_zipIdx_iff_getElem?.2 hzip)
  -- the outermost level is not copied when it is shared
  have hkept : ¬ (level = src.constnessByLevel.length - 1 ∧ dst.isReference = false) := by
    rintro ⟨heq, href⟩
    rw [length_constnessByLevel] at heq
    rcases hs with hlt | ⟨-, href'⟩
    · omega
    · rw [href] at href'
      cases href'
  unfold ConstAt
  rw [List.getElem?_eq_getElem hlt]
  simpa [hkept] using hrule

theorem filter_isIndirection_make (kind : Kind Ty) (layers : List Modifier) :
    (make kind layers).layers.filter (·.isIndirection) = layers.filter (·.isIndirection) := by
  show (layers.filter _).filter _ = _
  rw [List.filter_filter]
  refine List.filter_congr fun m _ => ?_
  rcases m with ⟨p, r, c, s, u, sh, l⟩
  cases p <;> cases r <;> simp [Modifier.isIndirection, Modifier.isEmpty, Modifier.empty]

/-- Dropping empty layers leaves a `const` base where it is. -/
theorem constant_baseLayer_make (kind : Kind Ty) {t : Ty} (h : t.baseLayer.constant = true) :
    (make kind t.layers).baseLayer.constant = true := by
  obtain ⟨kind', layers⟩ := t
  cases layers with
  | nil => cases h
  | cons first rest =>
    simp only [baseLayer] at h
    have hfull : first.isEmpty = false := by
      rcases first with ⟨p, r, c, s, u, sh, l⟩
      cases c
      · split at h <;> cases h
      · simp [Modifier.isEmpty, Modifier.empty]
    simpa [make, baseLayer, hfull] using h

/-- Taking a class for another one leaves the levels alone. -/
theorem Aligned.of_make {kind : Kind Ty} (h : Aligned (make kind src.layers) dst) :
    Aligned src dst := by
  have hfilter := filter_isIndirection_make kind src.layers
  have hrefs : (make kind src.layers).referenceLevel = src.referenceLevel := by
    show List.countP _ (List.filter _ _) = List.countP _ _
    rw [List.countP_filter]
    refine List.countP_congr fun m _ => ?_
    rcases m with ⟨p, r, c, s, u, sh, l⟩
    cases r <;> simp [Modifier.isEmpty, Modifier.empty]
  refine ⟨fun level hs hc => h.guards level hs ?_, fun hle => ?_⟩
  · unfold ConstAt constnessByLevel at hc ⊢
    cases level with
    | zero => simpa using constant_baseLayer_make kind (by simpa using hc)
    | succ level => simpa [hfilter] using hc
  · have hdepth := h.depth (by rw [hrefs]; exact hle)
    unfold indirectionLevel at hdepth ⊢
    rwa [List.countP_eq_length_filter (l := (make kind src.layers).layers), hfilter,
      ← List.countP_eq_length_filter] at hdepth

/-- What holds of a reference to `src` holds of `src`. -/
theorem Aligned.of_reference (h : Aligned src.reference dst)
    (hlt : src.referenceLevel < dst.referenceLevel) : Aligned src dst := by
  refine ⟨fun level hs hc => h.guards level hs ?_, fun hle => absurd hlt (by omega)⟩
  rw [ConstAt, constnessByLevel_reference]
  exact (List.getElem?_append_left (List.getElem?_eq_some_iff.1 hc).1).trans hc

/-- What holds of the value behind a reference holds of the reference: the level that goes is too far
out for `dst`. -/
theorem Aligned.of_popLayer (h : Aligned src.popLayer dst) (href : src.isReference = true)
    (hlt : dst.referenceLevel < src.referenceLevel) : Aligned src dst := by
  obtain ⟨layers, m, hsrc, hm, hpop⟩ := exists_layers_of_isReference href
  rw [hpop] at h
  have hind : m.isIndirection = true := by simp [Modifier.isIndirection, hm]
  have hlevel : src.indirectionLevel = (⟨src.kind, layers⟩ : Ty).indirectionLevel + 1 := by
    rw [hsrc]
    simp [indirectionLevel, hind]
  have hrefs : src.referenceLevel = (⟨src.kind, layers⟩ : Ty).referenceLevel + 1 := by
    rw [hsrc]
    simp [referenceLevel, hm]
  have hdepth := h.depth (by omega)
  refine ⟨fun level hs hc => h.guards level hs ?_, fun _ => by omega⟩
  have hinner : level < (⟨src.kind, layers⟩ : Ty).constnessByLevel.length := by
    rw [length_constnessByLevel]
    rcases hs with hlt | ⟨heq, -⟩ <;> omega
  rw [hsrc, ConstAt, constnessByLevel_concat _ _ hind, List.getElem?_append_left hinner] at hc
  exact hc

/-! ## The rules without user casts -/

section Rules

variable {table : SymbolTable} {search : Ty → Ty → Conversion}

theorem isValue_of_nativeRule {score : Nat} (h : nativeRule src dst = some score) :
    dst.isValue = true := by
  unfold nativeRule at h
  split at h
  · rename_i hvalue _ _
    exact (Bool.and_eq_true_iff.1 hvalue).2
  · cases h

theorem rebased_of_upcastRule {score : Nat} (h : upcastRule table src dst = some score) :
    ∃ kind, (make kind src.layers == dst) = true ∨
      constAdjusted (make kind src.layers) dst = true := by
  unfold upcastRule at h
  split at h
  · rename_i derived base _ _
    split at h
    · cases h
    · split at h
      · cases h
      · simp only at h
        split at h
        · cases h
        · split at h
          · rename_i hfits
            exact ⟨.cls base, by simpa using hfits⟩
          · cases h
  · cases h

theorem isAny_of_isPlain (h : src.isPlain = true) : src.isAny = false := by
  unfold isPlain at h
  unfold isAny
  cases hk : src.kind <;> simp_all

theorem inner?_of_isPlain (h : src.isPlain = true) : src.inner? = none := by
  unfold isPlain at h
  unfold inner?
  cases hk : src.kind <;> simp_all

theorem members?_of_isPlain (h : src.isPlain = true) : src.members? = none := by
  unfold isPlain at h
  unfold members?
  cases hk : src.kind <;> simp_all

/-- The rules by which plain types convert without a user cast. -/
theorem rules_cases (hs : src.isPlain = true) (hd : dst.isPlain = true)
    (h : (rules table search src dst).Direct) :
    constAdjusted src dst = true ∨
      (src.referenceLevel < dst.referenceLevel ∧ (search src.reference dst).Direct) ∨
      (dst.referenceLevel < src.referenceLevel ∧ src.isReference = true ∧
        (search src.popLayer dst).Direct) ∨
      dst.isValue = true ∨
      ∃ kind, (make kind src.layers == dst) = true ∨
        constAdjusted (make kind src.layers) dst = true := by
  obtain ⟨hpos, hvia⟩ := h
  have horigin := origin_rules hpos
  generalize (rules table search src dst).via = reported at hvia horigin
  have hsrc := isAny_of_isPlain hs
  have hdst := isAny_of_isPlain hd
  cases horigin with
  | rule h =>
    cases h with
    | wildcard h => simp [isWildcard, hsrc, hdst] at h
    | constant h => exact .inl h
    | null h _ => simp [isNull, hsrc] at h
    | bind _ _ h => exact h.elim
    | read _ _ h => exact h.elim
    | native h => exact .inr (.inr (.inr (.inl (isValue_of_nativeRule h))))
    | upcast h => exact .inr (.inr (.inr (.inr (rebased_of_upcastRule h))))
    | anything h _ _ => simp [hdst] at h
    | inside _ _ _ _ h => exact h.elim
    | wrap _ _ _ h => exact h.elim
    | intoUnion _ _ _ h => exact h.elim
    | outOfUnion _ h _ => simp [members?_of_isPlain hs] at h
    | outward _ _ _ _ _ h => exact h.elim
    | inward _ _ _ _ _ _ h => exact h.elim
  | step h hfinds =>
    cases h with
    | bind hl _ => exact .inr (.inl ⟨hl, hfinds, hvia⟩)
    | read hl hv =>
      unfold dereference? at hv
      split at hv
      · rename_i href
        cases hv
        exact .inr (.inr (.inl ⟨hl, href, hfinds, hvia⟩))
      · cases hv
    | inside _ _ _ h => simp [inner?_of_isPlain hd] at h
    | wrap _ _ h => simp [inner?_of_isPlain hd] at h
    | intoUnion _ h _ => simp [members?_of_isPlain hd] at h
  | outOfUnion _ h _ => simp [members?_of_isPlain hs] at h
  | cast _ => cases hvia

end Rules

/-! ## Search -/

section Search

variable {table : SymbolTable}

/-- A search that finds a conversion without a user cast finds aligned types. -/
theorem aligned_of_search {depth : Nat} {active : List (Ty × Ty)} (hs : src.isPlain = true)
    (hd : dst.isPlain = true) (h : (search table depth active src dst).Direct) :
    Aligned src dst := by
  induction depth generalizing active src with
  | zero =>
    rw [search] at h
    by_cases hsame : (src == dst) = true
    · exact .of_beq hsame
    · rw [if_neg hsame] at h
      exact absurd h.1 (by simp)
  | succ depth ih =>
    rw [search] at h
    by_cases hsame : (src == dst) = true
    · exact .of_beq hsame
    simp only [hsame, Bool.false_eq_true, if_false] at h
    split at h
    · exact absurd h.1 (by simp)
    rcases rules_cases hs hd h with hconst | ⟨hlt, hbound⟩ | ⟨hlt, href, hread⟩ | hvalue |
      ⟨kind, hsame' | hconst⟩
    · exact .of_constAdjusted hconst
    · have haligned : Aligned src.reference dst := ih hs hbound
      exact haligned.of_reference hlt
    · have haligned : Aligned src.popLayer dst := ih hs hread
      exact haligned.of_popLayer href hlt
    · exact .of_isValue hvalue
    · exact .of_make (.of_beq hsame')
    · exact .of_make (.of_constAdjusted hconst)

end Search

end Conversion

/-- **No conversion without a user cast drops `const` behind an indirection.** A plain type that
converts into another one is `const` on no level that the other one shares without being `const`
there. -/
theorem convert_guards (table : SymbolTable) (options : Options) {src dst : Ty}
    (hsrc : src.isPlain = true) (hdst : dst.isPlain = true)
    (hpos : 0 < (convert table options src dst).score)
    (hvia : (convert table options src dst).via = none) : src.Guards dst :=
  (Conversion.aligned_of_search hsrc hdst ⟨Conversion.isPossible_iff.2 hpos, hvia⟩).guards

/-- A pointer to a `const int` binds to a reference to such a pointer, and the `int` stays `const`. -/
theorem convert_guards_pointer :
    let src : Ty := ⟨.native .int, [{ constant := true }, { pointer := true }]⟩
    convert {} {} src src.reference = ⟨63, none⟩ ∧ src.reference.Shares 0 ∧ src.ConstAt 0 ∧
      src.reference.ConstAt 0 := by
  intro src
  have hrun : convert {} {} src src.reference = ⟨63, none⟩ := by decide +kernel
  have hguards : src.Guards src.reference := by
    refine convert_guards {} {} rfl rfl ?_ ?_ <;> rw [hrun]
    decide
  have hshares : src.reference.Shares 0 := .inl (by decide)
  exact ⟨hrun, hshares, rfl, hguards 0 hshares rfl⟩

end SemanticAnalysis
