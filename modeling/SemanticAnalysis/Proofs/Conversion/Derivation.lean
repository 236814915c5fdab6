import Mathlib.Logic.Basic
import SemanticAnalysis.Conversion
import SemanticAnalysis.Proofs.Ty.Erasure

/-!
# The rules of conversion as a relation

Scores aside, the rules say from which conversions another one follows. `Derives` states this as a
relation, and `rules_isPossible_iff` says that the rules succeed exactly when it holds of what the
search they ask finds. The relation is monotone (`Derives.mono`): more conversions to build on never
take one away, and types that are the same convert alike.

1. Each choice of a best or worst conversion is possible iff some or all of its parts are
   (`bestOf_isPossible`, `everyMember_isPossible`, `bestCast_isSome`).
2. Each rule is possible iff its own steps are (`referenceRule_isPossible_iff`,
   `wrapperRule_isPossible_iff`, `castRule_isPossible_iff`).
3. The rules are tried one after the other, so they succeed iff one of them does.
-/

namespace SemanticAnalysis.Conversion

/-! ## Scores -/

theorem isPossible_iff {c : Conversion} : c.isPossible = true ↔ 0 < c.score := by
  simp [isPossible]

@[simp] theorem impossible_isPossible : impossible.isPossible = false := rfl

@[simp] theorem isPossible_ofScore (n : Nat) : (ofScore n).isPossible = decide (0 < n) := rfl

@[simp] theorem isPossible_loosened (c : Conversion) : c.loosened.isPossible = true := by
  rw [isPossible_iff]
  show 0 < max (c.score - 1) 1
  omega

@[simp] theorem isPossible_cappedAt (c : Conversion) {limit : Nat} (h : 0 < limit) :
    (c.cappedAt limit).isPossible = c.isPossible := by
  rw [Bool.eq_iff_iff, isPossible_iff, isPossible_iff]
  show 0 < min c.score limit ↔ 0 < c.score
  omega

@[simp] theorem isPossible_better (a b : Conversion) :
    (better a b).isPossible = (a.isPossible || b.isPossible) := by
  rw [Bool.eq_iff_iff, Bool.or_eq_true, isPossible_iff, isPossible_iff, isPossible_iff]
  unfold better
  split <;> omega

/-! ## Choices -/

section Choices

variable (search : Ty → Ty → Conversion)

theorem foldl_better_isPossible (src : Ty) (members : List Ty) (best : Conversion) :
    (members.foldl (fun best member => better best (search src member)) best).isPossible = true ↔
      best.isPossible = true ∨ ∃ m ∈ members, (search src m).isPossible = true := by
  induction members generalizing best with
  | nil => simp
  | cons m rest ih => simp [ih, or_assoc]

theorem bestOf_isPossible (src : Ty) (members : List Ty) :
    (bestOf search src members).isPossible = true ↔
      ∃ m ∈ members, (search src m).isPossible = true := by
  unfold bestOf
  rw [foldl_better_isPossible]
  simp

theorem everyMember_isPossible (dst : Ty) (members : List Ty) {worst : Nat} (h : 0 < worst) :
    (everyMember search dst worst members).isPossible = true ↔
      ∀ m ∈ members, (search m dst).isPossible = true := by
  induction members generalizing worst with
  | nil => simp [everyMember, h]
  | cons m rest ih =>
    rw [everyMember]
    by_cases hm : (search m dst).isPossible = true
    · have hmin : 0 < min worst (search m dst).score := by
        have := isPossible_iff.1 hm
        omega
      simp [hm, ih hmin]
    · simp [hm]

theorem foldl_bestCast_isSome (casts : List (ItemId × Nat)) (best : Option (ItemId × Nat)) :
    (casts.foldl (fun best (cast, score) =>
      match best with
      | none => if 0 < score then some (cast, score) else none
      | some (_, top) => if top < score then some (cast, score) else best) best).isSome = true ↔
      best.isSome = true ∨ ∃ c ∈ casts, 0 < c.2 := by
  induction casts generalizing best with
  | nil => simp
  | cons c rest ih =>
    obtain ⟨cast, score⟩ := c
    rw [List.foldl_cons, ih]
    rcases best with _ | ⟨i, top⟩
    · by_cases hs : 0 < score <;> simp [hs]
    · by_cases ht : top < score <;> simp [ht]

theorem bestCast_isSome (casts : List (ItemId × Nat)) :
    (bestCast casts).isSome = true ↔ ∃ c ∈ casts, 0 < c.2 := by
  unfold bestCast
  rw [Option.isSome_map]
  exact (foldl_bestCast_isSome casts none).trans (by simp)

end Choices

/-! ## Rules without search -/

section Congruence

variable {src src' dst dst' : Ty}

theorem erase_withoutConst (t : Ty) : (withoutConst t).erase = withoutConst t.erase := by
  unfold withoutConst
  simp [Ty.erase_make]

theorem constAdjusted_congr (hs : src.erase = src'.erase) (hd : dst.erase = dst'.erase) :
    constAdjusted src dst = constAdjusted src' dst' := by
  have h : (withoutConst src == withoutConst dst) = (withoutConst src' == withoutConst dst') :=
    Ty.beq_congr (by rw [erase_withoutConst, erase_withoutConst, hs])
      (by rw [erase_withoutConst, erase_withoutConst, hd])
  unfold constAdjusted
  rw [h, Ty.eq_of_erase Ty.constnessByLevel_erase hs, Ty.eq_of_erase Ty.constnessByLevel_erase hd,
    Ty.eq_of_erase Ty.isReference_erase hd]

theorem nativeRule_congr (hs : src.erase = src'.erase) (hd : dst.erase = dst'.erase) :
    nativeRule src dst = nativeRule src' dst' := by
  unfold nativeRule
  rw [Ty.eq_of_erase Ty.isValue_erase hs, Ty.eq_of_erase Ty.isValue_erase hd,
    Ty.eq_of_erase Ty.native?_erase hs, Ty.eq_of_erase Ty.native?_erase hd]

theorem upcastRule_congr (table : SymbolTable) (hs : src.erase = src'.erase)
    (hd : dst.erase = dst'.erase) : upcastRule table src dst = upcastRule table src' dst' := by
  unfold upcastRule
  rw [Ty.eq_of_erase Ty.classId?_erase hs, Ty.eq_of_erase Ty.classId?_erase hd,
    Ty.eq_of_erase Ty.pointerLevel_erase hs, Ty.eq_of_erase Ty.pointerLevel_erase hd,
    Ty.eq_of_erase Ty.layers_erase hs]
  have hbeq : ∀ t : Ty, (t == dst) = (t == dst') := fun _ => Ty.beq_congr rfl hd
  have hconst : ∀ t : Ty, constAdjusted t dst = constAdjusted t dst' :=
    fun _ => constAdjusted_congr rfl hd
  simp only [hbeq, hconst]

/-- The upcast and native rules never give a score of zero. -/
theorem pos_of_nativeRule {n : Nat} (h : nativeRule src dst = some n) : 0 < n := by
  unfold nativeRule at h
  split at h
  · split at h
    · cases h
    · split at h <;> cases h <;> decide
  · cases h

theorem pos_of_upcastRule {table : SymbolTable} {n : Nat} (h : upcastRule table src dst = some n) :
    0 < n := by
  unfold upcastRule at h
  split at h
  · split at h
    · cases h
    · split at h
      · cases h
      · rename_i distance _
        simp only at h
        split at h
        · cases h
        · split at h
          · cases h
            show 0 < 32 - min distance 15
            omega
          · cases h
  · cases h

end Congruence

/-! ## The rules as a relation -/

/-- One step of a conversion from `src` to `dst`, given which conversions `fits` has. A step out of a
union needs one for each member, every other step at most one. -/
inductive Derives (table : SymbolTable) (fits : Ty → Ty → Prop) (src dst : Ty) : Prop
  | wildcard (h : src.isWildcard = true ∨ dst.isWildcard = true)
  | constant (h : constAdjusted src dst = true)
  | null (h : src.isNull = true)
      (hd : dst.isPointer = true ∨ dst.isValue = true ∧ dst.inner?.isSome = true)
  | bind (hl : src.referenceLevel < dst.referenceLevel) (hd : dst.isReference = true)
      (h : fits src.reference dst)
  | read {value : Ty} (hl : dst.referenceLevel < src.referenceLevel)
      (hv : src.dereference? = some value) (h : fits value dst)
  | native {n : Nat} (h : nativeRule src dst = some n)
  | upcast {n : Nat} (h : upcastRule table src dst = some n)
  | anything (hd : dst.isAny = true) (hs : 0 < src.indirectionLevel)
      (hl : src.layers.length = dst.layers.length)
  | inside {held inner : Ty} (hsv : src.isValue = true) (hs : src.inner? = some held)
      (hdv : dst.isValue = true) (hd : dst.inner? = some inner) (h : fits held inner)
  | wrap {inner : Ty} (hs : ¬ (src.isValue = true ∧ src.inner?.isSome = true))
      (hdv : dst.isValue = true) (hd : dst.inner? = some inner) (h : fits src inner)
  | intoUnion {members : List Ty} {m : Ty} (hdv : dst.isValue = true)
      (hd : dst.members? = some members) (hm : m ∈ members) (h : fits src m)
  | outOfUnion {members : List Ty} (hsv : src.isValue = true) (hs : src.members? = some members)
      (h : ∀ m ∈ members, fits m dst)
  | outward {cls owner cast : ItemId} {c : Class} {f : Function}
      (hs : src.withoutOuterReferences.valueClass? = some cls)
      (ho : owner ∈ table.withAncestors cls) (hc : table.class? owner = some c)
      (hcast : cast ∈ c.toCasts) (hf : table.function? cast = some f) (h : fits f.returnType dst)
  | inward {cls cast : ItemId} {c : Class} {f : Function} {p : Parameter Ty}
      (hd : dst.withoutOuterReferences.valueClass? = some cls)
      (hs : src.withoutOuterReferences.classId? ≠ some cls) (hc : table.class? cls = some c)
      (hcast : cast ∈ c.fromCasts) (hf : table.function? cast = some f)
      (hp : f.params.head? = some p) (h : fits src p.ty)

section Rules

variable (table : SymbolTable) (search : Ty → Ty → Conversion) (src dst : Ty)

/-- The conversions that a search finds. -/
def Finds (x y : Ty) : Prop := (search x y).isPossible = true

theorem referenceRule_isPossible_iff :
    (referenceRule search src dst).isPossible = true ↔
      src.referenceLevel < dst.referenceLevel ∧ dst.isReference = true ∧
          Finds search src.reference dst ∨
        dst.referenceLevel < src.referenceLevel ∧
          ∃ value, src.dereference? = some value ∧ Finds search value dst := by
  unfold referenceRule Finds
  by_cases hbind : src.referenceLevel < dst.referenceLevel ∧ dst.isReference = true
  · have hnot : ¬ dst.referenceLevel < src.referenceLevel := by omega
    by_cases h : (search src.reference dst).isPossible = true <;> simp [h, hbind, hnot]
  · have hfirst : (decide (src.referenceLevel < dst.referenceLevel) && dst.isReference) = false := by
      simpa using hbind
    rw [hfirst, if_neg Bool.false_ne_true]
    have hnone : ¬ (src.referenceLevel < dst.referenceLevel ∧ dst.isReference = true ∧
        (search src.reference dst).isPossible = true) := fun h => hbind ⟨h.1, h.2.1⟩
    by_cases hl : dst.referenceLevel < src.referenceLevel
    · rcases hread : src.dereference? with _ | value
      · simp [hl, hnone]
      · by_cases h : (search value dst).isPossible = true <;> simp [h, hl, hnone]
    · simp [hl, hnone]

theorem intoUnionRule_eq_none_iff :
    intoUnionRule search src dst = none ↔
      ¬ ∃ members, dst.isValue = true ∧ dst.members? = some members ∧
        ∃ m ∈ members, Finds search src m := by
  unfold intoUnionRule
  rcases hv : dst.isValue with _ | _
  · simp
  · rcases hm : dst.members? with _ | members
    · simp
    · by_cases h : (bestOf search src members).isPossible = true
      · simpa [h, Finds] using (bestOf_isPossible search src members).1 h
      · simpa [h, Finds] using mt (bestOf_isPossible search src members).2 h

theorem isPossible_of_intoUnionRule {c : Conversion} (h : intoUnionRule search src dst = some c) :
    c.isPossible = true := by
  unfold intoUnionRule at h
  split at h
  · simp only at h
    split at h
    · rename_i hbest
      cases h
      rwa [isPossible_cappedAt _ (by decide)]
    · cases h
  · cases h

theorem outOfUnionRule_isPossible_iff :
    (outOfUnionRule search src dst).isPossible = true ↔
      ∃ members, src.isValue = true ∧ src.members? = some members ∧
        ∀ m ∈ members, Finds search m dst := by
  unfold outOfUnionRule
  rcases hv : src.isValue with _ | _
  · simp
  · rcases hm : src.members? with _ | members
    · simp
    · have hworst : 0 < unionScore := by decide
      simpa [Finds] using everyMember_isPossible search dst members hworst

theorem members?_eq_none_of_inner? {t inner : Ty} (h : t.inner? = some inner) :
    t.members? = none := by
  unfold Ty.inner? at h
  unfold Ty.members?
  cases hk : t.kind <;> simp_all

/-- A destination that is no optional leaves the wrapper rule to unions. -/
theorem wrapperRule_of_union (h : optionalRule search src dst = none) :
    (wrapperRule search src dst).isPossible = true ↔
      (∃ members, dst.isValue = true ∧ dst.members? = some members ∧
          ∃ m ∈ members, Finds search src m) ∨
        ∃ members, src.isValue = true ∧ src.members? = some members ∧
          ∀ m ∈ members, Finds search m dst := by
  unfold wrapperRule
  rw [h]
  rcases hi : intoUnionRule search src dst with _ | c
  · rw [intoUnionRule_eq_none_iff] at hi
    simpa [hi] using outOfUnionRule_isPossible_iff search src dst
  · have hc := isPossible_of_intoUnionRule search src dst hi
    have hsome := mt (intoUnionRule_eq_none_iff search src dst).2 (by simp [hi])
    simpa [hc] using Or.inl (not_not.1 hsome)

variable {src dst} in
theorem optionalRule_of_both {held inner : Ty} (hsv : src.isValue = true)
    (hs : src.inner? = some held) (hdv : dst.isValue = true) (hd : dst.inner? = some inner) :
    optionalRule search src dst =
      some (if (search held inner).isPossible = true then (search held inner).loosened
        else search held inner) := by
  simp [optionalRule, hsv, hs, hdv, hd]

variable {src dst} in
theorem optionalRule_of_value {inner : Ty} (hs : ¬ (src.isValue = true ∧ src.inner?.isSome = true))
    (hdv : dst.isValue = true) (hd : dst.inner? = some inner) :
    optionalRule search src dst =
      if (search src inner).isPossible = true then
        some ((search src inner).cappedAt optionalScore) else none := by
  unfold optionalRule
  rw [hdv, hd]
  rcases hsv : src.isValue with _ | _
  · rfl
  · rcases hi : src.inner? with _ | held
    · rfl
    · simp [hsv, hi] at hs

variable {src dst} in
theorem optionalRule_of_not_optional (hd : ¬ (dst.isValue = true ∧ dst.inner?.isSome = true)) :
    optionalRule search src dst = none := by
  unfold optionalRule
  rcases hdv : dst.isValue with _ | _
  · rfl
  · rcases hi : dst.inner? with _ | inner
    · rfl
    · simp [hdv, hi] at hd

theorem wrapperRule_isPossible_iff :
    (wrapperRule search src dst).isPossible = true ↔
      (∃ held inner, src.isValue = true ∧ src.inner? = some held ∧ dst.isValue = true ∧
          dst.inner? = some inner ∧ Finds search held inner) ∨
        (∃ inner, ¬ (src.isValue = true ∧ src.inner?.isSome = true) ∧ dst.isValue = true ∧
          dst.inner? = some inner ∧ Finds search src inner) ∨
        (∃ members, dst.isValue = true ∧ dst.members? = some members ∧
          ∃ m ∈ members, Finds search src m) ∨
        ∃ members, src.isValue = true ∧ src.members? = some members ∧
          ∀ m ∈ members, Finds search m dst := by
  by_cases hd : dst.isValue = true ∧ dst.inner?.isSome = true
  · obtain ⟨hdv, hsome⟩ := hd
    obtain ⟨inner, hinner⟩ := Option.isSome_iff_exists.1 hsome
    have hnone := members?_eq_none_of_inner? hinner
    by_cases hs : src.isValue = true ∧ src.inner?.isSome = true
    · -- both are optional
      obtain ⟨hsv, hsome'⟩ := hs
      obtain ⟨held, hheld⟩ := Option.isSome_iff_exists.1 hsome'
      have hnone' := members?_eq_none_of_inner? hheld
      unfold wrapperRule
      rw [optionalRule_of_both search hsv hheld hdv hinner]
      by_cases h : (search held inner).isPossible = true <;>
        simp [h, hsv, hdv, hheld, hinner, hnone, hnone', Finds]
    · -- a value is wrapped
      have hopt := optionalRule_of_value search hs hdv hinner
      have hboth : ¬ ∃ held inner, src.isValue = true ∧ src.inner? = some held ∧
          dst.isValue = true ∧ dst.inner? = some inner ∧ Finds search held inner := by
        rintro ⟨held, -, hsv, hheld, -⟩
        exact hs ⟨hsv, by rw [hheld]; rfl⟩
      by_cases h : (search src inner).isPossible = true
      · unfold wrapperRule
        rw [hopt, if_pos h]
        have hcap : ((search src inner).cappedAt optionalScore).isPossible = true := by
          rwa [isPossible_cappedAt _ (by decide)]
        exact iff_of_true hcap (Or.inr (Or.inl ⟨inner, hs, hdv, hinner, h⟩))
      · rw [wrapperRule_of_union search src dst (by rw [hopt, if_neg h])]
        have hwrap : ¬ ∃ inner, ¬ (src.isValue = true ∧ src.inner?.isSome = true) ∧
            dst.isValue = true ∧ dst.inner? = some inner ∧ Finds search src inner := by
          rintro ⟨i, -, -, hi, hf⟩
          obtain rfl : inner = i := by simpa [hinner] using hi
          exact h hf
        simp only [hboth, hwrap, false_or]
  · rw [wrapperRule_of_union search src dst (optionalRule_of_not_optional search hd)]
    have hno : ∀ inner, dst.isValue = true → dst.inner? = some inner → False :=
      fun inner hdv hi => hd ⟨hdv, by rw [hi]; rfl⟩
    constructor
    · exact fun h => Or.inr (Or.inr h)
    · rintro (⟨_, inner, -, -, hdv, hi, -⟩ | ⟨inner, -, hdv, hi, -⟩ | h)
      · exact (hno inner hdv hi).elim
      · exact (hno inner hdv hi).elim
      · exact h

/-! ### Casts -/

theorem outwardCast?_isSome_iff (cls : ItemId) :
    (outwardCast? table search cls dst).isSome = true ↔
      ∃ owner ∈ table.withAncestors cls, ∃ c, table.class? owner = some c ∧
        ∃ cast ∈ c.toCasts, ∃ f, table.function? cast = some f ∧ Finds search f.returnType dst := by
  unfold outwardCast?
  rw [bestCast_isSome]
  constructor
  · rintro ⟨⟨cast, score⟩, hmem, hpos⟩
    obtain ⟨i, hi, hentry⟩ := List.mem_filterMap.1 hmem
    obtain ⟨f, hf, heq⟩ := Option.map_eq_some_iff.1 hentry
    obtain ⟨rfl, rfl⟩ := Prod.mk.injEq .. ▸ heq
    obtain ⟨owner, ho, hcast⟩ := List.mem_flatMap.1 hi
    rcases hc : table.class? owner with _ | c
    · simp [hc] at hcast
    · exact ⟨owner, ho, c, hc, i, by simpa [hc] using hcast, f, hf, isPossible_iff.2 hpos⟩
  · rintro ⟨owner, ho, c, hc, cast, hcast, f, hf, hfinds⟩
    refine ⟨(cast, (search f.returnType dst).score), ?_, isPossible_iff.1 hfinds⟩
    refine List.mem_filterMap.2 ⟨cast, List.mem_flatMap.2 ⟨owner, ho, ?_⟩, ?_⟩
    · simpa [hc] using hcast
    · simp [hf]

theorem inwardCast?_isSome_iff (cls : ItemId) :
    (inwardCast? table search cls src).isSome = true ↔
      ∃ c, table.class? cls = some c ∧ ∃ cast ∈ c.fromCasts, ∃ f, table.function? cast = some f ∧
        ∃ p, f.params.head? = some p ∧ Finds search src p.ty := by
  unfold inwardCast?
  rw [bestCast_isSome]
  constructor
  · rintro ⟨⟨cast, score⟩, hmem, hpos⟩
    obtain ⟨i, hi, hentry⟩ := List.mem_filterMap.1 hmem
    obtain ⟨p, hhead, heq⟩ := Option.map_eq_some_iff.1 hentry
    obtain ⟨f, hf, hp⟩ := Option.bind_eq_some_iff.1 hhead
    obtain ⟨rfl, rfl⟩ := Prod.mk.injEq .. ▸ heq
    rcases hc : table.class? cls with _ | c
    · simp [hc] at hi
    · exact ⟨c, rfl, i, by simpa [hc] using hi, f, hf, p, hp, isPossible_iff.2 hpos⟩
  · rintro ⟨c, hc, cast, hcast, f, hf, p, hp, hfinds⟩
    refine ⟨(cast, (search src p.ty).score), ?_, isPossible_iff.1 hfinds⟩
    refine List.mem_filterMap.2 ⟨cast, ?_, ?_⟩
    · simpa [hc] using hcast
    · simp [hf, hp]

theorem castRule_isPossible_iff :
    (castRule table search src dst).isPossible = true ↔
      (∃ cls, src.withoutOuterReferences.valueClass? = some cls ∧
          (outwardCast? table search cls dst).isSome = true) ∨
        ∃ cls, dst.withoutOuterReferences.valueClass? = some cls ∧
          src.withoutOuterReferences.classId? ≠ some cls ∧
          (inwardCast? table search cls src).isSome = true := by
  unfold castRule
  rcases hout : src.withoutOuterReferences.valueClass?.bind
      (fun c => outwardCast? table search c dst) with _ | cast
  · have hno : ¬ ∃ cls, src.withoutOuterReferences.valueClass? = some cls ∧
        (outwardCast? table search cls dst).isSome = true := by
      rintro ⟨cls, hcls, hsome⟩
      rw [hcls, Option.bind_some] at hout
      simp [hout] at hsome
    simp only [hno, false_or]
    rcases hdst : dst.withoutOuterReferences.valueClass? with _ | cls
    · simp [hout]
    · by_cases hsame : src.withoutOuterReferences.classId? = some cls
      · simp [hout, hsame]
      · rcases hin : inwardCast? table search cls src with _ | cast <;>
          simp [hout, hsame, hin, isPossible_iff, castScore, impossible]
  · obtain ⟨cls, hcls, hcast⟩ := Option.bind_eq_some_iff.1 hout
    have hgoal : (⟨castScore, some cast⟩ : Conversion).isPossible = true := rfl
    exact iff_of_true (by simpa only [hout] using hgoal) (Or.inl ⟨cls, hcls, by rw [hcast]; rfl⟩)

/-! ### All rules -/

/-- The part of the rules that comes last. -/
theorem wrapper_or_cast_isPossible_iff :
    (if (wrapperRule search src dst).isPossible = true then wrapperRule search src dst
      else castRule table search src dst).isPossible = true ↔
      (wrapperRule search src dst).isPossible = true ∨
        (castRule table search src dst).isPossible = true := by
  by_cases h : (wrapperRule search src dst).isPossible = true <;> simp [h]

/-- The rules find a conversion iff one of them does. -/
theorem rules_isPossible_iff_or :
    (rules table search src dst).isPossible = true ↔
      (src.isWildcard = true ∨ dst.isWildcard = true) ∨ constAdjusted src dst = true ∨
        (src.isNull = true ∧
          (dst.isPointer = true ∨ dst.isValue = true ∧ dst.inner?.isSome = true)) ∨
        (referenceRule search src dst).isPossible = true ∨
        (nativeRule src dst).isSome = true ∨ (upcastRule table src dst).isSome = true ∨
        (dst.isAny = true ∧ 0 < src.indirectionLevel ∧ src.layers.length = dst.layers.length) ∨
        (wrapperRule search src dst).isPossible = true ∨
        (castRule table search src dst).isPossible = true := by
  unfold rules
  by_cases hw : src.isWildcard = true ∨ dst.isWildcard = true
  · simp [hw, anyScore]
  by_cases hc : constAdjusted src dst = true
  · simp [hw, hc, constScore]
  by_cases hn : src.isNull = true ∧
      (dst.isPointer = true ∨ dst.isValue = true ∧ dst.inner?.isSome = true)
  · simp [hw, hc, hn, nullScore]
  by_cases hr : (referenceRule search src dst).isPossible = true
  · simp [hw, hc, hn, hr]
  rcases hnat : nativeRule src dst with _ | n
  · rcases hup : upcastRule table src dst with _ | n
    · by_cases ha : dst.isAny = true ∧ 0 < src.indirectionLevel ∧
          src.layers.length = dst.layers.length
      · simp [hw, hc, hn, hr, ha, anyScore]
      · simpa [hw, hc, hn, hr, hup, ha, and_assoc] using
          wrapper_or_cast_isPossible_iff table search src dst
    · simpa [hw, hc, hn, hr, hup] using pos_of_upcastRule hup
  · simpa [hw, hc, hn, hr] using pos_of_nativeRule hnat

/-- **The rules as a relation.** The rules find a conversion iff some step leads to it. -/
theorem rules_isPossible_iff :
    (rules table search src dst).isPossible = true ↔ Derives table (Finds search) src dst := by
  rw [rules_isPossible_iff_or, referenceRule_isPossible_iff, wrapperRule_isPossible_iff,
    castRule_isPossible_iff]
  constructor
  · rintro (h | h | ⟨h, hd⟩ | (⟨hl, hd, h⟩ | ⟨hl, value, hv, h⟩) | h | h | ⟨hd, hs, hl⟩ |
      (⟨held, inner, hsv, hs, hdv, hd, h⟩ | ⟨inner, hs, hdv, hd, h⟩ |
        ⟨members, hdv, hd, m, hm, h⟩ | ⟨members, hsv, hs, h⟩) |
      (⟨cls, hs, h⟩ | ⟨cls, hd, hs, h⟩))
    · exact .wildcard h
    · exact .constant h
    · exact .null h hd
    · exact .bind hl hd h
    · exact .read hl hv h
    · obtain ⟨n, hn⟩ := Option.isSome_iff_exists.1 h
      exact .native hn
    · obtain ⟨n, hn⟩ := Option.isSome_iff_exists.1 h
      exact .upcast hn
    · exact .anything hd hs hl
    · exact .inside hsv hs hdv hd h
    · exact .wrap hs hdv hd h
    · exact .intoUnion hdv hd hm h
    · exact .outOfUnion hsv hs h
    · obtain ⟨owner, ho, c, hc, cast, hcast, f, hf, hfinds⟩ :=
        (outwardCast?_isSome_iff table search dst cls).1 h
      exact .outward hs ho hc hcast hf hfinds
    · obtain ⟨c, hc, cast, hcast, f, hf, p, hp, hfinds⟩ :=
        (inwardCast?_isSome_iff table search src cls).1 h
      exact .inward hd hs hc hcast hf hp hfinds
  · intro h
    cases h with
    | wildcard h => exact .inl h
    | constant h => exact .inr (.inl h)
    | null h hd => exact .inr (.inr (.inl ⟨h, hd⟩))
    | bind hl hd h => exact .inr (.inr (.inr (.inl (.inl ⟨hl, hd, h⟩))))
    | read hl hv h => exact .inr (.inr (.inr (.inl (.inr ⟨hl, _, hv, h⟩))))
    | native h => exact .inr (.inr (.inr (.inr (.inl (by rw [h]; rfl)))))
    | upcast h => exact .inr (.inr (.inr (.inr (.inr (.inl (by rw [h]; rfl))))))
    | anything hd hs hl => simp [hd, hs, hl]
    | inside hsv hs hdv hd h =>
      iterate 7 apply Or.inr
      exact .inl (.inl ⟨_, _, hsv, hs, hdv, hd, h⟩)
    | wrap hs hdv hd h =>
      iterate 7 apply Or.inr
      exact .inl (.inr (.inl ⟨_, hs, hdv, hd, h⟩))
    | intoUnion hdv hd hm h =>
      iterate 7 apply Or.inr
      exact .inl (.inr (.inr (.inl ⟨_, hdv, hd, _, hm, h⟩)))
    | outOfUnion hsv hs h =>
      iterate 7 apply Or.inr
      exact .inl (.inr (.inr (.inr ⟨_, hsv, hs, h⟩)))
    | outward hs ho hc hcast hf h =>
      iterate 8 apply Or.inr
      exact .inl ⟨_, hs, (outwardCast?_isSome_iff table search dst _).2
        ⟨_, ho, _, hc, _, hcast, _, hf, h⟩⟩
    | inward hd hs hc hcast hf hp h =>
      iterate 8 apply Or.inr
      exact .inr ⟨_, hd, hs, (inwardCast?_isSome_iff table search src _).2
        ⟨_, hc, _, hcast, _, hf, _, hp, h⟩⟩

end Rules

/-! ## Monotonicity -/

/-- What one set of conversions has, another has for types that are the same. -/
def Covers (p q : Ty → Ty → Prop) : Prop :=
  ∀ ⦃src src' dst dst' : Ty⦄, src.erase = src'.erase → dst.erase = dst'.erase → p src dst →
    q src' dst'

/-- **Monotonicity.** A step stays a step when there are more conversions to build on, and for types
that are the same. -/
theorem Derives.mono {table : SymbolTable} {p q : Ty → Ty → Prop} (hpq : Covers p q)
    {src src' dst dst' : Ty} (hs : src.erase = src'.erase) (hd : dst.erase = dst'.erase)
    (h : Derives table p src dst) : Derives table q src' dst' := by
  have hslayers := Ty.eq_of_erase Ty.layers_erase hs
  have hdlayers := Ty.eq_of_erase Ty.layers_erase hd
  have hsv := Ty.eq_of_erase Ty.isValue_erase hs
  have hdv := Ty.eq_of_erase Ty.isValue_erase hd
  have houter : ∀ {a b : Ty}, a.erase = b.erase →
      a.withoutOuterReferences.erase = b.withoutOuterReferences.erase := by
    intro a b h
    rw [Ty.erase_withoutOuterReferences, Ty.erase_withoutOuterReferences, h]
  cases h with
  | wildcard h =>
    rw [Ty.eq_of_erase Ty.isWildcard_erase hs, Ty.eq_of_erase Ty.isWildcard_erase hd] at h
    exact .wildcard h
  | constant h => exact .constant (constAdjusted_congr hs hd ▸ h)
  | null h h' =>
    rw [Ty.eq_of_erase Ty.isNull_erase hs] at h
    rw [Ty.eq_of_erase Ty.isPointer_erase hd, hdv, Ty.isSome_inner?_of_erase hd] at h'
    exact .null h h'
  | bind hl hr h =>
    rw [Ty.eq_of_erase Ty.referenceLevel_erase hs, Ty.eq_of_erase Ty.referenceLevel_erase hd] at hl
    rw [Ty.eq_of_erase Ty.isReference_erase hd] at hr
    exact .bind hl hr (hpq (by rw [Ty.erase_reference, Ty.erase_reference, hs]) hd h)
  | read hl hv h =>
    rw [Ty.eq_of_erase Ty.referenceLevel_erase hs, Ty.eq_of_erase Ty.referenceLevel_erase hd] at hl
    obtain ⟨value, hv', heq⟩ := Ty.exists_dereference?_of_erase hs hv
    exact .read hl hv' (hpq heq hd h)
  | native h => exact .native (nativeRule_congr hs hd ▸ h)
  | upcast h => exact .upcast (upcastRule_congr table hs hd ▸ h)
  | anything hany hlevel hlength =>
    rw [Ty.eq_of_erase Ty.isAny_erase hd] at hany
    rw [Ty.eq_of_erase Ty.indirectionLevel_erase hs] at hlevel
    rw [hslayers, hdlayers] at hlength
    exact .anything hany hlevel hlength
  | inside hsv' hheld hdv' hinner h =>
    obtain ⟨held, hheld', hs'⟩ := Ty.exists_inner?_of_erase hs hheld
    obtain ⟨inner, hinner', hd'⟩ := Ty.exists_inner?_of_erase hd hinner
    exact .inside (hsv ▸ hsv') hheld' (hdv ▸ hdv') hinner' (hpq hs' hd' h)
  | wrap hnot hdv' hinner h =>
    rw [hsv, Ty.isSome_inner?_of_erase hs] at hnot
    obtain ⟨inner, hinner', hd'⟩ := Ty.exists_inner?_of_erase hd hinner
    exact .wrap hnot (hdv ▸ hdv') hinner' (hpq hs hd' h)
  | intoUnion hdv' hmembers hm h =>
    obtain ⟨members, hmembers', hmap⟩ := Ty.exists_members?_of_erase hd hmembers
    obtain ⟨m, hm', heq⟩ := Ty.exists_mem_of_map_erase hmap hm
    exact .intoUnion (hdv ▸ hdv') hmembers' hm' (hpq hs heq h)
  | outOfUnion hsv' hmembers h =>
    obtain ⟨members, hmembers', hmap⟩ := Ty.exists_members?_of_erase hs hmembers
    refine .outOfUnion (hsv ▸ hsv') hmembers' fun m hm => ?_
    obtain ⟨m', hm', heq⟩ := Ty.exists_mem_of_map_erase hmap.symm hm
    exact hpq heq.symm hd (h m' hm')
  | outward hcls ho hc hcast hf h =>
    rw [Ty.eq_of_erase Ty.valueClass?_erase (houter hs)] at hcls
    exact .outward hcls ho hc hcast hf (hpq rfl hd h)
  | inward hcls hne hc hcast hf hp h =>
    rw [Ty.eq_of_erase Ty.valueClass?_erase (houter hd)] at hcls
    rw [Ty.eq_of_erase Ty.classId?_erase (houter hs)] at hne
    exact .inward hcls hne hc hcast hf hp (hpq hs rfl h)

end SemanticAnalysis.Conversion
