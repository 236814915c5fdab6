import SemanticAnalysis.Proofs.Conversion.Guard
import SemanticAnalysis.Proofs.Conversion.Scores

/-!
# Where a conversion comes from

A conversion reports at most one user cast. `Origin` says where the rules find a conversion and which
cast it then reports: a rule that asks for nothing else reports none, a step to other types
(`Enters`) reports what the conversion of these types reports, a cast reports itself, and stepping out
of a union reports nothing at all.

1. The choices among several conversions return one of them (`exists_mem_bestOf`, `mem_bestCast`).
2. Each rule that searches has its own cases (`origin_referenceRule`, `origin_wrapperRule`,
   `origin_castRule`), and from these the rules as a whole have theirs (`origin_rules`).
3. Along a search the steps add up to `Unwraps`, and a reported cast applies at the types that they
   lead to (`exists_applies_of_search`).
-/

namespace SemanticAnalysis.Conversion

/-! ## Steps without a function -/

/-- A step from one pair of types to another by which a value is converted without calling a function:
through a reference, into an optional, or into a member of a union. -/
inductive Enters (src dst : Ty) : Ty → Ty → Prop
  | bind (hl : src.referenceLevel < dst.referenceLevel) (hd : dst.isReference = true) :
      Enters src dst src.reference dst
  | read {value : Ty} (hl : dst.referenceLevel < src.referenceLevel)
      (hv : src.dereference? = some value) : Enters src dst value dst
  | inside {held inner : Ty} (hsv : src.isValue = true) (hs : src.inner? = some held)
      (hdv : dst.isValue = true) (hd : dst.inner? = some inner) : Enters src dst held inner
  | wrap {inner : Ty} (hs : ¬ (src.isValue = true ∧ src.inner?.isSome = true))
      (hdv : dst.isValue = true) (hd : dst.inner? = some inner) : Enters src dst src inner
  | intoUnion {members : List Ty} {m : Ty} (hdv : dst.isValue = true)
      (hd : dst.members? = some members) (hm : m ∈ members) : Enters src dst src m

/-- A number of such steps, one after the other. -/
inductive Unwraps : (steps : Nat) → (src dst src' dst' : Ty) → Prop
  | here {src dst : Ty} : Unwraps 0 src dst src dst
  | step {steps : Nat} {src dst mid mid' src' dst' : Ty} (h : Enters src dst mid mid')
      (hrest : Unwraps steps mid mid' src' dst') : Unwraps (steps + 1) src dst src' dst'

theorem Enters.derives {table : SymbolTable} {fits : Ty → Ty → Prop} {src dst src' dst' : Ty}
    (h : Enters src dst src' dst') (hfits : fits src' dst') : Derives table fits src dst := by
  cases h with
  | bind hl hd => exact .bind hl hd hfits
  | read hl hv => exact .read hl hv hfits
  | inside hsv hs hdv hd => exact .inside hsv hs hdv hd hfits
  | wrap hs hdv hd => exact .wrap hs hdv hd hfits
  | intoUnion hdv hd hm => exact .intoUnion hdv hd hm hfits

/-! ## Casts -/

/-- A cast leads from one type to another, given which conversions `fits` has: it belongs to the class
of the source or an ancestor, and what it returns fits, or it belongs to the class of the destination
and the source fits what it takes. -/
inductive Applies (table : SymbolTable) (fits : Ty → Ty → Prop) (cast : ItemId) (src dst : Ty) : Prop
  | outward {cls owner : ItemId} {c : Class} {f : Function}
      (hs : src.withoutOuterReferences.valueClass? = some cls)
      (ho : owner ∈ table.withAncestors cls) (hc : table.class? owner = some c)
      (hcast : cast ∈ c.toCasts) (hf : table.function? cast = some f) (h : fits f.returnType dst)
  | inward {cls : ItemId} {c : Class} {f : Function} {p : Parameter Ty}
      (hd : dst.withoutOuterReferences.valueClass? = some cls) (hc : table.class? cls = some c)
      (hcast : cast ∈ c.fromCasts) (hf : table.function? cast = some f)
      (hp : f.params.head? = some p) (h : fits src p.ty)

theorem Applies.imp {table : SymbolTable} {fits fits' : Ty → Ty → Prop} {cast : ItemId} {src dst : Ty}
    (h : Applies table fits cast src dst) (himp : ∀ x y, fits x y → fits' x y) :
    Applies table fits' cast src dst := by
  cases h with
  | outward hs ho hc hcast hf h => exact .outward hs ho hc hcast hf (himp _ _ h)
  | inward hd hc hcast hf hp h => exact .inward hd hc hcast hf hp (himp _ _ h)

/-! ## Choices -/

section Choices

variable {search : Ty → Ty → Conversion} {src dst : Ty}

theorem exists_mem_bestOf {members : List Ty} (h : (bestOf search src members).isPossible = true) :
    ∃ m ∈ members, bestOf search src members = search src m := by
  have hfold : ∀ best : Conversion,
      members.foldl (fun best member => better best (search src member)) best = best ∨
        ∃ m ∈ members,
          members.foldl (fun best member => better best (search src member)) best = search src m := by
    clear h
    induction members with
    | nil => exact fun best => .inl rfl
    | cons m rest ih =>
      intro best
      rw [List.foldl_cons]
      rcases ih (better best (search src m)) with heq | ⟨m', hm', heq⟩
      · rw [heq]
        unfold better
        split
        · exact .inr ⟨m, List.mem_cons_self, rfl⟩
        · exact .inl rfl
      · exact .inr ⟨m', List.mem_cons_of_mem m hm', heq⟩
  rcases hfold impossible with heq | hmem
  · rw [bestOf, heq] at h
    cases h
  · exact hmem

theorem mem_foldl_bestCast {casts : List (ItemId × Nat)} {best : Option (ItemId × Nat)}
    {found : ItemId × Nat}
    (h : casts.foldl (fun best (cast, score) =>
      match best with
      | none => if 0 < score then some (cast, score) else none
      | some (_, top) => if top < score then some (cast, score) else best) best = some found) :
    best = some found ∨ found ∈ casts ∧ 0 < found.2 := by
  induction casts generalizing best with
  | nil => exact .inl h
  | cons c rest ih =>
    rw [List.foldl_cons] at h
    rcases ih h with hbest | ⟨hmem, hpos⟩
    · rcases best with _ | ⟨i, top⟩
      · simp only at hbest
        split at hbest
        · rename_i hpos
          cases hbest
          exact .inr ⟨List.mem_cons_self, hpos⟩
        · cases hbest
      · simp only at hbest
        split at hbest
        · rename_i hlt
          cases hbest
          exact .inr ⟨List.mem_cons_self, Nat.zero_lt_of_lt hlt⟩
        · exact .inl hbest
    · exact .inr ⟨List.mem_cons_of_mem c hmem, hpos⟩

theorem mem_bestCast {casts : List (ItemId × Nat)} {cast : ItemId} (h : bestCast casts = some cast) :
    ∃ score, (cast, score) ∈ casts ∧ 0 < score := by
  unfold bestCast at h
  obtain ⟨⟨i, score⟩, hfound, rfl⟩ := Option.map_eq_some_iff.1 h
  rcases mem_foldl_bestCast hfound with hnone | ⟨hmem, hpos⟩
  · cases hnone
  · exact ⟨score, hmem, hpos⟩

theorem via_everyMember (worst : Nat) (members : List Ty) :
    (everyMember search dst worst members).via = none := by
  induction members generalizing worst with
  | nil => rfl
  | cons m rest ih =>
    rw [everyMember]
    split
    · exact ih _
    · rfl

end Choices

/-! ## Rules -/

section Rules

variable {table : SymbolTable} {search : Ty → Ty → Conversion} {src dst : Ty}

/-- Where the rules find a conversion, with the cast that it reports. -/
inductive Origin (table : SymbolTable) (search : Ty → Ty → Conversion) (src dst : Ty) :
    Option ItemId → Prop
  /-- A rule that asks for no other conversion. -/
  | rule (h : Derives table (fun _ _ => False) src dst) : Origin table search src dst none
  | step {src' dst' : Ty} (h : Enters src dst src' dst') (hfinds : Finds search src' dst') :
      Origin table search src dst (search src' dst').via
  | outOfUnion {members : List Ty} (hsv : src.isValue = true) (hs : src.members? = some members)
      (h : ∀ m ∈ members, Finds search m dst) : Origin table search src dst none
  | cast {cast : ItemId} (h : Applies table (Finds search) cast src dst) :
      Origin table search src dst (some cast)

/-- The conversion is possible without a user cast. -/
def Direct (c : Conversion) : Prop := c.isPossible = true ∧ c.via = none

theorem origin_referenceRule (h : (referenceRule search src dst).isPossible = true) :
    Origin table search src dst (referenceRule search src dst).via := by
  unfold referenceRule at h ⊢
  split at h
  · rename_i hbind
    rw [if_pos hbind]
    rw [Bool.and_eq_true, decide_eq_true_eq] at hbind
    dsimp only at h ⊢
    split at h
    · rename_i hfinds
      rw [if_pos hfinds]
      exact .step (.bind hbind.1 hbind.2) hfinds
    · rename_i hnot
      exact absurd h hnot
  · rename_i hbind
    rw [if_neg hbind]
    split at h
    · rename_i hlevel
      rw [if_pos hlevel]
      cases hread : src.dereference? with
      | none =>
        rw [hread] at h
        cases h
      | some value =>
        rw [hread] at h
        dsimp only at h ⊢
        split at h
        · rename_i hfinds
          rw [if_pos hfinds]
          exact .step (.read hlevel hread) hfinds
        · cases h
    · cases h

theorem origin_optionalRule {c : Conversion} (hc : optionalRule search src dst = some c)
    (h : c.isPossible = true) : Origin table search src dst c.via := by
  by_cases hd : dst.isValue = true ∧ dst.inner?.isSome = true
  · obtain ⟨hdv, hsome⟩ := hd
    obtain ⟨inner, hinner⟩ := Option.isSome_iff_exists.1 hsome
    by_cases hs : src.isValue = true ∧ src.inner?.isSome = true
    · obtain ⟨hsv, hsome'⟩ := hs
      obtain ⟨held, hheld⟩ := Option.isSome_iff_exists.1 hsome'
      rw [optionalRule_of_both search hsv hheld hdv hinner] at hc
      split at hc
      · rename_i hfinds
        cases hc
        exact .step (.inside hsv hheld hdv hinner) hfinds
      · rename_i hnot
        cases hc
        exact absurd h hnot
    · rw [optionalRule_of_value search hs hdv hinner] at hc
      split at hc
      · rename_i hfinds
        cases hc
        exact .step (.wrap hs hdv hinner) hfinds
      · cases hc
  · rw [optionalRule_of_not_optional search hd] at hc
    cases hc

theorem origin_intoUnionRule {c : Conversion} (hc : intoUnionRule search src dst = some c) :
    Origin table search src dst c.via := by
  unfold intoUnionRule at hc
  split at hc
  · rename_i members hdv hd
    dsimp only at hc
    split at hc
    · rename_i hbest
      cases hc
      obtain ⟨m, hm, heq⟩ := exists_mem_bestOf hbest
      have hvia : ((bestOf search src members).cappedAt unionScore).via = (search src m).via := by
        rw [heq]
        rfl
      rw [heq] at hbest
      rw [hvia]
      exact .step (.intoUnion hdv hd hm) hbest
    · cases hc
  · cases hc

theorem origin_outOfUnionRule (h : (outOfUnionRule search src dst).isPossible = true) :
    Origin table search src dst (outOfUnionRule search src dst).via := by
  obtain ⟨members, hsv, hs, hall⟩ := (outOfUnionRule_isPossible_iff search src dst).1 h
  have hvia : (outOfUnionRule search src dst).via = none := by
    unfold outOfUnionRule
    rw [hsv, hs]
    exact via_everyMember unionScore members
  rw [hvia]
  exact .outOfUnion hsv hs hall

theorem origin_wrapperRule (h : (wrapperRule search src dst).isPossible = true) :
    Origin table search src dst (wrapperRule search src dst).via := by
  unfold wrapperRule at h ⊢
  rw [Option.orElse_eq_or] at h ⊢
  cases hfirst : (optionalRule search src dst).or (intoUnionRule search src dst) with
  | none =>
    rw [hfirst] at h
    exact origin_outOfUnionRule h
  | some c =>
    rw [hfirst] at h
    rcases Option.or_eq_some_iff.1 hfirst with hc | ⟨-, hc⟩
    · exact origin_optionalRule hc h
    · exact origin_intoUnionRule hc

theorem applies_of_outwardCast? {cls cast : ItemId}
    (hs : src.withoutOuterReferences.valueClass? = some cls)
    (h : outwardCast? table search cls dst = some cast) :
    Applies table (Finds search) cast src dst := by
  obtain ⟨score, hmem, hpos⟩ := mem_bestCast h
  obtain ⟨i, hi, hentry⟩ := List.mem_filterMap.1 hmem
  obtain ⟨f, hf, heq⟩ := Option.map_eq_some_iff.1 hentry
  cases heq
  obtain ⟨owner, ho, hcast⟩ := List.mem_flatMap.1 hi
  cases hc : table.class? owner with
  | none =>
    rw [hc] at hcast
    cases hcast
  | some c =>
    rw [hc] at hcast
    exact .outward hs ho hc hcast hf (isPossible_iff.2 hpos)

theorem applies_of_inwardCast? {cls cast : ItemId}
    (hd : dst.withoutOuterReferences.valueClass? = some cls)
    (h : inwardCast? table search cls src = some cast) :
    Applies table (Finds search) cast src dst := by
  obtain ⟨score, hmem, hpos⟩ := mem_bestCast h
  obtain ⟨i, hi, hentry⟩ := List.mem_filterMap.1 hmem
  obtain ⟨p, hp, heq⟩ := Option.map_eq_some_iff.1 hentry
  obtain ⟨f, hf, hhead⟩ := Option.bind_eq_some_iff.1 hp
  cases heq
  cases hc : table.class? cls with
  | none =>
    rw [hc] at hi
    cases hi
  | some c =>
    rw [hc] at hi
    exact .inward hd hc hi hf hhead (isPossible_iff.2 hpos)

theorem origin_castRule (h : (castRule table search src dst).isPossible = true) :
    Origin table search src dst (castRule table search src dst).via := by
  unfold castRule at h ⊢
  dsimp only at h ⊢
  split at h
  · rename_i cast hout
    obtain ⟨cls, hcls, hcast⟩ := Option.bind_eq_some_iff.1 hout
    exact .cast (applies_of_outwardCast? hcls hcast)
  · split at h
    · rename_i cast hin
      obtain ⟨cls, hcls, hcast⟩ := Option.bind_eq_some_iff.1 hin
      split at hcast
      · cases hcast
      · exact .cast (applies_of_inwardCast? hcls hcast)
    · cases h

/-- **Origins.** What the rules find comes from one rule, and reports the cast of that rule. -/
theorem origin_rules (h : (rules table search src dst).isPossible = true) :
    Origin table search src dst (rules table search src dst).via := by
  unfold rules at h ⊢
  by_cases hwild : src.isWildcard = true ∨ dst.isWildcard = true
  · rw [if_pos (by simpa using hwild)]
    exact .rule (.wildcard hwild)
  rw [if_neg (by simpa using hwild)] at h ⊢
  by_cases hconst : constAdjusted src dst = true
  · rw [if_pos hconst]
    exact .rule (.constant hconst)
  rw [if_neg hconst] at h ⊢
  by_cases hnull : src.isNull = true ∧
      (dst.isPointer = true ∨ dst.isValue = true ∧ dst.inner?.isSome = true)
  · rw [if_pos (by simpa using hnull)]
    exact .rule (.null hnull.1 hnull.2)
  rw [if_neg (by simpa using hnull)] at h ⊢
  dsimp only at h ⊢
  by_cases hthrough : (referenceRule search src dst).isPossible = true
  · rw [if_pos hthrough]
    exact origin_referenceRule hthrough
  rw [if_neg hthrough] at h ⊢
  rw [Option.orElse_eq_or] at h ⊢
  cases hscore : (nativeRule src dst).or (upcastRule table src dst) with
  | some score =>
    rcases Option.or_eq_some_iff.1 hscore with hnative | ⟨-, hupcast⟩
    · exact .rule (.native hnative)
    · exact .rule (.upcast hupcast)
  | none =>
    rw [hscore] at h
    dsimp only at h ⊢
    by_cases hany : dst.isAny = true ∧ 0 < src.indirectionLevel ∧
        src.layers.length = dst.layers.length
    · rw [if_pos (by simpa [and_assoc] using hany)]
      exact .rule (.anything hany.1 hany.2.1 hany.2.2)
    rw [if_neg (by simpa [and_assoc] using hany)] at h ⊢
    by_cases hwrapped : (wrapperRule search src dst).isPossible = true
    · rw [if_pos hwrapped]
      exact origin_wrapperRule hwrapped
    · rw [if_neg hwrapped] at h ⊢
      exact origin_castRule h

end Rules

/-! ## Search -/

section Search

variable {table : SymbolTable} {depth : Nat} {active : List (Ty × Ty)} {src dst : Ty}

/-- A search finds that types are the same, or else what the rules find one level deeper. -/
theorem origin_search (h : Finds (search table depth active) src dst) :
    src.erase = dst.erase ∧ (search table depth active src dst).via = none ∨
      ∃ rest active', rest + 1 = depth ∧
        Origin table (search table rest active') src dst (search table depth active src dst).via := by
  by_cases hsame : src.erase = dst.erase
  · refine .inl ⟨hsame, ?_⟩
    unfold search
    rw [if_pos ((Ty.beq_iff src dst).2 hsame)]
    rfl
  · right
    cases depth with
    | zero => exact absurd (finds_search_zero.1 h) hsame
    | succ rest =>
      unfold Finds at h
      rw [search, if_neg (mt (Ty.beq_iff src dst).1 hsame)] at h ⊢
      dsimp only at h ⊢
      split at h
      · cases h
      · rename_i hfresh
        rw [if_neg hfresh]
        exact ⟨rest, _, rfl, origin_rules h⟩

/-- **The reported cast.** The types of a conversion that reports a cast unwrap to types from one to the
other of which the cast leads, and what is left to convert is found with the depth that is left. -/
theorem exists_applies_of_search {cast : ItemId}
    (hvia : (search table depth active src dst).via = some cast) :
    ∃ steps rest active' src' dst', steps + rest + 1 = depth ∧ Unwraps steps src dst src' dst' ∧
      Applies table (Finds (search table rest active')) cast src' dst' := by
  induction depth generalizing active src dst with
  | zero =>
    have hfinds := isPossible_iff.2 ((ranked_search table 0 active src dst).of_cast cast hvia).1
    rcases origin_search hfinds with ⟨-, hnone⟩ | ⟨rest, _, hrest, -⟩
    · cases hnone.symm.trans hvia
    · cases hrest
  | succ depth ih =>
    have hfinds :=
      isPossible_iff.2 ((ranked_search table (depth + 1) active src dst).of_cast cast hvia).1
    rcases origin_search hfinds with ⟨-, hnone⟩ | ⟨rest, active', hrest, horigin⟩
    · cases hnone.symm.trans hvia
    cases hrest
    rw [hvia] at horigin
    generalize hsome : some cast = reported at horigin
    cases horigin with
    | rule h => cases hsome
    | step h hfinds' =>
      obtain ⟨steps, rest, active'', src', dst', rfl, hunwraps, happlies⟩ := ih hsome.symm
      exact ⟨steps + 1, rest, active'', src', dst', by omega, .step h hunwraps, happlies⟩
    | outOfUnion hsv hs h => cases hsome
    | cast happlies =>
      cases hsome
      exact ⟨0, depth, active', src, dst, by omega, .here, happlies⟩

end Search

end SemanticAnalysis.Conversion
