import SemanticAnalysis.Overload.Resolution
import SemanticAnalysis.Proofs.Overload.Ranking

/-!
# Overload resolution picks the greatest candidate

`resolveCall_spec` says what a call resolves to: nothing when no candidate can take it, the candidate
that beats all others when there is one, and otherwise all the candidates that no other one beats,
or the first of them, as the options have it.

1. Matching a candidate succeeds iff it can take the call (`exists_isViable_iff`).
2. The outcome depends on the undominated viable candidates alone, the `leaders`
   (`resolveCall_eq`).
3. There is a leader as soon as there is a viable candidate, and a single leader beats all others,
   since ranking is a strict partial order (`leaders_eq_singleton_iff`).
-/

namespace SemanticAnalysis

/-! ## Viable candidates -/

/-- The better of the best option so far and the next one. -/
def betterFit (convert : Ty → Ty → Conversion) (dst : Ty) (best : Option Fit)
    (option : ArgumentOption) : Option Fit :=
  let c := convert option.ty dst
  let fit : Fit := ⟨c.score, option.item, c.via⟩
  match best with
  | none => if c.isPossible then some fit else none
  | some top => if top.score < c.score then some fit else best

section BestOption

variable (convert : Ty → Ty → Conversion) (dst : Ty) (options : List ArgumentOption)

theorem bestOption_eq_foldl :
    bestOption convert dst options = options.foldl (betterFit convert dst) none := rfl

theorem foldl_betterFit_isSome (best : Option Fit) :
    (options.foldl (betterFit convert dst) best).isSome = true ↔
      best.isSome = true ∨ ∃ o ∈ options, 0 < (convert o.ty dst).score := by
  induction options generalizing best with
  | nil => simp
  | cons o rest ih =>
    rw [List.foldl_cons, ih]
    unfold betterFit
    rcases best with _ | top
    · by_cases ho : 0 < (convert o.ty dst).score <;> simp [ho, Conversion.isPossible]
    · by_cases ht : top.score < (convert o.ty dst).score <;> simp [ht]

/-- An argument fits iff one of its options converts. -/
theorem bestOption_isSome :
    (bestOption convert dst options).isSome = true ↔
      ∃ o ∈ options, 0 < (convert o.ty dst).score := by
  rw [bestOption_eq_foldl, foldl_betterFit_isSome]
  simp

end BestOption

theorem mapM_isSome {α β : Type} (f : α → Option β) (l : List α) :
    (l.mapM f).isSome = true ↔ ∀ a ∈ l, (f a).isSome = true := by
  induction l with
  | nil => simp
  | cons a rest ih =>
    rw [List.mapM_cons]
    cases hf : f a with
    | none => simp [hf]
    | some b =>
      cases hrest : rest.mapM f with
      | none => simpa [hf, hrest] using ih
      | some bs => simpa [hf, hrest] using ih

theorem map_of_mapM {α β : Type} {f : α → Option β} {l : List α} {bs : List β}
    (h : l.mapM f = some bs) : l.map f = bs.map some := by
  induction l generalizing bs with
  | nil =>
    cases h
    rfl
  | cons a rest ih =>
    rw [List.mapM_cons] at h
    obtain ⟨b, hb, h⟩ := Option.bind_eq_some_iff.1 h
    obtain ⟨bs', hrest, h⟩ := Option.bind_eq_some_iff.1 h
    cases h
    rw [List.map_cons, List.map_cons, hb, ih hrest]

theorem length_of_mapM {α β : Type} {f : α → Option β} {l : List α} {bs : List β}
    (h : l.mapM f = some bs) : bs.length = l.length := by
  simpa using (congrArg List.length (map_of_mapM h)).symm

section Viable

variable (table : SymbolTable) (options : Options) (arguments : List CallArgument)
  (candidates : List Candidate)

/-- A candidate can take a call: its parameters can be bound, and every argument has an option that
converts to its parameter. -/
def CanTake (c : Candidate) : Prop :=
  ∃ bindings, bindArguments c.signature arguments = some bindings ∧
    ∀ k argument, arguments[k]? = some argument →
      ∃ p, c.signature.params[parameterOf bindings k]? = some p ∧
        ∃ o ∈ argument.options, 0 < (convert table options o.ty p.ty).score

/-- `r` is how its candidate takes the call. -/
def IsViable (r : Resolution) : Prop :=
  ∃ c, candidates[r.candidate]? = some c ∧
    matchCandidate (convert table options) arguments c r.candidate = some r

variable {table options arguments candidates}

theorem fitArguments_isSome {s : Signature Ty} {bindings : List Binding} :
    (fitArguments (convert table options) s bindings arguments).isSome = true ↔
      ∀ k argument, arguments[k]? = some argument →
        ∃ p, s.params[parameterOf bindings k]? = some p ∧
          ∃ o ∈ argument.options, 0 < (convert table options o.ty p.ty).score := by
  unfold fitArguments
  rw [mapM_isSome]
  constructor
  · intro h k argument hk
    have hfit := h (argument, k) (List.mem_zipIdx_iff_getElem?.2 hk)
    cases hp : s.params[parameterOf bindings k]? with
    | none => simp [hp] at hfit
    | some p =>
      simp only [hp, Option.bind_some] at hfit
      exact ⟨p, rfl, (bestOption_isSome _ _ _).1 hfit⟩
  · rintro h ⟨argument, k⟩ hmem
    obtain ⟨p, hp, hoption⟩ := h k argument (List.mem_zipIdx_iff_getElem?.1 hmem)
    simpa only [hp, Option.bind_some] using (bestOption_isSome _ _ _).2 hoption

theorem candidate_of_matchCandidate {c : Candidate} {i : Nat} {r : Resolution}
    (h : matchCandidate (convert table options) arguments c i = some r) : r.candidate = i := by
  unfold matchCandidate at h
  obtain ⟨bindings, -, h⟩ := Option.bind_eq_some_iff.1 h
  obtain ⟨fits, -, rfl⟩ := Option.map_eq_some_iff.1 h
  rfl

theorem item_of_matchCandidate {c : Candidate} {i : Nat} {r : Resolution}
    (h : matchCandidate (convert table options) arguments c i = some r) : r.item = c.item := by
  unfold matchCandidate at h
  obtain ⟨bindings, -, h⟩ := Option.bind_eq_some_iff.1 h
  obtain ⟨fits, -, rfl⟩ := Option.map_eq_some_iff.1 h
  rfl

theorem matchCandidate_isSome {c : Candidate} {i : Nat} :
    (matchCandidate (convert table options) arguments c i).isSome = true ↔
      CanTake table options arguments c := by
  unfold matchCandidate CanTake
  cases hb : bindArguments c.signature arguments with
  | none => simp
  | some bindings =>
    rw [Option.bind_some, Option.isSome_map, fitArguments_isSome]
    simp

/-- **Viability.** A candidate is viable iff it can take the call. -/
theorem exists_isViable_iff {c : Candidate} {i : Nat} (hc : candidates[i]? = some c) :
    (∃ r, IsViable table options arguments candidates r ∧ r.candidate = i) ↔
      CanTake table options arguments c := by
  rw [← matchCandidate_isSome (i := i), Option.isSome_iff_exists]
  constructor
  · rintro ⟨r, ⟨c', hc', hmatch⟩, rfl⟩
    rw [hc] at hc'
    cases hc'
    exact ⟨r, hmatch⟩
  · rintro ⟨r, hmatch⟩
    have hi := candidate_of_matchCandidate hmatch
    subst hi
    exact ⟨r, ⟨c, hc, hmatch⟩, rfl⟩

/-- There is one way in which a candidate takes a call. -/
theorem IsViable.unique {r r' : Resolution} (h : IsViable table options arguments candidates r)
    (h' : IsViable table options arguments candidates r') (heq : r.candidate = r'.candidate) :
    r = r' := by
  obtain ⟨c, hc, hmatch⟩ := h
  obtain ⟨c', hc', hmatch'⟩ := h'
  rw [heq, hc'] at hc
  cases hc
  rw [heq, hmatch'] at hmatch
  exact (Option.some.inj hmatch).symm

theorem length_scores_of_matchCandidate {c : Candidate} {i : Nat} {r : Resolution}
    (h : matchCandidate (convert table options) arguments c i = some r) :
    r.scores.length = arguments.length := by
  unfold matchCandidate at h
  obtain ⟨bindings, -, h⟩ := Option.bind_eq_some_iff.1 h
  obtain ⟨fits, hfits, rfl⟩ := Option.map_eq_some_iff.1 h
  rw [List.length_map, length_of_mapM hfits, List.length_zipIdx]

theorem mem_viable {r : Resolution} :
    r ∈ viable table options arguments candidates ↔ IsViable table options arguments candidates r := by
  unfold viable IsViable
  rw [List.mem_filterMap]
  constructor
  · rintro ⟨⟨c, i⟩, hmem, hmatch⟩
    have hi := candidate_of_matchCandidate hmatch
    subst hi
    exact ⟨c, List.mem_zipIdx_iff_getElem?.1 hmem, hmatch⟩
  · rintro ⟨c, hc, hmatch⟩
    exact ⟨(c, r.candidate), List.mem_zipIdx_iff_getElem?.2 hc, hmatch⟩

/-- The viable candidates are in the order of the candidates. -/
theorem pairwise_viable :
    (viable table options arguments candidates).Pairwise fun r r' => r.candidate < r'.candidate := by
  have hindices : candidates.zipIdx.Pairwise fun x y => x.2 < y.2 := by
    rw [← List.pairwise_map (f := Prod.snd) (R := (· < ·)), List.zipIdx_map_snd]
    exact List.pairwise_lt_range'
  unfold viable
  rw [List.pairwise_filterMap]
  refine hindices.imp fun {x y} hxy r hr r' hr' => ?_
  rw [candidate_of_matchCandidate hr, candidate_of_matchCandidate hr']
  exact hxy

end Viable

/-! ## Beating another candidate -/

section Beats

/-- One viable candidate beats another: no argument fits it worse, and either some argument fits it
better, or all fit alike and only the other one is variadic. -/
def Beats (candidates : List Candidate) (r other : Resolution) : Prop :=
  (∀ (k x y : Nat), r.scores[k]? = some x → other.scores[k]? = some y → y ≤ x) ∧
    ((∃ k x y : Nat, r.scores[k]? = some x ∧ other.scores[k]? = some y ∧ y < x) ∨
      r.scores = other.scores ∧ (standingOf candidates r).variadic = false ∧
        (standingOf candidates other).variadic = true)

variable {table : SymbolTable} {options : Options} {arguments : List CallArgument}
  {candidates : List Candidate} {r other : Resolution}

theorem forall₂_iff_getElem? {xs ys : List Nat} (hlength : xs.length = ys.length) :
    List.Forall₂ (fun x y => y ≤ x) xs ys ↔
      ∀ (k x y : Nat), xs[k]? = some x → ys[k]? = some y → y ≤ x := by
  induction xs generalizing ys with
  | nil =>
    cases ys with
    | nil => simp
    | cons y ys => cases hlength
  | cons x xs ih =>
    cases ys with
    | nil => cases hlength
    | cons y ys =>
      rw [List.forall₂_cons, ih (Nat.succ.inj hlength)]
      constructor
      · rintro ⟨hxy, hrest⟩ k
        cases k with
        | zero =>
          rintro _ _ ⟨⟩ ⟨⟩
          exact hxy
        | succ k => exact hrest k
      · intro h
        exact ⟨h 0 x y rfl rfl, fun k => h (k + 1)⟩

theorem exists_lt_iff_ne {xs ys : List Nat} (h : List.Forall₂ (fun x y => y ≤ x) xs ys) :
    (∃ k x y : Nat, xs[k]? = some x ∧ ys[k]? = some y ∧ y < x) ↔ xs ≠ ys := by
  constructor
  · rintro ⟨k, x, y, hx, hy, hlt⟩ rfl
    rw [hx] at hy
    cases hy
    omega
  · intro hne
    obtain ⟨⟨x, y⟩, hmem, hlt⟩ := List.any_eq_true.1 ((any_lt_iff_ne h).2 hne)
    obtain ⟨k, hk⟩ := List.mem_iff_getElem?.1 hmem
    obtain ⟨hx, hy⟩ := List.getElem?_zip_eq_some.1 hk
    exact ⟨k, x, y, hx, hy, by simpa using hlt⟩

@[simp] theorem scores_standingOf (candidates : List Candidate) (r : Resolution) :
    (standingOf candidates r).scores = r.scores := rfl

/-- Viable candidates beat each other as their standings dominate each other. -/
theorem dominates_iff_beats (hr : IsViable table options arguments candidates r)
    (ho : IsViable table options arguments candidates other) :
    (standingOf candidates r).dominates (standingOf candidates other) = true ↔
      Beats candidates r other := by
  obtain ⟨_, -, hr⟩ := hr
  obtain ⟨_, -, ho⟩ := ho
  have hlength : r.scores.length = other.scores.length := by
    rw [length_scores_of_matchCandidate hr, length_scores_of_matchCandidate ho]
  rw [Standing.dominates_iff, scores_standingOf, scores_standingOf]
  unfold Beats
  rw [← forall₂_iff_getElem? hlength]
  refine and_congr_right fun hscores => ?_
  rw [exists_lt_iff_ne hscores]
  by_cases heq : r.scores = other.scores <;> simp [heq]

end Beats

/-! ## Leaders -/

section Leaders

variable (table : SymbolTable) (options : Options) (arguments : List CallArgument)
  (candidates : List Candidate)

/-- The viable candidates that no other one dominates, in order. -/
def leaders : List Resolution :=
  (viable table options arguments candidates).filter fun r =>
    Standing.isTop ((viable table options arguments candidates).map (standingOf candidates))
      (standingOf candidates r)

/-- A viable candidate that no other one beats. -/
def Unbeaten (r : Resolution) : Prop :=
  IsViable table options arguments candidates r ∧
    ∀ other, IsViable table options arguments candidates other → ¬ Beats candidates other r

/-- Reading one field of what indices stand for. -/
theorem filterMap_lookup {α β : Type} {found rs : List α} {indices : List Nat} (g : α → β)
    (h : indices.map (found[·]?) = rs.map some) :
    indices.filterMap (fun i => (found[i]?).map g) = rs.map g := by
  have hmap : indices.filterMap (fun i => (found[i]?).map g) =
      (indices.map (found[·]?)).filterMap (·.map g) := by
    rw [List.filterMap_map]
    rfl
  rw [hmap, h, List.filterMap_map]
  simp

/-- **The outcome of a call** depends on its leaders alone. -/
theorem resolveCall_eq :
    resolveCall table options arguments candidates =
      match leaders table options arguments candidates, options.ambiguity with
      | [], _ => .error .noMatch
      | [winner], _ => .ok winner
      | first :: _, .firstDeclared => .ok first
      | tied, .reject => .error (.ambiguous (tied.map (·.candidate))) := by
  have hlookup := Standing.undominated_map_getElem? (viable table options arguments candidates)
    (standingOf candidates)
  change _ = (leaders table options arguments candidates).map some at hlookup
  cases hfound : viable table options arguments candidates with
  | nil => simp [resolveCall, leaders, hfound]
  | cons r rest =>
    rw [hfound] at hlookup
    have hne : Standing.undominated ((r :: rest).map (standingOf candidates)) ≠ [] :=
      Standing.undominated_ne_nil (List.cons_ne_nil _ _)
    unfold resolveCall
    rw [hfound]
    simp only [Standing.selectBest_eq]
    generalize r :: rest = found at hlookup hne ⊢
    generalize leaders table options arguments candidates = lead at hlookup ⊢
    have htied := filterMap_lookup (·.candidate) hlookup
    generalize Standing.undominated (found.map (standingOf candidates)) = indices at *
    match indices, lead with
    | [], _ => exact absurd rfl hne
    | _ :: _, [] => cases hlookup
    | [i], [winner] =>
      have hi : found[i]? = some winner := List.head_eq_of_cons_eq hlookup
      simp [hi]
    | [_], _ :: _ :: _ => simp at hlookup
    | _ :: _ :: _, [_] => simp at hlookup
    | i :: j :: more, first :: second :: others =>
      have hi : found[i]? = some first := List.head_eq_of_cons_eq hlookup
      cases options.ambiguity with
      | firstDeclared => simp [hi]
      | reject => simp only [htied]

variable {table options arguments candidates}

theorem mem_leaders {r : Resolution} :
    r ∈ leaders table options arguments candidates ↔
      Unbeaten table options arguments candidates r := by
  unfold leaders Unbeaten
  rw [List.mem_filter, mem_viable, Standing.isTop_iff]
  refine and_congr_right fun hr => ?_
  constructor
  · intro htop other ho hbeats
    have hdom := htop _ (List.mem_map.2 ⟨other, mem_viable.2 ho, rfl⟩)
    rw [(dominates_iff_beats ho hr).2 hbeats] at hdom
    cases hdom
  · intro hun a ha
    obtain ⟨other, ho, rfl⟩ := List.mem_map.1 ha
    rw [← Bool.not_eq_true, dominates_iff_beats (mem_viable.1 ho) hr]
    exact hun other (mem_viable.1 ho)

variable (table options arguments candidates) in
theorem pairwise_leaders :
    (leaders table options arguments candidates).Pairwise fun r r' => r.candidate < r'.candidate :=
  pairwise_viable.sublist List.filter_sublist

/-- A viable candidate is a leader or beaten by one. -/
theorem exists_leader {r : Resolution} (hr : IsViable table options arguments candidates r) :
    ∃ top ∈ leaders table options arguments candidates, top = r ∨ Beats candidates top r := by
  obtain ⟨a, ha, htop, hdom⟩ := Standing.exists_undominated
    (List.mem_map.2 ⟨r, mem_viable.2 hr, rfl⟩ :
      standingOf candidates r ∈
        (viable table options arguments candidates).map (standingOf candidates))
  obtain ⟨top, hmem, rfl⟩ := List.mem_map.1 ha
  rcases hdom with heq | hdom
  · -- `r` has the standing of a leader, so it is one
    rw [heq] at htop
    exact ⟨r, List.mem_filter.2 ⟨mem_viable.2 hr, htop⟩, .inl rfl⟩
  · exact ⟨top, List.mem_filter.2 ⟨hmem, htop⟩, .inr ((dominates_iff_beats (mem_viable.1 hmem) hr).1 hdom)⟩

theorem leaders_eq_nil_iff :
    leaders table options arguments candidates = [] ↔
      ∀ c ∈ candidates, ¬ CanTake table options arguments c := by
  constructor
  · intro hnil c hc htake
    obtain ⟨i, hi⟩ := List.mem_iff_getElem?.1 hc
    obtain ⟨r, hr, -⟩ := (exists_isViable_iff hi).2 htake
    obtain ⟨top, htop, -⟩ := exists_leader hr
    rw [hnil] at htop
    cases htop
  · intro hnone
    refine List.eq_nil_iff_forall_not_mem.2 fun r hr => ?_
    have hviable := (mem_leaders.1 hr).1
    obtain ⟨c, hc, -⟩ := id hviable
    exact hnone c (List.mem_of_getElem? hc) ((exists_isViable_iff hc).1 ⟨r, hviable, rfl⟩)

/-- A single leader beats all others, and who beats all others is the single leader. -/
theorem leaders_eq_singleton_iff {r : Resolution} :
    leaders table options arguments candidates = [r] ↔
      IsViable table options arguments candidates r ∧
        ∀ other, IsViable table options arguments candidates other →
          other.candidate ≠ r.candidate → Beats candidates r other := by
  constructor
  · intro hsingle
    have hr : r ∈ leaders table options arguments candidates := by
      rw [hsingle]
      exact List.mem_cons_self
    refine ⟨(mem_leaders.1 hr).1, fun other ho hne => ?_⟩
    obtain ⟨top, htop, hbeats⟩ := exists_leader ho
    rw [hsingle, List.mem_singleton] at htop
    subst htop
    rcases hbeats with rfl | hbeats
    · exact absurd rfl hne
    · exact hbeats
  · rintro ⟨hr, hbeats⟩
    have hmem : ∀ l ∈ leaders table options arguments candidates, l = r := by
      intro l hl
      obtain ⟨hviable, hun⟩ := mem_leaders.1 hl
      by_contra hne
      exact hun r hr (hbeats l hviable fun heq => hne (hviable.unique hr heq))
    obtain ⟨top, htop, -⟩ := exists_leader hr
    have hpair := pairwise_leaders table options arguments candidates
    match hlead : leaders table options arguments candidates with
    | [] =>
      rw [hlead] at htop
      cases htop
    | [l] => rw [hmem l (by rw [hlead]; exact List.mem_cons_self)]
    | l :: l' :: rest =>
      -- the leaders are different candidates, and all of them are `r`
      rw [hlead] at hpair hmem
      have hlt := List.rel_of_pairwise_cons hpair List.mem_cons_self
      rw [hmem l List.mem_cons_self, hmem l' (List.mem_cons_of_mem _ List.mem_cons_self)] at hlt
      exact absurd hlt (Nat.lt_irrefl _)

/-- Tied leaders are listed in order, each once. -/
theorem pairwise_map_candidate :
    ((leaders table options arguments candidates).map (·.candidate)).Pairwise (· < ·) := by
  rw [List.pairwise_map]
  exact pairwise_leaders table options arguments candidates

end Leaders

/-! ## The outcome -/

section Outcome

variable {table : SymbolTable} {options : Options} {arguments : List CallArgument}
  {candidates : List Candidate}

theorem resolveCall_eq_noMatch_iff :
    resolveCall table options arguments candidates = .error .noMatch ↔
      ∀ c ∈ candidates, ¬ CanTake table options arguments c := by
  rw [← leaders_eq_nil_iff, resolveCall_eq]
  match leaders table options arguments candidates, options.ambiguity with
  | [], _ => simp
  | [_], _ => simp
  | _ :: _ :: _, .firstDeclared => simp
  | _ :: _ :: _, .reject => simp

theorem resolveCall_eq_ok_iff (hpolicy : options.ambiguity = .reject) {r : Resolution} :
    resolveCall table options arguments candidates = .ok r ↔
      leaders table options arguments candidates = [r] := by
  rw [resolveCall_eq, hpolicy]
  match leaders table options arguments candidates with
  | [] => simp
  | [_] => simp
  | _ :: _ :: _ => simp

/-- Without a winner, all leaders are tied. -/
theorem resolveCall_eq_ambiguous (hpolicy : options.ambiguity = .reject)
    (hsome : leaders table options arguments candidates ≠ [])
    (hfail : ∀ r, resolveCall table options arguments candidates ≠ .ok r) :
    resolveCall table options arguments candidates =
        .error (.ambiguous ((leaders table options arguments candidates).map (·.candidate))) ∧
      2 ≤ (leaders table options arguments candidates).length := by
  have hnot : ∀ r, leaders table options arguments candidates ≠ [r] :=
    fun r h => hfail r ((resolveCall_eq_ok_iff hpolicy).2 h)
  rw [resolveCall_eq, hpolicy]
  match hlead : leaders table options arguments candidates with
  | [] => exact absurd hlead hsome
  | [r] => exact absurd hlead (hnot r)
  | _ :: _ :: _ => simp

/-- The first leader is taken. -/
theorem resolveCall_eq_head (hpolicy : options.ambiguity = .firstDeclared) {first : Resolution}
    {rest : List Resolution} (hlead : leaders table options arguments candidates = first :: rest) :
    resolveCall table options arguments candidates = .ok first := by
  rw [resolveCall_eq, hpolicy, hlead]
  cases rest <;> rfl

theorem resolveCall_ne_ambiguous (hpolicy : options.ambiguity = .firstDeclared) (tied : List Nat) :
    resolveCall table options arguments candidates ≠ .error (.ambiguous tied) := by
  cases hlead : leaders table options arguments candidates with
  | nil =>
    rw [resolveCall_eq, hlead]
    simp
  | cons first rest =>
    rw [resolveCall_eq_head hpolicy hlead]
    simp

/-- What is chosen is viable. -/
theorem isViable_of_resolveCall {r : Resolution} (h : resolveCall table options arguments candidates = .ok r) :
    IsViable table options arguments candidates r := by
  rw [← mem_viable]
  unfold resolveCall at h
  split at h
  · cases h
  split at h
  · split at h
    · rename_i hr
      cases h
      exact List.mem_of_getElem? hr
    · cases h
  · cases h

end Outcome

/-- **Overload resolution.** A call matches nothing iff no candidate can take it. With ambiguity
rejected, it resolves to `r` iff `r` is viable and beats every other viable candidate, and otherwise
the failure lists, in order, all viable candidates that no other one beats, at least two. With the
first declared candidate preferred, a call that some candidate can take always resolves, to the first
viable candidate that no other one beats. -/
theorem resolveCall_spec (table : SymbolTable) (options : Options) (arguments : List CallArgument)
    (candidates : List Candidate) :
    (∀ i c, candidates[i]? = some c →
      ((∃ r, IsViable table options arguments candidates r ∧ r.candidate = i) ↔
        CanTake table options arguments c)) ∧
    (resolveCall table options arguments candidates = .error .noMatch ↔
      ∀ c ∈ candidates, ¬ CanTake table options arguments c) ∧
    (options.ambiguity = .reject →
      (∀ r, resolveCall table options arguments candidates = .ok r ↔
        IsViable table options arguments candidates r ∧
          ∀ other, IsViable table options arguments candidates other →
            other.candidate ≠ r.candidate → Beats candidates r other) ∧
      ((∃ c ∈ candidates, CanTake table options arguments c) →
        (∀ r, resolveCall table options arguments candidates ≠ .ok r) →
        ∃ tied, resolveCall table options arguments candidates = .error (.ambiguous tied) ∧
          tied.Pairwise (· < ·) ∧ 2 ≤ tied.length ∧
          ∀ i, i ∈ tied ↔ ∃ r, Unbeaten table options arguments candidates r ∧ r.candidate = i)) ∧
    (options.ambiguity = .firstDeclared →
      (∀ tied, resolveCall table options arguments candidates ≠ .error (.ambiguous tied)) ∧
      ((∃ c ∈ candidates, CanTake table options arguments c) →
        ∃ r, resolveCall table options arguments candidates = .ok r ∧
          Unbeaten table options arguments candidates r ∧
          ∀ other, Unbeaten table options arguments candidates other →
            r.candidate ≤ other.candidate)) := by
  have hsome : (∃ c ∈ candidates, CanTake table options arguments c) →
      leaders table options arguments candidates ≠ [] := by
    rintro ⟨c, hc, htake⟩ hnil
    exact leaders_eq_nil_iff.1 hnil c hc htake
  refine ⟨fun i c hc => exists_isViable_iff hc, resolveCall_eq_noMatch_iff, fun hpolicy => ⟨?_, ?_⟩,
    fun hpolicy => ⟨resolveCall_ne_ambiguous hpolicy, ?_⟩⟩
  · intro r
    rw [resolveCall_eq_ok_iff hpolicy, leaders_eq_singleton_iff]
  · intro htake hfail
    obtain ⟨htied, hlength⟩ := resolveCall_eq_ambiguous hpolicy (hsome htake) hfail
    refine ⟨_, htied, pairwise_map_candidate, by rwa [List.length_map], fun i => ?_⟩
    simp only [List.mem_map, mem_leaders]
  · intro htake
    obtain ⟨first, rest, hlead⟩ := List.exists_cons_of_ne_nil (hsome htake)
    have hfirst : first ∈ leaders table options arguments candidates := by
      rw [hlead]
      exact List.mem_cons_self
    refine ⟨first, resolveCall_eq_head hpolicy hlead, mem_leaders.1 hfirst, fun other ho => ?_⟩
    have hother := mem_leaders.2 ho
    have hpair := pairwise_leaders table options arguments candidates
    rw [hlead] at hother hpair
    rcases List.mem_cons.1 hother with rfl | hother
    · exact Nat.le_refl _
    · exact Nat.le_of_lt (List.rel_of_pairwise_cons hpair hother)

end SemanticAnalysis
