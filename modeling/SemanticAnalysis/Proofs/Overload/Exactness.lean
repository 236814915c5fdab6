import SemanticAnalysis.Proofs.Conversion.Scores
import SemanticAnalysis.Proofs.Overload.Resolution

/-!
# An exact overload always wins

A fixed candidate takes a call exactly when it can be bound and every argument has the very type of its
parameter. `resolveCall_exact` says that such a candidate wins if it is the only one, whatever the others
are and wherever it stands among them.

1. An argument scores as one of its options does against its parameter (`score_of_matchCandidate`), so
   nothing scores above an exact fit.
2. If each argument has one type, the viable candidates that fit exactly throughout are those whose
   parameters have the types of the arguments (`scores_eq_exact_iff`).
3. A candidate with exact scores is nowhere worse than another one. It beats all that score differently
   and, being fixed, the variadic ones that score alike (`beats_of_exact`).
-/

namespace SemanticAnalysis

/-! ## Scores of arguments -/

section Fits

variable {convert : Ty → Ty → Conversion} {dst : Ty} {fit : Fit}

theorem score_of_betterFit {best : Option Fit} {o : ArgumentOption}
    (h : betterFit convert dst best o = some fit) :
    best = some fit ∨ fit.score = (convert o.ty dst).score := by
  unfold betterFit at h
  dsimp only at h
  split at h
  · split at h
    · cases h
      exact .inr rfl
    · cases h
  · split at h
    · cases h
      exact .inr rfl
    · exact .inl h

theorem score_of_foldl_betterFit {options : List ArgumentOption} {best : Option Fit}
    (h : options.foldl (betterFit convert dst) best = some fit) :
    best = some fit ∨ ∃ o ∈ options, fit.score = (convert o.ty dst).score := by
  induction options generalizing best with
  | nil => exact .inl h
  | cons o rest ih =>
    rcases ih h with hbest | ⟨o', ho', hscore⟩
    · exact (score_of_betterFit hbest).imp_right fun hscore => ⟨o, List.mem_cons_self, hscore⟩
    · exact .inr ⟨o', List.mem_cons_of_mem _ ho', hscore⟩

/-- The best option is one of the options. -/
theorem score_of_bestOption {options : List ArgumentOption}
    (h : bestOption convert dst options = some fit) :
    ∃ o ∈ options, fit.score = (convert o.ty dst).score := by
  rw [bestOption_eq_foldl] at h
  exact (score_of_foldl_betterFit h).resolve_left (by simp)

end Fits

section Scores

variable {table : SymbolTable} {options : Options} {arguments : List CallArgument} {c : Candidate}
  {i : Nat} {r : Resolution}

/-- **Scores.** An argument scores as one of its options does against the parameter it is bound to. -/
theorem score_of_matchCandidate (h : matchCandidate (convert table options) arguments c i = some r) :
    ∃ bindings, bindArguments c.signature arguments = some bindings ∧
      ∀ k a, arguments[k]? = some a →
        ∃ p, c.signature.params[parameterOf bindings k]? = some p ∧
          ∃ o ∈ a.options, r.scores[k]? = some (convert table options o.ty p.ty).score := by
  unfold matchCandidate at h
  obtain ⟨bindings, hbindings, h⟩ := Option.bind_eq_some_iff.1 h
  obtain ⟨fits, hfits, rfl⟩ := Option.map_eq_some_iff.1 h
  refine ⟨bindings, hbindings, fun k a hk => ?_⟩
  have hfit := congrArg (·[k]?) (map_of_mapM hfits)
  simp only [List.getElem?_map, List.getElem?_zipIdx, hk, Option.map_some, Nat.zero_add] at hfit
  obtain ⟨fit, hfound, hfit⟩ := Option.map_eq_some_iff.1 hfit.symm
  obtain ⟨p, hp, hbest⟩ := Option.bind_eq_some_iff.1 hfit.symm
  obtain ⟨o, ho, hscore⟩ := score_of_bestOption hbest
  refine ⟨p, hp, o, ho, ?_⟩
  rw [List.getElem?_map, hfound, Option.map_some, hscore]

/-- Each score is that of an argument. -/
theorem exists_argument_of_score
    (h : matchCandidate (convert table options) arguments c i = some r) {k n : Nat}
    (hn : r.scores[k]? = some n) : ∃ a, arguments[k]? = some a := by
  have hlt := (List.getElem?_eq_some_iff.1 hn).1
  rw [length_scores_of_matchCandidate h] at hlt
  exact ⟨_, List.getElem?_eq_getElem hlt⟩

theorem scores_le_exact (h : matchCandidate (convert table options) arguments c i = some r) :
    ∀ n ∈ r.scores, n ≤ Conversion.exactScore := by
  intro n hn
  obtain ⟨k, hk⟩ := List.mem_iff_getElem?.1 hn
  obtain ⟨a, ha⟩ := exists_argument_of_score h hk
  obtain ⟨bindings, -, hscores⟩ := score_of_matchCandidate h
  obtain ⟨p, -, o, -, hscore⟩ := hscores k a ha
  cases hk.symm.trans hscore
  exact (Conversion.ranked_search table _ [] o.ty p.ty).score_le

end Scores

/-! ## Exact candidates -/

/-- All that an argument can be has one type. -/
def CallArgument.HasType (a : CallArgument) (t : Ty) : Prop :=
  a.options ≠ [] ∧ ∀ o ∈ a.options, (o.ty == t) = true

instance (a : CallArgument) (t : Ty) : Decidable (a.HasType t) :=
  inferInstanceAs (Decidable (_ ∧ _))

/-- A fixed candidate takes a call exactly: it can be bound, and every argument has the type of its
parameter. -/
def TakesExactly (arguments : List CallArgument) (c : Candidate) : Prop :=
  c.signature.isVariadic = false ∧ ∃ bindings, bindArguments c.signature arguments = some bindings ∧
    ∀ k a, arguments[k]? = some a →
      ∃ p, c.signature.params[parameterOf bindings k]? = some p ∧ a.HasType p.ty

instance (arguments : List CallArgument) (c : Candidate) : Decidable (TakesExactly arguments c) :=
  decidable_of_iff (c.signature.isVariadic = false ∧
    ∃ bindings ∈ bindArguments c.signature arguments, ∀ x ∈ arguments.zipIdx,
      ∃ p ∈ c.signature.params[parameterOf bindings x.2]?, x.1.HasType p.ty) <| by
    simp only [TakesExactly, Prod.forall, List.mem_zipIdx_iff_getElem?, Option.mem_def]
    exact and_congr_right fun _ => exists_congr fun _ => and_congr_right fun _ => forall_comm

section Exact

variable {table : SymbolTable} {options : Options} {arguments : List CallArgument}
  {candidates : List Candidate} {c : Candidate} {i : Nat} {r other : Resolution}

/-- An argument of one type scores as an exact fit iff that is the type of the parameter. -/
theorem CallArgument.HasType.score_eq_exact_iff {a : CallArgument} {t dst : Ty} (h : a.HasType t)
    {o : ArgumentOption} (ho : o ∈ a.options) :
    (convert table options o.ty dst).score = Conversion.exactScore ↔ a.HasType dst := by
  have herase : ∀ o' ∈ a.options, o'.ty.erase = t.erase := fun o' ho' =>
    (Ty.beq_iff o'.ty t).1 (h.2 o' ho')
  unfold convert
  rw [Conversion.score_search_eq_exact_iff]
  constructor
  · intro hsame
    refine ⟨h.1, fun o' ho' => (Ty.beq_iff o'.ty dst).2 ?_⟩
    rw [herase o' ho', ← herase o ho, hsame]
  · intro hdst
    exact (Ty.beq_iff o.ty dst).1 (hdst.2 o ho)

theorem TakesExactly.canTake (h : TakesExactly arguments c) (table : SymbolTable) (options : Options) :
    CanTake table options arguments c := by
  obtain ⟨-, bindings, hbindings, hexact⟩ := h
  refine ⟨bindings, hbindings, fun k a ha => ?_⟩
  obtain ⟨p, hp, htype⟩ := hexact k a ha
  obtain ⟨o, ho⟩ := List.exists_mem_of_ne_nil _ htype.1
  refine ⟨p, hp, o, ho, ?_⟩
  rw [(htype.score_eq_exact_iff ho).2 htype]
  decide

theorem TakesExactly.typed (h : TakesExactly arguments c) : ∀ a ∈ arguments, ∃ t, a.HasType t := by
  intro a ha
  obtain ⟨-, bindings, -, hexact⟩ := h
  obtain ⟨k, hk⟩ := List.mem_iff_getElem?.1 ha
  obtain ⟨p, -, htype⟩ := hexact k a hk
  exact ⟨p.ty, htype⟩

/-- **Exactness.** Among fixed candidates, those that take the arguments exactly are those that score
nothing but exact fits. -/
theorem scores_eq_exact_iff (htyped : ∀ a ∈ arguments, ∃ t, a.HasType t)
    (hfixed : c.signature.isVariadic = false)
    (h : matchCandidate (convert table options) arguments c i = some r) :
    (∀ n ∈ r.scores, n = Conversion.exactScore) ↔ TakesExactly arguments c := by
  obtain ⟨bindings, hbindings, hscores⟩ := score_of_matchCandidate h
  constructor
  · intro hall
    refine ⟨hfixed, bindings, hbindings, fun k a ha => ?_⟩
    obtain ⟨t, ht⟩ := htyped a (List.mem_of_getElem? ha)
    obtain ⟨p, hp, o, ho, hscore⟩ := hscores k a ha
    exact ⟨p, hp, (ht.score_eq_exact_iff ho).1 (hall _ (List.mem_of_getElem? hscore))⟩
  · rintro ⟨-, bindings', hbindings', hexact⟩ n hn
    cases hbindings.symm.trans hbindings'
    obtain ⟨k, hk⟩ := List.mem_iff_getElem?.1 hn
    obtain ⟨a, ha⟩ := exists_argument_of_score h hk
    obtain ⟨p, hp, o, ho, hscore⟩ := hscores k a ha
    obtain ⟨p', hp', htype⟩ := hexact k a ha
    cases hp.symm.trans hp'
    cases hk.symm.trans hscore
    exact (htype.score_eq_exact_iff ho).2 htype

/-- Exact scores beat all others, and those of a variadic candidate that are exact too. -/
theorem beats_of_exact (hr : IsViable table options arguments candidates r)
    (ho : IsViable table options arguments candidates other)
    (hexact : ∀ n ∈ r.scores, n = Conversion.exactScore)
    (hfixed : (standingOf candidates r).variadic = false)
    (htie : r.scores = other.scores → (standingOf candidates other).variadic = true) :
    Beats candidates r other := by
  obtain ⟨c, -, hmatch⟩ := hr
  obtain ⟨d, -, hmatch'⟩ := ho
  have hworse : ∀ (k x y : Nat), r.scores[k]? = some x → other.scores[k]? = some y → y ≤ x := by
    intro k x y hx hy
    rw [hexact x (List.mem_of_getElem? hx)]
    exact scores_le_exact hmatch' y (List.mem_of_getElem? hy)
  have hlength : r.scores.length = other.scores.length := by
    rw [length_scores_of_matchCandidate hmatch, length_scores_of_matchCandidate hmatch']
  refine ⟨hworse, ?_⟩
  by_cases heq : r.scores = other.scores
  · exact .inr ⟨heq, hfixed, htie heq⟩
  · exact .inl ((exists_lt_iff_ne ((forall₂_iff_getElem? hlength).2 hworse)).2 heq)

theorem variadic_standingOf (h : candidates[r.candidate]? = some c) :
    (standingOf candidates r).variadic = c.signature.isVariadic := by
  unfold standingOf
  rw [h]
  rfl

end Exact

/-- **An exact overload wins.** If exactly one fixed candidate can be bound so that every argument has the
type of its parameter, the call resolves to it, with the score of an exact fit for every argument. The
other candidates do not matter, nor do their order, the bound on conversions and the way ambiguity is
handled. -/
theorem resolveCall_exact (table : SymbolTable) (options : Options) {arguments : List CallArgument}
    {candidates : List Candidate} {i : Nat} {c : Candidate} (hc : candidates[i]? = some c)
    (hexact : TakesExactly arguments c)
    (hunique : ∀ j d, candidates[j]? = some d → TakesExactly arguments d → j = i) :
    ∃ r, resolveCall table options arguments candidates = .ok r ∧ r.candidate = i ∧
      r.item = c.item ∧ r.scores = List.replicate arguments.length 64 := by
  obtain ⟨r, hr, rfl⟩ := (exists_isViable_iff hc).2 (hexact.canTake table options)
  obtain ⟨c', hc', hmatch⟩ := id hr
  cases hc.symm.trans hc'
  have hscores := (scores_eq_exact_iff hexact.typed hexact.1 hmatch).2 hexact
  have hlead : leaders table options arguments candidates = [r] := by
    refine leaders_eq_singleton_iff.2 ⟨hr, fun other ho hne => ?_⟩
    refine beats_of_exact hr ho hscores ((variadic_standingOf hc).trans hexact.1) fun heq => ?_
    obtain ⟨d, hd, hmatch'⟩ := ho
    rw [variadic_standingOf hd]
    -- a fixed candidate that scores alike takes the call exactly, so it is the same one
    by_contra hfixed
    rw [Bool.not_eq_true] at hfixed
    exact hne (hunique _ d hd ((scores_eq_exact_iff hexact.typed hfixed hmatch').1 (heq ▸ hscores)))
  refine ⟨r, ?_, rfl, item_of_matchCandidate hmatch, ?_⟩
  · rw [resolveCall_eq, hlead]
  · exact List.eq_replicate_iff.2 ⟨length_scores_of_matchCandidate hmatch, hscores⟩

/-- Four functions that take an integer and a `y` that is a double. The last one takes them exactly, and
so does the third, which packs the integer. -/
def doubleCandidates : List Candidate :=
  [⟨none, ⟨[{ name := "x", ty := .any }, { name := "y", ty := .any }], .void⟩⟩,
    ⟨none, ⟨[{ name := "x", ty := .native .double }, { name := "y", ty := .native .double }], .void⟩⟩,
    ⟨none, ⟨[{ name := "y", ty := .native .double }, { name := "xs", ty := .int, variadic := true }],
      .void⟩⟩,
    ⟨none, ⟨[{ name := "x", ty := .int }, { name := "y", ty := .native .double }], .void⟩⟩]

/-- The last function is taken, although the first declared one is preferred. -/
theorem resolveCall_exact_last :
    let arguments : List CallArgument := [{ CallArgument.typed (.native .double) with name := some "y" },
      .typed .int]
    let options : Options := { ambiguity := .firstDeclared }
    (viable {} options arguments doubleCandidates).map (·.candidate) = [0, 1, 2, 3] ∧
      (∀ x ∈ doubleCandidates.zipIdx, TakesExactly arguments x.1 ↔ x.2 = 3) ∧
      ∃ r, resolveCall {} options arguments doubleCandidates = .ok r ∧ r.candidate = 3 ∧
        r.item = none ∧ r.scores = [64, 64] := by
  intro arguments options
  have hexact : ∀ x ∈ doubleCandidates.zipIdx, TakesExactly arguments x.1 ↔ x.2 = 3 := by
    decide +kernel
  have hiff : ∀ j d, doubleCandidates[j]? = some d → (TakesExactly arguments d ↔ j = 3) :=
    fun j d hd => hexact (d, j) (List.mem_zipIdx_iff_getElem?.2 hd)
  exact ⟨by decide +kernel, hexact,
    resolveCall_exact {} options rfl ((hiff 3 _ rfl).2 rfl) fun j d hd => (hiff j d hd).1⟩

end SemanticAnalysis
