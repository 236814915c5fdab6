import SemanticAnalysis.Proofs.Conversion.Derivation

/-!
# Scores rank conversions

Overloads are ranked by score, so the order of the scores has to be the order of preference: a type
fits itself best, and whatever goes through a user cast comes after nearly everything else.
`Ranked limit` is the invariant behind this: a score of at most `limit`, and for a conversion through
a cast a score between one and that of a cast.

1. Each operation on scores keeps the invariant (`Ranked.loosened`, `Ranked.cappedAt`,
   `Ranked.better`), and so does each choice and each rule.
2. If all that the rules ask for ranks at most as exact, what they find ranks below
   (`ranked_rules`): only the two rules that read through a layer pass a score on, one lower.
3. **`convert_ranked`**: by induction over the depth of the search.
-/

namespace SemanticAnalysis

namespace Conversion

/-- A score of at most `limit`; a conversion through a user cast is possible, and scores no more than
a cast does. -/
structure Ranked (limit : Nat) (c : Conversion) : Prop where
  score_le : c.score ≤ limit
  of_cast : ∀ cast, c.via = some cast → 0 < c.score ∧ c.score ≤ castScore

/-! ## Operations on scores -/

namespace Ranked

variable {c d : Conversion} {limit limit' : Nat}

theorem mono (h : Ranked limit c) (hle : limit ≤ limit') : Ranked limit' c :=
  ⟨Nat.le_trans h.score_le hle, h.of_cast⟩

theorem ofScore {n : Nat} (h : n ≤ limit) : Ranked limit (ofScore n) where
  score_le := h
  of_cast cast hvia := by cases hvia

theorem impossible : Ranked limit impossible := ofScore (Nat.zero_le limit)

/-- What is not possible scores nothing. -/
theorem of_not_isPossible (h : Ranked limit c) (hc : ¬ c.isPossible = true) : Ranked limit' c := by
  rw [isPossible_iff] at hc
  refine ⟨by omega, fun cast hvia => ?_⟩
  exact absurd (h.of_cast cast hvia).1 hc

theorem loosened (h : Ranked (limit + 1) c) (hlimit : 0 < limit) : Ranked limit c.loosened := by
  have hscore : c.loosened.score = max (c.score - 1) 1 := rfl
  have hle := h.score_le
  refine ⟨by omega, fun cast hvia => ?_⟩
  obtain ⟨-, hcast⟩ := h.of_cast cast hvia
  have hpos : 0 < castScore := by decide
  omega

theorem cappedAt (h : Ranked limit c) (hlimit : 0 < limit') : Ranked limit' (c.cappedAt limit') := by
  have hscore : (c.cappedAt limit').score = min c.score limit' := rfl
  refine ⟨by omega, fun cast hvia => ?_⟩
  obtain ⟨hpos, hcast⟩ := h.of_cast cast hvia
  omega

theorem better (hc : Ranked limit c) (hd : Ranked limit d) : Ranked limit (better c d) := by
  unfold Conversion.better
  split
  · exact hd
  · exact hc

end Ranked

/-! ## Rules -/

section Rules

variable {table : SymbolTable} {search : Ty → Ty → Conversion} {src dst : Ty} {limit : Nat}

theorem ranked_bestOf (h : ∀ x y, Ranked limit (search x y)) (src : Ty) (members : List Ty) :
    Ranked limit (bestOf search src members) := by
  have hfold : ∀ best, Ranked limit best →
      Ranked limit (members.foldl (fun best member => better best (search src member)) best) := by
    induction members with
    | nil => exact fun best hbest => hbest
    | cons m rest ih => exact fun best hbest => ih _ (hbest.better (h src m))
  exact hfold impossible .impossible

theorem ranked_everyMember (dst : Ty) (worst : Nat) (members : List Ty) :
    Ranked worst (everyMember search dst worst members) := by
  induction members generalizing worst with
  | nil => exact .ofScore (Nat.le_refl worst)
  | cons m rest ih =>
    rw [everyMember]
    split
    · exact (ih _).mono (Nat.min_le_left _ _)
    · exact .impossible

theorem score_le_of_nativeRule {score : Nat} (h : nativeRule src dst = some score) :
    score ≤ floatScore := by
  unfold nativeRule at h
  split at h
  · split at h
    · cases h
    · split at h <;> cases h <;> decide
  · cases h

theorem score_le_of_upcastRule {score : Nat} (h : upcastRule table src dst = some score) :
    score ≤ upcastScore := by
  unfold upcastRule at h
  split at h
  · split at h
    · cases h
    · split at h
      · cases h
      · dsimp only at h
        split at h
        · cases h
        · split at h
          · cases h
            exact Nat.sub_le _ _
          · cases h
  · cases h

theorem ranked_castRule : Ranked castScore (castRule table search src dst) := by
  have hcast : ∀ cast, Ranked castScore ⟨castScore, some cast⟩ := fun cast =>
    ⟨Nat.le_refl _, fun _ _ => ⟨Nat.succ_pos _, Nat.le_refl _⟩⟩
  unfold castRule
  dsimp only
  split
  · exact hcast _
  · split
    · exact hcast _
    · exact .impossible

/-- What is found through a layer scores less than an exact fit. -/
theorem ranked_through {x y : Ty} (h : Ranked exactScore (search x y)) :
    Ranked 63 (if (search x y).isPossible = true then (search x y).loosened else search x y) := by
  have hnext : Ranked (63 + 1) (search x y) := h
  split
  · exact hnext.loosened (by decide)
  · rename_i hnot
    exact h.of_not_isPossible hnot

theorem ranked_referenceRule (h : ∀ x y, Ranked exactScore (search x y)) :
    Ranked 63 (referenceRule search src dst) := by
  unfold referenceRule
  split
  · exact ranked_through (h _ _)
  · split
    · split
      · rename_i value _
        have hread := ranked_through (h value dst)
        dsimp only
        split
        · rename_i hpos
          rwa [if_pos hpos] at hread
        · exact .impossible
      · exact .impossible
    · exact .impossible

theorem ranked_optionalRule (h : ∀ x y, Ranked exactScore (search x y)) {c : Conversion}
    (hc : optionalRule search src dst = some c) : Ranked 63 c := by
  unfold optionalRule at hc
  split at hc
  · split at hc
    · cases hc
      exact ranked_through (h _ _)
    · dsimp only at hc
      split at hc
      · cases hc
        exact ((h _ _).cappedAt (by decide)).mono (by decide)
      · cases hc
  · cases hc

theorem ranked_intoUnionRule (h : ∀ x y, Ranked exactScore (search x y)) {c : Conversion}
    (hc : intoUnionRule search src dst = some c) : Ranked 63 c := by
  unfold intoUnionRule at hc
  split at hc
  · dsimp only at hc
    split at hc
    · cases hc
      exact ((ranked_bestOf h src _).cappedAt (by decide)).mono (by decide)
    · cases hc
  · cases hc

theorem ranked_outOfUnionRule : Ranked 63 (outOfUnionRule search src dst) := by
  unfold outOfUnionRule
  split
  · exact (ranked_everyMember dst unionScore _).mono (by decide)
  · exact .impossible

theorem ranked_wrapperRule (h : ∀ x y, Ranked exactScore (search x y)) :
    Ranked 63 (wrapperRule search src dst) := by
  unfold wrapperRule
  split
  · rename_i c hc
    rw [Option.orElse_eq_or] at hc
    rcases Option.or_eq_some_iff.1 hc with hc | ⟨-, hc⟩
    · exact ranked_optionalRule h hc
    · exact ranked_intoUnionRule h hc
  · exact ranked_outOfUnionRule

/-- **One step.** Rules that build on ranked conversions find one that scores less than an exact
fit. -/
theorem ranked_rules (h : ∀ x y, Ranked exactScore (search x y)) :
    Ranked 63 (rules table search src dst) := by
  unfold rules
  dsimp only
  split
  · exact .ofScore (by decide)
  split
  · exact .ofScore (by decide)
  split
  · exact .ofScore (by decide)
  split
  · exact ranked_referenceRule h
  split
  · rename_i score hscore
    rw [Option.orElse_eq_or] at hscore
    rcases Option.or_eq_some_iff.1 hscore with hscore | ⟨-, hscore⟩
    · exact .ofScore (Nat.le_trans (score_le_of_nativeRule hscore) (by decide))
    · exact .ofScore (Nat.le_trans (score_le_of_upcastRule hscore) (by decide))
  split
  · exact .ofScore (by decide)
  split
  · exact ranked_wrapperRule h
  · exact ranked_castRule.mono (by decide)

end Rules

/-! ## Search -/

section Search

variable (table : SymbolTable)

theorem ranked_search (depth : Nat) (active : List (Ty × Ty)) (src dst : Ty) :
    Ranked exactScore (search table depth active src dst) := by
  induction depth generalizing active src dst with
  | zero =>
    rw [search]
    split
    · exact .ofScore (Nat.le_refl _)
    · exact .impossible
  | succ depth ih =>
    rw [search]
    split
    · exact .ofScore (Nat.le_refl _)
    dsimp only
    split
    · exact .impossible
    · exact (ranked_rules (ih _)).mono (by decide)

theorem score_search_of_same (depth : Nat) (active : List (Ty × Ty)) {src dst : Ty}
    (h : src.erase = dst.erase) : (search table depth active src dst).score = exactScore := by
  unfold search
  rw [if_pos ((Ty.beq_iff src dst).2 h)]
  rfl

/-- Types that differ convert by a rule, if at all. -/
theorem ranked_search_of_ne (depth : Nat) (active : List (Ty × Ty)) {src dst : Ty}
    (h : src.erase ≠ dst.erase) : Ranked 63 (search table depth active src dst) := by
  unfold search
  rw [if_neg (mt (Ty.beq_iff src dst).1 h)]
  cases depth with
  | zero => exact .impossible
  | succ depth =>
    dsimp only
    split
    · exact .impossible
    · exact ranked_rules (ranked_search table depth _)

theorem score_search_eq_exact_iff (depth : Nat) (active : List (Ty × Ty)) {src dst : Ty} :
    (search table depth active src dst).score = exactScore ↔ src.erase = dst.erase := by
  refine ⟨fun hexact => ?_, score_search_of_same table depth active⟩
  by_cases hsame : src.erase = dst.erase
  · exact hsame
  · have hbelow := (ranked_search_of_ne table depth active hsame).score_le
    rw [hexact] at hbelow
    exact absurd hbelow (by decide)

end Search

end Conversion

/-- **Only identity is exact, and casts rank low.** Whatever the depth bound, a conversion scores 64 iff
the two types are the same up to the names and ids of parameters, at most 63 otherwise, and between 1
and 12 if it goes through a user cast. -/
theorem convert_ranked (table : SymbolTable) (options : Options) (src dst : Ty) :
    ((convert table options src dst).score = 64 ↔ src.erase = dst.erase) ∧
      (src.erase ≠ dst.erase → (convert table options src dst).score ≤ 63) ∧
      ∀ cast, (convert table options src dst).via = some cast →
        1 ≤ (convert table options src dst).score ∧ (convert table options src dst).score ≤ 12 := by
  unfold convert
  exact ⟨Conversion.score_search_eq_exact_iff table _ [],
    fun hne => (Conversion.ranked_search_of_ne table _ [] hne).score_le,
    (Conversion.ranked_search table _ [] src dst).of_cast⟩

end SemanticAnalysis
