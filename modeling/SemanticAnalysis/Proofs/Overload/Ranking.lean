import Mathlib.Data.List.Forall2
import SemanticAnalysis.Overload.Ranking

/-!
# Ranking is a strict partial order

`Standing.dominates` compares scores argument by argument and breaks ties in favour of a standing
that packs no arguments. It is irreflexive and transitive, so in a finite list every standing is
undominated or dominated by an undominated one (`exists_undominated`).

`selectBest` looks at nothing but the undominated standings (`selectBest_eq`), and there always is
one.
-/

namespace SemanticAnalysis

/-! ## Comparing scores -/

/-- Scores that are nowhere worse are better somewhere or equal. -/
theorem any_lt_iff_ne {xs ys : List Nat} (h : List.Forall₂ (fun x y => y ≤ x) xs ys) :
    ((xs.zip ys).any fun (x, y) => y < x) = true ↔ xs ≠ ys := by
  induction h with
  | nil => simp
  | @cons x y xs ys hxy _ ih =>
    rw [List.zip_cons_cons, List.any_cons, Bool.or_eq_true, ih, decide_eq_true_eq]
    constructor
    · rintro (hlt | hne) heq
      · cases heq
        omega
      · cases heq
        exact hne rfl
    · intro hne
      by_cases hx : y < x
      · exact .inl hx
      · refine .inr fun heq => hne ?_
        rw [heq, Nat.le_antisymm (Nat.not_lt.1 hx) hxy]

theorem scores_antisymm {xs ys : List Nat} (h : List.Forall₂ (fun x y => y ≤ x) xs ys)
    (h' : List.Forall₂ (fun x y => y ≤ x) ys xs) : xs = ys := by
  induction h with
  | nil => rfl
  | cons hxy _ ih =>
    obtain ⟨hyx, hrest⟩ := List.forall₂_cons.1 h'
    rw [ih hrest, Nat.le_antisymm hyx hxy]

theorem scores_trans {xs ys zs : List Nat} (h : List.Forall₂ (fun x y => y ≤ x) xs ys)
    (h' : List.Forall₂ (fun x y => y ≤ x) ys zs) : List.Forall₂ (fun x y => y ≤ x) xs zs := by
  induction h generalizing zs with
  | nil => exact h'
  | cons hxy _ ih =>
    cases h' with
    | cons hyz hrest => exact .cons (Nat.le_trans hyz hxy) (ih hrest)

/-- Fewer elements satisfy a property that implies another, when one tells them apart. -/
theorem countP_lt_of_imp {α : Type} {p q : α → Bool} {l : List α} {a : α}
    (himp : ∀ c, p c = true → q c = true) (ha : a ∈ l) (hp : p a = false) (hq : q a = true) :
    l.countP p < l.countP q := by
  obtain ⟨before, after, rfl⟩ := List.append_of_mem ha
  have hbefore : before.countP p ≤ before.countP q := List.countP_mono_left fun c _ => himp c
  have hafter : after.countP p ≤ after.countP q := List.countP_mono_left fun c _ => himp c
  simp only [List.countP_append, List.countP_cons, hp, hq, if_true, Bool.false_eq_true, if_false]
  omega

namespace Standing

/-! ## The order -/

/-- One standing dominates another: nowhere worse, and either better somewhere or alike with only the
other packing arguments. -/
theorem dominates_iff {a b : Standing} :
    a.dominates b = true ↔
      List.Forall₂ (fun x y => y ≤ x) a.scores b.scores ∧
        (a.scores ≠ b.scores ∨ a.variadic = false ∧ b.variadic = true) := by
  have hall : a.scores.length = b.scores.length ∧
      ((a.scores.zip b.scores).all fun (x, y) => y ≤ x) = true ↔
        List.Forall₂ (fun x y => y ≤ x) a.scores b.scores := by
    rw [List.forall₂_iff_zip]
    simp
  unfold dominates
  rw [Bool.and_eq_true, Bool.and_eq_true, beq_iff_eq, hall, Bool.or_eq_true]
  refine and_congr_right fun hscores => ?_
  rw [any_lt_iff_ne hscores]
  simp

theorem dominates_irrefl (a : Standing) : a.dominates a = false := by
  rw [← Bool.not_eq_true, dominates_iff]
  rintro ⟨-, h | ⟨h, h'⟩⟩
  · exact h rfl
  · rw [h] at h'
    cases h'

theorem dominates_trans {a b c : Standing} (hab : a.dominates b = true) (hbc : b.dominates c = true) :
    a.dominates c = true := by
  rw [dominates_iff] at hab hbc ⊢
  obtain ⟨hab, hab'⟩ := hab
  obtain ⟨hbc, hbc'⟩ := hbc
  refine ⟨scores_trans hab hbc, ?_⟩
  by_cases hac : a.scores = c.scores
  · -- all three score alike, and `b` cannot be both fixed and variadic
    have hb : a.scores = b.scores := scores_antisymm hab (hac ▸ hbc)
    have hc : b.scores = c.scores := hb ▸ hac
    rcases hab' with hne | ⟨-, hvariadic⟩
    · exact absurd hb hne
    · rcases hbc' with hne | ⟨hfixed, -⟩
      · exact absurd hc hne
      · rw [hfixed] at hvariadic
        cases hvariadic
  · exact .inl hac

/-! ## Undominated standings -/

/-- No standing of a list dominates `b`. -/
def isTop (all : List Standing) (b : Standing) : Bool := !all.any (·.dominates b)

theorem isTop_iff {all : List Standing} {b : Standing} :
    isTop all b = true ↔ ∀ a ∈ all, a.dominates b = false := by
  simp [isTop]

/-- **Maximality.** In a list, what is not undominated is dominated by an undominated standing. -/
theorem exists_undominated {all : List Standing} {b : Standing} (hb : b ∈ all) :
    ∃ a ∈ all, isTop all a = true ∧ (a = b ∨ a.dominates b = true) := by
  -- induction on the number of standings that dominate `b`
  induction hn : all.countP (·.dominates b) using Nat.strongRecOn generalizing b with
  | ind n ih =>
    by_cases htop : isTop all b = true
    · exact ⟨b, hb, htop, .inl rfl⟩
    · have hsome : ∃ a ∈ all, a.dominates b = true := by simpa [isTop] using htop
      obtain ⟨a, ha, hab⟩ := hsome
      -- what dominates `a` dominates `b`, and `a` itself only `b`
      have hfewer : all.countP (·.dominates a) < all.countP (·.dominates b) :=
        countP_lt_of_imp (fun c hca => dominates_trans hca hab) ha (dominates_irrefl a) hab
      obtain ⟨top, hmem, htop', hta⟩ := ih _ (hn ▸ hfewer) ha rfl
      refine ⟨top, hmem, htop', .inr ?_⟩
      rcases hta with rfl | hta
      · exact hab
      · exact dominates_trans hta hab

/-- A standing is not compared with itself, which makes no difference. -/
theorem undominated_eq (all : List Standing) :
    undominated all = (all.zipIdx.filter fun (b, _) => isTop all b).map (·.2) := by
  unfold undominated
  congr 1
  refine List.filter_congr fun (b, i) hb => ?_
  rw [List.mem_zipIdx_iff_getElem?] at hb
  show (!all.zipIdx.any fun (a, j) => j != i && a.dominates b) = isTop all b
  rw [isTop, Bool.not_eq_eq_eq_not, Bool.not_not, Bool.eq_iff_iff, List.any_eq_true,
    List.any_eq_true]
  constructor
  · rintro ⟨⟨a, j⟩, ha, hdom⟩
    rw [List.mem_zipIdx_iff_getElem?] at ha
    exact ⟨a, List.mem_of_getElem? ha, (Bool.and_eq_true_iff.1 hdom).2⟩
  · rintro ⟨a, ha, hdom⟩
    obtain ⟨j, hj⟩ := List.mem_iff_getElem?.1 ha
    refine ⟨(a, j), List.mem_zipIdx_iff_getElem?.2 hj, ?_⟩
    have hne : j ≠ i := by
      rintro rfl
      rw [hj] at hb
      cases hb
      rw [dominates_irrefl] at hdom
      cases hdom
    simp [hne, hdom]

/-- Filtering with indices and looking the indices up is filtering. -/
theorem filter_zipIdx_map_getElem? {α : Type} (found : List α) (p : α → Bool) :
    ((found.zipIdx.filter fun (r, _) => p r).map (·.2)).map (found[·]?) =
      (found.filter p).map some := by
  have hfilter : found.filter p = (found.zipIdx.filter fun (r, _) => p r).map (·.1) := by
    conv_lhs => rw [← List.zipIdx_map_fst 0 found, List.filter_map]
    rfl
  rw [hfilter, List.map_map, List.map_map]
  refine List.map_congr_left fun (r, i) hmem => ?_
  exact List.mem_zipIdx_iff_getElem?.1 (List.mem_filter.1 hmem).1

/-- The undominated standings, as what they are the standings of. -/
theorem undominated_map_getElem? {α : Type} (found : List α) (standing : α → Standing) :
    (undominated (found.map standing)).map (found[·]?) =
      (found.filter fun r => isTop (found.map standing) (standing r)).map some := by
  rw [← filter_zipIdx_map_getElem?, undominated_eq, List.zipIdx_map, List.filter_map]
  simp [List.map_map, Function.comp_def]

theorem undominated_ne_nil {all : List Standing} (h : all ≠ []) : undominated all ≠ [] := by
  obtain ⟨b, hb⟩ := List.exists_mem_of_ne_nil all h
  obtain ⟨a, ha, htop, -⟩ := exists_undominated hb
  obtain ⟨i, hi⟩ := List.mem_iff_getElem?.1 ha
  rw [undominated_eq]
  refine List.ne_nil_of_mem (List.mem_map.2 ⟨(a, i), List.mem_filter.2 ⟨?_, htop⟩, rfl⟩)
  exact List.mem_zipIdx_iff_getElem?.2 hi

/-- Only the undominated standings decide. -/
theorem selectBest_eq (policy : AmbiguityPolicy) (all : List Standing) :
    selectBest policy all =
      match undominated all, policy with
      | [winner], _ => .ok winner
      | first :: _, .firstDeclared => .ok first
      | tied, _ => .error tied := by
  unfold selectBest
  split
  · rename_i hlength
    obtain ⟨a, rfl⟩ := List.length_eq_one_iff.1 (beq_iff_eq.1 hlength)
    have hsingle : undominated [a] = [0] := by
      simp [undominated_eq, isTop, dominates_irrefl]
    rw [hsingle]
  · rfl

end Standing

end SemanticAnalysis
