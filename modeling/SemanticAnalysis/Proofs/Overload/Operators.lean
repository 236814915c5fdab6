import SemanticAnalysis.Overload.Resolution
import SemanticAnalysis.Proofs.SymbolTable.Queue
import SemanticAnalysis.Proofs.Ty.Erasure

/-!
# Operators of a class are the nearest overrides

The candidates for an operator are gathered from a class and its ancestors, nearest first, and one is dropped as soon
as an earlier one has the same parameters. Such a list has no two entries of the same parameters
(`pairwise_foldl_addUnhidden`), and whatever is dropped is hidden by an entry that came no later
(`exists_hides_of_mem`). In a list of classes that is ordered by distance, what came no later is no further away.
-/

namespace SemanticAnalysis

/-! ## Hiding -/

namespace Candidate

/-- The parameters are the same, whatever their names. -/
def Hides (a b : Candidate) : Prop :=
  Ty.eraseParams a.signature.params = Ty.eraseParams b.signature.params

theorem beq_params_iff {a b : Candidate} :
    (a.signature.params == b.signature.params) = true ↔ a.Hides b := Ty.params_beq_iff _ _

/-- Add a candidate that no earlier one hides. -/
def addUnhidden (kept : List Candidate) (c : Candidate) : List Candidate :=
  if kept.any fun k => k.signature.params == c.signature.params then kept else kept ++ [c]

variable {kept cs : List Candidate} {a c : Candidate}

theorem any_hides_iff : (kept.any fun k => k.signature.params == c.signature.params) = true ↔
    ∃ k ∈ kept, k.Hides c := by
  rw [List.any_eq_true]
  exact exists_congr fun k => and_congr_right fun _ => beq_params_iff

theorem mem_addUnhidden (h : a ∈ addUnhidden kept c) : a ∈ kept ∨ a = c := by
  unfold addUnhidden at h
  split at h
  · exact .inl h
  · rcases List.mem_append.1 h with h | h
    · exact .inl h
    · exact .inr (List.mem_singleton.1 h)

theorem mem_addUnhidden_of_mem (h : a ∈ kept) : a ∈ addUnhidden kept c := by
  unfold addUnhidden
  split
  · exact h
  · exact List.mem_append_left _ h

/-- A candidate that is not added is hidden. -/
theorem exists_hides_addUnhidden (kept : List Candidate) (c : Candidate) :
    ∃ k ∈ addUnhidden kept c, k.Hides c := by
  unfold addUnhidden
  split
  · rename_i hany
    exact any_hides_iff.1 hany
  · exact ⟨c, List.mem_append_right _ (List.mem_singleton_self c), rfl⟩

theorem pairwise_addUnhidden (h : kept.Pairwise fun a b => ¬ a.Hides b) :
    (addUnhidden kept c).Pairwise fun a b => ¬ a.Hides b := by
  unfold addUnhidden
  split
  · exact h
  · rename_i hnone
    refine List.pairwise_append.2 ⟨h, List.pairwise_singleton _ c, fun a ha b hb => ?_⟩
    obtain rfl := List.mem_singleton.1 hb
    intro hhides
    exact hnone (any_hides_iff.2 ⟨a, ha, hhides⟩)

theorem mem_foldl_addUnhidden (h : a ∈ cs.foldl addUnhidden kept) : a ∈ kept ∨ a ∈ cs := by
  induction cs generalizing kept with
  | nil => exact .inl h
  | cons c cs ih =>
    rcases ih h with hstep | hrest
    · rcases mem_addUnhidden hstep with hkept | rfl
      · exact .inl hkept
      · exact .inr List.mem_cons_self
    · exact .inr (List.mem_cons_of_mem c hrest)

theorem mem_foldl_addUnhidden_of_mem (h : a ∈ kept) : a ∈ cs.foldl addUnhidden kept := by
  induction cs generalizing kept with
  | nil => exact h
  | cons c cs ih => exact ih (mem_addUnhidden_of_mem h)

theorem pairwise_foldl_addUnhidden (h : kept.Pairwise fun a b => ¬ a.Hides b) :
    (cs.foldl addUnhidden kept).Pairwise fun a b => ¬ a.Hides b := by
  induction cs generalizing kept with
  | nil => exact h
  | cons c cs ih => exact ih (pairwise_addUnhidden h)

/-- Whatever was offered is hidden by what is kept. -/
theorem exists_hides_of_mem (h : c ∈ cs) : ∃ k ∈ cs.foldl addUnhidden kept, k.Hides c := by
  induction cs generalizing kept with
  | nil => cases h
  | cons first cs ih =>
    rw [List.foldl_cons]
    rcases List.mem_cons.1 h with rfl | hrest
    · obtain ⟨k, hk, hhides⟩ := exists_hides_addUnhidden kept c
      exact ⟨k, mem_foldl_addUnhidden_of_mem hk, hhides⟩
    · exact ih hrest

end Candidate

/-! ## Operators -/

namespace SymbolTable

variable {t : SymbolTable} {cls owner i : ItemId} {op : Operator} {side : Side} {f : Function} {d : Nat}

/-- A function that a class lists among its operators and that implements the operator, on the side if there are
two. -/
structure Implements (t : SymbolTable) (op : Operator) (side : Side) (owner i : ItemId) (f : Function) :
    Prop where
  listed : ∃ c, t.class? owner = some c ∧ i ∈ c.operators
  function : t.function? i = some f
  operator : f.operator = some op
  side : op.isBinary = true → f.side = side

/-- The candidate is a function for the operator, declared by a class at that distance. -/
def OffersAt (t : SymbolTable) (cls : ItemId) (op : Operator) (side : Side) (c : Candidate) (d : Nat) :
    Prop :=
  ∃ owner i f, t.distance? cls owner = some d ∧ t.Implements op side owner i f ∧ c = ⟨some i, f.signature⟩

/-- The candidates for an operator differ in their parameters, they are functions of the class and its ancestors
for the operator, and every other such function has the parameters of one that is no further away. -/
structure NearestOverrides (t : SymbolTable) (cls : ItemId) (op : Operator) (side : Side)
    (candidates : List Candidate) : Prop where
  distinct : candidates.Pairwise fun a b =>
    Ty.eraseParams a.signature.params ≠ Ty.eraseParams b.signature.params
  offered : ∀ c ∈ candidates, ∃ d, t.OffersAt cls op side c d
  nearest : ∀ g d, t.OffersAt cls op side g d →
    ∃ c ∈ candidates, Ty.eraseParams c.signature.params = Ty.eraseParams g.signature.params ∧
      ∃ e ≤ d, t.OffersAt cls op side c e

/-- What one class offers for an operator. -/
def operatorsOf (t : SymbolTable) (op : Operator) (side : Side) (owner : ItemId) : List Candidate :=
  (((t.class? owner).map (·.operators)).getD []).filterMap (operatorCandidate? t op side)

theorem operatorCandidates_eq (t : SymbolTable) (cls : ItemId) (op : Operator) (side : Side) :
    operatorCandidates t cls op side =
      ((t.withAncestors cls).flatMap (t.operatorsOf op side)).foldl Candidate.addUnhidden [] := by
  unfold operatorCandidates operatorsOf
  dsimp only
  rw [List.filterMap_flatMap]
  rfl

theorem operatorCandidate?_eq_some_iff {c : Candidate} :
    operatorCandidate? t op side i = some c ↔
      ∃ f, t.function? i = some f ∧ f.operator = some op ∧ (op.isBinary = true → f.side = side) ∧
        c = ⟨some i, f.signature⟩ := by
  unfold operatorCandidate?
  rw [Option.bind_eq_some_iff]
  refine exists_congr fun f => and_congr_right fun _ => ?_
  have hguard : (f.operator == some op && (!op.isBinary || f.side == side)) = true ↔
      f.operator = some op ∧ (op.isBinary = true → f.side = side) := by
    cases op.isBinary <;> simp
  by_cases h : f.operator = some op ∧ (op.isBinary = true → f.side = side)
  · rw [if_pos (hguard.2 h), Option.some_inj]
    exact ⟨fun heq => ⟨h.1, h.2, heq.symm⟩, fun heq => heq.2.2.symm⟩
  · rw [if_neg (mt hguard.1 h)]
    exact ⟨nofun, fun heq => absurd ⟨heq.1, heq.2.1⟩ h⟩

theorem mem_operatorsOf_iff {c : Candidate} :
    c ∈ t.operatorsOf op side owner ↔
      ∃ i f, t.Implements op side owner i f ∧ c = ⟨some i, f.signature⟩ := by
  have hlisted : ∀ i, i ∈ ((t.class? owner).map (·.operators)).getD [] ↔
      ∃ c, t.class? owner = some c ∧ i ∈ c.operators := by
    intro i
    cases t.class? owner <;> simp
  unfold operatorsOf
  rw [List.mem_filterMap]
  constructor
  · rintro ⟨i, hi, hc⟩
    obtain ⟨f, hf, hoperator, hside, rfl⟩ := operatorCandidate?_eq_some_iff.1 hc
    exact ⟨i, f, ⟨(hlisted i).1 hi, hf, hoperator, hside⟩, rfl⟩
  · rintro ⟨i, f, himplements, rfl⟩
    refine ⟨i, (hlisted i).2 himplements.listed, operatorCandidate?_eq_some_iff.2 ⟨f, ?_⟩⟩
    exact ⟨himplements.function, himplements.operator, himplements.side, rfl⟩

/-- An ancestor that is listed no later is no further away. -/
theorem exists_distance?_le {nearer further : List ItemId} {near : ItemId}
    (hwalk : t.withAncestors cls = nearer ++ owner :: further) (hnear : near ∈ nearer ++ [owner])
    (hd : t.distance? cls owner = some d) : ∃ e ≤ d, t.distance? cls near = some e := by
  have hfirst : t.NearestFirst cls (nearer ++ owner :: further) := hwalk ▸ t.nearestFirst_withAncestors cls
  rcases List.mem_append.1 hnear with hbefore | hself
  · obtain ⟨m, hm, hpath⟩ :=
      (List.pairwise_append.1 hfirst.ordered).2.2 near hbefore owner List.mem_cons_self d
        (distance?_eq_some_iff.1 hd).path
    obtain ⟨e, he⟩ := exists_isDistance hpath.climbs
    exact ⟨e, (he.shortest m hpath).trans hm, distance?_eq_some_iff.2 he⟩
  · obtain rfl := List.mem_singleton.1 hself
    exact ⟨d, Nat.le_refl d, hd⟩

/-- **Operator candidates are the nearest overrides.** Nothing about the table matters: classes may have any number
of parents, and the hierarchy may even have cycles. -/
theorem operatorCandidates_nearest (t : SymbolTable) (cls : ItemId) (op : Operator) (side : Side) :
    t.NearestOverrides cls op side (operatorCandidates t cls op side) where
  distinct := by
    rw [operatorCandidates_eq]
    exact Candidate.pairwise_foldl_addUnhidden .nil
  offered c hc := by
    rw [operatorCandidates_eq] at hc
    have hmem := (Candidate.mem_foldl_addUnhidden hc).resolve_left List.not_mem_nil
    obtain ⟨owner, howner, hc⟩ := List.mem_flatMap.1 hmem
    obtain ⟨i, f, himplements, rfl⟩ := mem_operatorsOf_iff.1 hc
    obtain ⟨d, hd⟩ := exists_isDistance (((t.nearestFirst_withAncestors cls).mem owner).1 howner)
    exact ⟨d, owner, i, f, distance?_eq_some_iff.2 hd, himplements, rfl⟩
  nearest := by
    rintro g d ⟨owner, i, f, hd, himplements, rfl⟩
    have hclimbs : t.Climbs cls owner := (distance?_eq_some_iff.1 hd).path.climbs
    obtain ⟨nearer, further, hwalk⟩ :=
      List.append_of_mem (((t.nearestFirst_withAncestors cls).mem owner).2 hclimbs)
    -- the walk up to the class that declares the function decides already
    have hoffered : (⟨some i, f.signature⟩ : Candidate) ∈
        (nearer ++ [owner]).flatMap (t.operatorsOf op side) := by
      refine List.mem_flatMap.2 ⟨owner, List.mem_append_right _ (List.mem_singleton_self owner), ?_⟩
      exact mem_operatorsOf_iff.2 ⟨i, f, himplements, rfl⟩
    obtain ⟨c, hc, hhides⟩ : ∃ c ∈ ((nearer ++ [owner]).flatMap (t.operatorsOf op side)).foldl
        Candidate.addUnhidden [], c.Hides ⟨some i, f.signature⟩ := Candidate.exists_hides_of_mem hoffered
    have hkept : c ∈ operatorCandidates t cls op side := by
      rw [operatorCandidates_eq, hwalk, ← List.singleton_append, ← List.append_assoc, List.flatMap_append,
        List.foldl_append]
      exact Candidate.mem_foldl_addUnhidden_of_mem hc
    have hmem := (Candidate.mem_foldl_addUnhidden hc).resolve_left List.not_mem_nil
    obtain ⟨near, hnear, hc⟩ := List.mem_flatMap.1 hmem
    obtain ⟨j, f', himplements', rfl⟩ := mem_operatorsOf_iff.1 hc
    obtain ⟨e, he, hdistance⟩ := exists_distance?_le hwalk hnear hd
    exact ⟨_, hkept, hhides, e, he, near, j, f', hdistance, himplements', rfl⟩

/-- `*` of a class for one type. -/
def productFor (ty : Ty) : Item where
  name := "operator*"
  scope := ⟨0⟩
  module := ⟨0⟩
  entity := .fn { scope := ⟨0⟩, returnType := ty, operator := some (.binary .mul), params := [{ name := "x", ty }] }

/-- Class 0 has `*` for `int`; its parent, class 1, has it for `int` and for `bool`. -/
def overridingTable : SymbolTable where
  items := #[
    { name := "A", scope := ⟨0⟩, module := ⟨0⟩
      entity := .cls { scope := ⟨0⟩, parents := [⟨1⟩], operators := [⟨2⟩] } },
    { name := "B", scope := ⟨0⟩, module := ⟨0⟩, entity := .cls { scope := ⟨0⟩, operators := [⟨3⟩, ⟨4⟩] } },
    productFor .int, productFor .int, productFor .bool]

/-- The nearer `*` for `int` hides the inherited one. -/
example : (operatorCandidates overridingTable ⟨0⟩ (.binary .mul) .left).map (·.item) =
    [some ⟨2⟩, some ⟨4⟩] := by
  decide +kernel

end SymbolTable

end SemanticAnalysis
