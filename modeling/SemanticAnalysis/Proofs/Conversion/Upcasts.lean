import SemanticAnalysis.Proofs.Conversion.Derivation
import SemanticAnalysis.Proofs.SymbolTable.Queue

/-!
# Ancestors and how a class converts to them

`hierarchy_exact` says what the questions about a class and its ancestors answer, in any table: the distance
is the length of a shortest path of parents, the ancestors are what is reached along parents, once each and
nearest first, and the search for either ends. A class then converts to an ancestor under the same layers with
a score that falls with the distance, if there is at most one pointer among them: no rule in front of the one
for ancestors applies (`rules_make_cls`).
-/

namespace SemanticAnalysis

open Conversion

section Upcast

variable {table : SymbolTable} {search : Ty → Ty → Conversion} {a b : ItemId} {layers : List Modifier}
  {d : Nat}

theorem pointerLevel_make_le (kind : Kind Ty) (layers : List Modifier) :
    (Ty.make kind layers).pointerLevel ≤ layers.countP (·.pointer) :=
  List.Sublist.countP_le List.filter_sublist

theorem make_cls_ne (h : a ≠ b) (layers layers' : List Modifier) :
    (Ty.make (.cls a) layers == Ty.make (.cls b) layers') = false := by
  rw [← Bool.not_eq_true, Ty.beq_iff]
  intro heq
  have hclass := congrArg Ty.classId? heq
  rw [Ty.classId?_erase, Ty.classId?_erase] at hclass
  exact h (Option.some.inj hclass)

/-- The rule for ancestors applies to equal layers. -/
theorem upcastRule_make (hne : a ≠ b) (hd : table.distance? a b = some d)
    (hlayers : layers.countP (·.pointer) ≤ 1) :
    upcastRule table (.make (.cls a) layers) (.make (.cls b) layers) = some (32 - min d 15) := by
  have hpos : d ≠ 0 := by
    rintro rfl
    exact hne (SymbolTable.distance?_eq_zero_iff.1 hd)
  have hlevel : ∀ kind : Kind Ty, ¬ 1 < (Ty.make kind layers).pointerLevel := fun kind =>
    Nat.not_lt.2 (Nat.le_trans (pointerLevel_make_le kind layers) hlayers)
  have hrebased : Ty.make (.cls b) (Ty.make (.cls a) layers).layers = Ty.make (.cls b) layers := by
    simp [Ty.make]
  have hguard : (a == b || decide (1 < (Ty.make (.cls a) layers).pointerLevel) ||
      decide (1 < (Ty.make (.cls b) layers).pointerLevel)) = false := by
    rw [decide_eq_false (hlevel _), decide_eq_false (hlevel _), beq_eq_false_iff_ne.2 hne]
    rfl
  unfold upcastRule
  show (if (a == b || decide (1 < (Ty.make (.cls a) layers).pointerLevel) ||
    decide (1 < (Ty.make (.cls b) layers).pointerLevel)) = true then none else _) = _
  rw [if_neg (by rw [hguard]; decide), hd]
  dsimp only
  rw [if_neg (by simpa using hpos), hrebased, if_pos (by rw [Ty.beq_self]; rfl)]
  rfl

/-- Between two classes under equal layers, no rule in front of the one for ancestors applies. -/
theorem rules_make_cls (hne : a ≠ b) (hd : table.distance? a b = some d)
    (hlayers : layers.countP (·.pointer) ≤ 1) :
    rules table search (.make (.cls a) layers) (.make (.cls b) layers) = ofScore (32 - min d 15) := by
  have hconst : constAdjusted (.make (.cls a) layers) (.make (.cls b) layers) = false := by
    unfold constAdjusted
    rw [Bool.and_eq_false_iff]
    exact .inl (make_cls_ne hne _ _)
  have hreference : referenceRule search (.make (.cls a) layers) (.make (.cls b) layers) = impossible := by
    have hlevel : (Ty.make (.cls a) layers).referenceLevel = (Ty.make (.cls b) layers).referenceLevel := rfl
    unfold referenceRule
    simp [hlevel]
  have hwildcard : ((Ty.make (.cls a) layers).isWildcard || (Ty.make (.cls b) layers).isWildcard) = false :=
    rfl
  have hnull : (Ty.make (.cls a) layers).isNull = false := rfl
  have hnative : nativeRule (.make (.cls a) layers) (.make (.cls b) layers) = none := by
    unfold nativeRule
    split
    · rename_i hsrc _
      cases hsrc
    · rfl
  unfold rules
  rw [hwildcard, hconst, hnull, hreference, hnative, upcastRule_make hne hd hlayers]
  rfl

end Upcast

/-- A class converts to an ancestor under the same layers, the better the nearer it is. -/
theorem convert_ancestor {table : SymbolTable} {options : Options} {a b : ItemId} {layers : List Modifier}
    {d : Nat} (hne : a ≠ b) (hd : table.distance? a b = some d)
    (hlayers : layers.countP (·.pointer) ≤ 1) (hdepth : 1 ≤ options.conversionDepth) :
    convert table options (.make (.cls a) layers) (.make (.cls b) layers) = ofScore (32 - min d 15) := by
  obtain ⟨depth, hdepth⟩ := Nat.exists_eq_add_of_le' hdepth
  unfold convert search
  rw [if_neg (by rw [make_cls_ne hne]; decide), hdepth]
  exact rules_make_cls hne hd hlayers

/-- **The hierarchy.** In any table, with cycles or without, the distance is the length of a shortest path of
parents and the ancestors are what is reached along parents, once each and nearest first; the search ends. So
a class converts to another one at distance `d`, under the same layers with at most one pointer, with score
`32 - min d 15`. -/
theorem hierarchy_exact (t : SymbolTable) (i : ItemId) :
    t.ExactAncestry i ∧
      ∀ (options : Options) (layers : List Modifier) (j : ItemId) (d : Nat), i ≠ j →
        t.distance? i j = some d → layers.countP (·.pointer) ≤ 1 → 1 ≤ options.conversionDepth →
        convert t options (.make (.cls i) layers) (.make (.cls j) layers) = ofScore (32 - min d 15) :=
  ⟨t.exactAncestry i, fun _ _ _ _ => convert_ancestor⟩

/-- A class with two parents that share one, whose parent is the first class again. -/
def loopedTable : SymbolTable :=
  let item (name : String) (parents : List ItemId) : Item :=
    { name, scope := ⟨0⟩, module := ⟨0⟩, entity := .cls { scope := ⟨0⟩, parents } }
  { items := #[item "Bottom" [⟨1⟩, ⟨2⟩], item "Left" [⟨3⟩], item "Right" [⟨3⟩], item "Base" [⟨0⟩]] }

theorem hierarchy_exact_looped :
    loopedTable.ancestors ⟨0⟩ = [⟨1⟩, ⟨2⟩, ⟨3⟩] ∧ loopedTable.IsDistance ⟨0⟩ ⟨3⟩ 2 ∧
      loopedTable.Climbs ⟨3⟩ ⟨0⟩ ∧
      convert loopedTable {} (.make (.cls ⟨0⟩) [{ constant := true }, { pointer := true }])
        (.make (.cls ⟨3⟩) [{ constant := true }, { pointer := true }]) = ofScore 30 := by
  obtain ⟨hdown, hconvert⟩ := hierarchy_exact loopedTable ⟨0⟩
  obtain ⟨hup, -⟩ := hierarchy_exact loopedTable ⟨3⟩
  have hdistance : loopedTable.distance? ⟨0⟩ ⟨3⟩ = some 2 := by decide +kernel
  have hback : loopedTable.distance? ⟨3⟩ ⟨0⟩ = some 1 := by decide +kernel
  refine ⟨by decide +kernel, (hdown.distance _ _).1 hdistance, ((hup.distance _ _).1 hback).path.climbs, ?_⟩
  exact hconvert {} _ _ 2 (by decide) hdistance (by decide) (by decide)

end SemanticAnalysis
