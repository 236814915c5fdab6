import SemanticAnalysis.Proofs.SymbolTable.Aliases
import SemanticAnalysis.Proofs.SymbolTable.Hierarchy

/-!
# Aliases that lead back

`resolveAlias` counts its steps and holds a chain for a cycle once it is longer than the table. An `AliasWalk` does
not count: it remembers the aliases it has passed, and stops where it would pass one for the second time. Both give
the answer that `IsAnswer` describes.

1. A round after which a walk goes on passes one more alias of the table, so the walk is over after at most one
   round more than there are items (`AliasWalk.card_unseen_lt`).
2. Whatever a walk has passed leads to where it stands (`AliasWalk.Tracks`), so an alias that it meets again lies on
   a cycle (`AliasWalk.Tracks.isAnswer`).
3. A chain that ends never comes back to what it has passed (`LeadsTo.not_revisits`), so there is only one answer
   (`IsAnswer.resolveAlias_eq`).
-/

namespace SemanticAnalysis.SymbolTable

open Relation

variable {t : SymbolTable} {i j k : ItemId}

/-- The aliases from `i` come to an item from which they come back to it. It need not be `i`. -/
def Revisits (t : SymbolTable) (i : ItemId) : Prop :=
  ∃ k, ReflTransGen t.IsAliasOf i k ∧ TransGen t.IsAliasOf k k

/-- What is to be said of the aliases from `i`: where they end, or that they do not. -/
inductive IsAnswer (t : SymbolTable) (i : ItemId) : Except TableFault ItemId → Prop
  | ends {j : ItemId} : t.LeadsTo i j → IsAnswer t i (.ok j)
  | revisits : t.Revisits i → IsAnswer t i (.error (.aliasCycle (t.itemName i)))

/-! ## There is one answer -/

/-- Every item on a chain leads where the chain leads. -/
theorem LeadsTo.of_follows (h : t.LeadsTo i j) (hk : ReflTransGen t.IsAliasOf i k) : t.LeadsTo k j := by
  induction hk with
  | refl => exact h
  | tail _ hstep ih =>
    rcases ReflTransGen.cases_head ih.follows with rfl | ⟨l, hstep', hrest⟩
    · exact absurd hstep (not_isAliasOf_of_none ih.ends)
    · obtain rfl := hstep.eq hstep'
      exact ⟨hrest, ih.ends⟩

theorem LeadsTo.not_revisits (h : t.LeadsTo i j) : ¬ t.Revisits i := by
  rintro ⟨k, hk, hcycle⟩
  exact (h.of_follows hk).not_cycle hcycle

theorem fault_of_resolveAlias {fault : TableFault} (h : t.resolveAlias i = .error fault) :
    fault = .aliasCycle (t.itemName i) := by
  unfold resolveAlias at h
  split at h
  · cases h
  · cases h
    rfl

theorem IsAnswer.resolveAlias_eq {answer : Except TableFault ItemId} (h : t.IsAnswer i answer) :
    t.resolveAlias i = answer := by
  cases h with
  | ends hleads => exact resolveAlias_eq_ok_iff.2 hleads
  | revisits hback =>
    cases hresolve : t.resolveAlias i with
    | ok j => exact absurd hback (resolveAlias_eq_ok_iff.1 hresolve).not_revisits
    | error fault => rw [fault_of_resolveAlias hresolve]

/-! ## The walk that remembers -/

/-- A walk along aliases: where it began, where it stands and the aliases it has passed. -/
structure AliasWalk where
  start : ItemId
  current : ItemId
  passed : List ItemId := []

namespace AliasWalk

variable {w w' : AliasWalk} {answer : Except TableFault ItemId}

/-- A walk that has passed nothing yet. -/
def setOut (i : ItemId) : AliasWalk := { start := i, current := i }

/-- One round: the walk goes on, or it has an answer. -/
def round (t : SymbolTable) (w : AliasWalk) : AliasWalk ⊕ Except TableFault ItemId :=
  match t.aliasTarget? w.current with
  | none => .inr (.ok w.current)
  | some target =>
    if w.current ∈ w.passed then .inr (.error (.aliasCycle (t.itemName w.start)))
    else .inl { w with current := target, passed := w.passed ++ [w.current] }

/-- The answer of a walk, if it has one after so many rounds. -/
def run (t : SymbolTable) : (rounds : Nat) → AliasWalk → Option (Except TableFault ItemId)
  | 0, _ => none
  | rounds + 1, w =>
    match w.round t with
    | .inl w' => run t rounds w'
    | .inr answer => some answer

/-- The walk follows the aliases from its start, and what it has passed leads to where it stands. -/
structure Tracks (t : SymbolTable) (w : AliasWalk) : Prop where
  follows : ReflTransGen t.IsAliasOf w.start w.current
  passed : ∀ k ∈ w.passed, TransGen t.IsAliasOf k w.current

theorem tracks_setOut (t : SymbolTable) (i : ItemId) : Tracks t (setOut i) where
  follows := .refl
  passed _ hk := absurd hk List.not_mem_nil

/-- All that a round can do when the walk goes on. -/
theorem round_eq_inl (h : w.round t = .inl w') :
    w.current ∉ w.passed ∧ ∃ target, t.IsAliasOf w.current target ∧
      w' = { w with current := target, passed := w.passed ++ [w.current] } := by
  unfold round at h
  split at h
  · cases h
  · rename_i target htarget
    split at h
    · cases h
    · rename_i hnew
      cases h
      exact ⟨hnew, target, htarget, rfl⟩

/-- All that a round can do when the walk is over. -/
theorem round_eq_inr (h : w.round t = .inr answer) :
    t.aliasTarget? w.current = none ∧ answer = .ok w.current ∨
      w.current ∈ w.passed ∧ answer = .error (.aliasCycle (t.itemName w.start)) := by
  unfold round at h
  split at h
  · rename_i hnone
    cases h
    exact .inl ⟨hnone, rfl⟩
  · split at h
    · rename_i hold
      cases h
      exact .inr ⟨hold, rfl⟩
    · cases h

/-- A round after which the walk goes on has passed one more item of the table. -/
theorem card_unseen_lt (h : w.round t = .inl w') : (t.unseen w'.passed).card < (t.unseen w.passed).card := by
  obtain ⟨hnew, target, htarget, rfl⟩ := round_eq_inl h
  exact card_unseen_append_lt (List.mem_singleton_self _) hnew (lt_of_aliasTarget? htarget)

namespace Tracks

theorem next (h : Tracks t w) (hround : w.round t = .inl w') : Tracks t w' := by
  obtain ⟨-, target, htarget, rfl⟩ := round_eq_inl hround
  refine ⟨h.follows.tail htarget, fun k hk => ?_⟩
  rcases List.mem_append.1 hk with hk | hk
  · exact (h.passed k hk).tail htarget
  · rw [List.mem_singleton.1 hk]
    exact .single htarget

theorem isAnswer (h : Tracks t w) (hround : w.round t = .inr answer) : t.IsAnswer w.start answer := by
  rcases round_eq_inr hround with ⟨hnone, rfl⟩ | ⟨hold, rfl⟩
  · exact .ends ⟨h.follows, hnone⟩
  · exact .revisits ⟨w.current, h.follows, h.passed _ hold⟩

/-- A walk with more rounds than there are items left to pass has an answer, and the right one. -/
theorem exists_run {rounds : Nat} (h : Tracks t w) (hrounds : (t.unseen w.passed).card < rounds) :
    ∃ answer, run t rounds w = some answer ∧ t.IsAnswer w.start answer := by
  induction rounds generalizing w with
  | zero => exact absurd hrounds (Nat.not_lt_zero _)
  | succ rounds ih =>
    unfold run
    cases hround : w.round t with
    | inl w' =>
      have hstart : w'.start = w.start := by
        obtain ⟨-, _, -, rfl⟩ := round_eq_inl hround
        rfl
      rw [← hstart]
      exact ih (h.next hround) ((card_unseen_lt hround).trans_le (Nat.le_of_lt_succ hrounds))
    | inr answer => exact ⟨answer, rfl, h.isAnswer hround⟩

end Tracks

end AliasWalk

/-! ## The answer -/

/-- A walk from any item has the right answer, after at most one round more than there are items. -/
theorem exists_run_setOut (t : SymbolTable) (i : ItemId) :
    ∃ answer, (AliasWalk.setOut i).run t (t.items.size + 1) = some answer ∧ t.IsAnswer i answer :=
  (AliasWalk.tracks_setOut t i).exists_run (Nat.lt_succ_of_le (t.card_unseen_le []))

theorem resolveAlias_eq_error_iff {fault : TableFault} :
    t.resolveAlias i = .error fault ↔ fault = .aliasCycle (t.itemName i) ∧ t.Revisits i := by
  constructor
  · intro hfault
    obtain ⟨answer, -, hanswer⟩ := t.exists_run_setOut i
    obtain rfl := hanswer.resolveAlias_eq.symm.trans hfault
    cases hanswer with
    | revisits hback => exact ⟨rfl, hback⟩
  · rintro ⟨rfl, hback⟩
    exact (IsAnswer.revisits hback).resolveAlias_eq

/-- **Aliases.** If the targets of aliases are items, a walk along them that stops only where it would pass an alias
for the second time is over after at most one round more than there are items, with the answer of `resolveAlias`.
That is an item exactly if the chain comes to it and it is no alias, and the one fault there is, under the name of
the item that was asked for, exactly if the chain comes back to something on it, which need not be where it began. -/
theorem resolveAlias_exact (t : SymbolTable) (i : ItemId)
    (htargets : ∀ i j, t.IsAliasOf i j → j.index < t.items.size) (hi : i.index < t.items.size) :
    (AliasWalk.setOut i).run t (t.items.size + 1) = some (t.resolveAlias i) ∧
      (∀ j, t.resolveAlias i = .ok j ↔ ReflTransGen t.IsAliasOf i j ∧ t.IsProper j) ∧
      ∀ fault, t.resolveAlias i = .error fault ↔ fault = .aliasCycle (t.itemName i) ∧ t.Revisits i := by
  refine ⟨?_, fun j => ?_, fun fault => resolveAlias_eq_error_iff⟩
  · obtain ⟨answer, hrun, hanswer⟩ := t.exists_run_setOut i
    rw [hrun, hanswer.resolveAlias_eq]
  · rw [resolveAlias_eq_ok_iff]
    constructor
    · intro h
      exact ⟨h.follows, lt_of_follows htargets hi h.follows, h.ends⟩
    · rintro ⟨hfollows, hproper⟩
      exact ⟨hfollows, hproper.own⟩

/-- A variable, an alias of it, and an alias of one of two aliases of each other. -/
def knottedTable : SymbolTable :=
  let item (name : String) (entity : Entity) : Item := { name, scope := ⟨0⟩, module := ⟨0⟩, entity }
  { items := #[item "x" (.var { ty := .int }), item "y" (.aliasOf ⟨0⟩), item "a" (.aliasOf ⟨3⟩),
      item "b" (.aliasOf ⟨4⟩), item "c" (.aliasOf ⟨3⟩)] }

theorem resolveAlias_exact_tail :
    (∀ i j, knottedTable.IsAliasOf i j → j.index < knottedTable.items.size) ∧
      knottedTable.resolveAlias ⟨1⟩ = .ok ⟨0⟩ ∧
      ¬ TransGen knottedTable.IsAliasOf ⟨2⟩ ⟨2⟩ ∧
      knottedTable.resolveAlias ⟨2⟩ = .error (.aliasCycle "a") ∧
      (AliasWalk.setOut ⟨2⟩).run knottedTable 6 = some (.error (.aliasCycle "a")) := by
  have hchecked : ∀ k < 5, ∀ j ∈ knottedTable.aliasTarget? ⟨k⟩, j.index < 5 ∧ j ≠ ⟨2⟩ := by decide
  have htargets : ∀ i j, knottedTable.IsAliasOf i j → j.index < 5 := fun i j h =>
    (hchecked i.index (lt_of_aliasTarget? h) j h).1
  obtain ⟨-, hends, -⟩ := resolveAlias_exact knottedTable ⟨1⟩ htargets (by decide)
  obtain ⟨hrun, -, hfault⟩ := resolveAlias_exact knottedTable ⟨2⟩ htargets (by decide)
  have hvariable : knottedTable.resolveAlias ⟨1⟩ = .ok ⟨0⟩ := (hends _).2 ⟨.single rfl, by decide, rfl⟩
  have hoff : ¬ TransGen knottedTable.IsAliasOf ⟨2⟩ ⟨2⟩ := fun hcycle => by
    obtain ⟨k, -, hstep⟩ := TransGen.tail'_iff.1 hcycle
    exact (hchecked k.index (lt_of_aliasTarget? hstep) _ hstep).2 rfl
  have hforth : knottedTable.IsAliasOf ⟨3⟩ ⟨4⟩ := rfl
  have hback : knottedTable.Revisits ⟨2⟩ := ⟨⟨3⟩, .single rfl, .tail (.single hforth) rfl⟩
  have htail : knottedTable.resolveAlias ⟨2⟩ = .error (.aliasCycle "a") := (hfault _).2 ⟨rfl, hback⟩
  exact ⟨htargets, hvariable, hoff, htail, htail ▸ hrun⟩

end SemanticAnalysis.SymbolTable
