import SemanticAnalysis.SymbolTable.Hierarchy

/-!
# Error flow

A thrown type is recorded on the scopes around the throw, outward to a `try` body that catches it or
to a function. A function that is reached begins to throw, and its errors come to light again at
every scope that calls it. `ErrorFlow.settle` works off a list of such tasks. It ends because each
task either is dropped or records a type on a scope that did not have it, and there are only finitely
many scopes and types: `unrecorded` counts the pairs that are left.
-/

namespace SemanticAnalysis

/-- What the flow of errors depends on besides the symbol table. -/
structure ErrorFlow where
  /-- The types that the clauses of each `try` body catch. -/
  tryBodies : List (ScopeId × List (Option Ty)) := []
  /-- The scopes in which each function is called. -/
  callSites : List (ItemId × List ScopeId) := []

namespace ErrorFlow

/-! ## Catching -/

/-- A clause catches by identity or by ancestry, never by conversion. References and an outer `const`
do not count. -/
def catches (table : SymbolTable) (thrown caught : Ty) : Bool :=
  let thrown := thrown.withoutOuterReferences.deconstify
  let caught := caught.withoutOuterReferences.deconstify
  caught.isWildcard || thrown == caught ||
    match thrown.classId?, caught.classId? with
    | some derived, some base =>
      thrown.indirectionLevel == caught.indirectionLevel && table.hasParent derived base
    | _, _ => false

/-- Some clause catches the type. -/
def handles (table : SymbolTable) (clauses : List (Option Ty)) (ty : Ty) : Bool :=
  clauses.any fun
    | none => true
    | some caught => catches table ty caught

/-- The scope is a `try` body that catches the type. -/
def stopsAt (flow : ErrorFlow) (table : SymbolTable) (s : ScopeId) (ty : Ty) : Bool :=
  ((flow.tryBodies.lookup s).map fun clauses => handles table clauses ty).getD false

/-! ## One walk outward -/

/-- Record a type along a chain of scopes. Stops where the type is known or caught, and at a
function, which is the answer. -/
def walk (flow : ErrorFlow) (ty : Ty) (table : SymbolTable) :
    List ScopeId → Option ItemId × SymbolTable
  | [] => (none, table)
  | s :: outer =>
    let (isNew, table) := table.addError s ty
    if !isNew then (none, table)
    else if (table.scope? s).any (·.isTry) then
      if flow.stopsAt table s ty then (none, table) else flow.walk ty table outer
    else
      match table.functionOwner? s with
      | some f => (some f, table)
      | none => flow.walk ty table outer

/-! ## Counting -/

/-- The number of types of a list that a scope does not have. -/
def lacking (types : List Ty) (s : Scope) : Nat :=
  types.countP fun ty => !s.possibleErrors.contains ty

/-- The sum of a measure over the scopes of a list. -/
def sumOver (f : Scope → Nat) : List Scope → Nat
  | [] => 0
  | s :: rest => f s + sumOver f rest

/-- The number of types that are missing on scopes, summed over all scopes. -/
def unrecorded (types : List Ty) (table : SymbolTable) : Nat :=
  sumOver (lacking types) table.scopes.toList

theorem lacking_addError_le (types : List Ty) (s : Scope) (ty : Ty) :
    lacking types (s.addError ty).2 ≤ lacking types s := by
  unfold Scope.addError
  split
  · exact Nat.le_refl _
  · refine List.countP_mono_left fun u _ h => ?_
    simp only [Bool.not_eq_true', List.contains_eq_any_beq, List.any_append, Bool.or_eq_false_iff] at h ⊢
    exact h.1

theorem lacking_addError_lt {types : List Ty} {s : Scope} {ty : Ty} (hty : types.contains ty = true)
    (hnew : (s.addError ty).1 = true) : lacking types (s.addError ty).2 < lacking types s := by
  unfold Scope.addError at hnew ⊢
  split at hnew
  · simp at hnew
  · rename_i hmissing
    simp only [hmissing, Bool.false_eq_true, if_false]
    simp only [List.contains_eq_any_beq, List.any_eq_true] at hty
    obtain ⟨u, hu, huty⟩ := hty
    -- `u` is counted before and not after
    have before : (!s.possibleErrors.contains u) = true := by
      simp only [Bool.not_eq_true', ← Bool.not_eq_true]
      intro h
      apply hmissing
      simp only [List.contains_eq_any_beq, List.any_eq_true] at h ⊢
      obtain ⟨e, he, hue⟩ := h
      exact ⟨e, he, Ty.beq_trans huty hue⟩
    have after : (!(s.possibleErrors ++ [ty]).contains u) = false := by
      have : (u == ty) = true := by rw [Ty.beq_comm]; exact huty
      simp [List.contains_eq_any_beq, List.any_append, this]
    obtain ⟨l, r, rfl⟩ := List.append_of_mem hu
    have shrink : ∀ v, (!(s.possibleErrors ++ [ty]).contains v) = true →
        (!s.possibleErrors.contains v) = true := by
      intro v h
      simp only [Bool.not_eq_true', List.contains_eq_any_beq, List.any_append,
        Bool.or_eq_false_iff] at h ⊢
      exact h.1
    have hl : l.countP _ ≤ l.countP _ := List.countP_mono_left fun v _ => shrink v
    have hr : r.countP _ ≤ r.countP _ := List.countP_mono_left fun v _ => shrink v
    simp only [lacking, List.countP_append, List.countP_cons, before, after, if_true,
      Bool.false_eq_true, if_false]
    omega

/-- Changing one element of a list changes the sum by the change of that element. -/
theorem sumOver_modify (f : Scope → Nat) (g : Scope → Scope) :
    ∀ (l : List Scope) (i : Nat) (h : i < l.length),
      sumOver f (l.modify i g) + f l[i] = sumOver f l + f (g l[i])
  | [], i, h => by simp at h
  | s :: rest, 0, _ => by simp [sumOver]; omega
  | s :: rest, i + 1, h => by
    have ih := sumOver_modify f g rest i (by simpa using h)
    simp only [List.modify_succ_cons, sumOver, List.getElem_cons_succ]
    omega

theorem unrecorded_addError_le (types : List Ty) (table : SymbolTable) (s : ScopeId) (ty : Ty) :
    unrecorded types (table.addError s ty).2 ≤ unrecorded types table := by
  unfold SymbolTable.addError
  split
  · exact Nat.le_refl _
  · rename_i scope hscope
    obtain ⟨hlt, rfl⟩ := Array.getElem?_eq_some_iff.1 hscope
    have hsum := sumOver_modify (lacking types) (fun s => (s.addError ty).2) table.scopes.toList
      s.index (by simpa using hlt)
    have hle := lacking_addError_le types table.scopes.toList[s.index] ty
    simp only [unrecorded, SymbolTable.modifyScope, Array.toList_modify]
    omega

theorem unrecorded_addError_lt {types : List Ty} {table : SymbolTable} {s : ScopeId} {ty : Ty}
    (hty : types.contains ty = true) (hnew : (table.addError s ty).1 = true) :
    unrecorded types (table.addError s ty).2 < unrecorded types table := by
  unfold SymbolTable.addError at hnew ⊢
  split at hnew
  · simp at hnew
  · rename_i scope hscope
    obtain ⟨hlt, rfl⟩ := Array.getElem?_eq_some_iff.1 hscope
    have hsum := sumOver_modify (lacking types) (fun s => (s.addError ty).2) table.scopes.toList
      s.index (by simpa using hlt)
    have hdec := lacking_addError_lt hty hnew
    simp only [Array.getElem_toList] at hsum
    simp only [unrecorded, SymbolTable.modifyScope, Array.toList_modify]
    omega

theorem unrecorded_walk_le (flow : ErrorFlow) (types : List Ty) (ty : Ty) :
    ∀ (chain : List ScopeId) (table : SymbolTable),
      unrecorded types (flow.walk ty table chain).2 ≤ unrecorded types table
  | [], table => by simp [walk]
  | s :: outer, table => by
    have hle := unrecorded_addError_le types table s ty
    have ih := unrecorded_walk_le flow types ty outer (table.addError s ty).2
    simp only [walk]
    split
    · exact hle
    · split
      · split
        · exact hle
        · exact Nat.le_trans ih hle
      · split
        · exact hle
        · exact Nat.le_trans ih hle

/-- A walk that reaches a function has recorded something on its way. -/
theorem unrecorded_walk_lt {flow : ErrorFlow} {types : List Ty} {ty : Ty} {table : SymbolTable}
    {f : ItemId} (hty : types.contains ty = true) :
    ∀ {chain : List ScopeId}, (flow.walk ty table chain).1 = some f →
      unrecorded types (flow.walk ty table chain).2 < unrecorded types table
  | [], h => by simp [walk] at h
  | s :: outer, h => by
    by_cases hnew : (table.addError s ty).1 = true
    · have hlt := unrecorded_addError_lt hty hnew
      have hle := unrecorded_walk_le flow types ty outer (table.addError s ty).2
      simp only [walk]
      split
      · exact hlt
      · split
        · split
          · exact hlt
          · exact Nat.lt_of_le_of_lt hle hlt
        · split
          · exact hlt
          · exact Nat.lt_of_le_of_lt hle hlt
    · simp [walk, hnew] at h

theorem unrecorded_beginThrowing (types : List Ty) (table : SymbolTable) (f : ItemId) :
    unrecorded types (table.beginThrowing f).2 = unrecorded types table := by
  unfold SymbolTable.beginThrowing
  split <;> rfl

/-! ## Tasks -/

/-- Work that is left to do. -/
inductive Task where
  /-- Record that a type may be thrown in a scope. -/
  | raise (s : ScopeId) (ty : Ty)
  /-- Raise all errors of a function at a scope that calls it. -/
  | surface (callee : ItemId) (site : ScopeId)

def Task.isSurface : Task → Bool
  | surface .. => true
  | raise .. => false

/-- The task of a waiting action. Only the surfacing of errors waits for a function to throw. -/
def Task.ofDeferred? : Deferred → Option Task
  | .surfaceErrors callee site => some (.surface callee site)
  | .sealCaptures _ => none

/-- The recorded errors of a function. -/
def errorsOf (table : SymbolTable) (f : ItemId) : List Ty :=
  match table.function? f with
  | some fn => ((table.scope? fn.scope).map (·.possibleErrors)).getD []
  | none => []

/-- What follows when a type reaches a function: it begins to throw, or, when it already does, the
type goes on to its call sites, the last one first. -/
def reach (flow : ErrorFlow) (f : ItemId) (ty : Ty) (table : SymbolTable) :
    List Task × SymbolTable :=
  if (table.function? f).any (·.throws) then
    (((flow.callSites.lookup f).getD []).reverse.map (.raise · ty), table)
  else
    let (actions, table) := table.beginThrowing f
    (actions.filterMap Task.ofDeferred?, table)

theorem unrecorded_reach (flow : ErrorFlow) (types : List Ty) (f : ItemId) (ty : Ty)
    (table : SymbolTable) :
    unrecorded types (flow.reach f ty table).2 = unrecorded types table := by
  unfold reach
  split
  · rfl
  · exact unrecorded_beginThrowing types table f

/-- Work off a list of tasks, the first one first; what follows from a task comes before the rest.
Only types of `types` take part. -/
def settle (flow : ErrorFlow) (types : List Ty) (tasks : List Task) (table : SymbolTable) :
    SymbolTable :=
  match tasks with
  | [] => table
  | .surface callee site :: rest =>
    let errors := (errorsOf table callee).filter types.contains
    settle flow types (errors.map (.raise site) ++ rest) table
  | .raise s ty :: rest =>
    if types.contains ty then
      match _hw : flow.walk ty table (table.chain s) with
      | (none, after) => settle flow types rest after
      | (some f, after) =>
        let reached := flow.reach f ty after
        settle flow types (reached.1 ++ rest) reached.2
    else settle flow types rest table
termination_by (unrecorded types table, tasks.countP Task.isSurface, tasks.length)
decreasing_by
  · -- a surfacing task becomes raising tasks
    apply Prod.Lex.right
    apply Prod.Lex.left
    simp [List.countP_cons, Task.isSurface, List.countP_map, Function.comp_def]
  · -- nothing was reached
    have hle := unrecorded_walk_le flow types ty (table.chain s) table
    rw [_hw] at hle
    rcases Nat.lt_or_eq_of_le hle with h | h
    · exact Prod.Lex.left _ _ h
    · simp only at h
      rw [h]
      apply Prod.Lex.right
      simp only [List.countP_cons, Task.isSurface, Bool.false_eq_true, if_false, Nat.add_zero,
        List.length_cons]
      exact Prod.Lex.right _ (Nat.lt_succ_self _)
  · -- a function was reached, so something was recorded
    apply Prod.Lex.left
    have hlt : unrecorded types (flow.walk ty table (table.chain s)).2 < unrecorded types table :=
      unrecorded_walk_lt (by assumption) (congrArg Prod.fst _hw)
    rw [_hw] at hlt
    simpa only [reached, unrecorded_reach] using hlt
  · apply Prod.Lex.right
    simp only [List.countP_cons, Task.isSurface, Bool.false_eq_true, if_false, Nat.add_zero,
      List.length_cons]
    exact Prod.Lex.right _ (Nat.lt_succ_self _)

/-- The types that tasks on a table can bring up. -/
def typesInPlay (tasks : List Task) (table : SymbolTable) : List Ty :=
  let raised := tasks.filterMap fun
    | .raise _ ty => some ty
    | .surface .. => none
  Ty.distinct (raised ++ table.scopes.toList.flatMap (·.possibleErrors))

/-- Work off tasks with all types that take part. -/
def run (flow : ErrorFlow) (tasks : List Task) (table : SymbolTable) : SymbolTable :=
  flow.settle (typesInPlay tasks table) tasks table

/-- Record that a type may be thrown in a scope, with all that follows. -/
def raise (flow : ErrorFlow) (s : ScopeId) (ty : Ty) (table : SymbolTable) : SymbolTable :=
  flow.run [.raise s ty] table

/-- Note a call of a function in a scope. -/
def addSite (callee : ItemId) (site : ScopeId) :
    List (ItemId × List ScopeId) → List (ItemId × List ScopeId)
  | [] => [(callee, [site])]
  | (f, sites) :: rest =>
    if f == callee then (f, insertNew sites site) :: rest else (f, sites) :: addSite callee site rest

/-- Let the errors of a function come to light in a scope that calls it, now or once there are any. A
variant of a function counts as the function. -/
def link (flow : ErrorFlow) (callee : ItemId) (site : ScopeId) (table : SymbolTable) :
    ErrorFlow × SymbolTable :=
  let callee := ((table.function? callee).bind (·.variantOf)).getD callee
  let flow := { flow with callSites := addSite callee site flow.callSites }
  match table.function? callee with
  | none => (flow, table)
  | some fn =>
    if fn.throws then (flow, flow.run [.surface callee site] table)
    else
      let action := Deferred.surfaceErrors callee site
      let (ready, latch) := fn.beganThrowing.subscribe action
      let table := table.modifyFunction callee fun fn => { fn with beganThrowing := latch }
      (flow, flow.run (ready.toList.filterMap Task.ofDeferred?) table)

end ErrorFlow

end SemanticAnalysis
