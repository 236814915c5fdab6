import Mathlib.Logic.Relation
import SemanticAnalysis.ErrorFlow
import SemanticAnalysis.Proofs.SymbolTable.Shape

/-!
# The flow of errors step by step

`ErrorFlow.run` works off its tasks with a list of the types that take part, which bounds the work.
`Step` works off one task with no such list, and `run_reaches` says that the steps from any tasks and
table end with no task left and the table that `run` gives: the list of types leaves nothing out, and
the propagation always ends.
-/

namespace SemanticAnalysis.ErrorFlow

open SymbolTable Relation

/-- One task is worked off; what follows from it comes first. -/
inductive Step (flow : ErrorFlow) : List Task × SymbolTable → List Task × SymbolTable → Prop
  /-- The errors of a function are raised at a call. -/
  | surface (callee : ItemId) (site : ScopeId) (rest : List Task) (table : SymbolTable) :
    Step flow (.surface callee site :: rest, table)
      ((errorsOf table callee).map (.raise site) ++ rest, table)
  /-- A type is raised and reaches no function. -/
  | stop {s : ScopeId} {ty : Ty} {table after : SymbolTable} (rest : List Task)
    (h : flow.walk ty table (table.chain s) = (none, after)) :
    Step flow (.raise s ty :: rest, table) (rest, after)
  /-- A type is raised and reaches a function. -/
  | reach {s : ScopeId} {ty : Ty} {table after : SymbolTable} {f : ItemId} (rest : List Task)
    (h : flow.walk ty table (table.chain s) = (some f, after)) :
    Step flow (.raise s ty :: rest, table)
      ((flow.reach f ty after).1 ++ rest, (flow.reach f ty after).2)

/-! ## Types that take part -/

/-- The list has every type that is raised or recorded. -/
structure InPlay (types : List Ty) (tasks : List Task) (table : SymbolTable) : Prop where
  raised : ∀ {s ty}, .raise s ty ∈ tasks → types.contains ty = true
  recorded : ∀ {s ty}, table.mayThrow s ty = true → types.contains ty = true

theorem mayThrow_of_addError {table : SymbolTable} {s x : ScopeId} {ty E : Ty}
    (h : (table.addError s ty).2.mayThrow x E = true) :
    table.mayThrow x E = true ∨ E.erase = ty.erase := by
  cases hs : table.scope? s with
  | none =>
    unfold addError at h
    rw [hs] at h
    exact .inl h
  | some sc =>
    rcases (mayThrow_addError (by rw [hs]; rfl) ty x E).1 h with h | h
    · exact .inl h
    · exact .inr h.2

theorem mayThrow_of_walk {flow : ErrorFlow} {ty E : Ty} {x : ScopeId} (chain : List ScopeId)
    (table : SymbolTable) (h : (flow.walk ty table chain).2.mayThrow x E = true) :
    table.mayThrow x E = true ∨ E.erase = ty.erase := by
  induction chain generalizing table with
  | nil => exact .inl h
  | cons s outer ih =>
    have hon (h : (flow.walk ty (table.addError s ty).2 outer).2.mayThrow x E = true) :
        table.mayThrow x E = true ∨ E.erase = ty.erase := by
      rcases ih _ h with h | h
      · exact mayThrow_of_addError h
      · exact .inr h
    simp only [walk] at h
    split at h
    · exact mayThrow_of_addError h
    · split at h
      · split at h
        · exact mayThrow_of_addError h
        · exact hon h
      · split at h
        · exact mayThrow_of_addError h
        · exact hon h

@[simp] theorem mayThrow_reach (flow : ErrorFlow) (f : ItemId) (ty : Ty) (table : SymbolTable)
    (x : ScopeId) (E : Ty) : (flow.reach f ty table).2.mayThrow x E = table.mayThrow x E := by
  unfold reach
  split
  · rfl
  · exact mayThrow_beginThrowing table f x E

theorem surface_of_mem_deferred {actions : List Deferred} {task : Task}
    (h : task ∈ actions.filterMap Task.ofDeferred?) :
    ∃ callee site, task = .surface callee site ∧ .surfaceErrors callee site ∈ actions := by
  obtain ⟨action, hmem, htask⟩ := List.mem_filterMap.1 h
  cases action with
  | surfaceErrors callee site =>
    cases htask
    exact ⟨callee, site, rfl, hmem⟩
  | sealCaptures lambda => cases htask

/-- What follows when a function is reached raises no other type. -/
theorem type_of_mem_reach {flow : ErrorFlow} {f : ItemId} {ty ty' : Ty} {table : SymbolTable}
    {s : ScopeId} (h : .raise s ty' ∈ (flow.reach f ty table).1) : ty' = ty := by
  unfold reach at h
  split at h
  · obtain ⟨site, -, heq⟩ := List.mem_map.1 h
    cases heq
    rfl
  · obtain ⟨_, _, heq, -⟩ := surface_of_mem_deferred h
    cases heq

theorem mayThrow_of_mem_errorsOf {table : SymbolTable} {f : ItemId} {E : Ty}
    (h : E ∈ errorsOf table f) :
    ∃ fn, table.function? f = some fn ∧ table.mayThrow fn.scope E = true := by
  unfold errorsOf at h
  split at h
  · rename_i fn hfn
    refine ⟨fn, hfn, ?_⟩
    unfold mayThrow
    cases hs : table.scope? fn.scope with
    | none => simp [hs] at h
    | some sc =>
      simp only [hs, Option.map_some, Option.getD_some] at h
      rw [Option.any_some, List.contains_eq_any_beq, List.any_eq_true]
      exact ⟨E, h, Ty.beq_self E⟩
  · cases h

namespace InPlay

variable {types : List Ty} {rest : List Task} {table : SymbolTable}

theorem surface {callee : ItemId} {site : ScopeId}
    (h : InPlay types (.surface callee site :: rest) table) :
    InPlay types ((errorsOf table callee).map (.raise site) ++ rest) table where
  raised := by
    intro s ty hmem
    rcases List.mem_append.1 hmem with hmem | hmem
    · obtain ⟨E, hE, heq⟩ := List.mem_map.1 hmem
      cases heq
      obtain ⟨fn, -, hrec⟩ := mayThrow_of_mem_errorsOf hE
      exact h.recorded hrec
    · exact h.raised (List.mem_cons_of_mem _ hmem)
  recorded := h.recorded

theorem walk (flow : ErrorFlow) {s : ScopeId} {ty : Ty} (h : InPlay types (.raise s ty :: rest) table)
    (chain : List ScopeId) : InPlay types rest (flow.walk ty table chain).2 where
  raised hmem := h.raised (List.mem_cons_of_mem _ hmem)
  recorded := by
    intro x E hx
    rcases mayThrow_of_walk chain table hx with hx | hE
    · exact h.recorded hx
    · rw [Ty.contains_congr hE]
      exact h.raised List.mem_cons_self

theorem reach {flow : ErrorFlow} {f : ItemId} {ty : Ty} (hty : types.contains ty = true)
    (h : InPlay types rest table) :
    InPlay types ((flow.reach f ty table).1 ++ rest) (flow.reach f ty table).2 where
  raised := by
    intro s ty' hmem
    rcases List.mem_append.1 hmem with hmem | hmem
    · rw [type_of_mem_reach hmem]
      exact hty
    · exact h.raised hmem
  recorded hx := h.recorded (by rwa [mayThrow_reach] at hx)

end InPlay

/-! ## Steps to the end -/

theorem settle_reaches (flow : ErrorFlow) {types : List Ty} {tasks : List Task} {table : SymbolTable}
    (h : InPlay types tasks table) :
    ReflTransGen (Step flow) (tasks, table) ([], flow.settle types tasks table) := by
  fun_induction settle flow types tasks table with
  | case1 table => exact .refl
  | case2 table callee site rest errors ih =>
    have hall : errors = errorsOf table callee := by
      refine List.filter_eq_self.2 fun E hE => ?_
      obtain ⟨fn, -, hrec⟩ := mayThrow_of_mem_errorsOf hE
      exact h.recorded hrec
    rw [hall] at ih ⊢
    exact .head (.surface callee site rest table) (ih h.surface)
  | case3 table s ty rest hty after hw ih =>
    have hafter := h.walk flow (table.chain s)
    rw [hw] at hafter
    exact .head (.stop rest hw) (ih hafter)
  | case4 table s ty rest hty f after hw reached ih =>
    have hafter := h.walk flow (table.chain s)
    rw [hw] at hafter
    exact .head (.reach rest hw) (ih (hafter.reach hty))
  | case5 table s ty rest hty ih =>
    -- every type is in play
    exact absurd (h.raised List.mem_cons_self) hty

theorem inPlay_typesInPlay (tasks : List Task) (table : SymbolTable) :
    InPlay (typesInPlay tasks table) tasks table where
  raised := by
    intro s ty hmem
    unfold typesInPlay
    rw [Ty.contains_distinct, List.contains_eq_any_beq, List.any_eq_true]
    refine ⟨ty, List.mem_append_left _ (List.mem_filterMap.2 ⟨_, hmem, rfl⟩), Ty.beq_self ty⟩
  recorded := by
    intro s ty hrec
    unfold mayThrow at hrec
    cases hs : table.scope? s with
    | none => simp [hs] at hrec
    | some sc =>
      rw [hs, Option.any_some, List.contains_eq_any_beq, List.any_eq_true] at hrec
      obtain ⟨E, hE, hbeq⟩ := hrec
      have hsc : sc ∈ table.scopes.toList := Array.mem_toList_iff.2 (Array.mem_of_getElem? hs)
      unfold typesInPlay
      rw [Ty.contains_distinct, List.contains_eq_any_beq, List.any_eq_true]
      exact ⟨E, List.mem_append_right _ (List.mem_flatMap.2 ⟨sc, hsc, hE⟩), hbeq⟩

/-- **Termination.** From any tasks and any table, the steps end with no task left and the table that
`run` gives. -/
theorem run_reaches (flow : ErrorFlow) (tasks : List Task) (table : SymbolTable) :
    ReflTransGen (Step flow) (tasks, table) ([], flow.run tasks table) :=
  settle_reaches flow (inPlay_typesInPlay tasks table)

end SemanticAnalysis.ErrorFlow
