import SemanticAnalysis.ErrorFlow
import SemanticAnalysis.Proofs.SymbolTable.Shape

/-!
# One walk outward

`ErrorFlow.walk` records a type from a scope outward. `Passes` says when an error goes on from a
scope to its parent, and `walk_spec` what a walk does to a table in which every error already is
wherever it passes: it puts the type on the first scope and restores that property. It does so
although it stops at the first scope that has the type, since there the property held before.

1. Catching depends on the shape of the table only, and not on the names in a type
   (`stopsAt_eq`, `stopsAt_congr`).
2. Along a chain, the one scope that may lack an error is the one the walk goes to next
   (`ClosedBut`), and each step moves it outward (`ClosedBut.addError`).
-/

namespace SemanticAnalysis.ErrorFlow

open SymbolTable

/-! ## Catching -/

theorem catches_congr (table : SymbolTable) (caught : Ty) {a b : Ty} (h : a.erase = b.erase) :
    catches table a caught = catches table b caught := by
  have hbase : a.withoutOuterReferences.deconstify.erase =
      b.withoutOuterReferences.deconstify.erase := by
    rw [Ty.erase_deconstify, Ty.erase_deconstify, Ty.erase_withoutOuterReferences,
      Ty.erase_withoutOuterReferences, h]
  unfold catches
  simp only
  rw [Ty.beq_congr hbase rfl, Ty.eq_of_erase Ty.classId?_erase hbase,
    Ty.eq_of_erase Ty.indirectionLevel_erase hbase]

theorem catches_eq {t u : SymbolTable} (h : t.SameShape u) (thrown caught : Ty) :
    catches t thrown caught = catches u thrown caught := by
  unfold catches
  simp only [h.hasParent_eq]

section Stops

variable (flow : ErrorFlow)

theorem stopsAt_congr (table : SymbolTable) (s : ScopeId) {a b : Ty} (h : a.erase = b.erase) :
    flow.stopsAt table s a = flow.stopsAt table s b := by
  unfold stopsAt handles
  simp only [catches_congr table _ h]

theorem stopsAt_eq {t u : SymbolTable} (h : t.SameShape u) (s : ScopeId) (ty : Ty) :
    flow.stopsAt t s ty = flow.stopsAt u s ty := by
  unfold stopsAt handles
  simp only [catches_eq h]

end Stops

/-! ## Where errors pass -/

/-- Scopes are nested, function scopes belong to their functions, and no `try` body is one. -/
structure Nested (table : SymbolTable) : Prop where
  parent_lt : ∀ {s p : ScopeId}, (table.scope? s).bind (·.parent) = some p → p.index < s.index
  function_of_owner : ∀ {s : ScopeId} {f : ItemId}, table.functionOwner? s = some f →
    ∃ fn, table.function? f = some fn ∧ fn.scope = s
  owner_of_function : ∀ {f : ItemId} {fn : Function}, table.function? f = some fn →
    table.functionOwner? fn.scope = some f
  not_function_of_try : ∀ {s : ScopeId}, (table.scope? s).any (·.isTry) = true →
    table.functionOwner? s = none

/-- An error of the scope `s` goes on to its parent `p`: `s` is no function scope, and no `try` body
that catches it. -/
structure Passes (flow : ErrorFlow) (table : SymbolTable) (s : ScopeId) (ty : Ty) (p : ScopeId) :
    Prop where
  parent : (table.scope? s).bind (·.parent) = some p
  not_function : table.functionOwner? s = none
  uncaught : ¬ ((table.scope? s).any (·.isTry) = true ∧ flow.stopsAt table s ty = true)

section Shapes

variable {flow : ErrorFlow} {t u : SymbolTable}

theorem Nested.of_sameShape (h : Nested t) (hshape : t.SameShape u) : Nested u where
  parent_lt hp := h.parent_lt ((hshape.parent_eq _).trans hp)
  function_of_owner := by
    intro s f hf
    obtain ⟨fn, hfn, hs⟩ := h.function_of_owner ((hshape.functionOwner?_eq s).trans hf)
    obtain ⟨fn', hfn', heq⟩ := hshape.exists_function? hfn
    have hscope : fn'.scope = fn.scope := congrArg (·.scope) heq
    exact ⟨fn', hfn', hscope.trans hs⟩
  owner_of_function := by
    intro f fn hf
    obtain ⟨fn', hfn', heq⟩ := hshape.symm.exists_function? hf
    have hscope : fn'.scope = fn.scope := congrArg (·.scope) heq
    rw [← hshape.functionOwner?_eq, ← hscope]
    exact h.owner_of_function hfn'
  not_function_of_try := by
    intro s hs
    rw [← hshape.functionOwner?_eq]
    exact h.not_function_of_try ((hshape.isTry_eq s).trans hs)

theorem Passes.of_sameShape {s p : ScopeId} {ty : Ty} (h : Passes flow t s ty p)
    (hshape : t.SameShape u) : Passes flow u s ty p where
  parent := (hshape.parent_eq s).symm.trans h.parent
  not_function := (hshape.functionOwner?_eq s).symm.trans h.not_function
  uncaught := by
    rw [← hshape.isTry_eq, ← stopsAt_eq flow hshape]
    exact h.uncaught

theorem Passes.congr {s p : ScopeId} {a b : Ty} (h : Passes flow t s a p) (hab : a.erase = b.erase) :
    Passes flow t s b p where
  parent := h.parent
  not_function := h.not_function
  uncaught := by
    rw [← stopsAt_congr flow t s hab]
    exact h.uncaught

/-- The chain of a scope is the scope and the chain of its parent. -/
theorem Nested.chain_eq (h : Nested t) (s : ScopeId) :
    t.chain s = s :: (((t.scope? s).bind (·.parent)).map t.chain).getD [] := by
  rw [chain]
  cases hp : (t.scope? s).bind (·.parent) with
  | none => rfl
  | some p => simp [h.parent_lt hp]

theorem Nested.isSome_parent (h : Nested t) {s p : ScopeId}
    (hp : (t.scope? s).bind (·.parent) = some p) : (t.scope? p).isSome = true := by
  have hlt := h.parent_lt hp
  obtain ⟨sc, hsc, -⟩ := Option.bind_eq_some_iff.1 hp
  have hs : s.index < t.scopes.size := (Array.getElem?_eq_some_iff.1 hsc).1
  have hp' : p.index < t.scopes.size := by omega
  simp [scope?, hp']

end Shapes

/-! ## Walking -/

/-- Every error is wherever it passes, but for types like `ty` at `s`. -/
def ClosedBut (flow : ErrorFlow) (table : SymbolTable) (s : ScopeId) (ty : Ty) : Prop :=
  ∀ ⦃x E p⦄, table.mayThrow x E = true → Passes flow table x E p →
    table.mayThrow p E = true ∨ p = s ∧ E.erase = ty.erase

/-- Every error is wherever it passes. -/
def ClosedOutward (flow : ErrorFlow) (table : SymbolTable) : Prop :=
  ∀ ⦃x E p⦄, table.mayThrow x E = true → Passes flow table x E p → table.mayThrow p E = true

section Walk

variable {flow : ErrorFlow} {table : SymbolTable} {s : ScopeId} {ty : Ty}

/-- With the type on `s`, the one scope that may lack it is the parent of `s`. -/
theorem ClosedBut.addError (h : ClosedBut flow table s ty) (hs : (table.scope? s).isSome = true)
    ⦃x : ScopeId⦄ ⦃E : Ty⦄ ⦃p : ScopeId⦄ (hx : (table.addError s ty).2.mayThrow x E = true)
    (hpass : Passes flow (table.addError s ty).2 x E p) :
    (table.addError s ty).2.mayThrow p E = true ∨
      E.erase = ty.erase ∧ Passes flow table s ty p := by
  have hpass' := hpass.of_sameShape (table.addError_sameShape s ty).symm
  rw [mayThrow_addError hs] at hx ⊢
  rcases hx with hx | ⟨rfl, hE⟩
  · rcases h hx hpass' with hp | hp
    · exact .inl (.inl hp)
    · exact .inl (.inr hp)
  · exact .inr ⟨hE, hpass'.congr hE⟩

/-- What a walk from `s` does to a table. -/
structure Walked (flow : ErrorFlow) (ty : Ty) (s : ScopeId) (table after : SymbolTable)
    (reached : Option ItemId) : Prop where
  shape : table.SameShape after
  items : after.items = table.items
  /-- Nothing is forgotten. -/
  keeps : ∀ {x E}, table.mayThrow x E = true → after.mayThrow x E = true
  /-- The type is on the scope of departure, and on all scopes it passes to. -/
  records : after.mayThrow s ty = true
  closed : ClosedOutward flow after
  /-- The type is put nowhere else. -/
  sound : ∀ {errors : ScopeId → Ty → Prop},
    (∀ {x E p}, errors x E → Passes flow table x E p → errors p E) →
    (∀ {E}, E.erase = ty.erase → errors s E) →
    ∀ {x E}, after.mayThrow x E = true → table.mayThrow x E = true ∨ errors x E
  /-- At most the function that is reached gets an error. -/
  functions : ∀ {x f E}, table.functionOwner? x = some f → after.mayThrow x E = true →
    table.mayThrow x E = true ∨ reached = some f ∧ E.erase = ty.erase
  reaches : ∀ {f}, reached = some f → ∃ x, table.functionOwner? x = some f ∧
    after.mayThrow x ty = true

/-- The walk ends at `s`, since nothing is missing beyond it. -/
theorem Walked.of_end (hs : (table.scope? s).isSome = true)
    (hclosed : ClosedOutward flow (table.addError s ty).2) {reached : Option ItemId}
    (hfunction : ∀ f, table.functionOwner? s = some f → table.mayThrow s ty = true ∨ reached = some f)
    (hreached : ∀ f, reached = some f → table.functionOwner? s = some f) :
    Walked flow ty s table (table.addError s ty).2 reached where
  shape := table.addError_sameShape s ty
  items := items_addError table s ty
  keeps h := (mayThrow_addError hs ty _ _).2 (.inl h)
  records := (mayThrow_addError hs ty _ _).2 (.inr ⟨rfl, rfl⟩)
  closed := hclosed
  sound := by
    intro errors _ hs' x E hx
    rcases (mayThrow_addError hs ty x E).1 hx with h | ⟨rfl, hE⟩
    · exact .inl h
    · exact .inr (hs' hE)
  functions := by
    intro x f E hx hE
    rcases (mayThrow_addError hs ty x E).1 hE with h | ⟨rfl, hsame⟩
    · exact .inl h
    · rcases hfunction f hx with h | h
      · exact .inl ((table.mayThrow_congr x hsame).trans h)
      · exact .inr ⟨h, hsame⟩
  reaches := by
    intro f hf
    exact ⟨s, hreached f hf, (mayThrow_addError hs ty _ _).2 (.inr ⟨rfl, rfl⟩)⟩

/-- Nothing is missing beyond a scope that had the type before. -/
theorem ClosedBut.closed_of_known (h : ClosedBut flow table s ty)
    (hs : (table.scope? s).isSome = true) (hknown : table.mayThrow s ty = true) :
    ClosedOutward flow (table.addError s ty).2 := by
  intro x E p hx hpass
  rcases h.addError hs hx hpass with hp | ⟨hE, hpass'⟩
  · exact hp
  · rw [mayThrow_addError hs]
    rcases h hknown hpass' with hp | hp
    · exact .inl ((table.mayThrow_congr p hE).trans hp)
    · exact .inr ⟨hp.1, hE⟩

/-- Nothing is missing beyond a scope that the type does not pass. -/
theorem ClosedBut.closed_of_stop (h : ClosedBut flow table s ty)
    (hs : (table.scope? s).isSome = true) (hstop : ∀ p, ¬ Passes flow table s ty p) :
    ClosedOutward flow (table.addError s ty).2 := by
  intro x E p hx hpass
  rcases h.addError hs hx hpass with hp | ⟨-, hpass'⟩
  · exact hp
  · exact absurd hpass' (hstop p)

/-- Only the parent may lack the type after a scope that the type passes. -/
theorem ClosedBut.of_pass (h : ClosedBut flow table s ty) (hs : (table.scope? s).isSome = true)
    {p : ScopeId} (hp : Passes flow table s ty p) : ClosedBut flow (table.addError s ty).2 p ty := by
  intro x E q hx hpass
  rcases h.addError hs hx hpass with hq | ⟨hE, hpass'⟩
  · exact .inl hq
  · exact .inr ⟨Option.some.inj (hpass'.parent.symm.trans hp.parent), hE⟩

/-- The walk goes on from a scope that the type passes. -/
theorem Walked.of_pass (hs : (table.scope? s).isSome = true) {p : ScopeId}
    (hpass : Passes flow table s ty p) {after : SymbolTable} {reached : Option ItemId}
    (h : Walked flow ty p (table.addError s ty).2 after reached) :
    Walked flow ty s table after reached where
  shape := (table.addError_sameShape s ty).trans h.shape
  items := h.items.trans (items_addError table s ty)
  keeps hx := h.keeps ((mayThrow_addError hs ty _ _).2 (.inl hx))
  records := h.keeps ((mayThrow_addError hs ty _ _).2 (.inr ⟨rfl, rfl⟩))
  closed := h.closed
  sound := by
    intro errors hout hs' x E hx
    have hp : ∀ {E}, E.erase = ty.erase → errors p E :=
      fun hE => hout (hs' hE) (hpass.congr hE.symm)
    have hout' : ∀ {x E p}, errors x E → Passes flow (table.addError s ty).2 x E p → errors p E :=
      fun hx hpass => hout hx (hpass.of_sameShape (table.addError_sameShape s ty).symm)
    rcases h.sound hout' hp hx with hx | hx
    · rcases (mayThrow_addError hs ty x E).1 hx with hx | ⟨rfl, hE⟩
      · exact .inl hx
      · exact .inr (hs' hE)
    · exact .inr hx
  functions := by
    intro x f E hx hE
    rw [(table.addError_sameShape s ty).functionOwner?_eq] at hx
    rcases h.functions hx hE with hE | hE
    · rcases (mayThrow_addError hs ty x E).1 hE with hE | ⟨rfl, -⟩
      · exact .inl hE
      · -- the scope just left is no function scope
        rw [← (table.addError_sameShape x ty).functionOwner?_eq, hpass.not_function] at hx
        cases hx
    · exact .inr hE
  reaches := by
    intro f hf
    obtain ⟨x, hx, hrec⟩ := h.reaches hf
    exact ⟨x, ((table.addError_sameShape s ty).functionOwner?_eq x).trans hx, hrec⟩

end Walk

theorem walk_cons (flow : ErrorFlow) (ty : Ty) (table : SymbolTable) (s : ScopeId)
    (outer : List ScopeId) :
    flow.walk ty table (s :: outer) =
      if (table.addError s ty).1 = false then (none, (table.addError s ty).2)
      else if ((table.addError s ty).2.scope? s).any (·.isTry) = true then
        if flow.stopsAt (table.addError s ty).2 s ty = true then (none, (table.addError s ty).2)
        else flow.walk ty (table.addError s ty).2 outer
      else
        match (table.addError s ty).2.functionOwner? s with
        | some f => (some f, (table.addError s ty).2)
        | none => flow.walk ty (table.addError s ty).2 outer := by
  rw [walk]
  obtain ⟨isNew, after⟩ := table.addError s ty
  cases isNew <;> rfl

/-- What the walk does at a scope that did not have the type: it ends at a `try` body that catches
it and at a function, and goes on otherwise. -/
theorem walk_cons_of_new {flow : ErrorFlow} {ty : Ty} {table : SymbolTable} {s : ScopeId}
    (hnested : Nested table) (hs : (table.scope? s).isSome = true)
    (hnew : table.mayThrow s ty = false) (outer : List ScopeId) :
    flow.walk ty table (s :: outer) =
      if (table.scope? s).any (·.isTry) = true ∧ flow.stopsAt table s ty = true then
        (none, (table.addError s ty).2)
      else
        match table.functionOwner? s with
        | some f => (some f, (table.addError s ty).2)
        | none => flow.walk ty (table.addError s ty).2 outer := by
  have hshape := table.addError_sameShape s ty
  rw [walk_cons, addError_isNew hs, hnew, ← hshape.isTry_eq, ← stopsAt_eq flow hshape,
    ← hshape.functionOwner?_eq]
  by_cases htry : (table.scope? s).any (·.isTry) = true
  · rw [hnested.not_function_of_try htry]
    by_cases hstop : flow.stopsAt table s ty = true <;> simp [htry, hstop]
  · simp [htry]

/-- **One walk.** In a table where every error but this one is wherever it passes, a walk from `s`
records the type on `s` and wherever it passes from there, and nowhere else. -/
theorem walk_spec {flow : ErrorFlow} {ty : Ty} {table : SymbolTable} {s : ScopeId}
    (hnested : Nested table) (hs : (table.scope? s).isSome = true)
    (hclosed : ClosedBut flow table s ty) :
    Walked flow ty s table (flow.walk ty table (table.chain s)).2
      (flow.walk ty table (table.chain s)).1 := by
  induction hn : s.index using Nat.strongRecOn generalizing s table with
  | ind n ih =>
    rw [hnested.chain_eq s]
    by_cases hknown : table.mayThrow s ty = true
    · rw [walk_cons, addError_isNew hs, hknown]
      exact .of_end hs (hclosed.closed_of_known hs hknown) (fun _ _ => .inl hknown) (by simp)
    · rw [walk_cons_of_new hnested hs (by simpa using hknown)]
      by_cases hcaught : (table.scope? s).any (·.isTry) = true ∧ flow.stopsAt table s ty = true
      · -- a `try` body that catches the type
        rw [if_pos hcaught]
        have hstop : ∀ p, ¬ Passes flow table s ty p := fun p hp => hp.uncaught hcaught
        refine .of_end hs (hclosed.closed_of_stop hs hstop) (fun f hf => ?_) (by simp)
        rw [hnested.not_function_of_try hcaught.1] at hf
        cases hf
      · rw [if_neg hcaught]
        cases hf : table.functionOwner? s with
        | some f =>
          have hstop : ∀ p, ¬ Passes flow table s ty p := by
            intro p hp
            rw [hp.not_function] at hf
            cases hf
          exact .of_end hs (hclosed.closed_of_stop hs hstop) (fun g hg => .inr (hf.symm.trans hg))
            fun g hg => hf.trans hg
        | none =>
          cases hp : (table.scope? s).bind (·.parent) with
          | none =>
            -- the outermost scope
            have hstop : ∀ p, ¬ Passes flow table s ty p := by
              intro p hpass
              rw [hpass.parent] at hp
              cases hp
            exact .of_end hs (hclosed.closed_of_stop hs hstop) (by simp [hf]) (by simp [walk])
          | some p =>
            have hpass : Passes flow table s ty p := ⟨hp, hf, hcaught⟩
            have hshape := table.addError_sameShape s ty
            have hs' : ((table.addError s ty).2.scope? p).isSome = true := by
              rw [← hshape.isSome_scope?]
              exact hnested.isSome_parent hp
            refine .of_pass hs hpass ?_
            simp only [Option.map_some, Option.getD_some]
            rw [hshape.chain_eq p]
            exact ih p.index (hn ▸ hnested.parent_lt hp) (hnested.of_sameShape hshape) hs'
              (hclosed.of_pass hs hpass) rfl

end SemanticAnalysis.ErrorFlow
