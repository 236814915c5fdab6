import SemanticAnalysis.Proofs.ErrorFlow.Steps
import SemanticAnalysis.Proofs.ErrorFlow.Walk

/-!
# The invariant of the flow of errors

Errors are raised in scopes and functions are linked to the scopes that call them. `Closed` says
which errors scopes then have to have at least, and `Inv` is what holds between two tasks: every
error that a scope has to have is there already, or a task is left that brings it, and there is no
error but those that every closed assignment has.

1. Surfacing the errors of a function leaves one task for each (`Inv.surface_step`).
2. Raising a type leaves tasks for the calls of the function it reaches, be it that the function
   throws already (`Inv.throwing_step`) or that it begins to (`Inv.begin_step`).
3. So every step keeps the invariant (`Inv.step`), and a run to the end does (`Inv.run`).
-/

namespace SemanticAnalysis.ErrorFlow

open SymbolTable Relation

/-! ## Events -/

/-- Something that happens to the flow of errors. -/
inductive Event where
  /-- A type is thrown in a scope. -/
  | raise (s : ScopeId) (ty : Ty)
  /-- A function is called in a scope. -/
  | link (callee : ItemId) (site : ScopeId)

namespace Event

def scope : Event → ScopeId
  | raise s _ => s
  | link _ site => site

def run : Event → ErrorFlow × SymbolTable → ErrorFlow × SymbolTable
  | raise s ty, (flow, table) => (flow, flow.raise s ty table)
  | link callee site, (flow, table) => flow.link callee site table

end Event

/-- The flow and the table after some events. -/
def runAll (events : List Event) (start : ErrorFlow × SymbolTable) : ErrorFlow × SymbolTable :=
  events.foldl (fun now event => event.run now) start

/-- The function that a function counts as: its own, or the one it is a variant of. -/
def canonical (table : SymbolTable) (callee : ItemId) : ItemId :=
  ((table.function? callee).bind (·.variantOf)).getD callee

/-- Errors of scopes that leave nothing out: they hold what was raised, go outward where they pass,
and surface at every call. -/
structure Closed (flow : ErrorFlow) (table : SymbolTable) (events : List Event)
    (errors : ScopeId → Ty → Prop) : Prop where
  raised : ∀ {s ty E}, .raise s ty ∈ events → (E == ty) = true → errors s E
  outward : ∀ {s E p}, errors s E → Passes flow table s E p → errors p E
  called : ∀ {f fn callee site E}, table.function? f = some fn → errors fn.scope E →
    .link callee site ∈ events → canonical table callee = f → errors site E

/-! ## The invariant -/

/-- The scopes in which a function is called. -/
def sites (flow : ErrorFlow) (f : ItemId) : List ScopeId := (flow.callSites.lookup f).getD []

/-- The error is recorded, or a task is left that records it. -/
def Due (tasks : List Task) (table : SymbolTable) (s : ScopeId) (ty : Ty) : Prop :=
  table.mayThrow s ty = true ∨ ∃ ty', .raise s ty' ∈ tasks ∧ ty.erase = ty'.erase

/-- What holds between two tasks, after some events on a table of the shape of `base`. -/
structure Inv (base : SymbolTable) (events : List Event) (flow : ErrorFlow) (tasks : List Task)
    (table : SymbolTable) : Prop where
  shape : base.SameShape table
  valid : ∀ {event}, event ∈ events → (base.scope? event.scope).isSome = true
  linked : ∀ {f site}, site ∈ flow.sites f ↔
    ∃ callee, .link callee site ∈ events ∧ canonical base callee = f
  /-- Errors are wherever they pass. -/
  closed : ClosedOutward flow table
  raised : ∀ {s ty}, .raise s ty ∈ events → Due tasks table s ty
  called : ∀ {x f site E}, base.functionOwner? x = some f → table.mayThrow x E = true →
    site ∈ flow.sites f → Due tasks table site E ∨ .surface f site ∈ tasks
  throws : ∀ {f fn}, table.function? f = some fn →
    (fn.throws = true ↔ ∃ E, table.mayThrow fn.scope E = true)
  /-- The calls of a function that does not throw yet are waiting. -/
  waiting : ∀ {f fn}, table.function? f = some fn → fn.throws = false →
    fn.beganThrowing.released = false ∧
      ∀ {action}, action ∈ fn.beganThrowing.waiting ↔
        ∃ site ∈ flow.sites f, action = .surfaceErrors f site
  sound : ∀ {errors}, Closed flow base events errors → ∀ {s E}, table.mayThrow s E = true →
    errors s E
  pending : ∀ {errors}, Closed flow base events errors → ∀ {s ty E}, .raise s ty ∈ tasks →
    E.erase = ty.erase → errors s E
  departs : ∀ {s ty}, .raise s ty ∈ tasks → (base.scope? s).isSome = true
  surfacing : ∀ {f site}, .surface f site ∈ tasks → site ∈ flow.sites f

theorem mem_errorsOf_of_mayThrow {table : SymbolTable} {f : ItemId} {fn : Function} {E : Ty}
    (hf : table.function? f = some fn) (h : table.mayThrow fn.scope E = true) :
    ∃ ty ∈ errorsOf table f, E.erase = ty.erase := by
  unfold mayThrow at h
  cases hs : table.scope? fn.scope with
  | none => simp [hs] at h
  | some sc =>
    rw [hs, Option.any_some, List.contains_eq_any_beq, List.any_eq_true] at h
    obtain ⟨ty, hmem, hbeq⟩ := h
    refine ⟨ty, ?_, (Ty.beq_iff _ _).1 hbeq⟩
    simpa [errorsOf, hf, hs] using hmem

section Steps

variable {base table after : SymbolTable} {events : List Event} {flow : ErrorFlow}
  {rest : List Task}

/-- The scope of a function of the table belongs to it in a table of the same shape. -/
theorem Inv.owner_of_function {tasks : List Task} (hnested : Nested base)
    (h : Inv base events flow tasks table) {f : ItemId} {fn : Function}
    (hf : table.function? f = some fn) : base.functionOwner? fn.scope = some f := by
  rw [h.shape.functionOwner?_eq]
  exact (hnested.of_sameShape h.shape).owner_of_function hf

/-! ## Surfacing the errors of a function -/

theorem Inv.surface_step {callee : ItemId} {site : ScopeId} (hnested : Nested base)
    (h : Inv base events flow (.surface callee site :: rest) table) :
    Inv base events flow ((errorsOf table callee).map (.raise site) ++ rest) table := by
  have hsite : site ∈ flow.sites callee := h.surfacing List.mem_cons_self
  have hdue : ∀ {s ty}, Due (.surface callee site :: rest) table s ty →
      Due ((errorsOf table callee).map (.raise site) ++ rest) table s ty := by
    rintro s ty (hrec | ⟨ty', hmem, heq⟩)
    · exact .inl hrec
    · rcases List.mem_cons.1 hmem with hmem | hmem
      · cases hmem
      · exact .inr ⟨ty', List.mem_append_right _ hmem, heq⟩
  refine { h with
    raised := fun hmem => hdue (h.raised hmem)
    called := ?_
    pending := ?_
    departs := ?_
    surfacing := ?_ }
  · intro x f site' E hx hrec hs
    rcases h.called hx hrec hs with hd | hmem
    · exact .inl (hdue hd)
    · rcases List.mem_cons.1 hmem with heq | hmem
      · -- the task at hand: each error is raised at the call
        cases heq
        rw [h.shape.functionOwner?_eq] at hx
        obtain ⟨fn, hfn, rfl⟩ := (hnested.of_sameShape h.shape).function_of_owner hx
        obtain ⟨ty, hty, heq⟩ := mem_errorsOf_of_mayThrow hfn hrec
        exact .inl (.inr ⟨ty, List.mem_append_left _ (List.mem_map.2 ⟨ty, hty, rfl⟩), heq⟩)
      · exact .inr (List.mem_append_right _ hmem)
  · intro errors hclosed s ty E hmem hE
    rcases List.mem_append.1 hmem with hmem | hmem
    · obtain ⟨ty', hty', heq⟩ := List.mem_map.1 hmem
      cases heq
      obtain ⟨fn, hfn, hrec⟩ := mayThrow_of_mem_errorsOf hty'
      obtain ⟨fn', hfn', heq⟩ := h.shape.symm.exists_function? hfn
      have hscope : fn'.scope = fn.scope := congrArg (·.scope) heq
      have hfrom : errors fn'.scope E :=
        h.sound hclosed (by rw [hscope, table.mayThrow_congr _ hE]; exact hrec)
      obtain ⟨caller, hlink, hcanonical⟩ := h.linked.1 hsite
      exact hclosed.called hfn' hfrom hlink hcanonical
    · exact h.pending hclosed (List.mem_cons_of_mem _ hmem) hE
  · intro s ty hmem
    rcases List.mem_append.1 hmem with hmem | hmem
    · obtain ⟨ty', -, heq⟩ := List.mem_map.1 hmem
      cases heq
      obtain ⟨caller, hlink, -⟩ := h.linked.1 hsite
      exact h.valid hlink
    · exact h.departs (List.mem_cons_of_mem _ hmem)
  · intro f site' hmem
    rcases List.mem_append.1 hmem with hmem | hmem
    · obtain ⟨_, -, heq⟩ := List.mem_map.1 hmem
      cases heq
    · exact h.surfacing (List.mem_cons_of_mem _ hmem)

/-! ## Raising a type -/

section Raise

variable {s : ScopeId} {ty : Ty} {reached : Option ItemId}

/-- What the walk leaves to do: the type has to come to light wherever the function that was reached
is called. `new` are the tasks for this, and `now` is the table with the function marked. -/
theorem Inv.raise_step (h : Inv base events flow (.raise s ty :: rest) table)
    (hw : Walked flow ty s table after reached) {new : List Task} {now : SymbolTable}
    (hshape : after.SameShape now) (hsame : ∀ x E, now.mayThrow x E = after.mayThrow x E)
    (hcalls : ∀ {f site}, reached = some f → site ∈ flow.sites f →
      .raise site ty ∈ new ∨ .surface f site ∈ new)
    (hraise : ∀ {site ty'}, .raise site ty' ∈ new →
      ty' = ty ∧ ∃ f, reached = some f ∧ site ∈ flow.sites f)
    (hsurface : ∀ {f site}, .surface f site ∈ new → site ∈ flow.sites f)
    (hthrows : ∀ {f fn}, now.function? f = some fn →
      (fn.throws = true ↔ ∃ E, now.mayThrow fn.scope E = true))
    (hwaiting : ∀ {f fn}, now.function? f = some fn → fn.throws = false →
      fn.beganThrowing.released = false ∧ ∀ {action}, action ∈ fn.beganThrowing.waiting ↔
        ∃ site ∈ flow.sites f, action = .surfaceErrors f site)
    (hnested : Nested base) : Inv base events flow (new ++ rest) now := by
  have hnow : base.SameShape now := (h.shape.trans hw.shape).trans hshape
  have houter : ∀ {errors}, Closed flow base events errors →
      ∀ {x E p}, errors x E → Passes flow table x E p → errors p E := by
    intro errors hclosed x E p hx hpass
    exact hclosed.outward hx (hpass.of_sameShape h.shape.symm)
  have hsound : ∀ {errors}, Closed flow base events errors → ∀ {x E}, now.mayThrow x E = true →
      errors x E := by
    intro errors hclosed x E hx
    rw [hsame] at hx
    rcases hw.sound (houter hclosed) (fun hE => h.pending hclosed List.mem_cons_self hE) hx with
      hx | hx
    · exact h.sound hclosed hx
    · exact hx
  -- the task at hand is done, the others are left
  have hdue : ∀ {x E}, Due (.raise s ty :: rest) table x E → Due (new ++ rest) now x E := by
    rintro x E (hrec | ⟨ty', hmem, heq⟩)
    · exact .inl (by rw [hsame]; exact hw.keeps hrec)
    · rcases List.mem_cons.1 hmem with hmem | hmem
      · cases hmem
        refine .inl ?_
        rw [hsame, after.mayThrow_congr _ heq]
        exact hw.records
      · exact .inr ⟨ty', List.mem_append_right _ hmem, heq⟩
  refine
    { shape := hnow
      valid := h.valid
      linked := h.linked
      closed := ?_
      raised := fun hmem => hdue (h.raised hmem)
      called := ?_
      throws := hthrows
      waiting := hwaiting
      sound := hsound
      pending := ?_
      departs := ?_
      surfacing := ?_ }
  · intro x E p hx hpass
    rw [hsame] at hx ⊢
    exact hw.closed hx (hpass.of_sameShape hshape.symm)
  · intro x f site E hx hrec hs
    rw [hsame] at hrec
    rcases hw.functions ((h.shape.functionOwner?_eq x).symm.trans hx) hrec with hold | ⟨hf, hE⟩
    · rcases h.called hx hold hs with hd | hmem
      · exact .inl (hdue hd)
      · rcases List.mem_cons.1 hmem with heq | hmem
        · cases heq
        · exact .inr (List.mem_append_right _ hmem)
    · rcases hcalls hf hs with hmem | hmem
      · exact .inl (.inr ⟨ty, List.mem_append_left _ hmem, hE⟩)
      · exact .inr (List.mem_append_left _ hmem)
  · intro errors hclosed x ty' E hmem hE
    rcases List.mem_append.1 hmem with hmem | hmem
    · -- the type surfaces at a call of the function that was reached
      obtain ⟨rfl, f, hf, hsite⟩ := hraise hmem
      obtain ⟨y, hy, hrec⟩ := hw.reaches hf
      rw [← h.shape.functionOwner?_eq] at hy
      obtain ⟨fn, hfn, rfl⟩ := hnested.function_of_owner hy
      obtain ⟨callee, hlink, hcanonical⟩ := h.linked.1 hsite
      refine hclosed.called hfn (hsound hclosed ?_) hlink hcanonical
      rw [hsame, after.mayThrow_congr _ hE]
      exact hrec
    · exact h.pending hclosed (List.mem_cons_of_mem _ hmem) hE
  · intro x ty' hmem
    rcases List.mem_append.1 hmem with hmem | hmem
    · obtain ⟨-, f, -, hsite⟩ := hraise hmem
      obtain ⟨callee, hlink, -⟩ := h.linked.1 hsite
      exact h.valid hlink
    · exact h.departs (List.mem_cons_of_mem _ hmem)
  · intro f site hmem
    rcases List.mem_append.1 hmem with hmem | hmem
    · exact hsurface hmem
    · exact h.surfacing (List.mem_cons_of_mem _ hmem)

theorem Walked.function?_eq (hw : Walked flow ty s table after reached) (f : ItemId) :
    after.function? f = table.function? f := by
  unfold function? item?
  rw [hw.items]

/-- A function that is not reached throws iff it has an error, as before. -/
theorem Inv.throws_of_not_reached {tasks : List Task} (hnested : Nested base)
    (h : Inv base events flow tasks table) (hw : Walked flow ty s table after reached) {f : ItemId}
    {fn : Function} (hf : after.function? f = some fn) (hne : reached ≠ some f) :
    fn.throws = true ↔ ∃ E, after.mayThrow fn.scope E = true := by
  rw [hw.function?_eq] at hf
  rw [h.throws hf]
  have howner := (h.shape.functionOwner?_eq _).symm.trans (h.owner_of_function hnested hf)
  constructor
  · rintro ⟨E, hE⟩
    exact ⟨E, hw.keeps hE⟩
  · rintro ⟨E, hE⟩
    rcases hw.functions howner hE with hE | ⟨heq, -⟩
    · exact ⟨E, hE⟩
    · exact absurd heq hne

/-- A function that is reached has an error. -/
theorem Walked.mayThrow_of_reached (hnested : Nested table)
    (hw : Walked flow ty s table after reached) {f : ItemId} {fn : Function}
    (hf : after.function? f = some fn) (hr : reached = some f) :
    after.mayThrow fn.scope ty = true := by
  obtain ⟨x, hx, hrec⟩ := hw.reaches hr
  obtain ⟨fn', hfn', rfl⟩ := hnested.function_of_owner hx
  rw [hw.function?_eq, hfn'] at hf
  cases hf
  exact hrec

theorem reach_of_throws {f : ItemId} {fn : Function} (hf : after.function? f = some fn)
    (ht : fn.throws = true) :
    flow.reach f ty after = ((flow.sites f).reverse.map (.raise · ty), after) := by
  simp [reach, hf, ht, sites]

theorem reach_of_not_throws {f : ItemId} {fn : Function} (hf : after.function? f = some fn)
    (ht : fn.throws = false) :
    flow.reach f ty after = (fn.beginThrowing.1.filterMap Task.ofDeferred?,
      after.modifyFunction f fun fn => fn.beginThrowing.2) := by
  simp [reach, beginThrowing, hf, ht]

theorem Inv.stop_step (hnested : Nested base) (h : Inv base events flow (.raise s ty :: rest) table)
    (hw : Walked flow ty s table after none) : Inv base events flow rest after := by
  rw [← List.nil_append rest]
  refine h.raise_step hw (.refl after) (fun _ _ => rfl) ?_ ?_ ?_ ?_ ?_ hnested
  · rintro f site ⟨⟩
  · rintro site ty' ⟨⟩
  · rintro f site ⟨⟩
  · exact fun hf => h.throws_of_not_reached hnested hw hf (by simp)
  · exact fun hf ht => h.waiting ((hw.function?_eq _).symm.trans hf) ht

/-- A function that throws already passes the type on to its calls. -/
theorem Inv.throwing_step (hnested : Nested base)
    (h : Inv base events flow (.raise s ty :: rest) table) {f : ItemId} {fn : Function}
    (hw : Walked flow ty s table after (some f)) (hf : after.function? f = some fn)
    (ht : fn.throws = true) :
    Inv base events flow ((flow.sites f).reverse.map (.raise · ty) ++ rest) after := by
  refine h.raise_step hw (.refl after) (fun _ _ => rfl) ?_ ?_ ?_ ?_ ?_ hnested
  · rintro g site ⟨⟩ hsite
    exact .inl (List.mem_map.2 ⟨site, List.mem_reverse.2 hsite, rfl⟩)
  · intro site ty' hmem
    obtain ⟨site', hsite, heq⟩ := List.mem_map.1 hmem
    cases heq
    exact ⟨rfl, f, rfl, List.mem_reverse.1 hsite⟩
  · intro g site hmem
    obtain ⟨_, -, heq⟩ := List.mem_map.1 hmem
    cases heq
  · intro g fn' hg
    by_cases hgf : f = g
    · subst hgf
      rw [hf] at hg
      cases hg
      have hrec := hw.mayThrow_of_reached (hnested.of_sameShape h.shape) hf rfl
      exact ⟨fun _ => ⟨ty, hrec⟩, fun _ => ht⟩
    · exact h.throws_of_not_reached hnested hw hg (by simpa using hgf)
  · exact fun hg ht => h.waiting ((hw.function?_eq _).symm.trans hg) ht

/-- A function that begins to throw wakes the calls that were waiting. -/
theorem Inv.begin_step (hnested : Nested base)
    (h : Inv base events flow (.raise s ty :: rest) table) {f : ItemId} {fn : Function}
    (hw : Walked flow ty s table after (some f)) (hf : after.function? f = some fn)
    (ht : fn.throws = false) :
    Inv base events flow (fn.beginThrowing.1.filterMap Task.ofDeferred? ++ rest)
      (after.modifyFunction f fun fn => fn.beginThrowing.2) := by
  obtain ⟨hreleased, hwaiting⟩ := h.waiting ((hw.function?_eq f).symm.trans hf) ht
  have hactions : fn.beginThrowing.1 = fn.beganThrowing.waiting := by
    simp [Function.beginThrowing, Latch.release, hreleased]
  rw [hactions]
  refine h.raise_step hw (after.modifyFunction_sameShape f fun _ => rfl) (fun _ _ => rfl)
    ?_ ?_ ?_ ?_ ?_ hnested
  · rintro g site ⟨⟩ hsite
    exact .inr (List.mem_filterMap.2 ⟨_, hwaiting.2 ⟨site, hsite, rfl⟩, rfl⟩)
  · intro site ty' hmem
    obtain ⟨_, _, heq, -⟩ := surface_of_mem_deferred hmem
    cases heq
  · intro g site hmem
    obtain ⟨_, _, heq, haction⟩ := surface_of_mem_deferred hmem
    cases heq
    obtain ⟨site', hsite, heq⟩ := hwaiting.1 haction
    cases heq
    exact hsite
  · intro g fn' hg
    rw [function?_modifyFunction] at hg
    split at hg
    · rename_i hgf
      subst hgf
      rw [hf] at hg
      cases hg
      have hrec := hw.mayThrow_of_reached (hnested.of_sameShape h.shape) hf rfl
      exact ⟨fun _ => ⟨ty, hrec⟩, fun _ => rfl⟩
    · rename_i hgf
      exact h.throws_of_not_reached hnested hw hg (by simpa [eq_comm] using hgf)
  · intro g fn' hg ht'
    rw [function?_modifyFunction] at hg
    split at hg
    · obtain ⟨_, -, rfl⟩ := Option.map_eq_some_iff.1 hg
      cases ht'
    · exact h.waiting ((hw.function?_eq _).symm.trans hg) ht'

end Raise

/-- **The step lemma.** Working off a task keeps the invariant. -/
theorem Inv.step {tasks tasks' : List Task} {table' : SymbolTable} (hnested : Nested base)
    (h : Inv base events flow tasks table) (hstep : Step flow (tasks, table) (tasks', table')) :
    Inv base events flow tasks' table' := by
  have hwalk {s : ScopeId} {ty : Ty} {rest : List Task}
      (h : Inv base events flow (.raise s ty :: rest) table) :
      Walked flow ty s table (flow.walk ty table (table.chain s)).2
        (flow.walk ty table (table.chain s)).1 :=
    walk_spec (hnested.of_sameShape h.shape)
      ((h.shape.isSome_scope? s).symm.trans (h.departs List.mem_cons_self))
      fun _ _ _ hx hpass => .inl (h.closed hx hpass)
  cases hstep with
  | surface => exact h.surface_step hnested
  | stop _ hw =>
    have hwalked := hwalk h
    rw [hw] at hwalked
    exact h.stop_step hnested hwalked
  | @reach s ty _ after f _ hw =>
    have hwalked := hwalk h
    rw [hw] at hwalked
    obtain ⟨x, hx, -⟩ := hwalked.reaches rfl
    obtain ⟨fn, hfn, -⟩ := (hnested.of_sameShape h.shape).function_of_owner hx
    rw [← hwalked.function?_eq] at hfn
    cases ht : fn.throws with
    | true =>
      rw [reach_of_throws hfn ht]
      exact h.throwing_step hnested hwalked hfn ht
    | false =>
      rw [reach_of_not_throws hfn ht]
      exact h.begin_step hnested hwalked hfn ht

/-- **The run lemma.** Working off all tasks keeps the invariant. -/
theorem Inv.run {tasks : List Task} (hnested : Nested base) (h : Inv base events flow tasks table) :
    Inv base events flow [] (flow.run tasks table) := by
  have hkeep : ∀ {now : List Task × SymbolTable},
      ReflTransGen (Step flow) (tasks, table) now → Inv base events flow now.1 now.2 := by
    intro now hsteps
    induction hsteps with
    | refl => exact h
    | tail _ hstep ih => exact ih.step hnested hstep
  exact hkeep (run_reaches flow tasks table)

end Steps

end SemanticAnalysis.ErrorFlow
