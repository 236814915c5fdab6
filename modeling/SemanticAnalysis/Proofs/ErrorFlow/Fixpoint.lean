import SemanticAnalysis.Proofs.ErrorFlow.Invariant

/-!
# The flow of errors computes a least fixpoint

The errors recorded after any events are the least that hold what was raised, go outward where they
pass and surface at every call (`runAll_least`). So the order of the events makes no difference.

1. A type that is raised leaves a task (`Inv.raise`). A call leaves a task when its function throws,
   and waits for the function otherwise (`Inv.link`).
2. The tasks are worked off before the next event, so the invariant holds after all of them with no
   task left (`Inv.runAll`).
3. With no task left, the invariant says that the errors are closed and the least such.
-/

namespace SemanticAnalysis.ErrorFlow

open SymbolTable Relation

/-- Nothing has been raised or called yet. -/
structure Fresh (flow : ErrorFlow) (table : SymbolTable) : Prop where
  nested : Nested table
  quiet : ∀ s ty, table.mayThrow s ty = false
  unthrown : ∀ {f fn}, table.function? f = some fn → fn.throws = false ∧ fn.beganThrowing = {}
  uncalled : flow.callSites = []

/-! ## Call sites -/

theorem mem_sites_addSite {callee f : ItemId} {site site' : ScopeId}
    (callSites : List (ItemId × List ScopeId)) :
    site' ∈ ((addSite callee site callSites).lookup f).getD [] ↔
      site' ∈ (callSites.lookup f).getD [] ∨ f = callee ∧ site' = site := by
  induction callSites with
  | nil =>
    by_cases hf : f = callee
    · simp [addSite, hf]
    · have hbeq : (f == callee) = false := by simpa using hf
      simp [addSite, List.lookup_cons, hbeq, hf]
  | cons entry rest ih =>
    obtain ⟨g, old⟩ := entry
    rw [addSite]
    by_cases hf : f = g
    · subst hf
      by_cases hg : f = callee <;> simp [hg, mem_insertNew]
    · have hbeq : (f == g) = false := by simpa using hf
      by_cases hg : g = callee
      · subst hg
        simp [List.lookup_cons, hbeq, hf]
      · simpa [List.lookup_cons, hbeq, hg] using ih

/-- The flow with one more call site. -/
def withSite (flow : ErrorFlow) (callee : ItemId) (site : ScopeId) : ErrorFlow :=
  { flow with callSites := addSite callee site flow.callSites }

theorem mem_sites_withSite {flow : ErrorFlow} {callee f : ItemId} {site site' : ScopeId} :
    site' ∈ (flow.withSite callee site).sites f ↔
      site' ∈ flow.sites f ∨ f = callee ∧ site' = site :=
  mem_sites_addSite flow.callSites

/-! ## Events keep the invariant -/

section Events

variable {base table : SymbolTable} {events : List Event} {flow flow' : ErrorFlow}
  {errors : ScopeId → Ty → Prop}

theorem Passes.of_tryBodies {s p : ScopeId} {ty : Ty} (h : Passes flow table s ty p)
    (htry : flow.tryBodies = flow'.tryBodies) : Passes flow' table s ty p where
  parent := h.parent
  not_function := h.not_function
  uncaught := by
    have huncaught := h.uncaught
    unfold stopsAt at huncaught ⊢
    rwa [htry] at huncaught

theorem Closed.of_tryBodies (h : Closed flow table events errors)
    (htry : flow.tryBodies = flow'.tryBodies) : Closed flow' table events errors where
  raised := h.raised
  outward hx hpass := h.outward hx (hpass.of_tryBodies htry.symm)
  called := h.called

/-- Fewer events ask for less. -/
theorem Closed.of_append {event : Event} (h : Closed flow table (events ++ [event]) errors) :
    Closed flow table events errors where
  raised hmem := h.raised (List.mem_append_left _ hmem)
  outward := h.outward
  called hf hE hmem := h.called hf hE (List.mem_append_left _ hmem)

/-- Only the events that there are matter, not their order. -/
theorem Closed.of_perm {events' : List Event} (h : Closed flow table events errors)
    (hperm : events'.Perm events) : Closed flow table events' errors where
  raised hmem := h.raised (hperm.mem_iff.1 hmem)
  outward := h.outward
  called hf hE hmem := h.called hf hE (hperm.mem_iff.1 hmem)

theorem mem_append_link {callee : ItemId} {site : ScopeId} {f : ItemId} {site' : ScopeId} :
    (∃ g, .link g site' ∈ events ++ [.link callee site] ∧ canonical base g = f) ↔
      (∃ g, .link g site' ∈ events ∧ canonical base g = f) ∨
        f = canonical base callee ∧ site' = site := by
  constructor
  · rintro ⟨g, hmem, rfl⟩
    rcases List.mem_append.1 hmem with hmem | hmem
    · exact .inl ⟨g, hmem, rfl⟩
    · cases List.mem_singleton.1 hmem
      exact .inr ⟨rfl, rfl⟩
  · rintro (⟨g, hmem, heq⟩ | ⟨rfl, rfl⟩)
    · exact ⟨g, List.mem_append_left _ hmem, heq⟩
    · exact ⟨callee, List.mem_append_right _ List.mem_cons_self, rfl⟩

theorem canonical_eq {t u : SymbolTable} (h : t.SameShape u) (f : ItemId) :
    canonical t f = canonical u f := by
  have hmap := h.function?_eq f
  unfold canonical
  cases ht : t.function? f <;> cases hu : u.function? f <;> simp only [ht, hu] at hmap
  · rfl
  · cases hmap
  · cases hmap
  · have hvariant := congrArg (Option.map (·.variantOf)) hmap
    simp only [Option.map_some, Option.some.injEq, Function.shape] at hvariant
    simp [hvariant]

theorem Fresh.inv (h : Fresh flow base) : Inv base [] flow [] base where
  shape := .refl base
  valid := by simp
  linked := by simp [sites, h.uncalled]
  closed := by
    intro x E p hx
    rw [h.quiet] at hx
    cases hx
  raised := by simp
  called := by
    intro x f site E _ hx
    rw [h.quiet] at hx
    cases hx
  throws hf := by simp [(h.unthrown hf).1, h.quiet]
  waiting hf _ := by simp [(h.unthrown hf).2, sites, h.uncalled]
  sound := by
    intro errors _ s E hx
    rw [h.quiet] at hx
    cases hx
  pending := by simp
  departs := by simp
  surfacing := by simp

theorem Inv.raise (hnested : Nested base) (h : Inv base events flow [] table) {s : ScopeId} (ty : Ty)
    (hs : (base.scope? s).isSome = true) :
    Inv base (events ++ [.raise s ty]) flow [] (flow.raise s ty table) := by
  have hdue : ∀ {x E}, Due [] table x E → Due [.raise s ty] table x E := by
    rintro x E (hrec | ⟨_, hmem, -⟩)
    · exact .inl hrec
    · cases hmem
  refine Inv.run hnested
    { shape := h.shape
      valid := ?_
      linked := ?_
      closed := h.closed
      raised := ?_
      called := ?_
      throws := h.throws
      waiting := h.waiting
      sound := fun hclosed => h.sound hclosed.of_append
      pending := ?_
      departs := ?_
      surfacing := by simp }
  · intro event hmem
    rcases List.mem_append.1 hmem with hmem | hmem
    · exact h.valid hmem
    · cases List.mem_singleton.1 hmem
      exact hs
  · intro f site
    rw [h.linked]
    simp
  · intro x ty' hmem
    rcases List.mem_append.1 hmem with hmem | hmem
    · exact hdue (h.raised hmem)
    · cases List.mem_singleton.1 hmem
      exact .inr ⟨ty, List.mem_cons_self, rfl⟩
  · intro x f site E hx hrec hsite
    rcases h.called hx hrec hsite with hd | hmem
    · exact .inl (hdue hd)
    · cases hmem
  · intro errors hclosed x ty' E hmem hE
    cases List.mem_singleton.1 hmem
    exact hclosed.raised (List.mem_append_right _ List.mem_cons_self) ((Ty.beq_iff _ _).2 hE)
  · intro x ty' hmem
    cases List.mem_singleton.1 hmem
    exact hs

/-- A call joins the call sites of its function. With a task left for a function that throws, and
with the call waiting for one that does not, the invariant is kept. -/
theorem Inv.add_site (h : Inv base events flow [] table) {callee : ItemId} {site : ScopeId}
    (hsite : (base.scope? site).isSome = true) {tasks : List Task} {now : SymbolTable}
    (hshape : table.SameShape now) (hsame : ∀ x E, now.mayThrow x E = table.mayThrow x E)
    (hcalled : ∀ {x E}, base.functionOwner? x = some (canonical base callee) →
      table.mayThrow x E = true → .surface (canonical base callee) site ∈ tasks)
    (htasks : ∀ {task}, task ∈ tasks → task = .surface (canonical base callee) site)
    (hthrows : ∀ {f fn}, now.function? f = some fn →
      (fn.throws = true ↔ ∃ E, now.mayThrow fn.scope E = true))
    (hwaiting : ∀ {f fn}, now.function? f = some fn → fn.throws = false →
      fn.beganThrowing.released = false ∧ ∀ {action}, action ∈ fn.beganThrowing.waiting ↔
        ∃ site' ∈ (flow.withSite (canonical base callee) site).sites f,
          action = .surfaceErrors f site') :
    Inv base (events ++ [.link callee site]) (flow.withSite (canonical base callee) site) tasks
      now := by
  have hdue : ∀ {x E}, Due [] table x E → Due tasks now x E := by
    rintro x E (hrec | ⟨_, hmem, -⟩)
    · exact .inl (by rwa [hsame])
    · cases hmem
  refine
    { shape := h.shape.trans hshape
      valid := ?_
      linked := ?_
      closed := ?_
      raised := ?_
      called := ?_
      throws := hthrows
      waiting := hwaiting
      sound := ?_
      pending := ?_
      departs := ?_
      surfacing := ?_ }
  · intro event hmem
    rcases List.mem_append.1 hmem with hmem | hmem
    · exact h.valid hmem
    · cases List.mem_singleton.1 hmem
      exact hsite
  · intro f site'
    rw [mem_sites_withSite, mem_append_link, h.linked]
  · intro x E p hx hpass
    rw [hsame] at hx ⊢
    exact h.closed hx ((hpass.of_sameShape hshape.symm).of_tryBodies rfl)
  · intro x ty hmem
    rcases List.mem_append.1 hmem with hmem | hmem
    · exact hdue (h.raised hmem)
    · cases List.mem_singleton.1 hmem
  · intro x f site' E hx hrec hmem
    rw [hsame] at hrec
    rcases mem_sites_withSite.1 hmem with hold | ⟨rfl, rfl⟩
    · rcases h.called hx hrec hold with hd | hmem
      · exact .inl (hdue hd)
      · cases hmem
    · exact .inr (hcalled hx hrec)
  · intro errors hclosed x E hx
    rw [hsame] at hx
    exact h.sound (hclosed.of_append.of_tryBodies rfl) hx
  · intro errors _ x ty E hmem
    cases htasks hmem
  · intro x ty hmem
    cases htasks hmem
  · intro f site' hmem
    cases htasks hmem
    exact mem_sites_withSite.2 (.inr ⟨rfl, rfl⟩)

/-- The calls of the other functions are as before. -/
theorem Inv.waiting_of_ne (h : Inv base events flow [] table) {callee f : ItemId} {fn : Function}
    (site : ScopeId) (hf : table.function? f = some fn) (ht : fn.throws = false) (hne : f ≠ callee) :
    fn.beganThrowing.released = false ∧ ∀ {action}, action ∈ fn.beganThrowing.waiting ↔
      ∃ site' ∈ (flow.withSite callee site).sites f, action = .surfaceErrors f site' := by
  obtain ⟨hreleased, hwaiting⟩ := h.waiting hf ht
  refine ⟨hreleased, fun {action} => ?_⟩
  simp only [hwaiting, mem_sites_withSite, hne, false_and, or_false]

/-- A call of something that is no function changes nothing. -/
theorem Inv.link_none (hnested : Nested base) (h : Inv base events flow [] table) {callee : ItemId}
    {site : ScopeId} (hsite : (base.scope? site).isSome = true)
    (hf : table.function? (canonical base callee) = none) :
    Inv base (events ++ [.link callee site]) (flow.withSite (canonical base callee) site) []
      table := by
  refine h.add_site hsite (.refl table) (fun _ _ => rfl) ?_ (by simp) h.throws ?_
  · intro x E hx _
    rw [h.shape.functionOwner?_eq] at hx
    obtain ⟨fn, hfn, -⟩ := (hnested.of_sameShape h.shape).function_of_owner hx
    rw [hf] at hfn
    cases hfn
  · intro f fn hfn ht
    refine h.waiting_of_ne site hfn ht ?_
    rintro rfl
    rw [hf] at hfn
    cases hfn

/-- The errors of a function that throws surface at a new call. -/
theorem Inv.link_throwing (h : Inv base events flow [] table) {callee : ItemId} {site : ScopeId}
    (hsite : (base.scope? site).isSome = true) {fn : Function}
    (hf : table.function? (canonical base callee) = some fn) (ht : fn.throws = true) :
    Inv base (events ++ [.link callee site]) (flow.withSite (canonical base callee) site)
      [.surface (canonical base callee) site] table := by
  refine h.add_site hsite (.refl table) (fun _ _ => rfl) (by simp) (by simp) h.throws ?_
  intro f fn' hfn ht'
  refine h.waiting_of_ne site hfn ht' ?_
  rintro rfl
  rw [hf] at hfn
  cases hfn
  rw [ht] at ht'
  cases ht'

/-- A new call waits for a function that does not throw yet. -/
theorem Inv.link_waiting (hnested : Nested base) (h : Inv base events flow [] table)
    {callee : ItemId} {site : ScopeId} (hsite : (base.scope? site).isSome = true) {fn : Function}
    (hf : table.function? (canonical base callee) = some fn) (ht : fn.throws = false)
    {latch : Latch Deferred} (hlatch : latch.released = false)
    (hwait : latch.waiting = fn.beganThrowing.waiting ++ [.surfaceErrors (canonical base callee) site]) :
    Inv base (events ++ [.link callee site]) (flow.withSite (canonical base callee) site) []
      (table.modifyFunction (canonical base callee) fun fn => { fn with beganThrowing := latch }) := by
  refine h.add_site hsite (table.modifyFunction_sameShape _ fun _ => rfl) (fun _ _ => rfl) ?_
    (by simp) ?_ ?_
  · -- there is no error that could surface
    intro x E hx hrec
    rw [h.shape.functionOwner?_eq] at hx
    obtain ⟨fn', hfn', rfl⟩ := (hnested.of_sameShape h.shape).function_of_owner hx
    have hthrows := (h.throws hfn').2 ⟨E, hrec⟩
    rw [hf] at hfn'
    cases hfn'
    rw [ht] at hthrows
    cases hthrows
  · intro f fn' hfn'
    rw [function?_modifyFunction] at hfn'
    split at hfn'
    · obtain ⟨old, hold, rfl⟩ := Option.map_eq_some_iff.1 hfn'
      have hthrows := h.throws hold
      exact hthrows
    · exact h.throws hfn'
  · intro f fn' hfn' ht'
    rw [function?_modifyFunction] at hfn'
    split at hfn'
    · rename_i heq
      subst heq
      rw [hf] at hfn'
      cases hfn'
      refine ⟨hlatch, fun {action} => ?_⟩
      obtain ⟨-, hwaiting⟩ := h.waiting hf ht
      simp only [hwait, List.mem_append, List.mem_singleton, hwaiting, mem_sites_withSite]
      constructor
      · rintro (⟨site', hmem, rfl⟩ | rfl)
        · exact ⟨site', .inl hmem, rfl⟩
        · exact ⟨site, .inr ⟨trivial, rfl⟩, rfl⟩
      · rintro ⟨site', hmem | ⟨-, rfl⟩, rfl⟩
        · exact .inl ⟨site', hmem, rfl⟩
        · exact .inr rfl
    · rename_i hne
      exact h.waiting_of_ne site hfn' ht' hne

theorem link_eq (flow : ErrorFlow) (callee : ItemId) (site : ScopeId) (table : SymbolTable) :
    flow.link callee site table =
      (flow.withSite (canonical table callee) site,
        match table.function? (canonical table callee) with
        | none => table
        | some fn =>
          if fn.throws = true then
            (flow.withSite (canonical table callee) site).run
              [.surface (canonical table callee) site] table
          else
            let waiting := fn.beganThrowing.subscribe (.surfaceErrors (canonical table callee) site)
            (flow.withSite (canonical table callee) site).run
              (waiting.1.toList.filterMap Task.ofDeferred?)
              (table.modifyFunction (canonical table callee) fun fn =>
                { fn with beganThrowing := waiting.2 })) := by
  unfold ErrorFlow.link
  simp only
  change (match table.function? (canonical table callee) with | none => _ | some fn => _) = _
  cases table.function? (canonical table callee) with
  | none => rfl
  | some fn => cases h : fn.throws <;> simp only [h] <;> rfl

theorem Inv.link (hnested : Nested base) (h : Inv base events flow [] table) (callee : ItemId)
    {site : ScopeId} (hsite : (base.scope? site).isSome = true) :
    Inv base (events ++ [.link callee site]) (flow.link callee site table).1 []
      (flow.link callee site table).2 := by
  rw [link_eq, ← canonical_eq h.shape]
  cases hf : table.function? (canonical base callee) with
  | none => exact h.link_none hnested hsite hf
  | some fn =>
    cases ht : fn.throws with
    | true =>
      simp only [ht, if_true]
      exact (h.link_throwing hsite hf ht).run hnested
    | false =>
      have hreleased := (h.waiting hf ht).1
      simp only [ht, Latch.subscribe, hreleased, Bool.false_eq_true, if_false]
      refine (h.link_waiting hnested hsite hf ht ?_ rfl).run hnested
      rfl

theorem Inv.event (hnested : Nested base) (h : Inv base events flow [] table) (event : Event)
    (hs : (base.scope? event.scope).isSome = true) :
    Inv base (events ++ [event]) (event.run (flow, table)).1 [] (event.run (flow, table)).2 ∧
      (event.run (flow, table)).1.tryBodies = flow.tryBodies := by
  cases event with
  | raise s ty => exact ⟨h.raise hnested ty hs, rfl⟩
  | link callee site => exact ⟨h.link hnested callee hs, by simp only [Event.run, link_eq, withSite]⟩

/-- All events keep the invariant. -/
theorem Inv.runAll (hnested : Nested base) (more : List Event) (h : Inv base events flow [] table)
    (hmore : ∀ event ∈ more, (base.scope? event.scope).isSome = true) :
    Inv base (events ++ more) (runAll more (flow, table)).1 [] (runAll more (flow, table)).2 ∧
      (runAll more (flow, table)).1.tryBodies = flow.tryBodies := by
  induction more generalizing events flow table with
  | nil =>
    rw [List.append_nil]
    exact ⟨h, rfl⟩
  | cons event more ih =>
    obtain ⟨hevent, htry⟩ := h.event hnested event (hmore event List.mem_cons_self)
    obtain ⟨hall, htry'⟩ := ih hevent fun e he => hmore e (List.mem_cons_of_mem _ he)
    rw [List.append_assoc] at hall
    exact ⟨hall, htry'.trans htry⟩

end Events

/-! ## The least fixpoint -/

section Least

variable {base table : SymbolTable} {events : List Event} {flow : ErrorFlow}

/-- With no task left, the recorded errors leave nothing out. -/
theorem Inv.closed_mayThrow (hnested : Nested base) (h : Inv base events flow [] table) :
    Closed flow base events fun s E => table.mayThrow s E = true where
  raised := by
    intro s ty E hmem hbeq
    rw [table.mayThrow_congr s ((Ty.beq_iff _ _).1 hbeq)]
    rcases h.raised hmem with hrec | ⟨_, hmem, -⟩
    · exact hrec
    · cases hmem
  outward hx hpass := h.closed hx (hpass.of_sameShape h.shape)
  called := by
    intro f fn callee site E hf hrec hlink hcanonical
    rcases h.called (hnested.owner_of_function hf) hrec (h.linked.2 ⟨callee, hlink, hcanonical⟩) with
      (hrec | ⟨_, hmem, -⟩) | hmem
    · exact hrec
    · cases hmem
    · cases hmem

/-- **Least fixpoint.** The propagation of any tasks ends. After any events, the recorded errors are
the least that leave nothing out, a function throws iff its scope has an error, and events in any
other order record the same errors. -/
theorem runAll_least (hfresh : Fresh flow table)
    (hevents : ∀ event ∈ events, (table.scope? event.scope).isSome = true) :
    (∀ flow' tasks now, ReflTransGen (Step flow') (tasks, now) ([], flow'.run tasks now)) ∧
      Closed flow table events (fun s E => (runAll events (flow, table)).2.mayThrow s E = true) ∧
      (∀ errors, Closed flow table events errors →
        ∀ s E, (runAll events (flow, table)).2.mayThrow s E = true → errors s E) ∧
      (∀ f fn, (runAll events (flow, table)).2.function? f = some fn →
        (fn.throws = true ↔ ∃ E, (runAll events (flow, table)).2.mayThrow fn.scope E = true)) ∧
      ∀ events', events'.Perm events → ∀ s E,
        (runAll events' (flow, table)).2.mayThrow s E = (runAll events (flow, table)).2.mayThrow s E := by
  have hleast : ∀ {events'}, events'.Perm events →
      Closed flow table events' (fun s E => (runAll events' (flow, table)).2.mayThrow s E = true) ∧
        ∀ errors, Closed flow table events' errors →
          ∀ s E, (runAll events' (flow, table)).2.mayThrow s E = true → errors s E := by
    intro events' hperm
    obtain ⟨hinv, htry⟩ := hfresh.inv.runAll hfresh.nested events' fun e he =>
      hevents e (hperm.mem_iff.1 he)
    rw [List.nil_append] at hinv
    refine ⟨(hinv.closed_mayThrow hfresh.nested).of_tryBodies htry, fun errors hclosed s E => ?_⟩
    exact hinv.sound (hclosed.of_tryBodies htry.symm)
  obtain ⟨hclosed, hbelow⟩ := hleast (.refl events)
  refine ⟨run_reaches, hclosed, hbelow, ?_, ?_⟩
  · intro f fn hf
    exact (hfresh.inv.runAll hfresh.nested events hevents).1.throws hf
  · intro events' hperm s E
    obtain ⟨hclosed', hbelow'⟩ := hleast hperm
    rw [Bool.eq_iff_iff]
    exact ⟨hbelow' _ (hclosed.of_perm hperm) s E, hbelow _ (hclosed'.of_perm hperm.symm) s E⟩

/-- A function, and a `try` body in which it may be called. -/
def calledInTry : SymbolTable where
  items := #[{
    name := "f", scope := ⟨0⟩, module := ⟨0⟩
    entity := .fn { scope := ⟨1⟩, returnType := .native .void } }]
  scopes := #[
    { id := ⟨0⟩, parent := none, owner := .unit ⟨0⟩, module := ⟨0⟩ },
    { id := ⟨1⟩, parent := some ⟨0⟩, owner := .fn ⟨0⟩, module := ⟨0⟩ },
    { id := ⟨2⟩, parent := some ⟨0⟩, owner := .block, module := ⟨0⟩, isTry := true }]

theorem function?_calledInTry {f : ItemId} {fn : Function}
    (h : calledInTry.function? f = some fn) :
    f = ⟨0⟩ ∧ fn = { scope := ⟨1⟩, returnType := .native .void } := by
  obtain ⟨_ | i⟩ := f
  · exact ⟨rfl, (Option.some.inj h).symm⟩
  · simp [calledInTry, function?, item?] at h

theorem fresh_calledInTry (tryBodies : List (ScopeId × List (Option Ty))) :
    Fresh { tryBodies } calledInTry where
  nested :=
    { parent_lt := by
        rintro ⟨_ | _ | _ | s⟩ p h
        · cases h
        · cases h
          decide
        · cases h
          decide
        · simp [calledInTry, scope?] at h
      function_of_owner := by
        rintro ⟨_ | _ | _ | s⟩ f h
        · cases h
        · cases h
          exact ⟨_, rfl, rfl⟩
        · cases h
        · simp [calledInTry, functionOwner?, scope?] at h
      owner_of_function := by
        intro f fn h
        obtain ⟨rfl, rfl⟩ := function?_calledInTry h
        rfl
      not_function_of_try := by
        rintro ⟨_ | _ | _ | s⟩ h
        · cases h
        · cases h
        · rfl
        · simp [calledInTry, scope?] at h }
  quiet := by
    rintro ⟨_ | _ | _ | s⟩ ty
    · rfl
    · rfl
    · rfl
    · simp [calledInTry, mayThrow, scope?]
  unthrown h := by
    obtain ⟨rfl, rfl⟩ := function?_calledInTry h
    exact ⟨rfl, rfl⟩
  uncalled := rfl

/-- A `try` body that catches `int`, with the function called in it. -/
def catchesInt : ErrorFlow := { tryBodies := [(⟨2⟩, [some (.native .int)])] }

/-- The call is linked first, and the function throws later. -/
def callThenThrow : List Event := [.link ⟨0⟩ ⟨2⟩, .raise ⟨1⟩ (.native .int)]

/-- Errors that stay below the outermost scope leave nothing out. -/
theorem closed_calledInTry : Closed catchesInt calledInTry callThenThrow fun s E =>
    s ≠ ⟨0⟩ ∧ E.erase = (Ty.native .int).erase where
  raised := by
    intro s ty E hmem hbeq
    simp only [callThenThrow, List.mem_cons, List.not_mem_nil, or_false, reduceCtorEq,
      Event.raise.injEq, false_or] at hmem
    obtain ⟨rfl, rfl⟩ := hmem
    exact ⟨by decide, (Ty.beq_iff _ _).1 hbeq⟩
  outward := by
    rintro ⟨_ | _ | _ | s⟩ E p ⟨hne, hE⟩ hpass
    · exact absurd rfl hne
    · cases hpass.not_function
    · have hstop : catchesInt.stopsAt calledInTry ⟨2⟩ (.native .int) = true := by
        simp [stopsAt, catchesInt, handles, catches]
      exact absurd ⟨rfl, hstop⟩ (hpass.congr hE).uncaught
    · have hparent := hpass.parent
      simp [calledInTry, scope?] at hparent
  called := by
    intro f fn callee site E _ hE hmem _
    simp only [callThenThrow, List.mem_cons, List.not_mem_nil, or_false, reduceCtorEq,
      Event.link.injEq] at hmem
    obtain ⟨-, rfl⟩ := hmem
    exact ⟨by decide, hE.2⟩

/-- The call that was there before the function threw gets the error, and the `try` body keeps it
from the scope around. -/
theorem runAll_least_calledInTry :
    (runAll callThenThrow (catchesInt, calledInTry)).2.mayThrow ⟨2⟩ (.native .int) = true ∧
      (runAll callThenThrow (catchesInt, calledInTry)).2.mayThrow ⟨0⟩ (.native .int) = false := by
  have hvalid : ∀ event ∈ callThenThrow, (calledInTry.scope? event.scope).isSome = true := by
    simp [callThenThrow, Event.scope, calledInTry, scope?]
  obtain ⟨-, hclosed, hleast, -, -⟩ := runAll_least (fresh_calledInTry catchesInt.tryBodies) hvalid
  constructor
  · have hraised := hclosed.raised (List.mem_cons_of_mem _ List.mem_cons_self) (Ty.beq_self _)
    exact hclosed.called (f := ⟨0⟩) rfl hraised List.mem_cons_self rfl
  · rw [← Bool.not_eq_true]
    intro h
    exact (hleast _ closed_calledInTry _ _ h).1 rfl

end Least

end SemanticAnalysis.ErrorFlow
