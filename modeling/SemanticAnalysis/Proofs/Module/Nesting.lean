import SemanticAnalysis.Proofs.Generics.Cache
import SemanticAnalysis.Proofs.Module.Collecting

/-!
# A bound that is not met does not matter

How deep demands may be nested is bounded, so that every analysis ends. One step is carried out twice, with two
analysts of which the second goes deeper. If the first run does not meet its bound, the second one does the same; if
it does, that is not kept from anybody: the error is what the run ends with, or it has been noted or given up
(`Met`). This is kept by everything a step can be put together from (`Deepens`), by demands as deep as they may be
nested (`analyst_deepens`), and by the loading of modules.

So all runs of a session with a greater bound than one that is not met do the same as that one, and the runs of
all bounds together make finitely many instances of generic declarations.
-/

namespace SemanticAnalysis

open Analysis (behind behind_eq stateAt inState Impartial Reported Reports bind_ok bind_error recover_run
  tryCatch_run)

variable {α β : Type}

/-! ## Meeting the bound -/

/-- The errors that are known when a step has ended: those noted, those given up, and the one it ended with. -/
def knownErrors : EStateM.Result Diagnostic State α → List Diagnostic
  | .ok _ s => s.errors ++ s.dropped
  | .error e s => e :: (s.errors ++ s.dropped)

/-- The run met the bound: one of the errors is that demands are nested too deep. -/
def Met (r : EStateM.Result Diagnostic State α) : Prop := ∃ e ∈ knownErrors r, e.cause = .tooDeep

namespace Met

variable {d e : Diagnostic} {s s' : State} {r : EStateM.Result Diagnostic State α}

theorem of_error (he : e.cause = .tooDeep) : Met (.error e s : EStateM.Result Diagnostic State α) :=
  ⟨e, List.mem_cons_self, he⟩

theorem of_mem (hmem : e ∈ (stateAt r).errors ++ (stateAt r).dropped) (he : e.cause = .tooDeep) : Met r := by
  refine ⟨e, ?_, he⟩
  cases r with
  | ok a s => exact hmem
  | error d s => exact List.mem_cons_of_mem d hmem

/-- The run ended with the error, or the error was known before. -/
theorem cases (h : Met r) : (∃ e s, r = .error e s ∧ e.cause = .tooDeep) ∨
    ∃ e ∈ (stateAt r).errors ++ (stateAt r).dropped, e.cause = .tooDeep := by
  obtain ⟨e, hmem, he⟩ := h
  cases r with
  | ok a s => exact .inr ⟨e, hmem, he⟩
  | error d s =>
    rcases List.mem_cons.1 hmem with rfl | hmem
    · exact .inl ⟨e, s, rfl, he⟩
    · exact .inr ⟨e, hmem, he⟩

/-- What is noted or given up stays so. -/
theorem of_adds {r' : EStateM.Result Diagnostic State β} (hadds : (stateAt r).Adds (stateAt r'))
    (hmem : e ∈ (stateAt r).errors ++ (stateAt r).dropped) (he : e.cause = .tooDeep) : Met r' := by
  refine of_mem (List.mem_append.2 ?_) he
  exact (List.mem_append.1 hmem).imp (fun h => hadds.errors.subset h) fun h => hadds.dropped.subset h

/-- An error that says that demands are nested too deep is restated as it is. -/
theorem of_reported (h : Reported e r) (he : e.cause = .tooDeep) : Met r := by
  have hrestates {d : Diagnostic} (hd : d.Restates e) : d.cause = .tooDeep := by
    rcases hd with rfl | ⟨name, -, hname⟩
    · exact he
    · cases he.symm.trans hname
  cases h with
  | again hd => exact of_error (hrestates hd)
  | givenUp hd hmem => exact of_mem (List.mem_append_right _ hmem) (hrestates hd)

end Met

/-! ## Two runs of one step -/

/-- The second step does the same as the first, in an analysis that may go to another depth, or the first meets the
bound. -/
structure Deepens (x y : Analysis α) : Prop where
  tolerant : Tolerant x
  agrees : ∀ n s, y (s.nested n) = inState (·.nested n) (x s) ∨ Met (x s)

namespace Deepens

variable {x y : Analysis α} {f g : α → Analysis β}

theorem of_impartial (hx : Impartial x) : Deepens x x :=
  ⟨.of_impartial hx, fun n s => .inl (hx.nested n s)⟩

theorem pure {a : α} : Deepens (Pure.pure a : Analysis α) (Pure.pure a) := of_impartial .pure

theorem throw {e : Diagnostic} : Deepens (MonadExcept.throw e : Analysis α) (MonadExcept.throw e) :=
  of_impartial .throw

/-- A change of the state that has nothing to do with the options or with errors. -/
theorem alter {f : State → State} (hledger : ∀ s, (f s).ledger = s.ledger)
    (hadjusted : ∀ c n s, f (s.adjusted c n) = (f s).adjusted c n) :
    Deepens (modify f : Analysis PUnit) (modify f) := of_impartial (.alter hledger hadjusted)

theorem bind (hx : Deepens x y) (hf : ∀ a, Deepens (f a) (g a)) : Deepens (x >>= f) (y >>= g) where
  tolerant := hx.tolerant.bind fun a => (hf a).tolerant
  agrees n s := by
    rcases hx.agrees n s with hsame | hmet
    · cases hxs : x s with
      | ok a s' =>
        rw [hxs] at hsame
        rw [bind_ok hxs, bind_ok hsame]
        exact (hf a).agrees n s'
      | error e s' =>
        rw [hxs] at hsame
        rw [bind_error hxs, bind_error hsame]
        exact .inl rfl
    · right
      rcases hmet.cases with ⟨e, s', hxs, he⟩ | ⟨e, hmem, he⟩
      · rw [bind_error hxs]
        exact .of_error he
      · exact .of_adds (Tolerant.adds_bind (fun a => (hf a).tolerant) s) hmem he

theorem map {h : α → β} (hx : Deepens x y) : Deepens (h <$> x) (h <$> y) := by
  rw [← bind_pure_comp, ← bind_pure_comp]
  exact hx.bind fun _ => .pure

/-- Whoever catches errors must report what is caught. -/
theorem tryCatch {h k : Diagnostic → Analysis α} (hx : Deepens x y) (hh : ∀ e, Deepens (h e) (k e))
    (hreports : ∀ e, Reports e (h e)) :
    Deepens (MonadExcept.tryCatch x h) (MonadExcept.tryCatch y k) where
  tolerant := hx.tolerant.tryCatch (fun e => (hh e).tolerant) hreports
  agrees n s := by
    rcases hx.agrees n s with hsame | hmet
    · rw [tryCatch_run, tryCatch_run, hsame]
      cases hxs : x s with
      | ok a s' => exact .inl rfl
      | error e s' => exact (hh e).agrees n s'
    · right
      rcases hmet.cases with ⟨e, s', hxs, he⟩ | ⟨e, hmem, he⟩
      · rw [tryCatch_run, hxs]
        exact .of_reported (hreports e s') he
      · exact .of_adds (Tolerant.adds_tryCatch (fun e => (hh e).tolerant) s) hmem he

theorem recover (hx : Deepens x y) : Deepens (Analysis.recover x) (Analysis.recover y) where
  tolerant := hx.tolerant.recover
  agrees n s := by
    rcases hx.agrees n s with hsame | hmet
    · left
      rw [recover_run, recover_run, hsame]
      cases hxs : x s with
      | ok a s' => rfl
      | error e s' =>
        show (if s'.options.collectErrors = true then _ else _) = inState _ (if _ then _ else _)
        split <;> rfl
    · right
      rcases hmet.cases with ⟨e, s', hxs, he⟩ | ⟨e, hmem, he⟩
      · rw [recover_run, hxs]
        dsimp only
        split
        · refine .of_mem (List.mem_append_left _ ?_) he
          exact List.mem_append_right _ (List.mem_singleton_self e)
        · exact .of_error he
      · exact .of_adds (Tolerant.adds_recover x s) hmem he

theorem giveUp (e : Diagnostic) : Deepens (Analysis.giveUp e) (Analysis.giveUp e) :=
  ⟨.giveUp e, fun _ _ => .inl rfl⟩

/-- Look at the state, but not at whether errors are collected or how deep demands may be nested. -/
theorem read {f g : State → Analysis β}
    (hadjusted : ∀ c n s, f (s.adjusted c n) = f s ∧ g (s.adjusted c n) = g s)
    (hf : ∀ s, Deepens (f s) (g s)) : Deepens (MonadState.get >>= f) (MonadState.get >>= g) where
  tolerant := .read (fun s => (hadjusted false s.options.nesting s).1) fun s => (hf s).tolerant
  agrees n s := by
    have hsame : g (s.nested n) = g s := (hadjusted s.options.collectErrors n s).2
    show g (s.nested n) (s.nested n) = _ ∨ Met (f s s)
    rw [hsame]
    exact (hf s).agrees n s

theorem andFinally {f : State → State} (hx : Deepens x y)
    (hlast : Deepens (modify f : Analysis Unit) (modify f)) :
    Deepens (Analysis.andFinally x (modify f)) (Analysis.andFinally y (modify f)) := by
  unfold Analysis.andFinally
  refine .bind (.tryCatch hx (fun e => ?_) fun e s => .again (.refl e)) fun a => ?_
  · exact hlast.bind fun _ => .throw
  · exact hlast.bind fun _ => .pure

end Deepens

/-! ## Demands -/

/-- The second analyst answers every demand as the first one does, unless the first one meets its bound. -/
def Analyst.Deepens (an an' : Analyst) : Prop :=
  ∀ {α : Type} (d : Demand α), SemanticAnalysis.Deepens (an.ask d) (an'.ask d)

theorem Delegates.deepens {an an' : Analyst} {x y : Analysis α} (hx : Delegates an an' x y)
    (han : an.Deepens an') : Deepens x y := by
  induction hx with
  | aside _ himpartial => exact .of_impartial himpartial
  | ask d => exact han d
  | bind _ _ ihx ihf => exact ihx.bind ihf
  | read hadjusted _ ihf => exact .read hadjusted ihf
  | tryCatch _ _ hreports ihx ihh => exact ihx.tryCatch ihh hreports
  | recover _ ihx => exact ihx.recover
  | giveUp => exact .giveUp _

namespace Analysis

variable {an an' : Analyst} {path : Path} {position : Position}

/-! ### Modules -/

theorem detailModule_deepens (han : an.Deepens an') {root : Root} {m : ModuleId} :
    Deepens (detailModule an root m) (detailModule an' root m) := by
  unfold detailModule
  refine .bind (openFrame_delegates.deepens han) fun frame => ?_
  refine .bind (.alter (fun _ => rfl) fun _ _ _ => rfl) fun _ => ?_
  refine .bind (look_delegates.deepens han) fun known => .bind (expect_delegates.deepens han) fun md => ?_
  refine .bind (.andFinally (runPasses_delegates.deepens han) ?_) fun _ => ?_
  · exact .alter (fun _ => rfl) fun _ _ _ => rfl
  refine .bind (look_delegates.deepens han) fun rootItems => .bind (change_delegates.deepens han) fun _ => ?_
  exact .bind (.alter (fun _ => rfl) fun _ _ _ => rfl) fun _ => .pure

theorem loadTree_deepens (han : an.Deepens an') {root : Root} {name package : String} :
    Deepens (loadTree an root name path package) (loadTree an' root name path package) := by
  unfold loadTree
  refine .bind (make_delegates.deepens han) fun m => .bind (.tryCatch ?_ (fun e => ?_) ?_) fun _ => .pure
  · exact .bind (.map (detailModule_deepens han)) fun _ => .alter (fun _ => rfl) fun _ _ _ => rfl
  · exact .bind (.alter (fun _ => rfl) fun _ _ _ => rfl) fun _ => .throw
  · exact fun e s => .again (.refl e)

theorem loadModule_deepens (han : an.Deepens an') {request : String} :
    Deepens (loadModule an path request position) (loadModule an' path request position) := by
  unfold loadModule
  refine .bind (.of_impartial beginLoad_impartial) fun known => ?_
  cases known with
  | some m => exact .pure
  | none =>
    have habandon : Deepens (modify fun s => { s with loads := s.loads.abandon path } : Analysis Unit)
        (modify fun s => { s with loads := s.loads.abandon path }) :=
      .alter (fun _ => rfl) fun _ _ _ => rfl
    refine .read (fun _ _ _ => ⟨rfl, rfl⟩) fun s => ?_
    split
    · exact habandon.bind fun _ => .throw
    split
    · exact habandon.bind fun _ => .throw
    · exact loadTree_deepens han

theorem answer_deepens (han : an.Deepens an') (d : Demand α) : Deepens (answer an d) (answer an' d) := by
  cases d with
  | type frame t scope => exact resolveType_delegates.deepens han
  | expr frame e scope access => exact detailExpr_delegates.deepens han
  | stmt frame stmt scope => exact detailStmt_delegates.deepens han
  | signatures cls => exact classSignatures_delegates.deepens han
  | synthesis cls => exact synthesize_delegates.deepens han
  | classBodies cls => exact detailClassBodies_delegates.deepens han
  | functionBody frame decl item => exact detailFunctionBody_delegates.deepens han
  | pass p frame statements scope => exact runPass_delegates.deepens han
  | module path request position => exact loadModule_deepens han
  | pending => exact drainPending_delegates.deepens han

end Analysis

/-- An analyst that may go deeper. -/
theorem analyst_deepens {n m : Nat} (h : n ≤ m) : (analyst n).Deepens (analyst m) := by
  induction n generalizing m with
  | zero => exact fun d => ⟨.of_impartial .throw, fun _ _ => .inr (.of_error rfl)⟩
  | succ n ih =>
    obtain ⟨m, rfl⟩ : ∃ k, m = k + 1 := ⟨m - 1, by omega⟩
    exact fun d => Analysis.answer_deepens (ih (by omega)) d

/-! ## Sessions -/

/-- The same session, with a bound on how deep demands may be nested. -/
def Session.nested (session : Session) (nesting : Nat) : Session :=
  { session with options.nesting := nesting }

/-- What the same run comes to that may go to another depth. -/
def Outcome.nested (o : Outcome) (nesting : Nat) : Outcome := { o with state := o.state.nested nesting }

/-- The errors that are known when a session has ended. -/
def Outcome.knownErrors (o : Outcome) : List Diagnostic :=
  match o.root with
  | .error (.analysis e) => e :: (o.state.errors ++ o.state.dropped)
  | _ => o.state.errors ++ o.state.dropped

/-- The session met the bound: one of the errors is that demands are nested too deep. -/
def Outcome.MeetsBound (o : Outcome) : Prop := ∃ e ∈ o.knownErrors, e.cause = .tooDeep

instance (o : Outcome) : Decidable o.MeetsBound := inferInstanceAs (Decidable (∃ e ∈ o.knownErrors, _))

theorem Outcome.meetsBound_of (r : EStateM.Result Diagnostic State ModuleId) :
    (Outcome.of r).MeetsBound ↔ Met r := by
  cases r <;> exact .rfl

/-- The runs of a session with all bounds, of which one is enough: every greater bound makes no difference, and all
runs together make finitely many instances of generic declarations. -/
structure Suffices (runs : Nat → Outcome) (bound : Nat) : Prop where
  same : ∀ n, bound ≤ n → runs n = (runs bound).nested n
  instances : ∃ made : List Instantiation, ∀ n c, ((runs n).state.instance? c).isSome = true → ∃ d ∈ made, c.Same d

/-- What a table finds is among its entries. -/
theorem InstanceTable.mem_entries_of_find? {digest : List Ty → UInt64} {t : InstanceTable} {template : ItemId}
    {arguments : List Ty} {inst : Instance} (h : t.find? digest template arguments = some inst) :
    (template, inst) ∈ t.entries ∧ inst.arguments.map Ty.erase = arguments.map Ty.erase := by
  have hmem : inst ∈ t.bucket digest template arguments := List.mem_of_find?_eq_some h
  have hsame := List.find?_some h
  refine ⟨?_, (Ty.beq_list_iff _ _).1 hsame⟩
  unfold bucket at hmem
  cases hheld : t.buckets.lookup (template, digest arguments) with
  | none =>
    rw [hheld] at hmem
    cases hmem
  | some held =>
    rw [hheld] at hmem
    obtain ⟨before, after, hbuckets, -⟩ := List.lookup_eq_some_iff.1 hheld
    have hbucket : ((template, digest arguments), held) ∈ t.buckets := by
      rw [hbuckets]
      exact List.mem_append_right _ List.mem_cons_self
    exact List.mem_flatMap.2 ⟨_, hbucket, List.mem_map_of_mem hmem⟩

/-- What there are instances for. -/
def State.instantiations (s : State) : List Instantiation :=
  [InstanceKind.cls, .fn].flatMap fun k =>
    (s.instances.table k).entries.map fun e => ⟨k, e.1, e.2.arguments⟩

theorem State.mem_instantiations {s : State} {c : Instantiation} (h : (s.instance? c).isSome = true) :
    ∃ d ∈ s.instantiations, c.Same d := by
  obtain ⟨item, hitem⟩ := Option.isSome_iff_exists.1 h
  obtain ⟨inst, hfound, -⟩ := Option.map_eq_some_iff.1 hitem
  obtain ⟨hmem, harguments⟩ := InstanceTable.mem_entries_of_find? hfound
  refine ⟨⟨c.kind, c.template, inst.arguments⟩, ?_, rfl, rfl, harguments.symm⟩
  have hkind : c.kind ∈ [InstanceKind.cls, .fn] := by cases c.kind <;> simp
  exact List.mem_flatMap.2 ⟨c.kind, hkind, List.mem_map.2 ⟨_, hmem, rfl⟩⟩

theorem Suffices.of_same {runs : Nat → Outcome} {bound : Nat}
    (h : ∀ n, bound ≤ n → runs n = (runs bound).nested n) : Suffices runs bound := by
  refine ⟨h, (List.range (bound + 1)).flatMap fun n => (runs n).state.instantiations, fun n c hc => ?_⟩
  -- a run with a greater bound makes the same instances
  obtain ⟨k, hk, hsome⟩ : ∃ k ≤ bound, ((runs k).state.instance? c).isSome = true := by
    rcases Nat.le_total n bound with hn | hn
    · exact ⟨n, hn, hc⟩
    · rw [h n hn] at hc
      exact ⟨bound, Nat.le_refl _, hc⟩
  obtain ⟨d, hd, hsame⟩ := State.mem_instantiations hsome
  exact ⟨d, List.mem_flatMap.2 ⟨k, List.mem_range.2 (by omega), hd⟩, hsame⟩

theorem Session.run_suffices (session : Session) {bound : Nat} {step : Analyst → Analysis ModuleId}
    (h : ∀ an an' : Analyst, an.Deepens an' → Deepens (step an) (step an'))
    (hunmet : ¬ ((session.nested bound).run (Analysis.withAnalyst step)).MeetsBound) :
    Suffices (fun n => (session.nested n).run (Analysis.withAnalyst step)) bound := by
  refine .of_same fun n hn => ?_
  have hstart : (session.nested n).start = (session.nested bound).start.nested n := rfl
  rw [run_eq, Outcome.meetsBound_of] at hunmet
  rw [run_eq, run_eq]
  rcases (h _ _ (analyst_deepens hn)).agrees n (session.nested bound).start with hsame | hmet
  · show Outcome.of (step (analyst n) (session.nested n).start) = _
    rw [hstart, hsame]
    show _ = (Outcome.of (step (analyst bound) (session.nested bound).start)).nested n
    cases step (analyst bound) (session.nested bound).start <;> rfl
  · exact absurd hmet hunmet

/-- Likewise for the module at a path of the library. -/
theorem unmet_bound_suffices_path (session : Session) (path : Path) {bound : Nat}
    (hunmet : ¬ ((session.nested bound).analyse path).MeetsBound) :
    Suffices (fun n => (session.nested n).analyse path) bound :=
  session.run_suffices (fun _ _ han => Analysis.loadModule_deepens han) hunmet

end SemanticAnalysis
