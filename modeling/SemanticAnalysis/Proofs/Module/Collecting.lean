import SemanticAnalysis.Proofs.Faithful.Programs
import SemanticAnalysis.Proofs.Module.Balance

/-!
# Collecting errors only adds

One step is carried out twice, once from a state whose analysis collects errors and once from its strict twin,
whose analysis stops at the first error. The two runs do the same until the first one notes an error. There the
other one stops with that error, and from then on the error is reported, perhaps once more at the place of a call,
or somebody gives it up (`Agrees`). This is kept by everything a step can be put together from (`Tolerant`), by
demands as deep as they may be nested, and by the loading of modules.

What an attempt gives up may have been noted before, and stays noted: that is the one case in which collecting
errors does more than to go on behind an error (`given_up_error_stays_noted`).
-/

namespace SemanticAnalysis

open Analysis (behind behind_eq stateAt strictly Impartial Reported Reports bind_ok bind_error recover_run
  tryCatch_run)

/-! ## What is noted and what is given up -/

/-- Options stay, errors are only added, and none is noted by an analysis that stops at its first error. -/
structure State.Adds (s s' : State) : Prop where
  options : s'.options = s.options
  errors : s.errors <+: s'.errors
  dropped : s.dropped <+: s'.dropped
  strict : s.options.collectErrors = false → s'.errors = s.errors

namespace State.Adds

variable {s s' s'' : State}

theorem of_ledger (h : s'.ledger = s.ledger) : s.Adds s' := by
  obtain ⟨hoptions, hrest⟩ : s'.options = s.options ∧ (s'.errors, s'.dropped) = (s.errors, s.dropped) :=
    Prod.mk.inj h
  obtain ⟨herrors, hdropped⟩ := Prod.mk.inj hrest
  exact ⟨hoptions, herrors ▸ List.prefix_rfl, hdropped ▸ List.prefix_rfl, fun _ => herrors⟩

theorem refl (s : State) : s.Adds s := of_ledger rfl

theorem trans (h : s.Adds s') (h' : s'.Adds s'') : s.Adds s'' where
  options := h'.options.trans h.options
  errors := h.errors.trans h'.errors
  dropped := h.dropped.trans h'.dropped
  strict hs := (h'.strict (h.options ▸ hs)).trans (h.strict hs)

/-- What was noted first stays noted first. -/
theorem noted {old rest : List Diagnostic} {e : Diagnostic} (h : s.Adds s')
    (hs : s.errors = old ++ e :: rest) : ∃ rest', s'.errors = old ++ e :: rest' := by
  obtain ⟨more, hmore⟩ := h.errors
  exact ⟨rest ++ more, by rw [← hmore, hs, List.append_assoc, List.cons_append]⟩

end State.Adds

namespace Analysis.Reported

variable {α β : Type} {d e : Diagnostic} {s : State}

theorem of_restates (hd : d.Restates e) {r : EStateM.Result Diagnostic State α} (h : Reported d r) :
    Reported e r := by
  cases h with
  | again h => exact .again (h.trans hd)
  | givenUp h hmem => exact .givenUp (h.trans hd) hmem

/-- An error that was given up is given up for good. -/
theorem of_adds {r : EStateM.Result Diagnostic State α} {r' : EStateM.Result Diagnostic State β}
    (hadds : (stateAt r).Adds (stateAt r')) (hd : d.Restates e) (hmem : d ∈ (stateAt r).dropped) :
    Reported e r' := .givenUp hd (hadds.dropped.subset hmem)

end Analysis.Reported

/-! ## Two runs of one step -/

/-- How a step ends that is carried out in `s` and in the strict twin of `s`: either no error is noted and both
runs do the same, or the first error that is noted is reported by the other run. -/
inductive Agrees {α : Type} (s : State) (all first : EStateM.Result Diagnostic State α) : Prop
  | alike (hsame : first = strictly all) (hnone : (stateAt all).errors = s.errors)
  | noted {e : Diagnostic} {rest : List Diagnostic} (hnoted : (stateAt all).errors = s.errors ++ e :: rest)
      (hreported : Reported e first)

theorem Agrees.of_errors {α : Type} {s s' : State} {all first : EStateM.Result Diagnostic State α}
    (h : Agrees s' all first) (hs : s'.errors = s.errors) : Agrees s all first := by
  cases h with
  | alike hsame hnone => exact .alike hsame (hnone.trans hs)
  | noted hnoted hreported => exact .noted (hs ▸ hnoted) hreported

/-- The step does the same whether or not errors are collected, until it notes an error. -/
structure Tolerant {α : Type} (x : Analysis α) : Prop where
  adds : ∀ s : State, s.Adds (behind x s)
  agrees : ∀ s, Agrees s (x s) (x s.strict)

namespace Tolerant

variable {α β γ : Type} {x : Analysis α} {f : α → Analysis β} {s : State}

theorem of_impartial (hx : Impartial x) : Tolerant x where
  adds s := .of_ledger (hx.ledger s)
  agrees s := .alike (hx.strict s) (congrArg (·.2.1) (hx.ledger s))

/-! ### One step after the other -/

theorem adds_bind (hf : ∀ a, Tolerant (f a)) (s : State) : (behind x s).Adds (behind (x >>= f) s) := by
  rw [behind_eq, behind_eq]
  cases hxs : x s with
  | ok a s' =>
    rw [bind_ok hxs]
    exact (hf a).adds s'
  | error e s' =>
    rw [bind_error hxs]
    exact .refl s'

theorem reported_bind {e : Diagnostic} (hf : ∀ a, Tolerant (f a)) (h : Reported e (x s)) :
    Reported e ((x >>= f) s) := by
  have hadds := adds_bind (x := x) hf s
  rw [behind_eq, behind_eq] at hadds
  generalize hxs : x s = r at h hadds
  cases h with
  | again hd =>
    rw [bind_error hxs]
    exact .again hd
  | givenUp hd hmem => exact .of_adds hadds hd hmem

theorem bind (hx : Tolerant x) (hf : ∀ a, Tolerant (f a)) : Tolerant (x >>= f) where
  adds s := (hx.adds s).trans (adds_bind hf s)
  agrees s := by
    cases hx.agrees s with
    | alike hsame hnone =>
      cases hxs : x s with
      | ok a s' =>
        rw [hxs] at hsame hnone
        rw [bind_ok hxs, bind_ok hsame]
        exact ((hf a).agrees s').of_errors hnone
      | error e s' =>
        rw [hxs] at hsame hnone
        rw [bind_error hxs, bind_error hsame]
        exact .alike rfl hnone
    | noted hnoted hreported =>
      obtain ⟨_, hstays⟩ := (adds_bind hf s).noted hnoted
      exact .noted hstays (reported_bind hf hreported)

/-! ### Attempts -/

theorem adds_tryCatch {h : Diagnostic → Analysis α} (hh : ∀ e, Tolerant (h e)) (s : State) :
    (behind x s).Adds (behind (MonadExcept.tryCatch x h) s) := by
  rw [behind_eq, behind_eq, tryCatch_run]
  cases x s with
  | ok a s' => exact .refl s'
  | error e s' => exact (hh e).adds s'

/-- Whoever catches errors must report what is caught. -/
theorem tryCatch {h : Diagnostic → Analysis α} (hx : Tolerant x) (hh : ∀ e, Tolerant (h e))
    (hreports : ∀ e, Reports e (h e)) : Tolerant (MonadExcept.tryCatch x h) where
  adds s := (hx.adds s).trans (adds_tryCatch hh s)
  agrees s := by
    cases hx.agrees s with
    | alike hsame hnone =>
      rw [tryCatch_run, tryCatch_run, hsame]
      cases hxs : x s with
      | ok a s' =>
        rw [hxs] at hnone
        exact .alike rfl hnone
      | error e s' =>
        rw [hxs] at hnone
        exact ((hh e).agrees s').of_errors hnone
    | noted hnoted hreported =>
      obtain ⟨_, hstays⟩ := (adds_tryCatch hh s).noted hnoted
      refine .noted hstays ?_
      have hadds := adds_tryCatch (x := x) hh s.strict
      rw [behind_eq, behind_eq] at hadds
      rw [tryCatch_run] at hadds ⊢
      generalize x s.strict = r at hreported hadds
      cases hreported with
      | again hd => exact (hreports _ _).of_restates hd
      | givenUp hd hmem => exact .of_adds hadds hd hmem

/-- The state behind an attempt. -/
theorem adds_recover (x : Analysis α) (s : State) : (behind x s).Adds (behind (Analysis.recover x) s) := by
  rw [behind_eq, behind_eq, recover_run]
  cases x s with
  | ok a s' => exact .refl s'
  | error e s' =>
    dsimp only
    split
    · next hcollects =>
      refine ⟨rfl, List.prefix_append _ _, List.prefix_rfl, fun hstrict => ?_⟩
      cases hstrict.symm.trans hcollects
    · exact .refl s'

theorem map {h : α → β} (hx : Tolerant x) : Tolerant (h <$> x) := by
  rw [← bind_pure_comp]
  exact hx.bind fun _ => .of_impartial .pure

/-- Where no errors are collected, an attempt fails with its error. -/
theorem recover_strict (hx : Tolerant x) (s : State) :
    Analysis.recover x s.strict = (some <$> x) s.strict := by
  have hoptions := (hx.adds s.strict).options
  rw [behind_eq] at hoptions
  show _ = EStateM.map some x s.strict
  rw [recover_run, EStateM.map]
  cases hxs : x s.strict with
  | ok a s' => rfl
  | error e s' =>
    rw [hxs] at hoptions
    have hquiet : s'.options.collectErrors = false := congrArg Options.collectErrors hoptions
    exact if_neg (ne_true_of_eq_false hquiet)

/-- What an attempt notes is what the strict run stops with. -/
theorem recover (hx : Tolerant x) : Tolerant (Analysis.recover x) where
  adds s := (hx.adds s).trans (adds_recover x s)
  agrees s := by
    rw [hx.recover_strict s]
    show Agrees s _ (EStateM.map some x s.strict)
    rw [EStateM.map]
    cases hx.agrees s with
    | alike hsame hnone =>
      rw [hsame, recover_run]
      cases hxs : x s with
      | ok a s' =>
        rw [hxs] at hnone
        exact .alike rfl hnone
      | error e s' =>
        rw [hxs] at hnone
        dsimp only
        split
        · exact .noted (congrArg (· ++ [e]) hnone) (.again (.refl e))
        · exact .alike rfl hnone
    | noted hnoted hreported =>
      obtain ⟨_, hstays⟩ := (adds_recover x s).noted hnoted
      refine .noted hstays ?_
      generalize x s.strict = r at hreported
      cases hreported with
      | again hd => exact .again hd
      | givenUp hd hmem => cases r <;> exact .givenUp hd hmem

theorem giveUp (e : Diagnostic) : Tolerant (Analysis.giveUp e) where
  adds _ := ⟨rfl, List.prefix_rfl, List.prefix_append _ _, fun _ => rfl⟩
  agrees _ := .alike rfl rfl

/-- Look at the state, but not at whether errors are collected. -/
theorem read {f : State → Analysis β} (hstrict : ∀ s, f s.strict = f s) (hf : ∀ s, Tolerant (f s)) :
    Tolerant (MonadState.get >>= f) where
  adds s := (hf s).adds s
  agrees s := by
    show Agrees s (f s s) (f s.strict s.strict)
    rw [hstrict]
    exact (hf s).agrees s

theorem andFinally {f : State → State} (hx : Tolerant x) (hlast : Tolerant (modify f : Analysis Unit)) :
    Tolerant (Analysis.andFinally x (modify f)) := by
  unfold Analysis.andFinally
  refine .bind (.tryCatch hx (fun e => ?_) fun e s => .again (.refl e)) fun a => ?_
  · exact hlast.bind fun _ => .of_impartial .throw
  · exact hlast.bind fun _ => .of_impartial .pure

end Tolerant

/-! ## Demands -/

/-- The analyst answers every demand alike whether or not errors are collected, until it notes an error. -/
def Analyst.Tolerant (an : Analyst) : Prop := ∀ {α : Type} (d : Demand α), SemanticAnalysis.Tolerant (an.ask d)

theorem Delegates.tolerant {α : Type} {an : Analyst} {x y : Analysis α} (hx : Delegates an an x y)
    (han : an.Tolerant) : Tolerant x := by
  induction hx with
  | aside _ himpartial => exact .of_impartial himpartial
  | ask d => exact han d
  | bind _ _ ihx ihf => exact ihx.bind ihf
  | read hadjusted _ ihf => exact .read (fun s => (hadjusted false s.options.nesting s).1) ihf
  | tryCatch _ _ hreports ihx ihh => exact ihx.tryCatch ihh hreports
  | recover _ ihx => exact ihx.recover
  | giveUp => exact .giveUp _

namespace Analysis

variable {an : Analyst} {path : Path} {position : Position}

/-! ### Modules -/

theorem beginLoad_impartial : Impartial (beginLoad path position) where
  ledger s := by
    rw [behind_eq, beginLoad_run]
    split <;> rfl
  adjusted c n s := by
    have hsame : (s.adjusted c n).loads = s.loads := rfl
    rw [beginLoad_run, beginLoad_run, hsame]
    split <;> rfl

theorem detailModule_tolerant (han : an.Tolerant) {root : Root} {m : ModuleId} :
    Tolerant (detailModule an root m) := by
  unfold detailModule
  refine .bind (openFrame_delegates.tolerant han) fun frame => ?_
  refine .bind (.of_impartial (.alter (fun _ => rfl) fun _ _ _ => rfl)) fun _ => ?_
  refine .bind (look_delegates.tolerant han) fun known => .bind (expect_delegates.tolerant han) fun md => ?_
  refine .bind (.andFinally (runPasses_delegates.tolerant han) ?_) fun _ => ?_
  · exact .of_impartial (.alter (fun _ => rfl) fun _ _ _ => rfl)
  refine .bind (look_delegates.tolerant han) fun rootItems => .bind (change_delegates.tolerant han) fun _ => ?_
  exact .bind (.of_impartial (.alter (fun _ => rfl) fun _ _ _ => rfl)) fun _ => .of_impartial .pure

theorem loadTree_tolerant (han : an.Tolerant) {root : Root} {name package : String} :
    Tolerant (loadTree an root name path package) := by
  unfold loadTree
  refine .bind (make_delegates.tolerant han) fun m => .bind (.tryCatch ?_ (fun e => ?_) ?_) fun _ => ?_
  · refine .bind (.map (detailModule_tolerant han)) fun _ => ?_
    exact .of_impartial (.alter (fun _ => rfl) fun _ _ _ => rfl)
  · exact .bind (.of_impartial (.alter (fun _ => rfl) fun _ _ _ => rfl)) fun _ => .of_impartial .throw
  · exact fun e s => .again (.refl e)
  · exact .of_impartial .pure

theorem detailRoot_tolerant (han : an.Tolerant) {root : Root} {name package : String} :
    Tolerant (detailRoot an root name path package) := by
  unfold detailRoot
  refine .bind (.of_impartial beginLoad_impartial) fun known => ?_
  cases known with
  | some m => exact .of_impartial .pure
  | none => exact loadTree_tolerant han

theorem loadModule_tolerant (han : an.Tolerant) {request : String} :
    Tolerant (loadModule an path request position) := by
  unfold loadModule
  refine .bind (.of_impartial beginLoad_impartial) fun known => ?_
  cases known with
  | some m => exact .of_impartial .pure
  | none =>
    have habandon : Tolerant (modify fun s => { s with loads := s.loads.abandon path } : Analysis Unit) :=
      .of_impartial (.alter (fun _ => rfl) fun _ _ _ => rfl)
    refine .read (fun _ => rfl) fun s => ?_
    split
    · exact habandon.bind fun _ => .of_impartial .throw
    split
    · exact habandon.bind fun _ => .of_impartial .throw
    · exact loadTree_tolerant han

theorem answer_tolerant (han : an.Tolerant) {α : Type} (d : Demand α) : Tolerant (answer an d) := by
  cases d with
  | type frame t scope => exact resolveType_delegates.tolerant han
  | expr frame e scope access => exact detailExpr_delegates.tolerant han
  | stmt frame stmt scope => exact detailStmt_delegates.tolerant han
  | signatures cls => exact classSignatures_delegates.tolerant han
  | synthesis cls => exact synthesize_delegates.tolerant han
  | classBodies cls => exact detailClassBodies_delegates.tolerant han
  | functionBody frame decl item => exact detailFunctionBody_delegates.tolerant han
  | pass p frame statements scope => exact runPass_delegates.tolerant han
  | module path request position => exact loadModule_tolerant han
  | pending => exact drainPending_delegates.tolerant han

end Analysis

/-- However deep demands may be nested. -/
theorem analyst_tolerant (depth : Nat) : (analyst depth).Tolerant := by
  induction depth with
  | zero => exact fun d => .of_impartial .throw
  | succ depth ih => exact fun d => Analysis.answer_tolerant ih d

theorem Analysis.withAnalyst_tolerant {α : Type} {step : Analyst → Analysis α}
    (h : ∀ an : Analyst, an.Tolerant → Tolerant (step an)) : Tolerant (withAnalyst step) :=
  .read (fun _ => rfl) fun _ => h _ (analyst_tolerant _)

/-! ## Sessions -/

/-- The same session, collecting errors or stopping at the first one. -/
def Session.collecting (session : Session) (collect : Bool) : Session :=
  { session with options.collectErrors := collect }

/-- What comes of a session whose analysis ends like this. -/
def Outcome.of (r : EStateM.Result Diagnostic State ModuleId) : Outcome where
  root := match r with
    | .ok m _ => .ok m
    | .error e _ => .error (.analysis e)
  state := stateAt r

/-- What comes of an analysis that collects all errors and of one that stops at the first error. -/
structure Outcome.AddsTo (all first : Outcome) : Prop where
  /-- Only an analysis that collects errors notes them. -/
  silent : first.state.errors = []
  /-- Where no error is noted, collecting errors makes no difference. -/
  clean : all.isClean = true → first.root = all.root ∧ first.state = all.state.strict
  /-- The first error that is noted is what the other analysis fails with or gave up. -/
  noted : ∀ e rest, all.state.errors = e :: rest →
    (∃ d, first.root = .error (.analysis d) ∧ d.Restates e) ∨ ∃ d ∈ first.state.dropped, d.Restates e
  /-- One succeeds exactly if the other does without noting an error, where nothing is given up. -/
  ok : first.state.dropped = [] →
    ((∃ m, first.root = .ok m) ↔ (∃ m, all.root = .ok m) ∧ all.isClean = true)
  /-- Both fail alike, or one with the first error that the other notes, where nothing is given up. -/
  fails : first.state.dropped = [] → ∀ d, first.root = .error (.analysis d) →
    all.isClean = true ∧ all.root = .error (.analysis d) ∨
      ∃ e rest, all.state.errors = e :: rest ∧ d.Restates e

namespace Outcome.AddsTo

variable {all first : Outcome}

theorem of_noted (silent : first.state.errors = [])
    (clean : all.isClean = true → first.root = all.root ∧ first.state = all.state.strict)
    (noted : ∀ e rest, all.state.errors = e :: rest →
      (∃ d, first.root = .error (.analysis d) ∧ d.Restates e) ∨ ∃ d ∈ first.state.dropped, d.Restates e) :
    all.AddsTo first := by
  have hfirst : first.state.dropped = [] → all.isClean = true ∨
      ∃ e rest d, all.state.errors = e :: rest ∧ first.root = .error (.analysis d) ∧ d.Restates e := by
    intro hkept
    cases herrors : all.state.errors with
    | nil => exact .inl (by rw [isClean, herrors]; rfl)
    | cons e rest =>
      rcases noted e rest herrors with ⟨d, hroot, hd⟩ | ⟨d, hmem, -⟩
      · exact .inr ⟨e, rest, d, rfl, hroot, hd⟩
      · rw [hkept] at hmem
        cases hmem
  refine ⟨silent, clean, noted, fun hkept => ⟨?_, ?_⟩, fun hkept d hroot => ?_⟩
  · rintro ⟨m, hm⟩
    rcases hfirst hkept with hclean | ⟨e, rest, d, -, hroot, -⟩
    · exact ⟨⟨m, (clean hclean).1.symm.trans hm⟩, hclean⟩
    · cases hroot.symm.trans hm
  · rintro ⟨⟨m, hm⟩, hclean⟩
    exact ⟨m, (clean hclean).1.trans hm⟩
  · rcases hfirst hkept with hclean | ⟨e, rest, d', herrors, hroot', hd'⟩
    · exact .inl ⟨hclean, (clean hclean).1.symm.trans hroot⟩
    · cases hroot.symm.trans hroot'
      exact .inr ⟨e, rest, herrors, hd'⟩

theorem of_agrees {s : State} {r r' : EStateM.Result Diagnostic State ModuleId} (h : Agrees s r r')
    (hs : s.errors = []) (silent : (stateAt r').errors = []) : (Outcome.of r).AddsTo (Outcome.of r') := by
  refine of_noted silent (fun hclean => ?_) fun e rest herrors => ?_
  · cases h with
    | alike hsame _ =>
      rw [hsame]
      cases r <;> exact ⟨rfl, rfl⟩
    | noted hnoted _ =>
      have hnone : (stateAt r).errors = [] := List.isEmpty_iff.1 hclean
      rw [hnoted, hs] at hnone
      cases hnone
  · replace herrors : (stateAt r).errors = e :: rest := herrors
    cases h with
    | alike _ hnone =>
      rw [hnone, hs] at herrors
      cases herrors
    | noted hnoted hreported =>
      rw [hnoted, hs] at herrors
      cases herrors
      cases hreported with
      | again hd => exact .inl ⟨_, rfl, hd⟩
      | givenUp hd hmem => exact .inr ⟨_, hmem, hd⟩

end Outcome.AddsTo

theorem Session.run_eq (session : Session) (x : Analysis ModuleId) :
    session.run x = Outcome.of (x session.start) := by
  show (match x session.start with | .ok m s => _ | .error e s => _) = _
  cases x session.start <;> rfl

theorem Session.run_addsTo (session : Session) {x : Analysis ModuleId} (hx : Tolerant x) :
    ((session.collecting true).run x).AddsTo ((session.collecting false).run x) := by
  have hstrict : (session.collecting true).start.strict = (session.collecting false).start := rfl
  have hagrees := hx.agrees (session.collecting true).start
  have hsilent := (hx.adds (session.collecting false).start).strict rfl
  rw [hstrict] at hagrees
  rw [run_eq, run_eq]
  exact .of_agrees hagrees rfl hsilent

/-- **Collecting errors only adds to what is known.** A program is analysed twice, once collecting errors and once
stopping at the first one. If no error is noted, both analyses end alike, in states that differ in the option only.
Else the first error noted is what the other analysis fails with, where a plain name that means nothing may be
reported at a call of it, unless that analysis gave the error up on the way. So where nothing is given up, one
succeeds exactly if the other one succeeds without noting an error, and fails as the other one does or with the
first error that the other one notes. -/
theorem collecting_only_adds (session : Session) :
    (∀ root, ((session.collecting true).analyseTree root).AddsTo
      ((session.collecting false).analyseTree root)) ∧
    ∀ path, ((session.collecting true).analyse path).AddsTo ((session.collecting false).analyse path) :=
  ⟨fun _ => session.run_addsTo (Analysis.withAnalyst_tolerant fun _ han => Analysis.detailRoot_tolerant han),
    fun _ => session.run_addsTo (Analysis.withAnalyst_tolerant fun _ han => Analysis.loadModule_tolerant han)⟩

/-- A generic class `Box<T>` whose field holds a function with a local class, the body of which names nothing, and
the functions `g<T>(x: T, b: Box<T>*)`, `g(x: int)` and `h`, which calls `g(1, 2)`. -/
def givenUpRoot : Root :=
  let at_ (node : Nat) : Node := ⟨.written node, {}⟩
  let t : TypeExpr := { form := .named [⟨"T", {}⟩] [] }
  let int : TypeExpr := { form := .native .int }
  let fn (node : Nat) (name : String) (generics : List Ident) (params : List (String × TypeExpr))
      (body : List Stmt) : FunctionDef :=
    { node := at_ node, name := ⟨name, {}⟩, generics
      params := params.zipIdx.map fun ((param, ty), index) =>
        { node := at_ (node + 2 + index), name := ⟨param, {}⟩, ty }
      body := some ⟨at_ (node + 1), body⟩ }
  let missing : Stmt := .expr (at_ 1) (.name (at_ 2) ⟨"missing", {}⟩ [])
  let inner : ClassDef :=
    { node := at_ 3, name := ⟨"L", {}⟩, members := [.function (fn 10 "m" [] [] [missing])] }
  let box : ClassDef :=
    { node := at_ 4, name := ⟨"Box", {}⟩, generics := [⟨"T", {}⟩]
      members := [.field { node := at_ 5, name := ⟨"f", {}⟩
                           initializer := some (.lambda (at_ 6) [] none ⟨at_ 7, [.cls inner]⟩) }] }
  let call : Stmt := .expr (at_ 8) (.call (at_ 9) (.name (at_ 20) ⟨"g", {}⟩ [])
    [{ value := .literal (at_ 21) (.int 1) }, { value := .literal (at_ 22) (.int 2) }])
  { statements :=
      [.cls box,
       .function (fn 30 "g" [⟨"T", {}⟩] [("x", t), ("b", TypeExpr.pointer { form := .named [⟨"Box", {}⟩] [t] })] []),
       .function (fn 40 "g" [] [("x", int)] []),
       .function (fn 50 "h" [] [] [call])] }

/-- An analysis that stops at its first error gives up the error that `Box<int>` meets, and the call fails because
`g(int)` does not fit. An analysis that collects errors notes the one that `Box<int>` meets, has both functions for
the call, and never meets the error that the other one failed with. -/
theorem given_up_error_stays_noted :
    let all := (({} : Session).collecting true).analyseTree givenUpRoot
    let first := (({} : Session).collecting false).analyseTree givenUpRoot
    let missing : Diagnostic := ⟨.noTarget "missing", {}⟩
    let unmatched : Diagnostic := ⟨.noMatchingCall "g" "int, int" "(x: int) => void", {}⟩
    first.root = .error (.analysis unmatched) ∧ first.state.dropped = [missing] ∧
      all.root.isOk = true ∧ all.state.errors.head? = some missing ∧ unmatched ∉ all.state.errors := by
  decide +kernel

end SemanticAnalysis
