import SemanticAnalysis.Proofs.Course.Statements
import SemanticAnalysis.Proofs.Module.Loading

/-!
# Every analysis follows a course

Passes, pending instances and loading put the parts together. Modules are where courses get their
shape: `detailModule` enters a module, runs the passes and leaves it, and only then files it as analysed
(`detailModule_visits`). So every answer of the analyst follows a course (`analyst_orderly`).
-/

namespace SemanticAnalysis

open Analysis (behind)

namespace Analysis

variable {α : Type} {s s₀ : State} {frame : Frame} {node : Node} {scope : ScopeId}
variable {position : Position} {an : Analyst}

@[grind ←] theorem detailExpr_orderly (han : an.Orderly) {e : Expr} {access : Access} :
    Orderly s₀ (detailExpr an frame e scope access) := by
  unfold detailExpr
  split <;> grind

/-! ## Passes -/

section Passes

@[grind ←] theorem attempt_orderly {x : Analysis Unit} (hx : Orderly s₀ x) : Orderly s₀ (attempt x) :=
  .discard (recover_orderly hx)

variable {body statements : List Stmt} {stmt : Stmt}
variable (han : an.Orderly) (hstack : frame.module ∈ s₀.moduleStack)

include han hstack

theorem pass_orderly {p : Pass} : Orderly s₀ (an.ask (.pass p frame body scope)) := han.ask _ hstack

theorem passInside_orderly {p : Pass} : Orderly s₀ (passInside an p frame node body) := by
  unfold passInside
  refine .bind spaceScope?_orderly fun inner => ?_
  split
  · exact .pure
  · exact pass_orderly han hstack

theorem importPass_orderly : Orderly s₀ (importPass an frame scope stmt) := by
  unfold importPass
  split
  · exact attempt_orderly (detailImport_orderly han fun _ => hstack)
  · exact .pure

theorem typePass_orderly : Orderly s₀ (typePass an frame scope stmt) := by
  unfold typePass
  split
  · exact attempt_orderly (.discard declareClass_orderly)
  · refine .bind (recover_orderly declareSpace_orderly) fun inner => ?_
    split
    · exact pass_orderly han hstack
    · exact .pure
  · exact .pure

theorem aliasPass_orderly {last : Bool} : Orderly s₀ (aliasPass an last frame scope stmt) := by
  unfold aliasPass
  split
  · grind
  · exact passInside_orderly han hstack
  · exact .pure

theorem signaturePass_orderly : Orderly s₀ (signaturePass an frame scope stmt) := by
  unfold signaturePass
  split
  · grind
  · grind
  · grind
  · exact passInside_orderly han hstack
  · exact .pure

theorem bodyPass_orderly : Orderly s₀ (bodyPass an frame scope stmt) := by
  unfold bodyPass
  split
  · grind
  · grind
  · exact passInside_orderly han hstack
  · exact .pure
  · exact .pure
  · exact han.ask (.stmt ..) fun _ => .inl hstack

theorem runPass_orderly {p : Pass} : Orderly s₀ (runPass an p frame statements scope) := by
  unfold runPass
  split
  · refine .bind (.forM fun _ _ => importPass_orderly han hstack) fun _ => ?_
    exact .forM fun _ _ => typePass_orderly han hstack
  · exact .forM fun _ _ => aliasPass_orderly han hstack
  · exact .forM fun _ _ => attempt_orderly (signaturePass_orderly han hstack)
  · exact .forM fun _ _ => attempt_orderly (bodyPass_orderly han hstack)

end Passes

/-! ## Pending instances -/

theorem nextPending_orderly : Orderly s₀ nextPending := by
  refine .modifyGet fun s _ => ?_
  split <;> exact { State.Ordinary.refl s with }

theorem drainPending_orderly (han : an.Orderly) : Orderly s₀ (drainPending an) := by
  unfold drainPending
  refine .bind nextPending_orderly fun next => ?_
  grind

/-! ## Modules -/

/-- How the analysis of the code of a module ends. -/
inductive Visits (s : State) (m : ModuleId) (root : Root) :
    EStateM.Result Diagnostic State FrameId → Prop where
  | missing {e : Diagnostic} (h : s.table.module? m = none) : Visits s m root (.error e (s.within m))
  | fails {e : Diagnostic} {s' : State} (h : Course (s.within m) s') :
      Visits s m root (.error e s'.left)
  | ends {frame : FrameId} {s' s'' : State} (h : Course (s.within m) s')
      (hleft : s'.left.Ordinary s'') : Visits s m root (.ok frame (s''.filed ⟨m, frame, root⟩))

/-- The passes over the code of a module, and the instances that wait for it. -/
def runPasses (an : Analyst) (frame : Frame) (statements : List Stmt) (scope : ScopeId) :
    Analysis Unit := do
  [Pass.types, .aliases false, .signatures, .aliases true, .bodies].forM fun p =>
    an.ask (.pass p frame statements scope)
  an.ask .pending

/-- The analysis of the code of a module that is there: the module is entered and left again, whatever the
passes come to. -/
theorem detailModule_run {m : ModuleId} {md : Module} (hm : s.table.module? m = some md) (an : Analyst)
    (root : Root) :
    detailModule an root m s =
      match runPasses an ⟨⟨s.nextFrame⟩, m⟩ root.statements md.scope (s.within m) with
      | .ok _ s' =>
        .ok ⟨s.nextFrame⟩ (State.filed
          { s'.left with
            table := s'.table.modifyModule m fun m =>
              { m with rootItems := (s'.table.scope? md.scope).elim 0 (·.items.length) } }
          ⟨m, ⟨s.nextFrame⟩, root⟩)
      | .error e s' => .error e s'.left := by
  let frame : Frame := ⟨⟨s.nextFrame⟩, m⟩
  have hrun : detailModule an root m s =
      (expect "module missing" (s.table.module? m) >>= fun md => do
        andFinally (runPasses an frame root.statements md.scope) (modify State.left)
        let rootItems ← look fun t => (t.scope? md.scope).elim 0 (·.items.length)
        change (·.modifyModule m fun m => { m with rootItems })
        modify (·.filed ⟨m, frame.id, root⟩)
        return frame.id : Analysis FrameId) (s.within m) := rfl
  have hfound : expect "module missing" (some md) (s.within m) = .ok md (s.within m) := rfl
  have hfinally := andFinally_modify (x := runPasses an frame root.statements md.scope)
    (f := State.left) (s.within m)
  rw [hm] at hrun
  replace hrun := hrun.trans (bind_ok hfound)
  cases hends : runPasses an frame root.statements md.scope (s.within m) with
  | ok a s' =>
    rw [hends] at hfinally
    exact hrun.trans (bind_ok hfinally)
  | error e s' =>
    rw [hends] at hfinally
    exact hrun.trans (bind_error hfinally)

theorem detailModule_visits (han : an.Orderly) (hs : s.Proper) (m : ModuleId) (root : Root) :
    Visits s m root (detailModule an root m s) := by
  cases hm : s.table.module? m with
  | none =>
    have hmissing : detailModule an root m s = (expect "module missing" (s.table.module? m) >>= _)
        (s.within m) := rfl
    rw [hmissing, hm]
    exact .missing hm
  | some md =>
    have hpasses : Orderly (s.within m) (runPasses an ⟨⟨s.nextFrame⟩, m⟩ root.statements md.scope) :=
      .bind (.forM fun _ _ => pass_orderly han List.mem_cons_self) fun _ => pending_orderly han
    have hcourse := hpasses (s.within m) (hs.within m) (.refl _)
    rw [behind] at hcourse
    rw [detailModule_run hm]
    cases hends : runPasses an ⟨⟨s.nextFrame⟩, m⟩ root.statements md.scope (s.within m) with
    | ok a s' =>
      rw [hends] at hcourse
      exact .ends hcourse (.of_table (.modifyModule (fun _ => rfl) fun _ => rfl))
    | error e s' =>
      rw [hends] at hcourse
      exact .fails hcourse

/-! ## Loading -/

section Loading

variable {path : Path} {root : Root} {name package : String}

/-- A tree is loaded as a new module. The path is done if its analysis succeeds, and forgotten if not. -/
theorem loadTree_eq (an : Analyst) (root : Root) (name : String) (path : Path) (package : String)
    (s : State) :
    loadTree an root name path package s =
      match detailModule an root s.nextModule (s.made name path.spelling package) with
      | .ok _ s' => .ok s.nextModule { s' with loads := s'.loads.finish path s.nextModule }
      | .error e s' => .error e { s' with loads := s'.loads.abandon path } := by
  have hrun : loadTree an root name path package s =
      EStateM.bind
        (EStateM.tryCatch
          (EStateM.bind (EStateM.map _ (detailModule an root s.nextModule)) fun _ =>
            modify fun t => { t with loads := t.loads.finish path s.nextModule })
          fun e => do
            modify fun t => { t with loads := t.loads.abandon path }
            throw e)
        (fun _ => pure s.nextModule) (s.made name path.spelling package) := rfl
  rw [hrun, EStateM.bind, EStateM.tryCatch, EStateM.bind, EStateM.map]
  cases detailModule an root s.nextModule (s.made name path.spelling package) <;> rfl

theorem module?_made (s : State) (name path package : String) :
    ∃ md, (s.made name path package).table.module? s.nextModule = some md :=
  ⟨_, (SymbolTable.module?_newModule ..).trans (if_pos rfl)⟩

/-- The new module is the last one to be analysed. -/
theorem loadTree_run (han : an.Orderly) (hs : s.Proper) (root : Root) (name : String) (path : Path)
    (package : String) :
    ∃ s', Course s s' ∧
      ((∃ e, loadTree an root name path package s = .error e s') ∨
        loadTree an root name path package s = .ok s.nextModule s' ∧
          s'.analysed.getLast? = some s.nextModule) := by
  have hmade : (s.made name path.spelling package).Proper := hs.made ..
  have hvisits := detailModule_visits han hmade s.nextModule root
  rw [loadTree_eq]
  cases hdetail : detailModule an root s.nextModule (s.made name path.spelling package) with
  | error e s' =>
    rw [hdetail] at hvisits
    refine ⟨{ s' with loads := s'.loads.abandon path }, ?_, .inl ⟨e, rfl⟩⟩
    have hcourse : Course s s' := by
      cases hvisits with
      | missing h =>
        obtain ⟨md, hmd⟩ := module?_made s name path.spelling package
        cases h.symm.trans hmd
      | fails h => exact .abandoned h
    exact hcourse.trans (.loads fun p m hm => .inl (LoadStates.state?_abandon hm))
  | ok frame s' =>
    rw [hdetail] at hvisits
    have hlast : s'.analysed.getLast? = some s.nextModule := by
      cases hvisits with
      | ends h hleft => rw [State.analysed_filed, List.getLast?_concat]
    refine ⟨{ s' with loads := s'.loads.finish path s.nextModule }, ?_, .inr ⟨rfl, hlast⟩⟩
    have hcourse : Course s s' := by
      cases hvisits with
      | ends h hleft => exact .analysed h hleft
    refine hcourse.trans (.loads fun p m hm => (LoadStates.state?_set hm).imp_right fun hdone => ?_)
    cases hdone
    exact List.mem_of_getLast? hlast

theorem loadTree_orderly (han : an.Orderly) : Orderly s₀ (loadTree an root name path package) := by
  intro s hs _
  obtain ⟨s', hcourse, ⟨e, hrun⟩ | ⟨hrun, -⟩⟩ := loadTree_run han hs root name path package <;>
  · rw [behind, hrun]
    exact hcourse

theorem loadTree_yields (han : an.Orderly) :
    Yields s₀ (loadTree an root name path package) fun s m => s.analysed.getLast? = some m := by
  intro s m s'' hs _ hload
  obtain ⟨s', -, ⟨e, hrun⟩ | ⟨hrun, hlast⟩⟩ := loadTree_run han hs root name path package
  · cases hrun.symm.trans hload
  · cases hrun.symm.trans hload
    exact hlast

theorem beginLoad_run (path : Path) (position : Position) (s : State) :
    beginLoad path position s =
      match s.loads.state? path with
      | some (.done m) => .ok (some m) s
      | some .loading => .error ⟨.circularImport path.spelling, position⟩ s
      | none => .ok none { s with loads := s.loads.set path .loading } := by
  have hread (f : State → Analysis (Option ModuleId)) : (get >>= f) s = f s s := rfl
  rw [beginLoad, hread, LoadStates.begin]
  cases s.loads.state? path with
  | none => rfl
  | some state => cases state <;> rfl

theorem beginLoad_orderly : Orderly s₀ (beginLoad path position) := by
  intro s _ _
  rw [behind, beginLoad_run]
  cases s.loads.state? path with
  | none =>
    refine .loads fun p m hm => .inl ((LoadStates.state?_set hm).resolve_right ?_)
    simp
  | some state => cases state <;> exact .refl s

/-- A path is loaded by now, or what is done to load it files its module last. -/
theorem done_or_last {f : Option ModuleId → Analysis ModuleId} (hknown : ∀ m, f (some m) = pure m)
    (hload : ∀ s, Yields s (f none) fun s m => s.analysed.getLast? = some m) {m : ModuleId}
    {s' : State} (hs : s.Proper) (hrun : (beginLoad path position >>= f) s = .ok m s') :
    s.loads.state? path = some (.done m) ∧ s' = s ∨ s'.analysed.getLast? = some m := by
  have hbegin := beginLoad_run path position s
  have horderly : Orderly s (beginLoad path position) := beginLoad_orderly
  have hcourse := horderly s hs (.refl s)
  cases hstate : s.loads.state? path with
  | none =>
    rw [hstate] at hbegin
    rw [behind, hbegin] at hcourse
    exact .inr (hload _ _ m s' (hcourse.proper hs) (.refl _) ((bind_ok hbegin).symm.trans hrun))
  | some state =>
    rw [hstate] at hbegin
    cases state with
    | loading => cases (bind_error hbegin).symm.trans hrun
    | done d =>
      have hgiven := (bind_ok hbegin).symm.trans hrun
      rw [hknown] at hgiven
      cases hgiven
      exact .inl ⟨rfl, rfl⟩

theorem detailRoot_orderly (han : an.Orderly) : Orderly s₀ (detailRoot an root name path package) := by
  unfold detailRoot
  refine .bind beginLoad_orderly fun known => ?_
  split
  · exact .pure
  · exact loadTree_orderly han

theorem detailRoot_result (han : an.Orderly) {m : ModuleId} {s' : State} (hs : s.Proper)
    (hrun : detailRoot an root name path package s = .ok m s') :
    s.loads.state? path = some (.done m) ∧ s' = s ∨ s'.analysed.getLast? = some m :=
  done_or_last (fun _ => rfl) (fun _ => loadTree_yields han) hs hrun

theorem abandon_orderly :
    Orderly s₀ (modify fun s => { s with loads := s.loads.abandon path } : Analysis Unit) :=
  fun _ _ _ => .loads fun _ _ hm => .inl (LoadStates.state?_abandon hm)

theorem loadModule_orderly (han : an.Orderly) {request : String} :
    Orderly s₀ (loadModule an path request position) := by
  unfold loadModule
  refine .bind beginLoad_orderly fun known => ?_
  split
  · exact .pure
  refine .bind .get fun s => ?_
  split
  · exact .bind abandon_orderly fun _ => noLibrary_orderly
  split
  · exact .bind abandon_orderly fun _ => .throw
  · exact loadTree_orderly han

theorem loadModule_result (han : an.Orderly) {request : String} {m : ModuleId} {s' : State}
    (hs : s.Proper) (hrun : loadModule an path request position s = .ok m s') :
    s.loads.state? path = some (.done m) ∧ s' = s ∨ s'.analysed.getLast? = some m := by
  unfold loadModule at hrun
  refine done_or_last (fun _ => rfl) (fun s => ?_) hs hrun
  refine .bind .get fun s _ _ => ?_
  split
  · exact .bind abandon_orderly fun _ _ _ => .throw
  split
  · exact .bind abandon_orderly fun _ _ _ => .throw
  · exact loadTree_yields han

end Loading

/-! ## Demands -/

theorem answer_orderly (han : an.Orderly) (d : Demand α) (hd : d.Apt s₀) :
    Orderly s₀ (answer an d) := by
  cases d with
  | type frame t scope => exact resolveType_orderly han
  | expr frame e scope access => exact detailExpr_orderly han
  | stmt frame stmt scope => exact detailStmt_orderly han hd
  | signatures cls => exact classSignatures_orderly han
  | synthesis cls => exact synthesize_orderly han
  | classBodies cls => exact detailClassBodies_orderly han
  | functionBody frame decl item => exact detailFunctionBody_orderly han
  | pass p frame statements scope => exact runPass_orderly han hd
  | module path request position => exact loadModule_orderly han
  | pending => exact drainPending_orderly han

end Analysis

/-- However deep demands may be nested, the analyst follows a course. -/
theorem analyst_orderly (depth : Nat) : (analyst depth).Orderly := by
  induction depth with
  | zero =>
    constructor
    · exact fun d s _ _ => .refl s
    · intro _ _ _ _ _ _ _ h
      cases h
  | succ depth ih =>
    constructor
    · exact fun d s hs hd => Analysis.answer_orderly ih d hd s hs (.refl s)
    · intro path request position s m s' hs hrun
      rcases Analysis.loadModule_result ih hs hrun with ⟨hdone, rfl⟩ | hlast
      · exact hs.loaded path m hdone
      · exact List.mem_of_getLast? hlast

namespace Analysis

variable {α : Type} {step : Analyst → Analysis α}

theorem withAnalyst_run (step : Analyst → Analysis α) (s : State) :
    withAnalyst step s = step (analyst s.options.nesting) s := rfl

theorem withAnalyst_orderly {s₀ : State} (h : ∀ an : Analyst, an.Orderly → Orderly s₀ (step an)) :
    Orderly s₀ (withAnalyst step) := .bind .get fun s => h _ (analyst_orderly s.options.nesting)

end Analysis

theorem Session.proper_start {session : Session} (h : session.attributes.Growing) :
    session.start.Proper where
  growing := h
  owned _ _ hi := by cases hi
  nested _ := ⟨fun _ _ hm => (by cases hm), fun _ _ hf => (by cases hf)⟩
  loaded _ _ hm := by cases hm

/-! ## A host that edits the table -/

/-- Wherever `@edit` stands on a class, the host does this to the table. -/
def Session.editing (edit : SymbolTable → SymbolTable) : Session where
  attributes.registrations :=
    [{ path := "edit"
       targets := [.cls]
       callback := fun _ t => (.ok (), edit t) }]

/-- `@edit class A {}`. -/
def editedClass : Stmt :=
  .cls { node := ⟨.written 1, {}⟩, name := ⟨"A", {}⟩, attributes := [{ path := [⟨"edit", {}⟩] }] }

end SemanticAnalysis
