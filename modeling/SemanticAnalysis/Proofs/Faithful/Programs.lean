import SemanticAnalysis.Proofs.Faithful.Statements
import SemanticAnalysis.Proofs.Safety.Sessions

/-!
# Programs are faithful

Passes, modules, and the analyst (`analyst_faithful`): a demand is answered faithfully if those are that it makes
in turn. So the states of a session are in order (`Session.Rests.grounded`) whatever it is asked.
-/

namespace SemanticAnalysis

namespace Analysis

variable {α : Type} {frame : Frame} {node : Node} {scope : ScopeId}
variable {position : Position} {an : Analyst}

@[grind ←] theorem detailExpr_faithful (han : an.Faithful) {e : Expr} {access : Access} :
    Faithful (detailExpr an frame e scope access) := by
  unfold detailExpr
  grind

/-! ## Passes -/

section Passes

@[grind ←] theorem attempt_faithful {x : Analysis Unit} (hx : Faithful x) :
    Faithful (attempt x) := .discard (recover_faithful hx)

variable {body statements : List Stmt} {stmt : Stmt}

@[grind ←] theorem passInside_faithful (han : an.Faithful) {p : Pass} :
    Faithful (passInside an p frame node body) := by
  unfold passInside
  grind

@[grind ←] theorem importPass_faithful (han : an.Faithful) : Faithful (importPass an frame scope stmt) := by
  unfold importPass
  grind

@[grind ←] theorem typePass_faithful (han : an.Faithful) : Faithful (typePass an frame scope stmt) := by
  unfold typePass
  grind

@[grind ←] theorem aliasPass_faithful (han : an.Faithful) {last : Bool} :
    Faithful (aliasPass an last frame scope stmt) := by
  have hbind : ∀ (decl : AliasDecl) (node : Node),
      Faithful (MonadExcept.tryCatch (bindAliasDecl frame node decl scope) giveUp) := by
    refine fun decl node => .tryCatch bindAliasDecl_faithful (fun _ => giveUp_faithful) fun e s a s' h => ?_
    cases h
    exact noted_giveUp_lt e s
  unfold aliasPass
  grind

@[grind ←] theorem signaturePass_faithful (han : an.Faithful) : Faithful (signaturePass an frame scope stmt) := by
  unfold signaturePass
  grind

@[grind ←] theorem bodyPass_faithful (han : an.Faithful) : Faithful (bodyPass an frame scope stmt) := by
  unfold bodyPass
  grind

@[grind ←] theorem runPass_faithful (han : an.Faithful) {p : Pass} :
    Faithful (runPass an p frame statements scope) := by
  unfold runPass
  grind

end Passes

/-! ## Pending instances -/

@[grind ←] theorem nextPending_faithful : Faithful nextPending := by
  refine .modifyGet fun s => ?_
  split <;> rfl

@[grind ←] theorem drainPending_faithful (han : an.Faithful) : Faithful (drainPending an) := by
  unfold drainPending
  grind

/-! ## Modules -/

section Modules

variable {root : Root} {name package request : String} {path : Path} {m : ModuleId}

@[grind ←] theorem beginLoad_faithful : Faithful (beginLoad path position) := by
  refine .aside fun s => ?_
  have hread (f : State → Analysis (Option ModuleId)) : (MonadState.get >>= f) s = f s s := rfl
  rw [behind, beginLoad, hread]
  cases s.loads.begin path position <;> rfl

theorem detailModule_faithful (han : an.Faithful) : Faithful (detailModule an root m) := by
  unfold detailModule
  refine .bind openFrame_faithful fun frame => .bind (.alter fun _ => rfl) fun _ => ?_
  refine .bind look_faithful fun _ => .bind expect_faithful fun module => ?_
  refine .bind (andFinally_faithful ?_ (.alter fun _ => rfl)) fun _ => ?_
  · exact .bind (.forM fun _ => han.ask _) fun _ => han.ask _
  refine .bind look_faithful fun rootItems => .bind (change_faithful fun _ => .modifyModule) fun _ => ?_
  exact .bind (.alter fun _ => rfl) fun _ => .pure

theorem loadTree_faithful (han : an.Faithful) : Faithful (loadTree an root name path package) := by
  unfold loadTree
  refine .bind (make_faithful fun _ => .newModule) fun module => ?_
  refine .bind (.tryCatch ?_ (fun e => ?_) fun e s a s' h => ?_) fun _ => .pure
  · exact .bind (.discard (detailModule_faithful han)) fun _ => .alter fun _ => rfl
  · exact .bind (.alter fun _ => rfl) fun _ => .throw
  · obtain ⟨_, _, -, hthrow⟩ := of_bind_ok h
    cases hthrow

theorem detailRoot_faithful (han : an.Faithful) : Faithful (detailRoot an root name path package) := by
  unfold detailRoot
  refine .bind beginLoad_faithful fun known => ?_
  split
  · exact .pure
  · exact loadTree_faithful han

theorem loadModule_faithful (han : an.Faithful) : Faithful (loadModule an path request position) := by
  have habandon : Faithful (modify fun s => { s with loads := s.loads.abandon path } : Analysis PUnit) :=
    .alter fun _ => rfl
  unfold loadModule
  refine .bind beginLoad_faithful fun known => ?_
  split
  · exact .pure
  refine .bind .get fun s => ?_
  split
  · exact habandon.bind fun _ => noLibrary_faithful
  · split
    · exact habandon.bind fun _ => .throw
    · exact loadTree_faithful han

end Modules

/-! ## Demands -/

theorem answer_faithful (han : an.Faithful) (d : Demand α) : Faithful (answer an d) := by
  cases d with
  | type frame t scope => exact resolveType_faithful han
  | expr frame e scope access => exact detailExpr_faithful han
  | stmt frame stmt scope => exact detailStmt_faithful han
  | signatures cls => exact classSignatures_faithful han
  | synthesis cls => exact synthesize_faithful han
  | classBodies cls => exact detailClassBodies_faithful han
  | functionBody frame decl item => exact detailFunctionBody_faithful han
  | pass p frame row scope => exact runPass_faithful han
  | module path request position => exact loadModule_faithful han
  | pending => exact drainPending_faithful han

theorem answer_met (han : an.Faithful) (d : Demand α) (s : State) (a : α) (s' : State) (hs : s.Grounded)
    (hrun : answer an d s = .ok a s') : d.Met s' := by
  cases d with
  | signatures cls => exact (((classSignatures_asked han hs) s (.refl s) rfl).2 a s' hrun).2
  | synthesis cls => exact (((synthesize_asked han hs) s (.refl s) (.of_classes rfl)).2 a s' hrun).2
  | _ => trivial

end Analysis

/-- However deep demands may be nested, the analyst answers them faithfully. -/
theorem analyst_faithful (depth : Nat) : (analyst depth).Faithful := by
  induction depth with
  | zero =>
    refine ⟨fun _ => .throw, fun d s a s' _ hrun => ?_⟩
    cases hrun
  | succ depth ih =>
    exact ⟨fun d => Analysis.answer_faithful ih d, fun d s a s' hs hrun => Analysis.answer_met ih d s a s' hs hrun⟩

/-! ## Requests -/

namespace Request

open Analysis

variable {r : Request} {s s' : State}

/-- All but taking the collected errors is faithful. -/
theorem runWith_faithful {an : Analyst} (han : an.Faithful) (hr : r ≠ .errors) : Faithful (r.runWith an) := by
  cases r with
  | tree root name path package => exact .discard (detailRoot_faithful han)
  | body root module => exact .discard (detailModule_faithful han)
  | load path => exact .discard (loadModule_faithful han)
  | classInstance template arguments position => exact .discard (instantiateClass_faithful han)
  | functionInstance template arguments position => exact .discard (instantiateFunction_faithful han)
  | errors => exact absurd rfl hr

theorem honours_next (hr : r ≠ .errors) (hs : s.Grounded) : s.Honours (r.next s) := by
  have hnext : r.next s = behind (r.runWith (analyst s.options.nesting)) s := by
    rw [next, behind, run_eq]
    cases r.runWith (analyst s.options.nesting) s <;> rfl
  rw [hnext]
  exact (runWith_faithful (analyst_faithful _) hr).honours s hs

theorem grounded_next (r : Request) (hs : s.Grounded) : (r.next s).Grounded := by
  by_cases hr : r = .errors
  · subst hr
    exact ⟨hs.honest, hs.filed, hs.sources⟩
  · exact (honours_next hr hs).grounded hs

end Request

namespace Session

variable {session : Session} {s : State}

theorem grounded_start (h : session.attributes.Honest) : session.start.Grounded where
  honest := h
  filed := SymbolTable.filed_empty
  sources _ _ hsource := nomatch hsource

/-- Whatever a session is asked, its states are in order. -/
theorem Rests.grounded (h : session.attributes.Honest) (hs : session.Rests s) : s.Grounded := by
  induction hs with
  | start => exact grounded_start h
  | next r _ _ _ ih => exact r.grounded_next ih

theorem honest_default : ({} : Session).attributes.Honest := by
  rintro _ ⟨⟩

end Session

/-! ## Runs that are evaluated -/

/-- The run gets through, and what it gives passes the test. -/
def Analysis.passes {α : Type} (test : α → State → Bool) : EStateM.Result Diagnostic State α → Bool
  | .ok a s => test a s
  | .error .. => false

theorem Analysis.passes_iff {α : Type} {test : α → State → Bool} {r : EStateM.Result Diagnostic State α} :
    passes test r = true ↔ ∃ a s, r = .ok a s ∧ test a s = true := by
  constructor
  · intro h
    cases r with
    | ok a s => exact ⟨a, s, rfl, h⟩
    | error e s => cases h
  · rintro ⟨a, s, rfl, h⟩
    exact h

end SemanticAnalysis
