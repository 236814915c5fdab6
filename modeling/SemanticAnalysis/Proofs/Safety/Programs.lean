import SemanticAnalysis.Proofs.Safety.Statements

/-!
# Analyses are safe

Each answer to a demand is safe if the answers that it asks for are (`answer_assures`), so the analyst is
reliable however deep demands may be nested (`analyst_reliable`).
-/

namespace SemanticAnalysis

namespace Analysis

variable {w₀ : World} {frame : Frame} {node : Node} {scope : ScopeId} {position : Position}
variable {an : Analyst}

/-! ## Expressions -/

/-- An expression may be analysed in a frame that hosts it. -/
theorem detailExpr_safe (han : an.Reliable) {e : Expr} {access : Access} (h : w₀.Hosts frame e.decls) :
    Safe w₀ (detailExpr an frame e scope access) := by
  unfold detailExpr
  split <;> rw [Expr.decls] at h
  case h_1 => exact detailLiteral_safe
  case h_2 => exact detailName_safe han
  case h_3 => exact detailMember_safe han h
  case h_4 =>
    obtain ⟨hcallee, harguments⟩ := World.Hosts.append_iff.1 h
    exact detailCall_safe han hcallee harguments
  case h_5 => exact detailNew_safe han h
  case h_6 =>
    obtain ⟨hleft, hright⟩ := World.Hosts.append_iff.1 h
    exact detailBinary_safe han hleft hright
  case h_7 => exact detailUnary_safe han h
  case h_8 =>
    obtain ⟨htarget, hvalue⟩ := World.Hosts.append_iff.1 h
    exact detailAssign_safe han htarget hvalue
  case h_9 =>
    obtain ⟨hcondition, hbranches⟩ := World.Hosts.append_iff.1 h
    obtain ⟨hyes, hno⟩ := World.Hosts.append_iff.1 hbranches
    exact detailConditional_safe han hcondition hyes hno
  case h_10 => exact detailCast_safe han h
  case h_11 =>
    obtain ⟨hobject, hindex⟩ := World.Hosts.append_iff.1 h
    exact detailIndex_safe han hobject hindex
  case h_12 =>
    obtain ⟨hparams, hbody⟩ := World.Hosts.append_iff.1 h
    exact detailLambda_safe han hparams hbody
  case h_13 => exact detailThis_safe
  case h_14 => exact detailSuper_safe
  case h_15 => exact detailAwait_safe han h
  case h_16 => exact detailYield_safe han h
  case h_17 => exact detailSizeOf_safe han

/-! ## Passes -/

section Passes

variable {stmt : Stmt} {row : List Stmt}

@[grind ←] theorem attempt_safe {step : Analysis Unit} (h : Safe w₀ step) : Safe w₀ (attempt step) :=
  (recover_safe h).discard

@[grind ←] theorem passInside_safe (han : an.Reliable) {p : Pass} (h : w₀.Hosts frame (Stmt.rowDecls row)) :
    Safe w₀ (passInside an p frame node row) := by
  unfold passInside
  grind

theorem importPass_safe (han : an.Reliable) : Safe w₀ (importPass an frame scope stmt) := by
  unfold importPass
  split
  · exact attempt_safe (detailImport_safe han)
  · exact .pure

theorem typePass_safe (han : an.Reliable) (h : w₀.Hosts frame stmt.decls) :
    Safe w₀ (typePass an frame scope stmt) := by
  unfold typePass
  split
  · rw [Stmt.decls] at h
    exact attempt_safe (declareClass_safe h).discard
  · rw [Stmt.decls] at h
    obtain ⟨hnode, hbody⟩ := World.Hosts.cons_iff.1 h
    refine .bind (recover_safe (declareSpace_safe hnode)) fun inner => ?_
    grind
  · exact .pure

theorem aliasPass_safe (han : an.Reliable) {last : Bool} (h : w₀.Hosts frame stmt.decls) :
    Safe w₀ (aliasPass an last frame scope stmt) := by
  unfold aliasPass
  split
  · rw [Stmt.decls] at h
    grind
  · rw [Stmt.decls] at h
    exact passInside_safe han (World.Hosts.cons_iff.1 h).2
  · exact .pure

theorem signaturePass_safe (han : an.Reliable) (h : w₀.Hosts frame stmt.decls) :
    Safe w₀ (signaturePass an frame scope stmt) := by
  unfold signaturePass
  split
  · grind
  · rw [Stmt.decls] at h
    exact .discard (Assures.safe (declareFunction_assures han h (by simp)))
  · rw [Stmt.decls] at h
    exact predeclareVariable_safe han h
  · rw [Stmt.decls] at h
    exact passInside_safe han (World.Hosts.cons_iff.1 h).2
  · exact .pure

/-- What was declared under the node of a function is given the body of it. -/
theorem bodyPass_safe (han : an.Reliable) (h : w₀.Hosts frame stmt.decls) :
    Safe w₀ (bodyPass an frame scope stmt) := by
  unfold bodyPass
  split
  · grind
  · rw [Stmt.decls] at h
    have hnode := (World.Hosts.cons_iff.1 (Stmt.functionDecls_eq _ ▸ h)).1
    refine .bind_assures (declared?_assures hnode) fun w known h₀ hknown => ?_
    split
    · exact functionBody_safe han (h₀.hosts h) (hknown _ rfl)
    · exact .pure
  · rw [Stmt.decls] at h
    exact passInside_safe han (World.Hosts.cons_iff.1 h).2
  · exact .pure
  · exact .pure
  · exact stmt_safe han h

theorem runPass_safe (han : an.Reliable) {p : Pass} (h : w₀.Hosts frame (Stmt.rowDecls row)) :
    Safe w₀ (runPass an p frame row scope) := by
  have hstmt : ∀ stmt ∈ row, w₀.Hosts frame stmt.decls := fun stmt hmem =>
    h.subset (Stmt.decls_subset_of_mem hmem)
  unfold runPass
  split
  · refine .bind (.forM fun _ _ => importPass_safe han) fun _ => ?_
    exact .forM fun stmt hmem => typePass_safe han (hstmt stmt hmem)
  · exact .forM fun stmt hmem => aliasPass_safe han (hstmt stmt hmem)
  · exact .forM fun stmt hmem => attempt_safe (signaturePass_safe han (hstmt stmt hmem))
  · exact .forM fun stmt hmem => attempt_safe (bodyPass_safe han (hstmt stmt hmem))

end Passes

/-! ## Pending instances -/

theorem nextPending_assures :
    Assures w₀ nextPending fun w next => ∀ f, next = some (.inr f) → w.Awaits f := by
  refine .modifyGet fun w _ hw => ?_
  split
  · rename_i cls rest _
    have hchange : w.Change (w.on { w.state with pendingClasses := rest }) :=
      { World.Change.refl w with }
    exact ⟨_, rfl, hchange, fun f hf => nomatch Option.some.inj hf⟩
  · rename_i f rest _ hpending
    have hchange : w.Change (w.on { w.state with pendingFunctions := rest }) :=
      { World.Change.refl w with
        pending := fun e he => .inl (hpending ▸ List.mem_cons_of_mem _ he) }
    refine ⟨_, rfl, hchange, fun g hg => ?_⟩
    cases hg
    exact hchange.leads.awaits (hw.pending f (hpending ▸ List.mem_cons_self))
  · exact ⟨w, rfl, .refl w, fun f hf => nomatch hf⟩

theorem drainPending_safe (han : an.Reliable) : Safe w₀ (drainPending an) := by
  unfold drainPending
  refine .bind_assures nextPending_assures fun w next _ hnext => ?_
  split
  · exact .pure
  · grind
  · rename_i f
    have hf := hnext f rfl
    exact .bind (attempt_safe (functionBody_safe han hf.hosts hf.isFunction)) fun _ => pending_safe han

/-! ## Modules -/

section Modules

variable {root : Root} {name package request : String} {path : Path} {m : ModuleId}

theorem finishLoad_safe (hm : w₀.HasModule m) :
    Safe w₀ (modify fun s => { s with loads := s.loads.finish path m } : Analysis PUnit) :=
  .alter_from fun w h₀ _ =>
    { World.Change.refl w with
      loaded := fun p d hd => by
        rcases LoadStates.state?_set hd with hold | hnew
        · exact .inl hold
        · cases hnew
          exact .inr (h₀.hasModule hm) }

theorem abandonLoad_safe :
    Safe w₀ (modify fun s => { s with loads := s.loads.abandon path } : Analysis PUnit) :=
  .alter fun w =>
    { World.Change.refl w with loaded := fun _ _ hd => .inl (LoadStates.state?_abandon hd) }

/-- What counts as loaded is there. -/
theorem beginLoad_assures : Assures w₀ (beginLoad path position) fun w o => ∀ m, o = some m → w.HasModule m := by
  refine .of_state fun w _ hw => ?_
  unfold LoadStates.begin
  cases hstate : w.state.loads.state? path with
  | none =>
    have hchange : w.Change (w.on { w.state with loads := w.state.loads.set path .loading }) :=
      { World.Change.refl w with
        loaded := fun p d hd => by
          rcases LoadStates.state?_set hd with hold | hnew
          · exact .inl hold
          · cases hnew }
    exact hchange.ends hw nofun
  | some state =>
    cases state with
    | loading => exact ⟨⟨w, rfl, .refl w, hw⟩, rfl⟩
    | done m =>
      refine ⟨w, rfl, .refl w, hw, fun d hd => ?_⟩
      cases hd
      exact hw.loaded path m hstate

/-- A tree whose nodes are distinct may be analysed in any module that is there. -/
theorem detailModule_safe (han : an.Reliable) (hroot : root.Distinct) (hm : w₀.HasModule m) :
    Safe w₀ (detailModule an root m) := by
  unfold detailModule
  refine .bind_assures (openFrame_assures hm (World.admits_root hroot)) fun w frame h₀ hframe => ?_
  obtain ⟨rfl, hdecls⟩ := hframe
  have hrow : w.Hosts frame (Stmt.rowDecls root.statements) := hdecls
  refine .bind (.alter fun w => { World.Change.refl w with }) fun _ => ?_
  refine .bind_module (h₀.hasModule hm) fun module => ?_
  refine .bind (andFinally_safe ?_ (.alter fun w => { World.Change.refl w with })) fun _ => ?_
  · exact .bind (.forM fun _ _ => pass_safe han hrow) fun _ => pending_safe han
  refine .bind look_safe fun rootItems => .bind (change_safe fun _ => .modifyModule) fun _ => ?_
  refine .bind (.alter_from fun w' h₁ _ =>
    { World.Change.refl w' with roots := fun r hr => ?_ }) fun _ => .pure
  rcases List.mem_append.1 hr with hold | hnew
  · exact .inl hold
  · cases List.mem_singleton.1 hnew
    exact .inr (h₁.hosts hdecls)

theorem newModule_assures :
    Assures w₀ (make (·.newModule name path.spelling package)) fun w m => w.HasModule m :=
  .modifyGet fun w _ _ => ⟨_, rfl, .of_table .newModule, by
    simp [World.HasModule, SymbolTable.newModule, SymbolTable.pushScope, World.on]⟩

theorem loadTree_assures (han : an.Reliable) (hroot : root.Distinct) :
    Assures w₀ (loadTree an root name path package) fun w m => w.HasModule m := by
  unfold loadTree
  refine .bind newModule_assures fun w m _ hm => ?_
  refine .after (.tryCatch ?_ fun e he => ?_) fun _ => .pure fun _ h₁ _ => h₁.hasModule hm
  · exact .bind (detailModule_safe han hroot hm).discard fun _ => finishLoad_safe hm
  · exact .bind abandonLoad_safe fun _ => .throw he

theorem detailRoot_assures (han : an.Reliable) (hroot : root.Distinct) :
    Assures w₀ (detailRoot an root name path package) fun w m => w.HasModule m := by
  unfold detailRoot
  refine .bind beginLoad_assures fun w known _ hknown => ?_
  split
  · exact .pure fun _ h₁ _ => h₁.hasModule (hknown _ rfl)
  · exact loadTree_assures han hroot

/-- What a resolver finds are trees whose nodes are distinct. -/
theorem loadModule_assures (han : an.Reliable) :
    Assures w₀ (loadModule an path request position) fun w m => w.HasModule m := by
  unfold loadModule
  refine .bind beginLoad_assures fun w known _ hknown => ?_
  split
  · exact .pure fun _ h₁ _ => h₁.hasModule (hknown _ rfl)
  refine .bind_get fun w₁ _ hw₁ => ?_
  split
  · exact .after abandonLoad_safe fun _ => .throw rfl
  · rename_i library hlibrary
    split
    · exact .after abandonLoad_safe fun _ => .throw rfl
    · rename_i parsed hparse
      exact loadTree_assures han (hw₁.library library hlibrary path parsed hparse)

end Modules

/-! ## Demands -/

/-- An answer is safe if those are that it asks for. -/
theorem answer_assures (han : an.Reliable) {α : Type} (d : Demand α) (hd : d.Suits w₀) :
    Assures w₀ (answer an d) fun w a => d.Yields w a := by
  cases d with
  | type frame t scope => exact resolveType_safe han
  | expr frame e scope access => exact detailExpr_safe han hd
  | stmt frame stmt scope => exact detailStmt_safe han hd
  | signatures cls => exact classSignatures_safe han
  | synthesis cls => exact synthesize_safe han
  | classBodies cls => exact detailClassBodies_safe han
  | functionBody frame decl item => exact detailFunctionBody_safe han hd
  | pass p frame row scope => exact runPass_safe han hd
  | module path request position => exact loadModule_assures han
  | pending => exact drainPending_safe han

end Analysis

/-- However deep demands may be nested, the analyst answers them safely. -/
theorem analyst_reliable (depth : Nat) : (analyst depth).Reliable := by
  induction depth with
  | zero => exact fun _ _ _ => .throw rfl
  | succ depth ih => exact fun d _ hd => Analysis.answer_assures ih d hd

end SemanticAnalysis
