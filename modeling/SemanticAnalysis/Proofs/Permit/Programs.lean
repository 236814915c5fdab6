import SemanticAnalysis.Proofs.Analysis.Acyclic
import SemanticAnalysis.Proofs.Course.Programs
import SemanticAnalysis.Proofs.Permit.Statements

/-!
# Programs pay

A module brings the permits of its tree, and each pass over it takes a part of them (`Pass.costs_le`).
Whatever an analyst is asked, it keeps the accounts, however deep demands are nested
(`analyst_sparing`): nobody has a permit twice, and so no detail is recorded twice
(`no_detail_repeated`).
-/

namespace SemanticAnalysis

namespace State

/-- What it still takes to bind the aliases in a statement. -/
def unboundLevel (s : State) (f : FrameId) (stmt : Stmt) : Holding :=
  (stmt.level.map (s.unbound f)).sum

variable {s s' : State}

theorem unboundLevel_aliasing (s : State) (f : FrameId) (n : Node) (decl : AliasDecl) :
    s.unboundLevel f (.aliasing n decl) = s.unbound f (.aliasing n decl) := by
  simp [unboundLevel, Stmt.level]

theorem unboundLevel_space (s : State) (f : FrameId) (n : Node) (ident : Ident) (v : Visibility)
    (body : List Stmt) : s.unboundLevel f (.space n ident v body) = s.unboundCost f body := by
  simp [unboundLevel, unboundCost, Stmt.level, unbound]

theorem Continues.unboundLevel_le (h : s.Continues s') (f : FrameId) (stmt : Stmt) :
    s'.unboundLevel f stmt ≤ s.unboundLevel f stmt := List.sum_le_sum fun stmt _ => h.unbound_le f stmt

end State

/-! ## Rows of statements -/

/-- What several steps take and leave depends on the state, and does not grow with time. -/
theorem Affords.forM {γ : Type} {xs : List γ} {f : γ → Analysis PUnit} {cost change : γ → State → Holding}
    (hcost : ∀ a s s', s.Continues s' → cost a s' ≤ cost a s)
    (hchange : ∀ a s s', s.Continues s' → change a s' ≤ change a s)
    (h : ∀ a ∈ xs, Affords (cost a) (f a) fun _ => change a) :
    Affords (fun s => (xs.map fun a => cost a s).sum) (xs.forM f)
      fun _ s => (xs.map fun a => change a s).sum := by
  induction xs with
  | nil => exact fun s held hs => ⟨hs, .refl s⟩
  | cons a rest ih =>
    intro s held hs
    let later (s : State) : Holding := (rest.map fun a => cost a s).sum
    replace hs : s.Accounts (cost a s + (later s + held)) := add_assoc (cost a s) (later s) held ▸ hs
    refine (h a List.mem_cons_self s _ hs).bind (fun _ => Nat.le_add_left _ _) fun _ s' _ hc hs' => ?_
    have hlater : later s' ≤ later s := List.sum_le_sum fun b _ => hcost b s s' hc
    have hpaid : s'.Accounts (later s' + (change a s' + held)) := by
      refine hs'.of_le fun p => ?_
      have hp := hlater p
      simp only [later, Pi.add_apply] at *
      omega
    have hrest := ih (fun b hb => h b (List.mem_cons_of_mem _ hb)) s' _ hpaid
    cases hrun : rest.forM f s' with
    | error e s'' =>
      rw [hrun] at hrest
      exact ⟨hrest.1.rest, hrest.2⟩
    | ok _ s'' =>
      rw [hrun] at hrest
      refine ⟨hrest.1.of_le fun p => ?_, hrest.2⟩
      have hp := hchange a s' s'' hrest.2 p
      simp only [List.map_cons, List.sum_cons, Pi.add_apply] at *
      omega

namespace Stmt

variable (f : FrameId)

/-- What imports take, which come before the types. -/
def importCost : Stmt → Holding
  | .importing n _ => permits f [n.id]
  | _ => 0

/-- What a statement takes that declares a type, with those inside it. -/
def typeCost : Stmt → Holding
  | .importing .. => 0
  | s => (s.level.map (·.passCost f .types)).sum

theorem importCost_add_typeCost (row : List Stmt) :
    (row.map (importCost f)).sum + (row.map (typeCost f)).sum = Pass.types.cost f row := by
  rw [Pass.cost, sum_levels, ← List.sum_map_add]
  congr 1
  refine List.map_congr_left fun s _ => ?_
  cases s with
  | importing n decl => simp [importCost, typeCost, level, passCost]
  | _ => simp [importCost, typeCost]

end Stmt

namespace Analysis

variable {α : Type} {frame : Frame} {node : Node} {scope : ScopeId} {position : Position}
variable {an : Analyst} {s : State} {held : Holding} {stmt : Stmt} {row : List Stmt}

/-! ## Passes -/

theorem attempt_leaves {x : Analysis Unit} (hx : Leaves s (fun _ _ => 0) held (x s)) :
    Leaves s (fun _ _ => 0) held (attempt x s) := (recover_leaves hx).map

theorem attempt_spends {cost : Holding} {x : Analysis Unit} (hx : Spends cost x) :
    Spends cost (attempt x) := fun s held hs => attempt_leaves (hx s held hs)

/-! ## The next instance -/

section NextPending

variable {cls : ItemId} {others : List ItemId} {f : PendingFunction} {rest : List PendingFunction}

theorem nextPending_class (h : s.pendingClasses = cls :: others) :
    nextPending s = .ok (some (.inl cls)) { s with pendingClasses := others } := by
  cases s
  cases h
  rfl

theorem nextPending_function (hclasses : s.pendingClasses = []) (h : s.pendingFunctions = f :: rest) :
    nextPending s = .ok (some (.inr f)) { s with pendingFunctions := rest } := by
  cases s
  cases hclasses
  cases h
  rfl

theorem nextPending_none (hclasses : s.pendingClasses = []) (h : s.pendingFunctions = []) :
    nextPending s = .ok none s := by
  cases s
  cases hclasses
  cases h
  rfl

end NextPending

section Passes

variable (han : an.Sparing)

include han

theorem importPass_spends : Spends (stmt.importCost frame.id) (importPass an frame scope stmt) := by
  cases stmt with
  | importing node decl => exact attempt_spends (detailImport_spends han)
  | _ => exact .pure

/-- A pass over the statements inside a namespace. -/
theorem passInside_spends (p : Pass) (hp : ∀ last, p ≠ .aliases last) :
    Spends (p.cost frame.id row) (passInside an p frame node row) := by
  unfold passInside
  refine .after spaceScope?_quiet fun found => ?_
  cases found with
  | none => exact .pure
  | some inner =>
    intro s held hs
    cases p with
    | aliases last => exact absurd rfl (hp last)
    | _ => exact han (.pass _ frame row inner) s held trivial hs

theorem typePass_spends : Spends (stmt.typeCost frame.id) (typePass an frame scope stmt) := by
  cases stmt with
  | cls decl =>
    have hcost : (Stmt.cls decl).typeCost frame.id = decl.declareCost frame.id := by
      simp [Stmt.typeCost, Stmt.level, Stmt.passCost]
    rw [hcost]
    exact attempt_spends declareClass_spends.discard
  | space node name visibility body =>
    have hcost : (Stmt.space node name visibility body).typeCost frame.id =
        permits frame.id [node.id] + Pass.types.cost frame.id body := by
      simp [Stmt.typeCost, Stmt.level, Stmt.passCost, Pass.cost]
    rw [hcost]
    refine (recover_spends declareSpace_spends).bind fun inner => ?_
    cases inner with
    | none => exact .pure
    | some inner => exact fun s held hs => han (.pass .types frame body inner) s held trivial hs
  | _ => exact .pure

/-- An alias is bound, or what binding it takes is still there. -/
theorem aliasPass_affords {last : Bool} :
    Affords (fun s => s.unboundLevel frame.id stmt) (aliasPass an last frame scope stmt)
      fun _ s => if last then 0 else s.unboundLevel frame.id stmt := by
  have hkept (cost : State → Holding) (s : State) : (if last then 0 else cost s) ≤ cost s := by
    split
    · exact fun p => Nat.zero_le _
    · exact le_refl _
  have hnothing (cost : State → Holding) :
      Affords cost (pure ⟨⟩) fun (_ : Unit) s => if last then 0 else cost s :=
    fun s held hs => ⟨hs.of_le (add_le_add (hkept cost s) (le_refl held)), .refl s⟩
  cases stmt with
  | aliasing node decl =>
    intro s held hs
    let k : DetailKey := ⟨frame.id, node.id⟩
    let bind := bindAliasDecl frame node decl scope
    have hrun : aliasPass an last frame scope (.aliasing node decl) s =
      (if (s.declared.lookup k).isSome then pure ⟨⟩ else
        if last then attempt bind else tryCatch bind giveUp : Analysis Unit) s := rfl
    rw [hrun]
    by_cases hknown : (s.declared.lookup k).isSome = true
    · rw [if_pos hknown]
      exact hnothing _ s held hs
    rw [if_neg hknown]
    simp only [State.unboundLevel_aliasing] at *
    have hpaid : s.Accounts (permits frame.id [node.id] + held) := by
      rwa [State.unbound, if_neg hknown] at hs
    cases last with
    | true => exact attempt_spends bindAliasDecl_attempts.spends s held hpaid
    | false =>
      have hattempts : Attempts (permits frame.id [node.id]) bind fun s =>
        (s.declared.lookup k).isSome := bindAliasDecl_attempts
      have hbind := hattempts s held hpaid
      show Leaves s _ held (EStateM.tryCatch bind giveUp s)
      unfold EStateM.tryCatch
      cases hends : bind s with
      | ok _ s' =>
        rw [hends] at hbind
        obtain ⟨hs', hcontinues, hbound⟩ := hbind
        refine ⟨?_, hcontinues⟩
        dsimp only
        rw [State.unbound, if_pos hbound, ite_self]
        exact (zero_add held).symm ▸ hs'
      | error e s' =>
        rw [hends] at hbind
        obtain ⟨hs', hcontinues, he⟩ := hbind
        have hdropped : State.Accounts { s' with dropped := s'.dropped ++ [e] } _ := hs'.drop he
        have hlater : s.Continues { s' with dropped := s'.dropped ++ [e] } :=
          hcontinues.trans { State.Continues.refl s' with }
        have hunbound := hlater.unbound_le frame.id (.aliasing node decl)
        rw [State.unbound, State.unbound, if_neg hknown] at hunbound
        exact ⟨hdropped.of_le (add_le_add hunbound (le_refl held)), hlater⟩
  | space node name visibility body =>
    simp only [State.unboundLevel_space]
    intro s held hs
    refine hs.quietly spaceScope?_quiet (fun _ => Nat.le_add_left _ _) fun found s' hc hs' => ?_
    replace hs' := hs'.of_le (add_le_add (hc.unboundCost_le frame.id body) (le_refl held))
    cases found with
    | none => exact hnothing (·.unboundCost frame.id body) s' held hs'
    | some inner => exact han (.pass (.aliases last) frame body inner) s' held trivial hs'
  | _ => exact hnothing _

theorem signaturePass_spends :
    Spends (stmt.level.map (·.passCost frame.id .signatures)).sum
      (signaturePass an frame scope stmt) := by
  cases stmt with
  | cls decl =>
    refine .after declared?_quiet fun known => ?_
    cases known with
    | none => exact .pure
    | some cls => exact (signatures_quiet han).of_le fun _ => Nat.zero_le _
  | function decl =>
    simp only [Stmt.level, List.map_cons, List.map_nil, List.sum_cons, List.sum_nil, add_zero]
    exact (declareFunction_spends han).discard
  | declare decl =>
    simp only [Stmt.level, List.map_cons, List.map_nil, List.sum_cons, List.sum_nil, add_zero]
    exact predeclareVariable_spends han
  | space node name visibility body =>
    refine (passInside_spends han .signatures (by simp)).of_le ?_
    simp [Stmt.level, Stmt.passCost, Pass.cost]
  | _ => exact .pure

theorem bodyPass_spends :
    Spends (stmt.level.map (·.passCost frame.id .bodies)).sum (bodyPass an frame scope stmt) := by
  cases stmt with
  | cls decl =>
    simp only [Stmt.level, List.map_cons, List.map_nil, List.sum_cons, List.sum_nil, add_zero]
    intro s held hs
    have hread (f : Option ItemId → Analysis Unit) : (declared? frame decl.node >>= f) s =
      f (s.declared.lookup ⟨frame.id, decl.node.id⟩) s := rfl
    unfold bodyPass
    dsimp only
    rw [hread]
    cases hdeclared : s.declared.lookup ⟨frame.id, decl.node.id⟩ with
    | none => exact Spends.pure s held hs
    | some cls =>
      have hsource (f : Option ClassSource → Analysis Unit) :
        (classSource? cls >>= f) s = f (s.classes.lookup cls) s := rfl
      dsimp only
      rw [hsource]
      cases hknown : s.classes.lookup cls with
      | none => exact Spends.pure s held hs
      | some known =>
        obtain ⟨hcls, hkey⟩ := hasClass_of_declared hs (mem_of_lookup hdeclared) hknown
        exact classBodies_spends han s held hcls (hkey.symm ▸ hs)
  | function decl =>
    simp only [Stmt.level, List.map_cons, List.map_nil, List.sum_cons, List.sum_nil, add_zero]
    intro s held hs
    have hread (f : Option ItemId → Analysis Unit) : (declared? frame decl.node >>= f) s =
      f (s.declared.lookup ⟨frame.id, decl.node.id⟩) s := rfl
    unfold bodyPass
    dsimp only
    rw [hread]
    cases hdeclared : s.declared.lookup ⟨frame.id, decl.node.id⟩ with
    | none => exact Spends.pure s held hs
    | some item => exact functionBody_later han (mem_of_lookup hdeclared) hs
  | space node name visibility body =>
    refine (passInside_spends han .bodies (by simp)).of_le ?_
    simp [Stmt.level, Stmt.passCost, Pass.cost]
  | importing => exact .pure
  | aliasing => exact .pure
  | _ =>
    simp only [Stmt.level, List.map_cons, List.map_nil, List.sum_cons, List.sum_nil, add_zero,
      Stmt.passCost, bodyPass]
    exact stmt_spends han

/-- A pass over the statements of a module or namespace. -/
theorem runPass_affords (p : Pass) :
    Affords (Demand.pass p frame row scope).cost (runPass an p frame row scope)
      fun _ => (Demand.pass p frame row scope).change := by
  cases p with
  | types =>
    have hrow : Spends (Pass.types.cost frame.id row) (runPass an .types frame row scope) := by
      rw [← Stmt.importCost_add_typeCost]
      exact (Spends.forM fun _ _ => importPass_spends han).bind fun _ =>
        .forM fun _ _ => typePass_spends han
    exact hrow
  | aliases last =>
    have hrow : Affords (fun s => (row.map fun stmt => s.unboundLevel frame.id stmt).sum)
        (runPass an (.aliases last) frame row scope) fun _ s =>
          (row.map fun stmt => if last then 0 else s.unboundLevel frame.id stmt).sum := by
      refine .forM (fun stmt s s' h => h.unboundLevel_le frame.id stmt) (fun stmt s s' h => ?_)
        fun _ _ => aliasPass_affords han
      split
      · exact le_refl _
      · exact h.unboundLevel_le frame.id stmt
    refine hrow.imp (fun s => le_of_eq ?_) fun _ s => le_of_eq ?_
    · exact (Stmt.sum_levels _ _).symm
    · cases last with
      | true => simp [Demand.change]
      | false => exact Stmt.sum_levels _ _
  | signatures =>
    have hrow : Spends (Pass.signatures.cost frame.id row) (runPass an .signatures frame row scope) := by
      rw [Pass.cost, Stmt.sum_levels]
      exact .forM fun _ _ => attempt_spends (signaturePass_spends han)
    exact hrow
  | bodies =>
    have hrow : Spends (Pass.bodies.cost frame.id row) (runPass an .bodies frame row scope) := by
      rw [Pass.cost, Stmt.sum_levels]
      exact .forM fun _ _ => attempt_spends (bodyPass_spends han)
    exact hrow

/-! ## Pending instances -/

/-- The instances that wait have kept what their bodies take. -/
theorem drainPending_quiet : Quiet (drainPending an) := by
  intro s held hs
  rw [zero_add] at hs
  unfold drainPending
  cases hclasses : s.pendingClasses with
  | cons cls others =>
    let s₁ : State := { s with pendingClasses := others }
    have hstarts : s.Continues s₁ := { State.Continues.refl s with }
    have hlt : cls.index < s₁.table.items.size := hs.pending_lt cls (hclasses ▸ List.mem_cons_self)
    have hs₁ : s₁.Accounts (s₁.opening cls + held) := hs.nextClass hclasses
    have hturn : nextPending s = .ok (some (.inl cls)) s₁ := nextPending_class hclasses
    rw [bind_ok hturn]
    refine .after hstarts ((attempt_leaves (classBodies_leaves han hlt hs₁)).bind (le_refl _) ?_)
    exact fun _ s' _ _ hs' => pending_quiet han s' held hs'
  | nil =>
    cases hfunctions : s.pendingFunctions with
    | cons f others =>
      let s₁ : State := { s with pendingFunctions := others }
      have hstarts : s.Continues s₁ := { State.Continues.refl s with }
      have hs₁ : s₁.Accounts (f.decl.bodyCost f.frame.id + held) := hs.nextFunction hfunctions
      have hturn : nextPending s = .ok (some (.inr f)) s₁ := nextPending_function hclasses hfunctions
      rw [bind_ok hturn]
      have hbody : Spends (f.decl.bodyCost f.frame.id) (do
          attempt (an.ask (.functionBody f.frame f.decl f.item))
          an.ask .pending) := (attempt_spends (functionBody_spends han)).before fun _ => pending_quiet han
      exact .after hstarts (hbody s₁ held hs₁)
    | nil =>
      have hturn : nextPending s = .ok none s := nextPending_none hclasses hfunctions
      rw [bind_ok hturn]
      exact Quiet.pure s held ((zero_add held).symm ▸ hs)

end Passes

/-! ## Modules -/

section Modules

variable {root : Root} {path : Path} {name package : String}

/-- The permits of a tree are what all passes over it take. What an alias takes that the first pass does
not bind is there for the last one. -/
theorem runPasses_spends (han : an.Sparing) :
    Spends (permits frame.id root.ids) (runPasses an frame root.statements scope) := by
  let row := root.statements
  have hpass (p : Pass) (s : State) (held : Holding)
      (hs : s.Accounts ((Demand.pass p frame row scope).cost s + held)) :
      Leaves s (fun _ => (Demand.pass p frame row scope).change) held
        (an.ask (.pass p frame row scope) s) := han (.pass p frame row scope) s held trivial hs
  let signatures : Holding := Pass.signatures.cost frame.id row
  let bodies : Holding := Pass.bodies.cost frame.id row
  have hpasses : Spends (permits frame.id root.ids)
      ([Pass.types, .aliases false, .signatures, .aliases true, .bodies].forM fun p =>
        an.ask (.pass p frame row scope)) := by
    intro s held hs
    have hs₀ : s.Accounts (Pass.types.cost frame.id row +
        ((Pass.aliases true).cost frame.id row + (signatures + (bodies + held)))) := by
      refine hs.of_le fun p => ?_
      have hcosts := Pass.costs_le frame.id row p
      simp only [Root.ids, Pi.add_apply, row, signatures, bodies] at *
      omega
    refine (hpass .types s _ hs₀).bind (fun p => by simp; omega) fun _ s₁ _ _ hs₁ => ?_
    replace hs₁ : s₁.Accounts (s₁.unboundCost frame.id row + (signatures + (bodies + held))) := by
      refine hs₁.of_le fun p => ?_
      have hunbound := s₁.unboundCost_le frame.id row true p
      simp only [Pi.add_apply] at *
      omega
    refine (hpass (.aliases false) s₁ _ hs₁).bind (fun p => by simp; omega) fun _ s₂ _ _ hs₂ => ?_
    replace hs₂ : s₂.Accounts (signatures + (s₂.unboundCost frame.id row + (bodies + held))) := by
      refine hs₂.of_le (le_of_eq ?_)
      show _ = s₂.unboundCost frame.id row + _
      ac_rfl
    refine (hpass .signatures s₂ _ hs₂).bind (fun p => by simp; omega) fun _ s₃ _ h₃ hs₃ => ?_
    replace hs₃ : s₃.Accounts (s₃.unboundCost frame.id row + (bodies + held)) := by
      refine hs₃.of_le fun p => ?_
      have hunbound := h₃.unboundCost_le frame.id row p
      simp only [Pi.add_apply] at *
      omega
    refine (hpass (.aliases true) s₃ _ hs₃).bind (fun p => by simp) fun _ s₄ _ _ hs₄ => ?_
    refine (hpass .bodies s₄ held ((zero_add (bodies + held)) ▸ hs₄)).bind (le_refl _) ?_
    exact fun _ s₅ _ _ hs₅ => Quiet.pure s₅ held hs₅
  exact hpasses.before fun _ => pending_quiet han

/-- A module that is entered is left. -/
theorem detailModule_quiet (han : an.Sparing) (hroot : root.Distinct) {m : ModuleId} :
    Quiet (detailModule an root m) := by
  intro s held hs
  have hids : s.Admits root.ids := by
    refine ⟨hroot.1, ?_⟩
    rintro n hn k rfl
    cases hroot.2 _ hn
  obtain ⟨frame, s₁, hrun, hsteady, hs₁⟩ := openFrame_gives m ((zero_add held) ▸ hs) hids
  unfold detailModule
  rw [bind_ok hrun]
  refine .after hsteady.continues (Spends.after (.alter fun s => ?_) (fun _ => ?_) s₁ held hs₁)
  · exact { State.Steady.refl s with }
  refine .after look_quiet fun found => .after expect_quiet fun md => ?_
  refine .before (andFinally_spends (runPasses_spends han) (.alter fun s => ?_)) fun _ => ?_
  · exact { State.Steady.refl s with }
  refine .bind look_quiet fun rootItems => .bind (change_quiet fun _ => .modifyModule) fun _ => ?_
  exact .bind (.alter fun s => { State.Steady.refl s with }) fun _ => .pure

/-! ## Loading -/

theorem loads_quiet {f : State → LoadStates} :
    Quiet (modify fun s => { s with loads := f s } : Analysis PUnit) :=
  .alter fun s => { State.Steady.refl s with }

theorem loadTree_quiet (han : an.Sparing) (hroot : root.Distinct) :
    Quiet (loadTree an root name path package) := by
  unfold loadTree
  refine .bind (make_quiet fun _ => .newModule) fun m => ?_
  refine .bind (.tryCatch ?_ fun e he => ?_) fun _ => .pure
  · exact .bind (detailModule_quiet han hroot).discard fun _ => loads_quiet
  · exact .bind loads_quiet fun _ => .throw he

theorem beginLoad_quiet : Quiet (beginLoad path position) := by
  intro s held hs
  rw [beginLoad_run]
  cases s.loads.state? path with
  | none =>
    have hclaimed : s.Steady { s with loads := s.loads.set path .loading } :=
      { State.Steady.refl s with }
    exact ⟨hclaimed.accounts hs, hclaimed.continues⟩
  | some state =>
    cases state with
    | loading => exact Quiet.throw (by simp) s held hs
    | done m => exact Quiet.pure s held hs

theorem detailRoot_quiet (han : an.Sparing) (hroot : root.Distinct) :
    Quiet (detailRoot an root name path package) := by
  unfold detailRoot
  refine .bind beginLoad_quiet fun known => ?_
  cases known with
  | some m => exact .pure
  | none => exact loadTree_quiet han hroot

/-- What a resolver finds are trees whose nodes are distinct. -/
theorem loadModule_quiet (han : an.Sparing) {request : String} :
    Quiet (loadModule an path request position) := by
  unfold loadModule
  refine .bind beginLoad_quiet fun known => ?_
  cases known with
  | some m => exact .pure
  | none =>
    intro s held hs
    have hread (f : State → Analysis ModuleId) : (MonadState.get >>= f) s = f s s := rfl
    dsimp only
    rw [hread]
    cases hlibrary : s.library with
    | none =>
      exact Quiet.bind loads_quiet (fun _ => (.throw (by simp) : Quiet (noLibrary _ _))) s held hs
    | some resolver =>
      dsimp only
      cases hparse : resolver.parse path with
      | error fault =>
        have hcause : (fault.placed request position).cause ≠ .alreadyDetailed := by
          simp [RequestFault.placed]
        exact Quiet.bind loads_quiet (fun _ => .throw hcause) s held hs
      | ok m =>
        have hdistinct := State.Balanced.library hs resolver hlibrary path m hparse
        exact loadTree_quiet han hdistinct s held hs

end Modules

/-! ## Demands -/

/-- What an analyst asks others for, it keeps the accounts as they do. -/
theorem answer_leaves (han : an.Sparing) (d : Demand α) (hd : d.Fits s)
    (hs : s.Accounts (d.cost s + held)) : Leaves s (fun _ => d.change) held (answer an d s) := by
  cases d with
  | type frame t scope => exact resolveType_quiet han s held hs
  | expr frame e scope access => exact detailExpr_spends han s held hs
  | stmt frame stmt scope => exact detailStmt_spends han s held hs
  | signatures cls => exact classSignatures_quiet han s held hs
  | synthesis cls => exact synthesize_quiet han s held hs
  | classBodies cls => exact detailClassBodies_leaves han hd hs
  | functionBody frame decl item => exact detailFunctionBody_affords han s held hs
  | pass p frame row scope => exact runPass_affords han p s held hs
  | module path request position => exact loadModule_quiet han s held hs
  | pending => exact drainPending_quiet han s held hs

end Analysis

/-- However deep demands may be nested, the analyst keeps the accounts. -/
theorem analyst_sparing (depth : Nat) : (analyst depth).Sparing := by
  induction depth with
  | zero => exact fun d s held _ hs => ⟨hs.rest, .refl s, by simp⟩
  | succ depth ih => exact fun d s held hd hs => Analysis.answer_leaves ih d hd hs

/-! ## Requests -/

/-- The trees in a request are as a reader makes them. -/
def Request.Distinct : Request → Prop
  | .tree root .. | .body root _ => root.Distinct
  | _ => True

namespace Request

open Analysis

variable {r : Request} {s : State} {held : Holding}

theorem runWith_leaves {an : Analyst} (han : an.Sparing) (hr : r.Distinct) (hs : s.Accounts 0) :
    Leaves s (fun _ _ => 0) 0 (r.runWith an s) := by
  cases r with
  | tree root name path package => exact (detailRoot_quiet han hr).discard s 0 hs
  | body root module => exact (detailModule_quiet han hr).discard s 0 hs
  | load path => exact (loadModule_quiet han).discard s 0 hs
  | classInstance template arguments position => exact (instantiateClass_quiet han).discard s 0 hs
  | functionInstance template arguments position =>
    exact (instantiateFunction_quiet han).discard s 0 hs
  | errors => exact ⟨{ hs with errors := fun _ he => nomatch he }, { State.Continues.refl s with }⟩

theorem run_leaves (hr : r.Distinct) (hs : s.Accounts 0) : Leaves s (fun _ _ => 0) 0 (r.run s) := by
  rw [run_eq]
  exact runWith_leaves (analyst_sparing s.options.nesting) hr hs

theorem accounts_next (hr : r.Distinct) (hs : s.Accounts 0) : (r.next s).Accounts 0 := by
  have hrun := run_leaves hr hs
  unfold next
  cases hends : r.run s with
  | ok a s' =>
    rw [hends] at hrun
    exact hrun.1
  | error e s' =>
    rw [hends] at hrun
    exact hrun.1

end Request

/-! ## Sessions -/

/-- What is recorded is counted. -/
theorem State.recorded_apply (s : State) (k : DetailKey) :
    s.recorded ⟨k, .detail⟩ = (s.details.entries.toList.map (·.1)).count k := by
  unfold State.recorded
  induction s.details.entries.toList with
  | nil => rfl
  | cons e rest ih =>
    rw [List.map_cons, List.sum_cons, Pi.add_apply, ih, List.map_cons, List.count_cons,
      DetailKey.permit_apply, add_comm]
    by_cases heq : e.1 = k
    · rw [heq, if_pos rfl, if_pos (beq_self_eq_true k)]
    · rw [if_neg fun h => heq (Permit.mk.inj h).1.symm, if_neg fun h => heq (eq_of_beq h)]

theorem State.Balanced.details_nodup {s : State} {out : Holding} (h : s.Balanced out) :
    (s.details.entries.toList.map (·.1)).Nodup := by
  refine List.nodup_iff_count_le_one.2 fun k => ?_
  have honce := h.once ⟨k, .detail⟩
  rw [State.used, Pi.add_apply, Pi.add_apply, State.recorded_apply] at honce
  omega

namespace Session

/-- The states in which a session waits for a request, after any requests for trees as a reader makes
them. -/
inductive Awaits (session : Session) : State → Prop where
  | start : session.Awaits session.start
  | next {s : State} (r : Request) (hs : session.Awaits s) (hr : r.Distinct) :
      session.Awaits (r.next s)

variable {session : Session} {s : State}

theorem accounts_start (hattributes : session.attributes.KeepsTemplates)
    (hresolver : ∀ r, session.library = some r → r.Distinct) : session.start.Accounts 0 where
  once _ := Nat.zero_le 1
  known _ hp := absurd rfl hp
  keyed _ _ hk := nomatch hk
  classes_nodup := List.nodup_nil
  classes_lt _ he := nomatch he
  pending_lt _ he := nomatch he
  synthesized_lt _ he := nomatch he
  templates _ he := nomatch he
  library := hresolver
  attributes := hattributes
  errors _ he := nomatch he
  dropped _ he := nomatch he

theorem Awaits.accounts (hattributes : session.attributes.KeepsTemplates)
    (hresolver : ∀ r, session.library = some r → r.Distinct) (hs : session.Awaits s) :
    s.Accounts 0 := by
  induction hs with
  | start => exact accounts_start hattributes hresolver
  | next r _ hr ih => exact Request.accounts_next hr ih

end Session

/-- **No node twice.** The trees that a session is given, and those that its resolver finds, have distinct
nodes. Then, with whatever options, no node is ever recorded twice in a frame: each has one detail at most,
and no attempt to record another one was ever made, for its error is neither among those collected nor
among those given up, and no further request stops with it. Callbacks must leave templates templates. -/
theorem no_detail_repeated {session : Session} (hattributes : session.attributes.KeepsTemplates)
    (hresolver : ∀ r, session.library = some r → r.Distinct) {s : State} (hs : session.Awaits s) :
    (s.details.entries.toList.map (·.1)).Nodup ∧
      (∀ e ∈ s.errors ++ s.dropped, e.cause ≠ .alreadyDetailed) ∧
      ∀ r : Request, r.Distinct → ∀ e s', r.run s = .error e s' → e.cause ≠ .alreadyDetailed := by
  have haccounts := hs.accounts hattributes hresolver
  refine ⟨haccounts.details_nodup, fun e he => ?_, fun r hr e s' hrun => ?_⟩
  · rcases List.mem_append.1 he with he | he
    · exact haccounts.errors e he
    · exact haccounts.dropped e he
  · have hleaves := Request.run_leaves hr haccounts
    rw [hrun] at hleaves
    exact hleaves.2.2

/-- `class Point { x: int }` and `fn f(p: Point) { p; }`. -/
def pointModule : ParsedModule where
  root :=
    { statements :=
        [.cls
          { node := ⟨.written 1, {}⟩, name := ⟨"Point", {}⟩
            members :=
              [.field
                { node := ⟨.written 2, {}⟩, name := ⟨"x", {}⟩, ty := some { form := .native .int } }] },
         .function
          { node := ⟨.written 3, {}⟩, name := ⟨"f", {}⟩
            params :=
              [{ node := ⟨.written 4, {}⟩, name := ⟨"p", {}⟩
                 ty := { form := .named [⟨"Point", {}⟩] [] } }]
            body := some
              ⟨⟨.written 5, {}⟩, [.expr ⟨.written 6, {}⟩ (.name ⟨.written 7, {}⟩ ⟨"p", {}⟩ [])]⟩ }] }
  name := "point"
  package := ""

/-- A session that collects errors and finds one module under every path. -/
def pointSession : Session where
  options := { collectErrors := true }
  library := some ⟨fun request _ => .ok ⟨request⟩, fun _ => .ok pointModule⟩

/-- The module as a root. -/
def pointRequest : Request := .tree pointModule.root pointModule.name Session.rootPath ""

/-- Behind the module, all of whose nodes were analysed. -/
theorem no_detail_repeated_points :
    let s := pointRequest.next pointSession.start
    s.errors = [] ∧ s.details.size = 10 ∧ (s.details.entries.toList.map (·.1)).Nodup ∧
      (∀ e ∈ s.errors ++ s.dropped, e.cause ≠ .alreadyDetailed) ∧
      ∀ r : Request, r.Distinct → ∀ e s', r.run s = .error e s' → e.cause ≠ .alreadyDetailed := by
  have hattributes : pointSession.attributes.KeepsTemplates := fun _ hr => nomatch hr
  have hresolver : ∀ r, pointSession.library = some r → r.Distinct := by
    rintro r hr path m hm
    cases hr
    cases hm
    show pointModule.root.Distinct
    decide
  have hdistinct : pointRequest.Distinct := by
    show pointModule.root.Distinct
    decide
  have hawaits : pointSession.Awaits (pointRequest.next pointSession.start) :=
    .next pointRequest .start hdistinct
  refine ⟨?_, ?_, no_detail_repeated hattributes hresolver hawaits⟩
  · decide +kernel
  · decide +kernel

/-- `@edit class A {} fn f<T>() {}`. -/
def templateTree : Root where
  statements :=
    [editedClass,
    .function { node := ⟨.written 2, {}⟩, name := ⟨"f", {}⟩, generics := [⟨"T", {}⟩] }]

/-- **Callbacks can make a node come twice.** The nodes of the tree are distinct. The generic function is recorded as a
template; a callback makes it an ordinary function; and then its body is analysed, and it is recorded again. -/
theorem template_recorded_again :
    templateTree.Distinct ∧ (({} : Session).analyseTree templateTree).root = .ok ⟨0⟩ ∧
      ((Session.editing (·.modifyItem ⟨2⟩ fun i => { i with generics := 0 })).analyseTree templateTree).root =
        .error (.analysis ⟨.alreadyDetailed, {}⟩) := by
  decide +kernel

end SemanticAnalysis
