import SemanticAnalysis.Proofs.Analysis.Naming
import SemanticAnalysis.Proofs.Safety.Classes

/-!
# Statements are safe

Variables, namespaces, aliases, imports and exports, and control flow. A namespace that was just declared has
a scope (`expectSpace_ends`), what a module exports are items that are there (`hasItem_of_exportedItems`), and
a `return` belongs to a function.
-/

namespace SemanticAnalysis

/-- A namespace has a scope of its own. -/
theorem SymbolTable.exists_ownScope?_of_kind? {t : SymbolTable} {i : ItemId} (h : t.kind? i = some .space) :
    ∃ own, (t.item? i).bind Item.ownScope? = some own := by
  obtain ⟨item, hitem, hkind⟩ := kind?_eq_some_iff.1 h
  rw [hitem]
  unfold Item.ownScope?
  cases hentity : item.entity <;> simp_all [Entity.kind]

namespace Analysis

variable {α : Type} {w₀ : World} {frame : Frame} {node : Node} {scope : ScopeId}
variable {position : Position} {an : Analyst} {item : ItemId}

/-! ## Variables -/

section Variables

variable {decl : VariableDecl Expr}

@[grind ←] theorem declaredType_safe (han : an.Reliable) {written : TypeExpr} :
    Safe w₀ (declaredType an frame decl written scope) := by
  unfold declaredType
  grind

@[grind ←] theorem addVariable_safe {ty : Ty} (hmodule : w₀.HasModule frame.module) :
    Safe w₀ (addVariable frame decl ty scope) := by
  unfold addVariable
  refine .bind look_safe fun owner => ?_
  refine .bind_assures (addItem_assures (by simp)) fun w item h₀ hitem => ?_
  exact .guard (.discard (exportItem_safe (h₀.hasModule hmodule) hitem.hasItem)) .pure

@[grind ←] theorem predeclareVariable_safe (han : an.Reliable)
    (h : w₀.Hosts frame (Stmt.variableDecls decl)) :
    Safe w₀ (predeclareVariable an frame decl scope) := by
  have hnode := (World.Hosts.cons_iff.1 (Stmt.variableDecls_eq decl ▸ h)).1
  have hmodule := h.module
  unfold predeclareVariable
  grind

@[grind ←] theorem initializedType_safe (han : an.Reliable) {explicit : Option Ty} {initializer : Expr}
    (h : w₀.Hosts frame initializer.decls) :
    Safe w₀ (initializedType an frame decl explicit initializer scope) := by
  unfold initializedType
  grind

@[grind ←] theorem uninitializedType_safe (han : an.Reliable) {explicit : Option Ty} :
    Safe w₀ (uninitializedType an decl explicit) := by
  unfold uninitializedType
  dsimp only
  split
  · exact failOther_safe
  · refine .guard failOther_safe ?_
    grind

@[grind ←] theorem explicitType_safe (han : an.Reliable) {known : Option ItemId} :
    Safe w₀ (explicitType an frame decl known scope) := by
  unfold explicitType
  grind

/-- What detailing a variable comes to once its type and its constructor are known. -/
theorem makeVariable_safe (han : an.Reliable) (h : w₀.Hosts frame (Stmt.variableDecls decl))
    (known : Option ItemId) (made : Ty × Option ItemId) : Safe w₀ (do
      let v ←
        match known with
        | some v => pure v
        | none =>
          checkRedeclaration decl.name.name scope decl.node.position
          addVariable frame decl made.1 scope
      if decl.isConstant && decl.initializer.any (·.isConstantLiteral) then
        change (·.modifyVariable v fun v => { v with isLiteral := true })
      record frame decl.node (.declare v made.2)
      applyAttributes an frame decl.attributes ⟨.var, v⟩ decl.node scope) := by
  have hlast : ∀ (ctor : Option ItemId) (v : ItemId), Safe w₀ (do
      if decl.isConstant && decl.initializer.any (·.isConstantLiteral) then
        change (·.modifyVariable v fun v => { v with isLiteral := true })
      record frame decl.node (.declare v ctor)
      applyAttributes an frame decl.attributes ⟨.var, v⟩ decl.node scope) := fun ctor v =>
    .guard (change_safe fun _ => .modifyVariable)
      (.bind record_safe fun _ => applyAttributes_safe han)
  cases known with
  | some v => exact .bind .pure (hlast made.2)
  | none =>
    refine .bind checkRedeclaration_safe fun _ => ?_
    exact .bind (addVariable_safe h.module) (hlast made.2)

@[grind ←] theorem detailVariable_safe (han : an.Reliable)
    (h : w₀.Hosts frame (Stmt.variableDecls decl)) : Safe w₀ (detailVariable an frame decl scope) := by
  have hparts := World.Hosts.cons_iff.1 (Stmt.variableDecls_eq decl ▸ h)
  unfold detailVariable
  refine .bind declared?_safe fun known => .bind (explicitType_safe han) fun explicit => ?_
  dsimp only
  split
  · rename_i e hinitializer
    have he : w₀.Hosts frame e.decls := Expr.optionDecls.eq_2 e ▸ hinitializer ▸ hparts.2
    exact .bind (.map (initializedType_safe han he)) (makeVariable_safe han h known)
  · exact .bind (uninitializedType_safe han) (makeVariable_safe han h known)

@[grind ←] theorem addLocal_safe {ident : Ident} {ty : Ty} {owner : Option ItemId} :
    Safe w₀ (addLocal frame ident ty owner scope) := addItem_safe (by simp)

end Variables

/-! ## Namespaces and aliases -/

@[grind ←] theorem spaceScope?_safe : Safe w₀ (spaceScope? frame node) := by
  unfold spaceScope?
  grind

theorem createSpace_assures {name : String} {v : Visibility} :
    Assures w₀ (createSpace frame node name v scope) fun w i => w.HasKind i .space := by
  unfold createSpace
  refine .after newScope_safe fun own => .bind (addItem_assures (by simp)) fun w item h₀ hitem => ?_
  exact .after setSpace_safe fun _ => .pure fun _ h₁ _ => h₁.hasKind hitem

/-- What a node was just given is filed under it. -/
theorem bind_recordOther {x : Analysis α} {Q : World → α → Prop} (h : w₀.Hosts frame [node.ofOther])
    (hx : ∀ w : World, w₀.Leads w → w.Sound → w.state.declared.lookup ⟨frame.id, node.id⟩ = some item →
      w.Ends Q (x w.state)) :
    Assures w₀ (recordDeclared frame node item >>= fun _ => x) Q := by
  intro w h₀ hw
  have hchange : w.Change (w.on { w.state with
      declared := (⟨frame.id, node.id⟩, item) :: w.state.declared }) :=
    { World.Change.refl w with
      declared := fun e he => by
        rcases List.mem_cons.1 he with rfl | hold
        · exact .inr (h₀.hosts h).files_other
        · exact .inl hold }
  exact (hx _ (h₀.trans hchange.leads) (hchange.sound hw) List.lookup_cons_self).after hchange.leads

/-- The namespace that is filed under a node has a scope. -/
theorem expectSpace_ends {w : World} {d : Detail} {what : String} (hw : w.Sound)
    (hdeclared : w.state.declared.lookup ⟨frame.id, node.id⟩ = some item) (hitem : w.HasKind item .space) :
    w.Ends (fun _ _ => True) ((do
      record frame node d
      expect what (← spaceScope? frame node) : Analysis ScopeId) w.state) := by
  have hends : w.Ends (fun _ _ => True) (record frame node d w.state) := record_safe w (.refl w) hw
  cases hrun : record frame node d w.state with
  | error e s =>
    rw [hrun] at hends
    rw [bind_error hrun]
    exact hends
  | ok a s =>
    obtain ⟨details, rfl⟩ := record_ok hrun
    obtain ⟨own, hown⟩ := SymbolTable.exists_ownScope?_of_kind? hitem
    have hspace : spaceScope? frame node { w.state with details } =
        .ok (some own) { w.state with details } := by
      show EStateM.Result.ok ((((w.state.declared.lookup ⟨frame.id, node.id⟩).bind w.table.item?)).bind
        Item.ownScope?) _ = _
      rw [hdeclared, Option.bind_some, hown]
    have hchange : w.Change (w.on { w.state with details }) := { World.Change.refl w with }
    rw [bind_ok hrun, bind_ok hspace]
    exact hchange.ends hw trivial

@[grind ←] theorem declareSpace_safe {name : String} {v : Visibility}
    (h : w₀.Hosts frame [node.ofOther]) : Safe w₀ (declareSpace frame node name v scope) := by
  unfold declareSpace
  refine .bind_look fun w h₀ _ => ?_
  have hlast : ∀ w', w.Leads w' → ∀ item, w'.HasKind item .space → Safe w' (do
      recordDeclared frame node item
      record frame node (.space item)
      expect "namespace without a scope" (← spaceScope? frame node)) :=
    fun w' h₁ item hitem => bind_recordOther ((h₀.trans h₁).hosts h) fun w h₂ hw hdeclared =>
      expectSpace_ends hw hdeclared (h₂.hasKind hitem)
  dsimp only [id]
  split
  · exact .bind_assures createSpace_assures fun w' item h₁ hitem => hlast w' h₁ item hitem
  · split
    · rename_i hkind
      refine .bind_assures (.pure fun w' h₁ _ => ?_) fun w' item h₁ hitem => hlast w' h₁ item hitem
      exact h₁.hasKind (eq_of_beq hkind)
    · exact .bind_assures (.throw rfl) fun w' item h₁ hitem => hlast w' h₁ item hitem

@[grind ←] theorem bindAliasDecl_safe {decl : AliasDecl} (h : w₀.Hosts frame [node.ofOther]) :
    Safe w₀ (bindAliasDecl frame node decl scope) := by
  unfold bindAliasDecl
  refine .bind_assures resolvePath_assures fun w target h₀ htarget => ?_
  split
  · exact failOther_safe
  · refine .bind checkRedeclaration_safe fun _ => ?_
    refine .bind (addItem_safe ?_) fun item => ?_
    · rintro j ⟨⟩
      exact htarget.hasItem
    · exact .bind (recordOther_safe (h₀.hosts h)) fun _ => record_safe

/-! ## Imports and exports -/

section Linkage

variable {module : ModuleId} {exports : ScopeId} {v : Visibility} {items : List ImportItem}

@[grind ←] theorem noLibrary_safe {request : String} :
    Safe w₀ (noLibrary request position : Analysis α) := .throw rfl

@[grind ←] theorem resolveRequest_safe {request : String} :
    Safe w₀ (resolveRequest request module position) := by
  unfold resolveRequest
  refine .bind .get fun s => ?_
  split
  · exact noLibrary_safe
  · refine .bind look_safe fun origin => ?_
    dsimp only
    split
    · exact .pure
    · exact .throw rfl

@[grind ←] theorem openDependency_safe (han : an.Reliable) {request : String} :
    Safe w₀ (openDependency an frame request position) := by
  unfold openDependency
  refine .bind resolveRequest_safe fun path => ?_
  refine .bind_assures (module_assures han) fun w id _ hid => ?_
  refine .bind (change_safe fun _ => .modifyModule) fun _ => ?_
  refine .bind (change_safe fun _ => .modifyModule) fun _ => ?_
  refine .bind_look fun w' h₁ _ => ?_
  rw [show w'.table.module? id = some _ from Array.getElem?_eq_getElem (h₁.hasModule hid)]
  exact .pure

theorem bindAliases_safe {name : String} {targets : List ItemId} (h : ∀ i ∈ targets, w₀.HasItem i) :
    Safe w₀ (targets.mapM fun target => bindAlias module scope name target v position) :=
  .mapM fun target htarget => bindAlias_safe (h target htarget)

@[grind ←] theorem bindSelected_safe : Safe w₀ (bindSelected module items exports scope v) := by
  unfold bindSelected
  refine .bind (.mapM fun item _ => .bind_look fun w _ hw => ?_) fun _ => .pure
  split
  · exact fail_safe rfl
  · exact bindAliases_safe fun i hi =>
      (World.hasTarget_of_isProper (hw.coherent.isProper_of_findLocal hi)).hasItem

/-- A module exports items that are there. -/
theorem hasItem_of_exportedItems {w : World} (hw : w.Sound) {e : String × ItemId}
    (he : e ∈ exportedItems w.table exports) : w.HasItem e.2 := by
  obtain ⟨i, hi, heq⟩ := List.mem_filterMap.1 he
  cases hscope : w.table.scope? exports with
  | none =>
    rw [hscope] at hi
    cases hi
  | some own =>
    rw [hscope] at hi
    have hthere := (hw.coherent.scopes exports own hscope).items i hi
    split at heq
    · rename_i target hresolve
      cases heq
      exact hw.coherent.lt_of_leadsTo hthere (SymbolTable.resolveAlias_eq_ok_iff.1 hresolve)
    · cases heq

@[grind ←] theorem bindAll_safe : Safe w₀ (bindAll module exports scope v position) := by
  unfold bindAll
  exact .bind_look fun w _ hw => .mapM fun e he => bindAlias_safe (hasItem_of_exportedItems hw he)

@[grind ←] theorem bindSpace_safe {ident : Ident} :
    Safe w₀ (bindSpace module ident exports scope position) := by
  unfold bindSpace
  refine .bind newScope_safe fun own => .bind checkRedeclaration_safe fun _ => ?_
  refine .bind (addItem_safe (by simp)) fun item => .bind setSpace_safe fun _ => ?_
  exact .bind bindAll_safe.discard fun _ => .pure

@[grind ←] theorem detailImport_safe (han : an.Reliable) {decl : ImportDecl} :
    Safe w₀ (detailImport an frame node decl scope) := by
  unfold detailImport
  grind

@[grind ←] theorem exportOwn_safe (h : w₀.HasModule frame.module) :
    Safe w₀ (exportOwn frame items scope) := by
  unfold exportOwn
  refine .bind (.mapM fun item _ => .bind_look fun w h₀ hw => ?_) fun _ => .pure
  split
  · exact missingName_safe
  · refine .mapM fun i hi => exportItem_safe (h₀.hasModule h) ?_
    exact (World.hasTarget_of_isProper (hw.coherent.isProper_of_findLocal hi)).hasItem

@[grind ←] theorem detailExport_safe (han : an.Reliable) {decl : ExportDecl}
    (h : w₀.HasModule frame.module) : Safe w₀ (detailExport an frame node decl scope) := by
  unfold detailExport
  refine .bind_module h fun own => .guard misplaced_safe ?_
  grind

end Linkage

/-! ## Control -/

section Control

@[grind ←] theorem detailBranch_safe (han : an.Reliable) {body : Stmt} (h : w₀.Hosts frame body.decls) :
    Safe w₀ (detailBranch an frame body scope) := by
  unfold detailBranch
  refine .bind newScope_safe fun inner => ?_
  split
  · rw [Stmt.decls] at h
    exact .bind (detailBlock_safe han h) fun _ => .pure
  · exact .bind (stmt_safe han h) fun _ => .pure

@[grind ←] theorem detailIf_safe (han : an.Reliable) {condition : Expr} {yes : Stmt} {no : Option Stmt}
    (hcondition : w₀.Hosts frame condition.decls) (hyes : w₀.Hosts frame yes.decls)
    (hno : w₀.Hosts frame (Stmt.optionDecls no)) :
    Safe w₀ (detailIf an frame node condition yes no scope) := by
  unfold detailIf
  refine .bind (expr_safe han hcondition).discard fun _ => .bind (detailBranch_safe han hyes) fun _ => ?_
  refine .bind (.optionMapM fun body hbody => detailBranch_safe han ?_) fun _ => record_safe
  rwa [hbody, Stmt.optionDecls] at hno

@[grind ←] theorem detailLoop_safe (han : an.Reliable) {condition : Expr} {body : Stmt} {tail : Bool}
    (hcondition : w₀.Hosts frame condition.decls) (hbody : w₀.Hosts frame body.decls) :
    Safe w₀ (detailLoop an frame node condition body tail scope) := by
  unfold detailLoop
  grind

@[grind ←] theorem detailFor_safe (han : an.Reliable) {init : Option Stmt} {condition update : Option Expr}
    {body : Stmt} (hinit : w₀.Hosts frame (Stmt.optionDecls init))
    (hcondition : w₀.Hosts frame (Expr.optionDecls condition))
    (hupdate : w₀.Hosts frame (Expr.optionDecls update)) (hbody : w₀.Hosts frame body.decls) :
    Safe w₀ (detailFor an frame node init condition update body scope) := by
  have hvalue : ∀ (o : Option Expr) (own : ScopeId), w₀.Hosts frame (Expr.optionDecls o) →
      Safe w₀ (o.toList.forM fun e => discard <| an.expr frame e own) := by
    intro o own ho
    refine .forM fun e he => .discard (expr_safe han ?_)
    rwa [Option.mem_toList.1 he, Expr.optionDecls] at ho
  unfold detailFor
  refine .bind newScope_safe fun own => .bind (.forM fun s hs => stmt_safe han ?_) fun _ => ?_
  · rwa [Option.mem_toList.1 hs, Stmt.optionDecls] at hinit
  refine .bind (hvalue condition own hcondition) fun _ => .bind (hvalue update own hupdate) fun _ => ?_
  exact .bind (.discard (detailBranch_safe han hbody)) fun _ => record_safe

@[grind ←] theorem elementType_safe (han : an.Reliable) {name : Ident} {ty : Option TypeExpr}
    {element : Ty} : Safe w₀ (elementType an frame name ty element scope) := by
  unfold elementType
  split
  · exact .pure
  · refine .bind (type_safe han) fun declared => .bind conversion_safe fun c => ?_
    dsimp only
    split
    · exact .bind typeText_safe fun _ => .bind typeText_safe fun _ => .bind (fail_safe rfl) fun _ => .pure
    · exact .pure

@[grind ←] theorem detailForEach_safe (han : an.Reliable) {name : Ident} {ty : Option TypeExpr}
    {iterable : Expr} {body : Stmt} (hiterable : w₀.Hosts frame iterable.decls)
    (hbody : w₀.Hosts frame body.decls) :
    Safe w₀ (detailForEach an frame node name ty iterable body scope) := by
  unfold detailForEach
  refine .bind (expr_safe han hiterable) fun info => ?_
  dsimp only
  split
  · refine .bind (signatures_safe han) fun _ => .bind look_safe fun found => ?_
    split
    · refine .bind newScope_safe fun own => .bind (elementType_safe han) fun declared => ?_
      refine .bind look_safe fun owner => .bind addLocal_safe fun v => ?_
      refine .bind linkThrows_safe fun _ => .bind (.discard (detailBranch_safe han hbody)) fun _ => ?_
      exact record_safe
    · exact .bind typeText_safe fun _ => fail_safe rfl
  · exact .bind typeText_safe fun _ => fail_safe rfl

@[grind ←] theorem checkReturn_safe {value : Option (Expr × Ty)} {expected : Ty} :
    Safe w₀ (checkReturn frame value expected position) := by
  unfold checkReturn
  grind

/-- A scope is owned by a function if it is owned as that of one. -/
@[grind ←] theorem detailReturn_safe (han : an.Reliable) {value : Option Expr}
    (h : w₀.Hosts frame (Expr.optionDecls value)) : Safe w₀ (detailReturn an frame node value scope) := by
  unfold detailReturn
  refine .bind_look fun w h₀ hw => ?_
  split
  · rename_i function hfunction
    have hkind : w.HasKind function .fn := hw.coherent.enclosingFunction hfunction
    have hlast : ∀ returned : Option (Expr × Ty), Safe w (do
        let f ← expect "return owner is not a function" (← look (·.function? function))
        let expected := if f.flags.generator then .void else f.returnType
        checkReturn frame returned expected node.position
        record frame node (.ret function expected)) := fun returned =>
      .bind_function hkind fun f => .bind checkReturn_safe fun _ => record_safe
    refine .bind (.optionMapM fun e he => .bind (expr_safe han ?_) fun _ => .pure) fun returned => ?_
    · rw [he, Expr.optionDecls] at h
      exact h₀.hosts h
    refine .bind .get fun s => ?_
    dsimp only
    split
    · refine .bind stopInferring_safe fun _ => .bind (change_safe fun _ => .modifyFunction) fun _ => ?_
      exact hlast returned
    · exact hlast returned
  · exact misplaced_safe

@[grind ←] theorem detailRaise_safe (han : an.Reliable) {value : Expr} (h : w₀.Hosts frame value.decls) :
    Safe w₀ (detailRaise an frame node value scope) := by
  unfold detailRaise
  grind

@[grind ←] theorem detailCatch_safe (han : an.Reliable) {owner : Option ItemId} {clause : CatchClause Stmt}
    {ty : Option Ty} (h : w₀.Hosts frame (Stmt.blockDecls clause.body)) :
    Safe w₀ (detailCatch an frame owner scope clause ty) := by
  unfold detailCatch
  refine .bind newScope_safe fun own => .bind (.optionMapM fun _ _ => addLocal_safe) fun var => ?_
  exact .bind (detailBlock_safe han h) fun _ => .pure

@[grind ←] theorem detailTry_safe (han : an.Reliable) {body : Block Stmt}
    {catches : List (CatchClause Stmt)} (hbody : w₀.Hosts frame (Stmt.blockDecls body))
    (hcatches : w₀.Hosts frame (Stmt.catchDecls catches)) :
    Safe w₀ (detailTry an frame node body catches scope) := by
  unfold detailTry
  refine .bind newScope_safe fun own => ?_
  refine .bind (change_safe fun _ => .modifyScope (fun _ => rfl) fun _ => rfl) fun _ => ?_
  refine .bind (.mapM fun _ _ => .optionMapM fun _ _ => type_safe han) fun types => ?_
  refine .bind (.alter fun w => { World.Change.refl w with }) fun _ => ?_
  refine .bind (detailBlock_safe han hbody) fun _ => ?_
  refine .bind look_safe fun owner => .bind (.mapM fun a ha => detailCatch_safe han ?_) fun _ => ?_
  · exact hcatches.subset (Stmt.decls_subset_of_catch (List.of_mem_zip ha).1)
  exact .bind look_safe fun _ => .bind (.forM fun _ _ => raise_safe) fun _ => record_safe

@[grind ←] theorem detailDelete_safe (han : an.Reliable) {value : Expr} {persistent : Bool}
    (h : w₀.Hosts frame value.decls) :
    Safe w₀ (detailDelete an frame node value persistent scope) := by
  unfold detailDelete
  grind

@[grind ←] theorem detailAlias_safe {decl : AliasDecl} (h : w₀.Hosts frame [node.ofOther]) :
    Safe w₀ (detailAlias frame node decl scope) := by
  unfold detailAlias
  grind

/-- A statement may be analysed in a frame that hosts it. -/
theorem detailStmt_safe (han : an.Reliable) {stmt : Stmt} (h : w₀.Hosts frame stmt.decls) :
    Safe w₀ (detailStmt an frame stmt scope) := by
  unfold detailStmt
  split <;> rw [Stmt.decls] at h
  case h_1 => grind
  case h_2 => exact detailVariable_safe han h
  case h_3 => exact .bind newScope_safe fun _ => detailBlock_safe han h
  case h_4 => exact detailReturn_safe han h
  case h_5 =>
    obtain ⟨hcondition, hbranches⟩ := World.Hosts.append_iff.1 h
    obtain ⟨hyes, hno⟩ := World.Hosts.append_iff.1 hbranches
    exact detailIf_safe han hcondition hyes hno
  case h_6 =>
    obtain ⟨hcondition, hbody⟩ := World.Hosts.append_iff.1 h
    exact detailLoop_safe han hcondition hbody
  case h_7 =>
    obtain ⟨hinit, hrest⟩ := World.Hosts.append_iff.1 h
    obtain ⟨hcondition, hrest⟩ := World.Hosts.append_iff.1 hrest
    obtain ⟨hupdate, hbody⟩ := World.Hosts.append_iff.1 hrest
    exact detailFor_safe han hinit hcondition hupdate hbody
  case h_8 =>
    obtain ⟨hiterable, hbody⟩ := World.Hosts.append_iff.1 h
    exact detailForEach_safe han hiterable hbody
  case h_9 | h_10 => exact record_safe
  case h_11 => exact detailRaise_safe han h
  case h_12 =>
    obtain ⟨hbody, hcatches⟩ := World.Hosts.append_iff.1 h
    exact detailTry_safe han hbody hcatches
  case h_13 => exact detailDelete_safe han h
  case h_14 => exact detailLocalFunction_safe han h
  case h_15 => exact detailLocalClass_safe han h
  case h_16 | h_17 => exact misplaced_safe
  case h_18 => exact detailExport_safe han h.module
  case h_19 => exact detailAlias_safe h

end Control

end Analysis

end SemanticAnalysis
