import SemanticAnalysis.Proofs.Permit.Classes

/-!
# Statements pay

A statement is worth the permits of its nodes, as an expression is. A variable and a namespace take a
part of theirs when they are declared. An alias is bound by attempts: one that fails has taken nothing,
and may be made again.
-/

namespace SemanticAnalysis

/-! ## Attempts -/

/-- The step takes what it is given if it succeeds, and then has the property; otherwise it takes
nothing. -/
def Attempts {α : Type} (cost : Holding) (x : Analysis α) (P : State → Prop) : Prop :=
  ∀ s held, s.Accounts (cost + held) →
    match x s with
    | .ok _ s' => s'.Accounts held ∧ s.Continues s' ∧ P s'
    | .error e s' => s'.Accounts (cost + held) ∧ s.Continues s' ∧ e.cause ≠ .alreadyDetailed

namespace Attempts

variable {α β : Type} {cost : Holding} {P : State → Prop} {x : Analysis α} {f : α → Analysis β}

theorem after (hx : Quiet x) (hf : ∀ a, Attempts cost (f a) P) : Attempts cost (x >>= f) P := by
  intro s held hs
  have hrun := hx s (cost + held) ((zero_add (cost + held)).symm ▸ hs)
  cases hxs : x s with
  | error e s' =>
    rw [Analysis.bind_error hxs]
    rw [hxs] at hrun
    exact hrun
  | ok a s' =>
    rw [Analysis.bind_ok hxs]
    rw [hxs] at hrun
    have hrest := hf a s' held ((zero_add (cost + held)) ▸ hrun.1)
    cases hfs : f a s' with
    | error e s'' =>
      rw [hfs] at hrest
      exact ⟨hrest.1, hrun.2.trans hrest.2.1, hrest.2.2⟩
    | ok b s'' =>
      rw [hfs] at hrest
      exact ⟨hrest.1, hrun.2.trans hrest.2.1, hrest.2.2⟩

theorem throw {e : Diagnostic} (he : e.cause ≠ .alreadyDetailed) :
    Attempts cost (MonadExcept.throw e : Analysis α) P := fun s _ hs => ⟨hs, .refl s, he⟩

theorem spends (hx : Attempts cost x P) : Spends cost x := by
  intro s held hs
  have hrun := hx s held hs
  cases hxs : x s with
  | ok a s' =>
    rw [hxs] at hrun
    exact ⟨(zero_add held).symm ▸ hrun.1, hrun.2.1⟩
  | error e s' =>
    rw [hxs] at hrun
    exact ⟨hrun.1.rest, hrun.2⟩

end Attempts

namespace Analysis

variable {frame : Frame} {node : Node} {scope : ScopeId} {position : Position} {an : Analyst}

/-! ## Aliases -/

/-- An alias that could not be bound may be bound later. -/
theorem bindAliasDecl_attempts {decl : AliasDecl} :
    Attempts (permits frame.id [node.id]) (bindAliasDecl frame node decl scope)
      fun s => (s.declared.lookup ⟨frame.id, node.id⟩).isSome := by
  let k : DetailKey := ⟨frame.id, node.id⟩
  unfold bindAliasDecl
  refine .after resolvePath_quiet fun target => ?_
  cases decl.localName? with
  | none => exact .throw (by simp [Diagnostic.other])
  | some name =>
    refine .after checkRedeclaration_quiet fun _ => .after addItem_quiet fun item s held hs => ?_
    -- nothing fails from here on
    have hpaid : s.Accounts (k.declaring + (frame.detailing node + held)) := by
      refine hs.of_le fun p => ?_
      simp only [permits_cons, DetailKey.all, Frame.detailing, k, Pi.add_apply]
      omega
    let s₁ : State := { s with declared := (k, item) :: s.declared }
    have hrun : recordDeclared frame node item s = .ok ⟨⟩ s₁ := rfl
    have hspends : Spends k.declaring (recordDeclared frame node item) := recordDeclared_spends
    have hdeclared := hspends s _ hpaid
    rw [hrun] at hdeclared
    have hpaid₁ : s₁.Accounts (frame.detailing node + held) :=
      zero_add (frame.detailing node + held) ▸ hdeclared.1
    obtain ⟨details, hrecord, hs₂⟩ := record_gives (d := .aliasing item) hpaid₁
    rw [bind_ok hrun, hrecord]
    refine ⟨hs₂, hdeclared.2.trans { State.Continues.refl s₁ with }, ?_⟩
    show (((k, item) :: s.declared).lookup k).isSome
    rw [List.lookup_cons_self]
    rfl

theorem detailAlias_spends {decl : AliasDecl} :
    Spends (permits frame.id [node.id]) (detailAlias frame node decl scope) := by
  unfold detailAlias
  refine .after declared?_quiet fun known => ?_
  split
  · exact bindAliasDecl_attempts.spends
  · exact .pure

/-! ## Variables -/

section Variables

variable {decl : VariableDecl Expr}

@[grind ←] theorem declaredType_quiet (han : an.Sparing) {written : TypeExpr} :
    Quiet (declaredType an frame decl written scope) := by
  unfold declaredType
  grind

@[grind ←] theorem addVariable_quiet {ty : Ty} : Quiet (addVariable frame decl ty scope) := by
  unfold addVariable
  grind

theorem predeclareVariable_spends (han : an.Sparing) :
    Spends (DetailKey.declaring ⟨frame.id, decl.node.id⟩) (predeclareVariable an frame decl scope) := by
  unfold predeclareVariable
  split
  · exact .pure
  · refine .after (declaredType_quiet han) fun ty => .after checkRedeclaration_quiet fun _ => ?_
    exact .after addVariable_quiet fun v => recordDeclared_spends

theorem initializedType_spends (han : an.Sparing) {explicit : Option Ty} {initializer : Expr} :
    Spends (permits frame.id initializer.ids)
      (initializedType an frame decl explicit initializer scope) := by
  unfold initializedType
  refine (expr_spends han).before fun info => ?_
  grind

@[grind ←] theorem uninitializedType_quiet (han : an.Sparing) {explicit : Option Ty} :
    Quiet (uninitializedType an decl explicit) := by
  unfold uninitializedType
  cases explicit with
  | none => exact failOther_quiet
  | some ty =>
    refine .guard failOther_quiet ?_
    cases ty.valueClass? with
    | none => exact .pure
    | some cls =>
      refine .bind (synthesis_quiet han) fun _ => .bind look_quiet fun found => ?_
      cases found.bind (·.defaultConstructor) with
      | none => exact .bind itemName_quiet fun _ => fail_quiet (by simp)
      | some ctor => exact .pure

@[grind ←] theorem explicitType_quiet (han : an.Sparing) {known : Option ItemId} :
    Quiet (explicitType an frame decl known scope) := by
  unfold explicitType
  grind

theorem detailVariable_spends (han : an.Sparing) :
    Spends ((Stmt.declare decl).cost frame.id) (detailVariable an frame decl scope) := by
  have hlast (literal : Bool) (ctor : Option ItemId) (v : ItemId) :
      Spends (frame.detailing decl.node) (do
        if literal then
          change (·.modifyVariable v fun v => { v with isLiteral := true })
        record frame decl.node (.declare v ctor)
        applyAttributes an frame decl.attributes ⟨.var, v⟩ decl.node scope) :=
    .guard (change_quiet fun _ => .modifyVariable)
      (record_spends.before fun _ => applyAttributes_quiet han)
  have hcost : permits frame.id (Expr.optionIds decl.initializer) + frame.detailing decl.node ≤
      (Stmt.declare decl).cost frame.id := by
    intro p
    simp only [Stmt.cost, Stmt.variableIds_eq, permits_cons, DetailKey.all, Frame.detailing,
      Pi.add_apply, Pi.sub_apply]
    omega
  refine .of_le ?_ hcost
  unfold detailVariable
  refine .after declared?_quiet fun known => .after (explicitType_quiet han) fun explicit => ?_
  cases decl.initializer with
  | none =>
    rw [Expr.optionIds, permits_nil, zero_add]
    refine .after (uninitializedType_quiet han) fun made => ?_
    cases known with
    | some v => exact .after .pure (hlast _ _)
    | none => exact .after checkRedeclaration_quiet fun _ => .after addVariable_quiet (hlast _ _)
  | some e =>
    rw [Expr.optionIds]
    refine (initializedType_spends han).map.bind fun made => ?_
    cases known with
    | some v => exact .after .pure (hlast _ _)
    | none => exact .after checkRedeclaration_quiet fun _ => .after addVariable_quiet (hlast _ _)

@[grind ←] theorem addLocal_quiet {ident : Ident} {ty : Ty} {owner : Option ItemId} :
    Quiet (addLocal frame ident ty owner scope) := by
  unfold addLocal
  grind

end Variables

/-! ## Namespaces -/

@[grind ←] theorem spaceScope?_quiet : Quiet (spaceScope? frame node) := by
  unfold spaceScope?
  grind

@[grind ←] theorem createSpace_quiet {name : String} {v : Visibility} :
    Quiet (createSpace frame node name v scope) := by
  unfold createSpace
  grind

theorem declareSpace_spends {name : String} {v : Visibility} :
    Spends (permits frame.id [node.id]) (declareSpace frame node name v scope) := by
  have hlast (item : ItemId) : Spends (permits frame.id [node.id]) (do
      recordDeclared frame node item
      record frame node (.space item)
      expect "namespace without a scope" (← spaceScope? frame node)) := by
    refine .of_le (recordDeclared_spends.bind fun _ => record_spends.before fun _ =>
      .bind spaceScope?_quiet fun _ => expect_quiet) fun p => ?_
    simp only [permits_cons, DetailKey.all, Frame.detailing, Pi.add_apply]
    omega
  unfold declareSpace
  refine .after look_quiet fun table => ?_
  dsimp only
  split
  · exact .after createSpace_quiet hlast
  · split
    · exact .after .pure hlast
    · exact .after (.throw (by simp)) hlast

/-! ## Imports and exports -/

section Linkage

variable {request : String} {module : ModuleId} {exports : ScopeId} {items : List ImportItem}

@[grind ←] theorem resolveRequest_quiet : Quiet (resolveRequest request module position) := by
  unfold resolveRequest
  refine .bind .get fun s => ?_
  cases s.library with
  | none => exact fail_quiet (by simp)
  | some library =>
    refine .bind look_quiet fun origin => ?_
    dsimp only
    split
    · exact .pure
    · exact .throw (by simp [RequestFault.placed])

@[grind ←] theorem openDependency_quiet (han : an.Sparing) :
    Quiet (openDependency an frame request position) := by
  unfold openDependency
  refine .bind resolveRequest_quiet fun path => .bind (module_quiet han) fun id => ?_
  refine .bind (change_quiet fun _ => .modifyModule) fun _ => ?_
  exact .bind (change_quiet fun _ => .modifyModule) fun _ => .bind look_quiet fun _ => expect_quiet

@[grind ←] theorem bindSelected_quiet {v : Visibility} :
    Quiet (bindSelected module items exports scope v) := by
  unfold bindSelected
  refine .bind (.mapM fun item => .bind look_quiet fun targets => ?_) fun bound => .pure
  cases targets with
  | nil => exact fail_quiet (by simp)
  | cons target rest => exact .mapM fun _ => bindAlias_quiet

@[grind ←] theorem bindAll_quiet {v : Visibility} :
    Quiet (bindAll module exports scope v position) := by
  unfold bindAll
  grind

@[grind ←] theorem bindSpace_quiet {ident : Ident} :
    Quiet (bindSpace module ident exports scope position) := by
  unfold bindSpace
  grind

theorem detailImport_spends (han : an.Sparing) {decl : ImportDecl} :
    Spends (permits frame.id [node.id]) (detailImport an frame node decl scope) := by
  have hlast (source : ModuleId) (bound : List ItemId) :
      Spends (permits frame.id [node.id]) (record frame node (.importing source bound)) :=
    .leaf record_spends
  unfold detailImport
  refine .after (openDependency_quiet han) fun source => ?_
  dsimp only
  split
  · exact .after bindSelected_quiet (hlast _)
  · exact .after bindSpace_quiet.map (hlast _)
  · exact .after bindAll_quiet (hlast _)

@[grind ←] theorem exportOwn_quiet : Quiet (exportOwn frame items scope) := by
  unfold exportOwn
  refine .bind (.mapM fun item => .bind look_quiet fun targets => ?_) fun bound => .pure
  cases targets with
  | nil => exact missingName_quiet
  | cons target rest => exact .mapM fun _ => exportItem_quiet

theorem detailExport_spends (han : an.Sparing) {decl : ExportDecl} :
    Spends (permits frame.id [node.id]) (detailExport an frame node decl scope) := by
  have hlast (aliases : List ItemId) :
      Spends (permits frame.id [node.id]) (record frame node (.exporting aliases)) :=
    .leaf record_spends
  unfold detailExport
  refine .after look_quiet fun found => .after expect_quiet fun own => .guard misplaced_quiet ?_
  split
  · exact .after exportOwn_quiet hlast
  · refine .after (openDependency_quiet han) fun source => ?_
    split
    · exact .after bindAll_quiet hlast
    · exact .after bindSelected_quiet hlast

end Linkage

/-! ## Branches and loops -/

section Control

variable {body : Stmt}

theorem detailBranch_spends (han : an.Sparing) :
    Spends (permits frame.id body.ids) (detailBranch an frame body scope) := by
  unfold detailBranch
  refine .after newScope_quiet fun inner => ?_
  split
  · rw [Stmt.ids]
    exact (detailBlock_spends han).before fun _ => .pure
  · exact ((stmt_spends han).of_le (Stmt.cost_le _ _)).before fun _ => .pure

theorem detailIf_spends (han : an.Sparing) {condition : Expr} {yes : Stmt} {no : Option Stmt} :
    Spends (permits frame.id (Stmt.ifElse node condition yes no).ids)
      (detailIf an frame node condition yes no scope) := by
  unfold detailIf
  rw [Stmt.ids]
  refine .node ?_
  rw [permits_append, permits_append, add_assoc, add_assoc]
  refine (expr_spends han).discard.bind fun _ => (detailBranch_spends han).bind fun yesScope => ?_
  refine .bind ?_ fun noScope => record_spends
  cases no with
  | none => exact .pure
  | some body => exact (detailBranch_spends han).map

theorem detailLoop_spends (han : an.Sparing) {condition : Expr} {tail : Bool} :
    Spends (permits frame.id (Stmt.loop node condition body tail).ids)
      (detailLoop an frame node condition body tail scope) := by
  unfold detailLoop
  rw [Stmt.ids]
  refine .node ?_
  rw [permits_append]
  cases tail with
  | false =>
    rw [add_assoc]
    refine (expr_spends han).discard.bind fun _ => ?_
    exact (detailBranch_spends han).bind fun _ => record_spends
  | true =>
    rw [add_comm (permits frame.id condition.ids), add_assoc]
    refine (detailBranch_spends han).bind fun _ => ?_
    exact (expr_spends han).discard.bind fun _ => record_spends

theorem optionExpr_spends (han : an.Sparing) {e : Option Expr} :
    Spends (permits frame.id (Expr.optionIds e))
      (e.toList.forM fun e => discard <| an.expr frame e scope) := by
  cases e with
  | none => exact .pure
  | some e => exact (expr_spends han).discard.before fun _ => .pure

theorem detailFor_spends (han : an.Sparing) {init : Option Stmt} {condition update : Option Expr} :
    Spends (permits frame.id (Stmt.forLoop node init condition update body).ids)
      (detailFor an frame node init condition update body scope) := by
  unfold detailFor
  rw [Stmt.ids]
  refine .node ?_
  rw [permits_append, permits_append, permits_append, add_assoc, add_assoc, add_assoc]
  refine .after newScope_quiet fun own => .bind ?_ fun _ => ?_
  · cases init with
    | none => exact .pure
    | some s => exact ((stmt_spends han).of_le (s.cost_le frame.id)).before fun _ => .pure
  · refine (optionExpr_spends han).bind fun _ => (optionExpr_spends han).bind fun _ => ?_
    exact (detailBranch_spends han).discard.bind fun _ => record_spends

@[grind ←] theorem elementType_quiet (han : an.Sparing) {name : Ident} {ty : Option TypeExpr}
    {element : Ty} : Quiet (elementType an frame name ty element scope) := by
  unfold elementType
  grind

theorem detailForEach_spends (han : an.Sparing) {name : Ident} {ty : Option TypeExpr}
    {iterable : Expr} :
    Spends (permits frame.id (Stmt.forEach node name ty iterable body).ids)
      (detailForEach an frame node name ty iterable body scope) := by
  have hmissing {ty : Ty} : Quiet (do
      fail node.position (.missingIterator (← typeText ty)) : Analysis Unit) :=
    .bind typeText_quiet fun _ => fail_quiet (by simp)
  unfold detailForEach
  rw [Stmt.ids]
  refine .node ?_
  rw [permits_append, add_assoc]
  refine (expr_spends han).bind fun info => ?_
  dsimp only
  split
  · refine .after (signatures_quiet han) fun _ => .after look_quiet fun found => ?_
    split
    · refine .after newScope_quiet fun own => .after (elementType_quiet han) fun declared => ?_
      refine .after look_quiet fun owner => .after addLocal_quiet fun v => ?_
      refine .after linkThrows_quiet fun _ => ?_
      exact (detailBranch_spends han).discard.bind fun _ => record_spends
    · exact hmissing.of_le fun _ => Nat.zero_le _
  · exact hmissing.of_le fun _ => Nat.zero_le _

/-! ## Results and errors -/

@[grind ←] theorem checkReturn_quiet {value : Option (Expr × Ty)} {expected : Ty} :
    Quiet (checkReturn frame value expected position) := by
  unfold checkReturn
  grind

theorem detailReturn_spends (han : an.Sparing) {value : Option Expr} :
    Spends (permits frame.id (Stmt.ret node value).ids) (detailReturn an frame node value scope) := by
  unfold detailReturn
  rw [Stmt.ids]
  refine .node (.after look_quiet fun found => ?_)
  split
  · refine .bind ?_ fun returned => ?_
    · cases value with
      | none => exact .pure
      | some e => exact ((expr_spends han).before fun _ => .pure).map
    · have hlast (function : ItemId) : Spends (frame.detailing node) (do
          let f ← expect "return owner is not a function" (← look (·.function? function))
          let expected := if f.flags.generator then .void else f.returnType
          checkReturn frame returned expected node.position
          record frame node (.ret function expected)) := by
        refine .after look_quiet fun found => .after expect_quiet fun f => ?_
        exact .after checkReturn_quiet fun _ => record_spends
      refine .after .get fun s => ?_
      dsimp only
      split
      · exact .after stopInferring_quiet fun _ => .after (change_quiet fun _ => .modifyFunction)
          fun _ => hlast _
      · exact hlast _
  · exact misplaced_quiet.of_le fun _ => Nat.zero_le _

theorem detailRaise_spends (han : an.Sparing) {value : Expr} :
    Spends (permits frame.id (Stmt.raise node value).ids) (detailRaise an frame node value scope) := by
  unfold detailRaise
  rw [Stmt.ids]
  exact .node ((expr_spends han).bind fun info => .after raise_quiet fun _ => record_spends)

theorem detailCatch_spends (han : an.Sparing) {owner : Option ItemId} {clause : CatchClause Stmt}
    {ty : Option Ty} :
    Spends (permits frame.id (Stmt.clauseIds clause)) (detailCatch an frame owner scope clause ty) := by
  have hbody : permits frame.id (Stmt.blockIds clause.body) ≤ permits frame.id (Stmt.clauseIds clause) := by
    rw [Stmt.clauseIds_eq, permits_cons]
    exact fun _ => Nat.le_add_left _ _
  unfold detailCatch
  refine .after newScope_quiet fun own => .after ?_ fun var => ?_
  · grind
  · exact ((detailBlock_spends han).of_le hbody).before fun _ => .pure

theorem detailTry_spends (han : an.Sparing) {block : Block Stmt} {catches : List (CatchClause Stmt)} :
    Spends (permits frame.id (Stmt.tryCatch node block catches).ids)
      (detailTry an frame node block catches scope) := by
  unfold detailTry
  rw [Stmt.ids]
  refine .node ?_
  rw [permits_append, permits_catchIds, add_assoc]
  refine .after newScope_quiet fun own => .after (change_quiet fun _ => .modifyScope) fun _ => ?_
  refine .after ?_ fun types => .after (.alter fun s => { State.Steady.refl s with }) fun _ => ?_
  · grind
  refine (detailBlock_spends han).bind fun _ => .after look_quiet fun owner => ?_
  have hclauses := sum_zip_le catches types fun c => permits frame.id (Stmt.clauseIds c)
  refine .bind (.of_le (.mapM fun _ _ => detailCatch_spends han) hclauses) fun details => ?_
  exact .after look_quiet fun table => .after (.forM fun _ => raise_quiet) fun _ => record_spends

theorem detailDelete_spends (han : an.Sparing) {value : Expr} {persistent : Bool} :
    Spends (permits frame.id (Stmt.delete node value persistent).ids)
      (detailDelete an frame node value persistent scope) := by
  unfold detailDelete
  rw [Stmt.ids]
  refine .node ((expr_spends han).bind fun info => ?_)
  dsimp only
  split
  · exact .after .pure fun _ => record_spends
  · exact .after (synthesis_quiet han) fun _ => .after look_quiet fun _ => record_spends

/-! ## All statements -/

theorem detailStmt_spends (han : an.Sparing) {stmt : Stmt} :
    Spends (stmt.cost frame.id) (detailStmt an frame stmt scope) := by
  cases stmt with
  | expr node e => exact .node ((expr_spends han).discard.bind fun _ => record_spends)
  | declare decl => exact detailVariable_spends han
  | block b => exact .after newScope_quiet fun _ => detailBlock_spends han
  | ret node value => exact detailReturn_spends han
  | ifElse node condition yes no => exact detailIf_spends han
  | loop node condition body tail => exact detailLoop_spends han
  | forLoop node init condition update body => exact detailFor_spends han
  | forEach node name ty iterable body => exact detailForEach_spends han
  | leave node => exact .leaf record_spends
  | next node => exact .leaf record_spends
  | raise node value => exact detailRaise_spends han
  | tryCatch node body catches => exact detailTry_spends han
  | delete node value persistent => exact detailDelete_spends han
  | function decl => exact detailLocalFunction_spends han
  | cls decl => exact detailLocalClass_spends han
  | space node name visibility body => exact misplaced_quiet.of_le fun _ => Nat.zero_le _
  | importing node decl => exact misplaced_quiet.of_le fun _ => Nat.zero_le _
  | exporting node decl => exact detailExport_spends han
  | aliasing node decl => exact detailAlias_spends

end Control

end Analysis

end SemanticAnalysis
