import SemanticAnalysis.Proofs.Faithful.Classes

/-!
# Statements are faithful

Variables, imports and exports, bodies and control flow. A class whose bodies are analysed has been synthesised
before, so it may be moved to its last stage (`detailClassBodies_faithful`).
-/

namespace SemanticAnalysis.Analysis

variable {α : Type} {frame : Frame} {node : Node} {scope : ScopeId}
variable {position : Position} {an : Analyst}

/-! ## Variables, namespaces and aliases -/

section Variables

variable {decl : VariableDecl Expr}

@[grind ←] theorem declaredType_faithful (han : an.Faithful) {written : TypeExpr} :
    Faithful (declaredType an frame decl written scope) := by
  unfold declaredType
  grind

@[grind ←] theorem addVariable_faithful {ty : Ty} :
    Faithful (addVariable frame decl ty scope) := by
  unfold addVariable
  refine .bind look_faithful fun owner => .bind (addItem_faithful (by simp)) fun item => ?_
  exact .guard (.discard exportItem_faithful) .pure

@[grind ←] theorem predeclareVariable_faithful (han : an.Faithful) :
    Faithful (predeclareVariable an frame decl scope) := by
  unfold predeclareVariable
  grind

@[grind ←] theorem initializedType_faithful (han : an.Faithful) {explicit : Option Ty} {initializer : Expr} :
    Faithful (initializedType an frame decl explicit initializer scope) := by
  unfold initializedType
  grind

@[grind ←] theorem uninitializedType_faithful (han : an.Faithful) {explicit : Option Ty} :
    Faithful (uninitializedType an decl explicit) := by
  unfold uninitializedType
  dsimp only
  split
  · exact failOther_faithful
  · refine .guard failOther_faithful ?_
    grind

@[grind ←] theorem explicitType_faithful (han : an.Faithful) {known : Option ItemId} :
    Faithful (explicitType an frame decl known scope) := by
  unfold explicitType
  grind

@[grind ←] theorem detailVariable_faithful (han : an.Faithful) :
    Faithful (detailVariable an frame decl scope) := by
  unfold detailVariable
  refine .bind declared?_faithful fun known => .bind (explicitType_faithful han) fun explicit => ?_
  dsimp only
  split
  · refine .bind (.map (initializedType_faithful han)) fun made => ?_
    cases known <;> grind
  · refine .bind (uninitializedType_faithful han) fun made => ?_
    cases known <;> grind

@[grind ←] theorem addLocal_faithful {ident : Ident} {ty : Ty} {owner : Option ItemId} :
    Faithful (addLocal frame ident ty owner scope) := by
  unfold addLocal
  grind

end Variables

@[grind ←] theorem spaceScope?_faithful : Faithful (spaceScope? frame node) := by
  unfold spaceScope?
  grind

@[grind ←] theorem createSpace_faithful {name : String} {v : Visibility} :
    Faithful (createSpace frame node name v scope) := by
  unfold createSpace
  refine .bind newScope_faithful fun own => .bind (addItem_faithful (by simp)) fun item => ?_
  exact setOwner_faithful.bind fun _ => .pure

@[grind ←] theorem declareSpace_faithful {name : String} {v : Visibility} :
    Faithful (declareSpace frame node name v scope) := by
  unfold declareSpace
  grind

@[grind ←] theorem bindAliasDecl_faithful {decl : AliasDecl} :
    Faithful (bindAliasDecl frame node decl scope) := by
  unfold bindAliasDecl
  refine .bind resolvePath_faithful fun target => ?_
  split
  · exact failOther_faithful
  · refine .bind checkRedeclaration_faithful fun _ => .bind (addItem_faithful (by simp)) fun item => ?_
    exact recordDeclared_faithful.bind fun _ => record_faithful

/-! ## Imports and exports -/

section Linkage

variable {module : ModuleId} {exports : ScopeId} {v : Visibility} {items : List ImportItem}

@[grind ←] theorem noLibrary_faithful {request : String} :
    Faithful (noLibrary request position : Analysis α) := by
  unfold noLibrary
  grind

@[grind ←] theorem resolveRequest_faithful {request : String} :
    Faithful (resolveRequest request module position) := by
  unfold resolveRequest
  grind

@[grind ←] theorem openDependency_faithful (han : an.Faithful) {request : String} :
    Faithful (openDependency an frame request position) := by
  unfold openDependency
  grind

@[grind ←] theorem bindSelected_faithful :
    Faithful (bindSelected module items exports scope v) := by
  unfold bindSelected
  grind

@[grind ←] theorem bindAll_faithful : Faithful (bindAll module exports scope v position) := by
  unfold bindAll
  grind

@[grind ←] theorem bindSpace_faithful {ident : Ident} :
    Faithful (bindSpace module ident exports scope position) := by
  unfold bindSpace
  refine .bind newScope_faithful fun own => .bind checkRedeclaration_faithful fun _ => ?_
  refine .bind (addItem_faithful (by simp)) fun item => .bind setOwner_faithful fun _ => ?_
  exact .bind (.discard bindAll_faithful) fun _ => .pure

@[grind ←] theorem detailImport_faithful (han : an.Faithful) {decl : ImportDecl} :
    Faithful (detailImport an frame node decl scope) := by
  unfold detailImport
  grind

@[grind ←] theorem exportOwn_faithful : Faithful (exportOwn frame items scope) := by
  unfold exportOwn
  grind

@[grind ←] theorem detailExport_faithful (han : an.Faithful) {decl : ExportDecl} :
    Faithful (detailExport an frame node decl scope) := by
  unfold detailExport
  grind

end Linkage

/-! ## Bodies -/

section Bodies

variable {item : ItemId}

@[grind ←] theorem detailBlock_faithful (han : an.Faithful) {b : Block Stmt} :
    Faithful (detailBlock an frame b scope) := by
  unfold detailBlock
  grind

@[grind ←] theorem stopInferring_faithful : Faithful (stopInferring item) := by
  unfold stopInferring
  grind

/-- The function of a lambda is new when it is given its parameters. -/
theorem lambdaFunction_faithful (han : an.Faithful) {params : List (Param Expr)} (name : String) (result : Ty) :
    Faithful (do
      let own ← newScope scope
      let item ← addItem
        { name, scope
          module := frame.module
          visibility := .scopeOnly
          position := node.position
          entity := .fn { scope := own, returnType := result, flags := { lambda := true } } }
      setOwner own (.fn item)
      let (params, paramVariables) ← bindParameters an frame params item own
      change (·.modifyFunction item fun f => { f with params, paramVariables })
      return (item, own)) := by
  refine Within.faithful_of_vouched fun s₀ hs₀ => ?_
  refine .bind_faithful hs₀ newScope_faithful (.vouched hs₀) fun own => ?_
  refine .bind (.addItem hs₀ (by simp)) fun item => ?_
  refine .bind_faithful hs₀ setOwner_faithful (State.lasts_builds hs₀) fun _ => ?_
  refine .bind_faithful hs₀ (bindParameters_faithful han) (State.lasts_builds hs₀) fun bound => ?_
  refine .bind (G := fun _ s => s₀.Vouched s) (.change fun s h₀ hs => ?_) fun _ => .pure fun _ hs => hs
  exact ⟨h₀.modifyFunction hs.fresh (.inr hs.unfiled), hs.vouched.modifyFunction⟩

@[grind ←] theorem declareLambda_faithful (han : an.Faithful) {params : List (Param Expr)}
    {returnType : Option TypeExpr} :
    Faithful (declareLambda an frame node params returnType scope) := by
  unfold declareLambda
  refine .bind (.alter fun _ => rfl) fun _ => .bind .get fun s => ?_
  dsimp only
  split
  · exact .bind (type_faithful han) (lambdaFunction_faithful han _)
  · exact .bind .pure (lambdaFunction_faithful han _)

@[grind ←] theorem detailLambda_faithful (han : an.Faithful) {params : List (Param Expr)}
    {returnType : Option TypeExpr} {body : Block Stmt} :
    Faithful (detailLambda an frame node params returnType body scope) := by
  unfold detailLambda
  refine .bind (declareLambda_faithful han) fun made => .guard (.alter fun _ => rfl) ?_
  refine .bind (andFinally_faithful (detailBlock_faithful han) stopInferring_faithful) fun _ => ?_
  grind

@[grind ←] theorem detailDefault_faithful (han : an.Faithful) {written : Param Expr} {expected : Ty} :
    Faithful (detailDefault an frame scope written expected) := by
  unfold detailDefault
  grind

@[grind ←] theorem implicitSuperCall_faithful (han : an.Faithful) {cls parent : ItemId} :
    Faithful (implicitSuperCall an cls position parent) := by
  unfold implicitSuperCall
  grind

@[grind ←] theorem implicitSuperCalls_faithful (han : an.Faithful) :
    Faithful (implicitSuperCalls an item scope position) := by
  unfold implicitSuperCalls
  grind

@[grind ←] theorem detailFunctionBody_faithful (han : an.Faithful) {decl : FunctionDef} :
    Faithful (detailFunctionBody an frame decl item) := by
  unfold detailFunctionBody
  refine .bind look_faithful fun known => .bind expect_faithful fun entry => ?_
  split
  · exact .pure
  refine .bind expect_faithful fun f => ?_
  split
  · exact .pure
  refine .bind (.forM fun _ => (detailDefault_faithful han)) fun _ => ?_
  grind

@[grind ←] theorem detailLocalFunction_faithful (han : an.Faithful) {decl : FunctionDef} :
    Faithful (detailLocalFunction an frame decl scope) := by
  unfold detailLocalFunction
  grind

@[grind ←] theorem detailField_faithful (han : an.Faithful) {field : FieldDecl Expr} :
    Faithful (detailField an frame scope field) := by
  unfold detailField
  refine .bind declared?_faithful fun known => ?_
  split
  · exact .pure
  split
  · refine .bind look_faithful fun _ => .bind (expr_faithful han) fun info => ?_
    grind
  · grind

@[grind ←] theorem detailMemberBodies_faithful (han : an.Faithful) {members : List FunctionDef} :
    Faithful (detailMemberBodies an frame members) := by
  unfold detailMemberBodies
  grind

@[grind ←] theorem detailClassBodies_faithful (han : an.Faithful) : Faithful (detailClassBodies an item) := by
  refine Within.faithful_of_vouched fun s₀ hs₀ => ?_
  unfold detailClassBodies
  refine .bind (Within.ask han hs₀ (.synthesis item)) fun _ => .bind_classSource fun known => ?_
  split
  · exact .pure fun _ hs => hs.1.1
  · split
    · exact .pure fun _ hs => hs.1.1
    refine .bind (setStage_asked hs₀ (by decide)) fun _ => ?_
    refine (Within.of_faithful hs₀ ?_ (.vouched hs₀)).imp (fun _ hs => hs.1) fun _ _ hs => hs
    refine .bind classScope_faithful fun scope => .bind (.forM fun _ => detailField_faithful han) fun _ => ?_
    refine .bind (.discard (detailMemberBodies_faithful han)) fun _ => .bind .get fun s => ?_
    refine .bind (detailMemberBodies_faithful han) fun synthesized => ?_
    refine .bind (change_faithful fun _ => .modifyClass fun _ => ⟨rfl, rfl, rfl⟩) fun _ => ?_
    exact record_faithful.bind fun _ => applyAttributes_faithful han

@[grind ←] theorem detailLocalClass_faithful (han : an.Faithful) {decl : ClassDef} :
    Faithful (detailLocalClass an frame decl scope) := by
  unfold detailLocalClass
  grind

end Bodies

/-! ## Control -/

section Control

@[grind ←] theorem detailBranch_faithful (han : an.Faithful) {body : Stmt} :
    Faithful (detailBranch an frame body scope) := by
  unfold detailBranch
  grind

@[grind ←] theorem detailIf_faithful (han : an.Faithful) {condition : Expr} {yes : Stmt} {no : Option Stmt} :
    Faithful (detailIf an frame node condition yes no scope) := by
  unfold detailIf
  grind

@[grind ←] theorem detailLoop_faithful (han : an.Faithful) {condition : Expr} {body : Stmt} {tail : Bool} :
    Faithful (detailLoop an frame node condition body tail scope) := by
  unfold detailLoop
  grind

@[grind ←] theorem detailFor_faithful (han : an.Faithful) {init : Option Stmt} {condition update : Option Expr}
    {body : Stmt} :
    Faithful (detailFor an frame node init condition update body scope) := by
  unfold detailFor
  grind

@[grind ←] theorem elementType_faithful (han : an.Faithful) {name : Ident} {ty : Option TypeExpr} {element : Ty} :
    Faithful (elementType an frame name ty element scope) := by
  unfold elementType
  grind

@[grind ←] theorem detailForEach_faithful (han : an.Faithful) {name : Ident} {ty : Option TypeExpr} {iterable : Expr}
    {body : Stmt} :
    Faithful (detailForEach an frame node name ty iterable body scope) := by
  unfold detailForEach
  refine .bind (expr_faithful han) fun info => ?_
  dsimp only
  split
  · refine .bind (han.ask _) fun _ => .bind look_faithful fun found => ?_
    split
    · refine .bind newScope_faithful fun own => .bind (elementType_faithful han) fun declared => ?_
      refine .bind look_faithful fun owner => .bind addLocal_faithful fun v => ?_
      grind
    · grind
  · grind

@[grind ←] theorem checkReturn_faithful {value : Option (Expr × Ty)} {expected : Ty} :
    Faithful (checkReturn frame value expected position) := by
  unfold checkReturn
  grind

@[grind ←] theorem detailReturn_faithful (han : an.Faithful) {value : Option Expr} :
    Faithful (detailReturn an frame node value scope) := by
  unfold detailReturn
  refine .bind look_faithful fun function => ?_
  split
  · refine .bind (.optionMapM fun e => .bind (expr_faithful han) fun _ => .pure) fun returned => ?_
    refine .bind .get fun s => ?_
    grind
  · exact misplaced_faithful

@[grind ←] theorem detailRaise_faithful (han : an.Faithful) {value : Expr} :
    Faithful (detailRaise an frame node value scope) := by
  unfold detailRaise
  grind

@[grind ←] theorem detailCatch_faithful (han : an.Faithful) {owner : Option ItemId} {clause : CatchClause Stmt}
    {ty : Option Ty} :
    Faithful (detailCatch an frame owner scope clause ty) := by
  unfold detailCatch
  grind

@[grind ←] theorem detailTry_faithful (han : an.Faithful) {body : Block Stmt} {catches : List (CatchClause Stmt)} :
    Faithful (detailTry an frame node body catches scope) := by
  unfold detailTry
  refine .bind newScope_faithful fun own => .bind (change_faithful fun _ => .modifyScope) fun _ => ?_
  refine .bind (.mapM fun _ => .optionMapM fun _ => (type_faithful han)) fun types => ?_
  refine .bind (.alter fun _ => rfl) fun _ => .bind (detailBlock_faithful han) fun _ => ?_
  grind

@[grind ←] theorem detailDelete_faithful (han : an.Faithful) {value : Expr} {persistent : Bool} :
    Faithful (detailDelete an frame node value persistent scope) := by
  unfold detailDelete
  grind

@[grind ←] theorem detailAlias_faithful {decl : AliasDecl} :
    Faithful (detailAlias frame node decl scope) := by
  unfold detailAlias
  grind

@[grind ←] theorem detailStmt_faithful (han : an.Faithful) {stmt : Stmt} :
    Faithful (detailStmt an frame stmt scope) := by
  unfold detailStmt
  grind

end Control

end SemanticAnalysis.Analysis
