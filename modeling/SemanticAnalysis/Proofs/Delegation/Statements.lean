import SemanticAnalysis.Proofs.Delegation.Expressions

/-!
# Statements load nothing themselves

Variables, class heads, synthesized members, bodies, control flow and passes. Imports and exports ask the
analyst for the module they name (`openDependency_delegates`) and then only bind what it exports.
-/

namespace SemanticAnalysis.Analysis

variable {α : Type} {frame : Frame} {node : Node} {scope : ScopeId}
variable {position : Position} {an an' : Analyst}

/-! ## Variables, namespaces and aliases -/

section Variables

variable {decl : VariableDecl Expr}

@[grind ←] theorem declaredType_delegates {written : TypeExpr} :
    Delegates an an' (declaredType an frame decl written scope) (declaredType an' frame decl written scope) := by
  unfold declaredType
  grind

@[grind ←] theorem addVariable_delegates {ty : Ty} :
    Delegates an an' (addVariable frame decl ty scope) (addVariable frame decl ty scope) := by
  unfold addVariable
  grind

@[grind ←] theorem predeclareVariable_delegates :
    Delegates an an' (predeclareVariable an frame decl scope) (predeclareVariable an' frame decl scope) := by
  unfold predeclareVariable
  split
  · exact .pure
  · refine .bind declaredType_delegates fun _ => .bind checkRedeclaration_delegates fun _ => ?_
    exact .bind addVariable_delegates fun _ => recordDeclared_delegates

@[grind ←] theorem initializedType_delegates {explicit : Option Ty} {initializer : Expr} :
    Delegates an an' (initializedType an frame decl explicit initializer scope)
      (initializedType an' frame decl explicit initializer scope) := by
  unfold initializedType
  grind

@[grind ←] theorem uninitializedType_delegates {explicit : Option Ty} :
    Delegates an an' (uninitializedType an decl explicit) (uninitializedType an' decl explicit) := by
  unfold uninitializedType
  dsimp only
  split
  · exact failOther_delegates
  · refine .guard failOther_delegates ?_
    split
    · exact .pure
    · refine .bind (.ask _) fun _ => .bind look_delegates fun _ => ?_
      grind

@[grind ←] theorem explicitType_delegates {known : Option ItemId} :
    Delegates an an' (explicitType an frame decl known scope) (explicitType an' frame decl known scope) := by
  unfold explicitType
  split
  · exact .bind look_delegates fun _ => .pure
  · exact .map declaredType_delegates
  · exact .pure

@[grind ←] theorem detailVariable_delegates :
    Delegates an an' (detailVariable an frame decl scope) (detailVariable an' frame decl scope) := by
  unfold detailVariable
  refine .bind declared?_delegates fun known => .bind explicitType_delegates fun explicit => ?_
  dsimp only
  split
  · refine .bind (.map initializedType_delegates) fun made => ?_
    cases known <;> grind
  · refine .bind uninitializedType_delegates fun made => ?_
    cases known <;> grind

@[grind ←] theorem addLocal_delegates {ident : Ident} {ty : Ty} {owner : Option ItemId} :
    Delegates an an' (addLocal frame ident ty owner scope) (addLocal frame ident ty owner scope) := by
  unfold addLocal
  grind

end Variables

@[grind ←] theorem spaceScope?_delegates : Delegates an an' (spaceScope? frame node) (spaceScope? frame node) := by
  unfold spaceScope?
  grind

@[grind ←] theorem createSpace_delegates {name : String} {v : Visibility} :
    Delegates an an' (createSpace frame node name v scope) (createSpace frame node name v scope) := by
  unfold createSpace
  grind

@[grind ←] theorem declareSpace_delegates {name : String} {v : Visibility} :
    Delegates an an' (declareSpace frame node name v scope) (declareSpace frame node name v scope) := by
  unfold declareSpace
  grind

@[grind ←] theorem bindAliasDecl_delegates {decl : AliasDecl} :
    Delegates an an' (bindAliasDecl frame node decl scope) (bindAliasDecl frame node decl scope) := by
  unfold bindAliasDecl
  grind

/-! ## Imports and exports -/

section Linkage

variable {module : ModuleId} {exports : ScopeId} {v : Visibility} {items : List ImportItem}

@[grind ←] theorem noLibrary_delegates {request : String} :
    Delegates an an' (noLibrary request position : Analysis α) (noLibrary request position) := by
  unfold noLibrary
  grind

@[grind ←] theorem resolveRequest_delegates {request : String} :
    Delegates an an' (resolveRequest request module position) (resolveRequest request module position) := by
  unfold resolveRequest
  refine .read (fun _ _ _ => ⟨rfl, rfl⟩) fun s => ?_
  grind

@[grind ←] theorem openDependency_delegates {request : String} :
    Delegates an an' (openDependency an frame request position) (openDependency an' frame request position) := by
  unfold openDependency
  grind

@[grind ←] theorem bindSelected_delegates :
    Delegates an an' (bindSelected module items exports scope v) (bindSelected module items exports scope v) := by
  unfold bindSelected
  grind

@[grind ←] theorem bindAll_delegates :
    Delegates an an' (bindAll module exports scope v position) (bindAll module exports scope v position) := by
  unfold bindAll
  grind

@[grind ←] theorem bindSpace_delegates {ident : Ident} :
    Delegates an an' (bindSpace module ident exports scope position)
      (bindSpace module ident exports scope position) := by
  unfold bindSpace
  grind

@[grind ←] theorem detailImport_delegates {decl : ImportDecl} :
    Delegates an an' (detailImport an frame node decl scope) (detailImport an' frame node decl scope) := by
  unfold detailImport
  grind

@[grind ←] theorem exportOwn_delegates :
    Delegates an an' (exportOwn frame items scope) (exportOwn frame items scope) := by
  unfold exportOwn
  grind

@[grind ←] theorem detailExport_delegates {decl : ExportDecl} :
    Delegates an an' (detailExport an frame node decl scope) (detailExport an' frame node decl scope) := by
  unfold detailExport
  refine .bind look_delegates fun _ => .bind expect_delegates fun own => ?_
  have hlast (aliases : List ItemId) : Delegates an an' (record frame node (.exporting aliases))
      (record frame node (.exporting aliases)) := record_delegates
  refine .guard misplaced_delegates ?_
  split
  · exact .bind exportOwn_delegates hlast
  refine .bind openDependency_delegates fun source => ?_
  split
  · exact .bind bindAll_delegates hlast
  · exact .bind bindSelected_delegates hlast

end Linkage

/-! ## Class heads -/

section ClassHeads

variable {decl : ClassDef} {item : ItemId}

@[grind ←] theorem declareClassTemplate_delegates :
    Delegates an an' (declareClassTemplate frame decl scope) (declareClassTemplate frame decl scope) := by
  unfold declareClassTemplate
  grind

@[grind ←] theorem declareClass_delegates :
    Delegates an an' (declareClass frame decl scope) (declareClass frame decl scope) := by
  unfold declareClass
  grind

@[grind ←] theorem classScope_delegates : Delegates an an' (classScope item) (classScope item) := by
  unfold classScope
  grind

@[grind ←] theorem resolveParent_delegates {earlier : List ItemId} {written : TypeExpr} :
    Delegates an an' (resolveParent an frame item scope earlier written)
      (resolveParent an' frame item scope earlier written) := by
  unfold resolveParent
  refine .bind type_delegates fun ty => ?_
  split
  · exact .bind typeText_delegates fun _ => failOther_delegates
  · refine .bind (.ask _) fun _ => .bind look_delegates fun _ => ?_
    grind

@[grind ←] theorem resolveParents_delegates :
    Delegates an an' (resolveParents an frame decl item scope) (resolveParents an' frame decl item scope) := by
  unfold resolveParents
  grind

@[grind ←] theorem resolveUnderlying_delegates :
    Delegates an an' (resolveUnderlying an frame decl item scope)
      (resolveUnderlying an' frame decl item scope) := by
  unfold resolveUnderlying
  split
  · exact .bind type_delegates fun underlying => by grind
  · exact .bind .pure fun underlying => by grind

@[grind ←] theorem checkCapacity_delegates {bits : Nat} :
    Delegates an an' (checkCapacity decl item bits) (checkCapacity decl item bits) := by
  unfold checkCapacity
  grind

@[grind ←] theorem fieldType_delegates {field : FieldDecl Expr} :
    Delegates an an' (fieldType an frame field scope) (fieldType an' frame field scope) := by
  unfold fieldType
  split
  all_goals
    dsimp only
    split
    · exact .bind type_delegates fun _ => .pure
    · exact .bind (.map expr_delegates) fun _ => .pure
    · exact .bind failOther_delegates fun _ => .pure

@[grind ←] theorem fieldVariable_delegates {field : FieldDecl Expr} {ty : Ty} {isBitfield : Bool} :
    Delegates an an' (fieldVariable field ty isBitfield) (fieldVariable field ty isBitfield) := by
  unfold fieldVariable
  grind

@[grind ←] theorem declareField_delegates {isBitfield : Bool} {field : FieldDecl Expr} :
    Delegates an an' (declareField an frame item scope isBitfield field)
      (declareField an' frame item scope isBitfield field) := by
  unfold declareField
  grind

@[grind ←] theorem declareFields_delegates :
    Delegates an an' (declareFields an frame decl item scope) (declareFields an' frame decl item scope) := by
  unfold declareFields
  grind

@[grind ←] theorem declareMemberFunctions_delegates :
    Delegates an an' (declareMemberFunctions an frame decl item scope)
      (declareMemberFunctions an' frame decl item scope) := by
  unfold declareMemberFunctions
  grind

@[grind ←] theorem classSignatures_delegates :
    Delegates an an' (classSignatures an item) (classSignatures an' item) := by
  unfold classSignatures
  refine .bind classSource?_delegates fun source => ?_
  split
  · exact .pure
  split
  · exact .pure
  refine .bind setStage_delegates fun _ => .bind classScope_delegates fun scope => ?_
  refine .bind resolveParents_delegates fun parents => .bind change_delegates fun _ => ?_
  refine .guard resolveUnderlying_delegates (.bind declareFields_delegates fun bits => ?_)
  exact .guard checkCapacity_delegates declareMemberFunctions_delegates

end ClassHeads

/-! ## Synthesis -/

section Synthesis

variable {item : ItemId}

@[grind ←] theorem isDefaultConstructibleClass_delegates :
    Delegates an an' (isDefaultConstructibleClass an item) (isDefaultConstructibleClass an' item) := by
  unfold isDefaultConstructibleClass
  refine .bind classSource?_delegates fun source => ?_
  split
  · exact .pure
  · exact .bind (.ask _) fun _ => look_delegates

@[grind ←] theorem isDefaultConstructible_delegates {ty : Ty} :
    Delegates an an' (isDefaultConstructible an ty) (isDefaultConstructible an' ty) := by
  unfold isDefaultConstructible
  split
  · exact .pure
  split
  · exact .pure
  split
  · exact .pure
  split
  · exact .pure
  · exact isDefaultConstructibleClass_delegates
  · exact .pure

@[grind ←] theorem typeNeedsCleanup_delegates {ty : Ty} :
    Delegates an an' (typeNeedsCleanup an ty) (typeNeedsCleanup an' ty) := by
  unfold typeNeedsCleanup
  split
  · exact .pure
  split
  · exact .pure
  · exact .pure
  · exact .bind (.ask _) fun _ => look_delegates
  · exact .pure

@[grind ←] theorem classNeedsCleanup_delegates {c : Class} :
    Delegates an an' (classNeedsCleanup an c) (classNeedsCleanup an' c) := by
  unfold classNeedsCleanup
  refine .bind look_delegates fun _ => .foldlM fun needed m => .bind look_delegates fun v => ?_
  split
  · exact .pure
  · exact .bind typeNeedsCleanup_delegates fun _ => .pure

@[grind ←] theorem checkFieldConstructible_delegates {name : String} {field : FieldDecl Expr} :
    Delegates an an' (checkFieldConstructible an item name field)
      (checkFieldConstructible an' item name field) := by
  unfold checkFieldConstructible
  split
  · exact .pure
  refine .bind look_delegates fun table => ?_
  dsimp only
  split
  · exact .pure
  · exact .bind isDefaultConstructible_delegates fun _ => by grind

@[grind ←] theorem checkParentConstructible_delegates {name : String} {parent : ItemId} :
    Delegates an an' (checkParentConstructible an name position parent)
      (checkParentConstructible an' name position parent) := by
  unfold checkParentConstructible
  grind

@[grind ←] theorem checkConstructible_delegates {decl : ClassDef} :
    Delegates an an' (checkConstructible an item decl) (checkConstructible an' item decl) := by
  unfold checkConstructible
  grind

@[grind ←] theorem makeMember_delegates {role : Role} {params : List (Param Expr)}
    {body : List Stmt} :
    Delegates an an' (makeMember role params body position) (makeMember role params body position) := by
  unfold makeMember
  grind

@[grind ←] theorem makeDefaultConstructor_delegates {hasParents : Bool} :
    Delegates an an' (makeDefaultConstructor hasParents position)
      (makeDefaultConstructor hasParents position) := by
  unfold makeDefaultConstructor
  grind

@[grind ←] theorem makeCopyConstructor_delegates :
    Delegates an an' (makeCopyConstructor position) (makeCopyConstructor position) := by
  unfold makeCopyConstructor
  grind

@[grind ←] theorem declareSynthesized_delegates {decl : FunctionDef} :
    Delegates an an' (declareSynthesized an frame decl item scope)
      (declareSynthesized an' frame decl item scope) := by
  unfold declareSynthesized
  grind

@[grind ←] theorem synthesizeCopy_delegates :
    Delegates an an' (synthesizeCopy an frame item scope position)
      (synthesizeCopy an' frame item scope position) := by
  unfold synthesizeCopy
  grind

@[grind ←] theorem synthesizeMembers_delegates {source : ClassSource} :
    Delegates an an' (synthesizeMembers an item source) (synthesizeMembers an' item source) := by
  unfold synthesizeMembers
  refine .bind look_delegates fun known => .bind expect_delegates fun c => ?_
  refine .bind (.forM fun _ => .ask _) fun _ => .bind classNeedsCleanup_delegates fun needsCleanup => ?_
  refine .bind change_delegates fun _ => ?_
  -- the default constructor, the destructor and the copy constructor, where they are not written
  dsimp only
  split
  on_goal 1 =>
    refine .bind checkConstructible_delegates fun _ => .bind makeDefaultConstructor_delegates fun ctor => ?_
    refine .bind (.discard declareSynthesized_delegates) fun _ => ?_
  all_goals
    split
    on_goal 1 =>
      refine .bind makeMember_delegates fun dtor => ?_
      refine .bind (.discard declareSynthesized_delegates) fun _ => ?_
    all_goals
      refine .bind look_delegates fun hasCopy => .read (fun _ _ _ => ⟨rfl, rfl⟩) fun s => ?_
      split
      on_goal 1 => refine .bind synthesizeCopy_delegates fun _ => ?_
      all_goals exact .alter (fun _ => rfl) (fun _ => rfl) fun _ _ _ => rfl

@[grind ←] theorem synthesize_delegates : Delegates an an' (synthesize an item) (synthesize an' item) := by
  unfold synthesize
  refine .bind (.ask _) fun _ => .bind classSource?_delegates fun source => ?_
  split
  · exact .pure
  split
  · exact .pure
  · exact .bind setStage_delegates fun _ =>
      andFinally_delegates synthesizeMembers_delegates setStage_delegates

end Synthesis

/-! ## Bodies -/

section Bodies

variable {item : ItemId}

@[grind ←] theorem detailBlock_delegates {b : Block Stmt} :
    Delegates an an' (detailBlock an frame b scope) (detailBlock an' frame b scope) := by
  unfold detailBlock
  grind

@[grind ←] theorem stopInferring_delegates : Delegates an an' (stopInferring item) (stopInferring item) := by
  unfold stopInferring
  grind

@[grind ←] theorem declareLambda_delegates {params : List (Param Expr)}
    {returnType : Option TypeExpr} :
    Delegates an an' (declareLambda an frame node params returnType scope)
      (declareLambda an' frame node params returnType scope) := by
  unfold declareLambda
  refine .bind (.alter (fun _ => rfl) (fun _ => rfl) fun _ _ _ => rfl) fun _ => ?_
  refine .read (fun _ _ _ => ⟨rfl, rfl⟩) fun s => ?_
  dsimp only
  split
  on_goal 1 => refine .bind type_delegates fun result => ?_
  on_goal 2 => refine .bind .pure fun result => ?_
  all_goals
    refine .bind newScope_delegates fun own => .bind addItem_delegates fun item => ?_
    refine .bind setOwner_delegates fun _ => .bind bindParameters_delegates fun bound => ?_
    exact .bind change_delegates fun _ => .pure

@[grind ←] theorem detailLambda_delegates {params : List (Param Expr)}
    {returnType : Option TypeExpr} {body : Block Stmt} :
    Delegates an an' (detailLambda an frame node params returnType body scope)
      (detailLambda an' frame node params returnType body scope) := by
  unfold detailLambda
  refine .bind declareLambda_delegates fun made => .guard (.alter (fun _ => rfl) (fun _ => rfl) fun _ _ _ => rfl) ?_
  refine .bind (andFinally_delegates detailBlock_delegates stopInferring_delegates) fun _ => ?_
  grind

@[grind ←] theorem detailDefault_delegates {written : Param Expr} {expected : Ty} :
    Delegates an an' (detailDefault an frame scope written expected)
      (detailDefault an' frame scope written expected) := by
  unfold detailDefault
  split
  · exact .pure
  · exact .bind expr_delegates fun _ => checkAssignable_delegates

@[grind ←] theorem implicitSuperCall_delegates {cls parent : ItemId} :
    Delegates an an' (implicitSuperCall an cls position parent) (implicitSuperCall an' cls position parent) := by
  unfold implicitSuperCall
  grind

@[grind ←] theorem implicitSuperCalls_delegates :
    Delegates an an' (implicitSuperCalls an item scope position) (implicitSuperCalls an' item scope position) := by
  unfold implicitSuperCalls
  refine .bind look_delegates fun owner => ?_
  split
  · exact .pure
  · refine .bind look_delegates fun c => .read (fun _ _ _ => ⟨rfl, rfl⟩) fun s => ?_
    exact .mapM fun _ => implicitSuperCall_delegates

@[grind ←] theorem detailFunctionBody_delegates {decl : FunctionDef} :
    Delegates an an' (detailFunctionBody an frame decl item) (detailFunctionBody an' frame decl item) := by
  unfold detailFunctionBody
  refine .bind look_delegates fun known => .bind expect_delegates fun entry => ?_
  split
  · exact .pure
  refine .bind expect_delegates fun f => ?_
  split
  · exact .pure
  refine .bind (.forM fun _ => detailDefault_delegates) fun _ => ?_
  grind

@[grind ←] theorem detailLocalFunction_delegates {decl : FunctionDef} :
    Delegates an an' (detailLocalFunction an frame decl scope) (detailLocalFunction an' frame decl scope) := by
  unfold detailLocalFunction
  grind

@[grind ←] theorem detailField_delegates {field : FieldDecl Expr} :
    Delegates an an' (detailField an frame scope field) (detailField an' frame scope field) := by
  unfold detailField
  refine .bind declared?_delegates fun known => ?_
  split
  · exact .pure
  split
  · refine .bind look_delegates fun _ => .bind expr_delegates fun info => ?_
    grind
  · grind

@[grind ←] theorem detailMemberBodies_delegates {members : List FunctionDef} :
    Delegates an an' (detailMemberBodies an frame members) (detailMemberBodies an' frame members) := by
  unfold detailMemberBodies
  grind

@[grind ←] theorem detailClassBodies_delegates :
    Delegates an an' (detailClassBodies an item) (detailClassBodies an' item) := by
  unfold detailClassBodies
  refine .bind (.ask _) fun _ => .bind classSource?_delegates fun source => ?_
  split
  · exact .pure
  split
  · exact .pure
  refine .bind setStage_delegates fun _ => .bind classScope_delegates fun scope => ?_
  refine .bind (.forM fun _ => detailField_delegates) fun _ => ?_
  refine .bind (.discard detailMemberBodies_delegates) fun _ => .read (fun _ _ _ => ⟨rfl, rfl⟩) fun s => ?_
  refine .bind detailMemberBodies_delegates fun synthesized => .bind change_delegates fun _ => ?_
  grind

@[grind ←] theorem detailLocalClass_delegates {decl : ClassDef} :
    Delegates an an' (detailLocalClass an frame decl scope) (detailLocalClass an' frame decl scope) := by
  unfold detailLocalClass
  grind

end Bodies

/-! ## Control -/

section Control

@[grind ←] theorem detailBranch_delegates {body : Stmt} :
    Delegates an an' (detailBranch an frame body scope) (detailBranch an' frame body scope) := by
  unfold detailBranch
  refine .bind newScope_delegates fun inner => ?_
  split
  · exact .bind detailBlock_delegates fun _ => .pure
  · exact .bind stmt_delegates fun _ => .pure

@[grind ←] theorem detailIf_delegates {condition : Expr} {yes : Stmt} {no : Option Stmt} :
    Delegates an an' (detailIf an frame node condition yes no scope)
      (detailIf an' frame node condition yes no scope) := by
  unfold detailIf
  grind

@[grind ←] theorem detailLoop_delegates {condition : Expr} {body : Stmt} {tail : Bool} :
    Delegates an an' (detailLoop an frame node condition body tail scope)
      (detailLoop an' frame node condition body tail scope) := by
  unfold detailLoop
  grind

@[grind ←] theorem detailFor_delegates {init : Option Stmt} {condition update : Option Expr}
    {body : Stmt} :
    Delegates an an' (detailFor an frame node init condition update body scope)
      (detailFor an' frame node init condition update body scope) := by
  unfold detailFor
  refine .bind newScope_delegates fun own => .bind (.forM fun _ => stmt_delegates) fun _ => ?_
  refine .bind (.forM fun _ => .discard expr_delegates) fun _ => ?_
  refine .bind (.forM fun _ => .discard expr_delegates) fun _ => ?_
  exact .bind (.discard detailBranch_delegates) fun _ => record_delegates

@[grind ←] theorem elementType_delegates {name : Ident} {ty : Option TypeExpr} {element : Ty} :
    Delegates an an' (elementType an frame name ty element scope)
      (elementType an' frame name ty element scope) := by
  unfold elementType
  split
  · exact .pure
  · exact .bind type_delegates fun _ => by grind

@[grind ←] theorem detailForEach_delegates {name : Ident} {ty : Option TypeExpr} {iterable : Expr}
    {body : Stmt} :
    Delegates an an' (detailForEach an frame node name ty iterable body scope)
      (detailForEach an' frame node name ty iterable body scope) := by
  unfold detailForEach
  refine .bind expr_delegates fun info => ?_
  dsimp only
  split
  · refine .bind (.ask _) fun _ => .bind look_delegates fun found => ?_
    split
    · refine .bind newScope_delegates fun own => .bind elementType_delegates fun declared => ?_
      refine .bind look_delegates fun owner => .bind addLocal_delegates fun v => ?_
      grind
    · grind
  · grind

@[grind ←] theorem checkReturn_delegates {value : Option (Expr × Ty)} {expected : Ty} :
    Delegates an an' (checkReturn frame value expected position) (checkReturn frame value expected position) := by
  unfold checkReturn
  grind

@[grind ←] theorem detailReturn_delegates {value : Option Expr} :
    Delegates an an' (detailReturn an frame node value scope) (detailReturn an' frame node value scope) := by
  unfold detailReturn
  refine .bind look_delegates fun function => ?_
  split
  · refine .bind (.optionMapM fun e => .bind expr_delegates fun _ => .pure) fun returned => ?_
    refine .read (fun _ _ _ => ⟨rfl, rfl⟩) fun s => ?_
    grind
  · exact misplaced_delegates

@[grind ←] theorem detailRaise_delegates {value : Expr} :
    Delegates an an' (detailRaise an frame node value scope) (detailRaise an' frame node value scope) := by
  unfold detailRaise
  grind

@[grind ←] theorem detailCatch_delegates {owner : Option ItemId} {clause : CatchClause Stmt}
    {ty : Option Ty} :
    Delegates an an' (detailCatch an frame owner scope clause ty)
      (detailCatch an' frame owner scope clause ty) := by
  unfold detailCatch
  grind

@[grind ←] theorem detailTry_delegates {body : Block Stmt} {catches : List (CatchClause Stmt)} :
    Delegates an an' (detailTry an frame node body catches scope)
      (detailTry an' frame node body catches scope) := by
  unfold detailTry
  refine .bind newScope_delegates fun own => .bind change_delegates fun _ => ?_
  refine .bind (.mapM fun _ => .optionMapM fun _ => type_delegates) fun types => ?_
  refine .bind (.alter (fun _ => rfl) (fun _ => rfl) fun _ _ _ => rfl) fun _ => ?_
  refine .bind detailBlock_delegates fun _ => ?_
  grind

@[grind ←] theorem detailDelete_delegates {value : Expr} {persistent : Bool} :
    Delegates an an' (detailDelete an frame node value persistent scope)
      (detailDelete an' frame node value persistent scope) := by
  unfold detailDelete
  refine .bind expr_delegates fun info => ?_
  dsimp only
  split
  · exact .bind .pure fun _ => record_delegates
  · exact .bind (.ask _) fun _ => .bind look_delegates fun _ => record_delegates

@[grind ←] theorem detailAlias_delegates {decl : AliasDecl} :
    Delegates an an' (detailAlias frame node decl scope) (detailAlias frame node decl scope) := by
  unfold detailAlias
  grind

@[grind ←] theorem detailStmt_delegates {stmt : Stmt} :
    Delegates an an' (detailStmt an frame stmt scope) (detailStmt an' frame stmt scope) := by
  unfold detailStmt
  cases stmt with
  | expr => exact .bind (.discard expr_delegates) fun _ => record_delegates
  | declare => exact detailVariable_delegates
  | block => exact .bind newScope_delegates fun _ => detailBlock_delegates
  | ret => exact detailReturn_delegates
  | ifElse => exact detailIf_delegates
  | loop => exact detailLoop_delegates
  | forLoop => exact detailFor_delegates
  | forEach => exact detailForEach_delegates
  | leave | next => exact record_delegates
  | raise => exact detailRaise_delegates
  | tryCatch => exact detailTry_delegates
  | delete => exact detailDelete_delegates
  | function => exact detailLocalFunction_delegates
  | cls => exact detailLocalClass_delegates
  | space | importing => exact misplaced_delegates
  | exporting => exact detailExport_delegates
  | aliasing => exact detailAlias_delegates

end Control

@[grind ←] theorem detailExpr_delegates {e : Expr} {access : Access} :
    Delegates an an' (detailExpr an frame e scope access) (detailExpr an' frame e scope access) := by
  unfold detailExpr
  cases e with
  | literal => exact detailLiteral_delegates
  | name => exact detailName_delegates
  | member => exact detailMember_delegates
  | call => exact detailCall_delegates
  | new => exact detailNew_delegates
  | binary => exact detailBinary_delegates
  | unary => exact detailUnary_delegates
  | assign => exact detailAssign_delegates
  | conditional => exact detailConditional_delegates
  | cast => exact detailCast_delegates
  | index => exact detailIndex_delegates
  | lambda => exact detailLambda_delegates
  | thisRef => exact detailThis_delegates
  | superRef => exact detailSuper_delegates
  | await => exact detailAwait_delegates
  | yield => exact detailYield_delegates
  | sizeOfType => exact detailSizeOf_delegates

/-! ## Passes -/

section Passes

@[grind ←] theorem attempt_delegates {x y : Analysis Unit} (hx : Delegates an an' x y) :
    Delegates an an' (attempt x) (attempt y) := .discard (.recover hx)

variable {body statements : List Stmt} {stmt : Stmt}

@[grind ←] theorem passInside_delegates {p : Pass} :
    Delegates an an' (passInside an p frame node body) (passInside an' p frame node body) := by
  unfold passInside
  grind

@[grind ←] theorem importPass_delegates :
    Delegates an an' (importPass an frame scope stmt) (importPass an' frame scope stmt) := by
  unfold importPass
  split
  · exact attempt_delegates detailImport_delegates
  · exact .pure

@[grind ←] theorem typePass_delegates :
    Delegates an an' (typePass an frame scope stmt) (typePass an' frame scope stmt) := by
  unfold typePass
  split
  · exact attempt_delegates (.discard declareClass_delegates)
  · refine .bind (.recover declareSpace_delegates) fun inner => ?_
    split
    · exact .ask _
    · exact .pure
  · exact .pure

@[grind ←] theorem aliasPass_delegates {last : Bool} :
    Delegates an an' (aliasPass an last frame scope stmt) (aliasPass an' last frame scope stmt) := by
  unfold aliasPass
  split
  · refine .bind declared?_delegates fun known => ?_
    split
    · exact .pure
    split
    · exact attempt_delegates bindAliasDecl_delegates
    · exact .tryCatch bindAliasDecl_delegates (fun _ => .giveUp) .giveUp
  · exact passInside_delegates
  · exact .pure

@[grind ←] theorem signaturePass_delegates :
    Delegates an an' (signaturePass an frame scope stmt) (signaturePass an' frame scope stmt) := by
  unfold signaturePass
  split
  · refine .bind declared?_delegates fun known => ?_
    split
    · exact .ask _
    · exact .pure
  · exact .discard declareFunction_delegates
  · exact predeclareVariable_delegates
  · exact passInside_delegates
  · exact .pure

@[grind ←] theorem bodyPass_delegates :
    Delegates an an' (bodyPass an frame scope stmt) (bodyPass an' frame scope stmt) := by
  unfold bodyPass
  split
  · refine .bind declared?_delegates fun known => ?_
    split
    · exact .bind classSource?_delegates fun _ => by grind
    · exact .pure
  · refine .bind declared?_delegates fun known => ?_
    split
    · exact .ask _
    · exact .pure
  · exact passInside_delegates
  · exact .pure
  · exact .pure
  · exact stmt_delegates

@[grind ←] theorem runPass_delegates {p : Pass} :
    Delegates an an' (runPass an p frame statements scope) (runPass an' p frame statements scope) := by
  unfold runPass
  cases p with
  | types => exact .bind (.forM fun _ => importPass_delegates) fun _ => .forM fun _ => typePass_delegates
  | aliases => exact .forM fun _ => aliasPass_delegates
  | signatures => exact .forM fun _ => attempt_delegates signaturePass_delegates
  | bodies => exact .forM fun _ => attempt_delegates bodyPass_delegates

end Passes

/-! ## Pending instances -/

@[grind ←] theorem nextPending_delegates : Delegates an an' nextPending nextPending := by
  refine .modifyGet (fun s => ?_) (fun s => ?_) fun c n s => ?_
  · split <;> rfl
  · split <;> rfl
  · have hclasses : (s.adjusted c n).pendingClasses = s.pendingClasses := rfl
    have hfunctions : (s.adjusted c n).pendingFunctions = s.pendingFunctions := rfl
    rw [hclasses, hfunctions]
    split <;> rfl

@[grind ←] theorem drainPending_delegates : Delegates an an' (drainPending an) (drainPending an') := by
  unfold drainPending
  refine .bind nextPending_delegates fun next => ?_
  split
  · exact .pure
  · exact .bind (attempt_delegates (.ask _)) fun _ => .ask _
  · exact .bind (attempt_delegates (.ask _)) fun _ => .ask _

end SemanticAnalysis.Analysis
