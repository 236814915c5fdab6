import SemanticAnalysis.Proofs.Analysis.Expressions

/-!
# Variables, classes and bodies keep states sound

Variables, namespaces, imports, class heads without their parents, synthesized members and bodies.
A load changes only what is known about paths, and a stage only ever moves on.
-/

namespace SemanticAnalysis.Analysis

variable {n : Nat} {frame : Frame} {node : Node} {scope : ScopeId} {position : Position}
variable {an an' : Analyst}

/-! ## Variables, namespaces and aliases -/

section Variables

variable {decl : VariableDecl Expr}

@[grind ←] theorem declaredType_keeps (han : an.Agrees an') {written : TypeExpr} :
    Keeps n (declaredType an frame decl written scope)
      (declaredType an' frame decl written scope) := by
  refine .bind (type_keeps han) fun ty m hm hty => .pure ?_
  split
  · exact known_constify hty
  · exact hty

@[grind ←] theorem addVariable_keeps {ty : Ty} (h : Known n ty) :
    Keeps n (addVariable frame decl ty scope) (addVariable frame decl ty scope) := by
  unfold addVariable
  refine .bind (by grind) fun owner m hm _ => ?_
  refine .bind (addItem_keeps rfl (h.mono hm)) fun item k hk _ => ?_
  exact .guard (.discard exportItem_keeps) fun _ _ => .idle

@[grind ←] theorem predeclareVariable_keeps (han : an.Agrees an') :
    Keeps n (predeclareVariable an frame decl scope) (predeclareVariable an' frame decl scope) := by
  unfold predeclareVariable
  split
  · exact .idle
  · refine .bind (declaredType_keeps han) fun ty m hm hty => ?_
    refine .bind checkRedeclaration_keeps fun _ k hk _ => ?_
    exact .bind (addVariable_keeps (hty.mono hk)) fun _ _ _ _ => recordDeclared_keeps

@[grind ←] theorem initializedType_keeps (han : an.Agrees an') {explicit : Option Ty}
    {initializer : Expr} (h : Known n explicit) :
    Keeps n (initializedType an frame decl explicit initializer scope)
      (initializedType an' frame decl explicit initializer scope) := by
  unfold initializedType
  refine .bind (expr_keeps han) fun info m hm hinfo => ?_
  split
  · refine .bind checkAssignable_keeps fun _ k hk _ => .pure ?_
    exact Known.mono ((known_some _).1 h) (by grind)
  · refine .guard failOther_keeps fun k hk => .pure ?_
    have hty : Known k info.ty.inferred := known_inferred (hinfo.mono hk)
    split
    · exact known_constify hty
    · exact hty

@[grind ←] theorem uninitializedType_keeps (han : an.Agrees an') {explicit : Option Ty}
    (h : Known n explicit) :
    Keeps n (uninitializedType an decl explicit) (uninitializedType an' decl explicit) := by
  unfold uninitializedType
  dsimp only
  split
  · exact failOther_keeps
  · rename_i ty
    have hty : Known n ty := h
    refine .guard failOther_keeps fun m hm => ?_
    split
    · exact .pure ((known_pair _ _).2 ⟨hty.mono hm, known_none⟩)
    · refine .bind (han.keeps _) fun _ k hk _ => .bind (by grind) fun c k₁ hk₁ _ => ?_
      split
      · exact .pure ((known_pair _ _).2 ⟨hty.mono (by grind), known_of_namesNone _ _⟩)
      · exact .bind itemName_keeps fun _ _ _ _ => fail_keeps

@[grind ←] theorem explicitType_keeps (han : an.Agrees an') {known : Option ItemId} :
    Keeps n (explicitType an frame decl known scope) (explicitType an' frame decl known scope) := by
  unfold explicitType
  split
  · grind
  · exact (declaredType_keeps han).map fun ty _ _ hty => (known_some ty).2 hty
  · exact .pure known_none

@[grind ←] theorem detailVariable_keeps (han : an.Agrees an') :
    Keeps n (detailVariable an frame decl scope) (detailVariable an' frame decl scope) := by
  unfold detailVariable
  refine .bind declared?_keeps fun known m hm _ => ?_
  refine .bind (explicitType_keeps han) fun explicit k hk hexplicit => ?_
  dsimp only
  split
  on_goal 1 =>
    refine .bind ((initializedType_keeps han hexplicit).map fun ty _ _ hty => ?_)
      fun made k₁ hk₁ hmade => ?_
    · exact (known_pair _ _).2 ⟨hty, known_none⟩
  on_goal 2 => refine .bind (uninitializedType_keeps han hexplicit) fun made k₁ hk₁ hmade => ?_
  all_goals
    split
    on_goal 1 => refine .bind (.pure (known_of_namesNone _ _)) fun v k₂ hk₂ _ => ?_
    on_goal 2 =>
      refine .bind checkRedeclaration_keeps fun _ k' hk' _ => ?_
      refine .bind (addVariable_keeps (hmade.fst.mono hk')) fun v k₂ hk₂ _ => ?_
    all_goals
      refine .guard (by grind) fun k₃ hk₃ => ?_
      exact .bind (recordUnnamed_keeps rfl) fun _ _ _ _ => applyAttributes_keeps han

@[grind ←] theorem addLocal_keeps {ident : Ident} {ty : Ty} {owner : Option ItemId}
    (h : Known n ty) : Keeps n (addLocal frame ident ty owner scope)
      (addLocal frame ident ty owner scope) := addItem_keeps rfl h

end Variables

@[grind ←] theorem spaceScope?_keeps : Keeps n (spaceScope? frame node) (spaceScope? frame node) := by
  unfold spaceScope?
  grind

@[grind ←] theorem createSpace_keeps {name : String} {v : Visibility} :
    Keeps n (createSpace frame node name v scope) (createSpace frame node name v scope) := by
  unfold createSpace
  refine .bind newScope_keeps fun own m hm _ => ?_
  refine .bind (addItem_keeps rfl (known_entity_space own)) fun item k hk _ => ?_
  exact .bind (setOwner_keeps (by simp)) fun _ _ _ _ => .idle

@[grind ←] theorem declareSpace_keeps {name : String} {v : Visibility} :
    Keeps n (declareSpace frame node name v scope) (declareSpace frame node name v scope) := by
  unfold declareSpace
  refine .bind (by grind) fun table m hm _ => ?_
  have hlast : ∀ (item : ItemId) k, Later m k → Known k item → Keeps k
      (do
        recordDeclared frame node item
        record frame node (.space item)
        expect "namespace without a scope" (← spaceScope? frame node))
      (do
        recordDeclared frame node item
        record frame node (.space item)
        expect "namespace without a scope" (← spaceScope? frame node)) := by
    intro item k _ _
    refine .bind recordDeclared_keeps fun _ _ _ _ => .bind (recordUnnamed_keeps rfl) fun _ _ _ _ => ?_
    exact .bind spaceScope?_keeps fun _ _ _ h => expect_keeps h
  dsimp only
  split
  · exact .bind createSpace_keeps hlast
  · split
    · exact .bind (.pure (known_of_namesNone _ _)) hlast
    · exact .stop

@[grind ←] theorem bindAliasDecl_keeps {decl : AliasDecl} :
    Keeps n (bindAliasDecl frame node decl scope) (bindAliasDecl frame node decl scope) := by
  unfold bindAliasDecl
  refine .bind resolvePath_keeps fun target m hm _ => ?_
  split
  · exact failOther_keeps
  · refine .bind checkRedeclaration_keeps fun _ k hk _ => ?_
    refine .bind (addItem_keeps rfl (known_entity_aliasOf target)) fun item k₁ hk₁ _ => ?_
    exact .bind recordDeclared_keeps fun _ _ _ _ => recordUnnamed_keeps rfl

/-! ## Imports and exports -/

@[grind ←] theorem noLibrary_keeps {α : Type} [NamesClasses α] {request : String} :
    Keeps n (noLibrary request position : Analysis α) (noLibrary request position) := fail_keeps

@[grind ←] theorem resolveRequest_keeps {request : String} {module : ModuleId} :
    Keeps n (resolveRequest request module position) (resolveRequest request module position) := by
  unfold resolveRequest
  refine .bind get_keeps fun s m hm _ => ?_
  split
  · exact noLibrary_keeps
  · refine .bind (by grind) fun origin k hk _ => ?_
    dsimp only
    split
    · exact .idle
    · exact .throw _

@[grind ←] theorem beginLoad_keeps {path : Path} :
    Keeps n (beginLoad path position) (beginLoad path position) := by
  intro s hs _
  unfold beginLoad
  refine .bind_read (h := fun s => s) ?_
  split
  · exact ⟨rfl, hs, .refl s⟩
  · rename_i known loads _
    have hgrows : s.Grows { s with loads } := .of_eq rfl
    exact ⟨rfl, hgrows.sound hs, hgrows.onward, known_of_namesNone _ known⟩

@[grind ←] theorem detailModule_keeps (han : an.Agrees an') {root : Root} {module : ModuleId} :
    Keeps n (detailModule an root module) (detailModule an' root module) := by
  unfold detailModule
  refine .bind openFrame_keeps fun frame m hm _ => ?_
  refine .bind (aside_keeps fun _ => rfl) fun _ k hk _ => ?_
  refine .bind (by grind) fun md k₁ hk₁ _ => ?_
  refine .bind (by grind) fun md k₂ hk₂ _ => ?_
  refine .bind (andFinally_keeps ?_ (aside_keeps fun _ => rfl)) fun _ k₃ hk₃ _ => ?_
  · exact .bind (.forM fun _ _ _ _ => han.keeps _) fun _ _ _ _ => han.keeps _
  · refine .bind (by grind) fun rootItems k₄ hk₄ _ => ?_
    refine .bind (by grind) fun _ k₅ hk₅ _ => ?_
    exact .bind (aside_keeps fun _ => rfl) fun _ _ _ _ => .idle

@[grind ←] theorem loadTree_keeps (han : an.Agrees an') {root : Root} {name : String} {path : Path}
    {package : String} :
    Keeps n (loadTree an root name path package) (loadTree an' root name path package) := by
  unfold loadTree
  refine .bind (make_keeps (fun _ _ => .newModule) fun _ _ => known_of_namesNone _ _)
    fun module m hm _ => ?_
  refine .bind (.tryCatch ?_ fun e => ?_) fun _ _ _ _ => .idle
  · exact .bind (.discard (detailModule_keeps han)) fun _ _ _ _ => aside_keeps fun _ => rfl
  · exact .bind (aside_keeps fun _ => rfl) fun _ _ _ _ => .throw e

@[grind ←] theorem detailRoot_keeps (han : an.Agrees an') {root : Root} {name : String} {path : Path}
    {package : String} :
    Keeps n (detailRoot an root name path package) (detailRoot an' root name path package) := by
  unfold detailRoot
  refine .bind beginLoad_keeps fun known m hm _ => ?_
  split
  · exact .idle
  · exact loadTree_keeps han

@[grind ←] theorem loadModule_keeps (han : an.Agrees an') {path : Path} {request : String} :
    Keeps n (loadModule an path request position) (loadModule an' path request position) := by
  unfold loadModule
  refine .bind beginLoad_keeps fun known m hm _ => ?_
  have habandon (k : Nat) : Keeps k
      (modify fun s => { s with loads := s.loads.abandon path } : Analysis Unit)
      (modify fun s => { s with loads := s.loads.abandon path }) := aside_keeps fun _ => rfl
  dsimp only
  split
  · exact .idle
  refine .bind get_keeps fun s k hk _ => ?_
  split
  · exact .bind (habandon k) fun _ _ _ _ => noLibrary_keeps
  · split
    · exact .bind (habandon k) fun _ _ _ _ => .throw _
    · exact loadTree_keeps han

@[grind ←] theorem openDependency_keeps (han : an.Agrees an') {request : String} :
    Keeps n (openDependency an frame request position)
      (openDependency an' frame request position) := by
  unfold openDependency
  refine .bind resolveRequest_keeps fun path m hm _ => ?_
  refine .bind (han.keeps _) fun id k hk _ => ?_
  refine .bind (by grind) fun _ k₁ hk₁ _ => .bind (by grind) fun _ k₂ hk₂ _ => ?_
  exact .bind (by grind) fun _ _ _ h => expect_keeps h

@[grind ←] theorem bindSelected_keeps {module : ModuleId} {items : List ImportItem}
    {exports : ScopeId} {v : Visibility} :
    Keeps n (bindSelected module items exports scope v)
      (bindSelected module items exports scope v) := by
  unfold bindSelected
  refine .bind (.mapM fun item _ m _ => ?_) fun _ _ _ _ => .pure (known_of_namesNone _ _)
  refine .bind (by grind) fun targets k hk _ => ?_
  split
  · exact fail_keeps
  · exact .mapM fun _ _ _ _ => bindAlias_keeps

@[grind ←] theorem bindAll_keeps {module : ModuleId} {exports : ScopeId} {v : Visibility} :
    Keeps n (bindAll module exports scope v position) (bindAll module exports scope v position) := by
  unfold bindAll
  exact .bind (by grind) fun _ _ _ _ => .mapM fun _ _ _ _ => bindAlias_keeps

@[grind ←] theorem bindSpace_keeps {module : ModuleId} {ident : Ident} {exports : ScopeId} :
    Keeps n (bindSpace module ident exports scope position)
      (bindSpace module ident exports scope position) := by
  unfold bindSpace
  refine .bind newScope_keeps fun own m hm _ => .bind checkRedeclaration_keeps fun _ k hk _ => ?_
  refine .bind (addItem_keeps rfl (known_entity_space own)) fun item k₁ hk₁ _ => ?_
  refine .bind (setOwner_keeps (by simp)) fun _ _ _ _ => ?_
  exact .bind (.discard bindAll_keeps) fun _ _ _ _ => .idle

@[grind ←] theorem detailImport_keeps (han : an.Agrees an') {decl : ImportDecl} :
    Keeps n (detailImport an frame node decl scope) (detailImport an' frame node decl scope) := by
  unfold detailImport
  refine .bind (openDependency_keeps han) fun source m hm _ => ?_
  dsimp only
  split
  · exact .bind bindSelected_keeps fun _ _ _ _ => recordUnnamed_keeps rfl
  · refine .bind (bindSpace_keeps.map fun _ k _ _ => known_of_namesNone k _) fun _ _ _ _ => ?_
    exact recordUnnamed_keeps rfl
  · exact .bind bindAll_keeps fun _ _ _ _ => recordUnnamed_keeps rfl

@[grind ←] theorem exportOwn_keeps {items : List ImportItem} :
    Keeps n (exportOwn frame items scope) (exportOwn frame items scope) := by
  unfold exportOwn
  refine .bind (.mapM fun item _ m _ => ?_) fun _ _ _ _ => .pure (known_of_namesNone _ _)
  refine .bind (by grind) fun targets k hk _ => ?_
  split
  · exact missingName_keeps
  · exact .mapM fun _ _ _ _ => exportItem_keeps

@[grind ←] theorem detailExport_keeps (han : an.Agrees an') {decl : ExportDecl} :
    Keeps n (detailExport an frame node decl scope) (detailExport an' frame node decl scope) := by
  unfold detailExport
  refine .bind (by grind) fun own m hm _ => .bind (by grind) fun own k hk _ => ?_
  refine .guard misplaced_keeps fun k₁ hk₁ => ?_
  dsimp only
  split
  · exact .bind exportOwn_keeps fun _ _ _ _ => recordUnnamed_keeps rfl
  · refine .bind (openDependency_keeps han) fun source k₂ hk₂ _ => ?_
    split
    · exact .bind bindAll_keeps fun _ _ _ _ => recordUnnamed_keeps rfl
    · exact .bind bindSelected_keeps fun _ _ _ _ => recordUnnamed_keeps rfl

/-! ## Class heads -/

section Classes

variable {decl : ClassDef} {item : ItemId}

@[grind ←] theorem declareClassTemplate_keeps :
    Keeps n (declareClassTemplate frame decl scope) (declareClassTemplate frame decl scope) := by
  unfold declareClassTemplate
  refine .bind newScope_keeps fun own m hm _ => ?_
  refine .bind_makes (addItem_makes rfl (known_entity_cls rfl)) fun item k hk hitem => ?_
  refine .bind (setOwner_keeps (by grind)) fun _ k₁ hk₁ _ => ?_
  refine .bind (modify_keeps fun s hs => .of_templates fun htemplates => ?_) fun _ k₂ hk₂ _ => ?_
  · grind
  · exact .bind (recordUnnamed_keeps rfl) fun _ _ _ _ => .idle

@[grind ←] theorem declareClass_keeps :
    Keeps n (declareClass frame decl scope) (declareClass frame decl scope) := by
  unfold declareClass
  refine .bind declared?_keeps fun known m hm _ => ?_
  dsimp only
  split
  · exact .idle
  refine .bind checkRedeclaration_keeps fun _ k hk _ => ?_
  split
  on_goal 1 => refine .bind declareClassTemplate_keeps fun item k₁ hk₁ _ => ?_
  on_goal 2 => refine .bind createClass_makes.keeps fun item k₁ hk₁ _ => ?_
  all_goals
    refine .bind (by grind) fun isModuleScope k₂ hk₂ _ => ?_
    refine .guard (.discard exportItem_keeps) fun k₃ hk₃ => ?_
    exact .bind recordDeclared_keeps fun _ _ _ _ => .idle

@[grind ←] theorem resolveUnderlying_keeps (han : an.Agrees an') :
    Keeps n (resolveUnderlying an frame decl item scope)
      (resolveUnderlying an' frame decl item scope) := by
  unfold resolveUnderlying
  dsimp only
  split
  on_goal 1 => refine .bind (type_keeps han) fun underlying m hm _ => ?_
  on_goal 2 => refine .bind (.pure known_int) fun underlying m hm _ => ?_
  all_goals
    split
    · exact .bind typeText_keeps fun _ _ _ _ => .stop
    · grind

@[grind ←] theorem checkCapacity_keeps {bits : Nat} :
    Keeps n (checkCapacity decl item bits) (checkCapacity decl item bits) := by
  unfold checkCapacity
  grind

@[grind ←] theorem fieldType_keeps (han : an.Agrees an') {field : FieldDecl Expr} :
    Keeps n (fieldType an frame field scope) (fieldType an' frame field scope) := by
  have hlast : ∀ (ty : Ty) m, Later n m → Known m ty → Keeps m
      (pure (if field.isConstant then ty.constify else ty))
      (pure (if field.isConstant then ty.constify else ty)) := by
    intro ty m _ hty
    refine .pure ?_
    split
    · exact known_constify hty
    · exact hty
  unfold fieldType
  dsimp only
  split
  · exact .bind (type_keeps han) hlast
  · exact .bind ((expr_keeps han).map fun info _ _ hinfo => known_inferred hinfo) hlast
  · exact .stop

@[grind ←] theorem fieldVariable_keeps {field : FieldDecl Expr} {ty : Ty} {isBitfield : Bool}
    (h : Known n ty) :
    Keeps n (fieldVariable field ty isBitfield) (fieldVariable field ty isBitfield) := by
  unfold fieldVariable
  split
  · exact .pure h
  · exact .pure h
  · exact failOther_keeps
  · exact failOther_keeps

@[grind ←] theorem declareField_keeps (han : an.Agrees an') {isBitfield : Bool}
    {field : FieldDecl Expr} :
    Keeps n (declareField an frame item scope isBitfield field)
      (declareField an' frame item scope isBitfield field) := by
  unfold declareField
  refine .bind checkRedeclaration_keeps fun _ m hm _ => ?_
  refine .bind (fieldType_keeps han) fun ty k hk hty => ?_
  refine .bind (fieldVariable_keeps hty) fun v k₁ hk₁ hv => ?_
  refine .bind (addItem_keeps rfl hv) fun member k₂ hk₂ _ => ?_
  refine .bind (by grind) fun _ k₃ hk₃ _ => ?_
  exact .bind recordDeclared_keeps fun _ _ _ _ => .idle

@[grind ←] theorem declareFields_keeps (han : an.Agrees an') :
    Keeps n (declareFields an frame decl item scope) (declareFields an' frame decl item scope) := by
  refine .foldlM (known_of_namesNone _ _) fun field _ total m _ _ => ?_
  exact .bind (declareField_keeps han) fun _ _ _ _ => .idle

@[grind ←] theorem declareMemberFunctions_keeps (han : an.Agrees an') (hitem : item.index < n) :
    Keeps n (declareMemberFunctions an frame decl item scope)
      (declareMemberFunctions an' frame decl item scope) := by
  have hlast : Keeps n
      (decl.functions.forM fun f => discard (declareFunction an frame f scope (some item)))
      (decl.functions.forM fun f => discard (declareFunction an' frame f scope (some item))) := by
    refine .forM fun f _ m hm => .discard (declareFunction_keeps han fun c hc => ?_)
    cases hc
    exact Nat.lt_of_lt_of_le hitem hm
  unfold declareMemberFunctions
  dsimp only
  split
  · exact .stop
  · exact hlast

end Classes

/-! ## Synthesis -/

section Synthesis

variable {item : ItemId}

@[grind ←] theorem isDefaultConstructibleClass_keeps (han : an.Agrees an') {cls : ItemId} :
    Keeps n (isDefaultConstructibleClass an cls) (isDefaultConstructibleClass an' cls) := by
  unfold isDefaultConstructibleClass
  refine .bind classSource?_keeps fun source m hm _ => ?_
  split
  · exact .idle
  · exact .bind (han.keeps _) fun _ _ _ _ => by grind

@[grind ←] theorem isDefaultConstructible_keeps (han : an.Agrees an') {ty : Ty} :
    Keeps n (isDefaultConstructible an ty) (isDefaultConstructible an' ty) := by
  unfold isDefaultConstructible
  split
  · exact .idle
  split
  · exact .idle
  split
  · exact .idle
  split
  · exact .idle
  · exact isDefaultConstructibleClass_keeps han
  · exact .idle

@[grind ←] theorem typeNeedsCleanup_keeps (han : an.Agrees an') {ty : Ty} :
    Keeps n (typeNeedsCleanup an ty) (typeNeedsCleanup an' ty) := by
  unfold typeNeedsCleanup
  split
  · exact .idle
  split
  · exact .idle
  · exact .idle
  · exact .bind (han.keeps _) fun _ _ _ _ => by grind
  · exact .idle

@[grind ←] theorem classNeedsCleanup_keeps (han : an.Agrees an') {c : Class} :
    Keeps n (classNeedsCleanup an c) (classNeedsCleanup an' c) := by
  unfold classNeedsCleanup
  refine .bind (by grind) fun table m hm _ => ?_
  refine .foldlM (known_of_namesNone _ _) fun member _ needed k _ _ => ?_
  refine .bind (by grind) fun v _ _ _ => ?_
  split
  · exact .idle
  · exact .bind (typeNeedsCleanup_keeps han) fun _ _ _ _ => .idle

@[grind ←] theorem checkFieldConstructible_keeps (han : an.Agrees an') {clsName : String}
    {field : FieldDecl Expr} :
    Keeps n (checkFieldConstructible an item clsName field)
      (checkFieldConstructible an' item clsName field) := by
  unfold checkFieldConstructible
  split
  · exact .idle
  refine .bind (by grind) fun table m hm _ => ?_
  dsimp only
  split
  · exact .idle
  · refine .bind (isDefaultConstructible_keeps han) fun constructible k hk _ => ?_
    split
    · exact .bind typeText_keeps fun _ _ _ _ => fail_keeps
    · exact .idle

@[grind ←] theorem checkParentConstructible_keeps (han : an.Agrees an') {clsName : String}
    {parent : ItemId} :
    Keeps n (checkParentConstructible an clsName position parent)
      (checkParentConstructible an' clsName position parent) := by
  unfold checkParentConstructible
  refine .bind (han.keeps _) fun _ m hm _ => .bind (by grind) fun has k hk _ => ?_
  split
  · exact .bind itemName_keeps fun _ _ _ _ => fail_keeps
  · exact .idle

@[grind ←] theorem checkConstructible_keeps (han : an.Agrees an') {decl : ClassDef} :
    Keeps n (checkConstructible an item decl) (checkConstructible an' item decl) := by
  unfold checkConstructible
  refine .bind (.forM fun _ _ _ _ => checkFieldConstructible_keeps han) fun _ m hm _ => ?_
  exact .bind (by grind) fun _ _ _ _ => .forM fun _ _ _ _ => checkParentConstructible_keeps han

@[grind ←] theorem makeMember_keeps {role : Role} {params : List (Param Expr)} {body : List Stmt} :
    Keeps n (makeMember role params body position) (makeMember role params body position) := by
  unfold makeMember
  exact .bind freshNode_keeps fun _ _ _ _ => .bind freshNode_keeps fun _ _ _ _ => .idle

@[grind ←] theorem makeDefaultConstructor_keeps {hasParents : Bool} :
    Keeps n (makeDefaultConstructor hasParents position)
      (makeDefaultConstructor hasParents position) := by
  unfold makeDefaultConstructor
  split
  · exact makeMember_keeps
  · exact .bind freshNode_keeps fun _ _ _ _ => .bind freshNode_keeps fun _ _ _ _ =>
      .bind freshNode_keeps fun _ _ _ _ => makeMember_keeps

@[grind ←] theorem makeCopyConstructor_keeps :
    Keeps n (makeCopyConstructor position) (makeCopyConstructor position) :=
  .bind freshNode_keeps fun _ _ _ _ => makeMember_keeps

section

variable {cls : ItemId} (hcls : cls.index < n)

include hcls

@[grind ←] theorem declareSynthesized_keeps (han : an.Agrees an') {decl : FunctionDef} :
    Keeps n (declareSynthesized an frame decl cls scope)
      (declareSynthesized an' frame decl cls scope) := by
  unfold declareSynthesized
  refine .bind (declareFunction_keeps han fun c hc => ?_) fun item m hm _ => ?_
  · cases hc
    exact hcls
  · exact .bind (by grind) fun _ _ _ _ => .idle

@[grind ←] theorem synthesizeCopy_keeps (han : an.Agrees an') :
    Keeps n (synthesizeCopy an frame cls scope position)
      (synthesizeCopy an' frame cls scope position) := by
  unfold synthesizeCopy
  refine .bind makeCopyConstructor_keeps fun decl m hm _ => ?_
  refine .bind (declareSynthesized_keeps (Nat.lt_of_lt_of_le hcls hm) han) fun item k hk _ => ?_
  refine .bind (by grind) fun _ k₁ hk₁ _ => .bind (by grind) fun _ _ _ _ => ?_
  exact .idle

end

@[grind ←] theorem synthesizeMembers_keeps (han : an.Agrees an') {source : ClassSource} :
    Keeps n (synthesizeMembers an item source) (synthesizeMembers an' item source) := by
  unfold synthesizeMembers
  refine .bind_class fun c m hm _ hitem => ?_
  refine .bind (.forM fun _ _ _ _ => han.keeps _) fun _ k hk _ => ?_
  refine .bind (classNeedsCleanup_keeps han) fun needsCleanup k₁ hk₁ _ => ?_
  refine .bind (by grind) fun _ k₂ hk₂ _ => ?_
  dsimp only
  split
  on_goal 1 =>
    refine .bind (checkConstructible_keeps han) fun _ k₃ hk₃ _ => ?_
    refine .bind makeDefaultConstructor_keeps fun ctor k₄ hk₄ _ => ?_
    refine .bind (.discard (declareSynthesized_keeps (by grind) han)) fun _ k₅ hk₅ _ => ?_
  all_goals
    split
    on_goal 1 =>
      refine .bind makeMember_keeps fun dtor k₆ hk₆ _ => ?_
      refine .bind (.discard (declareSynthesized_keeps (by grind) han)) fun _ k₇ hk₇ _ => ?_
    all_goals
      refine .bind (by grind) fun hasCopy k₈ hk₈ _ => .bind get_keeps fun s k₉ hk₉ _ => ?_
      split
      on_goal 1 => refine .bind (synthesizeCopy_keeps (by grind) han) fun _ _ _ _ => ?_
      all_goals exact aside_keeps fun _ => rfl

theorem synthesize_keeps (han : an.Agrees an') :
    Keeps n (synthesize an item) (synthesize an' item) := by
  unfold synthesize
  refine .bind (han.keeps _) fun _ m hm _ => .bind classSource?_keeps fun source k hk _ => ?_
  split
  · exact .idle
  split
  · exact .idle
  · refine .bind (setStage_keeps (by decide)) fun _ _ _ _ => ?_
    exact andFinally_keeps (synthesizeMembers_keeps han) (setStage_keeps (by decide))

end Synthesis

/-! ## Bodies -/

section Bodies

variable {item : ItemId}

@[grind ←] theorem detailDefault_keeps (han : an.Agrees an') {written : Param Expr} {expected : Ty} :
    Keeps n (detailDefault an frame scope written expected)
      (detailDefault an' frame scope written expected) := by
  unfold detailDefault
  split
  · exact .idle
  · exact .bind (expr_keeps han) fun _ _ _ _ => checkAssignable_keeps

@[grind ←] theorem implicitSuperCall_keeps (han : an.Agrees an') {cls parent : ItemId} :
    Keeps n (implicitSuperCall an cls position parent)
      (implicitSuperCall an' cls position parent) := by
  unfold implicitSuperCall
  refine .bind (han.keeps _) fun _ m hm _ => .bind (by grind) fun c k hk _ => ?_
  split
  · exact .pure (known_of_namesNone _ _)
  · exact .bind itemName_keeps fun _ _ _ _ => .bind itemName_keeps fun _ _ _ _ => fail_keeps

@[grind ←] theorem implicitSuperCalls_keeps (han : an.Agrees an') :
    Keeps n (implicitSuperCalls an item scope position)
      (implicitSuperCalls an' item scope position) := by
  unfold implicitSuperCalls
  refine .bind (by grind) fun owner m hm _ => ?_
  split
  · exact .pure known_nil
  · refine .bind (by grind) fun c k hk _ => .bind get_keeps fun s k₁ hk₁ _ => ?_
    exact .mapM fun _ _ _ _ => implicitSuperCall_keeps han

theorem detailFunctionBody_keeps (han : an.Agrees an') {decl : FunctionDef} :
    Keeps n (detailFunctionBody an frame decl item) (detailFunctionBody an' frame decl item) := by
  unfold detailFunctionBody
  refine .bind_item fun entry m hm hentry _ => ?_
  split
  · exact .idle
  refine .bind (expect_keeps (by grind [Item.function?])) fun f k hk _ => ?_
  split
  · exact .idle
  refine .bind (.forM fun _ _ _ _ => detailDefault_keeps han) fun _ k₁ hk₁ _ => ?_
  have hlast : ∀ (implicitSuper : List ItemId) k, Later k₁ k → Known k implicitSuper → Keeps k
      (do
        finishFunction item
        let variants := ((← look (·.function? item)).map (·.variants)).getD []
        record frame decl.node (.function { function := item, variants, implicitSuper })
        applyAttributes an frame decl.attributes ⟨.fn, item⟩ decl.node entry.scope)
      (do
        finishFunction item
        let variants := ((← look (·.function? item)).map (·.variants)).getD []
        record frame decl.node (.function { function := item, variants, implicitSuper })
        applyAttributes an' frame decl.attributes ⟨.fn, item⟩ decl.node entry.scope) := by
    intro implicitSuper k _ _
    refine .bind finishFunction_keeps fun _ _ _ _ => .bind (by grind) fun _ _ _ _ => ?_
    exact .bind (recordUnnamed_keeps rfl) fun _ _ _ _ => applyAttributes_keeps han
  dsimp only
  split
  on_goal 1 => refine .bind (detailBlock_keeps han) fun _ k₂ hk₂ _ => ?_
  all_goals
    split
    · exact .bind (implicitSuperCalls_keeps han) fun made k hk => hlast made k (by grind)
    · exact .bind (.pure known_nil) fun made k hk => hlast made k (by grind)

@[grind ←] theorem detailLocalFunction_keeps (han : an.Agrees an') {decl : FunctionDef} :
    Keeps n (detailLocalFunction an frame decl scope) (detailLocalFunction an' frame decl scope) :=
  .bind (declareFunction_keeps han (by simp)) fun _ _ _ _ => han.keeps _

@[grind ←] theorem detailField_keeps (han : an.Agrees an') {field : FieldDecl Expr} :
    Keeps n (detailField an frame scope field) (detailField an' frame scope field) := by
  unfold detailField
  refine .bind declared?_keeps fun v m hm _ => ?_
  split
  · exact .idle
  dsimp only
  split
  on_goal 1 =>
    refine .bind (by grind) fun v k hk _ => .bind (expr_keeps han) fun info k₁ hk₁ _ => ?_
    refine .bind checkAssignable_keeps fun _ k₂ hk₂ _ => ?_
  all_goals exact .bind (recordUnnamed_keeps rfl) fun _ _ _ _ => applyAttributes_keeps han

@[grind ←] theorem detailMemberBodies_keeps (han : an.Agrees an') {members : List FunctionDef} :
    Keeps n (detailMemberBodies an frame members) (detailMemberBodies an' frame members) := by
  refine .filterMapM fun f _ m _ => .bind declared?_keeps fun item k hk _ => ?_
  split
  · exact .pure known_none
  · refine .bind (.discard (recover_keeps (han.keeps _))) fun _ _ _ _ => .pure ?_
    exact known_of_namesNone _ _

@[grind ←] theorem classScope_keeps : Keeps n (classScope item) (classScope item) := by
  unfold classScope
  grind

theorem detailClassBodies_keeps (han : an.Agrees an') :
    Keeps n (detailClassBodies an item) (detailClassBodies an' item) := by
  unfold detailClassBodies
  refine .bind (han.keeps _) fun _ m hm _ => .bind classSource?_keeps fun source k hk _ => ?_
  split
  · exact .idle
  split
  · exact .idle
  refine .bind (setStage_keeps (by decide)) fun _ k₁ hk₁ _ => ?_
  refine .bind classScope_keeps fun scope k₂ hk₂ _ => ?_
  refine .bind (.forM fun _ _ _ _ => detailField_keeps han) fun _ k₃ hk₃ _ => ?_
  refine .bind (.discard (detailMemberBodies_keeps han)) fun _ k₄ hk₄ _ => ?_
  refine .bind get_keeps fun s k₅ hk₅ _ => ?_
  refine .bind (detailMemberBodies_keeps han) fun synthesized k₆ hk₆ _ => ?_
  refine .bind (by grind) fun _ k₇ hk₇ _ => ?_
  exact .bind (recordUnnamed_keeps rfl) fun _ _ _ _ => applyAttributes_keeps han

@[grind ←] theorem detailLocalClass_keeps (han : an.Agrees an') {decl : ClassDef} :
    Keeps n (detailLocalClass an frame decl scope) (detailLocalClass an' frame decl scope) := by
  unfold detailLocalClass
  refine .bind declareClass_keeps fun item m hm _ => .bind classSource?_keeps fun source k hk _ => ?_
  split
  · exact .bind (han.keeps _) fun _ _ _ _ => han.keeps _
  · exact .idle

end Bodies

end SemanticAnalysis.Analysis
