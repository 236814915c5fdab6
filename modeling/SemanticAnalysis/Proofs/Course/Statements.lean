import SemanticAnalysis.Proofs.Course.Expressions

/-!
# Statements follow a course

Variables, imports and exports, class heads, synthesized members, bodies and control flow. Imports and
exports are where modules get linked (`openDependency_orderly`): the analyst gives an analysed module, and
the one that asks is under analysis. That is why a statement has to be hosted (`State.Hosts`). A body may
be analysed when its module is no longer on the stack, but its scope is an inner one, and an export in it
is refused before anything is linked.
-/

namespace SemanticAnalysis.Analysis

variable {α : Type} {s₀ : State} {frame : Frame} {node : Node} {scope : ScopeId}
variable {position : Position} {an : Analyst}

/-! ## Variables, namespaces and aliases -/

section Variables

variable {decl : VariableDecl Expr}

@[grind ←] theorem declaredType_orderly (han : an.Orderly) {written : TypeExpr} :
    Orderly s₀ (declaredType an frame decl written scope) := by
  unfold declaredType
  grind

@[grind ←] theorem addVariable_orderly {ty : Ty} :
    Orderly s₀ (addVariable frame decl ty scope) := by
  unfold addVariable
  refine .bind look_orderly fun owner => .bind (addItem_orderly (by simp)) fun item => ?_
  exact .guard (.discard exportItem_orderly) .pure

@[grind ←] theorem predeclareVariable_orderly (han : an.Orderly) :
    Orderly s₀ (predeclareVariable an frame decl scope) := by
  unfold predeclareVariable
  grind

@[grind ←] theorem initializedType_orderly (han : an.Orderly) {explicit : Option Ty}
    {initializer : Expr} :
    Orderly s₀ (initializedType an frame decl explicit initializer scope) := by
  unfold initializedType
  grind

@[grind ←] theorem uninitializedType_orderly (han : an.Orderly) {explicit : Option Ty} :
    Orderly s₀ (uninitializedType an decl explicit) := by
  unfold uninitializedType
  dsimp only
  split
  · exact failOther_orderly
  · refine .guard failOther_orderly ?_
    grind

@[grind ←] theorem explicitType_orderly (han : an.Orderly) {known : Option ItemId} :
    Orderly s₀ (explicitType an frame decl known scope) := by
  unfold explicitType
  grind

@[grind ←] theorem detailVariable_orderly (han : an.Orderly) :
    Orderly s₀ (detailVariable an frame decl scope) := by
  unfold detailVariable
  refine .bind declared?_orderly fun known => .bind (explicitType_orderly han) fun explicit => ?_
  have hlast : ∀ (ctor : Option ItemId) (v : ItemId), Orderly s₀ (do
      if decl.isConstant && decl.initializer.any (·.isConstantLiteral) then
        change (·.modifyVariable v fun v => { v with isLiteral := true })
      record frame decl.node (.declare v ctor)
      applyAttributes an frame decl.attributes ⟨.var, v⟩ decl.node scope) := fun ctor v =>
    .guard (change_orderly fun _ => .modifyVariable fun _ => rfl)
      (.bind record_orderly fun _ => applyAttributes_orderly han)
  dsimp only
  split
  on_goal 1 => refine .bind (.map (initializedType_orderly han)) fun made => ?_
  on_goal 2 => refine .bind (uninitializedType_orderly han) fun made => ?_
  all_goals
    cases known with
    | some v => exact .bind .pure (hlast made.2)
    | none =>
      refine .bind checkRedeclaration_orderly fun _ => ?_
      exact .bind addVariable_orderly (hlast made.2)

@[grind ←] theorem addLocal_orderly {ident : Ident} {ty : Ty} {owner : Option ItemId} :
    Orderly s₀ (addLocal frame ident ty owner scope) := addItem_orderly (by simp)

end Variables

@[grind ←] theorem spaceScope?_orderly : Orderly s₀ (spaceScope? frame node) := by
  unfold spaceScope?
  grind

@[grind ←] theorem createSpace_orderly {name : String} {v : Visibility} :
    Orderly s₀ (createSpace frame node name v scope) := by
  unfold createSpace
  refine .bind newScope_orderly fun own => .bind (addItem_orderly (by simp)) fun item => ?_
  exact .bind setOwner_orderly fun _ => .pure

@[grind ←] theorem declareSpace_orderly {name : String} {v : Visibility} :
    Orderly s₀ (declareSpace frame node name v scope) := by
  unfold declareSpace
  grind

@[grind ←] theorem bindAliasDecl_orderly {decl : AliasDecl} :
    Orderly s₀ (bindAliasDecl frame node decl scope) := by
  unfold bindAliasDecl
  refine .bind resolvePath_orderly fun target => ?_
  split
  · exact failOther_orderly
  · refine .bind checkRedeclaration_orderly fun _ => .bind (addItem_orderly (by simp)) fun item => ?_
    exact .bind recordDeclared_orderly fun _ => record_orderly

/-! ## Imports and exports -/

section Linkage

variable {module : ModuleId} {exports : ScopeId} {v : Visibility} {items : List ImportItem}

@[grind ←] theorem noLibrary_orderly {request : String} :
    Orderly s₀ (noLibrary request position : Analysis α) := .throw

@[grind ←] theorem resolveRequest_orderly {request : String} :
    Orderly s₀ (resolveRequest request module position) := by
  unfold resolveRequest
  grind

/-- A module under analysis is linked to one that is analysed. -/
theorem link_orderly {m d : ModuleId} {f : Analysis α}
    (h : s₀.attributes.Steady → m ∈ s₀.moduleStack ∧ d ∈ s₀.analysed) (hf : Orderly s₀ f) :
    Orderly s₀ (do
      change (·.modifyModule m (·.addDependency d))
      change (·.modifyModule d (·.addDependent m))
      f) := by
  intro s hs h₀
  have hlink : Course s (s.linked m d) := .link fun hd => by
    obtain ⟨hm, hdone⟩ := h (h₀.attributes_eq ▸ hd)
    exact ⟨h₀.moduleStack_eq ▸ hm, h₀.analysed_prefix.subset hdone⟩
  exact hlink.trans (hf (s.linked m d) (hlink.proper hs) (h₀.trans hlink))

theorem openDependency_orderly (han : an.Orderly) {request : String}
    (h : s₀.attributes.Steady → frame.module ∈ s₀.moduleStack) :
    Orderly s₀ (openDependency an frame request position) := by
  unfold openDependency
  refine .bind resolveRequest_orderly fun path => ?_
  refine .bind_from (han.ask _ trivial) fun s d s' hs h₀ hrun hask => ?_
  have hgiven := han.gives path request position s d s' hs hask
  have hcourse := h₀.trans hrun
  refine link_orderly (fun hd => ⟨?_, hgiven⟩) (.bind look_orderly fun _ => expect_orderly)
  rw [hcourse.moduleStack_eq]
  exact h (hcourse.attributes_eq ▸ hd)

@[grind ←] theorem bindSelected_orderly :
    Orderly s₀ (bindSelected module items exports scope v) := by
  unfold bindSelected
  grind

@[grind ←] theorem bindAll_orderly : Orderly s₀ (bindAll module exports scope v position) := by
  unfold bindAll
  grind

@[grind ←] theorem bindSpace_orderly {ident : Ident} :
    Orderly s₀ (bindSpace module ident exports scope position) := by
  unfold bindSpace
  refine .bind newScope_orderly fun own => .bind checkRedeclaration_orderly fun _ => ?_
  refine .bind (addItem_orderly (by simp)) fun item => .bind setOwner_orderly fun _ => ?_
  exact .bind (.discard bindAll_orderly) fun _ => .pure

theorem detailImport_orderly (han : an.Orderly) {decl : ImportDecl}
    (h : s₀.attributes.Steady → frame.module ∈ s₀.moduleStack) :
    Orderly s₀ (detailImport an frame node decl scope) := by
  unfold detailImport
  refine .bind (openDependency_orderly han h) fun source => ?_
  split
  · exact .bind bindSelected_orderly fun _ => record_orderly
  · exact .bind (.map bindSpace_orderly) fun _ => record_orderly
  · exact .bind bindAll_orderly fun _ => record_orderly

@[grind ←] theorem exportOwn_orderly : Orderly s₀ (exportOwn frame items scope) := by
  unfold exportOwn
  grind

/-- An export stands in the scope of its module, so that module is under analysis. -/
theorem detailExport_orderly (han : an.Orderly) {decl : ExportDecl} (h : s₀.Hosts frame scope) :
    Orderly s₀ (detailExport an frame node decl scope) := by
  unfold detailExport
  refine .bind_from look_orderly fun s known s' hs h₀ _ hlook => ?_
  cases hlook
  refine bind_expect fun own hown => ?_
  dsimp only
  split
  · exact .of_behind_eq fun _ => rfl
  · rename_i hscope
    have hstack : s.attributes.Steady → frame.module ∈ s.moduleStack := by
      intro hd
      refine (h₀.hosts h hd).resolve_right fun hinner => ?_
      exact (hs.nested hd).ne_of_isInner hown hinner (by simpa using hscope)
    split
    · exact .bind exportOwn_orderly fun _ => record_orderly
    · refine .bind (openDependency_orderly han hstack) fun source => ?_
      split
      · exact .bind bindAll_orderly fun _ => record_orderly
      · exact .bind bindSelected_orderly fun _ => record_orderly

end Linkage

/-! ## Class heads -/

section ClassHeads

variable {decl : ClassDef} {item : ItemId}

@[grind ←] theorem declareClassTemplate_orderly :
    Orderly s₀ (declareClassTemplate frame decl scope) := by
  have hcreates := @creates_declared scope
    (fun own => { name := decl.name.name, scope, module := frame.module
                  visibility := decl.visibility, position := decl.node.position
                  generics := decl.generics.length
                  entity := .cls { scope := own, flags := decl.flags } }) ScopeOwner.cls (by simp)
  have hlast : ∀ (s : State) (item : ItemId), Orderly s (do
      record frame decl.node (.cls { cls := item, isTemplate := true })
      return item) := fun _ _ => .bind record_orderly fun _ => .pure
  have hfiled : Orderly s₀ _ := .bind_template hcreates (t := .cls decl scope frame.module) hlast
  simpa only [declareClassTemplate, bind_assoc, pure_bind] using hfiled

@[grind ←] theorem declareClass_orderly : Orderly s₀ (declareClass frame decl scope) := by
  unfold declareClass
  refine .bind declared?_orderly fun known => ?_
  split
  · exact .pure
  refine .bind checkRedeclaration_orderly fun _ => ?_
  have hlast : ∀ item : ItemId, Orderly s₀ (do
      let isModuleScope ← look fun t => (t.module? frame.module).any (·.scope == scope)
      if decl.flags.exported && isModuleScope then
        discard <| exportItem frame.module decl.name.name item decl.node.position
      recordDeclared frame decl.node item
      return item) := fun item =>
    .bind look_orderly fun _ => .guard (.discard exportItem_orderly)
      (.bind recordDeclared_orderly fun _ => .pure)
  split
  · exact .bind declareClassTemplate_orderly hlast
  · exact .bind createClass_orderly hlast

@[grind ←] theorem classScope_orderly : Orderly s₀ (classScope item) := by
  unfold classScope
  grind

@[grind ←] theorem resolveParent_orderly (han : an.Orderly) {earlier : List ItemId}
    {written : TypeExpr} : Orderly s₀ (resolveParent an frame item scope earlier written) := by
  unfold resolveParent
  refine .bind (type_orderly han) fun ty => ?_
  split
  · exact .bind typeText_orderly fun _ => failOther_orderly
  · refine .bind (signatures_orderly han) fun _ => .bind look_orderly fun _ => ?_
    grind

@[grind ←] theorem resolveParents_orderly (han : an.Orderly) :
    Orderly s₀ (resolveParents an frame decl item scope) := by
  unfold resolveParents
  grind

@[grind ←] theorem resolveUnderlying_orderly (han : an.Orderly) :
    Orderly s₀ (resolveUnderlying an frame decl item scope) := by
  unfold resolveUnderlying
  grind

@[grind ←] theorem checkCapacity_orderly {bits : Nat} : Orderly s₀ (checkCapacity decl item bits) := by
  unfold checkCapacity
  grind

@[grind ←] theorem fieldType_orderly (han : an.Orderly) {field : FieldDecl Expr} :
    Orderly s₀ (fieldType an frame field scope) := by
  unfold fieldType
  grind

@[grind ←] theorem fieldVariable_orderly {field : FieldDecl Expr} {ty : Ty} {isBitfield : Bool} :
    Orderly s₀ (fieldVariable field ty isBitfield) := by
  unfold fieldVariable
  grind

@[grind ←] theorem declareField_orderly (han : an.Orderly) {isBitfield : Bool}
    {field : FieldDecl Expr} :
    Orderly s₀ (declareField an frame item scope isBitfield field) := by
  unfold declareField
  refine .bind checkRedeclaration_orderly fun _ => .bind (fieldType_orderly han) fun ty => ?_
  refine .bind fieldVariable_orderly fun v => .bind (addItem_orderly (by simp)) fun member => ?_
  grind

@[grind ←] theorem declareFields_orderly (han : an.Orderly) :
    Orderly s₀ (declareFields an frame decl item scope) := by
  unfold declareFields
  grind

@[grind ←] theorem declareMemberFunctions_orderly (han : an.Orderly) :
    Orderly s₀ (declareMemberFunctions an frame decl item scope) := by
  unfold declareMemberFunctions
  grind

@[grind ←] theorem classSignatures_orderly (han : an.Orderly) :
    Orderly s₀ (classSignatures an item) := by
  unfold classSignatures
  refine .bind classSource?_orderly fun source => ?_
  split
  · exact .pure
  split
  · exact .pure
  refine .bind setStage_orderly fun _ => .bind classScope_orderly fun scope => ?_
  refine .bind (resolveParents_orderly han) fun parents => ?_
  refine .bind (change_orderly fun _ => .modifyClass fun _ => rfl) fun _ => ?_
  refine .guard (resolveUnderlying_orderly han) (.bind (declareFields_orderly han) fun bits => ?_)
  exact .guard checkCapacity_orderly (declareMemberFunctions_orderly han)

end ClassHeads

/-! ## Synthesis -/

section Synthesis

variable {item : ItemId}

@[grind ←] theorem isDefaultConstructible_orderly (han : an.Orderly) {ty : Ty} :
    Orderly s₀ (isDefaultConstructible an ty) := by
  unfold isDefaultConstructible isDefaultConstructibleClass
  grind

@[grind ←] theorem typeNeedsCleanup_orderly (han : an.Orderly) {ty : Ty} :
    Orderly s₀ (typeNeedsCleanup an ty) := by
  unfold typeNeedsCleanup
  grind

@[grind ←] theorem classNeedsCleanup_orderly (han : an.Orderly) {c : Class} :
    Orderly s₀ (classNeedsCleanup an c) := by
  unfold classNeedsCleanup
  grind

@[grind ←] theorem checkFieldConstructible_orderly (han : an.Orderly) {name : String}
    {field : FieldDecl Expr} : Orderly s₀ (checkFieldConstructible an item name field) := by
  unfold checkFieldConstructible
  grind

@[grind ←] theorem checkParentConstructible_orderly (han : an.Orderly) {name : String}
    {parent : ItemId} : Orderly s₀ (checkParentConstructible an name position parent) := by
  unfold checkParentConstructible
  grind

@[grind ←] theorem checkConstructible_orderly (han : an.Orderly) {decl : ClassDef} :
    Orderly s₀ (checkConstructible an item decl) := by
  unfold checkConstructible
  grind

@[grind ←] theorem makeMember_orderly {role : Role} {params : List (Param Expr)}
    {body : List Stmt} : Orderly s₀ (makeMember role params body position) := by
  unfold makeMember
  grind

@[grind ←] theorem makeDefaultConstructor_orderly {hasParents : Bool} :
    Orderly s₀ (makeDefaultConstructor hasParents position) := by
  unfold makeDefaultConstructor
  grind

@[grind ←] theorem makeCopyConstructor_orderly : Orderly s₀ (makeCopyConstructor position) := by
  unfold makeCopyConstructor
  grind

@[grind ←] theorem declareSynthesized_orderly (han : an.Orderly) {decl : FunctionDef} :
    Orderly s₀ (declareSynthesized an frame decl item scope) := by
  unfold declareSynthesized
  grind

@[grind ←] theorem synthesizeCopy_orderly (han : an.Orderly) :
    Orderly s₀ (synthesizeCopy an frame item scope position) := by
  unfold synthesizeCopy
  grind

@[grind ←] theorem synthesizeMembers_orderly (han : an.Orderly) {source : ClassSource} :
    Orderly s₀ (synthesizeMembers an item source) := by
  unfold synthesizeMembers
  refine .bind look_orderly fun known => .bind expect_orderly fun c => ?_
  refine .bind (.forM fun _ _ => synthesis_orderly han) fun _ => ?_
  refine .bind (classNeedsCleanup_orderly han) fun needsCleanup => ?_
  refine .bind (change_orderly fun _ => .modifyClass fun _ => rfl) fun _ => ?_
  dsimp only
  split
  on_goal 1 =>
    refine .bind (checkConstructible_orderly han) fun _ => ?_
    refine .bind makeDefaultConstructor_orderly fun ctor => ?_
    refine .bind (.discard (declareSynthesized_orderly han)) fun _ => ?_
  all_goals
    split
    on_goal 1 =>
      refine .bind makeMember_orderly fun dtor => ?_
      refine .bind (.discard (declareSynthesized_orderly han)) fun _ => ?_
    all_goals
      refine .bind look_orderly fun hasCopy => .bind .get fun s => ?_
      split
      on_goal 1 => refine .bind (synthesizeCopy_orderly han) fun _ => ?_
      all_goals exact .alter fun s => { State.Ordinary.refl s with }

@[grind ←] theorem synthesize_orderly (han : an.Orderly) : Orderly s₀ (synthesize an item) := by
  unfold synthesize
  grind

end Synthesis

/-! ## Bodies -/

section Bodies

variable {item : ItemId}

theorem detailBlock_orderly (han : an.Orderly) {b : Block Stmt} (h : s₀.Hosts frame scope) :
    Orderly s₀ (detailBlock an frame b scope) :=
  .bind (stmts_orderly han h) fun _ => record_orderly

@[grind ←] theorem stopInferring_orderly : Orderly s₀ (stopInferring item) :=
  .alter fun s => { State.Ordinary.refl s with }

/-- The body of a lambda has a scope of its own. -/
theorem bind_declareLambda (han : an.Orderly) {params : List (Param Expr)}
    {returnType : Option TypeExpr} {f : ItemId × ScopeId → Analysis α}
    (hf : ∀ s item own, s.Hosts frame own → Orderly s (f (item, own))) :
    Orderly s₀ (declareLambda an frame node params returnType scope >>= f) := by
  rcases returnType with _ | written
  all_goals
    simp only [declareLambda, bind_assoc, pure_bind]
    refine .bind (.alter fun s => { State.Ordinary.refl s with }) fun _ => .bind .get fun count => ?_
  on_goal 2 => refine .bind (type_orderly han) fun result => ?_
  all_goals
    refine .bind_newScope fun s own _ hinner => ?_
    refine .bind (addFunction_orderly fun f hf => by cases hf; exact ⟨hinner, rfl, rfl⟩) fun item => ?_
    refine .bind setOwner_orderly fun _ => .bind (bindParameters_orderly han) fun bound => ?_
    refine .bind (change_orderly fun _ => .modifyFunction fun _ => ⟨rfl, rfl⟩) fun _ => ?_
    exact hf s item own fun _ => .inr hinner

@[grind ←] theorem detailLambda_orderly (han : an.Orderly) {params : List (Param Expr)}
    {returnType : Option TypeExpr} {body : Block Stmt} :
    Orderly s₀ (detailLambda an frame node params returnType body scope) := by
  unfold detailLambda
  refine bind_declareLambda han fun s item own hown => ?_
  refine .guard (.alter fun s => { State.Ordinary.refl s with }) ?_
  refine .bind (andFinally_orderly (detailBlock_orderly han hown) stopInferring_orderly) fun _ => ?_
  refine .bind finishFunction_orderly fun _ => .bind sealWhenDone_orderly fun _ => ?_
  exact .bind look_orderly fun ty => .bind record_orderly fun _ => .pure

@[grind ←] theorem detailDefault_orderly (han : an.Orderly) {written : Param Expr} {expected : Ty} :
    Orderly s₀ (detailDefault an frame scope written expected) := by
  unfold detailDefault
  grind

@[grind ←] theorem implicitSuperCall_orderly (han : an.Orderly) {cls parent : ItemId} :
    Orderly s₀ (implicitSuperCall an cls position parent) := by
  unfold implicitSuperCall
  grind

@[grind ←] theorem implicitSuperCalls_orderly (han : an.Orderly) :
    Orderly s₀ (implicitSuperCalls an item scope position) := by
  unfold implicitSuperCalls
  grind

/-- The statements of a function are inside of it. -/
theorem detailFunctionBody_orderly (han : an.Orderly) {decl : FunctionDef} :
    Orderly s₀ (detailFunctionBody an frame decl item) := by
  unfold detailFunctionBody
  refine .bind_from look_orderly fun s known s' hs h₀ _ hlook => ?_
  cases hlook
  refine bind_expect fun entry hentry => ?_
  split
  · exact .pure
  refine bind_expect fun f hf => ?_
  split
  · exact .pure
  have hhosts : s.Hosts frame f.scope := fun hd => by
    have hfunction : (s.table.item? item).bind Item.function? = some f := by
      rw [show s.table.item? item = some entry from hentry]
      exact hf
    exact .inr ((hs.nested hd).functions item f hfunction)
  refine .bind (.forM fun _ _ => detailDefault_orderly han) fun _ => ?_
  have hlast : ∀ implicitSuper : List ItemId, Orderly s (do
      finishFunction item
      let variants := ((← look (·.function? item)).map (·.variants)).getD []
      record frame decl.node (.function { function := item, variants, implicitSuper })
      applyAttributes an frame decl.attributes ⟨.fn, item⟩ decl.node entry.scope) := fun _ =>
    .bind finishFunction_orderly fun _ => .bind look_orderly fun _ =>
      .bind record_orderly fun _ => applyAttributes_orderly han
  have hsuper : Orderly s (do
      let isOwnCopy := f.flags.synthesized && f.flags.copyConstruct
      let implicitSuper ←
        if f.flags.construct && !isOwnCopy then
          implicitSuperCalls an item entry.scope decl.node.position
        else pure []
      finishFunction item
      let variants := ((← look (·.function? item)).map (·.variants)).getD []
      record frame decl.node (.function { function := item, variants, implicitSuper })
      applyAttributes an frame decl.attributes ⟨.fn, item⟩ decl.node entry.scope) := by
    dsimp only
    split
    · exact .bind (implicitSuperCalls_orderly han) hlast
    · exact .bind .pure hlast
  split
  · exact .bind (detailBlock_orderly han hhosts) fun _ => hsuper
  · exact hsuper

@[grind ←] theorem detailLocalFunction_orderly (han : an.Orderly) {decl : FunctionDef} :
    Orderly s₀ (detailLocalFunction an frame decl scope) := by
  unfold detailLocalFunction
  grind

@[grind ←] theorem detailField_orderly (han : an.Orderly) {field : FieldDecl Expr} :
    Orderly s₀ (detailField an frame scope field) := by
  unfold detailField
  refine .bind declared?_orderly fun known => ?_
  have hlast : ∀ v : ItemId, Orderly s₀ (do
      record frame field.node (.field v)
      applyAttributes an frame field.attributes ⟨.field, v⟩ field.node scope) := fun _ =>
    .bind record_orderly fun _ => applyAttributes_orderly han
  split
  · exact .pure
  split
  · refine .bind look_orderly fun _ => .bind (expr_orderly han) fun info => ?_
    exact .bind checkAssignable_orderly fun _ => hlast _
  · exact hlast _

@[grind ←] theorem detailMemberBodies_orderly (han : an.Orderly) {members : List FunctionDef} :
    Orderly s₀ (detailMemberBodies an frame members) := by
  unfold detailMemberBodies
  grind

@[grind ←] theorem detailClassBodies_orderly (han : an.Orderly) :
    Orderly s₀ (detailClassBodies an item) := by
  unfold detailClassBodies
  refine .bind (synthesis_orderly han) fun _ => .bind classSource?_orderly fun source => ?_
  split
  · exact .pure
  split
  · exact .pure
  refine .bind setStage_orderly fun _ => .bind classScope_orderly fun scope => ?_
  refine .bind (.forM fun _ _ => detailField_orderly han) fun _ => ?_
  refine .bind (.discard (detailMemberBodies_orderly han)) fun _ => .bind .get fun s => ?_
  refine .bind (detailMemberBodies_orderly han) fun synthesized => ?_
  refine .bind (change_orderly fun _ => .modifyClass fun _ => rfl) fun _ => ?_
  exact .bind record_orderly fun _ => applyAttributes_orderly han

@[grind ←] theorem detailLocalClass_orderly (han : an.Orderly) {decl : ClassDef} :
    Orderly s₀ (detailLocalClass an frame decl scope) := by
  unfold detailLocalClass
  grind

end Bodies

/-! ## Control -/

section Control

@[grind ←] theorem detailBranch_orderly (han : an.Orderly) {body : Stmt} :
    Orderly s₀ (detailBranch an frame body scope) := by
  unfold detailBranch
  refine .bind_newScope fun s inner _ hinner => ?_
  have hhosts : s.Hosts frame inner := fun _ => .inr hinner
  split
  · exact .bind (detailBlock_orderly han hhosts) fun _ => .pure
  · exact .bind (han.ask (.stmt ..) hhosts) fun _ => .pure

@[grind ←] theorem detailIf_orderly (han : an.Orderly) {condition : Expr} {yes : Stmt}
    {no : Option Stmt} : Orderly s₀ (detailIf an frame node condition yes no scope) := by
  unfold detailIf
  grind

@[grind ←] theorem detailLoop_orderly (han : an.Orderly) {condition : Expr} {body : Stmt}
    {tail : Bool} : Orderly s₀ (detailLoop an frame node condition body tail scope) := by
  unfold detailLoop
  grind

@[grind ←] theorem detailFor_orderly (han : an.Orderly) {init : Option Stmt}
    {condition update : Option Expr} {body : Stmt} :
    Orderly s₀ (detailFor an frame node init condition update body scope) := by
  unfold detailFor
  refine .bind_newScope fun s own _ hinner => ?_
  have hhosts : s.Hosts frame own := fun _ => .inr hinner
  refine .bind (.forM fun _ _ => han.ask (.stmt ..) hhosts) fun _ => ?_
  grind

@[grind ←] theorem elementType_orderly (han : an.Orderly) {name : Ident} {ty : Option TypeExpr}
    {element : Ty} : Orderly s₀ (elementType an frame name ty element scope) := by
  unfold elementType
  grind

@[grind ←] theorem detailForEach_orderly (han : an.Orderly) {name : Ident} {ty : Option TypeExpr}
    {iterable : Expr} {body : Stmt} :
    Orderly s₀ (detailForEach an frame node name ty iterable body scope) := by
  unfold detailForEach
  refine .bind (expr_orderly han) fun info => ?_
  dsimp only
  split
  · refine .bind (signatures_orderly han) fun _ => .bind look_orderly fun found => ?_
    split
    · refine .bind newScope_orderly fun own => .bind (elementType_orderly han) fun declared => ?_
      refine .bind look_orderly fun owner => .bind addLocal_orderly fun v => ?_
      refine .bind linkThrows_orderly fun _ => .bind (.discard (detailBranch_orderly han)) fun _ => ?_
      exact record_orderly
    · exact .bind typeText_orderly fun _ => fail_orderly
  · exact .bind typeText_orderly fun _ => fail_orderly

@[grind ←] theorem checkReturn_orderly {value : Option (Expr × Ty)} {expected : Ty} :
    Orderly s₀ (checkReturn frame value expected position) := by
  unfold checkReturn
  grind

@[grind ←] theorem detailReturn_orderly (han : an.Orderly) {value : Option Expr} :
    Orderly s₀ (detailReturn an frame node value scope) := by
  unfold detailReturn
  refine .bind look_orderly fun function => ?_
  split
  · refine .bind (.optionMapM fun e => .bind (expr_orderly han) fun _ => .pure) fun returned => ?_
    refine .bind .get fun s => ?_
    dsimp only
    split
    on_goal 1 =>
      refine .bind stopInferring_orderly fun _ => ?_
      refine .bind (change_orderly fun _ => .modifyFunction fun _ => ⟨rfl, rfl⟩) fun _ => ?_
    all_goals
      refine .bind look_orderly fun _ => .bind expect_orderly fun f => ?_
      exact .bind checkReturn_orderly fun _ => record_orderly
  · exact misplaced_orderly

@[grind ←] theorem detailRaise_orderly (han : an.Orderly) {value : Expr} :
    Orderly s₀ (detailRaise an frame node value scope) := by
  unfold detailRaise
  grind

@[grind ←] theorem detailCatch_orderly (han : an.Orderly) {owner : Option ItemId}
    {clause : CatchClause Stmt} {ty : Option Ty} :
    Orderly s₀ (detailCatch an frame owner scope clause ty) := by
  unfold detailCatch
  refine .bind_newScope fun s own _ hinner => ?_
  refine .bind (.optionMapM fun _ => addLocal_orderly) fun var => ?_
  exact .bind (detailBlock_orderly han fun _ => .inr hinner) fun _ => .pure

@[grind ←] theorem detailTry_orderly (han : an.Orderly) {body : Block Stmt}
    {catches : List (CatchClause Stmt)} :
    Orderly s₀ (detailTry an frame node body catches scope) := by
  unfold detailTry
  refine .bind_newScope fun s own _ hinner => ?_
  refine .bind (change_orderly fun _ => .modifyScope (fun _ => rfl) fun _ => List.prefix_rfl)
    fun _ => ?_
  refine .bind (.mapM fun _ _ => .optionMapM fun _ => type_orderly han) fun types => ?_
  refine .bind (.alter fun s => { State.Ordinary.refl s with }) fun _ => ?_
  refine .bind (detailBlock_orderly han fun _ => .inr hinner) fun _ => ?_
  refine .bind look_orderly fun owner => .bind (.mapM fun _ _ => detailCatch_orderly han) fun _ => ?_
  exact .bind look_orderly fun _ => .bind (.forM fun _ _ => raise_orderly) fun _ => record_orderly

@[grind ←] theorem detailDelete_orderly (han : an.Orderly) {value : Expr} {persistent : Bool} :
    Orderly s₀ (detailDelete an frame node value persistent scope) := by
  unfold detailDelete
  grind

@[grind ←] theorem detailAlias_orderly {decl : AliasDecl} :
    Orderly s₀ (detailAlias frame node decl scope) := by
  unfold detailAlias
  grind

theorem detailStmt_orderly (han : an.Orderly) {stmt : Stmt} (h : s₀.Hosts frame scope) :
    Orderly s₀ (detailStmt an frame stmt scope) := by
  unfold detailStmt
  split
  case h_3 =>
    refine .bind_newScope fun s own _ hinner => ?_
    exact detailBlock_orderly han fun _ => .inr hinner
  case h_18 => exact detailExport_orderly han h
  all_goals grind

end Control

end SemanticAnalysis.Analysis
