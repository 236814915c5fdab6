import SemanticAnalysis.Proofs.Safety.Expressions

/-!
# Class heads and bodies are safe

The table of classes names classes only, so a class that is looked up there has a scope, and a body is only
analysed for a function. Members that a class gets without writing them are trees of new nodes, which the
analysis makes for a declaration of a function (`World.Made`); such a tree can be analysed in the frame of
every class.
-/

namespace SemanticAnalysis

namespace World

variable {w w' : World} {made : List FunctionDef}

/-- The analysis made the trees of these member functions. -/
def HasMade (w : World) (made : List FunctionDef) : Prop := ∀ d ∈ made, w.Made (Stmt.functionDecls d)

theorem HasMade.nil (w : World) : w.HasMade [] := fun _ hd => absurd hd List.not_mem_nil

theorem HasMade.lasts (hmade : w.HasMade made) (h : w.Leads w') : w'.HasMade made :=
  fun d hd => h.isMade (hmade d hd)

theorem HasMade.concat {d : FunctionDef} (hmade : w.HasMade made) (hd : w.Made (Stmt.functionDecls d)) :
    w.HasMade (made ++ [d]) := by
  intro d' hd'
  rcases List.mem_append.1 hd' with hold | hnew
  · exact hmade d' hold
  · cases List.mem_singleton.1 hnew
    exact hd

theorem made_noParams (w : World) : w.Made (Expr.paramDecls []) := by
  rw [Expr.paramDecls]
  exact nofun

end World

namespace Analysis

variable {α : Type} {w₀ : World} {frame : Frame} {node : Node} {scope : ScopeId}
variable {position : Position} {an : Analyst} {item : ItemId}

/-! ## Class heads -/

section Heads

variable {decl : ClassDef}

theorem declareClassTemplate_assures (h : w₀.Hosts frame (Stmt.classDecls decl)) :
    Assures w₀ (declareClassTemplate frame decl scope) fun w i => w.HasKind i .cls := by
  unfold declareClassTemplate
  refine .after newScope_safe fun own => ?_
  refine .bind (addItem_assures (by simp)) fun w item h₀ hitem => ?_
  refine .after (setClass_safe hitem) fun _ => ?_
  refine .after (keepTemplate_safe ⟨(h₀.hosts h).module, (h₀.hosts h).admits⟩) fun _ => ?_
  exact .after record_safe fun _ => .pure fun _ h₁ _ => h₁.hasKind hitem

@[grind ←] theorem declareClass_safe (h : w₀.Hosts frame (Stmt.classDecls decl)) :
    Safe w₀ (declareClass frame decl scope) := by
  have hnode : w₀.Hosts frame [decl.node.ofOther] :=
    (World.Hosts.cons_iff.1 (Stmt.classDecls_eq decl ▸ h)).1
  have hlast : ∀ w : World, w₀.Leads w → ∀ item, w.HasKind item .cls → Safe w (do
      let isModuleScope ← look fun t => (t.module? frame.module).any (·.scope == scope)
      if decl.flags.exported && isModuleScope then
        discard <| exportItem frame.module decl.name.name item decl.node.position
      recordDeclared frame decl.node item
      return item) := by
    intro w h₀ item hitem
    refine .bind look_safe fun isModuleScope => .guard (.discard ?_) ?_
    · exact exportItem_safe (h₀.hasModule h.module) hitem.hasItem
    · exact .bind (recordOther_safe (h₀.hosts hnode)) fun _ => .pure
  unfold declareClass
  refine .bind declared?_safe fun known => ?_
  split
  · exact .pure
  refine .bind checkRedeclaration_safe fun _ => ?_
  dsimp only
  split
  · exact .bind_assures (declareClassTemplate_assures h) fun w item h₀ hitem => hlast w h₀ item hitem
  · exact .bind_assures (createClass_assures h) fun w item h₀ hitem => hlast w h₀ item hitem

@[grind ←] theorem classScope_safe (h : w₀.HasKind item .cls) : Safe w₀ (classScope item) := by
  unfold classScope
  exact .bind_class h fun _ => .pure

@[grind ←] theorem resolveParent_safe (han : an.Reliable) {earlier : List ItemId}
    {written : TypeExpr} : Safe w₀ (resolveParent an frame item scope earlier written) := by
  unfold resolveParent
  refine .bind (type_safe han) fun ty => ?_
  split
  · exact .bind typeText_safe fun _ => failOther_safe
  · refine .bind (signatures_safe han) fun _ => .bind look_safe fun _ => ?_
    grind

@[grind ←] theorem resolveParents_safe (han : an.Reliable) :
    Safe w₀ (resolveParents an frame decl item scope) :=
  .foldlM fun _ _ _ => .bind (resolveParent_safe han) fun _ => .pure

@[grind ←] theorem resolveUnderlying_safe (han : an.Reliable) :
    Safe w₀ (resolveUnderlying an frame decl item scope) := by
  unfold resolveUnderlying
  grind

@[grind ←] theorem checkCapacity_safe {bits : Nat} : Safe w₀ (checkCapacity decl item bits) := by
  unfold checkCapacity
  grind

@[grind ←] theorem fieldType_safe (han : an.Reliable) {field : FieldDecl Expr}
    (h : w₀.Hosts frame (Expr.optionDecls field.initializer)) :
    Safe w₀ (fieldType an frame field scope) := by
  unfold fieldType
  cases hinitializer : field.initializer with
  | none => grind
  | some e =>
    have he : w₀.Hosts frame e.decls := Expr.optionDecls.eq_2 e ▸ hinitializer ▸ h
    grind

@[grind ←] theorem fieldVariable_safe {field : FieldDecl Expr} {ty : Ty} {isBitfield : Bool} :
    Safe w₀ (fieldVariable field ty isBitfield) := by
  unfold fieldVariable
  grind

@[grind ←] theorem declareField_safe (han : an.Reliable) {isBitfield : Bool} {field : FieldDecl Expr}
    (h : w₀.Hosts frame (Stmt.fieldDecls field)) :
    Safe w₀ (declareField an frame item scope isBitfield field) := by
  have hparts := World.Hosts.cons_iff.1 (Stmt.fieldDecls_eq field ▸ h)
  unfold declareField
  refine .bind checkRedeclaration_safe fun _ => .bind (fieldType_safe han hparts.2) fun ty => ?_
  refine .bind fieldVariable_safe fun v => .bind (addItem_safe (by simp)) fun member => ?_
  refine .bind (change_safe fun _ => .modifyClass) fun _ => ?_
  exact .bind (recordOther_safe hparts.1) fun _ => .pure

@[grind ←] theorem declareFields_safe (han : an.Reliable) (h : w₀.Hosts frame (Stmt.classDecls decl)) :
    Safe w₀ (declareFields an frame decl item scope) :=
  .foldlM fun _ _ hfield =>
    .bind (declareField_safe han (h.subset (Stmt.decls_subset_of_field hfield))) fun _ => .pure

@[grind ←] theorem declareMemberFunctions_safe (han : an.Reliable) (hitem : w₀.HasKind item .cls)
    (h : w₀.Hosts frame (Stmt.classDecls decl)) :
    Safe w₀ (declareMemberFunctions an frame decl item scope) := by
  have hmembers : Safe w₀ (decl.functions.forM fun f =>
      discard <| declareFunction an frame f scope (some item)) := by
    refine .forM fun f hf => .discard (declareFunction_assures han ?_ ?_).safe
    · exact h.subset (Stmt.decls_subset_of_function hf)
    · rintro c ⟨⟩
      exact hitem
  unfold declareMemberFunctions
  split
  · exact .bind misplaced_safe fun _ => hmembers
  · exact hmembers

/-- The class table has a declaration for every class that can be looked up in it. -/
@[grind ←] theorem classSignatures_safe (han : an.Reliable) : Safe w₀ (classSignatures an item) := by
  unfold classSignatures
  refine .bind_assures classSource?_assures fun w source h₀ hsource => ?_
  split
  · exact .pure
  rename_i decl frame stage
  have hclass := hsource _ rfl
  have hdecl : w.Hosts frame (Stmt.classDecls decl) := hclass.hosts
  split
  · exact .pure
  refine .bind setStage_safe fun _ => .bind (classScope_safe hclass.isClass) fun scope => ?_
  refine .bind (resolveParents_safe han) fun parents => ?_
  refine .bind (change_safe fun _ => .modifyClass) fun _ => ?_
  refine .guard (resolveUnderlying_safe han) (.bind (declareFields_safe han hdecl) fun bits => ?_)
  exact .guard checkCapacity_safe (declareMemberFunctions_safe han hclass.isClass hdecl)

end Heads

/-! ## Synthesized members -/

section Synthesis


@[grind ←] theorem isDefaultConstructible_safe (han : an.Reliable) {ty : Ty} :
    Safe w₀ (isDefaultConstructible an ty) := by
  unfold isDefaultConstructible isDefaultConstructibleClass
  grind

@[grind ←] theorem typeNeedsCleanup_safe (han : an.Reliable) {ty : Ty} :
    Safe w₀ (typeNeedsCleanup an ty) := by
  unfold typeNeedsCleanup
  grind

@[grind ←] theorem classNeedsCleanup_safe (han : an.Reliable) {c : Class} :
    Safe w₀ (classNeedsCleanup an c) := by
  unfold classNeedsCleanup
  grind

@[grind ←] theorem checkFieldConstructible_safe (han : an.Reliable) {name : String}
    {field : FieldDecl Expr} : Safe w₀ (checkFieldConstructible an item name field) := by
  unfold checkFieldConstructible
  grind

@[grind ←] theorem checkParentConstructible_safe (han : an.Reliable) {name : String}
    {parent : ItemId} : Safe w₀ (checkParentConstructible an name position parent) := by
  unfold checkParentConstructible
  grind

@[grind ←] theorem checkConstructible_safe (han : an.Reliable) {decl : ClassDef} :
    Safe w₀ (checkConstructible an item decl) := by
  unfold checkConstructible
  grind

/-- The tree of a member function is all new, if its parameters and its body are. -/
theorem makeMember_assures {role : Role} {params : List (Param Expr)} {body : List Stmt}
    (hparams : w₀.Made (Expr.paramDecls params)) (hbody : Stmt.rowDecls body = []) :
    Assures w₀ (makeMember role params body position) fun w decl => w.Made (Stmt.functionDecls decl) := by
  unfold makeMember
  refine .bind (freshNode_assures true) fun w node h₀ hnode => .after freshNode_safe fun block => ?_
  refine .pure fun w' h₁ _ => ?_
  rw [Stmt.functionDecls_eq, Stmt.bodyDecls, Stmt.blockDecls_eq, hbody, List.append_nil]
  intro d hd
  rcases List.mem_cons.1 hd with rfl | hd
  · exact h₁.isMade hnode _ List.mem_cons_self
  · exact (h₀.trans h₁).isMade hparams d hd

theorem makeDefaultConstructor_assures {hasParents : Bool} :
    Assures w₀ (makeDefaultConstructor hasParents position) fun w decl =>
      w.Made (Stmt.functionDecls decl) := by
  unfold makeDefaultConstructor
  split
  · exact makeMember_assures (World.made_noParams _) (by rw [Stmt.rowDecls])
  · refine .after freshNode_safe fun marker => .after freshNode_safe fun call => ?_
    refine .after freshNode_safe fun stmt => makeMember_assures (World.made_noParams _) ?_
    simp [Stmt.rowDecls, Stmt.decls, Expr.decls, Expr.argumentDecls]

theorem makeCopyConstructor_assures :
    Assures w₀ (makeCopyConstructor position) fun w decl => w.Made (Stmt.functionDecls decl) := by
  unfold makeCopyConstructor
  refine .bind (freshNode_assures false) fun w node _ hnode => ?_
  refine makeMember_assures ?_ (by rw [Stmt.rowDecls])
  rw [Expr.paramDecls, Expr.optionDecls, Expr.paramDecls]
  exact hnode

theorem declareSynthesized_safe (han : an.Reliable) {decl : FunctionDef} (hframe : w₀.Hosts frame [])
    (hdecl : w₀.Made (Stmt.functionDecls decl)) (hitem : w₀.HasKind item .cls) :
    Safe w₀ (declareSynthesized an frame decl item scope) := by
  unfold declareSynthesized
  refine .bind (declareFunction_assures han (hframe.of_made hdecl) ?_).safe fun made => ?_
  · rintro c ⟨⟩
    exact hitem
  · exact .bind (change_safe fun _ => .modifyFunction) fun _ => .pure

theorem synthesizeCopy_assures (han : an.Reliable) (hframe : w₀.Hosts frame [])
    (hitem : w₀.HasKind item .cls) :
    Assures w₀ (synthesizeCopy an frame item scope position) fun w decl =>
      w.Made (Stmt.functionDecls decl) := by
  unfold synthesizeCopy
  refine .bind makeCopyConstructor_assures fun w decl h₀ hdecl => ?_
  refine .after (declareSynthesized_safe han (h₀.hosts hframe) hdecl (h₀.hasKind hitem)) fun made => ?_
  refine .after (change_safe fun _ => .modifyFunction) fun _ => ?_
  refine .after (change_safe fun _ => .modifyClass) fun _ => ?_
  exact .pure fun _ h₁ _ => h₁.isMade hdecl

/-- What is made for a class is kept with it. -/
theorem keepSynthesized_safe {made : List FunctionDef} (h : w₀.HasMade made) :
    Safe w₀ (modify fun s => { s with synthesized := (item, made) :: s.synthesized } : Analysis PUnit) :=
  .alter_from fun w h₀ _ =>
    { World.Change.refl w with
      synthesized := fun e he => by
        rcases List.mem_cons.1 he with rfl | hold
        · exact .inr fun d hd => h₀.isMade (h d hd)
        · exact .inl hold }

/-- Every member function that is made is a tree of new nodes, declared in the frame of the class. -/
@[grind ←] theorem synthesizeMembers_safe (han : an.Reliable) {source : ClassSource}
    (h : w₀.HoldsClass item source) : Safe w₀ (synthesizeMembers an item source) := by
  have hframe : w₀.Hosts source.frame [] := h.hosts.bare
  unfold synthesizeMembers
  extract_lets decl position made keep
  refine .bind_class h.isClass fun c => ?_
  refine .bind (.forM fun _ _ => synthesis_safe han) fun _ => ?_
  refine .bind (classNeedsCleanup_safe han) fun needsCleanup => ?_
  refine .bind (change_safe fun _ => .modifyClass) fun _ => ?_
  extract_lets external afterDestructor afterConstructor
  have hkeep : ∀ w : World, ∀ made, w.HasMade made → Safe w (keep () made) :=
    fun _ _ hmade => keepSynthesized_safe hmade
  have hdestructor : ∀ w : World, w₀.Leads w → ∀ made, w.HasMade made →
      Safe w (afterDestructor () made) := by
    intro w h₀ made hmade
    refine .bind look_safe fun hasCopy => .bind .get fun s => ?_
    split
    · refine .bind_assures (synthesizeCopy_assures han (h₀.hosts hframe) (h₀.hasKind h.isClass)) ?_
      exact fun w' copy h₁ hcopy => hkeep w' _ ((hmade.lasts h₁).concat hcopy)
    · exact hkeep w made hmade
  have hconstructor : ∀ w : World, w₀.Leads w → ∀ made, w.HasMade made →
      Safe w (afterConstructor () made) := by
    intro w h₀ made hmade
    dsimp only [afterConstructor]
    split
    · refine .bind_assures (makeMember_assures (World.made_noParams w) (by rw [Stmt.rowDecls])) ?_
      intro w' dtor h₁ hdtor
      have h₂ := h₀.trans h₁
      refine .bind (.discard (declareSynthesized_safe han (h₂.hosts hframe) hdtor (h₂.hasKind h.isClass))) ?_
      exact fun _ => hdestructor w' h₂ _ ((hmade.lasts h₁).concat hdtor)
    · exact hdestructor w h₀ made hmade
  split
  · refine .bind (checkConstructible_safe han) fun _ => .bind_assures makeDefaultConstructor_assures ?_
    intro w ctor h₀ hctor
    refine .bind (.discard (declareSynthesized_safe han (h₀.hosts hframe) hctor (h₀.hasKind h.isClass))) ?_
    exact fun _ => hconstructor w h₀ _ ((World.HasMade.nil w).concat hctor)
  · exact hconstructor w₀ (.refl w₀) _ (.nil w₀)

@[grind ←] theorem synthesize_safe (han : an.Reliable) : Safe w₀ (synthesize an item) := by
  unfold synthesize
  refine .bind (signatures_safe han) fun _ => .bind_assures classSource?_assures fun w source _ hsource => ?_
  split
  · exact .pure
  split
  · exact .pure
  refine .bind setStage_safe fun _ => ?_
  exact andFinally_safe (synthesizeMembers_safe han (hsource _ rfl)) setStage_safe

end Synthesis

/-! ## Bodies -/

section Bodies

@[grind ←] theorem detailDefault_safe (han : an.Reliable) {written : Param Expr} {expected : Ty}
    (h : w₀.Hosts frame (Expr.optionDecls written.defaultValue)) :
    Safe w₀ (detailDefault an frame scope written expected) := by
  unfold detailDefault
  cases hdefault : written.defaultValue with
  | none => exact .pure
  | some e =>
    have he : w₀.Hosts frame e.decls := Expr.optionDecls.eq_2 e ▸ hdefault ▸ h
    exact .bind (expr_safe han he) fun _ => checkAssignable_safe

@[grind ←] theorem implicitSuperCall_safe (han : an.Reliable) {cls parent : ItemId} :
    Safe w₀ (implicitSuperCall an cls position parent) := by
  unfold implicitSuperCall
  grind

@[grind ←] theorem implicitSuperCalls_safe (han : an.Reliable) :
    Safe w₀ (implicitSuperCalls an item scope position) := by
  unfold implicitSuperCalls
  grind

/-- A body is that of a function. -/
theorem detailFunctionBody_safe (han : an.Reliable) {decl : FunctionDef}
    (h : w₀.Awaits ⟨frame, decl, item⟩) : Safe w₀ (detailFunctionBody an frame decl item) := by
  have hdecl : w₀.Hosts frame (Stmt.functionDecls decl) := h.hosts
  have hparts := World.Hosts.cons_iff.1 (Stmt.functionDecls_eq decl ▸ hdecl)
  have hcode := World.Hosts.append_iff.1 hparts.2
  have hlast : ∀ (w : World) entryScope (implicitSuper : List ItemId), Safe w (do
      finishFunction item
      let variants := ((← look (·.function? item)).map (·.variants)).getD []
      record frame decl.node (.function { function := item, variants, implicitSuper })
      applyAttributes an frame decl.attributes ⟨.fn, item⟩ decl.node entryScope) := fun _ _ _ =>
    .bind finishFunction_safe fun _ => .bind look_safe fun _ =>
      .bind record_safe fun _ => applyAttributes_safe han
  unfold detailFunctionBody
  refine .bind_look fun w h₀ _ => ?_
  obtain ⟨f, hf⟩ := SymbolTable.exists_function?_of_kind? (h₀.hasKind h.isFunction)
  obtain ⟨entry, hentry, hfunction⟩ := Option.bind_eq_some_iff.1 hf
  refine .bind_some hentry ?_
  split
  · exact .pure
  refine .bind_some hfunction ?_
  split
  · exact .pure
  refine .bind (.forM fun a ha => detailDefault_safe han ?_) fun _ => ?_
  · have hparam := (h₀.hosts hcode.1).subset (Expr.decls_subset_of_param (List.of_mem_zip ha).1)
    exact (World.Hosts.cons_iff.1 hparam).2
  have hsuper : Safe w (do
      let isOwnCopy := f.flags.synthesized && f.flags.copyConstruct
      let implicitSuper ←
        if f.flags.construct && !isOwnCopy then
          implicitSuperCalls an item entry.scope decl.node.position
        else pure []
      finishFunction item
      let variants := ((← look (·.function? item)).map (·.variants)).getD []
      record frame decl.node (.function { function := item, variants, implicitSuper })
      applyAttributes an frame decl.attributes ⟨.fn, item⟩ decl.node entry.scope) := by
    dsimp only
    split
    · exact .bind (implicitSuperCalls_safe han) fun _ => hlast _ _ _
    · exact .bind .pure fun _ => hlast _ _ _
  split
  · rename_i body hbody
    have hstatements : w.Hosts frame (Stmt.blockDecls body) := by
      rw [hbody, Stmt.bodyDecls] at hcode
      exact h₀.hosts hcode.2
    exact .bind (detailBlock_safe han hstatements) fun _ => hsuper
  · exact hsuper

/-- The function of a declaration is one, so it may be given its body. -/
@[grind ←] theorem detailLocalFunction_safe (han : an.Reliable) {decl : FunctionDef}
    (h : w₀.Hosts frame (Stmt.functionDecls decl)) :
    Safe w₀ (detailLocalFunction an frame decl scope) := by
  unfold detailLocalFunction
  refine .bind_assures (declareFunction_assures han h nofun) fun w item h₀ hitem => ?_
  exact functionBody_safe han (h₀.hosts h) hitem

@[grind ←] theorem detailField_safe (han : an.Reliable) {field : FieldDecl Expr}
    (h : w₀.Hosts frame (Stmt.fieldDecls field)) : Safe w₀ (detailField an frame scope field) := by
  have hparts := World.Hosts.cons_iff.1 (Stmt.fieldDecls_eq field ▸ h)
  unfold detailField
  refine .bind declared?_safe fun known => ?_
  have hlast : ∀ v : ItemId, Safe w₀ (do
      record frame field.node (.field v)
      applyAttributes an frame field.attributes ⟨.field, v⟩ field.node scope) := fun _ =>
    .bind record_safe fun _ => applyAttributes_safe han
  split
  · exact .pure
  split
  · rename_i e heq
    have hinitializer : field.initializer = some e := (Prod.mk.inj heq).2
    have he : w₀.Hosts frame e.decls := Expr.optionDecls.eq_2 e ▸ hinitializer ▸ hparts.2
    refine .bind look_safe fun _ => .bind (expr_safe han he) fun info => ?_
    exact .bind checkAssignable_safe fun _ => hlast _
  · exact hlast _

@[grind ←] theorem detailMemberBodies_safe (han : an.Reliable) {members : List FunctionDef}
    (h : ∀ d ∈ members, w₀.Hosts frame (Stmt.functionDecls d)) :
    Safe w₀ (detailMemberBodies an frame members) := by
  unfold detailMemberBodies
  refine .filterMapM fun d hd => ?_
  have hnode := (World.Hosts.cons_iff.1 (Stmt.functionDecls_eq d ▸ h d hd)).1
  refine .bind_assures (declared?_assures hnode) fun w known h₀ hknown => ?_
  split
  · exact .pure
  · rename_i item
    refine .bind (.discard (recover_safe (functionBody_safe han (h₀.hosts (h d hd)) ?_))) fun _ => .pure
    exact hknown item rfl

@[grind ←] theorem detailClassBodies_safe (han : an.Reliable) : Safe w₀ (detailClassBodies an item) := by
  unfold detailClassBodies
  refine .bind (synthesis_safe han) fun _ => .bind_assures classSource?_assures fun w source h₀ hsource => ?_
  split
  · exact .pure
  rename_i decl frame stage
  have hclass := hsource _ rfl
  have hdecl : w.Hosts frame (Stmt.classDecls decl) := hclass.hosts
  split
  · exact .pure
  refine .bind setStage_safe fun _ => .bind (classScope_safe hclass.isClass) fun scope => ?_
  refine .bind (.forM fun field hfield => detailField_safe han ?_) fun _ => ?_
  · exact hdecl.subset (Stmt.decls_subset_of_field hfield)
  refine .bind (.discard (detailMemberBodies_safe han fun d hd => ?_)) fun _ => ?_
  · exact hdecl.subset (Stmt.decls_subset_of_function hd)
  refine .bind_get fun w₁ h₁ hw₁ => ?_
  refine .bind (detailMemberBodies_safe han fun d hd => (h₁.hosts hdecl).bare.of_made ?_) fun _ => ?_
  · cases hlookup : w₁.state.synthesized.lookup item with
    | none =>
      rw [hlookup] at hd
      cases hd
    | some made =>
      rw [hlookup] at hd
      exact hw₁.synthesized _ (mem_of_lookup hlookup) d hd
  refine .bind (change_safe fun _ => .modifyClass) fun _ => ?_
  exact .bind record_safe fun _ => applyAttributes_safe han

@[grind ←] theorem detailLocalClass_safe (han : an.Reliable) {decl : ClassDef}
    (h : w₀.Hosts frame (Stmt.classDecls decl)) : Safe w₀ (detailLocalClass an frame decl scope) := by
  unfold detailLocalClass
  grind

end Bodies

end Analysis

end SemanticAnalysis
