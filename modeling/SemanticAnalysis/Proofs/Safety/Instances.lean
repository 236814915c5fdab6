import SemanticAnalysis.Proofs.Safety.Rules

/-!
# Names, signatures and instances are safe

Lookups give items that are there and no aliases, so what is bound to them stands for something. A function
or class is created as what its scope is then given to, and what is filed under the node of a function is the
function that was made for it.
-/

namespace SemanticAnalysis

/-- An item that is there, and is no alias, is of another kind. -/
theorem World.hasTarget_of_isProper {w : World} {i : ItemId} (h : w.table.IsProper i) :
    w.HasTarget i := by
  obtain ⟨kind, hkind⟩ := SymbolTable.exists_kind? h.there
  refine ⟨kind, ?_, hkind⟩
  rintro rfl
  obtain ⟨item, hitem, halias⟩ := SymbolTable.kind?_eq_some_iff.1 hkind
  have hnone := h.own
  rw [SymbolTable.aliasTarget?_eq, hitem] at hnone
  unfold Item.alias? at hnone
  cases hentity : item.entity <;> simp_all [Entity.kind]

theorem World.HasTarget.hasItem {w : World} {i : ItemId} (h : w.HasTarget i) : w.HasItem i := by
  obtain ⟨kind, -, hkind⟩ := h
  exact SymbolTable.lt_of_kind? hkind

theorem World.HasKind.hasItem {w : World} {i : ItemId} {kind : EntityKind} (h : w.HasKind i kind) :
    w.HasItem i := SymbolTable.lt_of_kind? h

namespace Analysis

variable {α : Type} {w₀ : World} {frame : Frame} {node : Node} {scope : ScopeId}
variable {position : Position} {an : Analyst}

/-! ## Errors and captures -/

@[grind ←] theorem raise_safe {ty : Ty} : Safe w₀ (raise scope ty) :=
  .alter fun _ => .of_table .raise

@[grind ←] theorem linkThrows_safe {callee : ItemId} : Safe w₀ (linkThrows callee scope) :=
  .alter fun w => { World.Change.refl w with develops := .link }

@[grind ←] theorem noteCapture_safe {item : ItemId} : Safe w₀ (noteCapture item scope) := by
  unfold noteCapture
  grind

@[grind ←] theorem addCapturedMember_safe {module : ModuleId} {item : ItemId} :
    Safe w₀ (addCapturedMember scope module position item) := by
  unfold addCapturedMember
  grind

@[grind ←] theorem makeCaptureHolder_safe {lambda : ItemId} {entry : Item} {own : ScopeId}
    {captured : List ItemId} : Safe w₀ (makeCaptureHolder lambda entry own captured) := by
  unfold makeCaptureHolder
  refine .bind newScope_safe fun holderScope => ?_
  refine .bind_assures (addItem_assures (by simp)) fun w holder _ hholder => ?_
  refine .bind (setClass_safe hholder) fun _ => ?_
  refine .bind (.filterMapM fun _ _ => addCapturedMember_safe) fun members => ?_
  refine .bind (change_safe fun _ => .modifyClass) fun _ => ?_
  refine .bind (change_safe fun _ => .modifyFunction) fun _ => ?_
  refine .bind (change_safe fun _ => .modifyItem (fun _ => rfl) fun _ => rfl) fun _ => ?_
  exact change_safe fun _ => .modifyModule

@[grind ←] theorem sealCaptures_safe {lambda : ItemId} : Safe w₀ (sealCaptures lambda) := by
  unfold sealCaptures
  grind

@[grind ←] theorem runDeferred_safe {d : Deferred} : Safe w₀ (runDeferred d) := by
  cases d with
  | surfaceErrors callee site => exact .alter fun _ => .of_table .run
  | sealCaptures lambda => exact sealCaptures_safe

@[grind ←] theorem finishFunction_safe {item : ItemId} : Safe w₀ (finishFunction item) := by
  unfold finishFunction
  grind

@[grind ←] theorem sealWhenDone_safe {lambda : ItemId} : Safe w₀ (sealWhenDone lambda scope) := by
  unfold sealWhenDone
  grind

/-! ## Names -/

section Names

variable {name : String} {exclude : List EntityKind} {path rest walked : List Ident} {target : ItemId}

/-- This never gives anything. -/
theorem missingName_assures {Q : World → α → Prop} :
    Assures w₀ (missingName name scope exclude position) Q := by
  unfold missingName
  refine .after look_safe fun hidden => ?_
  split <;> exact .throw rfl

@[grind ←] theorem missingName_safe : Safe w₀ (missingName name scope exclude position : Analysis α) :=
  missingName_assures

theorem hasTarget_of_membersOf {w : World} (hw : w.Sound) {i : ItemId}
    (hi : i ∈ membersOf w.table target name exclude scope) : w.HasTarget i := by
  unfold membersOf at hi
  split at hi
  · split at hi
    · exact World.hasTarget_of_isProper (hw.coherent.isProper_of_findLocal hi)
    · exact World.hasTarget_of_isProper (hw.coherent.isProper_of_findInClass hi)
    · cases hi
  · cases hi

theorem followPath_assures (htarget : w₀.HasTarget target) :
    Assures w₀ (followPath scope exclude position target walked rest) fun w i => w.HasTarget i := by
  induction rest generalizing target walked w₀ with
  | nil => exact .pure fun w h₀ _ => h₀.hasTarget htarget
  | cons segment rest ih =>
    unfold followPath
    refine .bind_look fun w _ hw => ?_
    split
    · rename_i next others hmembers
      exact ih (hasTarget_of_membersOf hw (hmembers ▸ List.mem_cons_self))
    · exact .throw rfl

/-- A path means an item that is there, and no alias. -/
theorem resolvePath_assures :
    Assures w₀ (resolvePath path scope exclude position) fun w i => w.HasTarget i := by
  unfold resolvePath
  split
  · exact .throw rfl
  · refine .bind_look fun w _ hw => ?_
    split
    · exact missingName_assures
    · rename_i head others hfound
      refine followPath_assures (World.hasTarget_of_isProper ?_)
      exact hw.coherent.isProper_of_findAll (hfound ▸ List.mem_cons_self)

@[grind ←] theorem checkRedeclaration_safe : Safe w₀ (checkRedeclaration name scope position) := by
  unfold checkRedeclaration
  grind

@[grind ←] theorem bindAlias_safe {module : ModuleId} {v : Visibility} (h : w₀.HasItem target) :
    Safe w₀ (bindAlias module scope name target v position) := by
  unfold bindAlias
  grind

@[grind ←] theorem exportItem_safe {module : ModuleId} (hmodule : w₀.HasModule module)
    (h : w₀.HasItem target) : Safe w₀ (exportItem module name target position) := by
  unfold exportItem
  exact .bind_module hmodule fun m => bindAlias_safe h

end Names

/-! ## Uses -/

@[grind ←] theorem checkAssignable_safe {value : Expr} {src dst : Ty} :
    Safe w₀ (checkAssignable frame value src dst position) := by
  unfold checkAssignable
  grind

@[grind ←] theorem attributeValue_safe (han : an.Reliable) {a : AttributeArgument Expr} :
    Safe w₀ (attributeValue an frame scope position a) := by
  unfold attributeValue
  split
  · exact (type_safe han).map
  · exact .pure
  · grind
  · exact failOther_safe

/-- A callback may do what keeps the kinds of items. -/
@[grind ←] theorem applyAttribute_safe (han : an.Reliable) {subject : Subject} {a : Attribute Expr} :
    Safe w₀ (applyAttribute an frame subject node scope a) := by
  unfold applyAttribute
  refine .bind_get fun w _ hw => ?_
  split
  · exact .pure
  · rename_i registration index hfind
    have hkeeps := hw.attributes registration (AttributeTable.mem_of_find? hfind)
    refine .bind (.mapM fun _ _ => attributeValue_safe han) fun arguments => ?_
    refine .bind (.alter fun w => { World.Change.refl w with }) fun _ => .bind ?_ fun outcome => ?_
    · exact Assures.modifyGet fun w' _ _ => ⟨_, rfl, .of_table (hkeeps _ w'.table), trivial⟩
    · grind

@[grind ←] theorem applyAttributes_safe (han : an.Reliable) {subject : Subject}
    {attributes : List (Attribute Expr)} :
    Safe w₀ (applyAttributes an frame attributes subject node scope) :=
  .forM fun _ _ => applyAttribute_safe han

/-! ## Signatures -/

section Signatures

variable {decl : FunctionDef} {cls : Option ItemId} {item : ItemId} {name : String}

theorem createFunction_assures {generics : Nat} :
    Assures w₀ (createFunction frame decl scope name cls generics) fun w i => w.HasKind i .fn := by
  unfold createFunction
  refine .after newScope_safe fun own => ?_
  refine .bind (addItem_assures (by simp)) fun w item _ hitem => ?_
  exact .after (setFunction_safe hitem) fun _ => .pure fun _ h₀ _ => h₀.hasKind hitem

@[grind ←] theorem bindParameter_safe (han : an.Reliable) {written : List (Param Expr)}
    {function : ItemId} {p : Param Expr} {index : Nat} (h : w₀.Hosts frame [p.node.ofOther]) :
    Safe w₀ (bindParameter an frame written function scope p index) := by
  unfold bindParameter
  refine .guard (fail_safe rfl) (.bind (type_safe han) fun ty => ?_)
  exact .bind (addItem_safe (by simp)) fun item => .bind (recordOther_safe h) fun _ => .pure

@[grind ←] theorem bindParameters_safe (han : an.Reliable) {written : List (Param Expr)}
    {function : ItemId} (h : w₀.Hosts frame (Expr.paramDecls written)) :
    Safe w₀ (bindParameters an frame written function scope) := by
  unfold bindParameters
  refine .bind (.mapM fun a ha => ?_) fun bound => .pure
  have hmem : a.1 ∈ written := (List.mem_zipIdx' ha).2 ▸ List.getElem_mem _
  have hparam := h.subset (Expr.decls_subset_of_param hmem)
  exact bindParameter_safe han (World.Hosts.cons_iff.1 hparam).1

@[grind ←] theorem resultType_safe (han : an.Reliable) :
    Safe w₀ (resultType an frame decl scope cls) := by
  unfold resultType
  grind

@[grind ←] theorem generatorParameter_safe (han : an.Reliable) :
    Safe w₀ (generatorParameter an frame decl scope) := by
  unfold generatorParameter
  grind

@[grind ←] theorem resolveSignature_safe (han : an.Reliable) (hitem : w₀.HasKind item .fn)
    (h : w₀.Hosts frame (Expr.paramDecls decl.params)) :
    Safe w₀ (resolveSignature an frame decl item cls) := by
  unfold resolveSignature
  refine .bind_function hitem fun f => ?_
  refine .bind (bindParameters_safe han h) fun bound => .bind (resultType_safe han) fun result => ?_
  refine .bind (generatorParameter_safe han) fun sent => .bind_function hitem fun _ => ?_
  exact change_safe fun _ => .modifyFunction

@[grind ←] theorem checkDuplicateFunction_safe : Safe w₀ (checkDuplicateFunction item position) := by
  unfold checkDuplicateFunction
  grind

@[grind ←] theorem registerMember_safe {c : ItemId} (hc : w₀.HasKind c .cls) :
    Safe w₀ (registerMember c item decl) := by
  unfold registerMember
  refine .bind look_safe fun f => ?_
  refine .bind_class hc fun entity => ?_
  grind

@[grind ←] theorem declareVariant_safe {canonical : ItemId} {entry : Item} {source : Function}
    {kept : Nat} (hcls : ∀ c, cls = some c → w₀.HasKind c .cls) :
    Safe w₀ (declareVariant decl canonical entry source cls kept) := by
  unfold declareVariant
  refine .bind newScope_safe fun own => ?_
  refine .bind_assures (addItem_assures (by simp)) fun w item h₀ hitem => ?_
  refine .bind (setFunction_safe hitem) fun _ => ?_
  refine .bind (change_safe fun _ => .modifyFunction) fun _ => ?_
  refine .bind (change_safe fun _ => .modifyItem (fun _ => rfl) fun _ => rfl) fun _ => ?_
  refine .bind (change_safe fun _ => .modifyModule) fun _ => ?_
  split
  · rename_i c
    exact registerMember_safe (h₀.hasKind (hcls c rfl))
  · exact .pure

@[grind ←] theorem declareVariants_safe {canonical : ItemId}
    (hcls : ∀ c, cls = some c → w₀.HasKind c .cls) :
    Safe w₀ (declareVariants decl canonical cls) := by
  unfold declareVariants
  grind

theorem declareFunctionTemplate_assures (h : w₀.Hosts frame (Stmt.functionDecls decl)) :
    Assures w₀ (declareFunctionTemplate frame decl scope cls) fun w i => w.HasKind i .fn := by
  have hnode : w₀.Hosts frame [decl.node.ofFunction] :=
    (World.Hosts.cons_iff.1 (Stmt.functionDecls_eq decl ▸ h)).1
  unfold declareFunctionTemplate
  refine .bind createFunction_assures fun w item h₀ hitem => ?_
  refine .after (keepTemplate_safe ⟨(h₀.hosts h).module, (h₀.hosts h).admits⟩) fun _ => ?_
  refine .after (recordFunction_safe (h₀.hosts hnode) hitem) fun _ => ?_
  exact .after record_safe fun _ => .pure fun _ h₁ _ => h₁.hasKind hitem

/-- What a declaration gives is a function, whether it is made now or was before. -/
theorem declareFunction_assures (han : an.Reliable) (h : w₀.Hosts frame (Stmt.functionDecls decl))
    (hcls : ∀ c, cls = some c → w₀.HasKind c .cls) :
    Assures w₀ (declareFunction an frame decl scope cls) fun w i => w.HasKind i .fn := by
  have hparts := World.Hosts.cons_iff.1 (Stmt.functionDecls_eq decl ▸ h)
  have hparams := (World.Hosts.append_iff.1 hparts.2).1
  unfold declareFunction
  refine .bind (declared?_assures hparts.1) fun w known h₀ hknown => ?_
  split
  · exact .pure fun w' h₁ _ => h₁.hasKind (hknown _ rfl)
  split
  · exact declareFunctionTemplate_assures (h₀.hosts h)
  refine .bind createFunction_assures fun w₁ item h₁ hitem => ?_
  have h₂ := h₀.trans h₁
  refine .after (resolveSignature_safe han hitem (h₂.hosts hparams)) fun _ => ?_
  refine .after checkDuplicateFunction_safe fun _ => ?_
  have hclass : ∀ c, cls = some c → w₁.HasKind c .cls := fun c hc => h₂.hasKind (hcls c hc)
  have hfiled : Assures w₁ (do recordDeclared frame decl.node item; return item)
      fun w i => w.HasKind i .fn :=
    .after (recordFunction_safe (h₂.hosts hparts.1) hitem) fun _ =>
      .pure fun _ h _ => h.hasKind hitem
  have hvariants : Assures w₁ (do
      declareVariants decl item cls
      if decl.keywords.exported then
        discard <| exportItem frame.module decl.itemName item decl.node.position
      recordDeclared frame decl.node item
      return item) fun w i => w.HasKind i .fn := by
    refine .after (declareVariants_safe hclass) fun _ => ?_
    split
    · refine .after (.discard (exportItem_safe (h₂.hasModule h.module) ?_)) fun _ => hfiled
      exact hitem.hasItem
    · exact hfiled
  cases cls with
  | some c => exact .after (registerMember_safe (hclass c rfl)) fun _ => hvariants
  | none => exact hvariants

end Signatures

/-! ## Instances -/

section Instances

variable {generics : List Ident} {arguments : List Ty} {name : String}

theorem createClass_assures {decl : ClassDef} (h : w₀.Hosts frame (Stmt.classDecls decl)) :
    Assures w₀ (createClass frame decl scope name) fun w i => w.HasKind i .cls := by
  unfold createClass
  refine .after newScope_safe fun own => ?_
  refine .bind (addItem_assures (by simp)) fun w item h₀ hitem => ?_
  refine .after (setClass_safe hitem) fun _ => ?_
  have hfiled : Assures w (do
      modify fun s => { s with classes := (item, ⟨decl, frame, .declared⟩) :: s.classes }
      return item) fun w i => w.HasKind i .cls := by
    refine .after (.alter_from fun w' h₁ _ =>
      { World.Change.refl w' with classes := fun e he => ?_ }) fun _ => ?_
    · rcases List.mem_cons.1 he with rfl | hold
      · exact .inr ⟨h₁.hasKind hitem, h₁.hosts (h₀.hosts h)⟩
      · exact .inl ⟨e.2, hold, rfl, rfl⟩
    · exact .pure fun _ h₁ _ => h₁.hasKind hitem
  split
  · refine .after (addItem_safe (by simp)) fun this => ?_
    exact .after (change_safe fun _ => .modifyClass) fun _ => hfiled
  · exact hfiled

@[grind ←] theorem instanceName_safe : Safe w₀ (instanceName name arguments) := by
  unfold instanceName
  grind

@[grind ←] theorem checkArity_safe : Safe w₀ (checkArity name generics arguments position) := by
  unfold checkArity
  grind

@[grind ←] theorem bindGenerics_safe : Safe w₀ (bindGenerics frame generics arguments scope) :=
  .forM fun _ _ => (addItem_safe (by simp)).discard

@[grind ←] theorem noteGenericDependency_safe {origin : ModuleId} :
    Safe w₀ (noteGenericDependency origin) := by
  unfold noteGenericDependency
  grind

theorem noteInstance_safe {item : ItemId} {module : ModuleId}
    (hfiled : Safe w₀ (recordDeclared frame node item)) :
    Safe w₀ (noteInstance frame node item module) := by
  unfold noteInstance
  refine .bind (.alter fun w => { World.Change.refl w with }) fun _ => ?_
  exact .bind hfiled fun _ => noteGenericDependency_safe

/-- An instance is made in a frame of its own. -/
@[grind ←] theorem instantiateClass_safe (han : an.Reliable) {template : ItemId} :
    Safe w₀ (instantiateClass an template arguments position) := by
  unfold instantiateClass
  refine .bind_assures template?_assures fun w t h₀ ht => ?_
  split
  · rename_i decl scope module
    have htemplate := ht _ rfl
    refine .bind checkArity_safe fun _ => .bind .get fun s => ?_
    split
    · exact .pure
    refine .bind_assures (openFrame_assures htemplate.module htemplate.admits) fun w₁ frame h₁ hframe => ?_
    have hdecls : w₁.Hosts frame (Stmt.classDecls decl) := hframe.2
    refine .bind instanceName_safe fun name => ?_
    refine .bind_assures (createClass_assures hdecls) fun w₂ item h₂ hitem => ?_
    refine .bind (change_safe fun _ => .modifyClass) fun _ => .bind_class hitem fun c => ?_
    refine .bind bindGenerics_safe fun _ => ?_
    refine .bind (.alter fun w => { World.Change.refl w with }) fun _ => ?_
    refine .bind (noteInstance_safe (recordOther_safe ?_)) fun _ => ?_
    · exact (World.Hosts.cons_iff.1 (Stmt.classDecls_eq decl ▸ h₂.hosts hdecls)).1
    refine .bind (signatures_safe han) fun _ => ?_
    exact .bind (.alter fun w => { World.Change.refl w with }) fun _ => .pure
  · grind

@[grind ←] theorem instantiateFunction_safe (han : an.Reliable) {template : ItemId} :
    Safe w₀ (instantiateFunction an template arguments position) := by
  unfold instantiateFunction
  refine .bind_assures template?_assures fun w t h₀ ht => ?_
  split
  · rename_i decl scope module cls
    have htemplate := ht _ rfl
    refine .bind checkArity_safe fun _ => .bind .get fun s => ?_
    split
    · exact .pure
    refine .bind_assures (openFrame_assures htemplate.module htemplate.admits) fun w₁ frame h₁ hframe => ?_
    have hdecls : w₁.Hosts frame (Stmt.functionDecls decl) := hframe.2
    have hparts := World.Hosts.cons_iff.1 (Stmt.functionDecls_eq decl ▸ hdecls)
    have hparams := (World.Hosts.append_iff.1 hparts.2).1
    refine .bind instanceName_safe fun name => ?_
    refine .bind_assures createFunction_assures fun w₂ item h₂ hitem => ?_
    refine .bind (change_safe fun _ => .modifyFunction) fun _ => .bind_function hitem fun f => ?_
    refine .bind bindGenerics_safe fun _ => ?_
    refine .bind (.alter fun w => { World.Change.refl w with }) fun _ => ?_
    refine .bind (noteInstance_safe (recordFunction_safe (h₂.hosts hparts.1) hitem)) fun _ => ?_
    refine .bind (resolveSignature_safe han hitem (h₂.hosts hparams)) fun _ => ?_
    refine .bind (declareVariants_safe nofun) fun _ => .bind (.alter_from fun w' h₃ _ => ?_) fun _ => .pure
    refine { World.Change.refl _ with pending := fun e he => ?_ }
    rcases List.mem_cons.1 he with rfl | hold
    · exact .inr ⟨h₃.hasKind hitem, h₃.hosts (h₂.hosts hdecls)⟩
    · exact .inl hold
  · grind

end Instances

end Analysis

end SemanticAnalysis
