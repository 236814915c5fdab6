import SemanticAnalysis.Proofs.Analysis.Keeps

/-!
# Declarations keep states sound

One lemma for each step that follows errors and captures, looks names up, runs attributes, or
declares a function. Attributes are the one place where code from outside touches the table; that is
what the tidiness of callbacks is for (`applyAttribute_keeps`).
-/

namespace SemanticAnalysis.Analysis

variable {n : Nat} {frame : Frame} {scope : ScopeId}

/-! ## Errors and captures -/

@[grind ←] theorem raise_keeps {ty : Ty} : Keeps n (raise scope ty) (raise scope ty) :=
  modify_keeps fun s _ => .of_table (.of_sameShape (SymbolTable.sameShape_settle s.flow _ _ s.table))

@[grind ←] theorem linkThrows_keeps {callee : ItemId} :
    Keeps n (linkThrows callee scope) (linkThrows callee scope) := by
  refine modify_keeps fun s _ => ?_
  have htable : s.table.Extends (s.flow.link callee scope s.table).2 :=
    .of_sameShape (SymbolTable.sameShape_link s.flow callee scope s.table)
  exact { State.Grows.of_table htable with }

@[grind ←] theorem noteCapture_keeps {item : ItemId} :
    Keeps n (noteCapture item scope) (noteCapture item scope) := by
  unfold noteCapture
  grind

@[grind ←] theorem addCapturedMember_keeps {module : ModuleId} {p : Position} {item : ItemId} :
    Keeps n (addCapturedMember scope module p item) (addCapturedMember scope module p item) := by
  unfold addCapturedMember
  refine .bind (by grind) fun entry m hm hentry => ?_
  refine .bind (by grind) fun v k hk hv => ?_
  grind [Variable.member]

@[grind ←] theorem makeCaptureHolder_keeps {lambda : ItemId} {entry : Item} {own : ScopeId}
    {captured : List ItemId} :
    Keeps n (makeCaptureHolder lambda entry own captured)
      (makeCaptureHolder lambda entry own captured) := by
  unfold makeCaptureHolder
  refine newScope_keeps.bind fun holderScope m hm _ => ?_
  refine .bind_makes (addItem_makes rfl (known_entity_cls rfl)) fun holder k hk hholder => ?_
  refine .bind (setOwner_keeps (by grind)) fun _ k' hk' _ => ?_
  refine .bind (by grind) fun members k'' hk'' _ => ?_
  refine .bind (by grind) fun _ _ _ _ => ?_
  grind

@[grind ←] theorem sealCaptures_keeps {lambda : ItemId} :
    Keeps n (sealCaptures lambda) (sealCaptures lambda) := by
  unfold sealCaptures
  refine .bind (by grind) fun entry m hm hentry => ?_
  refine .bind (by grind) fun f k hk hf => ?_
  grind

@[grind ←] theorem runDeferred_keeps {d : Deferred} : Keeps n (runDeferred d) (runDeferred d) := by
  cases d with
  | surfaceErrors callee site =>
    refine modify_keeps fun s _ => .of_table (.of_sameShape ?_)
    exact SymbolTable.sameShape_settle s.flow _ _ s.table
  | sealCaptures lambda => exact sealCaptures_keeps

@[grind ←] theorem finishFunction_keeps {item : ItemId} :
    Keeps n (finishFunction item) (finishFunction item) := by
  unfold finishFunction
  grind

@[grind ←] theorem sealWhenDone_keeps {lambda : ItemId} :
    Keeps n (sealWhenDone lambda scope) (sealWhenDone lambda scope) := by
  unfold sealWhenDone
  grind

/-! ## Names -/

@[grind ←] theorem missingName_keeps {α : Type} [NamesClasses α] {name : String}
    {exclude : List EntityKind} {p : Position} :
    Keeps n (missingName name scope exclude p : Analysis α) (missingName name scope exclude p) := by
  unfold missingName
  grind

@[grind ←] theorem followPath_keeps {exclude : List EntityKind} {p : Position} {current : ItemId}
    {walked rest : List Ident} :
    Keeps n (followPath scope exclude p current walked rest)
      (followPath scope exclude p current walked rest) := by
  induction rest generalizing n current walked with
  | nil => exact .pure (known_of_namesNone n _)
  | cons segment rest ih =>
    unfold followPath
    grind

@[grind ←] theorem resolvePath_keeps {path : List Ident} {exclude : List EntityKind} {p : Position} :
    Keeps n (resolvePath path scope exclude p) (resolvePath path scope exclude p) := by
  unfold resolvePath
  grind

@[grind ←] theorem checkRedeclaration_keeps {name : String} {p : Position} :
    Keeps n (checkRedeclaration name scope p) (checkRedeclaration name scope p) := by
  unfold checkRedeclaration
  grind

@[grind ←] theorem bindAlias_keeps {module : ModuleId} {name : String} {target : ItemId}
    {v : Visibility} {p : Position} :
    Keeps n (bindAlias module scope name target v p) (bindAlias module scope name target v p) := by
  unfold bindAlias
  grind

@[grind ←] theorem exportItem_keeps {module : ModuleId} {name : String} {target : ItemId}
    {p : Position} :
    Keeps n (exportItem module name target p) (exportItem module name target p) := by
  unfold exportItem
  grind

/-! ## Uses -/

variable {an an' : Analyst}

@[grind ←] theorem checkAssignable_keeps {value : Expr} {src dst : Ty} {p : Position} :
    Keeps n (checkAssignable frame value src dst p) (checkAssignable frame value src dst p) := by
  unfold checkAssignable
  grind

@[grind ←] theorem attributeValue_keeps (han : an.Agrees an') {p : Position}
    {a : AttributeArgument Expr} :
    Keeps n (attributeValue an frame scope p a) (attributeValue an' frame scope p a) := by
  unfold attributeValue
  split
  · exact (type_keeps han).map fun ty m _ hty => (known_typeValue ty).2 hty
  · rename_i value
    exact .pure (by cases value <;> exact known_of_nil rfl)
  · refine .bind (by grind) fun found m hm _ => ?_
    split
    · exact .pure (known_of_nil rfl)
    · exact missingName_keeps
  · exact failOther_keeps

theorem get_tidy : Gives n (fun _ s => s.attributes.Tidy) (get : Analysis State) get :=
  fun s hs _ => ⟨rfl, hs, .refl s, hs.tidy⟩

@[grind ←] theorem applyAttribute_keeps (han : an.Agrees an') {subject : Subject} {node : Node}
    {a : Attribute Expr} :
    Keeps n (applyAttribute an frame subject node scope a)
      (applyAttribute an' frame subject node scope a) := by
  unfold applyAttribute
  refine Gives.bind get_tidy fun s m hm htidy => ?_
  split
  · exact Keeps.idle
  · rename_i registration index hfind
    have hcallback : registration.callback.Tidy := htidy.find hfind
    refine Keeps.bind (.mapM fun _ _ _ _ => attributeValue_keeps han)
      fun arguments k hk harguments => ?_
    refine .bind (aside_keeps fun _ => rfl) fun _ k' hk' _ => ?_
    refine .bind (make_keeps (fun t ht => hcallback _ t ?_) ?_) fun outcome _ _ _ => ?_
    · exact known_invocation.2 ((harguments.mono hk').mono ht)
    · exact fun _ _ => known_of_namesNone _ _
    · split
      · exact .idle
      · exact fail_keeps

@[grind ←] theorem applyAttributes_keeps (han : an.Agrees an') {subject : Subject} {node : Node}
    {attributes : List (Attribute Expr)} :
    Keeps n (applyAttributes an frame attributes subject node scope)
      (applyAttributes an' frame attributes subject node scope) :=
  .forM fun _ _ _ _ => applyAttribute_keeps han

/-! ## Signatures -/

section Signatures

variable {decl : FunctionDef} {cls : Option ItemId}

@[grind ←] theorem createFunction_keeps {name : String} {generics : Nat} :
    Keeps n (createFunction frame decl scope name cls generics)
      (createFunction frame decl scope name cls generics) := by
  unfold createFunction
  refine .bind newScope_keeps fun own m hm _ => ?_
  refine .bind (by grind) fun item k hk _ => ?_
  exact .bind (setOwner_keeps (by simp)) fun _ _ _ _ => .idle

@[grind ←] theorem bindParameter_keeps (han : an.Agrees an') {written : List (Param Expr)}
    {function : ItemId} {p : Param Expr} {index : Nat} :
    Keeps n (bindParameter an frame written function scope p index)
      (bindParameter an' frame written function scope p index) := by
  unfold bindParameter
  refine .guard fail_keeps fun m hm => ?_
  refine .bind (type_keeps han) fun ty k hk hty => ?_
  refine .bind (by grind [Variable.parameter]) fun item k₁ hk₁ _ => ?_
  grind

@[grind ←] theorem bindParameters_keeps (han : an.Agrees an') {written : List (Param Expr)}
    {function : ItemId} :
    Keeps n (bindParameters an frame written function scope)
      (bindParameters an' frame written function scope) := by
  unfold bindParameters
  refine .bind (.mapM fun _ _ _ _ => bindParameter_keeps han) fun bound m _ hbound => ?_
  exact .pure (known_unzip hbound)

@[grind ←] theorem resultType_keeps (han : an.Agrees an') (hcls : ∀ c, cls = some c → c.index < n) :
    Keeps n (resultType an frame decl scope cls) (resultType an' frame decl scope cls) := by
  unfold resultType
  split
  · exact .pure known_void
  · exact .pure known_void
  · exact .pure ((known_cls _).2 (hcls _ rfl))
  · split
    · exact type_keeps han
    · exact .pure known_void

@[grind ←] theorem generatorParameter_keeps (han : an.Agrees an') :
    Keeps n (generatorParameter an frame decl scope) (generatorParameter an' frame decl scope) := by
  unfold generatorParameter
  split
  · exact (type_keeps han).map fun ty _ _ hty => (known_some ty).2 hty
  · exact .pure known_void
  · exact .pure known_none

@[grind ←] theorem resolveSignature_keeps (han : an.Agrees an') {item : ItemId}
    (hcls : ∀ c, cls = some c → c.index < n) :
    Keeps n (resolveSignature an frame decl item cls) (resolveSignature an' frame decl item cls) := by
  unfold resolveSignature
  refine .bind (by grind) fun f m hm hf => ?_
  refine .bind (by grind) fun f k hk hf => ?_
  refine .bind (bindParameters_keeps han) fun bound k₁ hk₁ hbound => ?_
  refine .bind (resultType_keeps han (by grind)) fun returnType k₂ hk₂ hreturn => ?_
  refine .bind (generatorParameter_keeps han) fun sent k₃ hk₃ hsent => ?_
  refine .bind (by grind) fun now k₄ hk₄ hnow => ?_
  refine .bind (by grind) fun _ k₅ hk₅ _ => ?_
  grind

@[grind ←] theorem checkDuplicateFunction_keeps {item : ItemId} {p : Position} :
    Keeps n (checkDuplicateFunction item p) (checkDuplicateFunction item p) := by
  unfold checkDuplicateFunction
  grind

@[grind ←] theorem registerMember_keeps {c item : ItemId} :
    Keeps n (registerMember c item decl) (registerMember c item decl) := by
  have hmodify : ∀ m (g : Class → Class), (∀ e, (g e).parents = e.parents) →
      Keeps m (change (·.modifyClass c g)) (change (·.modifyClass c g)) :=
    fun _ _ hg => change_keeps fun _ _ => .modifyClass hg
  unfold registerMember
  refine .bind (by grind) fun f m hm hf => ?_
  refine .bind (by grind) fun o k hk ho => ?_
  refine .bind (by grind) fun entity k₁ hk₁ _ => ?_
  cases decl.role with
  | construct =>
    dsimp only
    split
    · exact hmodify _ _ fun _ => rfl
    · split
      · exact .bind (hmodify _ _ fun _ => rfl) fun _ _ _ _ => change_keeps fun _ _ => .modifyFunction (by grind)
      · exact hmodify _ _ fun _ => rfl
  | destruct => exact .guard fail_keeps fun _ _ => hmodify _ _ fun _ => rfl
  | cast direction => cases direction <;> exact hmodify _ _ fun _ => rfl
  | operator | plain | accessor => exact hmodify _ _ fun _ => rfl

@[grind ←] theorem declareVariant_keeps {canonical : ItemId} {entry : Item} {source : Function}
    {kept : Nat} (hsource : Known n source) :
    Keeps n (declareVariant decl canonical entry source cls kept)
      (declareVariant decl canonical entry source cls kept) := by
  unfold declareVariant
  refine .bind newScope_keeps fun own m hm _ => ?_
  refine .bind (by grind) fun item k hk _ => ?_
  refine .bind (by grind) fun _ k₁ hk₁ _ => ?_
  refine .bind (by grind) fun _ k₂ hk₂ _ => ?_
  refine .bind (by grind) fun _ k₃ hk₃ _ => ?_
  grind

@[grind ←] theorem declareVariants_keeps {canonical : ItemId} :
    Keeps n (declareVariants decl canonical cls) (declareVariants decl canonical cls) := by
  unfold declareVariants
  grind

@[grind ←] theorem declareFunctionTemplate_keeps (hcls : ∀ c, cls = some c → c.index < n) :
    Keeps n (declareFunctionTemplate frame decl scope cls)
      (declareFunctionTemplate frame decl scope cls) := by
  unfold declareFunctionTemplate
  refine .bind createFunction_keeps fun item m hm _ => ?_
  refine .bind (modify_keeps fun s hs => .of_templates fun htemplates => ?_) fun _ k hk _ => ?_
  · grind
  · refine .bind recordDeclared_keeps fun _ k₁ hk₁ _ => ?_
    exact .bind (recordUnnamed_keeps rfl) fun _ _ _ _ => .idle

@[grind ←] theorem declareFunction_keeps (han : an.Agrees an')
    (hcls : ∀ c, cls = some c → c.index < n) :
    Keeps n (declareFunction an frame decl scope cls) (declareFunction an' frame decl scope cls) := by
  unfold declareFunction
  refine .bind declared?_keeps fun known m hm _ => ?_
  split
  · exact .idle
  split
  · exact declareFunctionTemplate_keeps (by grind)
  refine .bind createFunction_keeps fun item k hk _ => ?_
  refine .bind (resolveSignature_keeps han (by grind)) fun _ k₁ hk₁ _ => ?_
  refine .bind checkDuplicateFunction_keeps fun _ k₂ hk₂ _ => ?_
  split
  all_goals grind

end Signatures

end SemanticAnalysis.Analysis
