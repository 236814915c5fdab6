import SemanticAnalysis.Proofs.Delegation.Rules

/-!
# Expressions load nothing themselves

Names, signatures, instances, written types, references, calls, operators and values. An import stands in a
statement, so all that an expression does to a module it does through the analyst: a type or a signature
that it asks for may load one.
-/

namespace SemanticAnalysis.Analysis

variable {α : Type} {frame : Frame} {node : Node} {scope : ScopeId}
variable {position : Position} {an an' : Analyst}

/-! ## Errors and captures -/

@[grind ←] theorem raise_delegates {ty : Ty} : Delegates an an' (raise scope ty) (raise scope ty) := by
  unfold raise
  grind

@[grind ←] theorem linkThrows_delegates {callee : ItemId} :
    Delegates an an' (linkThrows callee scope) (linkThrows callee scope) := by
  unfold linkThrows
  grind

@[grind ←] theorem noteCapture_delegates {item : ItemId} :
    Delegates an an' (noteCapture item scope) (noteCapture item scope) := by
  unfold noteCapture
  grind

@[grind ←] theorem addCapturedMember_delegates {module : ModuleId} {item : ItemId} :
    Delegates an an' (addCapturedMember scope module position item)
      (addCapturedMember scope module position item) := by
  unfold addCapturedMember
  grind

@[grind ←] theorem makeCaptureHolder_delegates {lambda : ItemId} {entry : Item} {own : ScopeId}
    {captured : List ItemId} :
    Delegates an an' (makeCaptureHolder lambda entry own captured)
      (makeCaptureHolder lambda entry own captured) := by
  unfold makeCaptureHolder
  grind

@[grind ←] theorem sealCaptures_delegates {lambda : ItemId} :
    Delegates an an' (sealCaptures lambda) (sealCaptures lambda) := by
  unfold sealCaptures
  grind

@[grind ←] theorem runDeferred_delegates {d : Deferred} : Delegates an an' (runDeferred d) (runDeferred d) := by
  unfold runDeferred
  grind

@[grind ←] theorem finishFunction_delegates {item : ItemId} :
    Delegates an an' (finishFunction item) (finishFunction item) := by
  unfold finishFunction
  grind

@[grind ←] theorem sealWhenDone_delegates {lambda : ItemId} :
    Delegates an an' (sealWhenDone lambda scope) (sealWhenDone lambda scope) := by
  unfold sealWhenDone
  grind

/-! ## Names -/

@[grind ←] theorem missingName_delegates {name : String} {exclude : List EntityKind} :
    Delegates an an' (missingName name scope exclude position : Analysis α)
      (missingName name scope exclude position) := by
  unfold missingName
  grind

@[grind ←] theorem followPath_delegates {exclude : List EntityKind} {current : ItemId}
    {walked rest : List Ident} :
    Delegates an an' (followPath scope exclude position current walked rest)
      (followPath scope exclude position current walked rest) := by
  induction rest generalizing current walked with
  | nil => exact .pure
  | cons segment rest ih =>
    unfold followPath
    grind

@[grind ←] theorem resolvePath_delegates {path : List Ident} {exclude : List EntityKind} :
    Delegates an an' (resolvePath path scope exclude position) (resolvePath path scope exclude position) := by
  unfold resolvePath
  grind

@[grind ←] theorem checkRedeclaration_delegates {name : String} :
    Delegates an an' (checkRedeclaration name scope position) (checkRedeclaration name scope position) := by
  unfold checkRedeclaration
  grind

@[grind ←] theorem bindAlias_delegates {module : ModuleId} {name : String} {target : ItemId}
    {v : Visibility} :
    Delegates an an' (bindAlias module scope name target v position)
      (bindAlias module scope name target v position) := by
  unfold bindAlias
  grind

@[grind ←] theorem exportItem_delegates {module : ModuleId} {name : String} {target : ItemId} :
    Delegates an an' (exportItem module name target position) (exportItem module name target position) := by
  unfold exportItem
  grind

/-! ## Uses -/

@[grind ←] theorem checkAssignable_delegates {value : Expr} {src dst : Ty} :
    Delegates an an' (checkAssignable frame value src dst position)
      (checkAssignable frame value src dst position) := by
  unfold checkAssignable
  grind

@[grind ←] theorem attributeValue_delegates {a : AttributeArgument Expr} :
    Delegates an an' (attributeValue an frame scope position a) (attributeValue an' frame scope position a) := by
  unfold attributeValue
  split
  · exact .map type_delegates
  · exact .pure
  · grind
  · exact failOther_delegates

@[grind ←] theorem applyAttribute_delegates {subject : Subject} {a : Attribute Expr} :
    Delegates an an' (applyAttribute an frame subject node scope a)
      (applyAttribute an' frame subject node scope a) := by
  unfold applyAttribute
  refine .read (fun _ _ _ => ⟨rfl, rfl⟩) fun s => ?_
  split
  · exact .pure
  · refine .bind (.mapM fun _ => attributeValue_delegates) fun arguments => ?_
    refine .bind (.alter (fun _ => rfl) (fun _ => rfl) fun _ _ _ => rfl) fun _ => ?_
    refine .bind make_delegates fun outcome => ?_
    grind

@[grind ←] theorem applyAttributes_delegates {subject : Subject}
    {attributes : List (Attribute Expr)} :
    Delegates an an' (applyAttributes an frame attributes subject node scope)
      (applyAttributes an' frame attributes subject node scope) := by
  unfold applyAttributes
  grind

/-! ## Signatures -/

section Signatures

variable {decl : FunctionDef} {cls : Option ItemId} {item : ItemId}

@[grind ←] theorem createFunction_delegates {name : String} {generics : Nat} :
    Delegates an an' (createFunction frame decl scope name cls generics)
      (createFunction frame decl scope name cls generics) := by
  unfold createFunction
  grind

@[grind ←] theorem bindParameter_delegates {written : List (Param Expr)} {function : ItemId}
    {p : Param Expr} {index : Nat} :
    Delegates an an' (bindParameter an frame written function scope p index)
      (bindParameter an' frame written function scope p index) := by
  unfold bindParameter
  grind

@[grind ←] theorem bindParameters_delegates {written : List (Param Expr)} {function : ItemId} :
    Delegates an an' (bindParameters an frame written function scope)
      (bindParameters an' frame written function scope) := by
  unfold bindParameters
  grind

@[grind ←] theorem resultType_delegates :
    Delegates an an' (resultType an frame decl scope cls) (resultType an' frame decl scope cls) := by
  unfold resultType
  grind

@[grind ←] theorem generatorParameter_delegates :
    Delegates an an' (generatorParameter an frame decl scope) (generatorParameter an' frame decl scope) := by
  unfold generatorParameter
  split
  · exact .map type_delegates
  · exact .pure
  · exact .pure

@[grind ←] theorem resolveSignature_delegates :
    Delegates an an' (resolveSignature an frame decl item cls) (resolveSignature an' frame decl item cls) := by
  unfold resolveSignature
  refine .bind look_delegates fun known => .bind expect_delegates fun f => ?_
  refine .bind bindParameters_delegates fun bound => .bind resultType_delegates fun result => ?_
  refine .bind generatorParameter_delegates fun sent => .bind look_delegates fun now => ?_
  exact .bind expect_delegates fun _ => change_delegates

@[grind ←] theorem checkDuplicateFunction_delegates :
    Delegates an an' (checkDuplicateFunction item position) (checkDuplicateFunction item position) := by
  unfold checkDuplicateFunction
  grind

@[grind ←] theorem registerMember_delegates {c : ItemId} :
    Delegates an an' (registerMember c item decl) (registerMember c item decl) :=
  registerMember_of (P := fun x => Delegates an an' x x) .bind look_delegates expect_delegates fail_delegates
    (fun _ _ => change_delegates) fun _ _ => change_delegates

@[grind ←] theorem declareVariant_delegates {canonical : ItemId} {entry : Item}
    {source : Function} {kept : Nat} :
    Delegates an an' (declareVariant decl canonical entry source cls kept)
      (declareVariant decl canonical entry source cls kept) := by
  unfold declareVariant
  refine .bind newScope_delegates fun own => .bind addItem_delegates fun item => ?_
  refine .bind setOwner_delegates fun _ => .bind change_delegates fun _ => ?_
  refine .bind change_delegates fun _ => .bind change_delegates fun _ => ?_
  grind

@[grind ←] theorem declareVariants_delegates {canonical : ItemId} :
    Delegates an an' (declareVariants decl canonical cls) (declareVariants decl canonical cls) := by
  unfold declareVariants
  grind

@[grind ←] theorem declareFunctionTemplate_delegates :
    Delegates an an' (declareFunctionTemplate frame decl scope cls)
      (declareFunctionTemplate frame decl scope cls) := by
  unfold declareFunctionTemplate
  grind

@[grind ←] theorem declareFunction_delegates :
    Delegates an an' (declareFunction an frame decl scope cls) (declareFunction an' frame decl scope cls) := by
  unfold declareFunction
  refine .bind declared?_delegates fun known => ?_
  split
  · exact .pure
  split
  · exact declareFunctionTemplate_delegates
  refine .bind createFunction_delegates fun item => .bind resolveSignature_delegates fun _ => ?_
  refine .bind checkDuplicateFunction_delegates fun _ => ?_
  grind

end Signatures

/-! ## Instances -/

section Instances

variable {decl : ClassDef} {generics : List Ident} {arguments : List Ty}

@[grind ←] theorem createClass_delegates {name : String} :
    Delegates an an' (createClass frame decl scope name) (createClass frame decl scope name) := by
  unfold createClass
  refine .bind newScope_delegates fun own => .bind addItem_delegates fun item => ?_
  refine .bind setOwner_delegates fun _ => ?_
  grind

@[grind ←] theorem checkArity_delegates {name : String} :
    Delegates an an' (checkArity name generics arguments position)
      (checkArity name generics arguments position) := by
  unfold checkArity
  grind

@[grind ←] theorem instanceName_delegates {base : String} :
    Delegates an an' (instanceName base arguments) (instanceName base arguments) := by
  unfold instanceName
  grind

@[grind ←] theorem bindGenerics_delegates {own : ScopeId} :
    Delegates an an' (bindGenerics frame generics arguments own) (bindGenerics frame generics arguments own) := by
  unfold bindGenerics
  grind

@[grind ←] theorem noteGenericDependency_delegates {origin : ModuleId} :
    Delegates an an' (noteGenericDependency origin) (noteGenericDependency origin) := by
  unfold noteGenericDependency
  refine .read (fun _ _ _ => ⟨rfl, rfl⟩) fun s => ?_
  grind

@[grind ←] theorem noteInstance_delegates {item : ItemId} {module : ModuleId} :
    Delegates an an' (noteInstance frame node item module) (noteInstance frame node item module) := by
  unfold noteInstance
  grind

@[grind ←] theorem instantiateClass_delegates {template : ItemId} :
    Delegates an an' (instantiateClass an template arguments position)
      (instantiateClass an' template arguments position) := by
  unfold instantiateClass
  refine .bind template?_delegates fun t => ?_
  split
  · refine .bind checkArity_delegates fun _ => .read (fun _ _ _ => ⟨rfl, rfl⟩) fun s => ?_
    split
    · exact .pure
    refine .bind openFrame_delegates fun frame => .bind instanceName_delegates fun name => ?_
    refine .bind createClass_delegates fun item => .bind change_delegates fun _ => ?_
    refine .bind look_delegates fun _ => .bind expect_delegates fun c => ?_
    refine .bind bindGenerics_delegates fun _ => .bind (.alter (fun _ => rfl) (fun _ => rfl) fun _ _ _ => rfl) fun _ => ?_
    grind
  · grind

@[grind ←] theorem instantiateFunction_delegates {template : ItemId} :
    Delegates an an' (instantiateFunction an template arguments position)
      (instantiateFunction an' template arguments position) := by
  unfold instantiateFunction
  refine .bind template?_delegates fun t => ?_
  split
  · refine .bind checkArity_delegates fun _ => .read (fun _ _ _ => ⟨rfl, rfl⟩) fun s => ?_
    split
    · exact .pure
    refine .bind openFrame_delegates fun frame => .bind instanceName_delegates fun name => ?_
    refine .bind createFunction_delegates fun item => .bind change_delegates fun _ => ?_
    refine .bind look_delegates fun _ => .bind expect_delegates fun f => ?_
    refine .bind bindGenerics_delegates fun _ => .bind (.alter (fun _ => rfl) (fun _ => rfl) fun _ _ _ => rfl) fun _ => ?_
    grind
  · grind

end Instances

/-! ## Written types -/

section Types

variable {typeArgs : List TypeExpr}

@[grind ←] theorem resolveTypes_delegates :
    Delegates an an' (resolveTypes an frame typeArgs scope) (resolveTypes an' frame typeArgs scope) := by
  unfold resolveTypes
  grind

@[grind ←] theorem resolveClass_delegates {cls : ItemId} {name : String} :
    Delegates an an' (resolveClass an frame cls name typeArgs scope position)
      (resolveClass an' frame cls name typeArgs scope position) := by
  unfold resolveClass
  grind

@[grind ←] theorem resolveNamedType_delegates {path : List Ident} :
    Delegates an an' (resolveNamedType an frame path typeArgs scope position)
      (resolveNamedType an' frame path typeArgs scope position) := by
  unfold resolveNamedType
  dsimp only
  split <;> try split
  · exact .pure
  all_goals
    refine .bind resolvePath_delegates fun item => .bind look_delegates fun found => ?_
    refine .bind expect_delegates fun entry => ?_
    split
    · exact .bind resolveClass_delegates fun _ => .pure
    · grind
    · exact failOther_delegates

@[grind ←] theorem resolveTypeParam_delegates {p : TypeParam TypeExpr} {index : Nat} :
    Delegates an an' (resolveTypeParam an frame scope p index) (resolveTypeParam an' frame scope p index) := by
  unfold resolveTypeParam
  grind

@[grind ←] theorem resolveForm_delegates {t : TypeExpr} :
    Delegates an an' (resolveForm an frame t scope) (resolveForm an' frame t scope) := by
  unfold resolveForm
  split
  · exact .pure
  · exact .pure
  · grind
  · exact .bind type_delegates fun _ => .pure
  · exact .bind resolveTypes_delegates fun _ => .pure
  · refine .bind (.mapM fun _ => resolveTypeParam_delegates) fun _ => ?_
    exact .bind type_delegates fun _ => .pure
  · exact resolveNamedType_delegates

@[grind ←] theorem resolveType_delegates {t : TypeExpr} :
    Delegates an an' (resolveType an frame t scope) (resolveType an' frame t scope) := by
  unfold resolveType
  grind

end Types

/-! ## References -/

section References

variable {functions found : List ItemId} {typeArgs : List TypeExpr} {access : Access} {name : String}

@[grind ←] theorem propertyDetail_delegates {getter setter : Option ItemId} {isMethod : Bool} :
    Delegates an an' (propertyDetail functions getter setter isMethod access name position)
      (propertyDetail functions getter setter isMethod access name position) := by
  unfold propertyDetail
  grind

@[grind ←] theorem instanceDetail_delegates {isMethod : Bool} :
    Delegates an an' (instanceDetail an frame functions typeArgs scope isMethod name position)
      (instanceDetail an' frame functions typeArgs scope isMethod name position) := by
  unfold instanceDetail
  refine .bind look_delegates fun table => ?_
  dsimp only
  split
  · exact fail_delegates
  · refine .bind resolveTypes_delegates fun arguments => .bind instantiateFunction_delegates fun inst => ?_
    exact .bind look_delegates fun _ => .pure

@[grind ←] theorem functionDetail_delegates :
    Delegates an an' (functionDetail an frame found typeArgs scope access name position)
      (functionDetail an' frame found typeArgs scope access name position) := by
  unfold functionDetail
  refine .bind look_delegates fun table => ?_
  dsimp only
  split
  · exact propertyDetail_delegates
  · split
    · exact instanceDetail_delegates
    · exact .pure

@[grind ←] theorem nameDetail_delegates {first : ItemId} :
    Delegates an an' (nameDetail an frame first found typeArgs scope access name position)
      (nameDetail an' frame first found typeArgs scope access name position) := by
  unfold nameDetail
  grind

@[grind ←] theorem detailName_delegates {ident : Ident} :
    Delegates an an' (detailName an frame node ident typeArgs scope access)
      (detailName an' frame node ident typeArgs scope access) := by
  unfold detailName
  grind

@[grind ←] theorem meaningOf?_delegates {e : Expr} :
    Delegates an an' (meaningOf? frame e) (meaningOf? frame e) := by
  unfold meaningOf?
  grind

@[grind ←] theorem findMembers_delegates {cls : ItemId} :
    Delegates an an' (findMembers an cls name scope position) (findMembers an' cls name scope position) := by
  unfold findMembers
  exact .bind (.ask _) fun _ => .bind look_delegates fun _ => .guard fail_delegates .pure

@[grind ←] theorem foundMember_delegates {constantObject : Bool} :
    Delegates an an' (foundMember an frame node found typeArgs scope access name constantObject)
      (foundMember an' frame node found typeArgs scope access name constantObject) := by
  unfold foundMember
  split
  · exact fail_delegates
  · refine .bind nameDetail_delegates fun d => .bind look_delegates fun isVariable => ?_
    exact .bind record_delegates fun _ => .pure

@[grind ←] theorem detailMember_delegates {object : Expr} {member : Ident} :
    Delegates an an' (detailMember an frame node object member typeArgs scope access)
      (detailMember an' frame node object member typeArgs scope access) := by
  unfold detailMember
  refine .bind expr_delegates fun info => .bind meaningOf?_delegates fun meaning => ?_
  split
  · exact .bind look_delegates fun _ => .bind look_delegates fun _ => foundMember_delegates
  · split
    · exact .bind (.ask _) fun _ => .bind look_delegates fun _ => foundMember_delegates
    · exact foundMember_delegates
  · dsimp only
    split
    · exact .bind record_delegates fun _ => .pure
    split
    · exact .bind typeText_delegates fun _ => failOther_delegates
    · exact .bind findMembers_delegates fun _ => foundMember_delegates

@[grind ←] theorem methodClass_delegates {construct : String} :
    Delegates an an' (methodClass scope construct position) (methodClass scope construct position) := by
  unfold methodClass
  grind

@[grind ←] theorem firstParent_delegates {cls : ItemId} {construct : String} :
    Delegates an an' (firstParent cls construct position) (firstParent cls construct position) := by
  unfold firstParent
  grind

@[grind ←] theorem detailThis_delegates :
    Delegates an an' (detailThis frame node scope) (detailThis frame node scope) := by
  unfold detailThis
  grind

@[grind ←] theorem detailSuper_delegates :
    Delegates an an' (detailSuper frame node scope) (detailSuper frame node scope) := by
  unfold detailSuper
  grind

end References

/-! ## Choices -/

section Choices

variable {arguments : List CallArgument} {written : List (Argument Expr)} {cls : ItemId}

@[grind ←] theorem detailArguments_delegates :
    Delegates an an' (detailArguments an frame written scope) (detailArguments an' frame written scope) := by
  unfold detailArguments
  grind

@[grind ←] theorem chooseCandidate_delegates {name : String} {candidates : List Candidate} :
    Delegates an an' (chooseCandidate name arguments candidates position)
      (chooseCandidate name arguments candidates position) := by
  unfold chooseCandidate
  refine .read (fun _ _ _ => ⟨rfl, rfl⟩) fun s => ?_
  grind

@[grind ←] theorem settleArgument_delegates {resolution : Resolution} {signature : Signature Ty}
    {value : Expr} {index : Nat} :
    Delegates an an' (settleArgument frame resolution signature value index)
      (settleArgument frame resolution signature value index) := by
  unfold settleArgument
  grind

@[grind ←] theorem settleArguments_delegates {resolution : Resolution} {signature : Signature Ty} :
    Delegates an an' (settleArguments frame written resolution signature)
      (settleArguments frame written resolution signature) := by
  unfold settleArguments
  grind

@[grind ←] theorem chosenSignature_delegates {resolution : Resolution}
    {candidates : List Candidate} :
    Delegates an an' (chosenSignature resolution candidates) (chosenSignature resolution candidates) := by
  unfold chosenSignature
  grind

@[grind ←] theorem chooseConstructor_delegates :
    Delegates an an' (chooseConstructor an frame cls arguments written scope position)
      (chooseConstructor an' frame cls arguments written scope position) := by
  unfold chooseConstructor
  refine .bind (.ask _) fun _ => .bind itemName_delegates fun name => ?_
  refine .bind look_delegates fun candidates => ?_
  split
  · grind
  · refine .bind chooseCandidate_delegates fun resolution => ?_
    refine .bind chosenSignature_delegates fun signature => ?_
    refine .bind settleArguments_delegates fun _ => ?_
    grind

@[grind ←] theorem chooseOperator?_delegates {operator : Operator} {side : Side} :
    Delegates an an' (chooseOperator? an cls operator side arguments scope position)
      (chooseOperator? an' cls operator side arguments scope position) := by
  unfold chooseOperator?
  refine .bind (.ask _) fun _ => .read (fun _ _ _ => ⟨rfl, rfl⟩) fun s => ?_
  grind

@[grind ←] theorem castOperand_delegates {operand : Expr} {choice : OperatorChoice} :
    Delegates an an' (castOperand frame operand choice) (castOperand frame operand choice) := by
  unfold castOperand
  grind

end Choices

/-! ## Calls -/

section Calls

variable {arguments : List CallArgument} {written : List (Argument Expr)} {callee : Expr}

@[grind ←] theorem inferInstance?_delegates {template : ItemId} :
    Delegates an an' (inferInstance? an template written arguments position)
      (inferInstance? an' template written arguments position) := by
  unfold inferInstance?
  refine .bind template?_delegates fun t => ?_
  split
  · dsimp only
    split
    · exact .pure
    split
    · exact .map instantiateFunction_delegates
    · exact fail_delegates
  · exact .pure

@[grind ←] theorem gatherCandidates_delegates {candidates : List Candidate} {function : ItemId} :
    Delegates an an' (gatherCandidates an written arguments position candidates function)
      (gatherCandidates an' written arguments position candidates function) := by
  unfold gatherCandidates
  grind

@[grind ←] theorem callCandidates_delegates {functions : List ItemId} :
    Delegates an an' (callCandidates an functions written arguments position)
      (callCandidates an' functions written arguments position) := by
  unfold callCandidates
  refine .bind (.foldlM fun state function => .tryCatch ?_ (fun e => .bind .giveUp fun _ => .pure) ?_) fun _ => ?_
  · grind
  · exact fun e => .giveUp_pure e _
  · grind

@[grind ←] theorem callNamed_delegates {d : NameDetail} :
    Delegates an an' (callNamed an frame callee written d arguments scope position)
      (callNamed an' frame callee written d arguments scope position) := by
  unfold callNamed
  refine .bind callCandidates_delegates fun candidates => ?_
  refine .bind chooseCandidate_delegates fun resolution => ?_
  refine .bind chosenSignature_delegates fun signature => .bind expect_delegates fun item => ?_
  refine .bind look_delegates fun known => .bind expect_delegates fun f => ?_
  refine .bind narrow_delegates fun _ => .bind settleArguments_delegates fun _ => ?_
  exact .bind linkThrows_delegates fun _ => .pure

@[grind ←] theorem callType_delegates {ty : Ty} :
    Delegates an an' (callType an frame ty written arguments scope position)
      (callType an' frame ty written arguments scope position) := by
  unfold callType
  dsimp only
  split
  · exact .bind chooseConstructor_delegates fun _ => .pure
  split
  · exact .bind look_delegates fun _ => .bind typeText_delegates fun _ => .throw
  · grind

@[grind ←] theorem callValue_delegates {ty : Ty} :
    Delegates an an' (callValue an frame callee ty written arguments scope position)
      (callValue an' frame callee ty written arguments scope position) := by
  unfold callValue
  grind

@[grind ←] theorem callSuper_delegates {marker : Node} :
    Delegates an an' (callSuper an frame node marker written scope)
      (callSuper an' frame node marker written scope) := by
  unfold callSuper
  refine .bind look_delegates fun table => ?_
  dsimp only
  split
  · refine .bind methodClass_delegates fun cls => .bind firstParent_delegates fun parent => ?_
    refine .bind record_delegates fun _ => .bind detailArguments_delegates fun arguments => ?_
    refine .bind chooseConstructor_delegates fun choice => .bind (.alter (fun _ => rfl) (fun _ => rfl) fun _ _ _ => rfl) fun _ => ?_
    exact .bind record_delegates fun _ => .pure
  · exact misplaced_delegates

@[grind ←] theorem detailCallee_delegates :
    Delegates an an' (detailCallee an frame node callee scope) (detailCallee an' frame node callee scope) := by
  unfold detailCallee
  refine .tryCatch expr_delegates (fun e => ?_) fun e => ?_
  · grind
  · split
    · rename_i name _ _ _ hcause
      exact .throw (.inr ⟨name, rfl, hcause⟩)
    · exact .throw (.refl e)

@[grind ←] theorem detailCall_delegates :
    Delegates an an' (detailCall an frame node callee written scope)
      (detailCall an' frame node callee written scope) := by
  unfold detailCall
  split
  · exact callSuper_delegates
  refine .bind detailCallee_delegates fun info => .bind detailArguments_delegates fun arguments => ?_
  refine .bind detail?_delegates fun d => .bind look_delegates fun table => ?_
  have hlast (d : CallDetail) : Delegates an an' (record frame node (.call d) >>= fun _ => pure d.info)
      (record frame node (.call d) >>= fun _ => pure d.info) := .bind record_delegates fun _ => .pure
  dsimp only
  split
  · exact .bind callValue_delegates hlast
  split
  · exact .bind callType_delegates hlast
  split
  · exact .bind callNamed_delegates hlast
  · exact .bind callValue_delegates hlast

end Calls

/-! ## Operators -/

section Operators

@[grind ←] theorem noOperator_delegates {symbol : String} {operands : List Ty} :
    Delegates an an' (noOperator symbol operands position : Analysis α) (noOperator symbol operands position) := by
  unfold noOperator
  grind

@[grind ←] theorem recordOperator_delegates {info : ExprInfo} {overload : Option ItemId} :
    Delegates an an' (recordOperator frame node info overload) (recordOperator frame node info overload) := by
  unfold recordOperator
  grind

@[grind ←] theorem recordOverload_delegates {choice : OperatorChoice} :
    Delegates an an' (recordOverload frame node choice) (recordOverload frame node choice) := by
  unfold recordOverload
  grind

@[grind ←] theorem chooseSide?_delegates {op : BinaryOp} {sides : List OperandSide} :
    Delegates an an' (chooseSide? an op scope position sides) (chooseSide? an' op scope position sides) := by
  induction sides with
  | nil => exact .pure
  | cons side rest ih =>
    unfold chooseSide?
    split
    · exact ih
    · refine .bind chooseOperator?_delegates fun choice => ?_
      split
      · exact .pure
      · exact ih

@[grind ←] theorem detailBinary_delegates {op : BinaryOp} {left right : Expr} :
    Delegates an an' (detailBinary an frame node op left right scope)
      (detailBinary an' frame node op left right scope) := by
  unfold detailBinary
  grind

@[grind ←] theorem changeOperand_delegates {op : UnaryOp} {operand : ExprInfo} {ty : Ty} :
    Delegates an an' (changeOperand op operand ty position) (changeOperand op operand ty position) := by
  unfold changeOperand
  grind

@[grind ←] theorem nativeUnary_delegates {op : UnaryOp} {operand : ExprInfo} {ty : Ty} :
    Delegates an an' (nativeUnary op operand ty position) (nativeUnary op operand ty position) := by
  unfold nativeUnary
  grind

@[grind ←] theorem detailUnary_delegates {op : UnaryOp} {operand : Expr} :
    Delegates an an' (detailUnary an frame node op operand scope)
      (detailUnary an' frame node op operand scope) := by
  unfold detailUnary
  refine .bind (.ask _) fun info => ?_
  have hlast : Delegates an an'
      (nativeUnary op info info.ty.withoutOuterReferences node.position >>= fun i =>
        recordOperator frame node i none)
      (nativeUnary op info info.ty.withoutOuterReferences node.position >>= fun i =>
        recordOperator frame node i none) := .bind nativeUnary_delegates fun _ => recordOperator_delegates
  dsimp only
  split
  · refine .bind chooseOperator?_delegates fun choice => ?_
    split
    · exact recordOverload_delegates
    · exact hlast
  · exact hlast

@[grind ←] theorem assignedValue_delegates {op : Option BinaryOp} {target : ExprInfo}
    {value : Expr} {valueType : Ty} :
    Delegates an an' (assignedValue an frame op target value valueType scope position)
      (assignedValue an' frame op target value valueType scope position) := by
  unfold assignedValue
  dsimp only
  split
  · refine .bind chooseOperator?_delegates fun choice => ?_
    cases op <;> cases choice <;> grind
  · refine .bind .pure fun choice => ?_
    cases op <;> cases choice <;> grind

@[grind ←] theorem assignmentFits_delegates {op : Option BinaryOp} {overload : Option ItemId}
    {value : Expr} {valueType targetType : Ty} :
    Delegates an an' (assignmentFits frame op overload value valueType targetType)
      (assignmentFits frame op overload value valueType targetType) := by
  unfold assignmentFits
  grind

@[grind ←] theorem detailAssign_delegates {op : Option BinaryOp} {target value : Expr} :
    Delegates an an' (detailAssign an frame node op target value scope)
      (detailAssign an' frame node op target value scope) := by
  unfold detailAssign
  grind

@[grind ←] theorem detailIndex_delegates {object index : Expr} :
    Delegates an an' (detailIndex an frame node object index scope)
      (detailIndex an' frame node object index scope) := by
  unfold detailIndex
  refine .bind expr_delegates fun o => .bind expr_delegates fun i => ?_
  dsimp only
  split
  · refine .bind chooseOperator?_delegates fun choice => ?_
    grind
  · grind

end Operators

/-! ## Values -/

section Values

@[grind ←] theorem detailLiteral_delegates {value : Literal} :
    Delegates an an' (detailLiteral frame node value) (detailLiteral frame node value) := by
  unfold detailLiteral
  grind

@[grind ←] theorem conditionalInfo_delegates {yes no : ExprInfo} :
    Delegates an an' (conditionalInfo yes no position) (conditionalInfo yes no position) := by
  unfold conditionalInfo
  grind

@[grind ←] theorem detailConditional_delegates {condition yes no : Expr} :
    Delegates an an' (detailConditional an frame node condition yes no scope)
      (detailConditional an' frame node condition yes no scope) := by
  unfold detailConditional
  grind

@[grind ←] theorem castKind_delegates {src dst : Ty} :
    Delegates an an' (castKind src dst position) (castKind src dst position) := by
  unfold castKind
  grind

@[grind ←] theorem detailCast_delegates {value : Expr} {ty : TypeExpr} :
    Delegates an an' (detailCast an frame node value ty scope) (detailCast an' frame node value ty scope) := by
  unfold detailCast
  grind

@[grind ←] theorem checkInitialValue_delegates {ty : Ty} {written : List (Argument Expr)}
    {arguments : List CallArgument} :
    Delegates an an' (checkInitialValue frame ty written arguments position)
      (checkInitialValue frame ty written arguments position) := by
  unfold checkInitialValue
  grind

@[grind ←] theorem detailNew_delegates {ty : TypeExpr} {written : List (Argument Expr)}
    {persistent : Bool} :
    Delegates an an' (detailNew an frame node ty written persistent scope)
      (detailNew an' frame node ty written persistent scope) := by
  unfold detailNew
  refine .bind type_delegates fun made => .bind detailArguments_delegates fun arguments => ?_
  dsimp only
  split
  · refine .bind chooseConstructor_delegates fun _ => ?_
    exact .bind record_delegates fun _ => .pure
  · grind

@[grind ←] theorem detailSizeOf_delegates {ty : TypeExpr} :
    Delegates an an' (detailSizeOf an frame node ty scope) (detailSizeOf an' frame node ty scope) := by
  unfold detailSizeOf
  grind

@[grind ←] theorem enclosingSort_delegates {sort : FunctionFlags → Bool}
    {construct requirement : String} :
    Delegates an an' (enclosingSort sort construct requirement scope position)
      (enclosingSort sort construct requirement scope position) := by
  unfold enclosingSort
  grind

@[grind ←] theorem awaitedType?_delegates {value : Expr} :
    Delegates an an' (awaitedType? frame value) (awaitedType? frame value) := by
  unfold awaitedType?
  grind

@[grind ←] theorem detailAwait_delegates {value : Expr} :
    Delegates an an' (detailAwait an frame node value scope) (detailAwait an' frame node value scope) := by
  unfold detailAwait
  grind

@[grind ←] theorem detailYield_delegates {value : Option Expr} :
    Delegates an an' (detailYield an frame node value scope) (detailYield an' frame node value scope) := by
  unfold detailYield
  refine .bind enclosingSort_delegates fun sort => ?_
  grind

end Values

end SemanticAnalysis.Analysis
