import SemanticAnalysis.Proofs.Faithful.Declarations

/-!
# Expressions are faithful

Written types, references, calls, operators and values. An instance that a call cannot have is given up, and its
error is noted (`callCandidates_faithful`).
-/

namespace SemanticAnalysis.Analysis

variable {α : Type} {frame : Frame} {node : Node} {scope : ScopeId}
variable {position : Position} {an : Analyst}

/-! ## Written types -/

section Types

variable {typeArgs : List TypeExpr}

@[grind ←] theorem resolveTypes_faithful (han : an.Faithful) :
    Faithful (resolveTypes an frame typeArgs scope) := by
  unfold resolveTypes
  grind

@[grind ←] theorem resolveClass_faithful (han : an.Faithful) {cls : ItemId} {name : String} :
    Faithful (resolveClass an frame cls name typeArgs scope position) := by
  unfold resolveClass
  grind

@[grind ←] theorem resolveNamedType_faithful (han : an.Faithful) {path : List Ident} :
    Faithful (resolveNamedType an frame path typeArgs scope position) := by
  unfold resolveNamedType
  grind -ring -linarith

@[grind ←] theorem resolveTypeParam_faithful (han : an.Faithful) {p : TypeParam TypeExpr} {index : Nat} :
    Faithful (resolveTypeParam an frame scope p index) := by
  unfold resolveTypeParam
  grind

@[grind ←] theorem resolveForm_faithful (han : an.Faithful) {t : TypeExpr} :
    Faithful (resolveForm an frame t scope) := by
  unfold resolveForm
  grind

@[grind ←] theorem resolveType_faithful (han : an.Faithful) {t : TypeExpr} :
    Faithful (resolveType an frame t scope) := by
  unfold resolveType
  grind

end Types

/-! ## References -/

section References

variable {functions found : List ItemId} {typeArgs : List TypeExpr} {access : Access} {name : String}

@[grind ←] theorem propertyDetail_faithful {getter setter : Option ItemId} {isMethod : Bool} :
    Faithful (propertyDetail functions getter setter isMethod access name position) := by
  unfold propertyDetail
  grind

@[grind ←] theorem instanceDetail_faithful (han : an.Faithful) {isMethod : Bool} :
    Faithful (instanceDetail an frame functions typeArgs scope isMethod name position) := by
  unfold instanceDetail
  grind

@[grind ←] theorem functionDetail_faithful (han : an.Faithful) :
    Faithful (functionDetail an frame found typeArgs scope access name position) := by
  unfold functionDetail
  refine .bind look_faithful fun table => ?_
  dsimp only
  split
  · exact propertyDetail_faithful
  · split
    · exact instanceDetail_faithful han
    · exact .pure

@[grind ←] theorem nameDetail_faithful (han : an.Faithful) {first : ItemId} :
    Faithful (nameDetail an frame first found typeArgs scope access name position) := by
  unfold nameDetail
  grind

@[grind ←] theorem detailName_faithful (han : an.Faithful) {ident : Ident} :
    Faithful (detailName an frame node ident typeArgs scope access) := by
  unfold detailName
  grind

@[grind ←] theorem meaningOf?_faithful {e : Expr} : Faithful (meaningOf? frame e) := by
  unfold meaningOf?
  grind

@[grind ←] theorem findMembers_faithful (han : an.Faithful) {cls : ItemId} :
    Faithful (findMembers an cls name scope position) := by
  unfold findMembers
  exact .bind (han.ask _) fun _ => .bind look_faithful fun _ => .guard fail_faithful .pure

@[grind ←] theorem foundMember_faithful (han : an.Faithful) {constantObject : Bool} :
    Faithful (foundMember an frame node found typeArgs scope access name constantObject) := by
  unfold foundMember
  grind

@[grind ←] theorem detailMember_faithful (han : an.Faithful) {object : Expr} {member : Ident} :
    Faithful (detailMember an frame node object member typeArgs scope access) := by
  unfold detailMember
  refine .bind (expr_faithful han) fun info => .bind meaningOf?_faithful fun meaning => ?_
  split
  · exact .bind look_faithful fun _ => .bind look_faithful fun _ => (foundMember_faithful han)
  · grind
  · grind

@[grind ←] theorem methodClass_faithful {construct : String} :
    Faithful (methodClass scope construct position) := by
  unfold methodClass
  grind

@[grind ←] theorem firstParent_faithful {cls : ItemId} {construct : String} :
    Faithful (firstParent cls construct position) := by
  unfold firstParent
  grind

@[grind ←] theorem detailThis_faithful : Faithful (detailThis frame node scope) := by
  unfold detailThis
  grind

@[grind ←] theorem detailSuper_faithful : Faithful (detailSuper frame node scope) := by
  unfold detailSuper
  grind

end References

/-! ## Choices -/

section Choices

variable {arguments : List CallArgument} {written : List (Argument Expr)} {cls : ItemId}

@[grind ←] theorem detailArguments_faithful (han : an.Faithful) :
    Faithful (detailArguments an frame written scope) := by
  unfold detailArguments
  grind

@[grind ←] theorem chooseCandidate_faithful {name : String} {candidates : List Candidate} :
    Faithful (chooseCandidate name arguments candidates position) := by
  unfold chooseCandidate
  grind

@[grind ←] theorem settleArgument_faithful {resolution : Resolution} {signature : Signature Ty}
    {value : Expr} {index : Nat} :
    Faithful (settleArgument frame resolution signature value index) := by
  unfold settleArgument
  grind

@[grind ←] theorem settleArguments_faithful {resolution : Resolution} {signature : Signature Ty} :
    Faithful (settleArguments frame written resolution signature) := by
  unfold settleArguments
  grind

@[grind ←] theorem chosenSignature_faithful {resolution : Resolution}
    {candidates : List Candidate} :
    Faithful (chosenSignature resolution candidates) := by
  unfold chosenSignature
  grind

@[grind ←] theorem chooseConstructor_faithful (han : an.Faithful) :
    Faithful (chooseConstructor an frame cls arguments written scope position) := by
  unfold chooseConstructor
  refine .bind (han.ask _) fun _ => .bind itemName_faithful fun name => ?_
  refine .bind look_faithful fun candidates => ?_
  split
  · grind
  · refine .bind chooseCandidate_faithful fun resolution => ?_
    refine .bind chosenSignature_faithful fun signature => ?_
    refine .bind settleArguments_faithful fun _ => ?_
    grind

@[grind ←] theorem chooseOperator?_faithful (han : an.Faithful) {operator : Operator} {side : Side} :
    Faithful (chooseOperator? an cls operator side arguments scope position) := by
  unfold chooseOperator?
  grind

@[grind ←] theorem castOperand_faithful {operand : Expr} {choice : OperatorChoice} :
    Faithful (castOperand frame operand choice) := by
  unfold castOperand
  grind

end Choices

/-! ## Calls -/

section Calls

variable {arguments : List CallArgument} {written : List (Argument Expr)} {callee : Expr}

@[grind ←] theorem inferInstance?_faithful (han : an.Faithful) {template : ItemId} :
    Faithful (inferInstance? an template written arguments position) := by
  unfold inferInstance?
  refine .bind template?_faithful fun t => ?_
  split
  · dsimp only
    split
    · exact .pure
    split
    · exact .map (instantiateFunction_faithful han)
    · exact fail_faithful
  · exact .pure

@[grind ←] theorem gatherCandidates_faithful (han : an.Faithful) {candidates : List Candidate} {function : ItemId} :
    Faithful (gatherCandidates an written arguments position candidates function) := by
  unfold gatherCandidates
  grind

@[grind ←] theorem callCandidates_faithful (han : an.Faithful) {functions : List ItemId} :
    Faithful (callCandidates an functions written arguments position) := by
  unfold callCandidates
  refine .bind (.foldlM fun state function => ?_) fun gathered => ?_
  · refine .tryCatch (.bind (gatherCandidates_faithful han) fun _ => .pure) (fun e => ?_) fun e s a s' h => ?_
    · exact giveUp_faithful.bind fun _ => .pure
    · cases h
      exact noted_giveUp_lt e s
  · split
    · exact .throw
    · exact .pure

@[grind ←] theorem callNamed_faithful (han : an.Faithful) {d : NameDetail} :
    Faithful (callNamed an frame callee written d arguments scope position) := by
  unfold callNamed
  refine .bind (callCandidates_faithful han) fun candidates => ?_
  refine .bind chooseCandidate_faithful fun resolution => ?_
  refine .bind chosenSignature_faithful fun signature => .bind expect_faithful fun item => ?_
  refine .bind look_faithful fun known => .bind expect_faithful fun f => ?_
  refine .bind narrow_faithful fun _ => .bind settleArguments_faithful fun _ => ?_
  exact .bind linkThrows_faithful fun _ => .pure

@[grind ←] theorem callType_faithful (han : an.Faithful) {ty : Ty} :
    Faithful (callType an frame ty written arguments scope position) := by
  unfold callType
  grind

@[grind ←] theorem callValue_faithful (han : an.Faithful) {ty : Ty} :
    Faithful (callValue an frame callee ty written arguments scope position) := by
  unfold callValue
  grind

@[grind ←] theorem callSuper_faithful (han : an.Faithful) {marker : Node} :
    Faithful (callSuper an frame node marker written scope) := by
  unfold callSuper
  refine .bind look_faithful fun table => ?_
  dsimp only
  split
  · refine .bind methodClass_faithful fun cls => .bind firstParent_faithful fun parent => ?_
    refine .bind record_faithful fun _ => .bind (detailArguments_faithful han) fun arguments => ?_
    refine .bind (chooseConstructor_faithful han) fun choice => .bind (.alter fun _ => rfl) fun _ => ?_
    exact .bind record_faithful fun _ => .pure
  · exact misplaced_faithful

@[grind ←] theorem detailCallee_faithful (han : an.Faithful) :
    Faithful (detailCallee an frame node callee scope) := by
  unfold detailCallee
  refine .rethrow (expr_faithful han) fun e => ?_
  split
  · exact ⟨_, rfl⟩
  · exact ⟨e, rfl⟩

@[grind ←] theorem detailCall_faithful (han : an.Faithful) :
    Faithful (detailCall an frame node callee written scope) := by
  unfold detailCall
  split
  · exact callSuper_faithful han
  refine .bind (detailCallee_faithful han) fun info => .bind (detailArguments_faithful han) fun arguments => ?_
  refine .bind detail?_faithful fun d => .bind look_faithful fun table => ?_
  grind

end Calls

/-! ## Operators -/

section Operators

@[grind ←] theorem noOperator_faithful {symbol : String} {operands : List Ty} :
    Faithful (noOperator symbol operands position : Analysis α) := by
  unfold noOperator
  grind

@[grind ←] theorem recordOperator_faithful {info : ExprInfo} {overload : Option ItemId} :
    Faithful (recordOperator frame node info overload) := by
  unfold recordOperator
  grind

@[grind ←] theorem recordOverload_faithful {choice : OperatorChoice} :
    Faithful (recordOverload frame node choice) := by
  unfold recordOverload
  grind

@[grind ←] theorem chooseSide?_faithful (han : an.Faithful) {op : BinaryOp} {sides : List OperandSide} :
    Faithful (chooseSide? an op scope position sides) := by
  induction sides with
  | nil => exact .pure
  | cons side rest ih =>
    unfold chooseSide?
    grind

@[grind ←] theorem detailBinary_faithful (han : an.Faithful) {op : BinaryOp} {left right : Expr} :
    Faithful (detailBinary an frame node op left right scope) := by
  unfold detailBinary
  grind

@[grind ←] theorem changeOperand_faithful {op : UnaryOp} {operand : ExprInfo} {ty : Ty} :
    Faithful (changeOperand op operand ty position) := by
  unfold changeOperand
  grind

@[grind ←] theorem nativeUnary_faithful {op : UnaryOp} {operand : ExprInfo} {ty : Ty} :
    Faithful (nativeUnary op operand ty position) := by
  unfold nativeUnary
  grind

@[grind ←] theorem detailUnary_faithful (han : an.Faithful) {op : UnaryOp} {operand : Expr} :
    Faithful (detailUnary an frame node op operand scope) := by
  unfold detailUnary
  grind

@[grind ←] theorem assignedValue_faithful (han : an.Faithful) {op : Option BinaryOp} {target : ExprInfo}
    {value : Expr} {valueType : Ty} :
    Faithful (assignedValue an frame op target value valueType scope position) := by
  unfold assignedValue
  dsimp only
  split
  · refine .bind (chooseOperator?_faithful han) fun choice => ?_
    cases op <;> cases choice <;> grind
  · refine .bind .pure fun choice => ?_
    cases op <;> cases choice <;> grind

@[grind ←] theorem assignmentFits_faithful {op : Option BinaryOp} {overload : Option ItemId}
    {value : Expr} {valueType targetType : Ty} :
    Faithful (assignmentFits frame op overload value valueType targetType) := by
  unfold assignmentFits
  grind

@[grind ←] theorem detailAssign_faithful (han : an.Faithful) {op : Option BinaryOp} {target value : Expr} :
    Faithful (detailAssign an frame node op target value scope) := by
  unfold detailAssign
  grind

@[grind ←] theorem detailIndex_faithful (han : an.Faithful) {object index : Expr} :
    Faithful (detailIndex an frame node object index scope) := by
  unfold detailIndex
  refine .bind (expr_faithful han) fun o => .bind (expr_faithful han) fun i => ?_
  dsimp only
  split
  · refine .bind (chooseOperator?_faithful han) fun choice => ?_
    grind
  · grind

end Operators

/-! ## Values -/

section Values

@[grind ←] theorem detailLiteral_faithful {value : Literal} :
    Faithful (detailLiteral frame node value) := by
  unfold detailLiteral
  grind

@[grind ←] theorem conditionalInfo_faithful {yes no : ExprInfo} :
    Faithful (conditionalInfo yes no position) := by
  unfold conditionalInfo
  grind

@[grind ←] theorem detailConditional_faithful (han : an.Faithful) {condition yes no : Expr} :
    Faithful (detailConditional an frame node condition yes no scope) := by
  unfold detailConditional
  grind

@[grind ←] theorem castKind_faithful {src dst : Ty} :
    Faithful (castKind src dst position) := by
  unfold castKind
  grind

@[grind ←] theorem detailCast_faithful (han : an.Faithful) {value : Expr} {ty : TypeExpr} :
    Faithful (detailCast an frame node value ty scope) := by
  unfold detailCast
  grind

@[grind ←] theorem checkInitialValue_faithful {ty : Ty} {written : List (Argument Expr)}
    {arguments : List CallArgument} :
    Faithful (checkInitialValue frame ty written arguments position) := by
  unfold checkInitialValue
  grind

@[grind ←] theorem detailNew_faithful (han : an.Faithful) {ty : TypeExpr} {written : List (Argument Expr)}
    {persistent : Bool} :
    Faithful (detailNew an frame node ty written persistent scope) := by
  unfold detailNew
  grind

@[grind ←] theorem detailSizeOf_faithful (han : an.Faithful) {ty : TypeExpr} :
    Faithful (detailSizeOf an frame node ty scope) := by
  unfold detailSizeOf
  grind

@[grind ←] theorem enclosingSort_faithful {sort : FunctionFlags → Bool}
    {construct requirement : String} :
    Faithful (enclosingSort sort construct requirement scope position) := by
  unfold enclosingSort
  grind

@[grind ←] theorem awaitedType?_faithful {value : Expr} :
    Faithful (awaitedType? frame value) := by
  unfold awaitedType?
  grind

@[grind ←] theorem detailAwait_faithful (han : an.Faithful) {value : Expr} :
    Faithful (detailAwait an frame node value scope) := by
  unfold detailAwait
  grind

@[grind ←] theorem detailYield_faithful (han : an.Faithful) {value : Option Expr} :
    Faithful (detailYield an frame node value scope) := by
  unfold detailYield
  refine .bind enclosingSort_faithful fun sort => ?_
  grind

end Values

end SemanticAnalysis.Analysis
