import SemanticAnalysis.Proofs.Course.Instances

/-!
# Expressions follow a course

Written types, references, calls, operators and values. Nothing here enters a module or makes an instance
itself: expressions ask the analyst for types, and call for instances where a generic function or class
is named.
-/

namespace SemanticAnalysis.Analysis

variable {α : Type} {s₀ : State} {frame : Frame} {node : Node} {scope : ScopeId}
variable {position : Position} {an : Analyst}

/-! ## Written types -/

section Types

variable {typeArgs : List TypeExpr}

@[grind ←] theorem resolveTypes_orderly (han : an.Orderly) :
    Orderly s₀ (resolveTypes an frame typeArgs scope) := .mapM fun _ _ => type_orderly han

@[grind ←] theorem resolveClass_orderly (han : an.Orderly) {cls : ItemId} {name : String} :
    Orderly s₀ (resolveClass an frame cls name typeArgs scope position) := by
  unfold resolveClass
  grind

@[grind ←] theorem resolveNamedType_orderly (han : an.Orderly) {path : List Ident} :
    Orderly s₀ (resolveNamedType an frame path typeArgs scope position) := by
  unfold resolveNamedType
  grind

@[grind ←] theorem resolveTypeParam_orderly (han : an.Orderly) {p : TypeParam TypeExpr}
    {index : Nat} : Orderly s₀ (resolveTypeParam an frame scope p index) := by
  unfold resolveTypeParam
  grind

@[grind ←] theorem resolveForm_orderly (han : an.Orderly) {t : TypeExpr} :
    Orderly s₀ (resolveForm an frame t scope) := by
  unfold resolveForm
  grind

@[grind ←] theorem resolveType_orderly (han : an.Orderly) {t : TypeExpr} :
    Orderly s₀ (resolveType an frame t scope) := by
  unfold resolveType
  grind

end Types

/-! ## References -/

section References

variable {functions found : List ItemId} {typeArgs : List TypeExpr} {access : Access} {name : String}

@[grind ←] theorem propertyDetail_orderly {getter setter : Option ItemId} {isMethod : Bool} :
    Orderly s₀ (propertyDetail functions getter setter isMethod access name position) := by
  unfold propertyDetail
  grind

@[grind ←] theorem instanceDetail_orderly (han : an.Orderly) {isMethod : Bool} :
    Orderly s₀ (instanceDetail an frame functions typeArgs scope isMethod name position) := by
  unfold instanceDetail
  grind

@[grind ←] theorem functionDetail_orderly (han : an.Orderly) :
    Orderly s₀ (functionDetail an frame found typeArgs scope access name position) := by
  unfold functionDetail
  grind

@[grind ←] theorem nameDetail_orderly (han : an.Orderly) {first : ItemId} :
    Orderly s₀ (nameDetail an frame first found typeArgs scope access name position) := by
  unfold nameDetail
  grind

@[grind ←] theorem detailName_orderly (han : an.Orderly) {ident : Ident} :
    Orderly s₀ (detailName an frame node ident typeArgs scope access) := by
  unfold detailName
  grind

@[grind ←] theorem meaningOf?_orderly {e : Expr} : Orderly s₀ (meaningOf? frame e) := by
  unfold meaningOf?
  grind

@[grind ←] theorem findMembers_orderly (han : an.Orderly) {cls : ItemId} :
    Orderly s₀ (findMembers an cls name scope position) := by
  unfold findMembers
  grind

@[grind ←] theorem foundMember_orderly (han : an.Orderly) {constantObject : Bool} :
    Orderly s₀ (foundMember an frame node found typeArgs scope access name constantObject) := by
  unfold foundMember
  grind

@[grind ←] theorem detailMember_orderly (han : an.Orderly) {object : Expr} {member : Ident} :
    Orderly s₀ (detailMember an frame node object member typeArgs scope access) := by
  unfold detailMember
  refine .bind (expr_orderly han) fun info => .bind meaningOf?_orderly fun meaning => ?_
  split
  · exact .bind look_orderly fun _ => .bind look_orderly fun _ => foundMember_orderly han
  · grind
  · grind

@[grind ←] theorem methodClass_orderly {construct : String} :
    Orderly s₀ (methodClass scope construct position) := by
  unfold methodClass
  grind

@[grind ←] theorem firstParent_orderly {cls : ItemId} {construct : String} :
    Orderly s₀ (firstParent cls construct position) := by
  unfold firstParent
  grind

@[grind ←] theorem detailThis_orderly : Orderly s₀ (detailThis frame node scope) := by
  unfold detailThis
  grind

@[grind ←] theorem detailSuper_orderly : Orderly s₀ (detailSuper frame node scope) := by
  unfold detailSuper
  grind

end References

/-! ## Choices -/

section Choices

variable {arguments : List CallArgument} {written : List (Argument Expr)} {cls : ItemId}

@[grind ←] theorem detailArguments_orderly (han : an.Orderly) :
    Orderly s₀ (detailArguments an frame written scope) := by
  unfold detailArguments
  grind

@[grind ←] theorem chooseCandidate_orderly {name : String} {candidates : List Candidate} :
    Orderly s₀ (chooseCandidate name arguments candidates position) := by
  unfold chooseCandidate
  grind

@[grind ←] theorem settleArgument_orderly {resolution : Resolution} {signature : Signature Ty}
    {value : Expr} {index : Nat} :
    Orderly s₀ (settleArgument frame resolution signature value index) := by
  unfold settleArgument
  grind

@[grind ←] theorem settleArguments_orderly {resolution : Resolution} {signature : Signature Ty} :
    Orderly s₀ (settleArguments frame written resolution signature) :=
  .forM fun _ _ => settleArgument_orderly

@[grind ←] theorem chosenSignature_orderly {resolution : Resolution} {candidates : List Candidate} :
    Orderly s₀ (chosenSignature resolution candidates) := by
  unfold chosenSignature
  grind

@[grind ←] theorem chooseConstructor_orderly (han : an.Orderly) :
    Orderly s₀ (chooseConstructor an frame cls arguments written scope position) := by
  unfold chooseConstructor
  refine .bind (synthesis_orderly han) fun _ => .bind itemName_orderly fun name => ?_
  refine .bind look_orderly fun candidates => ?_
  split
  · grind
  · refine .bind chooseCandidate_orderly fun resolution => ?_
    refine .bind chosenSignature_orderly fun signature => ?_
    refine .bind settleArguments_orderly fun _ => ?_
    grind

@[grind ←] theorem chooseOperator?_orderly (han : an.Orderly) {operator : Operator} {side : Side} :
    Orderly s₀ (chooseOperator? an cls operator side arguments scope position) := by
  unfold chooseOperator?
  grind

@[grind ←] theorem castOperand_orderly {operand : Expr} {choice : OperatorChoice} :
    Orderly s₀ (castOperand frame operand choice) := by
  unfold castOperand
  grind

end Choices

/-! ## Calls -/

section Calls

variable {arguments : List CallArgument} {written : List (Argument Expr)} {callee : Expr}

@[grind ←] theorem inferInstance?_orderly (han : an.Orderly) {template : ItemId} :
    Orderly s₀ (inferInstance? an template written arguments position) := by
  unfold inferInstance?
  refine .bind template?_orderly fun t => ?_
  split
  · dsimp only
    split
    · exact .pure
    split
    · exact .map (instantiateFunction_orderly han)
    · exact fail_orderly
  · exact .pure

@[grind ←] theorem gatherCandidates_orderly (han : an.Orderly) {candidates : List Candidate}
    {function : ItemId} :
    Orderly s₀ (gatherCandidates an written arguments position candidates function) := by
  unfold gatherCandidates
  grind

@[grind ←] theorem callCandidates_orderly (han : an.Orderly) {functions : List ItemId} :
    Orderly s₀ (callCandidates an functions written arguments position) := by
  unfold callCandidates
  grind

@[grind ←] theorem callNamed_orderly (han : an.Orderly) {d : NameDetail} :
    Orderly s₀ (callNamed an frame callee written d arguments scope position) := by
  unfold callNamed
  refine .bind (callCandidates_orderly han) fun candidates => ?_
  refine .bind chooseCandidate_orderly fun resolution => ?_
  refine .bind chosenSignature_orderly fun signature => .bind expect_orderly fun item => ?_
  refine .bind look_orderly fun known => .bind expect_orderly fun f => ?_
  refine .bind narrow_orderly fun _ => .bind settleArguments_orderly fun _ => ?_
  exact .bind linkThrows_orderly fun _ => .pure

@[grind ←] theorem callType_orderly (han : an.Orderly) {ty : Ty} :
    Orderly s₀ (callType an frame ty written arguments scope position) := by
  unfold callType
  grind

@[grind ←] theorem callValue_orderly (han : an.Orderly) {ty : Ty} :
    Orderly s₀ (callValue an frame callee ty written arguments scope position) := by
  unfold callValue
  grind

@[grind ←] theorem callSuper_orderly (han : an.Orderly) {marker : Node} :
    Orderly s₀ (callSuper an frame node marker written scope) := by
  unfold callSuper
  refine .bind look_orderly fun table => ?_
  dsimp only
  split
  · refine .bind methodClass_orderly fun cls => .bind firstParent_orderly fun parent => ?_
    refine .bind record_orderly fun _ => .bind (detailArguments_orderly han) fun arguments => ?_
    refine .bind (chooseConstructor_orderly han) fun choice => ?_
    refine .bind (.alter fun s => { State.Ordinary.refl s with }) fun _ => ?_
    exact .bind record_orderly fun _ => .pure
  · exact misplaced_orderly

@[grind ←] theorem detailCallee_orderly (han : an.Orderly) :
    Orderly s₀ (detailCallee an frame node callee scope) := by
  unfold detailCallee
  grind

@[grind ←] theorem detailCall_orderly (han : an.Orderly) :
    Orderly s₀ (detailCall an frame node callee written scope) := by
  unfold detailCall
  split
  · exact callSuper_orderly han
  refine .bind (detailCallee_orderly han) fun info => ?_
  refine .bind (detailArguments_orderly han) fun arguments => ?_
  refine .bind detail?_orderly fun d => .bind look_orderly fun table => ?_
  grind

end Calls

/-! ## Operators -/

section Operators

@[grind ←] theorem noOperator_orderly {symbol : String} {operands : List Ty} :
    Orderly s₀ (noOperator symbol operands position : Analysis α) := by
  unfold noOperator
  grind

@[grind ←] theorem recordOperator_orderly {info : ExprInfo} {overload : Option ItemId} :
    Orderly s₀ (recordOperator frame node info overload) := by
  unfold recordOperator
  grind

@[grind ←] theorem recordOverload_orderly {choice : OperatorChoice} :
    Orderly s₀ (recordOverload frame node choice) := recordOperator_orderly

@[grind ←] theorem chooseSide?_orderly (han : an.Orderly) {op : BinaryOp}
    {sides : List OperandSide} : Orderly s₀ (chooseSide? an op scope position sides) := by
  induction sides with
  | nil => exact .pure
  | cons side rest ih =>
    unfold chooseSide?
    grind

@[grind ←] theorem detailBinary_orderly (han : an.Orderly) {op : BinaryOp} {left right : Expr} :
    Orderly s₀ (detailBinary an frame node op left right scope) := by
  unfold detailBinary
  grind

@[grind ←] theorem changeOperand_orderly {op : UnaryOp} {operand : ExprInfo} {ty : Ty} :
    Orderly s₀ (changeOperand op operand ty position) := by
  unfold changeOperand
  grind

@[grind ←] theorem nativeUnary_orderly {op : UnaryOp} {operand : ExprInfo} {ty : Ty} :
    Orderly s₀ (nativeUnary op operand ty position) := by
  unfold nativeUnary
  grind

@[grind ←] theorem accessed_orderly (han : an.Orderly) {e : Expr} {access : Access} :
    Orderly s₀ (an.ask (.expr frame e scope access)) := han.ask _ trivial

@[grind ←] theorem detailUnary_orderly (han : an.Orderly) {op : UnaryOp} {operand : Expr} :
    Orderly s₀ (detailUnary an frame node op operand scope) := by
  unfold detailUnary
  grind

@[grind ←] theorem assignedValue_orderly (han : an.Orderly) {op : Option BinaryOp}
    {target : ExprInfo} {value : Expr} {valueType : Ty} :
    Orderly s₀ (assignedValue an frame op target value valueType scope position) := by
  unfold assignedValue
  dsimp only
  split
  · refine .bind (chooseOperator?_orderly han) fun choice => ?_
    cases op <;> cases choice <;> grind
  · refine .bind .pure fun choice => ?_
    cases op <;> cases choice <;> grind

@[grind ←] theorem assignmentFits_orderly {op : Option BinaryOp} {overload : Option ItemId}
    {value : Expr} {valueType targetType : Ty} :
    Orderly s₀ (assignmentFits frame op overload value valueType targetType) := by
  unfold assignmentFits
  grind

@[grind ←] theorem detailAssign_orderly (han : an.Orderly) {op : Option BinaryOp}
    {target value : Expr} : Orderly s₀ (detailAssign an frame node op target value scope) := by
  unfold detailAssign
  grind

@[grind ←] theorem detailIndex_orderly (han : an.Orderly) {object index : Expr} :
    Orderly s₀ (detailIndex an frame node object index scope) := by
  unfold detailIndex
  refine .bind (expr_orderly han) fun o => .bind (expr_orderly han) fun i => ?_
  dsimp only
  split
  · refine .bind (chooseOperator?_orderly han) fun choice => ?_
    grind
  · grind

end Operators

/-! ## Values -/

section Values

@[grind ←] theorem detailLiteral_orderly {value : Literal} :
    Orderly s₀ (detailLiteral frame node value) := by
  unfold detailLiteral
  grind

@[grind ←] theorem conditionalInfo_orderly {yes no : ExprInfo} :
    Orderly s₀ (conditionalInfo yes no position) := by
  unfold conditionalInfo
  grind

@[grind ←] theorem detailConditional_orderly (han : an.Orderly) {condition yes no : Expr} :
    Orderly s₀ (detailConditional an frame node condition yes no scope) := by
  unfold detailConditional
  grind

@[grind ←] theorem castKind_orderly {src dst : Ty} : Orderly s₀ (castKind src dst position) := by
  unfold castKind
  grind

@[grind ←] theorem detailCast_orderly (han : an.Orderly) {value : Expr} {ty : TypeExpr} :
    Orderly s₀ (detailCast an frame node value ty scope) := by
  unfold detailCast
  grind

@[grind ←] theorem checkInitialValue_orderly {ty : Ty} {written : List (Argument Expr)}
    {arguments : List CallArgument} :
    Orderly s₀ (checkInitialValue frame ty written arguments position) := by
  unfold checkInitialValue
  grind

@[grind ←] theorem detailNew_orderly (han : an.Orderly) {ty : TypeExpr}
    {written : List (Argument Expr)} {persistent : Bool} :
    Orderly s₀ (detailNew an frame node ty written persistent scope) := by
  unfold detailNew
  grind

@[grind ←] theorem detailSizeOf_orderly (han : an.Orderly) {ty : TypeExpr} :
    Orderly s₀ (detailSizeOf an frame node ty scope) := by
  unfold detailSizeOf
  grind

@[grind ←] theorem enclosingSort_orderly {sort : FunctionFlags → Bool}
    {construct requirement : String} :
    Orderly s₀ (enclosingSort sort construct requirement scope position) := by
  unfold enclosingSort
  grind

@[grind ←] theorem awaitedType?_orderly {value : Expr} : Orderly s₀ (awaitedType? frame value) := by
  unfold awaitedType?
  grind

@[grind ←] theorem detailAwait_orderly (han : an.Orderly) {value : Expr} :
    Orderly s₀ (detailAwait an frame node value scope) := by
  unfold detailAwait
  grind

@[grind ←] theorem detailYield_orderly (han : an.Orderly) {value : Option Expr} :
    Orderly s₀ (detailYield an frame node value scope) := by
  unfold detailYield
  refine .bind enclosingSort_orderly fun sort => ?_
  grind

end Values

end SemanticAnalysis.Analysis
