import SemanticAnalysis.Proofs.Permit.Instances

/-!
# Expressions pay

An expression is worth the permits of its nodes. Its parts take theirs, and its own detail is recorded
last, with the permit of its node; whatever else is done on the way takes nothing.
-/

namespace SemanticAnalysis.Analysis

variable {α : Type} {frame : Frame} {node : Node} {scope : ScopeId}
variable {position : Position} {an : Analyst}

/-! ## References -/

section References

variable {functions found : List ItemId} {typeArgs : List TypeExpr} {access : Access} {name : String}

@[grind ←] theorem propertyDetail_quiet {getter setter : Option ItemId} {isMethod : Bool} :
    Quiet (propertyDetail functions getter setter isMethod access name position) := by
  unfold propertyDetail
  dsimp only
  split
  · exact .bind failOther_quiet fun _ => .bind look_quiet fun _ => .pure
  · exact .bind look_quiet fun _ => .pure

@[grind ←] theorem instanceDetail_quiet (han : an.Sparing) {isMethod : Bool} :
    Quiet (instanceDetail an frame functions typeArgs scope isMethod name position) := by
  unfold instanceDetail
  grind

@[grind ←] theorem functionDetail_quiet (han : an.Sparing) :
    Quiet (functionDetail an frame found typeArgs scope access name position) := by
  unfold functionDetail
  refine .bind look_quiet fun table => ?_
  dsimp only
  split
  · exact propertyDetail_quiet
  split
  · exact instanceDetail_quiet han
  · exact .pure

@[grind ←] theorem nameDetail_quiet (han : an.Sparing) {first : ItemId} :
    Quiet (nameDetail an frame first found typeArgs scope access name position) := by
  unfold nameDetail
  refine .bind look_quiet fun known => .bind expect_quiet fun entry => ?_
  split
  · exact .bind noteCapture_quiet fun _ => .pure
  · exact functionDetail_quiet han
  · exact .bind (resolveClass_quiet han) fun _ => .pure
  · exact .pure
  · exact .pure
  · exact .throw (by simp [Diagnostic.internal])

theorem detailName_spends (han : an.Sparing) {ident : Ident} :
    Spends (frame.detailing node) (detailName an frame node ident typeArgs scope access) := by
  have hfound : ∀ d : NameDetail, Spends (frame.detailing node) (do
      record frame node (.name d)
      return d.info : Analysis ExprInfo) := fun d => record_spends.before fun _ => .pure
  unfold detailName
  refine .after look_quiet fun found => ?_
  split
  · split
    · exact .after .pure hfound
    · exact .after missingName_quiet hfound
  · exact .after (nameDetail_quiet han) hfound

@[grind ←] theorem meaningOf?_quiet {e : Expr} : Quiet (meaningOf? frame e) := by
  unfold meaningOf?
  grind

@[grind ←] theorem findMembers_quiet (han : an.Sparing) {cls : ItemId} :
    Quiet (findMembers an cls name scope position) := by
  unfold findMembers
  refine .bind (signatures_quiet han) fun _ => ?_
  grind

theorem foundMember_spends (han : an.Sparing) {constantObject : Bool} :
    Spends (frame.detailing node)
      (foundMember an frame node found typeArgs scope access name constantObject) := by
  unfold foundMember
  split
  · exact .throw (by simp)
  · refine .after (nameDetail_quiet han) fun d => .after look_quiet fun isVariable => ?_
    exact record_spends.before fun _ => .pure

theorem detailMember_spends (han : an.Sparing) {object : Expr} {member : Ident} :
    Spends (permits frame.id object.ids + frame.detailing node)
      (detailMember an frame node object member typeArgs scope access) := by
  unfold detailMember
  refine .bind (expr_spends han) fun info => .after meaningOf?_quiet fun meaning => ?_
  dsimp only
  split
  · exact .after look_quiet fun _ => .after look_quiet fun _ => foundMember_spends han
  · split
    · refine .after (signatures_quiet han) fun _ => ?_
      exact .after look_quiet fun _ => foundMember_spends han
    · exact foundMember_spends han
  · split
    · exact record_spends.before fun _ => .pure
    · split
      · exact .after typeText_quiet fun _ => failOther_quiet.of_le fun _ => Nat.zero_le _
      · exact .after (findMembers_quiet han) fun _ => foundMember_spends han

@[grind ←] theorem methodClass_quiet {construct : String} :
    Quiet (methodClass scope construct position) := by
  unfold methodClass
  refine .bind look_quiet fun table => ?_
  dsimp only
  split
  · exact .pure
  · exact misplaced_quiet

@[grind ←] theorem firstParent_quiet {cls : ItemId} {construct : String} :
    Quiet (firstParent cls construct position) := by
  unfold firstParent
  grind

theorem detailThis_spends : Spends (frame.detailing node) (detailThis frame node scope) := by
  unfold detailThis
  exact .after methodClass_quiet fun cls => record_spends.before fun _ => .pure

theorem detailSuper_spends : Spends (frame.detailing node) (detailSuper frame node scope) := by
  unfold detailSuper
  refine .after methodClass_quiet fun cls => .after firstParent_quiet fun parent => ?_
  exact record_spends.before fun _ => .pure

end References

/-! ## Choices -/

section Choices

variable {arguments : List CallArgument} {written : List (Argument Expr)} {cls : ItemId}

theorem detailArguments_spends (han : an.Sparing) :
    Spends (permits frame.id (Expr.argumentIds written))
      (detailArguments an frame written scope) := by
  unfold detailArguments
  rw [permits_argumentIds]
  refine .mapM fun a _ => (expr_spends han).before fun info => ?_
  grind

@[grind ←] theorem chooseCandidate_quiet {name : String} {candidates : List Candidate} :
    Quiet (chooseCandidate name arguments candidates position) := by
  unfold chooseCandidate
  refine .bind .get fun s => ?_
  split
  · exact .pure
  · exact .throw (by simp [noMatchingCall])
  · exact .throw (by simp [ambiguousCall])

@[grind ←] theorem settleArgument_quiet {resolution : Resolution} {signature : Signature Ty}
    {value : Expr} {index : Nat} :
    Quiet (settleArgument frame resolution signature value index) := by
  unfold settleArgument
  grind

@[grind ←] theorem settleArguments_quiet {resolution : Resolution} {signature : Signature Ty} :
    Quiet (settleArguments frame written resolution signature) := by
  unfold settleArguments
  grind

@[grind ←] theorem chosenSignature_quiet {resolution : Resolution} {candidates : List Candidate} :
    Quiet (chosenSignature resolution candidates) := by
  unfold chosenSignature
  grind

@[grind ←] theorem chooseConstructor_quiet (han : an.Sparing) :
    Quiet (chooseConstructor an frame cls arguments written scope position) := by
  unfold chooseConstructor
  refine .bind (synthesis_quiet han) fun _ => .bind itemName_quiet fun name => ?_
  refine .bind look_quiet fun candidates => ?_
  split
  · split
    · exact .pure
    · exact .bind look_quiet fun table => .throw (by simp [noMatchingCall])
  · refine .bind chooseCandidate_quiet fun resolution => ?_
    refine .bind chosenSignature_quiet fun signature => ?_
    refine .bind settleArguments_quiet fun _ => ?_
    grind

@[grind ←] theorem chooseOperator?_quiet (han : an.Sparing) {operator : Operator} {side : Side} :
    Quiet (chooseOperator? an cls operator side arguments scope position) := by
  unfold chooseOperator?
  refine .bind (signatures_quiet han) fun _ => .bind .get fun s => ?_
  split
  · exact .pure
  · exact .throw (by simp [ambiguousCall])
  · grind

@[grind ←] theorem castOperand_quiet {operand : Expr} {choice : OperatorChoice} :
    Quiet (castOperand frame operand choice) := by
  unfold castOperand
  grind

end Choices

/-! ## Calls -/

section Calls

variable {arguments : List CallArgument} {written : List (Argument Expr)} {callee : Expr}

@[grind ←] theorem inferInstance?_quiet (han : an.Sparing) {template : ItemId} :
    Quiet (inferInstance? an template written arguments position) := by
  unfold inferInstance?
  refine .bind template?_quiet fun t => ?_
  split
  · dsimp only
    split
    · exact .pure
    split
    · exact .map (instantiateFunction_quiet han)
    · exact fail_quiet (by simp)
  · exact .pure

@[grind ←] theorem gatherCandidates_quiet (han : an.Sparing) {candidates : List Candidate}
    {function : ItemId} :
    Quiet (gatherCandidates an written arguments position candidates function) := by
  unfold gatherCandidates
  grind

/-- The error of a template that is left out may still be the answer. -/
@[grind ←] theorem callCandidates_quiet (han : an.Sparing) {functions : List ItemId} :
    Quiet (callCandidates an functions written arguments position) := by
  let Fine (state : List Candidate × Option Diagnostic) : Prop :=
    ∀ e, state.2 = some e → e.cause ≠ .alreadyDetailed
  unfold callCandidates
  refine Promises.bind_quiet (P := Fine) (.foldlM (by simp [Fine]) fun state function hstate => ?_)
    fun state hstate => ?_
  · refine .tryCatch ?_ fun e he => ?_
    · exact (Promises.of_quiet (gatherCandidates_quiet han)).bind fun c _ => .pure hstate
    · refine (Promises.of_quiet (giveUp_quiet he)).bind fun _ _ => .pure fun e' he' => ?_
      cases hfirst : state.2 with
      | none =>
        simp only [hfirst, Option.orElse_none, Option.some.injEq] at he'
        exact he' ▸ he
      | some first =>
        simp only [hfirst, Option.orElse_some, Option.some.injEq] at he'
        exact he' ▸ hstate first hfirst
  · split
    · exact .throw (hstate _ rfl)
    · exact .pure

@[grind ←] theorem callNamed_quiet (han : an.Sparing) {d : NameDetail} :
    Quiet (callNamed an frame callee written d arguments scope position) := by
  unfold callNamed
  refine .bind (callCandidates_quiet han) fun candidates => ?_
  refine .bind chooseCandidate_quiet fun resolution => ?_
  refine .bind chosenSignature_quiet fun signature => .bind expect_quiet fun item => ?_
  refine .bind look_quiet fun known => .bind expect_quiet fun f => ?_
  refine .bind narrow_quiet fun _ => .bind settleArguments_quiet fun _ => ?_
  exact .bind linkThrows_quiet fun _ => .pure

@[grind ←] theorem callType_quiet (han : an.Sparing) {ty : Ty} :
    Quiet (callType an frame ty written arguments scope position) := by
  unfold callType
  dsimp only
  split
  · exact .bind (chooseConstructor_quiet han) fun _ => .pure
  split
  · refine .bind look_quiet fun table => .bind typeText_quiet fun text => .throw ?_
    simp [noMatchingCall]
  · refine .bind conversion_quiet fun c => ?_
    split
    · exact .bind typeText_quiet fun _ => .bind typeText_quiet fun _ => fail_quiet (by simp)
    · exact .pure

@[grind ←] theorem callValue_quiet (han : an.Sparing) {ty : Ty} :
    Quiet (callValue an frame callee ty written arguments scope position) := by
  have hrefused : Quiet (do
      failOther position (Cause.quoted (← typeText ty) ++ " is not callable") : Analysis CallDetail) :=
    .bind typeText_quiet fun _ => failOther_quiet
  unfold callValue
  dsimp only
  split
  · exact .pure
  split
  · refine .bind chooseCandidate_quiet fun resolution => ?_
    exact .bind settleArguments_quiet fun _ => .pure
  split
  · refine .bind (chooseOperator?_quiet han) fun choice => ?_
    cases choice with
    | none => exact hrefused
    | some choice => exact .bind settleArguments_quiet fun _ => .pure
  · exact hrefused

theorem callSuper_spends (han : an.Sparing) {marker : Node} :
    Spends (frame.detailing marker +
        (permits frame.id (Expr.argumentIds written) + frame.detailing node))
      (callSuper an frame node marker written scope) := by
  unfold callSuper
  refine .after look_quiet fun table => ?_
  dsimp only
  split
  · refine .after methodClass_quiet fun cls => .after firstParent_quiet fun parent => ?_
    refine .bind record_spends fun _ => .bind (detailArguments_spends han) fun arguments => ?_
    refine .after (chooseConstructor_quiet han) fun choice => ?_
    refine .after (.alter fun s => { State.Steady.refl s with }) fun _ => ?_
    exact record_spends.before fun _ => .pure
  · exact misplaced_quiet.of_le fun _ => Nat.zero_le _

theorem detailCallee_spends (han : an.Sparing) :
    Spends (permits frame.id callee.ids) (detailCallee an frame node callee scope) := by
  unfold detailCallee
  refine (expr_spends han).tryCatch fun e he => ?_
  split
  · exact fail_quiet (by simp)
  · exact .throw he

theorem detailCall_spends (han : an.Sparing) :
    Spends (permits frame.id callee.ids +
        (permits frame.id (Expr.argumentIds written) + frame.detailing node))
      (detailCall an frame node callee written scope) := by
  have hcalled : ∀ d : CallDetail, Spends (frame.detailing node) (do
      record frame node (.call d)
      return d.info : Analysis ExprInfo) := fun d => record_spends.before fun _ => .pure
  unfold detailCall
  split
  · rw [Expr.ids]
    exact (callSuper_spends han).of_le (add_le_add detail_le_permits (le_refl _))
  refine .bind (detailCallee_spends han) fun info => ?_
  refine .bind (detailArguments_spends han) fun arguments => ?_
  refine .after detail?_quiet fun d => .after look_quiet fun table => ?_
  dsimp only
  split
  · exact .after (callValue_quiet han) hcalled
  split
  · exact .after (callType_quiet han) hcalled
  split
  · exact .after (callNamed_quiet han) hcalled
  · exact .after (callValue_quiet han) hcalled

end Calls

/-! ## Operators -/

section Operators

@[grind ←] theorem noOperator_quiet {symbol : String} {operands : List Ty} :
    Quiet (noOperator symbol operands position : Analysis α) := by
  unfold noOperator
  grind

theorem recordOperator_spends {info : ExprInfo} {overload : Option ItemId} :
    Spends (frame.detailing node) (recordOperator frame node info overload) := by
  unfold recordOperator
  exact record_spends.before fun _ => .pure

theorem recordOverload_spends {choice : OperatorChoice} :
    Spends (frame.detailing node) (recordOverload frame node choice) := recordOperator_spends

@[grind ←] theorem chooseSide?_quiet (han : an.Sparing) {op : BinaryOp} {sides : List OperandSide} :
    Quiet (chooseSide? an op scope position sides) := by
  induction sides with
  | nil => exact .pure
  | cons side rest ih =>
    unfold chooseSide?
    grind

theorem detailBinary_spends (han : an.Sparing) {op : BinaryOp} {left right : Expr} :
    Spends (permits frame.id left.ids + (permits frame.id right.ids + frame.detailing node))
      (detailBinary an frame node op left right scope) := by
  unfold detailBinary
  refine .bind (expr_spends han) fun l => .bind (expr_spends han) fun r => ?_
  refine .after (chooseSide?_quiet han) fun choice => ?_
  split
  · exact .after castOperand_quiet fun _ => recordOverload_spends
  · split
    · exact recordOperator_spends
    · exact noOperator_quiet.of_le fun _ => Nat.zero_le _

@[grind ←] theorem changeOperand_quiet {op : UnaryOp} {operand : ExprInfo} {ty : Ty} :
    Quiet (changeOperand op operand ty position) := by
  unfold changeOperand
  grind

@[grind ←] theorem nativeUnary_quiet {op : UnaryOp} {operand : ExprInfo} {ty : Ty} :
    Quiet (nativeUnary op operand ty position) := by
  unfold nativeUnary
  grind

theorem detailUnary_spends (han : an.Sparing) {op : UnaryOp} {operand : Expr} :
    Spends (permits frame.id operand.ids + frame.detailing node)
      (detailUnary an frame node op operand scope) := by
  unfold detailUnary
  refine .bind (ask_expr_spends han) fun info => ?_
  have hnative : Spends (frame.detailing node) (do
      let operand ← nativeUnary op info info.ty.withoutOuterReferences node.position
      recordOperator frame node operand none : Analysis ExprInfo) :=
    .after nativeUnary_quiet fun _ => recordOperator_spends
  dsimp only
  split
  · refine .after (chooseOperator?_quiet han) fun choice => ?_
    split
    · exact recordOverload_spends
    · exact hnative
  · exact hnative

@[grind ←] theorem assignedValue_quiet (han : an.Sparing) {op : Option BinaryOp}
    {target : ExprInfo} {value : Expr} {valueType : Ty} :
    Quiet (assignedValue an frame op target value valueType scope position) := by
  unfold assignedValue
  dsimp only
  split
  · refine .bind (chooseOperator?_quiet han) fun choice => ?_
    cases op <;> cases choice <;> grind
  · refine .bind .pure fun choice => ?_
    cases op <;> cases choice <;> grind

@[grind ←] theorem assignmentFits_quiet {op : Option BinaryOp} {overload : Option ItemId}
    {value : Expr} {valueType targetType : Ty} :
    Quiet (assignmentFits frame op overload value valueType targetType) := by
  unfold assignmentFits
  grind

theorem detailAssign_spends (han : an.Sparing) {op : Option BinaryOp} {target value : Expr} :
    Spends (permits frame.id target.ids + (permits frame.id value.ids + frame.detailing node))
      (detailAssign an frame node op target value scope) := by
  unfold detailAssign
  refine .bind (ask_expr_spends han) fun t => .bind (expr_spends han) fun v => ?_
  refine .after meaningOf?_quiet fun meaning => .after (assignedValue_quiet han) fun assigned => ?_
  exact .after assignmentFits_quiet fun fits => record_spends.before fun _ => .pure

theorem detailIndex_spends (han : an.Sparing) {object index : Expr} :
    Spends (permits frame.id object.ids + (permits frame.id index.ids + frame.detailing node))
      (detailIndex an frame node object index scope) := by
  unfold detailIndex
  refine .bind (expr_spends han) fun o => .bind (expr_spends han) fun i => ?_
  have hreject : Spends (frame.detailing node)
      (noOperator "[]" [o.ty, i.ty] node.position : Analysis ExprInfo) :=
    noOperator_quiet.of_le fun _ => Nat.zero_le _
  dsimp only
  split
  · refine .after (chooseOperator?_quiet han) fun choice => ?_
    split
    · exact .after castOperand_quiet fun _ => recordOverload_spends
    · exact hreject
  split
  · exact recordOperator_spends
  split
  · split
    · exact recordOperator_spends
    · exact hreject
  · exact hreject

end Operators

/-! ## Values -/

section Values

theorem detailLiteral_spends {value : Literal} :
    Spends (frame.detailing node) (detailLiteral frame node value) := by
  unfold detailLiteral
  exact record_spends.before fun _ => .pure

@[grind ←] theorem conditionalInfo_quiet {yes no : ExprInfo} :
    Quiet (conditionalInfo yes no position) := by
  unfold conditionalInfo
  grind

theorem detailConditional_spends (han : an.Sparing) {condition yes no : Expr} :
    Spends (permits frame.id condition.ids +
        (permits frame.id yes.ids + (permits frame.id no.ids + frame.detailing node)))
      (detailConditional an frame node condition yes no scope) := by
  unfold detailConditional
  refine .bind (expr_spends han).discard fun _ => ?_
  refine .bind (expr_spends han) fun y => .bind (expr_spends han) fun n => ?_
  exact .after conditionalInfo_quiet fun info => record_spends.before fun _ => .pure

@[grind ←] theorem castKind_quiet {src dst : Ty} : Quiet (castKind src dst position) := by
  unfold castKind
  grind

theorem detailCast_spends (han : an.Sparing) {value : Expr} {ty : TypeExpr} :
    Spends (permits frame.id value.ids + frame.detailing node)
      (detailCast an frame node value ty scope) := by
  unfold detailCast
  refine .bind (expr_spends han) fun v => .after (type_quiet han) fun target => ?_
  exact .after castKind_quiet fun kind => record_spends.before fun _ => .pure

@[grind ←] theorem checkInitialValue_quiet {ty : Ty} {written : List (Argument Expr)}
    {arguments : List CallArgument} :
    Quiet (checkInitialValue frame ty written arguments position) := by
  unfold checkInitialValue
  split
  · exact .pure
  · exact .pure
  · exact checkAssignable_quiet
  · exact .bind typeText_quiet fun _ => failOther_quiet

theorem detailNew_spends (han : an.Sparing) {ty : TypeExpr} {written : List (Argument Expr)}
    {persistent : Bool} :
    Spends (permits frame.id (Expr.argumentIds written) + frame.detailing node)
      (detailNew an frame node ty written persistent scope) := by
  unfold detailNew
  refine .after (type_quiet han) fun made => .bind (detailArguments_spends han) fun arguments => ?_
  dsimp only
  split
  · refine .after (chooseConstructor_quiet han) fun choice => ?_
    exact record_spends.before fun _ => .pure
  · split
    · exact .after checkInitialValue_quiet fun _ => record_spends.before fun _ => .pure
    · refine .after typeText_quiet fun text => .after failOther_quiet fun _ => ?_
      exact record_spends.before fun _ => .pure

theorem detailSizeOf_spends (han : an.Sparing) {ty : TypeExpr} :
    Spends (frame.detailing node) (detailSizeOf an frame node ty scope) := by
  unfold detailSizeOf
  refine .after (type_quiet han) fun measured => .guard failOther_quiet ?_
  exact record_spends.before fun _ => .pure

@[grind ←] theorem enclosingSort_quiet {sort : FunctionFlags → Bool}
    {construct requirement : String} :
    Quiet (enclosingSort sort construct requirement scope position) := by
  unfold enclosingSort
  grind

@[grind ←] theorem awaitedType?_quiet {value : Expr} : Quiet (awaitedType? frame value) := by
  unfold awaitedType?
  grind

theorem detailAwait_spends (han : an.Sparing) {value : Expr} :
    Spends (permits frame.id value.ids + frame.detailing node)
      (detailAwait an frame node value scope) := by
  unfold detailAwait
  refine .after enclosingSort_quiet fun function => .bind (expr_spends han) fun v => ?_
  exact .after awaitedType?_quiet fun ty => record_spends.before fun _ => .pure

theorem detailYield_spends (han : an.Sparing) {value : Option Expr} :
    Spends (permits frame.id (Expr.optionIds value) + frame.detailing node)
      (detailYield an frame node value scope) := by
  unfold detailYield
  refine .after enclosingSort_quiet fun sort => ?_
  have hlast : ∀ info, Spends (frame.detailing node) (do
      record frame node (.yield info sort.1)
      return info : Analysis ExprInfo) := fun info => record_spends.before fun _ => .pure
  cases value with
  | none => exact (hlast _).of_le fun _ => Nat.le_add_left _ _
  | some e =>
    refine .bind (expr_spends han) fun v => ?_
    dsimp only
    split
    · exact .after checkAssignable_quiet fun _ => hlast _
    · exact hlast _

/-- The statements of a block, and the block itself. -/
theorem detailBlock_spends (han : an.Sparing) {b : Block Stmt} :
    Spends (permits frame.id (Stmt.blockIds b)) (detailBlock an frame b scope) := by
  unfold detailBlock
  rw [Stmt.blockIds_eq]
  exact .node (.bind (stmts_spends han) fun _ => record_spends)

@[grind ←] theorem stopInferring_quiet {item : ItemId} : Quiet (stopInferring item) :=
  .alter fun s => { State.Steady.refl s with }

theorem declareLambda_spends (han : an.Sparing) {params : List (Param Expr)}
    {returnType : Option TypeExpr} :
    Spends (params.map fun p => DetailKey.declaring ⟨frame.id, p.node.id⟩).sum
      (declareLambda an frame node params returnType scope) := by
  unfold declareLambda
  refine .after (.alter fun s => { State.Steady.refl s with }) fun _ => .after .get fun s => ?_
  dsimp only
  split
  on_goal 1 => refine .after (type_quiet han) fun result => ?_
  on_goal 2 => refine .after .pure fun result => ?_
  all_goals
    refine .after newScope_quiet fun own => .after addItem_quiet fun item => ?_
    refine .after setOwner_quiet fun _ => .before (bindParameters_spends han) fun bound => ?_
    exact .bind (change_quiet fun _ => .modifyFunction) fun _ => .pure

theorem detailLambda_spends (han : an.Sparing) {params : List (Param Expr)}
    {returnType : Option TypeExpr} {body : Block Stmt} :
    Spends ((params.map fun p => DetailKey.declaring ⟨frame.id, p.node.id⟩).sum +
        (permits frame.id (Stmt.blockIds body) + frame.detailing node))
      (detailLambda an frame node params returnType body scope) := by
  unfold detailLambda
  refine .bind (declareLambda_spends han) fun made => ?_
  refine .guard (.alter fun s => { State.Steady.refl s with }) ?_
  refine .bind (andFinally_spends (detailBlock_spends han) stopInferring_quiet) fun _ => ?_
  refine .after finishFunction_quiet fun _ => .after sealWhenDone_quiet fun _ => ?_
  exact .after look_quiet fun ty => record_spends.before fun _ => .pure

end Values

/-- An expression takes the permits of its nodes. -/
theorem detailExpr_spends (han : an.Sparing) {e : Expr} {access : Access} :
    Spends (permits frame.id e.ids) (detailExpr an frame e scope access) := by
  unfold detailExpr
  cases e <;> simp only [Expr.ids]
  case literal => exact .leaf detailLiteral_spends
  case name => exact .leaf (detailName_spends han)
  case member => exact .node (detailMember_spends han)
  case call =>
    refine .node ?_
    rw [permits_append, add_assoc]
    exact detailCall_spends han
  case new => exact .node (detailNew_spends han)
  case binary =>
    refine .node ?_
    rw [permits_append, add_assoc]
    exact detailBinary_spends han
  case unary => exact .node (detailUnary_spends han)
  case assign =>
    refine .node ?_
    rw [permits_append, add_assoc]
    exact detailAssign_spends han
  case conditional =>
    refine .node ?_
    rw [permits_append, permits_append, add_assoc, add_assoc]
    exact detailConditional_spends han
  case cast => exact .node (detailCast_spends han)
  case index =>
    refine .node ?_
    rw [permits_append, add_assoc]
    exact detailIndex_spends han
  case lambda params _ _ =>
    refine .node ?_
    rw [permits_append, add_assoc]
    refine (detailLambda_spends han).of_le (add_le_add (le_trans ?_ (permits_paramIds _ params)) ?_)
    · exact fun _ => Nat.le_add_right _ _
    · exact le_refl _
  case thisRef => exact .leaf detailThis_spends
  case superRef => exact .leaf detailSuper_spends
  case await => exact .node (detailAwait_spends han)
  case yield => exact .node (detailYield_spends han)
  case sizeOfType => exact .leaf (detailSizeOf_spends han)

end SemanticAnalysis.Analysis
