import SemanticAnalysis.Analysis.Choice
import SemanticAnalysis.Analysis.Reference
import SemanticAnalysis.NativeOperation

/-!
# Operators

An operand of a class first looks for a function of its class: the left operand, then the right one
with the sides exchanged. Only when there is none does the native meaning of the operator count.
-/

namespace SemanticAnalysis

/-- The operator changes its operand and gives the changed one. -/
def UnaryOp.givesOperand : UnaryOp → Bool
  | preIncrement | preDecrement => true
  | _ => false

/-- The native value of an operator that changes its operand: the place itself when the change comes
first, else a copy of the old value. -/
def UnaryOp.changedInfo (op : UnaryOp) (ty : Ty) : ExprInfo :=
  if op.givesOperand then .lvalue ty else .rvalue ty.deconstify

namespace Analysis

variable (an : Analyst)

/-- Stop because an operator has no meaning for its operands. -/
def noOperator {α : Type} (symbol : String) (operands : List Ty) (position : Position) :
    Analysis α := do
  let table ← look id
  let texts := operands.map fun ty => Cause.quoted (table.typeText ty)
  fail position (.noOperator symbol (" and ".intercalate texts))

/-- Record an operator expression. -/
def recordOperator (frame : Frame) (node : Node) (info : ExprInfo) (overload : Option ItemId) :
    Analysis ExprInfo := do
  record frame node (.operator info overload)
  return info

/-- Record an operator expression that a function of a class carries out. -/
def recordOverload (frame : Frame) (node : Node) (choice : OperatorChoice) : Analysis ExprInfo :=
  recordOperator frame node (.ofResult choice.signature.result) (some choice.function)

/-! ## Binary operators -/

/-- One operand that may carry out a binary operator, and the other one. -/
structure OperandSide where
  cls : Option ItemId
  side : Side
  other : Expr
  otherType : Ty

/-- The first side whose class has a function for a binary operator, with the other operand. -/
def chooseSide? (op : BinaryOp) (scope : ScopeId) (position : Position) :
    List OperandSide → Analysis (Option (Expr × OperatorChoice))
  | [] => return none
  | s :: rest => do
    match s.cls with
    | none => chooseSide? op scope position rest
    | some cls =>
      match ← chooseOperator? an cls (.binary op) s.side [.typed s.otherType] scope position with
      | some choice => return some (s.other, choice)
      | none => chooseSide? op scope position rest

/-- A binary operator. -/
def detailBinary (frame : Frame) (node : Node) (op : BinaryOp) (left right : Expr)
    (scope : ScopeId) : Analysis ExprInfo := do
  let l ← an.expr frame left scope
  let r ← an.expr frame right scope
  let sides : List OperandSide :=
    if op.isLogical then []
    else
      [⟨l.ty.withoutOuterReferences.valueClass?, .left, right, r.ty⟩,
        ⟨r.ty.withoutOuterReferences.valueClass?, .right, left, l.ty⟩]
  match ← chooseSide? an op scope node.position sides with
  | some (other, choice) =>
    castOperand frame other choice
    recordOverload frame node choice
  | none =>
    match nativeBinaryType op l.ty r.ty with
    | some ty => recordOperator frame node (.rvalue ty) none
    | none => noOperator op.symbol [l.ty, r.ty] node.position

/-! ## Unary operators -/

/-- The native value of an operator that changes its operand. -/
def changeOperand (op : UnaryOp) (operand : ExprInfo) (ty : Ty) (position : Position) :
    Analysis ExprInfo := do
  if !(ty.isWildcard || ty.isArithmetic || ty.isPointer) then
    noOperator op.symbol [operand.ty] position
  else if !operand.isLvalue || ty.isConstant then
    failOther position (Cause.quoted op.symbol ++ " needs a mutable operand")
  else return op.changedInfo ty

/-- The native value of a unary operator on an operand whose value is of type `ty`. -/
def nativeUnary (op : UnaryOp) (operand : ExprInfo) (ty : Ty) (position : Position) :
    Analysis ExprInfo := do
  let reject : Analysis ExprInfo := noOperator op.symbol [operand.ty] position
  match op with
  | .addressOf =>
    if operand.isLvalue then return .rvalue ty.point
    else failOther position "cannot take the address of a temporary"
  | .dereference =>
    if ty.isWildcard then return .lvalue .any
    else
      match ty.follow? with
      | some pointee => if ty.isNull then reject else return .lvalue pointee
      | none => reject
  | .not => if ty.isTruthy then return .rvalue .bool else reject
  | .negate | .plus =>
    if ty.isWildcard || ty.isArithmetic then return .rvalue ty.deconstify else reject
  | .bitNot =>
    if ty.isWildcard || (ty.isArithmetic && ty.native?.any (·.hasBits)) then
      return .rvalue ty.deconstify
    else reject
  | .preIncrement | .preDecrement | .postIncrement | .postDecrement =>
    changeOperand op operand ty position

/-- A unary operator. -/
def detailUnary (frame : Frame) (node : Node) (op : UnaryOp) (operand : Expr) (scope : ScopeId) :
    Analysis ExprInfo := do
  let access := if op.mutatesOperand then Access.readWrite else .read
  let info ← an.ask (.expr frame operand scope access)
  let ty := info.ty.withoutOuterReferences
  if let (true, some cls) := (op.isOverloadable, ty.valueClass?) then
    if let some choice ← chooseOperator? an cls (.unary op) .left [] scope node.position then
      return ← recordOverload frame node choice
  recordOperator frame node (← nativeUnary op info ty node.position) none

/-! ## Assignment -/

/-- The function that carries out an assignment, if any, and the type of the assigned value. -/
def assignedValue (frame : Frame) (op : Option BinaryOp) (target : ExprInfo) (value : Expr)
    (valueType : Ty) (scope : ScopeId) (position : Position) :
    Analysis (Option ItemId × Ty) := do
  let targetType := target.ty.withoutOuterReferences
  let operator := op.elim Operator.assign .binary
  let choice ←
    match targetType.valueClass? with
    | some cls => chooseOperator? an cls operator .left [.typed valueType] scope position
    | none => pure none
  if let some choice := choice then castOperand frame value choice
  match op, choice with
  | none, choice => return (choice.map (·.function), valueType)
  | some _, some choice =>
    return (some choice.function, choice.signature.result.withoutOuterReferences)
  | some op, none =>
    match nativeBinaryType op targetType valueType with
    | some ty => return (none, ty)
    | none => noOperator op.symbol [target.ty, valueType] position

/-- Whether the assigned value fits its target. The user cast it takes is recorded on the value of a
plain assignment. -/
def assignmentFits (frame : Frame) (op : Option BinaryOp) (overload : Option ItemId)
    (value : Expr) (valueType targetType : Ty) : Analysis Bool := do
  if overload.isSome && op.isNone then return true
  let place := targetType.deconstify
  let c ← conversion valueType place
  if let (some function, none) := (c.via, op) then
    castImplicitly frame value.node ⟨function, place⟩
  return c.isPossible

/-- An assignment. A value that does not fit is noted, not rejected. -/
def detailAssign (frame : Frame) (node : Node) (op : Option BinaryOp) (target value : Expr)
    (scope : ScopeId) : Analysis ExprInfo := do
  let access := if op.isSome then Access.readWrite else .write
  let t ← an.ask (.expr frame target scope access)
  let v ← an.expr frame value scope
  let setter :=
    match ← meaningOf? frame target with
    | some (.property _ setter) => setter
    | _ => none
  let targetType := t.ty.withoutOuterReferences
  let (overload, valueType) ← assignedValue an frame op t value v.ty scope node.position
  let compatible ← assignmentFits frame op overload value valueType targetType
  let info := ExprInfo.rvalue targetType
  record frame node (.assign { info, overload, setter, valueType, compatible })
  return info

/-! ## Indexing -/

/-- An index into a class value, a pointer or anything. -/
def detailIndex (frame : Frame) (node : Node) (object index : Expr) (scope : ScopeId) :
    Analysis ExprInfo := do
  let o ← an.expr frame object scope
  let i ← an.expr frame index scope
  let ty := o.ty.withoutOuterReferences
  let indexType := i.ty.withoutOuterReferences
  let reject : Analysis ExprInfo := noOperator "[]" [o.ty, i.ty] node.position
  match ty.valueClass? with
  | some cls =>
    match ← chooseOperator? an cls .index .left [.typed i.ty] scope node.position with
    | some choice =>
      castOperand frame index choice
      recordOverload frame node choice
    | none => reject
  | none =>
    if ty.isWildcard then recordOperator frame node (.lvalue .any) none
    else
      match ty.follow? with
      | some element =>
        if (indexType.isWildcard || indexType.isIntegral) && !ty.isNull then
          recordOperator frame node (.lvalue element) none
        else reject
      | none => reject

end Analysis

end SemanticAnalysis
