import SemanticAnalysis.Operator
import SemanticAnalysis.Ty.Layers

/-!
# Native operations

The meaning of operators on values that are no class: arithmetic, comparison, pointers and
conditions.
-/

namespace SemanticAnalysis

namespace Ty

/-- A value that can stand as a condition. -/
def isTruthy (t : Ty) : Bool :=
  let t := t.withoutOuterReferences
  t.isWildcard || t.isArithmetic || t.isPointer || t.inner?.isSome

/-- A whole number by value. -/
def isIntegral (t : Ty) : Bool := t.isValue && t.native?.any (·.isIntegral)

/-- The type of `sizeof`. -/
def size : Ty := make (.native .int) [{ unsigned := true, long := true }]

/-- The type of string literals. -/
def string : Ty := make (.native .byte) [{ constant := true }, { pointer := true }]

end Ty

/-- Bits can be taken of whole numbers and of `bool`. -/
def Native.hasBits (n : Native) : Bool := n.isIntegral || n == .bool

/-- The wider of two arithmetic operands, the left one when they are level. Arithmetic on `bool`
gives `int`. -/
def widerOperand (left right : Ty) (l r : Native) : Ty :=
  let wider :=
    if r.rank right.nativeQualifiers ≤ l.rank left.nativeQualifiers then left.deconstify
    else right.deconstify
  if wider.native? == some .bool then .int else wider

/-- The type of a binary operator on two arithmetic values. -/
def arithmeticType (op : BinaryOp) (left right : Ty) (l r : Native) : Option Ty :=
  if op.isBitwise && !(l.hasBits && r.hasBits) then none
  else if op.isComparison then some .bool
  else some (widerOperand left right l r)

/-- The type of a binary operator with a pointer operand: an offset pointer, or a comparison. -/
def pointerType (op : BinaryOp) (left right : Ty) : Option Ty :=
  let movable (t : Ty) := t.isPointer && !t.isNull
  let comparable (t : Ty) := t.isPointer || t.inner?.isSome
  if op.isPointerArithmetic && movable left && right.isIntegral then some left
  else if op == .add && movable right && left.isIntegral then some right
  else if (op == .equal || op == .notEqual) && comparable left && comparable right then some .bool
  else none

/-- The type of a binary operator on values that overload nothing, if it has a meaning there. -/
def nativeBinaryType (op : BinaryOp) (left right : Ty) : Option Ty :=
  let left := left.withoutOuterReferences
  let right := right.withoutOuterReferences
  if left.isWildcard || right.isWildcard then
    some (if op.isComparison || op.isLogical then .bool else .any)
  else if op.isLogical then
    if left.isTruthy && right.isTruthy then some .bool else none
  else
    match left.isArithmetic && right.isArithmetic, left.native?, right.native? with
    | true, some l, some r => arithmeticType op left right l r
    | _, _, _ => pointerType op left right

end SemanticAnalysis
