import SemanticAnalysis.Analysis.Choice
import SemanticAnalysis.Analysis.Use
import SemanticAnalysis.NativeOperation

/-!
# Values

Literals, conditionals, casts, new values, sizes, and the places where an async function or a
generator waits.
-/

namespace SemanticAnalysis

/-- The type of a literal. -/
def Literal.ty : Literal → Ty
  | int _ => .int
  | float _ => .native .float
  | double _ => .native .double
  | bool _ => .bool
  | string _ => .string
  | null => .null

/-! ## Casts -/

namespace Ty

/-- The class of the value behind all references. -/
def referredClass? (t : Ty) : Option ItemId := t.withoutOuterReferences.valueClass?

/-- The class that a reference or pointer leads to. -/
def pointeeClass? (t : Ty) : Option ItemId :=
  if t.isReference then t.referredClass? else t.follow?.bind referredClass?

/-- A class, or a way to it, is taken for a class derived from it. -/
def isDowncast (table : SymbolTable) (src dst : Ty) : Bool :=
  match src.pointeeClass?.orElse fun _ => src.referredClass?, dst.pointeeClass? with
  | some base, some derived => table.hasParent derived base
  | _, _ => false

/-- Pointers can be taken for other pointers and for whole numbers, and whole numbers for pointers. -/
def isReinterpretable (src dst : Ty) : Bool :=
  let dst := dst.withoutOuterReferences
  (src.isPointer && (dst.isPointer || dst.isIntegral)) || (src.isIntegral && dst.isPointer)

/-- How a value of type `src` is taken for `dst` when it does not convert by itself. -/
def forcedCast? (table : SymbolTable) (src dst : Ty) : Option CastKind :=
  let value := src.withoutOuterReferences
  if value.isArithmetic && dst.withoutOuterReferences.isArithmetic then some .native
  else if isDowncast table value dst then some .downcast
  else if isReinterpretable value dst then some .reinterpret
  else none

end Ty

namespace Analysis

variable (an : Analyst)

/-- A literal. -/
def detailLiteral (frame : Frame) (node : Node) (value : Literal) : Analysis ExprInfo := do
  let info := ExprInfo.rvalue value.ty
  record frame node (.literal info)
  return info

/-- The value of a conditional: the type that the other branch converts to best. Two places of one
type stay a place. -/
def conditionalInfo (yes no : ExprInfo) (position : Position) : Analysis ExprInfo := do
  if yes.ty == no.ty then
    return { ty := yes.ty, isLvalue := yes.isLvalue && no.isLvalue }
  let yesType := yes.ty.withoutOuterReferences
  let noType := no.ty.withoutOuterReferences
  let toYes := (← conversion noType yesType).score
  let toNo := (← conversion yesType noType).score
  if toYes == 0 && toNo == 0 then
    fail position (.typeMismatch (← typeText yes.ty) (← typeText no.ty))
  return .rvalue (if toNo ≤ toYes then yesType else noType).deconstify

/-- A conditional expression. -/
def detailConditional (frame : Frame) (node : Node) (condition yes no : Expr) (scope : ScopeId) :
    Analysis ExprInfo := do
  discard <| an.expr frame condition scope
  let y ← an.expr frame yes scope
  let n ← an.expr frame no scope
  let info ← conditionalInfo y n node.position
  record frame node (.conditional info)
  return info

/-- How a written cast is carried out, with the user cast it goes through. -/
def castKind (src dst : Ty) (position : Position) : Analysis (CastKind × Option ItemId) := do
  let c ← conversion src dst
  if c.isPossible then
    return (if c.via.isSome then .user else .implicit, c.via)
  match ← look (Ty.forcedCast? · src dst) with
  | some kind => return (kind, none)
  | none => fail position (.invalidCast (← typeText src) (← typeText dst))

/-- A written cast. -/
def detailCast (frame : Frame) (node : Node) (value : Expr) (ty : TypeExpr) (scope : ScopeId) :
    Analysis ExprInfo := do
  let v ← an.expr frame value scope
  let target ← an.type frame ty scope
  let (kind, via) ← castKind v.ty target node.position
  let info := ExprInfo.ofResult target
  record frame node (.cast info kind via)
  return info

/-- Check the initial value of a new native value or indirection. -/
def checkInitialValue (frame : Frame) (ty : Ty) (written : List (Argument Expr))
    (arguments : List CallArgument) (position : Position) : Analysis Unit := do
  match written, arguments with
  | [], _ | _, [] => return
  | [a], [argument] =>
    let src := (argument.options.head?.map (·.ty)).getD .any
    checkAssignable frame a.value src ty position
  | _, _ => failOther position (Cause.quoted (← typeText ty) ++ " takes at most one initial value")

/-- A new value, or a pointer to one that stays. -/
def detailNew (frame : Frame) (node : Node) (ty : TypeExpr) (written : List (Argument Expr))
    (persistent : Bool) (scope : ScopeId) : Analysis ExprInfo := do
  let made ← an.type frame ty scope
  let arguments ← detailArguments an frame written scope
  let info := ExprInfo.rvalue (if persistent then made.point else made)
  match made.referredClass? with
  | some cls =>
    let (ctor, resolution) ←
      chooseConstructor an frame cls arguments written scope node.position
    record frame node (.new { info, cls := some cls, ctor, resolution, persistent })
  | none =>
    if made.isArithmetic || !made.isValue then
      checkInitialValue frame made written arguments node.position
    else failOther node.position ("cannot create a " ++ Cause.quoted (← typeText made) ++ " with new")
    record frame node (.new { info, persistent })
  return info

/-- The size of a type. -/
def detailSizeOf (frame : Frame) (node : Node) (ty : TypeExpr) (scope : ScopeId) :
    Analysis ExprInfo := do
  let measured ← an.type frame ty scope
  if measured.isVoid then failOther node.position "'void' has no size"
  let info := ExprInfo.rvalue .size
  record frame node (.sizeOfType info measured)
  return info

/-! ## Waiting -/

/-- The enclosing function, which must be of a certain sort. -/
def enclosingSort (sort : FunctionFlags → Bool) (construct requirement : String) (scope : ScopeId)
    (position : Position) : Analysis (ItemId × Function) := do
  let table ← look id
  match (table.enclosingFunction? scope).bind fun f => (table.function? f).map (f, ·) with
  | some (item, f) =>
    if sort f.flags then return (item, f) else misplaced construct requirement position
  | none => misplaced construct requirement position

/-- What an awaited call of an async function gives in the end. -/
def awaitedType? (frame : Frame) (value : Expr) : Analysis (Option Ty) := do
  let callee := ((← detail? frame value.node).bind (·.call?)).bind (·.callee)
  let f ← look fun t => (callee.bind t.function?).filter (·.flags.async)
  return f.map fun f => f.coroutineReturn.getD f.returnType

/-- `await` in an async function. -/
def detailAwait (frame : Frame) (node : Node) (value : Expr) (scope : ScopeId) :
    Analysis ExprInfo := do
  let (function, _) ←
    enclosingSort (·.async) "await" "inside an async function" scope node.position
  let v ← an.expr frame value scope
  let info := ExprInfo.rvalue ((← awaitedType? frame value).getD v.ty.withoutOuterReferences)
  record frame node (.await info function)
  return info

/-- `yield` in a generator. It gives what is sent back in. -/
def detailYield (frame : Frame) (node : Node) (value : Option Expr) (scope : ScopeId) :
    Analysis ExprInfo := do
  let (function, f) ←
    enclosingSort (·.generator) "yield" "inside a generator" scope node.position
  if let some e := value then
    let v ← an.expr frame e scope
    if let some expected := f.generatorReturn.filter (!·.isVoid) then
      checkAssignable frame e v.ty expected node.position
  let info := ExprInfo.rvalue (f.generatorParameter.getD .void)
  record frame node (.yield info function)
  return info

end Analysis

end SemanticAnalysis
