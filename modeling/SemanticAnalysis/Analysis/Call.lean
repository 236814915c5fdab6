import SemanticAnalysis.Analysis.Choice
import SemanticAnalysis.Analysis.Reference
import SemanticAnalysis.Generics.Inference

/-!
# Calls

What a call means depends on its callee: a named function is chosen among its overloads, a type makes
a value, a value is called through its type or through a call operator, and `super(...)` runs a
constructor of the parent.
-/

namespace SemanticAnalysis

/-- The name that a call has in messages. -/
def Expr.calleeName : Expr → String
  | name _ ident _ => ident.name
  | member _ _ ident _ => ident.name
  | _ => "function"

/-- The name stands for functions only. -/
def NameDetail.isOverloadSet (table : SymbolTable) (d : NameDetail) : Bool :=
  d.meaning.isValue && !d.candidates.isEmpty &&
    d.candidates.all fun c => (table.function? c).isSome

/-- Add the candidate that a function is, once. -/
def addCandidate (table : SymbolTable) (candidates : List Candidate) (function : ItemId) :
    List Candidate :=
  match Candidate.ofFunction? table function with
  | none => candidates
  | some c => if candidates.any (·.item == c.item) then candidates else candidates ++ [c]

/-- The written parameter that an argument of a generic call goes to. -/
def writtenParameter? (params : List (Param Expr)) (name : Option Ident) (index : Nat) :
    Option (Param Expr) :=
  match name with
  | some ident => params.find? (·.name.name == ident.name)
  | none => (params[index]?).orElse fun _ => params.getLast?.filter (·.variadic)

namespace Analysis

variable (an : Analyst)

/-! ## Named functions -/

/-- Pair the arguments of a generic call with the names their parameters are written as; none when an
argument has no parameter. -/
def writtenArguments (params : List (Param Expr)) (written : List (Argument Expr))
    (arguments : List CallArgument) : Option (List WrittenArgument) :=
  let pairs : Option (List (Option WrittenArgument)) :=
    (written.zip arguments).zipIdx.mapM fun ((a, argument), index) =>
      (writtenParameter? params a.name index).map fun p =>
        argument.options.head?.map fun option => ⟨p.ty.simpleName?, option.ty⟩
  pairs.map (·.filterMap id)

/-- The instance of a generic function that a call infers; none when the arguments do not go with its
parameters at all. -/
def inferInstance? (template : ItemId) (written : List (Argument Expr))
    (arguments : List CallArgument) (position : Position) : Analysis (Option ItemId) := do
  let some (.fn decl _ _ _) ← template? template | return none
  match writtenArguments decl.params written arguments with
  | none => return none
  | some bound =>
    let generics := decl.generics.map (·.name)
    match inferGenerics generics bound with
    | .ok types => some <$> instantiateFunction an template types position
    | .error index => fail position (.cannotInfer decl.name.name ((generics[index]?).getD ""))

/-- Join the candidates that one function of a name gives. A template gives its instance. -/
def gatherCandidates (written : List (Argument Expr)) (arguments : List CallArgument)
    (position : Position) (candidates : List Candidate) (function : ItemId) :
    Analysis (List Candidate) := do
  if !(← look (·.isGeneric function)) then
    return ← look (addCandidate · candidates function)
  match ← inferInstance? an function written arguments position with
  | none => return candidates
  | some inst =>
    let table ← look id
    let variants := ((table.function? inst).map (·.variants)).getD []
    return (inst :: variants).foldl (addCandidate table) candidates

/-- The candidates of a call by name. A template that has no instance for the call is left out; when
nothing is left, the first reason is reported. -/
def callCandidates (functions : List ItemId) (written : List (Argument Expr))
    (arguments : List CallArgument) (position : Position) : Analysis (List Candidate) := do
  let step (state : List Candidate × Option Diagnostic) (function : ItemId) :
      Analysis (List Candidate × Option Diagnostic) :=
    tryCatch
      (do return (← gatherCandidates an written arguments position state.1 function, state.2))
      fun e => do
        giveUp e
        return (state.1, state.2.orElse fun _ => some e)
  match ← functions.foldlM step ([], none) with
  | ([], some e) => throw e
  | (candidates, _) => return candidates

/-- A call of a function by name. -/
def callNamed (frame : Frame) (callee : Expr) (written : List (Argument Expr)) (d : NameDetail)
    (arguments : List CallArgument) (scope : ScopeId) (position : Position) :
    Analysis CallDetail := do
  let candidates ← callCandidates an d.candidates written arguments position
  let resolution ← chooseCandidate callee.calleeName arguments candidates position
  let signature ← chosenSignature resolution candidates
  let item ← expect "resolved call without a function" resolution.item
  let f ← expect "resolved call without a function" (← look (·.function? item))
  narrow frame callee.node item f.ty
  settleArguments frame written resolution signature
  linkThrows item scope
  return {
    info := .ofResult signature.result
    kind := if f.flags.method then .method else .function
    callee := some item
    resolution := some resolution }

/-! ## Types and values -/

/-- A type applied to arguments: construction for classes, conversion of one value otherwise. -/
def callType (frame : Frame) (ty : Ty) (written : List (Argument Expr))
    (arguments : List CallArgument) (scope : ScopeId) (position : Position) :
    Analysis CallDetail := do
  if let some cls := ty.valueClass? then
    let (callee, resolution) ← chooseConstructor an frame cls arguments written scope position
    return { info := .rvalue (.cls cls), kind := .construct cls, callee, resolution }
  let source : Option Ty :=
    match arguments with
    | [single] => single.options.head?.map (·.ty)
    | _ => none
  match source with
  | none => throw (noMatchingCall (← look id) (← typeText ty) arguments [] position)
  | some src =>
    let bothNumbers := src.withoutOuterReferences.isArithmetic && ty.isArithmetic
    if !(bothNumbers || (← conversion src ty).isPossible) then
      fail position (.invalidCast (← typeText src) (← typeText ty))
    return { info := .rvalue ty, kind := .conversion }

/-- A value applied to arguments. -/
def callValue (frame : Frame) (callee : Expr) (ty : Ty) (written : List (Argument Expr))
    (arguments : List CallArgument) (scope : ScopeId) (position : Position) :
    Analysis CallDetail := do
  let value := ty.withoutOuterReferences
  if value.isWildcard then return { info := .rvalue .any, kind := .dynamic }
  if let some signature := value.signature? then
    let resolution ←
      chooseCandidate callee.calleeName arguments [⟨none, signature⟩] position
    settleArguments frame written resolution signature
    return { info := .ofResult signature.result, kind := .function,
             resolution := some resolution }
  if let some cls := value.valueClass? then
    if let some choice ← chooseOperator? an cls .call .left arguments scope position then
      settleArguments frame written choice.resolution choice.signature
      return { info := .ofResult choice.signature.result, kind := .callOperator,
               callee := some choice.function, resolution := some choice.resolution }
  failOther position (Cause.quoted (← typeText ty) ++ " is not callable")

/-! ## Parents -/

/-- `super(...)` in a constructor. -/
def callSuper (frame : Frame) (node marker : Node) (written : List (Argument Expr))
    (scope : ScopeId) : Analysis ExprInfo := do
  let table ← look id
  let function := (table.enclosingFunction? scope).filter fun f =>
    (table.function? f).any (·.flags.construct)
  let some constructor := function | misplaced "super(...)" "inside a constructor" node.position
  let cls ← methodClass scope "super(...)" node.position
  let parent ← firstParent cls "super(...)" node.position
  record frame marker (.superRef (.lvalue (.cls parent)))
  let arguments ← detailArguments an frame written scope
  let (callee, resolution) ← chooseConstructor an frame parent arguments written scope node.position
  modify fun s => { s with superCalled := insertNew s.superCalled constructor }
  let info := ExprInfo.rvalue .void
  record frame node (.call { info, kind := .superConstruct parent, callee, resolution })
  return info

/-! ## Calls -/

/-- The callee of a call. A plain name that means nothing is reported at the call. -/
def detailCallee (frame : Frame) (node : Node) (callee : Expr) (scope : ScopeId) :
    Analysis ExprInfo :=
  tryCatch (an.expr frame callee scope) fun e =>
    match e.cause, callee with
    | .noTarget name, .name .. => fail node.position (.noTarget name)
    | _, _ => throw e

/-- A call. -/
def detailCall (frame : Frame) (node : Node) (callee : Expr) (written : List (Argument Expr))
    (scope : ScopeId) : Analysis ExprInfo := do
  if let .superRef marker := callee then return ← callSuper an frame node marker written scope
  let info ← detailCallee an frame node callee scope
  let arguments ← detailArguments an frame written scope
  let named := (← detail? frame callee.node).bind (·.name?)
  let table ← look id
  let viaValue := callValue an frame callee info.ty written arguments scope node.position
  let d ←
    match named with
    | none => viaValue
    | some d =>
      match d.meaning with
      | .type ty => callType an frame ty written arguments scope node.position
      | _ =>
        if d.isOverloadSet table then
          callNamed an frame callee written d arguments scope node.position
        else viaValue
  record frame node (.call d)
  return d.info

end Analysis

end SemanticAnalysis
