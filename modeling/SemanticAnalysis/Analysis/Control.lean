import SemanticAnalysis.Analysis.Body
import SemanticAnalysis.Analysis.Declaration
import SemanticAnalysis.Analysis.Linkage
import SemanticAnalysis.Analysis.Reference

/-!
# Statements

Branches and loop bodies have scopes of their own. A `return` fits the result of its function, and a
`try` knows what its clauses catch before its body is looked at.
-/

namespace SemanticAnalysis.Analysis

variable (an : Analyst)

/-! ## Branches and loops -/

/-- A branch or loop body in a scope of its own, which is given back. -/
def detailBranch (frame : Frame) (body : Stmt) (scope : ScopeId) : Analysis ScopeId := do
  let inner ← newScope scope
  match body with
  | .block b => detailBlock an frame b inner
  | _ => an.stmt frame body inner
  return inner

/-- A conditional statement. -/
def detailIf (frame : Frame) (node : Node) (condition : Expr) (yes : Stmt) (no : Option Stmt)
    (scope : ScopeId) : Analysis Unit := do
  discard <| an.expr frame condition scope
  let yesScope ← detailBranch an frame yes scope
  let noScope ← no.mapM fun body => detailBranch an frame body scope
  record frame node (.ifElse yesScope noScope)

/-- A loop with a condition before or behind its body. -/
def detailLoop (frame : Frame) (node : Node) (condition : Expr) (body : Stmt) (tail : Bool)
    (scope : ScopeId) : Analysis Unit := do
  if !tail then discard <| an.expr frame condition scope
  let bodyScope ← detailBranch an frame body scope
  if tail then discard <| an.expr frame condition scope
  record frame node (.loop bodyScope)

/-- A counting loop. -/
def detailFor (frame : Frame) (node : Node) (init : Option Stmt) (condition update : Option Expr)
    (body : Stmt) (scope : ScopeId) : Analysis Unit := do
  let own ← newScope scope
  init.toList.forM fun s => an.stmt frame s own
  condition.toList.forM fun e => discard <| an.expr frame e own
  update.toList.forM fun e => discard <| an.expr frame e own
  discard <| detailBranch an frame body own
  record frame node (.loop own)

/-- The function that walks over a class value: `next` without parameters, with an optional result.
Given with the type inside that optional. -/
def findIterator? (table : SymbolTable) (cls : ItemId) (scope : ScopeId) : Option (ItemId × Ty) :=
  (table.findInClass cls "next" [] (some scope)).findSome? fun c =>
    (table.function? c).bind fun f =>
      if f.params.isEmpty then f.returnType.withoutOuterReferences.inner?.map (c, ·) else none

/-- The type of a loop variable: the written one, which the elements have to fit, else theirs. -/
def elementType (frame : Frame) (name : Ident) (ty : Option TypeExpr) (element : Ty)
    (scope : ScopeId) : Analysis Ty := do
  match ty with
  | none => return element
  | some written =>
    let declared ← an.type frame written scope
    if !(← conversion element declared).isPossible then
      fail name.position (.typeMismatch (← typeText declared) (← typeText element))
    return declared

/-- A loop over the elements of a class value. -/
def detailForEach (frame : Frame) (node : Node) (name : Ident) (ty : Option TypeExpr)
    (iterable : Expr) (body : Stmt) (scope : ScopeId) : Analysis Unit := do
  let info ← an.expr frame iterable scope
  let missing {α : Type} : Analysis α := do
    fail node.position (.missingIterator (← typeText info.ty))
  let some cls := (memberHolder info.ty).valueClass? | missing
  an.ask (.signatures cls)
  let some (next, element) ← look (findIterator? · cls scope) | missing
  let own ← newScope scope
  let declared ← elementType an frame name ty element scope
  let owner ← look (·.enclosingFunction? scope)
  let v ← addLocal frame name declared owner own
  linkThrows next scope
  discard <| detailBranch an frame body own
  record frame node (.forEach own v next element)

/-! ## Results and errors -/

/-- A returned value has to fit the result of its function. -/
def checkReturn (frame : Frame) (value : Option (Expr × Ty)) (expected : Ty)
    (position : Position) : Analysis Unit := do
  match value, expected.isVoid with
  | some (e, ty), false => checkAssignable frame e ty expected position
  | some (_, ty), true =>
    if !ty.isVoid then fail position (.typeMismatch "void" (← typeText ty))
  | none, false => fail position (.typeMismatch (← typeText expected) "void")
  | none, true => return

/-- A `return`. The first one in a lambda without a written result type decides that type. -/
def detailReturn (frame : Frame) (node : Node) (value : Option Expr) (scope : ScopeId) :
    Analysis Unit := do
  let some function ← look (·.enclosingFunction? scope)
    | misplaced "return" "inside a function" node.position
  let returned ← value.mapM fun e => do return (e, (← an.expr frame e scope).ty)
  if (← get).inferringReturns.contains function then
    stopInferring function
    let returnType := (returned.map (·.2.inferred)).getD .void
    change (·.modifyFunction function fun f => { f with returnType })
  let f ← expect "return owner is not a function" (← look (·.function? function))
  let expected := if f.flags.generator then .void else f.returnType
  checkReturn frame returned expected node.position
  record frame node (.ret function expected)

/-- A `throw`. -/
def detailRaise (frame : Frame) (node : Node) (value : Expr) (scope : ScopeId) :
    Analysis Unit := do
  let ty := (← an.expr frame value scope).ty.inferred
  raise scope ty
  record frame node (.raise ty)

/-- One clause of a `try`, whose type is known. -/
def detailCatch (frame : Frame) (owner : Option ItemId) (scope : ScopeId)
    (clause : CatchClause Stmt) (ty : Option Ty) : Analysis CatchDetail := do
  let own ← newScope scope
  let var ← clause.name.mapM fun ident => addLocal frame ident (ty.getD .any) owner own
  detailBlock an frame clause.body own
  return { scope := own, var, ty }

/-- A `try`. What no clause catches goes on to the scope around it. -/
def detailTry (frame : Frame) (node : Node) (body : Block Stmt)
    (catches : List (CatchClause Stmt)) (scope : ScopeId) : Analysis Unit := do
  let own ← newScope scope
  change (·.modifyScope own fun s => { s with isTry := true })
  let types ← catches.mapM fun c => c.ty.mapM fun t => an.type frame t scope
  modify fun s => { s with flow.tryBodies := (own, types) :: s.flow.tryBodies }
  detailBlock an frame body own
  let owner ← look (·.enclosingFunction? scope)
  let details ← (catches.zip types).mapM fun (clause, ty) =>
    detailCatch an frame owner scope clause ty
  let table ← look id
  let errors := (table.scope? own).elim [] (·.possibleErrors)
  let uncaught := errors.filter fun e => !ErrorFlow.handles table types e
  uncaught.forM (raise scope)
  record frame node (.tryCatch own details uncaught)

/-- A `delete`. -/
def detailDelete (frame : Frame) (node : Node) (value : Expr) (persistent : Bool)
    (scope : ScopeId) : Analysis Unit := do
  let info ← an.expr frame value scope
  let held := info.ty.withoutOuterReferences
  let destroyed :=
    if persistent then held.follow?.map (·.withoutOuterReferences) else some held
  let destructor ←
    match destroyed.bind (·.valueClass?) with
    | none => pure none
    | some cls =>
      an.ask (.synthesis cls)
      look fun t => (t.class? cls).bind (·.destructor)
  record frame node (.delete info.ty destructor)

/-! ## All statements -/

/-- An alias inside a body, unless it was bound before. -/
def detailAlias (frame : Frame) (node : Node) (decl : AliasDecl) (scope : ScopeId) :
    Analysis Unit := do
  if (← declared? frame node).isNone then bindAliasDecl frame node decl scope

/-- A statement. -/
def detailStmt (frame : Frame) (stmt : Stmt) (scope : ScopeId) : Analysis Unit := do
  match stmt with
  | .expr node e =>
    discard <| an.expr frame e scope
    record frame node (.statement scope)
  | .declare decl => detailVariable an frame decl scope
  | .block b => detailBlock an frame b (← newScope scope)
  | .ret node value => detailReturn an frame node value scope
  | .ifElse node condition yes no => detailIf an frame node condition yes no scope
  | .loop node condition body tail => detailLoop an frame node condition body tail scope
  | .forLoop node init condition update body =>
    detailFor an frame node init condition update body scope
  | .forEach node name ty iterable body => detailForEach an frame node name ty iterable body scope
  | .leave node | .next node => record frame node (.statement scope)
  | .raise node value => detailRaise an frame node value scope
  | .tryCatch node body catches => detailTry an frame node body catches scope
  | .delete node value persistent => detailDelete an frame node value persistent scope
  | .function decl => detailLocalFunction an frame decl scope
  | .cls decl => detailLocalClass an frame decl scope
  | .space node .. => misplaced "namespace" "at module or namespace level" node.position
  | .importing node _ => misplaced "import" "at module level" node.position
  | .exporting node decl => detailExport an frame node decl scope
  | .aliasing node decl => detailAlias frame node decl scope

end SemanticAnalysis.Analysis
