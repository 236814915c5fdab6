import SemanticAnalysis.Analysis.Effect
import SemanticAnalysis.Analysis.Signature

/-!
# Lambdas

A lambda is a private function declared where it is written. Without a written result type, its first
`return` gives it one.
-/

namespace SemanticAnalysis.Analysis

variable (an : Analyst)

/-- Analyse the statements of a block in a scope. -/
def detailBlock (frame : Frame) (b : Block Stmt) (scope : ScopeId) : Analysis Unit := do
  an.stmts frame b.statements scope
  record frame b.node (.block scope)

/-- Declare the function of a lambda. -/
def declareLambda (frame : Frame) (node : Node) (params : List (Param Expr))
    (returnType : Option TypeExpr) (scope : ScopeId) : Analysis (ItemId × ScopeId) := do
  modify fun s => { s with lambdaCount := s.lambdaCount + 1 }
  let name := "lambda#" ++ toString (← get).lambdaCount
  let result ←
    match returnType with
    | some t => an.type frame t scope
    | none => pure .void
  let own ← newScope scope
  let item ← addItem
    { name, scope
      module := frame.module
      visibility := .scopeOnly
      position := node.position
      entity := .fn { scope := own, returnType := result, flags := { lambda := true } } }
  setOwner own (.fn item)
  let (params, paramVariables) ← bindParameters an frame params item own
  change (·.modifyFunction item fun f => { f with params, paramVariables })
  return (item, own)

/-- No `return` decides the result of a function any more. -/
def stopInferring (item : ItemId) : Analysis Unit :=
  modify fun s => { s with inferringReturns := s.inferringReturns.filter (· != item) }

/-- A lambda. -/
def detailLambda (frame : Frame) (node : Node) (params : List (Param Expr))
    (returnType : Option TypeExpr) (body : Block Stmt) (scope : ScopeId) : Analysis ExprInfo := do
  let (item, own) ← declareLambda an frame node params returnType scope
  if returnType.isNone then
    modify fun s => { s with inferringReturns := item :: s.inferringReturns }
  andFinally (detailBlock an frame body own) (stopInferring item)
  finishFunction item
  sealWhenDone item scope
  let info := ExprInfo.rvalue (← look fun t => ((t.function? item).map (·.ty)).getD .any)
  record frame node (.lambda info item)
  return info

end SemanticAnalysis.Analysis
