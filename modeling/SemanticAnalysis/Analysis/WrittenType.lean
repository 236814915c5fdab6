import SemanticAnalysis.Analysis.Instance

/-!
# Written types

The type that a written type stands for in a scope. Names of generic classes bring their instances
into being, and the written layers go around the result.
-/

namespace SemanticAnalysis.Analysis

variable (an : Analyst)

/-- Types written in a row. -/
def resolveTypes (frame : Frame) (ts : List TypeExpr) (scope : ScopeId) : Analysis (List Ty) :=
  ts.mapM fun t => an.type frame t scope

/-- The instance of a class for written arguments; a class without parameters is its own. -/
def resolveClass (frame : Frame) (cls : ItemId) (name : String) (typeArgs : List TypeExpr)
    (scope : ScopeId) (position : Position) : Analysis ItemId := do
  let expected := (← look (·.item? cls)).elim 0 (·.generics)
  if expected != typeArgs.length then
    fail position (.genericArity name expected typeArgs.length)
  if expected == 0 then return cls
  instantiateClass an cls (← resolveTypes an frame typeArgs scope) position

/-- The type that a path means, with written arguments. -/
def resolveNamedType (frame : Frame) (path : List Ident) (typeArgs : List TypeExpr)
    (scope : ScopeId) (position : Position) : Analysis Ty := do
  if let ([single], true) := (path, typeArgs.isEmpty) then
    if let some n := Native.ofKeyword? single.name then return .native n
  let item ← resolvePath path scope EntityKind.values position
  let entry ← expect "item missing" (← look (·.item? item))
  match entry.entity with
  | .cls _ => return .cls (← resolveClass an frame item (pathText path) typeArgs scope position)
  | .bound ty =>
    if !typeArgs.isEmpty then fail position (.genericArity (pathText path) 0 typeArgs.length)
    return ty
  | other =>
    failOther position
      (Cause.quoted (pathText path) ++ " is a " ++ other.kind.describe ++ ", not a type")

/-- One parameter of a written function type; one without a name is called by its index. -/
def resolveTypeParam (frame : Frame) (scope : ScopeId) (p : TypeParam TypeExpr) (index : Nat) :
    Analysis (Parameter Ty) := do
  let ty ← an.type frame p.ty scope
  return { name := p.name.elim ("arg" ++ toString index) (·.name), ty,
           variadic := p.variadic, id := index }

/-- The type that a form stands for, without the layers around it. -/
def resolveForm (frame : Frame) (t : TypeExpr) (scope : ScopeId) : Analysis Ty := do
  match t.form with
  | .native n => return .native n
  | .any => return .any
  | .self =>
    match ← look (·.enclosingClass? scope) with
    | some c => return .cls c
    | none => misplaced "Self" "inside a class" t.position
  | .optional inner => return .optional (← an.type frame inner scope)
  | .union members => return .union (← resolveTypes an frame members scope)
  | .function params result =>
    let params ← params.zipIdx.mapM fun (p, index) => resolveTypeParam an frame scope p index
    return .function ⟨params, ← an.type frame result scope⟩
  | .named path typeArgs => resolveNamedType an frame path typeArgs scope t.position

/-- The type that a written type stands for. -/
def resolveType (frame : Frame) (t : TypeExpr) (scope : ScopeId) : Analysis Ty := do
  return (← resolveForm an frame t scope).qualified t.layers

end SemanticAnalysis.Analysis
