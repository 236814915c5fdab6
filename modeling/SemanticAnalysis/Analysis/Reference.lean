import SemanticAnalysis.Analysis.Effect
import SemanticAnalysis.Analysis.WrittenType

/-!
# References to items

Names, member accesses and the object of a method. A name may stand for a value, a set of overloads,
a property, a type or a namespace; the meaning is recorded with it.
-/

namespace SemanticAnalysis

/-- A name that stands for a type. -/
def NameDetail.ofType (ty : Ty) (item : Option ItemId) : NameDetail :=
  { info := .rvalue ty, candidates := item.toList, target := item, meaning := .type ty }

/-- The accessor that a kind of access needs and a property lacks. -/
def missingAccessor? (access : Access) (getter setter : Option ItemId) : Option String :=
  match access with
  | .read => if getter.isNone then some "getter" else none
  | .write => if setter.isNone then some "setter" else none
  | .readWrite =>
    if getter.isNone then some "getter" else if setter.isNone then some "setter" else none

namespace Analysis

variable (an : Analyst)

/-! ## Functions by name -/

/-- The type of a property: what its getter gives, else what its setter takes. -/
def propertyType (table : SymbolTable) (getter setter : Option ItemId) : Ty :=
  let ty : Option Ty :=
    match getter, setter with
    | some get, _ => (table.function? get).map (·.returnType)
    | none, some set => ((table.function? set).bind (·.params.head?)).map (·.ty)
    | none, none => none
  ty.getD .any

/-- A property, when the functions of a name are accessors. -/
def propertyDetail (functions : List ItemId) (getter setter : Option ItemId) (isMethod : Bool)
    (access : Access) (name : String) (position : Position) : Analysis NameDetail := do
  if let some missing := missingAccessor? access getter setter then
    failOther position ("property " ++ Cause.quoted name ++ " has no " ++ missing)
  let ty ← look (propertyType · getter setter)
  return {
    info := { ty := ty.withoutOuterReferences, isLvalue := setter.isSome }
    candidates := functions
    target := getter.orElse fun _ => setter
    meaning := .property getter setter
    throughThis := isMethod }

/-- The type of a function as a value. -/
def functionType (table : SymbolTable) (f : ItemId) : Ty :=
  ((table.function? f).map (·.ty)).getD .any

/-- An instance of a generic function, named with its types. -/
def instanceDetail (frame : Frame) (functions : List ItemId) (typeArgs : List TypeExpr)
    (scope : ScopeId) (isMethod : Bool) (name : String) (position : Position) :
    Analysis NameDetail := do
  let table ← look id
  let generics (f : ItemId) := (table.item? f).elim 0 (·.generics)
  match functions.find? fun f => generics f == typeArgs.length with
  | none =>
    fail position (.genericArity name ((functions.head?.map generics).getD 0) typeArgs.length)
  | some template =>
    let arguments ← resolveTypes an frame typeArgs scope
    let inst ← instantiateFunction an template arguments position
    let table ← look id
    return {
      info := .rvalue (functionType table inst)
      candidates := inst :: ((table.function? inst).map (·.variants)).getD []
      target := some inst
      throughThis := isMethod }

/-- A name that functions have. A single one that is no template is the target at once. -/
def functionDetail (frame : Frame) (found : List ItemId) (typeArgs : List TypeExpr)
    (scope : ScopeId) (access : Access) (name : String) (position : Position) :
    Analysis NameDetail := do
  let table ← look id
  let functions := found.filter fun f => (table.function? f).isSome
  let isMethod := functions.any fun f => (table.function? f).any (·.flags.method)
  let accessor (kind : AccessorKind) :=
    functions.find? fun f => (table.function? f).any (·.accessor == some kind)
  let getter := accessor .get
  let setter := accessor .set
  if getter.isSome || setter.isSome then
    propertyDetail functions getter setter isMethod access name position
  else if !typeArgs.isEmpty then
    instanceDetail an frame functions typeArgs scope isMethod name position
  else
    let target :=
      match functions with
      | [only] => if table.isGeneric only then none else some only
      | _ => none
    return {
      info := .rvalue ((target.map (functionType table)).getD .any)
      candidates := functions
      target
      throughThis := isMethod }

/-! ## Names -/

/-- What a name stands for that a lookup found something for. -/
def nameDetail (frame : Frame) (first : ItemId) (found : List ItemId) (typeArgs : List TypeExpr)
    (scope : ScopeId) (access : Access) (name : String) (position : Position) :
    Analysis NameDetail := do
  let entry ← expect "item missing" (← look (·.item? first))
  match entry.entity with
  | .var v =>
    noteCapture first scope
    return { info := .lvalue v.ty, candidates := found, target := some first,
             throughThis := v.isMember }
  | .fn _ => functionDetail an frame found typeArgs scope access name position
  | .cls _ =>
    let cls ← resolveClass an frame first name typeArgs scope position
    return .ofType (.cls cls) (some cls)
  | .bound ty => return .ofType ty (some first)
  | .space _ =>
    return { info := .rvalue .any, candidates := [first], target := some first,
             meaning := .space first }
  | .aliasOf _ => throw (.internal "lookup returned an unresolved alias")

/-- A plain name. The keyword of a native type is a name when nothing else has it. -/
def detailName (frame : Frame) (node : Node) (ident : Ident) (typeArgs : List TypeExpr)
    (scope : ScopeId) (access : Access) : Analysis ExprInfo := do
  let name := ident.name
  let d ←
    match ← look (·.findAll name scope [] (some scope)) with
    | [] =>
      match Native.ofKeyword? name, typeArgs.isEmpty with
      | some n, true => pure (NameDetail.ofType (.native n) none)
      | _, _ => missingName name scope [] node.position
    | first :: rest =>
      nameDetail an frame first (first :: rest) typeArgs scope access name node.position
  record frame node (.name d)
  return d.info

/-- What a name expression was found to stand for. -/
def meaningOf? (frame : Frame) (e : Expr) : Analysis (Option NameMeaning) := do
  return ((← detail? frame e.node).bind (·.name?)).map (·.meaning)

/-- The value behind the references and one pointer of an object. -/
def memberHolder (ty : Ty) : Ty :=
  let value := ty.withoutOuterReferences
  match value.follow? with
  | some pointee => pointee.withoutOuterReferences
  | none => value

/-- The members of a class value under a name, seen from a scope. -/
def findMembers (cls : ItemId) (name : String) (scope : ScopeId) (position : Position) :
    Analysis (List ItemId) := do
  an.ask (.signatures cls)
  let table ← look id
  let found := table.findInClass cls name [] (some scope)
  if found.isEmpty && !(table.findInClass cls name [] none).isEmpty then
    fail position (.notVisible name)
  return found

/-- A member that a lookup found. Fields of a `const` object are `const`. -/
def foundMember (frame : Frame) (node : Node) (found : List ItemId) (typeArgs : List TypeExpr)
    (scope : ScopeId) (access : Access) (name : String) (constantObject : Bool) :
    Analysis ExprInfo := do
  match found with
  | [] => fail node.position (.noTarget name)
  | first :: _ =>
    let d ← nameDetail an frame first found typeArgs scope access name node.position
    let isVariable ← look fun t => d.target.any fun i => (t.var? i).isSome
    let ty := if constantObject && d.meaning.isValue && isVariable then d.info.ty.constify
      else d.info.ty
    let d := { d with throughThis := false, info := { d.info with ty } }
    record frame node (.member d)
    return d.info

/-- A member access. The object is a value, a class or a namespace. -/
def detailMember (frame : Frame) (node : Node) (object : Expr) (member : Ident)
    (typeArgs : List TypeExpr) (scope : ScopeId) (access : Access) : Analysis ExprInfo := do
  let info ← an.expr frame object scope
  let name := member.name
  let finish (found : List ItemId) (constantObject : Bool) :=
    foundMember an frame node found typeArgs scope access name constantObject
  match ← meaningOf? frame object with
  | some (.space item) =>
    let own ← look fun t => (t.item? item).bind (·.ownScope?)
    let found ← look fun t => own.elim [] fun s => t.findLocal name s [] (some scope)
    finish found false
  | some (.type ty) =>
    match ty.valueClass? with
    | some cls =>
      an.ask (.signatures cls)
      finish (← look (·.findInClass cls name [] (some scope))) false
    | none => finish [] false
  | _ =>
    let holder := memberHolder info.ty
    if holder.isWildcard then
      let info := ExprInfo.lvalue .any
      record frame node (.member { info })
      return info
    match holder.valueClass? with
    | none => failOther node.position (Cause.quoted (← typeText info.ty) ++ " has no members")
    | some cls => finish (← findMembers an cls name scope node.position) holder.isConstant

/-! ## The object of a method -/

/-- The class whose method encloses a scope. -/
def methodClass (scope : ScopeId) (construct : String) (position : Position) : Analysis ItemId := do
  let table ← look id
  let inMethod := ((table.enclosingFunction? scope).bind table.function?).any fun f =>
    f.flags.method || f.flags.lambda
  match table.enclosingClass? scope, inMethod with
  | some c, true => return c
  | _, _ => misplaced construct "inside a class method" position

/-- The first parent of a class. -/
def firstParent (cls : ItemId) (construct : String) (position : Position) : Analysis ItemId := do
  match (← look (·.class? cls)).bind (·.parents.head?) with
  | some parent => return parent
  | none => misplaced construct "in a class with a parent" position

/-- `this` as a value. -/
def detailThis (frame : Frame) (node : Node) (scope : ScopeId) : Analysis ExprInfo := do
  let cls ← methodClass scope "this" node.position
  let info := ExprInfo.lvalue (.cls cls)
  record frame node (.thisRef info)
  return info

/-- `super` as a value: the object seen as its first parent. -/
def detailSuper (frame : Frame) (node : Node) (scope : ScopeId) : Analysis ExprInfo := do
  let cls ← methodClass scope "super" node.position
  let parent ← firstParent cls "super" node.position
  let info := ExprInfo.lvalue (.cls parent)
  record frame node (.superRef info)
  return info

end Analysis

end SemanticAnalysis
