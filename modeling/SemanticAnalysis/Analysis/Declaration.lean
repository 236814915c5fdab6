import SemanticAnalysis.Analysis.Naming
import SemanticAnalysis.Analysis.Use

/-!
# Variables, namespaces and aliases

Declarations that neither functions nor classes are.
-/

namespace SemanticAnalysis

/-- An initializer that is a literal other than `null`. -/
def Expr.isConstantLiteral : Expr → Bool
  | literal _ .null => false
  | literal .. => true
  | _ => false

namespace Analysis

variable (an : Analyst)

/-! ## Variables -/

/-- The written type of a variable. -/
def declaredType (frame : Frame) (decl : VariableDecl Expr) (written : TypeExpr)
    (scope : ScopeId) : Analysis Ty := do
  let ty ← an.type frame written scope
  return if decl.isConstant then ty.constify else ty

/-- Add the variable of a declaration to a scope. -/
def addVariable (frame : Frame) (decl : VariableDecl Expr) (ty : Ty) (scope : ScopeId) :
    Analysis ItemId := do
  let name := decl.name.name
  let owner ← look (·.enclosingFunction? scope)
  let item ← addItem
    { name, scope
      module := frame.module
      visibility := decl.visibility
      position := decl.node.position
      entity := .var { ty, isExport := decl.isExport, owner } }
  if decl.isExport then discard <| exportItem frame.module name item decl.node.position
  return item

/-- Declare a variable with a written type before the bodies, so that functions can refer to it. -/
def predeclareVariable (frame : Frame) (decl : VariableDecl Expr) (scope : ScopeId) :
    Analysis Unit := do
  match decl.ty with
  | none => return
  | some written =>
    let ty ← declaredType an frame decl written scope
    checkRedeclaration decl.name.name scope decl.node.position
    let v ← addVariable frame decl ty scope
    recordDeclared frame decl.node v

/-- The type of a variable with an initializer: the written type, which the value has to fit, else
the type of the value. -/
def initializedType (frame : Frame) (decl : VariableDecl Expr) (explicit : Option Ty)
    (initializer : Expr) (scope : ScopeId) : Analysis Ty := do
  let info ← an.expr frame initializer scope
  match explicit with
  | some ty =>
    checkAssignable frame initializer info.ty ty decl.node.position
    return ty
  | none =>
    let ty := info.ty.inferred
    if ty.isVoid then
      failOther decl.node.position
        ("cannot declare " ++ Cause.quoted decl.name.name ++ " from a void value")
    return if decl.isConstant then ty.constify else ty

/-- The type of a variable without an initializer, and the constructor that makes its value. -/
def uninitializedType (decl : VariableDecl Expr) (explicit : Option Ty) :
    Analysis (Ty × Option ItemId) := do
  let position := decl.node.position
  let name := Cause.quoted decl.name.name
  match explicit with
  | none => failOther position ("cannot infer the type of " ++ name ++ " without an initializer")
  | some ty =>
    if ty.isReference then failOther position ("reference " ++ name ++ " must be initialized")
    match ty.valueClass? with
    | none => return (ty, none)
    | some cls =>
      an.ask (.synthesis cls)
      match (← look (·.class? cls)).bind (·.defaultConstructor) with
      | some ctor => return (ty, some ctor)
      | none =>
        fail position <| .noDefaultConstructor (← itemName cls)
          ("variable " ++ name ++ " has no initializer")

/-- The type a variable is known to have before its initializer is looked at. -/
def explicitType (frame : Frame) (decl : VariableDecl Expr) (known : Option ItemId)
    (scope : ScopeId) : Analysis (Option Ty) := do
  match known, decl.ty with
  | some v, _ => return (← look (·.var? v)).map (·.ty)
  | none, some written => some <$> declaredType an frame decl written scope
  | none, none => return none

/-- A variable declaration. -/
def detailVariable (frame : Frame) (decl : VariableDecl Expr) (scope : ScopeId) :
    Analysis Unit := do
  let known ← declared? frame decl.node
  let explicit ← explicitType an frame decl known scope
  let (ty, ctor) ←
    match decl.initializer with
    | some e => (·, none) <$> initializedType an frame decl explicit e scope
    | none => uninitializedType an decl explicit
  let v ←
    match known with
    | some v => pure v
    | none =>
      checkRedeclaration decl.name.name scope decl.node.position
      addVariable frame decl ty scope
  if decl.isConstant && decl.initializer.any (·.isConstantLiteral) then
    change (·.modifyVariable v fun v => { v with isLiteral := true })
  record frame decl.node (.declare v ctor)
  applyAttributes an frame decl.attributes ⟨.var, v⟩ decl.node scope

/-- A variable that a statement declares by itself. -/
def addLocal (frame : Frame) (ident : Ident) (ty : Ty) (owner : Option ItemId) (scope : ScopeId) :
    Analysis ItemId :=
  addItem
    { name := ident.name
      scope
      module := frame.module
      visibility := .scopeOnly
      position := ident.position
      entity := .var { ty, owner } }

/-! ## Namespaces -/

/-- The scope of a namespace that was declared. -/
def spaceScope? (frame : Frame) (node : Node) : Analysis (Option ScopeId) := do
  let item ← declared? frame node
  look fun t => (item.bind t.item?).bind (·.ownScope?)

/-- Make a namespace. -/
def createSpace (frame : Frame) (node : Node) (name : String) (visibility : Visibility)
    (scope : ScopeId) : Analysis ItemId := do
  let own ← newScope scope
  let item ← addItem
    { name, scope, visibility
      module := frame.module
      position := node.position
      entity := .space own }
  setOwner own (.space item)
  return item

/-- Declare a namespace, or open one of the same name again; gives its scope. -/
def declareSpace (frame : Frame) (node : Node) (name : String) (visibility : Visibility)
    (scope : ScopeId) : Analysis ScopeId := do
  let table ← look id
  let item ←
    match table.findLocal name scope [] none with
    | [] => createSpace frame node name visibility scope
    | first :: _ =>
      if table.kind? first == some .space then pure first
      else fail node.position (.duplicateDefinition name)
  recordDeclared frame node item
  record frame node (.space item)
  expect "namespace without a scope" (← spaceScope? frame node)

/-! ## Aliases -/

/-- Bind another name to the item of a path. -/
def bindAliasDecl (frame : Frame) (node : Node) (decl : AliasDecl) (scope : ScopeId) :
    Analysis Unit := do
  let target ← resolvePath decl.path scope [] node.position
  match decl.localName? with
  | none => failOther node.position "empty using path"
  | some name =>
    checkRedeclaration name scope node.position
    let item ← addItem
      { name, scope
        module := frame.module
        visibility := .scopeOnly
        position := node.position
        entity := .aliasOf target }
    recordDeclared frame node item
    record frame node (.aliasing item)

end Analysis

end SemanticAnalysis
