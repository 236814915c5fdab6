import SemanticAnalysis.Analysis.Naming

/-!
# Function signatures

Declaring a function makes its item and scope, resolves its parameters and result, files it with its
class, and makes one variant for each number of trailing parameters that a call may omit.
-/

namespace SemanticAnalysis

/-- The name a function is declared under. -/
def FunctionDecl.itemName {ε σ : Type} (f : FunctionDecl ε σ) : String :=
  f.role.fixedName?.getD f.name.name

/-- The flags a function is declared with. -/
def FunctionDecl.flags {ε σ : Type} (f : FunctionDecl ε σ) (inClass : Bool) : FunctionFlags where
  method := inClass
  accessor := f.role matches .accessor _
  construct := f.role matches .construct
  destruct := f.role matches .destruct
  cast := f.role matches .cast _
  operator := f.role matches .operator ..
  async := f.keywords.async
  generator := f.keywords.generator
  dispatched := f.keywords.dispatched
  external := f.keywords.external || f.body.isNone

/-- A parameter list that takes just one value of a class. -/
def takesCopyOf (cls : ItemId) (params : List (Parameter Ty)) : Bool :=
  match params with
  | [only] => only.ty.withoutOuterReferences.deconstify == Ty.cls cls
  | _ => false

namespace Analysis

variable (an : Analyst)

/-- Make the item and the scope of a function, without a signature. -/
def createFunction (frame : Frame) (decl : FunctionDef) (scope : ScopeId) (name : String)
    (cls : Option ItemId) (generics : Nat) : Analysis ItemId := do
  let own ← newScope scope
  let function : Function :=
    { scope := own
      returnType := .void
      flags := decl.flags cls.isSome
      accessor :=
        match decl.role with
        | .accessor kind => some kind
        | _ => none
      operator :=
        match decl.role with
        | .operator op _ => some op
        | _ => none
      side :=
        match decl.role with
        | .operator _ side => side
        | _ => .left
      classType := cls.map Ty.cls }
  let item ← addItem
    { name, scope, generics
      module := frame.module
      visibility := decl.visibility
      position := decl.node.position
      entity := .fn function }
  setOwner own (.fn item)
  return item

/-- Resolve one parameter and declare its variable. A trailing variadic parameter is a pointer inside
the body. -/
def bindParameter (frame : Frame) (written : List (Param Expr)) (function : ItemId)
    (own : ScopeId) (p : Param Expr) (index : Nat) : Analysis (Parameter Ty × ItemId) := do
  let name := p.name.name
  if (written.take index).any (·.name.name == name) then
    fail p.node.position (.duplicateDefinition name)
  let ty ← an.type frame p.ty own
  let variadic := p.variadic && index + 1 == written.length
  let item ← addItem
    { name
      scope := own
      module := frame.module
      position := p.node.position
      entity := .var (.parameter (if variadic then ty.point else ty) function) }
  recordDeclared frame p.node item
  return ({ name, ty, variadic, id := index }, item)

/-- Resolve written parameters from left to right. -/
def bindParameters (frame : Frame) (written : List (Param Expr)) (function : ItemId)
    (own : ScopeId) : Analysis (List (Parameter Ty) × List ItemId) := do
  let bound ← written.zipIdx.mapM fun (p, index) =>
    bindParameter an frame written function own p index
  return bound.unzip

/-- The result type of a function, which its role may fix. -/
def resultType (frame : Frame) (decl : FunctionDef) (own : ScopeId) (cls : Option ItemId) :
    Analysis Ty :=
  match decl.role, cls with
  | .construct, _ | .destruct, _ => return .void
  | .cast .inward, some c => return .cls c
  | _, _ =>
    match decl.returnType with
    | some t => an.type frame t own
    | none => return .void

/-- What a generator receives; other functions receive nothing. -/
def generatorParameter (frame : Frame) (decl : FunctionDef) (own : ScopeId) :
    Analysis (Option Ty) :=
  match decl.generatorParameter, decl.keywords.generator with
  | some t, true => some <$> an.type frame t own
  | none, true => return some .void
  | _, false => return none

/-- Resolve the signature of a function and declare its parameters. The function has to be there before and
after its types are resolved. -/
def resolveSignature (frame : Frame) (decl : FunctionDef) (item : ItemId) (cls : Option ItemId) :
    Analysis Unit := do
  let f ← expect "signature of a non-function" (← look (·.function? item))
  let (params, paramVariables) ← bindParameters an frame decl.params item f.scope
  let returnType ← resultType an frame decl f.scope cls
  let sent ← generatorParameter an frame decl f.scope
  let _ ← expect "signature of a non-function" (← look (·.function? item))
  change (·.modifyFunction item fun f =>
    { f with
      params, paramVariables, returnType
      generatorReturn := if f.flags.generator then some returnType else f.generatorReturn
      generatorParameter := if f.flags.generator then sent else f.generatorParameter
      coroutineReturn := if f.flags.async then some returnType else f.coroutineReturn })

/-- Two functions of a scope may not have the same parameters. -/
def isDuplicateOf (table : SymbolTable) (function : Function) (other : ItemId) : Bool :=
  match table.item? other with
  | none => false
  | some i =>
    match i.entity with
    | .fn existing =>
      existing.variantOf.isNone && !i.isGeneric && existing.params == function.params
    | _ => true

/-- Overloads of a scope differ in their parameters. -/
def checkDuplicateFunction (item : ItemId) (position : Position) : Analysis Unit := do
  let table ← look id
  match table.item? item, table.function? item with
  | some entry, some function =>
    let others := (table.findLocal entry.name entry.scope [] none).filter (· != item)
    if others.any (isDuplicateOf table function) then
      fail position (.duplicateDefinition entry.name)
  | _, _ => return

/-- File a member function with its class. -/
def registerMember (cls item : ItemId) (decl : FunctionDef) : Analysis Unit := do
  let params := (← look (·.function? item)).elim [] (·.params)
  let entity ← expect "member of a non-class" (← look (·.class? cls))
  match decl.role with
  | .construct =>
    if params.isEmpty && entity.defaultConstructor.isNone then
      change (·.modifyClass cls fun c =>
        { c with constructors := c.constructors ++ [item], defaultConstructor := some item })
    else if takesCopyOf cls params && entity.copyConstructor.isNone then
      change (·.modifyClass cls fun c =>
        { c with constructors := c.constructors ++ [item], copyConstructor := some item })
      change (·.modifyFunction item fun f => { f with flags.copyConstruct := true })
    else
      change (·.modifyClass cls fun c => { c with constructors := c.constructors ++ [item] })
  | .destruct =>
    if entity.destructor.isSome then
      fail decl.node.position (.duplicateDefinition "destructor")
    change (·.modifyClass cls fun c => { c with destructor := some item })
  | .cast .inward =>
    change (·.modifyClass cls fun c => { c with fromCasts := c.fromCasts ++ [item] })
  | .cast .outward => change (·.modifyClass cls fun c => { c with toCasts := c.toCasts ++ [item] })
  | .operator .. =>
    change (·.modifyClass cls fun c => { c with operators := c.operators ++ [item] })
  | .plain | .accessor _ =>
    change (·.modifyClass cls fun c => { c with methods := c.methods ++ [item] })

/-- The defaults that stand in for the parameters behind the first `kept`. -/
def suppliedDefaults (decl : FunctionDef) (kept : Nat) : List (Nat × NodeId) :=
  (decl.params.zipIdx.drop kept).filterMap fun (p, index) =>
    p.defaultValue.map fun e => (index, e.node.id)

/-- Make the variant of a function that takes only the first `kept` parameters. -/
def declareVariant (decl : FunctionDef) (canonical : ItemId) (entry : Item) (source : Function)
    (cls : Option ItemId) (kept : Nat) : Analysis Unit := do
  let own ← newScope entry.scope
  let function : Function :=
    { scope := own
      returnType := source.returnType
      params := source.params.take kept
      flags := { source.flags with synthesized := true, copyConstruct := false }
      accessor := source.accessor
      operator := source.operator
      side := source.side
      generatorParameter := source.generatorParameter
      generatorReturn := source.generatorReturn
      coroutineReturn := source.coroutineReturn
      classType := source.classType
      variantOf := some canonical
      suppliedDefaults := suppliedDefaults decl kept }
  let item ← addItem
    { name := entry.name
      scope := entry.scope
      module := entry.module
      visibility := entry.visibility
      position := entry.position
      entity := .fn function }
  setOwner own (.fn item)
  change (·.modifyFunction canonical fun f => { f with variants := f.variants ++ [item] })
  change (·.modifyItem canonical fun i => { i with publicHoisted := i.publicHoisted ++ [item] })
  change (·.modifyModule entry.module fun m => { m with hoisted := m.hoisted ++ [item] })
  if let some c := cls then registerMember c item decl

/-- Make one variant for each number of trailing parameters that may be omitted. -/
def declareVariants (decl : FunctionDef) (canonical : ItemId) (cls : Option ItemId) :
    Analysis Unit := do
  match ← look (·.item? canonical), ← look (·.function? canonical) with
  | some entry, some source =>
    (List.range decl.optionalCount).forM fun omitted =>
      declareVariant decl canonical entry source cls (source.params.length - (omitted + 1))
  | _, _ => return

/-- Keep a generic function as a template. -/
def declareFunctionTemplate (frame : Frame) (decl : FunctionDef) (scope : ScopeId)
    (cls : Option ItemId) : Analysis ItemId := do
  let item ← createFunction frame decl scope decl.itemName cls decl.generics.length
  modify fun s =>
    { s with templates := (item, .fn decl scope frame.module cls) :: s.templates }
  recordDeclared frame decl.node item
  record frame decl.node (.function { function := item, isTemplate := true })
  return item

/-- Declare a function, once per frame. -/
def declareFunction (frame : Frame) (decl : FunctionDef) (scope : ScopeId) (cls : Option ItemId) :
    Analysis ItemId := do
  if let some item ← declared? frame decl.node then return item
  if decl.isGeneric then return ← declareFunctionTemplate frame decl scope cls
  let item ← createFunction frame decl scope decl.itemName cls 0
  resolveSignature an frame decl item cls
  checkDuplicateFunction item decl.node.position
  if let some c := cls then registerMember c item decl
  declareVariants decl item cls
  if decl.keywords.exported then
    discard <| exportItem frame.module decl.itemName item decl.node.position
  recordDeclared frame decl.node item
  return item

end Analysis

end SemanticAnalysis
