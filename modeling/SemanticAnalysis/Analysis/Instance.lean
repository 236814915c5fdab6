import SemanticAnalysis.Analysis.Signature

/-!
# Generic instances

An instance is analysed from the tree of its template in a frame of its own, with every generic
parameter bound as a type in the scope of the instance. It is remembered before its members are
looked at, so that a class can refer to itself.
-/

namespace SemanticAnalysis.Analysis

variable (an : Analyst)

/-- Make the item, the scope and the object variable of a class. -/
def createClass (frame : Frame) (decl : ClassDef) (scope : ScopeId) (name : String) :
    Analysis ItemId := do
  let own ← newScope scope
  let item ← addItem
    { name, scope
      module := frame.module
      visibility := decl.visibility
      position := decl.node.position
      entity := .cls { scope := own, flags := decl.flags } }
  setOwner own (.cls item)
  if !decl.flags.structural then
    let this ← addItem
      { name := "this"
        scope := own
        module := frame.module
        visibility := .scopeOnly
        position := decl.node.position
        entity := .var { ty := .cls item } }
    change (·.modifyClass item fun c => { c with thisVariable := some this })
  modify fun s => { s with classes := (item, ⟨decl, frame, .declared⟩) :: s.classes }
  return item

/-- A generic declaration takes as many types as it has parameters. -/
def checkArity (name : String) (generics : List Ident) (arguments : List Ty)
    (position : Position) : Analysis Unit :=
  if generics.length != arguments.length then
    fail position (.genericArity name generics.length arguments.length)
  else return

/-- The name of an instance shows its arguments. -/
def instanceName (base : String) (arguments : List Ty) : Analysis String := do
  let table ← look id
  return base ++ "<" ++ ", ".intercalate (arguments.map table.typeText) ++ ">"

/-- Bind generic parameters to types in the scope of an instance. -/
def bindGenerics (frame : Frame) (generics : List Ident) (arguments : List Ty) (own : ScopeId) :
    Analysis Unit :=
  (generics.zip arguments).forM fun (g, ty) => do
    discard <| addItem
      { name := g.name
        scope := own
        module := frame.module
        visibility := .scopeOnly
        position := g.position
        entity := .bound ty }

/-- Append a frame to those of a declaration. -/
def addInstanceFrame (node : NodeId) (frame : FrameId) :
    List (NodeId × List FrameId) → List (NodeId × List FrameId)
  | [] => [(node, [frame])]
  | (n, frames) :: rest =>
    if n == node then (n, frames ++ [frame]) :: rest
    else (n, frames) :: addInstanceFrame node frame rest

/-- The module under analysis depends on the module whose generics it instantiates. -/
def noteGenericDependency (origin : ModuleId) : Analysis Unit := do
  match (← get).moduleStack with
  | current :: _ =>
    if current != origin then
      change (·.modifyModule current fun m =>
        { m with genericDependencies := insertNew m.genericDependencies origin })
  | [] => return

/-- Note a new instance made for a declaration. -/
def noteInstance (frame : Frame) (node : Node) (item : ItemId) (module : ModuleId) :
    Analysis Unit := do
  modify fun s => { s with instanceFrames := addInstanceFrame node.id frame.id s.instanceFrames }
  recordDeclared frame node item
  noteGenericDependency module

/-- The instance of a generic class for some types. -/
def instantiateClass (template : ItemId) (arguments : List Ty) (position : Position) :
    Analysis ItemId := do
  let some (.cls decl scope module) ← template? template
    | failOther position (Cause.quoted (← itemName template) ++ " is not a generic class")
  checkArity decl.name.name decl.generics arguments position
  if let some inst := (← get).instances.findClass? template arguments then return inst.item
  let frame ← openFrame module
  let item ← createClass frame decl scope (← instanceName decl.name.name arguments)
  change (·.modifyClass item fun c =>
    { c with genericArguments := arguments, genericOrigin := some template })
  let c ← expect "instance is not a class" (← look (·.class? item))
  bindGenerics frame decl.generics arguments c.scope
  modify fun s =>
    { s with instances := (s.instances.insertClass template ⟨arguments, item, frame.id⟩).2 }
  noteInstance frame decl.node item module
  an.ask (.signatures item)
  modify fun s => { s with pendingClasses := item :: s.pendingClasses }
  return item

/-- The instance of a generic function for some types. -/
def instantiateFunction (template : ItemId) (arguments : List Ty) (position : Position) :
    Analysis ItemId := do
  let some (.fn decl scope module cls) ← template? template
    | failOther position (Cause.quoted (← itemName template) ++ " is not a generic function")
  checkArity decl.name.name decl.generics arguments position
  if let some inst := (← get).instances.findFunction? template arguments then return inst.item
  let frame ← openFrame module
  let item ← createFunction frame decl scope (← instanceName decl.name.name arguments) cls 0
  change (·.modifyFunction item fun f =>
    { f with genericArguments := arguments, genericOrigin := some template })
  let f ← expect "instance is not a function" (← look (·.function? item))
  bindGenerics frame decl.generics arguments f.scope
  modify fun s =>
    { s with instances := (s.instances.insertFunction template ⟨arguments, item, frame.id⟩).2 }
  noteInstance frame decl.node item module
  resolveSignature an frame decl item cls
  declareVariants decl item none
  modify fun s => { s with pendingFunctions := ⟨frame, decl, item⟩ :: s.pendingFunctions }
  return item

end SemanticAnalysis.Analysis
