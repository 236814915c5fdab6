import SemanticAnalysis.Analysis.Effect
import SemanticAnalysis.Analysis.Lambda
import SemanticAnalysis.Analysis.Synthesis
import SemanticAnalysis.Analysis.Use

/-!
# Bodies

The bodies of functions and classes: default values, statements, field initializers and the
constructors of parents that run without being called.
-/

namespace SemanticAnalysis.Analysis

variable (an : Analyst)

/-! ## Functions -/

/-- Analyse the default value of a parameter, which has to fit the parameter. -/
def detailDefault (frame : Frame) (scope : ScopeId) (written : Param Expr) (expected : Ty) :
    Analysis Unit := do
  match written.defaultValue with
  | none => return
  | some e =>
    let info ← an.expr frame e scope
    checkAssignable frame e info.ty expected written.node.position

/-- The constructor of a parent that runs before the body of a constructor. -/
def implicitSuperCall (cls : ItemId) (position : Position) (parent : ItemId) :
    Analysis ItemId := do
  an.ask (.synthesis parent)
  match (← look (·.class? parent)).bind (·.defaultConstructor) with
  | some ctor => return ctor
  | none =>
    fail position <| .noDefaultConstructor (← itemName parent)
      ("required by the constructors of " ++ Cause.quoted (← itemName cls))

/-- The constructors of parents that a constructor does not call itself. `super(...)` stands for the
first parent. -/
def implicitSuperCalls (ctor : ItemId) (scope : ScopeId) (position : Position) :
    Analysis (List ItemId) := do
  match ← look (·.classOwner? scope) with
  | none => return []
  | some cls =>
    let parents := ((← look (·.class? cls)).map (·.parents)).getD []
    let called := (← get).superCalled.contains ctor
    (if called then parents.drop 1 else parents).mapM (implicitSuperCall an cls position)

/-- Analyse the default values and the body of a function, once. -/
def detailFunctionBody (frame : Frame) (decl : FunctionDef) (item : ItemId) : Analysis Unit := do
  let entry ← expect "body of a non-function" (← look (·.item? item))
  if entry.isGeneric then return
  let f ← expect "body of a non-function" entry.function?
  if f.isDetailed then return
  (decl.params.zip f.params).forM fun (written, p) =>
    detailDefault an frame entry.scope written p.ty
  if let some body := decl.body then detailBlock an frame body f.scope
  let isOwnCopy := f.flags.synthesized && f.flags.copyConstruct
  let implicitSuper ←
    if f.flags.construct && !isOwnCopy then
      implicitSuperCalls an item entry.scope decl.node.position
    else pure []
  finishFunction item
  let variants := ((← look (·.function? item)).map (·.variants)).getD []
  record frame decl.node (.function { function := item, variants, implicitSuper })
  applyAttributes an frame decl.attributes ⟨.fn, item⟩ decl.node entry.scope

/-- A function declared inside a body. -/
def detailLocalFunction (frame : Frame) (decl : FunctionDef) (scope : ScopeId) : Analysis Unit := do
  let item ← declareFunction an frame decl scope none
  an.ask (.functionBody frame decl item)

/-! ## Classes -/

/-- Analyse the initializer and the attributes of a field. -/
def detailField (frame : Frame) (scope : ScopeId) (field : FieldDecl Expr) : Analysis Unit := do
  match ← declared? frame field.node with
  | none => return
  | some v =>
    if let (some _, some e) := (field.ty, field.initializer) then
      let expected := ((← look (·.var? v)).map (·.ty)).getD .any
      let info ← an.expr frame e scope
      checkAssignable frame e info.ty expected field.node.position
    record frame field.node (.field v)
    applyAttributes an frame field.attributes ⟨.field, v⟩ field.node scope

/-- Analyse the bodies of some member functions; gives the functions. -/
def detailMemberBodies (frame : Frame) (members : List FunctionDef) : Analysis (List ItemId) :=
  members.filterMapM fun f => do
    match ← declared? frame f.node with
    | none => return none
    | some item =>
      discard <| recover (an.ask (.functionBody frame f item))
      return some item

/-- Analyse the field initializers and member bodies of a class, once. -/
def detailClassBodies (item : ItemId) : Analysis Unit := do
  an.ask (.synthesis item)
  match ← classSource? item with
  | none => return
  | some ⟨decl, frame, stage⟩ =>
    if Stage.bodies.rank ≤ stage.rank then return
    setStage item .bodies
    let scope ← classScope item
    decl.fields.forM (detailField an frame scope)
    discard <| detailMemberBodies an frame decl.functions
    let made := ((← get).synthesized.lookup item).getD []
    let synthesized ← detailMemberBodies an frame made
    change (·.modifyClass item fun c => { c with isDetailed := true })
    record frame decl.node (.cls { cls := item, synthesized })
    applyAttributes an frame decl.attributes ⟨.cls, item⟩ decl.node scope

/-- A class declared inside a body. -/
def detailLocalClass (frame : Frame) (decl : ClassDef) (scope : ScopeId) : Analysis Unit := do
  let item ← declareClass frame decl scope
  if (← classSource? item).isSome then
    an.ask (.signatures item)
    an.ask (.classBodies item)

end SemanticAnalysis.Analysis
