import SemanticAnalysis.Attribute
import SemanticAnalysis.Detail
import SemanticAnalysis.ErrorFlow
import SemanticAnalysis.Generics.Instances
import SemanticAnalysis.Module.Library
import SemanticAnalysis.Module.Loading
import SemanticAnalysis.SymbolTable.Lookup

/-!
# State of an analysis

An `Analysis` step changes the `State` and may stop with a diagnostic; what it did before it stopped
stays done. The parts of the analysis depend on each other in circles (a type may need an instance of
a class, whose fields need types), so they do not call each other: each part states what it needs as a
`Demand` and asks an `Analyst` for it.
-/

namespace SemanticAnalysis

/-- Where a node is analysed: the frame for its details and the module for its items. -/
structure Frame where
  id : FrameId
  module : ModuleId
deriving DecidableEq, Repr, Inhabited

/-- A generic declaration, kept for its instances. -/
inductive Template where
  | cls (decl : ClassDef) (scope : ScopeId) (module : ModuleId)
  | fn (decl : FunctionDef) (scope : ScopeId) (module : ModuleId) (cls : Option ItemId)

/-- How far a class has been analysed. -/
inductive Stage where
  | declared
  | signatures
  | synthesizing
  | synthesized
  | bodies
deriving DecidableEq, Repr, Inhabited

/-- The order of the stages. -/
def Stage.rank : Stage → Nat
  | declared => 0
  | signatures => 1
  | synthesizing => 2
  | synthesized => 3
  | bodies => 4

/-- The declaration of a class and how far it has come. -/
structure ClassSource where
  decl : ClassDef
  frame : Frame
  stage : Stage

/-- A function whose body is still to be analysed. -/
structure PendingFunction where
  frame : Frame
  decl : FunctionDef
  item : ItemId

/-- An analysed module tree. -/
structure AnalysedRoot where
  module : ModuleId
  frame : FrameId
  root : Root

/-- A use of a registered attribute, by the number of its registration. -/
structure Application where
  registration : Nat
  invocation : Invocation
deriving Inhabited

/-- Everything an analysis knows. -/
structure State where
  options : Options := {}
  attributes : AttributeTable := {}
  library : Option Resolver := none
  table : SymbolTable := {}
  details : DetailTable := {}
  loads : LoadStates := {}
  /-- The modules whose code is being analysed, innermost first. -/
  moduleStack : List ModuleId := []
  instances : Instances := {}
  templates : List (ItemId × Template) := []
  /-- The frames of the instances of each generic declaration. -/
  instanceFrames : List (NodeId × List FrameId) := []
  /-- Instances with bodies still to be analysed, the last one first. -/
  pendingClasses : List ItemId := []
  pendingFunctions : List PendingFunction := []
  /-- The items made for declarations. -/
  declared : List (DetailKey × ItemId) := []
  classes : List (ItemId × ClassSource) := []
  /-- The member functions made for each class. -/
  synthesized : List (ItemId × List FunctionDef) := []
  /-- The `try` bodies and call sites through which errors flow. -/
  flow : ErrorFlow := {}
  /-- Constructors that call a constructor of their parent themselves. -/
  superCalled : List ItemId := []
  /-- Lambdas whose return type is still to come from a `return`. -/
  inferringReturns : List ItemId := []
  lambdaCount : Nat := 0
  nextFrame : Nat := 0
  /-- The number of nodes the analysis has made. -/
  nodesMade : Nat := 0
  roots : List AnalysedRoot := []
  /-- Errors that did not stop the analysis. -/
  errors : List Diagnostic := []
  /-- Errors of attempts that were given up without a report. -/
  dropped : List Diagnostic := []
  /-- Uses of registered attributes, in order. -/
  applications : List Application := []

instance : Inhabited State := ⟨{}⟩

/-- A step of the analysis. Its effects stay when it stops with a diagnostic. -/
abbrev Analysis := EStateM Diagnostic State

/-- How the value of an expression is used. -/
inductive Access where
  | read
  | write
  | readWrite
deriving DecidableEq, Repr, Inhabited

/-- The passes over the statements of a module or namespace. -/
inductive Pass where
  /-- Imports, classes and namespaces. -/
  | types
  /-- Aliases; only the last pass reports those that stay unresolved. -/
  | aliases (last : Bool)
  /-- Members, functions and variables with a written type. -/
  | signatures
  | bodies
deriving DecidableEq, Repr, Inhabited

/-- What one part of the analysis may need from another. -/
inductive Demand : Type → Type where
  /-- The type that a written type stands for. -/
  | type (frame : Frame) (t : TypeExpr) (scope : ScopeId) : Demand Ty
  | expr (frame : Frame) (e : Expr) (scope : ScopeId) (access : Access) : Demand ExprInfo
  | stmt (frame : Frame) (s : Stmt) (scope : ScopeId) : Demand Unit
  /-- Parents, fields and member signatures of a class. -/
  | signatures (cls : ItemId) : Demand Unit
  /-- The member functions that a class has without writing them. -/
  | synthesis (cls : ItemId) : Demand Unit
  | classBodies (cls : ItemId) : Demand Unit
  | functionBody (frame : Frame) (decl : FunctionDef) (item : ItemId) : Demand Unit
  /-- One pass over the statements of a module or namespace. -/
  | pass (p : Pass) (frame : Frame) (statements : List Stmt) (scope : ScopeId) : Demand Unit
  /-- The module at a path, analysed. -/
  | module (path : Path) (request : String) (position : Position) : Demand ModuleId
  /-- The bodies of all instances made so far. -/
  | pending : Demand Unit

/-- Whoever answers demands. -/
structure Analyst where
  ask : {α : Type} → Demand α → Analysis α

namespace Analyst

variable (an : Analyst)

def type (frame : Frame) (t : TypeExpr) (scope : ScopeId) : Analysis Ty :=
  an.ask (.type frame t scope)

/-- An expression whose value is read. -/
def expr (frame : Frame) (e : Expr) (scope : ScopeId) : Analysis ExprInfo :=
  an.ask (.expr frame e scope .read)

def stmt (frame : Frame) (s : Stmt) (scope : ScopeId) : Analysis Unit :=
  an.ask (.stmt frame s scope)

def stmts (frame : Frame) (ss : List Stmt) (scope : ScopeId) : Analysis Unit :=
  ss.forM fun s => an.stmt frame s scope

end Analyst

/-! ## Small steps -/

namespace Analysis

/-- Stop with a cause at a position. -/
def fail {α : Type} (position : Position) (cause : Cause) : Analysis α := throw ⟨cause, position⟩

/-- Stop with a message of its own. -/
def failOther {α : Type} (position : Position) (message : String) : Analysis α :=
  throw (.other position message)

/-- Ask the symbol table. -/
def look {α : Type} (f : SymbolTable → α) : Analysis α := return f (← get).table

/-- Change the symbol table. -/
def change (f : SymbolTable → SymbolTable) : Analysis Unit :=
  modify fun s => { s with table := f s.table }

/-- Change the symbol table and take what that gives. -/
def make {α : Type} (f : SymbolTable → α × SymbolTable) : Analysis α :=
  modifyGet fun s =>
    let (a, table) := f s.table
    (a, { s with table })

/-- The value of an option that must be there. -/
def expect {α : Type} (what : String) : Option α → Analysis α
  | some a => return a
  | none => throw (.internal what)

def typeText (ty : Ty) : Analysis String := look (·.typeText ty)

def itemName (i : ItemId) : Analysis String := look (·.itemName i)

/-- Make a child scope. -/
def newScope (parent : ScopeId) : Analysis ScopeId := make (·.newScope parent .block)

def addItem (item : Item) : Analysis ItemId := make (·.addItem item)

def setOwner (s : ScopeId) (owner : ScopeOwner) : Analysis Unit := change (·.setOwner s owner)

def openFrame (module : ModuleId) : Analysis Frame :=
  modifyGet fun s => (⟨⟨s.nextFrame⟩, module⟩, { s with nextFrame := s.nextFrame + 1 })

/-- A new node at a position. -/
def freshNode (position : Position) : Analysis Node :=
  modifyGet fun s =>
    (⟨.synthetic s.nodesMade, position⟩, { s with nodesMade := s.nodesMade + 1 })

/-- Record the detail of a node. -/
def record (frame : Frame) (node : Node) (d : Detail) : Analysis Unit := do
  let s ← get
  match s.details.insert ⟨frame.id, node.id⟩ d node.position with
  | .ok details => set { s with details }
  | .error e => throw e

def detail? (frame : Frame) (node : Node) : Analysis (Option Detail) :=
  return (← get).details.get? ⟨frame.id, node.id⟩

/-- Commit a name to an item. -/
def narrow (frame : Frame) (node : Node) (item : ItemId) (ty : Ty) : Analysis Unit :=
  modify fun s => { s with details := (s.details.narrow ⟨frame.id, node.id⟩ item ty).2 }

/-- Record a user cast on an expression. -/
def castImplicitly (frame : Frame) (node : Node) (cast : ImplicitCast) : Analysis Unit :=
  modify fun s => { s with details := (s.details.setImplicitCast ⟨frame.id, node.id⟩ cast).2 }

/-- The item made for a declaration. -/
def declared? (frame : Frame) (node : Node) : Analysis (Option ItemId) :=
  return (← get).declared.lookup ⟨frame.id, node.id⟩

def recordDeclared (frame : Frame) (node : Node) (item : ItemId) : Analysis Unit :=
  modify fun s => { s with declared := (⟨frame.id, node.id⟩, item) :: s.declared }

def classSource? (cls : ItemId) : Analysis (Option ClassSource) :=
  return (← get).classes.lookup cls

def template? (item : ItemId) : Analysis (Option Template) :=
  return (← get).templates.lookup item

/-- Keep an error and go on without a value, if errors are collected. -/
def recover {α : Type} (step : Analysis α) : Analysis (Option α) :=
  tryCatch (some <$> step) fun e => do
    if (← get).options.collectErrors then
      modify fun s => { s with errors := s.errors ++ [e] }
      return none
    else throw e

/-- Give up an attempt without a report. -/
def giveUp (e : Diagnostic) : Analysis Unit :=
  modify fun s => { s with dropped := s.dropped ++ [e] }

/-- Do the last thing whether or not the step stops. -/
def andFinally {α : Type} (step : Analysis α) (last : Analysis Unit) : Analysis α := do
  let a ← tryCatch step fun e => do
    last
    throw e
  last
  return a

/-- The conversion of a value of type `src` to `dst`. -/
def conversion (src dst : Ty) : Analysis Conversion :=
  return convert (← get).table (← get).options src dst

/-- A misplaced construct. -/
def misplaced {α : Type} (construct requirement : String) (position : Position) : Analysis α :=
  fail position (.invalidContext construct requirement)

end Analysis

end SemanticAnalysis
