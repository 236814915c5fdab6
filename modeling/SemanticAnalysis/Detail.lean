import SemanticAnalysis.Diagnostic
import SemanticAnalysis.Overload.Resolution

/-!
# Details

What the analysis learns about a node is its `Detail`. A `DetailTable` keeps the details by frame and
node, one each: a generic body is analysed once per instance, each time in a frame of its own.
-/

namespace SemanticAnalysis

/-! ## Expressions -/

/-- A user cast applied to a value so that it fits where it is used. -/
structure ImplicitCast where
  function : ItemId
  target : Ty
deriving Inhabited

/-- What is known of every expression. -/
structure ExprInfo where
  ty : Ty
  /-- The expression names a place that can be assigned. -/
  isLvalue : Bool := false
  implicitCast : Option ImplicitCast := none
deriving Inhabited

namespace ExprInfo

def rvalue (ty : Ty) : ExprInfo := { ty }

def lvalue (ty : Ty) : ExprInfo := { ty, isLvalue := true }

/-- The result of a call can be assigned when it is a reference. -/
def ofResult (ty : Ty) : ExprInfo := { ty, isLvalue := ty.isReference }

/-- The type that the place of use sees. -/
def effectiveType (i : ExprInfo) : Ty :=
  match i.implicitCast with
  | some cast => cast.target
  | none => i.ty

end ExprInfo

/-- What a name stands for. -/
inductive NameMeaning where
  /-- A variable or function. -/
  | value
  /-- A type, which can be called to make a value. -/
  | type (ty : Ty)
  | space (item : ItemId)
  /-- A property with its accessors. -/
  | property (getter setter : Option ItemId)
deriving Inhabited

def NameMeaning.isValue : NameMeaning → Bool
  | value => true
  | _ => false

/-- A name or member access. -/
structure NameDetail where
  info : ExprInfo
  /-- Everything the lookup found, nearest first. -/
  candidates : List ItemId := []
  /-- The item the name was narrowed to. -/
  target : Option ItemId := none
  meaning : NameMeaning := .value
  /-- Reached through the object of a method. -/
  throughThis : Bool := false
deriving Inhabited

/-- How a call is carried out. -/
inductive CallKind where
  | function
  | method
  | construct (cls : ItemId)
  | superConstruct (cls : ItemId)
  /-- A class value called through its call operator. -/
  | callOperator
  /-- A native type applied to a value. -/
  | conversion
  /-- The callee may be anything, so nothing is checked. -/
  | dynamic
deriving DecidableEq, Repr, Inhabited

structure CallDetail where
  info : ExprInfo
  kind : CallKind
  callee : Option ItemId := none
  resolution : Option Resolution := none
deriving Inhabited

structure NewDetail where
  info : ExprInfo
  cls : Option ItemId := none
  ctor : Option ItemId := none
  resolution : Option Resolution := none
  persistent : Bool := false
deriving Inhabited

structure AssignDetail where
  info : ExprInfo
  overload : Option ItemId := none
  setter : Option ItemId := none
  /-- The type of the value after a compound operator. -/
  valueType : Ty
  /-- The value fits the target. -/
  compatible : Bool
deriving Inhabited

/-- How a written cast is carried out. -/
inductive CastKind where
  /-- The value fits as it is. -/
  | implicit
  | native
  /-- A pointer taken for another one. -/
  | reinterpret
  /-- From a class to one derived from it. -/
  | downcast
  | user
deriving DecidableEq, Repr, Inhabited

/-! ## Statements and declarations -/

structure CatchDetail where
  scope : ScopeId
  var : Option ItemId
  /-- Without a type, everything is caught. -/
  ty : Option Ty
deriving Inhabited

structure FunctionDetail where
  function : ItemId
  variants : List ItemId := []
  /-- Constructors of parents that run before the body. -/
  implicitSuper : List ItemId := []
  isTemplate : Bool := false
deriving Inhabited

structure ClassDetail where
  cls : ItemId
  /-- Member functions made by the analysis. -/
  synthesized : List ItemId := []
  isTemplate : Bool := false
deriving Inhabited

/-- What the analysis recorded for a node. -/
inductive Detail where
  | literal (info : ExprInfo)
  | name (d : NameDetail)
  | member (d : NameDetail)
  | call (d : CallDetail)
  | new (d : NewDetail)
  /-- Binary, unary and index expressions, with the operator function if a class has one. -/
  | operator (info : ExprInfo) (overload : Option ItemId)
  | assign (d : AssignDetail)
  | conditional (info : ExprInfo)
  | cast (info : ExprInfo) (kind : CastKind) (via : Option ItemId)
  | lambda (info : ExprInfo) (function : ItemId)
  | thisRef (info : ExprInfo)
  | superRef (info : ExprInfo)
  | await (info : ExprInfo) (function : ItemId)
  | yield (info : ExprInfo) (function : ItemId)
  | sizeOfType (info : ExprInfo) (measured : Ty)
  /-- Expression statements and jumps. -/
  | statement (scope : ScopeId)
  | declare (var : ItemId) (ctor : Option ItemId)
  | block (scope : ScopeId)
  | ifElse (yes : ScopeId) (no : Option ScopeId)
  | loop (scope : ScopeId)
  | forEach (scope : ScopeId) (var next : ItemId) (element : Ty)
  | ret (function : ItemId) (expected : Ty)
  | raise (ty : Ty)
  | tryCatch (scope : ScopeId) (catches : List CatchDetail) (uncaught : List Ty)
  | delete (ty : Ty) (destructor : Option ItemId)
  | function (d : FunctionDetail)
  | cls (d : ClassDetail)
  | field (var : ItemId)
  | space (item : ItemId)
  | importing (module : ModuleId) (bound : List ItemId)
  | exporting (aliases : List ItemId)
  | aliasing (item : ItemId)
deriving Inhabited

namespace Detail

/-- What is known of an expression. -/
def info? : Detail → Option ExprInfo
  | literal i | conditional i | thisRef i | superRef i => some i
  | name d | member d => some d.info
  | call d => some d.info
  | new d => some d.info
  | operator i _ => some i
  | assign d => some d.info
  | cast i _ _ => some i
  | lambda i _ => some i
  | await i _ | yield i _ => some i
  | sizeOfType i _ => some i
  | _ => none

/-- Change what is known of an expression. -/
def mapInfo (f : ExprInfo → ExprInfo) : Detail → Detail
  | literal i => literal (f i)
  | conditional i => conditional (f i)
  | thisRef i => thisRef (f i)
  | superRef i => superRef (f i)
  | name d => name { d with info := f d.info }
  | member d => member { d with info := f d.info }
  | call d => call { d with info := f d.info }
  | new d => new { d with info := f d.info }
  | operator i o => operator (f i) o
  | assign d => assign { d with info := f d.info }
  | cast i k v => cast (f i) k v
  | lambda i fn => lambda (f i) fn
  | await i fn => await (f i) fn
  | yield i fn => yield (f i) fn
  | sizeOfType i m => sizeOfType (f i) m
  | d => d

def name? : Detail → Option NameDetail
  | name d | member d => some d
  | _ => none

def call? : Detail → Option CallDetail
  | call d => some d
  | _ => none

def function? : Detail → Option FunctionDetail
  | function d => some d
  | _ => none

def class? : Detail → Option ClassDetail
  | cls d => some d
  | _ => none

/-- Commit a name to one item of a certain type. -/
def narrowTo (item : ItemId) (ty : Ty) : Detail → Detail
  | name d => name { d with target := some item, info := { d.info with ty } }
  | member d => member { d with target := some item, info := { d.info with ty } }
  | d => d

end Detail

/-! ## The table -/

/-- Where a detail is kept. -/
structure DetailKey where
  frame : FrameId
  node : NodeId
deriving DecidableEq, Repr, Inhabited

/-- Details by frame and node, in the order in which they were recorded. -/
structure DetailTable where
  entries : Array (DetailKey × Detail) := #[]
deriving Inhabited

namespace DetailTable

def get? (t : DetailTable) (k : DetailKey) : Option Detail :=
  (t.entries.find? (·.1 == k)).map (·.2)

def contains (t : DetailTable) (k : DetailKey) : Bool := t.entries.any (·.1 == k)

def size (t : DetailTable) : Nat := t.entries.size

/-- Record the detail of a node, which must not have one in this frame. -/
def insert (t : DetailTable) (k : DetailKey) (d : Detail) (position : Position) :
    Except Diagnostic DetailTable :=
  if t.contains k then .error ⟨.alreadyDetailed, position⟩ else .ok ⟨t.entries.push (k, d)⟩

/-- Change the detail of a node. -/
def modify (t : DetailTable) (k : DetailKey) (f : Detail → Detail) : DetailTable :=
  ⟨t.entries.map fun e => if e.1 == k then (e.1, f e.2) else e⟩

def info? (t : DetailTable) (k : DetailKey) : Option ExprInfo := (t.get? k).bind (·.info?)

/-- Commit a name to one item; other nodes stay as they are and make the answer `false`. -/
def narrow (t : DetailTable) (k : DetailKey) (item : ItemId) (ty : Ty) : Bool × DetailTable :=
  (((t.get? k).bind (·.name?)).isSome, t.modify k (·.narrowTo item ty))

/-- Record a user cast on an expression; other nodes stay as they are and make the answer
`false`. -/
def setImplicitCast (t : DetailTable) (k : DetailKey) (cast : ImplicitCast) : Bool × DetailTable :=
  ((t.info? k).isSome, t.modify k (·.mapInfo fun i => { i with implicitCast := some cast }))

end DetailTable

end SemanticAnalysis
