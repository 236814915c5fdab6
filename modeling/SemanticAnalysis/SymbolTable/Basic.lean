import SemanticAnalysis.Entity
import SemanticAnalysis.Ty.Printer

/-!
# The symbol table

A `SymbolTable` numbers all items, scopes and modules of a program. Modules, scopes and items are
only ever added; a child scope always has a greater number than its parent, so the chain of
enclosing scopes (`SymbolTable.chain`) ends.
-/

namespace SemanticAnalysis

/-- All items, scopes and modules of a program, by number. -/
structure SymbolTable where
  items : Array Item := #[]
  scopes : Array Scope := #[]
  modules : Array Module := #[]
deriving Inhabited

namespace SymbolTable

/-! ## Access -/

def item? (t : SymbolTable) (i : ItemId) : Option Item := t.items[i.index]?

def scope? (t : SymbolTable) (s : ScopeId) : Option Scope := t.scopes[s.index]?

def module? (t : SymbolTable) (m : ModuleId) : Option Module := t.modules[m.index]?

def function? (t : SymbolTable) (i : ItemId) : Option Function := (t.item? i).bind (·.function?)

def class? (t : SymbolTable) (i : ItemId) : Option Class := (t.item? i).bind (·.class?)

def var? (t : SymbolTable) (i : ItemId) : Option Variable := (t.item? i).bind (·.var?)

/-- The kind of an item. -/
def kind? (t : SymbolTable) (i : ItemId) : Option EntityKind := (t.item? i).map (·.entity.kind)

def isFunction (t : SymbolTable) (i : ItemId) : Bool := t.kind? i == some .fn

/-- The item is a template for generic arguments. -/
def isGeneric (t : SymbolTable) (i : ItemId) : Bool := (t.item? i).any (·.isGeneric)

def functionOwner? (t : SymbolTable) (s : ScopeId) : Option ItemId :=
  (t.scope? s).bind (·.functionOwner?)

def classOwner? (t : SymbolTable) (s : ScopeId) : Option ItemId :=
  (t.scope? s).bind (·.classOwner?)

/-! ## Change -/

def modifyItem (t : SymbolTable) (i : ItemId) (f : Item → Item) : SymbolTable :=
  { t with items := t.items.modify i.index f }

def modifyScope (t : SymbolTable) (s : ScopeId) (f : Scope → Scope) : SymbolTable :=
  { t with scopes := t.scopes.modify s.index f }

def modifyModule (t : SymbolTable) (m : ModuleId) (f : Module → Module) : SymbolTable :=
  { t with modules := t.modules.modify m.index f }

/-- Change a function; items of other kinds stay as they are. -/
def modifyFunction (t : SymbolTable) (i : ItemId) (f : Function → Function) : SymbolTable :=
  t.modifyItem i fun item =>
    match item.entity with
    | .fn fn => { item with entity := .fn (f fn) }
    | _ => item

/-- Change a class; items of other kinds stay as they are. -/
def modifyClass (t : SymbolTable) (i : ItemId) (f : Class → Class) : SymbolTable :=
  t.modifyItem i fun item =>
    match item.entity with
    | .cls c => { item with entity := .cls (f c) }
    | _ => item

/-- Change a variable; items of other kinds stay as they are. -/
def modifyVariable (t : SymbolTable) (i : ItemId) (f : Variable → Variable) : SymbolTable :=
  t.modifyItem i fun item =>
    match item.entity with
    | .var v => { item with entity := .var (f v) }
    | _ => item

/-! ## Construction -/

def pushScope (t : SymbolTable) (parent : Option ScopeId) (owner : ScopeOwner) (module : ModuleId)
    (relativeId : Nat) : ScopeId × SymbolTable :=
  let id : ScopeId := ⟨t.scopes.size⟩
  (id, { t with scopes := t.scopes.push { id, parent, owner, module, relativeId } })

/-- Make a module with an empty scope and an empty exports scope. -/
def newModule (t : SymbolTable) (name path package : String) : ModuleId × SymbolTable :=
  let id : ModuleId := ⟨t.modules.size⟩
  let (scope, t) := t.pushScope none (.unit id) id 0
  let (exports, t) := t.pushScope none (.unit id) id 0
  (id, { t with modules := t.modules.push { id, name, path, package, scope, exports } })

/-- Make a child scope of `parent`, in the module of `parent`. -/
def newScope (t : SymbolTable) (parent : ScopeId) (owner : ScopeOwner) : ScopeId × SymbolTable :=
  match t.scope? parent with
  | none => t.pushScope (some parent) owner ⟨0⟩ 0
  | some p =>
    let t := t.modifyScope parent fun s => { s with nextChild := s.nextChild + 1 }
    t.pushScope (some parent) owner p.module p.nextChild

/-- Add an item and list it in its scope. The item gets the next number. -/
def addItem (t : SymbolTable) (item : Item) : ItemId × SymbolTable :=
  let id : ItemId := ⟨t.items.size⟩
  let t := { t with items := t.items.push { item with id } }
  (id, t.modifyScope item.scope fun s => { s with items := s.items ++ [id] })

def setOwner (t : SymbolTable) (s : ScopeId) (owner : ScopeOwner) : SymbolTable :=
  t.modifyScope s fun scope => { scope with owner }

/-! ## Nesting -/

/-- A scope and the scopes around it, innermost first. -/
def chain (t : SymbolTable) (s : ScopeId) : List ScopeId :=
  match (t.scope? s).bind (·.parent) with
  | none => [s]
  | some p => if p.index < s.index then s :: t.chain p else [s]
termination_by s.index

/-- `s` is `outer` or nested in it. -/
def isWithin (t : SymbolTable) (s outer : ScopeId) : Bool := (t.chain s).contains outer

/-- The nearest function around a scope. -/
def enclosingFunction? (t : SymbolTable) (s : ScopeId) : Option ItemId :=
  (t.chain s).findSome? t.functionOwner?

/-- The nearest class around a scope. -/
def enclosingClass? (t : SymbolTable) (s : ScopeId) : Option ItemId :=
  (t.chain s).findSome? t.classOwner?

/-! ## Errors of scopes -/

/-- Record that `ty` may be thrown in one scope; tells whether that is new. -/
def addError (t : SymbolTable) (s : ScopeId) (ty : Ty) : Bool × SymbolTable :=
  match t.scope? s with
  | none => (false, t)
  | some scope => ((scope.addError ty).1, t.modifyScope s fun scope => (scope.addError ty).2)

/-- Mark a function as throwing and hand out the actions that wait for it. -/
def beginThrowing (t : SymbolTable) (f : ItemId) : List Deferred × SymbolTable :=
  match t.function? f with
  | none => ([], t)
  | some fn => (fn.beginThrowing.1, t.modifyFunction f fun fn => fn.beginThrowing.2)

/-- Record an error along a chain of scopes up to the first `try` body or function, which begins
throwing. -/
def addErrorAlong (t : SymbolTable) (ty : Ty) : List ScopeId → List Deferred × SymbolTable
  | [] => ([], t)
  | s :: outer =>
    let t := (t.addError s ty).2
    if (t.scope? s).any (·.isTry) then ([], t)
    else
      match t.functionOwner? s with
      | some f => t.beginThrowing f
      | none => t.addErrorAlong ty outer

/-- Record that `ty` may be thrown in `s` and the scopes around it. -/
def addPossibleError (t : SymbolTable) (s : ScopeId) (ty : Ty) : List Deferred × SymbolTable :=
  t.addErrorAlong ty (t.chain s)

/-! ## Text -/

/-- The name of an item; a number without an item is written as such. -/
def itemName (t : SymbolTable) (i : ItemId) : String :=
  match t.item? i with
  | some item => item.name
  | none => i.text

def typeText (t : SymbolTable) (ty : Ty) : String := ty.text t.itemName

def signatureText (t : SymbolTable) (s : Signature Ty) : String := Ty.signatureText t.itemName s

end SymbolTable

end SemanticAnalysis
