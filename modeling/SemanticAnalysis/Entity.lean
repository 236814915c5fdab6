import SemanticAnalysis.Flags
import SemanticAnalysis.Latch
import SemanticAnalysis.Operator
import SemanticAnalysis.Position
import SemanticAnalysis.Ty.Basic

/-!
# Entities

What the symbol table holds: items (variables, functions, classes, namespaces, aliases, bound
types) with their headers, the scopes that list them, and the modules that own the scopes.
-/

namespace SemanticAnalysis

/-- Who may refer to an item. -/
inductive Visibility where
  /-- Code inside the declaring scope. -/
  | scopeOnly
  /-- The declaring class and classes derived from it. -/
  | derived
  | everyone
  | sameModule
  /-- Code of any module of the same package. -/
  | samePackage
deriving DecidableEq, Repr

instance : Inhabited Visibility := ⟨.everyone⟩

namespace Visibility

def all : List Visibility := [scopeOnly, derived, everyone, sameModule, samePackage]

def keyword : Visibility → String
  | scopeOnly => "private"
  | derived => "protected"
  | everyone => "public"
  | sameModule => "module"
  | samePackage => "package"

def ofKeyword? (word : String) : Option Visibility := all.find? (·.keyword == word)

end Visibility

/-! ## Items -/

/-- A variable, parameter or field. -/
structure Variable where
  ty : Ty
  /-- Bound to a literal. -/
  isLiteral : Bool := false
  isExport : Bool := false
  isBitfieldEntry : Bool := false
  /-- Width of a bitfield entry. -/
  bits : Nat := 0
  isParameter : Bool := false
  isMember : Bool := false
  /-- The function that holds the variable while it runs. -/
  owner : Option ItemId := none
deriving Inhabited

namespace Variable

def parameter (ty : Ty) (function : ItemId) : Variable :=
  { ty, isParameter := true, owner := some function }

def member (ty : Ty) : Variable := { ty, isMember := true }

def bitfieldEntry (ty : Ty) (bits : Nat) : Variable :=
  { ty, isMember := true, isBitfieldEntry := true, bits }

def ownedBy (v : Variable) (function : Option ItemId) : Variable := { v with owner := function }

end Variable

/-- Whether a property accessor reads or writes. -/
inductive AccessorKind where
  | get
  | set
deriving DecidableEq, Repr, Inhabited

/-- A function, with all that the analysis finds out about it. -/
structure Function where
  scope : ScopeId
  returnType : Ty
  params : List (Parameter Ty) := []
  paramVariables : List ItemId := []
  flags : FunctionFlags := {}
  accessor : Option AccessorKind := none
  operator : Option Operator := none
  side : Side := .left
  generatorParameter : Option Ty := none
  generatorReturn : Option Ty := none
  coroutineReturn : Option Ty := none
  /-- The function whose trailing parameters this variant omits. -/
  variantOf : Option ItemId := none
  variants : List ItemId := []
  /-- The default expressions a variant supplies, by parameter index. -/
  suppliedDefaults : List (Nat × NodeId) := []
  /-- Variables of enclosing functions that a lambda refers to. -/
  referenced : List ItemId := []
  /-- The referenced variables at the time captures were sealed. -/
  copied : List ItemId := []
  captureHolder : Option ItemId := none
  throws : Bool := false
  /-- Released when the function is first known to throw. -/
  beganThrowing : Latch Deferred := {}
  /-- Released when the body has been analysed. -/
  done : Latch Deferred := {}
  /-- The class value a method works on. -/
  classType : Option Ty := none
  genericArguments : List Ty := []
  genericOrigin : Option ItemId := none
  isDetailed : Bool := false
deriving Inhabited

namespace Function

def signature (f : Function) : Signature Ty := ⟨f.params, f.returnType⟩

/-- The type of the function as a value. -/
def ty (f : Function) : Ty := .function f.signature

/-- Mark the function as throwing; the waiting actions are handed out the first time. -/
def beginThrowing (f : Function) : List Deferred × Function :=
  let (actions, latch) := f.beganThrowing.release
  (actions, { f with throws := true, beganThrowing := latch })

end Function

/-- A class, with all that the analysis finds out about it. -/
structure Class where
  scope : ScopeId
  flags : ClassFlags := {}
  thisVariable : Option ItemId := none
  defaultConstructor : Option ItemId := none
  constructors : List ItemId := []
  destructor : Option ItemId := none
  copyConstructor : Option ItemId := none
  parents : List ItemId := []
  members : List ItemId := []
  fromCasts : List ItemId := []
  toCasts : List ItemId := []
  operators : List ItemId := []
  methods : List ItemId := []
  genericArguments : List Ty := []
  genericOrigin : Option ItemId := none
  underlying : Option Ty := none
  /-- Values need a destructor call when they go away. -/
  needsCleanup : Bool := false
  isDetailed : Bool := false
deriving Inhabited

/-- The part of an item that depends on its kind. -/
inductive Entity where
  | var (v : Variable)
  | fn (f : Function)
  | cls (c : Class)
  /-- A namespace, by its scope. -/
  | space (scope : ScopeId)
  /-- Another name for an item. -/
  | aliasOf (target : ItemId)
  /-- A name bound to a type. -/
  | bound (ty : Ty)
deriving Inhabited

/-- The kinds of items. -/
inductive EntityKind where
  | var
  | fn
  | cls
  | space
  | aliasOf
  | bound
deriving DecidableEq, Repr, Inhabited

namespace EntityKind

def describe : EntityKind → String
  | var => "variable"
  | fn => "function"
  | cls => "class"
  | space => "namespace"
  | aliasOf => "alias"
  | bound => "type"

/-- Kinds that name a type. -/
def types : List EntityKind := [cls, bound]

/-- Kinds that stand for a value. -/
def values : List EntityKind := [var, fn]

end EntityKind

def Entity.kind : Entity → EntityKind
  | var _ => .var
  | fn _ => .fn
  | cls _ => .cls
  | space _ => .space
  | aliasOf _ => .aliasOf
  | bound _ => .bound

/-- A named entity of a scope. -/
structure Item where
  name : String
  /-- The scope that declares the item. -/
  scope : ScopeId
  module : ModuleId
  entity : Entity
  visibility : Visibility := .everyone
  position : Position := {}
  /-- The number of generic parameters. -/
  generics : Nat := 0
  id : ItemId := ⟨0⟩
  privateHoisted : List ItemId := []
  publicHoisted : List ItemId := []
deriving Inhabited

namespace Item

def isGeneric (i : Item) : Bool := 0 < i.generics

def var? (i : Item) : Option Variable :=
  match i.entity with
  | .var v => some v
  | _ => none

def function? (i : Item) : Option Function :=
  match i.entity with
  | .fn f => some f
  | _ => none

def class? (i : Item) : Option Class :=
  match i.entity with
  | .cls c => some c
  | _ => none

/-- The scope an item owns. -/
def ownScope? (i : Item) : Option ScopeId :=
  match i.entity with
  | .fn f => some f.scope
  | .cls c => some c.scope
  | .space s => some s
  | _ => none

end Item

/-! ## Scopes and modules -/

/-- What a scope is the scope of. -/
inductive ScopeOwner where
  | unit (module : ModuleId)
  | fn (item : ItemId)
  | space (item : ItemId)
  | cls (item : ItemId)
  | block
deriving DecidableEq, Repr, Inhabited

/-- A lexical scope. -/
structure Scope where
  id : ScopeId
  parent : Option ScopeId
  owner : ScopeOwner
  module : ModuleId
  /-- Items declared here, in order. -/
  items : List ItemId := []
  /-- The index among the children of the parent. -/
  relativeId : Nat := 0
  nextChild : Nat := 0
  /-- Error types that may leave this scope. -/
  possibleErrors : List Ty := []
  isTry : Bool := false
deriving Inhabited

namespace Scope

/-- Record an error type; tells whether it is new. -/
def addError (s : Scope) (ty : Ty) : Bool × Scope :=
  if s.possibleErrors.contains ty then (false, s)
  else (true, { s with possibleErrors := s.possibleErrors ++ [ty] })

def classOwner? (s : Scope) : Option ItemId :=
  match s.owner with
  | .cls item => some item
  | _ => none

def functionOwner? (s : Scope) : Option ItemId :=
  match s.owner with
  | .fn item => some item
  | _ => none

end Scope

/-- A compilation unit. -/
structure Module where
  id : ModuleId
  name : String
  path : String
  /-- Modules of one package see each other's package items. -/
  package : String
  scope : ScopeId
  /-- The scope of aliases that importers see. -/
  exports : ScopeId
  dependencies : List ModuleId := []
  dependents : List ModuleId := []
  /-- Modules whose generics this module instantiated. -/
  genericDependencies : List ModuleId := []
  hoisted : List ItemId := []
  /-- The number of items of the module scope once it was analysed. -/
  rootItems : Nat := 0
deriving Inhabited

/-- Append `a` unless it is already there. -/
def insertNew {α : Type} [BEq α] (as : List α) (a : α) : List α :=
  if as.contains a then as else as ++ [a]

section InsertNew

variable {α : Type} [BEq α] [LawfulBEq α]

theorem mem_insertNew {as : List α} {a b : α} : b ∈ insertNew as a ↔ b ∈ as ∨ b = a := by
  unfold insertNew
  split
  · rename_i hmem
    have hmem : a ∈ as := by simpa using hmem
    exact ⟨.inl, fun h => h.elim id fun heq => heq ▸ hmem⟩
  · simp

theorem mem_foldl_insertNew {as bs : List α} {a : α} : a ∈ bs.foldl insertNew as ↔ a ∈ as ∨ a ∈ bs := by
  induction bs generalizing as with
  | nil => simp
  | cons b rest ih => rw [List.foldl_cons, ih, mem_insertNew, List.mem_cons, or_assoc]

theorem nodup_insertNew {as : List α} (h : as.Nodup) (a : α) : (insertNew as a).Nodup := by
  unfold insertNew
  split
  · exact h
  · rename_i hmem
    have hmem : a ∉ as := by simpa using hmem
    refine List.nodup_append.2 ⟨h, List.pairwise_singleton _ a, fun b hb c hc => ?_⟩
    rintro rfl
    exact hmem (List.mem_singleton.1 hc ▸ hb)

theorem nodup_foldl_insertNew {as : List α} (h : as.Nodup) (bs : List α) : (bs.foldl insertNew as).Nodup := by
  induction bs generalizing as with
  | nil => exact h
  | cons b rest ih => exact ih (nodup_insertNew h b)

end InsertNew

namespace Module

def addDependency (m : Module) (d : ModuleId) : Module :=
  { m with dependencies := insertNew m.dependencies d }

def addDependent (m : Module) (d : ModuleId) : Module :=
  { m with dependents := insertNew m.dependents d }

end Module

end SemanticAnalysis
