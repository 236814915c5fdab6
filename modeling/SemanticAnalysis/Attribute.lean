import SemanticAnalysis.Syntax.Literal
import SemanticAnalysis.SymbolTable.Basic

/-!
# Attributes

A host registers callbacks for attribute paths. A registration may be limited to kinds of
declarations and to one module; one for the module at hand wins over one for all modules.
-/

namespace SemanticAnalysis

/-- The kinds of declarations that carry attributes. -/
inductive Target where
  | var
  | fn
  | cls
  | field
deriving DecidableEq, Repr, Inhabited

namespace Target

def all : List Target := [var, fn, cls, field]

/-- A set of targets as a number, variables lowest. -/
def bits (targets : List Target) : Nat :=
  Modifier.numberOf (all.map targets.contains)

end Target

/-- The declared item an attribute stands on. -/
structure Subject where
  target : Target
  item : ItemId
deriving DecidableEq, Repr, Inhabited

/-- The value of an attribute argument. -/
inductive AttributeValue where
  | int (value : Int)
  | float (value : Binary64)
  | bool (value : Bool)
  | string (value : String)
  | null
  | type (ty : Ty)
  /-- A name, by the item it means. -/
  | item (id : ItemId)
deriving Inhabited

/-- One use of an attribute. -/
structure Invocation where
  subject : Subject
  node : NodeId
  position : Position
  arguments : List AttributeValue
deriving Inhabited

/-- What a host does on a use of an attribute: it may change the table and may fail with a message. It is taken to go by
the use and the table alone: what a host keeps to itself between two uses is not seen here. -/
abbrev Callback := Invocation → SymbolTable → Except String Unit × SymbolTable

/-- A registered attribute. -/
structure Registration where
  path : String
  targets : List Target
  /-- The only module it applies to, if any. -/
  module : Option ModuleId := none
  callback : Callback

/-- All registrations, in order. -/
structure AttributeTable where
  registrations : List Registration := []

namespace AttributeTable

def register (t : AttributeTable) (r : Registration) : AttributeTable :=
  ⟨t.registrations ++ [r]⟩

def size (t : AttributeTable) : Nat := t.registrations.length

/-- Some registration has this path. -/
def isKnown (t : AttributeTable) (path : String) : Bool := t.registrations.any (·.path == path)

/-- The registration for a path on a kind of declaration in a module, with its number. -/
def find? (t : AttributeTable) (path : String) (target : Target) (module : ModuleId) :
    Option (Registration × Nat) :=
  let applicable := t.registrations.zipIdx.filter fun (r, _) =>
    r.path == path && r.targets.contains target
  (applicable.find? (·.1.module == some module)).orElse fun _ =>
    applicable.find? (·.1.module.isNone)

end AttributeTable

end SemanticAnalysis
