import SemanticAnalysis.SymbolTable.Basic

/-!
# Arguments and parameters

`bindArguments` says which arguments of a call go to which parameter: named arguments first, then
the positional ones into the free fixed parameters from left to right, and what is left into a
trailing variadic parameter.
-/

namespace SemanticAnalysis

/-- One possible type of an argument, with the item that gives it that type. -/
structure ArgumentOption where
  ty : Ty
  item : Option ItemId := none
deriving Inhabited

/-- An argument of a call. The name of an overloaded function still has several options. -/
structure CallArgument where
  name : Option String := none
  options : List ArgumentOption
deriving Inhabited

/-- A positional argument of known type. -/
def CallArgument.typed (ty : Ty) : CallArgument := { options := [{ ty }] }

/-- A signature that might take a call. -/
structure Candidate where
  item : Option ItemId
  signature : Signature Ty
deriving Inhabited

/-- The candidate that a function item is. -/
def Candidate.ofFunction? (table : SymbolTable) (i : ItemId) : Option Candidate :=
  (table.function? i).map fun f => ⟨some i, f.signature⟩

/-- The arguments bound to one parameter, by index. -/
inductive Binding where
  | single (argument : Nat)
  | variadic (arguments : List Nat)
deriving DecidableEq, Repr, Inhabited

def Binding.arguments : Binding → List Nat
  | single a => [a]
  | variadic as => as

/-- Put each named argument into the slot of its parameter. Fails for an unknown name, a variadic
parameter and a slot that is taken. -/
def bindNamed (s : Signature Ty) (slots : List (Option Nat)) :
    List (CallArgument × Nat) → Option (List (Option Nat))
  | [] => some slots
  | (argument, index) :: rest =>
    match argument.name with
    | none => bindNamed s slots rest
    | some name =>
      match s.indexOf? name with
      | none => none
      | some p =>
        match slots[p]? with
        | some none => bindNamed s (slots.set p (some index)) rest
        | _ => none

/-- Put positional arguments into the free slots from left to right; gives the slots and the
arguments left over. -/
def fillSlots : List (Option Nat) → List Nat → List (Option Nat) × List Nat
  | [], rest => ([], rest)
  | some a :: slots, rest =>
    let (filled, surplus) := fillSlots slots rest
    (some a :: filled, surplus)
  | none :: slots, [] => (none :: slots, [])
  | none :: slots, a :: rest =>
    let (filled, surplus) := fillSlots slots rest
    (some a :: filled, surplus)

/-- Bind the arguments of a call to the parameters of a signature, one binding a parameter. -/
def bindArguments (s : Signature Ty) (arguments : List CallArgument) : Option (List Binding) :=
  let numbered := arguments.zipIdx
  let positional := (numbered.filter (·.1.name.isNone)).map (·.2)
  match bindNamed s (List.replicate s.fixedArity none) numbered with
  | none => none
  | some slots =>
    let (filled, surplus) := fillSlots slots positional
    if !s.isVariadic && !surplus.isEmpty then none
    else
      match filled.mapM id with
      | none => none
      | some singles =>
        some (singles.map .single ++ if s.isVariadic then [.variadic surplus] else [])

/-- The parameter of an argument; zero for an argument that is not bound. -/
def parameterOf (bindings : List Binding) (argument : Nat) : Nat :=
  (bindings.findIdx? (·.arguments.contains argument)).getD 0

end SemanticAnalysis
