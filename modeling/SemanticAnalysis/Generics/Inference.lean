import SemanticAnalysis.Ty.Layers

/-!
# Inference of generic arguments

A generic parameter takes its type from the first argument whose parameter is written as just the
name of the generic parameter.
-/

namespace SemanticAnalysis

/-- An argument type with the bare type name its parameter is written as, if it is one. -/
structure WrittenArgument where
  written : Option String
  ty : Ty
deriving Inhabited

/-- The type of one generic parameter. -/
def inferOne (arguments : List WrittenArgument) (generic : String) : Option Ty :=
  (arguments.find? (·.written == some generic)).map (·.ty.inferred)

/-- The types of all generic parameters, or the index of the first one that no argument decides. -/
def inferGenerics (generics : List String) (arguments : List WrittenArgument) :
    Except Nat (List Ty) :=
  go 0 generics
where
  go (index : Nat) : List String → Except Nat (List Ty)
    | [] => .ok []
    | g :: rest =>
      match inferOne arguments g with
      | none => .error index
      | some ty =>
        match go (index + 1) rest with
        | .ok tys => .ok (ty :: tys)
        | .error i => .error i

end SemanticAnalysis
