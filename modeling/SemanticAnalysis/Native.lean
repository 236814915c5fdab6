import SemanticAnalysis.Modifier

/-!
# Native types

The six built-in types, their keywords and numbers, and the rank by which mixed arithmetic picks
the wider operand.
-/

namespace SemanticAnalysis

/-- A built-in type. -/
inductive Native where
  | int
  | byte
  | bool
  | void
  | float
  | double
deriving DecidableEq, Repr, Inhabited

namespace Native

/-- All native types in the order of their numbers. -/
def all : List Native := [int, byte, bool, void, float, double]

def keyword : Native → String
  | int => "int"
  | byte => "byte"
  | bool => "bool"
  | void => "void"
  | float => "float"
  | double => "double"

def ofKeyword? (word : String) : Option Native := all.find? (·.keyword == word)

/-- The number a native type has in the byte code of types. -/
def number : Native → Nat
  | int => 0
  | byte => 1
  | bool => 2
  | void => 3
  | float => 4
  | double => 5

def ofNumber? (n : Nat) : Option Native := all.find? (·.number == n)

def isFloating : Native → Bool
  | float | double => true
  | _ => false

def isIntegral : Native → Bool
  | int | byte => true
  | _ => false

def isArithmetic (n : Native) : Bool := n != void

/-- Width order of arithmetic. `short` is looked at before `long`. -/
def rank (n : Native) (qualifiers : Modifier) : Nat :=
  match n with
  | void => 0
  | bool => 1
  | byte => 2
  | int => if qualifiers.short then 3 else if qualifiers.long then 5 else 4
  | float => 6
  | double => 7

end Native

end SemanticAnalysis
