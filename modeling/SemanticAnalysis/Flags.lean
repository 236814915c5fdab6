import SemanticAnalysis.Modifier

/-!
# Declaration flags

The flags a class or function is declared with, and the numbers they are written as.
-/

namespace SemanticAnalysis

/-- The flags of a class. -/
structure ClassFlags where
  /-- Plain data: no object of its own to refer to, no member functions. -/
  structural : Bool := false
  /-- Implemented outside the language. -/
  external : Bool := false
  /-- Carries type information at run time. -/
  typed : Bool := false
  /-- Can be made from a literal. -/
  literal : Bool := false
  /-- Exposed to importers. -/
  exported : Bool := false
  /-- Members are bit ranges of one native value. -/
  bitfield : Bool := false
deriving DecidableEq, Repr, Inhabited

namespace ClassFlags

/-- The flags as a number, `structural` lowest. -/
def bits (f : ClassFlags) : Nat :=
  Modifier.numberOf [f.structural, f.external, f.typed, f.literal, f.exported, f.bitfield]

/-- The flags with the low six bits of `n`. -/
def ofBits (n : Nat) : ClassFlags where
  structural := n.testBit 0
  external := n.testBit 1
  typed := n.testBit 2
  literal := n.testBit 3
  exported := n.testBit 4
  bitfield := n.testBit 5

end ClassFlags

/-- The flags of a function. -/
structure FunctionFlags where
  /-- Declared in a class. -/
  method : Bool := false
  /-- Reads or writes a property. -/
  accessor : Bool := false
  construct : Bool := false
  destruct : Bool := false
  /-- The constructor from a value of the same class. -/
  copyConstruct : Bool := false
  lambda : Bool := false
  operator : Bool := false
  generator : Bool := false
  async : Bool := false
  dispatched : Bool := false
  /-- A user conversion. -/
  cast : Bool := false
  /-- Without a body here. -/
  external : Bool := false
  /-- Made by the analysis. -/
  synthesized : Bool := false
deriving DecidableEq, Repr, Inhabited

namespace FunctionFlags

/-- The flags as a number, `method` lowest. -/
def bits (f : FunctionFlags) : Nat :=
  Modifier.numberOf
    [f.method, f.accessor, f.construct, f.destruct, f.copyConstruct, f.lambda, f.operator,
      f.generator, f.async, f.dispatched, f.cast, f.external, f.synthesized]

/-- The flags with the low thirteen bits of `n`. -/
def ofBits (n : Nat) : FunctionFlags where
  method := n.testBit 0
  accessor := n.testBit 1
  construct := n.testBit 2
  destruct := n.testBit 3
  copyConstruct := n.testBit 4
  lambda := n.testBit 5
  operator := n.testBit 6
  generator := n.testBit 7
  async := n.testBit 8
  dispatched := n.testBit 9
  cast := n.testBit 10
  external := n.testBit 11
  synthesized := n.testBit 12

end FunctionFlags

end SemanticAnalysis
