/-!
# Modifier layers

A `Modifier` is the set of flags of one layer around a type: an indirection (pointer or reference),
`const`, and the qualifiers of a native type. Layers are stacked innermost first.
-/

namespace SemanticAnalysis

/-- The flags of one layer. -/
structure Modifier where
  pointer : Bool := false
  reference : Bool := false
  constant : Bool := false
  signed : Bool := false
  unsigned : Bool := false
  short : Bool := false
  long : Bool := false
deriving DecidableEq, Repr, Inhabited

namespace Modifier

/-- No flag at all. -/
def empty : Modifier := {}

/-- Flag values in bit order, lowest first. -/
def flags (m : Modifier) : List Bool :=
  [m.pointer, m.reference, m.constant, m.signed, m.unsigned, m.short, m.long]

/-- The number whose binary digits, lowest first, are `bs`. -/
def numberOf : List Bool → Nat
  | [] => 0
  | b :: bs => b.toNat + 2 * numberOf bs

/-- The flags as a number: pointer 1, reference 2, const 4, signed 8, unsigned 16, short 32, long 64. -/
def bits (m : Modifier) : Nat := numberOf m.flags

/-- The layer with the low seven bits of `n`; higher bits are dropped. -/
def ofBits (n : Nat) : Modifier where
  pointer := n.testBit 0
  reference := n.testBit 1
  constant := n.testBit 2
  signed := n.testBit 3
  unsigned := n.testBit 4
  short := n.testBit 5
  long := n.testBit 6

/-- No flag is set. -/
def isEmpty (m : Modifier) : Bool := m == empty

/-- The layer adds a pointer or a reference. -/
def isIndirection (m : Modifier) : Bool := m.pointer || m.reference

/-- All flags of either layer. -/
def join (a b : Modifier) : Modifier where
  pointer := a.pointer || b.pointer
  reference := a.reference || b.reference
  constant := a.constant || b.constant
  signed := a.signed || b.signed
  unsigned := a.unsigned || b.unsigned
  short := a.short || b.short
  long := a.long || b.long

/-- Only the qualifiers of native types. -/
def nativeQualifiers (m : Modifier) : Modifier :=
  { m with pointer := false, reference := false, constant := false }

def withConstant (m : Modifier) : Modifier := { m with constant := true }

def withoutConstant (m : Modifier) : Modifier := { m with constant := false }

theorem ofBits_bits (m : Modifier) : ofBits m.bits = m := by
  rcases m with ⟨a, b, c, d, e, f, g⟩
  revert a b c d e f g
  decide

end Modifier

end SemanticAnalysis
