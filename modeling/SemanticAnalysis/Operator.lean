/-!
# Operators

The operators a program can write and a class can overload, with their symbols and the classes of
operators that typing tells apart.
-/

namespace SemanticAnalysis

/-- A binary operator. -/
inductive BinaryOp where
  | add
  | sub
  | mul
  | div
  | mod
  | pow
  | bitAnd
  | bitOr
  | bitXor
  | shiftLeft
  | shiftRight
  | equal
  | notEqual
  | less
  | lessEqual
  | greater
  | greaterEqual
  | logicalAnd
  | logicalOr
deriving DecidableEq, Repr, Inhabited

namespace BinaryOp

def all : List BinaryOp :=
  [add, sub, mul, div, mod, pow, bitAnd, bitOr, bitXor, shiftLeft, shiftRight, equal, notEqual,
    less, lessEqual, greater, greaterEqual, logicalAnd, logicalOr]

def symbol : BinaryOp → String
  | add => "+"
  | sub => "-"
  | mul => "*"
  | div => "/"
  | mod => "%"
  | pow => "**"
  | bitAnd => "&"
  | bitOr => "|"
  | bitXor => "^"
  | shiftLeft => "<<"
  | shiftRight => ">>"
  | equal => "=="
  | notEqual => "!="
  | less => "<"
  | lessEqual => "<="
  | greater => ">"
  | greaterEqual => ">="
  | logicalAnd => "&&"
  | logicalOr => "||"

def ofSymbol? (s : String) : Option BinaryOp := all.find? (·.symbol == s)

def isComparison : BinaryOp → Bool
  | equal | notEqual | less | lessEqual | greater | greaterEqual => true
  | _ => false

def isLogical : BinaryOp → Bool
  | logicalAnd | logicalOr => true
  | _ => false

def isArithmetic (op : BinaryOp) : Bool := !op.isComparison && !op.isLogical

/-- A pointer may be an operand. -/
def isPointerArithmetic : BinaryOp → Bool
  | add | sub => true
  | _ => false

def isBitwise : BinaryOp → Bool
  | bitAnd | bitOr | bitXor | shiftLeft | shiftRight => true
  | _ => false

end BinaryOp

/-- A unary operator. -/
inductive UnaryOp where
  | negate
  | plus
  | not
  | bitNot
  | addressOf
  | dereference
  | preIncrement
  | preDecrement
  | postIncrement
  | postDecrement
deriving DecidableEq, Repr, Inhabited

namespace UnaryOp

def all : List UnaryOp :=
  [negate, plus, not, bitNot, addressOf, dereference, preIncrement, preDecrement, postIncrement,
    postDecrement]

def symbol : UnaryOp → String
  | negate => "-"
  | plus => "+"
  | not => "!"
  | bitNot => "~"
  | addressOf => "&"
  | dereference => "*"
  | preIncrement | postIncrement => "++"
  | preDecrement | postDecrement => "--"

/-- Classes may overload every unary operator but `&` and `*`. -/
def isOverloadable : UnaryOp → Bool
  | addressOf | dereference => false
  | _ => true

def mutatesOperand : UnaryOp → Bool
  | preIncrement | preDecrement | postIncrement | postDecrement => true
  | _ => false

end UnaryOp

/-- An operator a class can overload. -/
inductive Operator where
  | binary (op : BinaryOp)
  | unary (op : UnaryOp)
  | assign
  | index
  | call
deriving DecidableEq, Repr, Inhabited

namespace Operator

def all : List Operator :=
  BinaryOp.all.map binary ++ UnaryOp.all.map unary ++ [assign, index, call]

def symbol : Operator → String
  | binary op => op.symbol
  | unary op => op.symbol
  | assign => "="
  | index => "[]"
  | call => "()"

def isBinary : Operator → Bool
  | binary _ => true
  | _ => false

end Operator

/-- The side of a binary operator on which the overloading class stands. -/
inductive Side where
  | left
  | right
deriving DecidableEq, Repr, Inhabited

end SemanticAnalysis
