import SemanticAnalysis.Interchange.Document
import SemanticAnalysis.Options
import SemanticAnalysis.Attribute
import SemanticAnalysis.Ty.Layers
import SemanticAnalysis.Ty.Printer

/-!
# Types and words in documents

A type comes in as a keyword or as a record of its kind and layers, and goes out as its exact text.
The small closed sets (visibilities, operators, attribute targets) are words.
-/

namespace SemanticAnalysis

/-! ## Words -/

/-- The word for a unary operator; the operators that share a symbol say when they act. -/
def UnaryOp.word : UnaryOp → String
  | preIncrement => "pre++"
  | preDecrement => "pre--"
  | postIncrement => "post++"
  | postDecrement => "post--"
  | op => op.symbol

/-- The word for an operator that classes overload. -/
def Operator.word : Operator → String
  | binary op => "bin:" ++ op.symbol
  | unary op => "un:" ++ op.word
  | op => op.symbol

def Target.word : Target → String
  | var => "variable"
  | fn => "function"
  | cls => "class"
  | field => "field"

def AccessorKind.word : AccessorKind → String
  | get => "Get"
  | set => "Set"

namespace Document

/-- The first of some values that goes by a word. -/
def named {α : Type} (all : List α) (word : α → String) (s : String) : Reading α :=
  match all.find? (word · == s) with
  | some a => return a
  | none => throw ("unknown word " ++ s)

def binaryOp : String → Reading BinaryOp := named BinaryOp.all BinaryOp.symbol

def unaryOp : String → Reading UnaryOp := named UnaryOp.all UnaryOp.word

def operator : String → Reading Operator := named Operator.all Operator.word

def target : String → Reading Target := named Target.all Target.word

/-- Targets by their words; one word stands for all. -/
def targets (d : Document) (name : String) : Reading (List Target) := do
  let words ← d.each name asText
  return (← words.mapM fun w =>
    if w == "all" then return Target.all else return [← target w]).flatten

/-- The side on which an overloading class stands. -/
def side (d : Document) : Side := if d.flag "right" then .right else .left

def visibility (d : Document) : Reading Visibility := do
  match ← d.str? "vis" with
  | none => return .everyone
  | some s => named Visibility.all Visibility.keyword s

/-- The options of an analysis; what is missing keeps its default. -/
def options (d : Document) : Reading Options := do
  let base : Options := {}
  match d.field? "options" with
  | none => return base
  | some o =>
    return { base with
      conversionDepth := (← o.nat? "depth").getD base.conversionDepth
      ambiguity := if (← o.str "ambiguity") == "first" then .firstDeclared else base.ambiguity
      collectErrors := o.flag "collect"
      copyConstructors := (o.flag? "copy").getD base.copyConstructors }

/-! ## Types -/

/-- The modifier layers of a type. -/
def layers (d : Document) (name : String) : Reading (List Modifier) :=
  d.each name fun m => return .ofBits (← m.asNat)

/-- A parameter, with its type read by `type`. -/
def parameterWith (type : Document → Reading Ty) (d : Document) : Reading (Parameter Ty) := do
  return { name := ← d.str "name", ty := ← type (← d.require "ty"), variadic := d.flag "var",
           id := ← d.word "id" }

/-- A signature, with its types read by `type`; nothing is returned when nothing is said. -/
def signatureWith (type : Document → Reading Ty) (d : Document) : Reading (Signature Ty) := do
  let result ← (d.field? "ret").mapM type
  return ⟨← d.each "ps" (parameterWith type), result.getD .void⟩

/-- The kind of a type, with the types inside read by `type`. -/
def kindWith (type : Document → Reading Ty) (d : Document) (word : String) :
    Reading (Kind Ty) := do
  match word with
  | "any" => return .any
  | "class" => return .cls (← d.item "id")
  | "fn" => return .function (← signatureWith type d)
  | "opt" => return .optional (← type (← d.require "in"))
  | "rawunion" => return .union (← d.each "of" type)
  | _ => return .native (← named Native.all Native.keyword word)

/-- A type that nests at most `depth` deep. -/
def readType : (depth : Nat) → Document → Reading Ty
  | _, text "any" => return .any
  | _, text "null" => return .null
  | _, text word => return .native (← named Native.all Native.keyword word)
  | 0, _ => throw "type nests too deep"
  | depth + 1, d => do
    let around ← d.layers "m"
    match ← d.str "k" with
    | "union" => return around.foldl Ty.withLayer (.union (← d.each "of" (readType depth)))
    | word => return .make (← kindWith (readType depth) d word) around

/-- A type. -/
def asType (d : Document) : Reading Ty := readType d.size d

/-- A type; anything when it is missing. -/
def type (d : Document) (name : String) : Reading Ty :=
  match d.field? name with
  | some t => t.asType
  | none => return .any

def types (d : Document) (name : String) : Reading (List Ty) := d.each name asType

def signature (d : Document) : Reading (Signature Ty) := signatureWith asType d

def ofType (t : Ty) : Document := text t.exactText

def ofType? (t : Option Ty) : Document := ofOption ofType t

def ofTypes (ts : List Ty) : Document := ofList ofType ts

end Document

end SemanticAnalysis
