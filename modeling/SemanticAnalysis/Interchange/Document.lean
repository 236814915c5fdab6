import SemanticAnalysis.Entity
import SemanticAnalysis.Syntax.Literal

/-!
# Documents

Programs come in and results go out as documents: records, lists and plain values. This module has
the type, the ways to look at a record that comes in, and the ways to make one that goes out.
-/

namespace SemanticAnalysis

/-- Structured data. -/
inductive Document where
  | null
  | bool (b : Bool)
  | int (n : Int)
  | real (x : Binary64)
  | text (s : String)
  | list (items : List Document)
  | record (fields : List (String × Document))
deriving Repr

instance : Inhabited Document := ⟨.null⟩

/-- A reading that may fail with a message. -/
abbrev Reading := Except String

namespace Document

/-! ## Size -/

mutual

/-- The number of values in a document. -/
def size : Document → Nat
  | list items => 1 + sizeItems items
  | record fields => 1 + sizeFields fields
  | _ => 1

def sizeItems : List Document → Nat
  | [] => 0
  | d :: rest => d.size + sizeItems rest

def sizeFields : List (String × Document) → Nat
  | [] => 0
  | f :: rest => sizeField f + sizeFields rest

def sizeField : String × Document → Nat
  | (_, d) => d.size

end

/-! ## Reading -/

/-- A field that is there and not null. -/
def field? (d : Document) (name : String) : Option Document :=
  match d with
  | record fields =>
    match fields.lookup name with
    | some null => none
    | found => found
  | _ => none

/-- A field that has to be there. -/
def require (d : Document) (name : String) : Reading Document :=
  match d.field? name with
  | some v => return v
  | none => throw ("missing field " ++ name)

def asNat : Document → Reading Nat
  | int (.ofNat n) => return n
  | _ => throw "not a number"

def asInt : Document → Reading Int
  | int n => return n
  | _ => throw "not an integer"

def asText : Document → Reading String
  | text s => return s
  | _ => throw "not a text"

def asList : Document → Reading (List Document)
  | list items => return items
  | _ => throw "not a list"

/-- Numbers that identify or place something have 32 bits. -/
def asWord (d : Document) : Reading Nat := return (← d.asNat) % 0x100000000

section

variable (d : Document) (name : String)

def nat? : Reading (Option Nat) := (d.field? name).mapM asNat

/-- A number; zero when it is missing. -/
def nat : Reading Nat := return (← d.nat? name).getD 0

def word? : Reading (Option Nat) := (d.field? name).mapM asWord

/-- A 32-bit number; zero when it is missing. -/
def word : Reading Nat := return (← d.word? name).getD 0

def str? : Reading (Option String) := (d.field? name).mapM asText

/-- A text; empty when it is missing. -/
def str : Reading String := return (← d.str? name).getD ""

def flag? : Option Bool :=
  match d.field? name with
  | some (bool b) => some b
  | _ => none

/-- A truth value; false when it is missing. -/
def flag : Bool := (d.flag? name).getD false

/-- A list; empty when it is missing. -/
def items : Reading (List Document) :=
  match d.field? name with
  | some v => v.asList
  | none => return []

/-- The elements of a list, each read in the same way. -/
def each {α : Type} (read : Document → Reading α) : Reading (List α) := do
  (← d.items name).mapM read

def words : Reading (List Nat) := d.each name asWord

def strs : Reading (List String) := d.each name asText

def item : Reading ItemId := return ⟨← d.word name⟩

def item? : Reading (Option ItemId) := return (← d.word? name).map ItemId.mk

def itemList : Reading (List ItemId) := return (← d.words name).map ItemId.mk

def scope : Reading ScopeId := return ⟨← d.word name⟩

end

/-- A position: line and column, perhaps with offset and file. -/
def asPosition (d : Document) : Reading Position := do
  match ← (← d.asList).mapM asWord with
  | [line, column] => return { line, column }
  | [line, column, offset, file] => return { line, column, offset, file := ⟨file⟩ }
  | _ => throw "not a position"

/-- A position; the default one when it is missing. -/
def position (d : Document) (name : String) : Reading Position :=
  match d.field? name with
  | some v => v.asPosition
  | none => return {}

/-! ## Writing -/

def ofNat (n : Nat) : Document := int n

def ofOption {α : Type} (write : α → Document) : Option α → Document
  | some a => write a
  | none => null

def ofList {α : Type} (write : α → Document) (as : List α) : Document := list (as.map write)

/-- Nothing to say. -/
def isBlank : Document → Bool
  | null => true
  | bool b => !b
  | list items => items.isEmpty
  | _ => false

/-- A record without its blank fields. -/
def sparse (fields : List (String × Document)) : Document :=
  record (fields.filter fun f => !f.2.isBlank)

def ofItem (i : ItemId) : Document := ofNat i.index

def ofItem? (i : Option ItemId) : Document := ofOption ofItem i

def ofItems (is : List ItemId) : Document := ofList ofItem is

def ofScope (s : ScopeId) : Document := ofNat s.index

def ofModule (m : ModuleId) : Document := ofNat m.index

def ofFrame (f : FrameId) : Document := ofNat f.index

/-- A node of the source by its number. -/
def ofNode : NodeId → Document
  | .written n => ofNat n
  | .synthetic _ => null

def ofPosition (p : Position) : Document :=
  list [ofNat p.line, ofNat p.column, ofNat p.offset, ofNat p.file.index]

end Document

end SemanticAnalysis
