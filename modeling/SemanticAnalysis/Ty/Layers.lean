import SemanticAnalysis.Ty.Basic

/-!
# Modifier layers of a type

Questions about the layer stack of a type (levels, constness, the outermost layer) and the
operations that add or remove layers. `Ty.Normal` says that no layer of the stack is empty.
-/

namespace SemanticAnalysis.Ty

variable (t : Ty)

/-- No layer of the stack is without a flag. -/
def Normal : Prop := ∀ m ∈ t.layers, m.isEmpty = false

instance : Decidable t.Normal := inferInstanceAs (Decidable (∀ m ∈ t.layers, m.isEmpty = false))

theorem normal_make (kind : Kind Ty) (layers : List Modifier) : (make kind layers).Normal := by
  intro m hm
  simpa [make] using (List.mem_filter.1 hm).2

/-! ## Questions -/

/-- The innermost layer when it is no indirection: the qualifiers of the base. -/
def baseLayer : Modifier :=
  match t.layers with
  | m :: _ => if m.isIndirection then .empty else m
  | [] => .empty

/-- Sign and width qualifiers of the base. -/
def nativeQualifiers : Modifier := t.baseLayer.nativeQualifiers

/-- The last layer, empty when there is none. -/
def outermost : Modifier := t.layers.getLast?.getD .empty

def indirectionLevel : Nat := t.layers.countP (·.isIndirection)

def referenceLevel : Nat := t.layers.countP (·.reference)

def pointerLevel : Nat := t.layers.countP (·.pointer)

def isConstant : Bool := t.outermost.constant

def isReference : Bool := t.outermost.reference

def isPointer : Bool := t.outermost.pointer

/-- Constness of the base value, then of each indirection outward. -/
def constnessByLevel : List Bool :=
  t.baseLayer.constant :: (t.layers.filter (·.isIndirection)).map (·.constant)

/-- A value: no pointer or reference around it. -/
def isValue : Bool := t.indirectionLevel == 0

def isVoid : Bool := t.native? == some .void && t.isValue

/-- A native value other than `void`. -/
def isArithmetic : Bool := t.isValue && t.native?.any (·.isArithmetic)

/-- The class of a class value. -/
def valueClass? : Option ItemId := if t.isValue then t.classId? else none

/-! ## Operations -/

/-- Add an outermost layer unless it is empty. -/
def withLayer (m : Modifier) : Ty := if m.isEmpty then t else ⟨t.kind, t.layers ++ [m]⟩

/-- Without the outermost layer. -/
def popLayer : Ty := ⟨t.kind, t.layers.dropLast⟩

/-- Change the outermost layer, if there is one. -/
def mapOutermost (f : Modifier → Modifier) : List Modifier → List Modifier
  | [] => []
  | [m] => [f m]
  | m :: ms => m :: mapOutermost f ms

/-- Write `layers` around `t`. A first layer without an indirection joins the outermost layer
that `t` already has. -/
def qualified (layers : List Modifier) : Ty :=
  match layers with
  | [] => t
  | first :: rest =>
    if first.isIndirection then layers.foldl withLayer t
    else if t.layers.isEmpty then layers.foldl withLayer t
    else rest.foldl withLayer ⟨t.kind, mapOutermost (·.join first) t.layers⟩

/-- Drop `const` from the outermost layer. -/
def deconstify : Ty := make t.kind (mapOutermost (·.withoutConstant) t.layers)

/-- Make the outermost level `const`. -/
def constify : Ty :=
  if t.layers.isEmpty then make t.kind [{ constant := true }]
  else make t.kind (mapOutermost (·.withConstant) t.layers)

/-- A reference to `t`. -/
def reference : Ty := t.withLayer { reference := true }

/-- What an outermost reference refers to. -/
def dereference? : Option Ty := if t.isReference then some t.popLayer else none

/-- A pointer to `t`. -/
def point : Ty := t.withLayer { pointer := true }

/-- What an outermost pointer points to. -/
def follow? : Option Ty := if t.isPointer then some t.popLayer else none

/-- What an outermost indirection of either sort leads to; other types stay as they are. -/
def followBlindly : Ty := if t.outermost.isIndirection then t.popLayer else t

/-- Remove every reference: a plain reference layer goes, a pointer layer loses the flag. -/
def destroyReferences : Ty :=
  make t.kind <| t.layers.filterMap fun m =>
    if m.reference && !m.pointer then none else some { m with reference := false }

/-- The type of the value read through the outermost references. -/
def withoutOuterReferences : Ty :=
  ⟨t.kind, (t.layers.reverse.dropWhile (·.reference)).reverse⟩

/-- The value read through outer references is `const`. -/
def isConstantValue : Bool := t.withoutOuterReferences.isConstant

/-- The type a variable or generic parameter takes from a value of type `t`: references are read
through, and a `const` of the copied value is dropped. -/
def inferred : Ty :=
  let value := t.withoutOuterReferences
  if value.isValue then value.deconstify else value

end SemanticAnalysis.Ty
