import SemanticAnalysis.Ids
import SemanticAnalysis.Native

/-!
# Types

A `Ty` is a kind with the modifier layers around it, innermost first. Two types count as the same
(`==`) when they differ at most in the names and ids of parameters inside function types;
`Ty.erase` blanks those, and `Ty.beq_iff` says that `==` is equality after erasing.
-/

namespace SemanticAnalysis

/-- A parameter of a signature over types `τ`. -/
structure Parameter (τ : Type) where
  name : String
  ty : τ
  variadic : Bool := false
  id : Nat := 0
deriving Repr, Inhabited

/-- The parameters and the result of a function. -/
structure Signature (τ : Type) where
  params : List (Parameter τ)
  result : τ
deriving Repr, Inhabited

/-- The kinds of types. -/
inductive Kind (τ : Type) where
  | any
  | native (n : Native)
  | cls (id : ItemId)
  | function (sig : Signature τ)
  | union (members : List τ)
  | optional (inner : τ)
deriving Repr, Inhabited

/-- A type: a kind inside modifier layers, innermost first. -/
structure Ty where
  kind : Kind Ty
  layers : List Modifier
deriving Repr

/-! ## Sameness -/

mutual

/-- Equal up to names and ids of signature parameters. -/
def Ty.same : Ty → Ty → Bool
  | ⟨k, l⟩, ⟨k', l'⟩ => sameKind k k' && l == l'

def Ty.sameKind : Kind Ty → Kind Ty → Bool
  | .any, .any => true
  | .native n, .native n' => n == n'
  | .cls i, .cls i' => i == i'
  | .function s, .function s' => sameSignature s s'
  | .union ts, .union ts' => sameList ts ts'
  | .optional t, .optional t' => same t t'
  | _, _ => false

def Ty.sameSignature : Signature Ty → Signature Ty → Bool
  | ⟨ps, r⟩, ⟨ps', r'⟩ => sameParams ps ps' && same r r'

def Ty.sameList : List Ty → List Ty → Bool
  | [], [] => true
  | t :: ts, t' :: ts' => same t t' && sameList ts ts'
  | _, _ => false

def Ty.sameParams : List (Parameter Ty) → List (Parameter Ty) → Bool
  | [], [] => true
  | p :: ps, p' :: ps' => sameParam p p' && sameParams ps ps'
  | _, _ => false

def Ty.sameParam : Parameter Ty → Parameter Ty → Bool
  | ⟨_, t, v, _⟩, ⟨_, t', v', _⟩ => v == v' && same t t'

end

instance : BEq Ty := ⟨Ty.same⟩

instance : BEq (Parameter Ty) := ⟨Ty.sameParam⟩

mutual

/-- The type with every parameter name and id blanked. -/
def Ty.erase : Ty → Ty
  | ⟨k, l⟩ => ⟨eraseKind k, l⟩

def Ty.eraseKind : Kind Ty → Kind Ty
  | .any => .any
  | .native n => .native n
  | .cls i => .cls i
  | .function s => .function (eraseSignature s)
  | .union ts => .union (eraseList ts)
  | .optional t => .optional (erase t)

def Ty.eraseSignature : Signature Ty → Signature Ty
  | ⟨ps, r⟩ => ⟨eraseParams ps, erase r⟩

def Ty.eraseList : List Ty → List Ty
  | [] => []
  | t :: ts => erase t :: eraseList ts

def Ty.eraseParams : List (Parameter Ty) → List (Parameter Ty)
  | [] => []
  | p :: ps => eraseParam p :: eraseParams ps

def Ty.eraseParam : Parameter Ty → Parameter Ty
  | ⟨_, t, v, _⟩ => ⟨"", erase t, v, 0⟩

end

mutual

theorem Ty.same_iff : ∀ a b : Ty, Ty.same a b = true ↔ a.erase = b.erase
  | ⟨k, l⟩, ⟨k', l'⟩ => by
    simp [Ty.same, Ty.erase, Ty.sameKind_iff k k']

theorem Ty.sameKind_iff : ∀ a b : Kind Ty, Ty.sameKind a b = true ↔ Ty.eraseKind a = Ty.eraseKind b
  | .any, b => by cases b <;> simp [Ty.sameKind, Ty.eraseKind]
  | .native n, b => by cases b <;> simp [Ty.sameKind, Ty.eraseKind]
  | .cls i, b => by cases b <;> simp [Ty.sameKind, Ty.eraseKind]
  | .function s, b => by
    cases b with
    | function s' => simp [Ty.sameKind, Ty.eraseKind, Ty.sameSignature_iff s s']
    | _ => simp [Ty.sameKind, Ty.eraseKind]
  | .union ts, b => by
    cases b with
    | union ts' => simp [Ty.sameKind, Ty.eraseKind, Ty.sameList_iff ts ts']
    | _ => simp [Ty.sameKind, Ty.eraseKind]
  | .optional t, b => by
    cases b with
    | optional t' => simp [Ty.sameKind, Ty.eraseKind, Ty.same_iff t t']
    | _ => simp [Ty.sameKind, Ty.eraseKind]

theorem Ty.sameSignature_iff : ∀ a b : Signature Ty,
    Ty.sameSignature a b = true ↔ Ty.eraseSignature a = Ty.eraseSignature b
  | ⟨ps, r⟩, ⟨ps', r'⟩ => by
    simp [Ty.sameSignature, Ty.eraseSignature, Ty.sameParams_iff ps ps', Ty.same_iff r r']

theorem Ty.sameList_iff : ∀ a b : List Ty, Ty.sameList a b = true ↔ Ty.eraseList a = Ty.eraseList b
  | [], b => by cases b <;> simp [Ty.sameList, Ty.eraseList]
  | t :: ts, b => by
    cases b with
    | nil => simp [Ty.sameList, Ty.eraseList]
    | cons t' ts' => simp [Ty.sameList, Ty.eraseList, Ty.same_iff t t', Ty.sameList_iff ts ts']

theorem Ty.sameParams_iff : ∀ a b : List (Parameter Ty),
    Ty.sameParams a b = true ↔ Ty.eraseParams a = Ty.eraseParams b
  | [], b => by cases b <;> simp [Ty.sameParams, Ty.eraseParams]
  | p :: ps, b => by
    cases b with
    | nil => simp [Ty.sameParams, Ty.eraseParams]
    | cons p' ps' =>
      simp [Ty.sameParams, Ty.eraseParams, Ty.sameParam_iff p p', Ty.sameParams_iff ps ps']

theorem Ty.sameParam_iff : ∀ a b : Parameter Ty,
    Ty.sameParam a b = true ↔ Ty.eraseParam a = Ty.eraseParam b
  | ⟨_, t, v, _⟩, ⟨_, t', v', _⟩ => by
    simp [Ty.sameParam, Ty.eraseParam, Ty.same_iff t t', and_comm]

end

namespace Ty

/-- Sameness is equality after blanking parameter names and ids. -/
theorem beq_iff (a b : Ty) : (a == b) = true ↔ a.erase = b.erase := same_iff a b

@[simp] theorem beq_self (a : Ty) : (a == a) = true := (beq_iff a a).2 rfl

theorem beq_comm (a b : Ty) : (a == b) = (b == a) := by
  rw [Bool.eq_iff_iff, beq_iff, beq_iff]; exact eq_comm

theorem beq_trans {a b c : Ty} (h : (a == b) = true) (h' : (b == c) = true) : (a == c) = true :=
  (beq_iff a c).2 (((beq_iff a b).1 h).trans ((beq_iff b c).1 h'))

instance : EquivBEq Ty where
  rfl := beq_self _
  symm h := by rw [beq_comm]; exact h
  trans := beq_trans

/-! ## Construction -/

/-- A type from a kind and layers; layers without a flag are dropped. -/
def make (kind : Kind Ty) (layers : List Modifier) : Ty :=
  ⟨kind, layers.filter fun m => !m.isEmpty⟩

/-- A kind without layers. -/
def bare (kind : Kind Ty) : Ty := ⟨kind, []⟩

def any : Ty := bare .any

/-- The type of `null`: a pointer to anything. -/
def null : Ty := ⟨.any, [{ pointer := true }]⟩

def native (n : Native) : Ty := bare (.native n)

def int : Ty := native .int

def bool : Ty := native .bool

def void : Ty := native .void

def cls (id : ItemId) : Ty := bare (.cls id)

def function (sig : Signature Ty) : Ty := bare (.function sig)

def optional (inner : Ty) : Ty := bare (.optional inner)

instance : Inhabited Ty := ⟨any⟩

/-- Keep the first of each group of same types, in order. -/
def distinct (ts : List Ty) : List Ty :=
  ts.foldl (fun kept t => if kept.contains t then kept else kept ++ [t]) []

/-- A member as a union takes it up: an unmodified union gives its own members. -/
def spread (t : Ty) : List Ty :=
  match t with
  | ⟨.union members, []⟩ => members
  | _ => [t]

/-- The union of `ts`: unmodified unions are spread, repeated members dropped, and a single
member stands for itself. -/
def union (ts : List Ty) : Ty :=
  match distinct (ts.flatMap spread) with
  | [t] => t
  | members => bare (.union members)

/-! ## Kind -/

def isAny (t : Ty) : Bool :=
  match t.kind with
  | .any => true
  | _ => false

/-- `any` without layers: fits everything. -/
def isWildcard (t : Ty) : Bool := t.isAny && t.layers.isEmpty

def isNull (t : Ty) : Bool := t.isAny && t.layers == [{ pointer := true }]

def native? (t : Ty) : Option Native :=
  match t.kind with
  | .native n => some n
  | _ => none

def classId? (t : Ty) : Option ItemId :=
  match t.kind with
  | .cls id => some id
  | _ => none

def signature? (t : Ty) : Option (Signature Ty) :=
  match t.kind with
  | .function sig => some sig
  | _ => none

def members? (t : Ty) : Option (List Ty) :=
  match t.kind with
  | .union members => some members
  | _ => none

def inner? (t : Ty) : Option Ty :=
  match t.kind with
  | .optional inner => some inner
  | _ => none

end Ty

/-! ## Signatures -/

namespace Signature

variable (s : Signature Ty)

/-- Only a last parameter makes a signature variadic. -/
def isVariadic : Bool :=
  match s.params.getLast? with
  | some p => p.variadic
  | none => false

/-- The number of parameters that take exactly one argument each. -/
def fixedArity : Nat := if s.isVariadic then s.params.length - 1 else s.params.length

/-- Whether `n` arguments can be bound at all. -/
def accepts (n : Nat) : Bool := if s.isVariadic then s.fixedArity ≤ n else n == s.fixedArity

/-- The index of the first parameter with this name. -/
def indexOf? (name : String) : Option Nat := s.params.findIdx? (·.name == name)

end Signature

end SemanticAnalysis
