import Mathlib.Algebra.Group.Pi.Basic
import Mathlib.Algebra.Order.BigOperators.Group.List
import Mathlib.Algebra.Order.Pi
import Mathlib.Algebra.Order.Ring.Nat
import Mathlib.Data.List.Nodup
import SemanticAnalysis.Analysis.State

/-!
# Nodes and permits

What an analysis enters for a node of a tree, it enters once in each frame. A `Permit` is the right to do
one such thing, a `Holding` says how many permits somebody has. Here is what a tree is worth: a permit of
every sort for each of its nodes (`permits`), split up by the phases that need them. A declaration is
spent in two parts, when it is declared and when its bodies are analysed, and the statements of a module
in four, one for each pass.
-/

namespace SemanticAnalysis

/-! ## The nodes of a tree -/

mutual

/-- The nodes of an expression, with those inside it. -/
def Expr.ids : Expr → List NodeId
  | .literal n _ | .name n .. | .thisRef n | .superRef n | .sizeOfType n _ => [n.id]
  | .member n object .. => n.id :: object.ids
  | .call n callee args => n.id :: (callee.ids ++ Expr.argumentIds args)
  | .new n _ args _ => n.id :: Expr.argumentIds args
  | .binary n _ left right => n.id :: (left.ids ++ right.ids)
  | .unary n _ operand => n.id :: operand.ids
  | .assign n _ target value => n.id :: (target.ids ++ value.ids)
  | .conditional n condition yes no => n.id :: (condition.ids ++ (yes.ids ++ no.ids))
  | .cast n value _ => n.id :: value.ids
  | .index n object index => n.id :: (object.ids ++ index.ids)
  | .lambda n params _ body => n.id :: (Expr.paramIds params ++ Stmt.blockIds body)
  | .await n value => n.id :: value.ids
  | .yield n value => n.id :: Expr.optionIds value

def Expr.optionIds : Option Expr → List NodeId
  | none => []
  | some e => e.ids

def Expr.argumentIds : List (Argument Expr) → List NodeId
  | [] => []
  | a :: rest => Expr.argumentId a ++ Expr.argumentIds rest

def Expr.argumentId : Argument Expr → List NodeId
  | ⟨_, value⟩ => value.ids

def Expr.paramIds : List (Param Expr) → List NodeId
  | [] => []
  | p :: rest => Expr.paramId p ++ Expr.paramIds rest

def Expr.paramId : Param Expr → List NodeId
  | ⟨node, _, _, defaultValue, _⟩ => node.id :: Expr.optionIds defaultValue

/-- The nodes of a statement, with those inside it. Attributes hold none that are analysed. -/
def Stmt.ids : Stmt → List NodeId
  | .expr n e => n.id :: e.ids
  | .declare decl => Stmt.variableIds decl
  | .block b => Stmt.blockIds b
  | .ret n value => n.id :: Expr.optionIds value
  | .ifElse n condition yes no => n.id :: (condition.ids ++ (yes.ids ++ Stmt.optionIds no))
  | .loop n condition body _ => n.id :: (condition.ids ++ body.ids)
  | .forLoop n init condition update body =>
    n.id :: (Stmt.optionIds init ++
      (Expr.optionIds condition ++ (Expr.optionIds update ++ body.ids)))
  | .forEach n _ _ iterable body => n.id :: (iterable.ids ++ body.ids)
  | .leave n | .next n | .importing n _ | .exporting n _ | .aliasing n _ => [n.id]
  | .raise n value | .delete n value _ => n.id :: value.ids
  | .tryCatch n body catches => n.id :: (Stmt.blockIds body ++ Stmt.catchIds catches)
  | .function decl => Stmt.functionIds decl
  | .cls decl => Stmt.classIds decl
  | .space n _ _ body => n.id :: Stmt.rowIds body

def Stmt.optionIds : Option Stmt → List NodeId
  | none => []
  | some s => s.ids

/-- The nodes of some statements. -/
def Stmt.rowIds : List Stmt → List NodeId
  | [] => []
  | s :: rest => s.ids ++ Stmt.rowIds rest

def Stmt.blockIds : Block Stmt → List NodeId
  | ⟨node, statements⟩ => node.id :: Stmt.rowIds statements

def Stmt.bodyIds : Option (Block Stmt) → List NodeId
  | none => []
  | some b => Stmt.blockIds b

def Stmt.variableIds : VariableDecl Expr → List NodeId
  | ⟨node, _, _, initializer, _, _, _, _⟩ => node.id :: Expr.optionIds initializer

def Stmt.catchIds : List (CatchClause Stmt) → List NodeId
  | [] => []
  | c :: rest => Stmt.clauseIds c ++ Stmt.catchIds rest

def Stmt.clauseIds : CatchClause Stmt → List NodeId
  | ⟨node, _, _, body⟩ => node.id :: Stmt.blockIds body

def Stmt.functionIds : FunctionDecl Expr Stmt → List NodeId
  | ⟨node, _, _, _, params, _, _, body, _, _, _⟩ =>
    node.id :: (Expr.paramIds params ++ Stmt.bodyIds body)

def Stmt.fieldIds : FieldDecl Expr → List NodeId
  | ⟨node, _, _, initializer, _, _, _, _⟩ => node.id :: Expr.optionIds initializer

def Stmt.memberIds : List (Member Expr Stmt) → List NodeId
  | [] => []
  | .field f :: rest => Stmt.fieldIds f ++ Stmt.memberIds rest
  | .function f :: rest => Stmt.functionIds f ++ Stmt.memberIds rest

def Stmt.classIds : ClassDecl Expr Stmt → List NodeId
  | ⟨node, _, _, _, members, _, _, _, _⟩ => node.id :: Stmt.memberIds members

end

/-- The nodes of a module tree. -/
def Root.ids (r : Root) : List NodeId := Stmt.rowIds r.statements

/-- The node stands in the source. -/
def NodeId.isWritten : NodeId → Bool
  | .written _ => true
  | .synthetic _ => false

/-- A tree as a reader makes it: no two nodes have the same identity, and none has one of those that the
analysis gives to nodes of its own. -/
def Root.Distinct (r : Root) : Prop := r.ids.Nodup ∧ ∀ n ∈ r.ids, n.isWritten = true

instance (r : Root) : Decidable r.Distinct := inferInstanceAs (Decidable (_ ∧ _))

section

variable {decl : FunctionDef} {field : FieldDecl Expr} {cls : ClassDef}

theorem Stmt.functionIds_eq (decl : FunctionDef) : Stmt.functionIds decl =
    decl.node.id :: (Expr.paramIds decl.params ++ Stmt.bodyIds decl.body) := by
  cases decl
  rw [Stmt.functionIds]

theorem Stmt.fieldIds_eq (field : FieldDecl Expr) : Stmt.fieldIds field =
    field.node.id :: Expr.optionIds field.initializer := by
  cases field
  rw [Stmt.fieldIds]

theorem Stmt.variableIds_eq (decl : VariableDecl Expr) : Stmt.variableIds decl =
    decl.node.id :: Expr.optionIds decl.initializer := by
  cases decl
  rw [Stmt.variableIds]

theorem Stmt.classIds_eq (decl : ClassDef) : Stmt.classIds decl =
    decl.node.id :: Stmt.memberIds decl.members := by
  cases decl
  rw [Stmt.classIds]

theorem Stmt.blockIds_eq (b : Block Stmt) : Stmt.blockIds b =
    b.node.id :: Stmt.rowIds b.statements := by
  cases b
  rw [Stmt.blockIds]

theorem Stmt.clauseIds_eq (c : CatchClause Stmt) : Stmt.clauseIds c =
    c.node.id :: Stmt.blockIds c.body := by
  cases c
  rw [Stmt.clauseIds]

end

/-! ## Permits -/

/-- What happens at most once for a node in a frame. -/
inductive Entry where
  /-- The detail of the node is recorded. -/
  | detail
  /-- An item is declared for the node. -/
  | declare
  /-- The item declared for the node is no template. -/
  | ordinary
  /-- A class is made for the node. -/
  | create
  /-- The bodies of the class declared at the node are analysed. -/
  | bodies
  /-- The bodies of the member functions made for that class are analysed. -/
  | made
deriving DecidableEq

/-- The right to make an entry for a node in a frame. -/
structure Permit where
  key : DetailKey
  entry : Entry
deriving DecidableEq

/-- How many there are of each permit. -/
abbrev Holding := Permit → Nat

/-- Whoever may open the bodies or the made members of a class at a node may also create the class and
declare it. -/
structure Holding.Whole (h : Holding) : Prop where
  create : ∀ k, h ⟨k, .bodies⟩ ≠ 0 ∨ h ⟨k, .made⟩ ≠ 0 → h ⟨k, .create⟩ ≠ 0
  declare : ∀ k, h ⟨k, .bodies⟩ ≠ 0 → h ⟨k, .declare⟩ ≠ 0

/-- One permit. -/
def DetailKey.permit (k : DetailKey) (e : Entry) : Holding := fun p => if p = ⟨k, e⟩ then 1 else 0

/-- What the declaration of an item that is no class takes: whoever has it knows that no class was made
and none will be. -/
def DetailKey.declaring (k : DetailKey) : Holding :=
  k.permit .declare + k.permit .ordinary + k.permit .create + k.permit .bodies

/-- What the analysis of the bodies of a class takes, apart from what the bodies themselves take. -/
def DetailKey.opening (k : DetailKey) : Holding := k.permit .bodies + k.permit .made

/-- All permits of a node in a frame. -/
def DetailKey.all (k : DetailKey) : Holding := k.declaring + k.permit .detail + k.permit .made

/-- All permits of some nodes in a frame. -/
def permits (f : FrameId) (ids : List NodeId) : Holding := fun p =>
  if p.key.frame = f then ids.count p.key.node else 0

namespace Holding.Whole

variable {h h' : Holding}

theorem zero : Holding.Whole 0 := ⟨fun _ h => h.elim id id, fun _ h => h⟩

theorem add (hh : h.Whole) (hh' : h'.Whole) : (h + h').Whole where
  create k hk := by
    have hcreate := hh.create k
    have hcreate' := hh'.create k
    simp only [Pi.add_apply] at *
    omega
  declare k hk := by
    have hdeclare := hh.declare k
    have hdeclare' := hh'.declare k
    simp only [Pi.add_apply] at *
    omega

theorem sum {α : Type} {xs : List α} {f : α → Holding} (hf : ∀ x ∈ xs, (f x).Whole) :
    (xs.map f).sum.Whole := by
  induction xs with
  | nil => exact zero
  | cons x rest ih =>
    rw [List.map_cons, List.sum_cons]
    exact (hf x List.mem_cons_self).add (ih fun y hy => hf y (List.mem_cons_of_mem _ hy))

theorem detail (k : DetailKey) : (k.permit .detail).Whole := by
  constructor <;> simp [DetailKey.permit]

theorem ordinary (k : DetailKey) : (k.permit .ordinary).Whole := by
  constructor <;> simp [DetailKey.permit]

theorem declaring (k : DetailKey) : k.declaring.Whole := by
  constructor <;> simp [DetailKey.declaring, DetailKey.permit]

end Holding.Whole

section Permits

variable {f : FrameId} {n : NodeId} {ids ids' : List NodeId}

theorem DetailKey.permit_apply (k : DetailKey) (e : Entry) (p : Permit) :
    k.permit e p = if p = ⟨k, e⟩ then 1 else 0 := rfl

@[simp] theorem permits_nil : permits f [] = 0 := by
  funext p
  simp [permits]

theorem permits_append (f : FrameId) (ids ids' : List NodeId) :
    permits f (ids ++ ids') = permits f ids + permits f ids' := by
  funext p
  unfold permits
  split <;> simp [*, List.count_append]

theorem permits_cons (f : FrameId) (n : NodeId) (ids : List NodeId) :
    permits f (n :: ids) = DetailKey.all ⟨f, n⟩ + permits f ids := by
  have hone : permits f [n] = DetailKey.all ⟨f, n⟩ := by
    funext ⟨⟨f', n'⟩, e⟩
    have hswap : n = n' ↔ n' = n := eq_comm
    by_cases hf : f' = f <;> by_cases hn : n' = n <;> cases e <;>
      simp [permits, DetailKey.all, DetailKey.declaring, DetailKey.permit_apply, hswap, hf, hn]
  rw [← hone, ← permits_append, List.singleton_append]

/-- Of its own permits a node inside a body needs only one. -/
theorem permits_add_detail_le : permits f ids + DetailKey.permit ⟨f, n⟩ .detail ≤ permits f (n :: ids) := by
  intro p
  simp only [permits_cons, DetailKey.all, Pi.add_apply]
  omega

theorem detail_le_permits : DetailKey.permit ⟨f, n⟩ .detail ≤ permits f [n] := by
  have h : permits f [] + DetailKey.permit ⟨f, n⟩ .detail ≤ permits f [n] := permits_add_detail_le
  rwa [permits_nil, zero_add] at h

theorem permits_ne_zero_iff {p : Permit} :
    permits f ids p ≠ 0 ↔ p.key.frame = f ∧ p.key.node ∈ ids := by
  unfold permits
  split <;> simp [*, List.count_eq_zero]

theorem permits_whole (f : FrameId) (ids : List NodeId) : (permits f ids).Whole where
  create _ h := permits_ne_zero_iff.2 (h.elim permits_ne_zero_iff.1 permits_ne_zero_iff.1)
  declare _ h := permits_ne_zero_iff.2 (permits_ne_zero_iff.1 h)

theorem nodup_of_permits_le (h : ∀ n, permits f ids ⟨⟨f, n⟩, .detail⟩ ≤ 1) : ids.Nodup := by
  refine List.nodup_iff_count_le_one.2 fun n => ?_
  simpa [permits] using h n

/-! ### Rows -/

theorem permits_argumentIds (f : FrameId) (args : List (Argument Expr)) :
    permits f (Expr.argumentIds args) = (args.map fun a => permits f a.value.ids).sum := by
  induction args with
  | nil => rw [Expr.argumentIds, permits_nil, List.map_nil, List.sum_nil]
  | cons a rest ih =>
    rw [Expr.argumentIds, permits_append, ih, List.map_cons, List.sum_cons, Expr.argumentId]

theorem permits_rowIds (f : FrameId) (row : List Stmt) :
    permits f (Stmt.rowIds row) = (row.map fun s => permits f s.ids).sum := by
  induction row with
  | nil => rw [Stmt.rowIds, permits_nil, List.map_nil, List.sum_nil]
  | cons s rest ih => rw [Stmt.rowIds, permits_append, ih, List.map_cons, List.sum_cons]

theorem permits_catchIds (f : FrameId) (catches : List (CatchClause Stmt)) :
    permits f (Stmt.catchIds catches) =
      (catches.map fun c => permits f (Stmt.clauseIds c)).sum := by
  induction catches with
  | nil => rw [Stmt.catchIds, permits_nil, List.map_nil, List.sum_nil]
  | cons c rest ih => rw [Stmt.catchIds, permits_append, ih, List.map_cons, List.sum_cons]

/-- Parameters are worth what their declaration and their default values take, and more. -/
theorem permits_paramIds (f : FrameId) (params : List (Param Expr)) :
    (params.map fun p => DetailKey.declaring ⟨f, p.node.id⟩).sum +
      (params.map fun p => permits f (Expr.optionIds p.defaultValue)).sum ≤
        permits f (Expr.paramIds params) := by
  induction params with
  | nil => exact le_of_eq (by simp [Expr.paramIds])
  | cons p rest ih =>
    obtain ⟨node, name, ty, defaultValue, variadic⟩ := p
    intro q
    have hrest := ih q
    simp only [Expr.paramIds, Expr.paramId, List.cons_append, permits_cons, permits_append, DetailKey.all,
      List.map_cons, List.sum_cons, Pi.add_apply] at *
    omega

end Permits

/-! ## Functions -/

namespace FunctionDecl

variable (f : FrameId) (decl : FunctionDef)

/-- What it takes to declare a function with its parameters. -/
def headCost : Holding :=
  DetailKey.declaring ⟨f, decl.node.id⟩ +
    (decl.params.map fun p => DetailKey.declaring ⟨f, p.node.id⟩).sum

/-- What it takes to analyse the default values and the body of a function. -/
def bodyCost : Holding :=
  DetailKey.permit ⟨f, decl.node.id⟩ .detail +
    (decl.params.map fun p => permits f (Expr.optionIds p.defaultValue)).sum +
    permits f (Stmt.bodyIds decl.body)

theorem headCost_add_bodyCost_le :
    decl.headCost f + decl.bodyCost f ≤ permits f (Stmt.functionIds decl) := by
  intro p
  have hparams := permits_paramIds f decl.params p
  rw [Stmt.functionIds_eq]
  simp only [headCost, bodyCost, permits_cons, permits_append, DetailKey.all, Pi.add_apply] at *
  omega

/-- What it takes to declare a function, which may be generic. A template may have everything but the
right to be an ordinary item. -/
def declareCost : Holding :=
  if decl.isGeneric then
    permits f (Stmt.functionIds decl) - DetailKey.permit ⟨f, decl.node.id⟩ .ordinary
  else decl.headCost f

/-- What is left for the bodies. A template has none, and keeps showing that its item is one. -/
def laterCost : Holding :=
  if decl.isGeneric then DetailKey.permit ⟨f, decl.node.id⟩ .ordinary else decl.bodyCost f

theorem declareCost_add_laterCost_le :
    decl.declareCost f + decl.laterCost f ≤ permits f (Stmt.functionIds decl) := by
  unfold declareCost laterCost
  split
  · intro p
    rw [Stmt.functionIds_eq]
    simp only [permits_cons, DetailKey.all, DetailKey.declaring, Pi.add_apply, Pi.sub_apply]
    omega
  · exact headCost_add_bodyCost_le f decl

theorem bodyCost_whole : (decl.bodyCost f).Whole :=
  ((Holding.Whole.detail _).add (.sum fun _ _ => permits_whole f _)).add (permits_whole f _)

theorem declareCost_whole : (decl.declareCost f).Whole := by
  unfold declareCost headCost
  split
  · -- only the right to be ordinary is missing
    have hwhole := permits_whole f (Stmt.functionIds decl)
    constructor
    · simpa [DetailKey.permit] using hwhole.create
    · simpa [DetailKey.permit] using hwhole.declare
  · exact (Holding.Whole.declaring _).add (.sum fun _ _ => .declaring _)

theorem laterCost_whole : (decl.laterCost f).Whole := by
  unfold laterCost
  split
  · exact .ordinary _
  · exact bodyCost_whole f decl

end FunctionDecl

/-! ## Classes -/

namespace FieldDecl

variable (f : FrameId) (field : FieldDecl Expr)

/-- What it takes to declare a field. Without a written type its initializer is looked at then. -/
def headCost : Holding :=
  DetailKey.declaring ⟨f, field.node.id⟩ +
    if field.ty.isNone then permits f (Expr.optionIds field.initializer) else 0

/-- What is left for the bodies of the class. -/
def bodyCost : Holding :=
  DetailKey.permit ⟨f, field.node.id⟩ .detail +
    if field.ty.isNone then 0 else permits f (Expr.optionIds field.initializer)

theorem headCost_add_bodyCost_le :
    field.headCost f + field.bodyCost f ≤ permits f (Stmt.fieldIds field) := by
  intro p
  rw [Stmt.fieldIds_eq, headCost, bodyCost]
  split <;> simp only [permits_cons, DetailKey.all, Pi.add_apply, Pi.zero_apply] <;> omega

theorem headCost_whole : (field.headCost f).Whole := by
  unfold headCost
  split
  · exact (Holding.Whole.declaring _).add (permits_whole f _)
  · exact (Holding.Whole.declaring _).add .zero

theorem bodyCost_whole : (field.bodyCost f).Whole := by
  unfold bodyCost
  split
  · exact (Holding.Whole.detail _).add .zero
  · exact (Holding.Whole.detail _).add (permits_whole f _)

end FieldDecl

namespace ClassDecl

variable (f : FrameId) (decl : ClassDef)

/-- What it takes to declare the members of a class. -/
def headCost : Holding :=
  (decl.fields.map (·.headCost f)).sum + (decl.functions.map (·.declareCost f)).sum

/-- What the bodies of a class take. -/
def bodyCost : Holding :=
  DetailKey.permit ⟨f, decl.node.id⟩ .detail + (decl.fields.map (·.bodyCost f)).sum +
    (decl.functions.map (·.laterCost f)).sum

/-- What it takes to declare a class: all but the right to have its bodies analysed. Most of it is kept
for the members. -/
def declareCost : Holding :=
  permits f (Stmt.classIds decl) - DetailKey.opening ⟨f, decl.node.id⟩

theorem memberCosts_le :
    (decl.fields.map (·.headCost f)).sum + (decl.functions.map (·.declareCost f)).sum +
      ((decl.fields.map (·.bodyCost f)).sum + (decl.functions.map (·.laterCost f)).sum) ≤
        permits f (Stmt.memberIds decl.members) := by
  obtain ⟨node, name, generics, parents, members, flags, underlying, visibility, attributes⟩ := decl
  unfold ClassDecl.fields ClassDecl.functions
  induction members with
  | nil => exact fun p => Nat.zero_le _
  | cons m rest ih =>
    intro p
    have hrest := ih p
    cases m with
    | field field =>
      have hfield := field.headCost_add_bodyCost_le f p
      simp only [List.filterMap_cons, List.map_cons, List.sum_cons, Stmt.memberIds, permits_append,
        Pi.add_apply] at *
      omega
    | function fn =>
      have hfunction := fn.declareCost_add_laterCost_le f p
      simp only [List.filterMap_cons, List.map_cons, List.sum_cons, Stmt.memberIds, permits_append,
        Pi.add_apply] at *
      omega

/-- The declaration of a class pays for the item and for the members. -/
theorem memberCosts_le_declareCost :
    DetailKey.permit ⟨f, decl.node.id⟩ .declare + DetailKey.permit ⟨f, decl.node.id⟩ .ordinary +
      (DetailKey.permit ⟨f, decl.node.id⟩ .create + (decl.headCost f + decl.bodyCost f)) ≤
        decl.declareCost f := by
  intro p
  have hmembers := memberCosts_le f decl p
  rw [declareCost, Stmt.classIds_eq]
  simp only [headCost, bodyCost, permits_cons, DetailKey.all, DetailKey.declaring, DetailKey.opening,
    Pi.add_apply, Pi.sub_apply] at *
  omega

theorem declareCost_add_opening_le :
    decl.declareCost f + DetailKey.opening ⟨f, decl.node.id⟩ ≤ permits f (Stmt.classIds decl) := by
  intro p
  rw [declareCost, Stmt.classIds_eq]
  simp only [permits_cons, DetailKey.all, DetailKey.declaring, DetailKey.opening, Pi.add_apply,
    Pi.sub_apply]
  omega

theorem headCost_whole : (decl.headCost f).Whole :=
  (Holding.Whole.sum fun field _ => field.headCost_whole f).add
    (.sum fun fn _ => fn.declareCost_whole f)

theorem bodyCost_whole : (decl.bodyCost f).Whole :=
  ((Holding.Whole.detail _).add (.sum fun field _ => field.bodyCost_whole f)).add
    (.sum fun fn _ => fn.laterCost_whole f)

end ClassDecl

/-! ## Statements -/

namespace Stmt

/-- What it takes to analyse a statement. A variable may have been declared before. -/
def cost (f : FrameId) : Stmt → Holding
  | .declare decl => permits f (variableIds decl) - DetailKey.declaring ⟨f, decl.node.id⟩
  | s => permits f s.ids

theorem cost_le (f : FrameId) (s : Stmt) : s.cost f ≤ permits f s.ids := by
  cases s with
  | declare decl => exact fun p => Nat.sub_le _ _
  | _ => exact le_refl _

/-- What a pass over the statements of a module takes for one of them. -/
def passCost (f : FrameId) : Pass → Stmt → Holding
  | .types, .importing n _ => permits f [n.id]
  | .types, .cls decl => decl.declareCost f
  | .types, .space n .. => permits f [n.id]
  | .types, _ => 0
  | .aliases _, .aliasing n _ => permits f [n.id]
  | .aliases _, _ => 0
  | .signatures, .function decl => decl.declareCost f
  | .signatures, .declare decl => DetailKey.declaring ⟨f, decl.node.id⟩
  | .signatures, _ => 0
  | .bodies, .cls decl => DetailKey.opening ⟨f, decl.node.id⟩
  | .bodies, .function decl => decl.laterCost f
  | .bodies, .importing .. => 0
  | .bodies, .aliasing .. => 0
  | .bodies, .space .. => 0
  | .bodies, s => s.cost f

/-- The nodes of a statement without those of the statements inside a namespace. -/
def ownIds : Stmt → List NodeId
  | .space n .. => [n.id]
  | s => s.ids

theorem passCosts_le (f : FrameId) (s : Stmt) :
    s.passCost f .types + s.passCost f (.aliases true) + s.passCost f .signatures +
      s.passCost f .bodies ≤ permits f s.ownIds := by
  intro p
  cases s with
  | declare decl =>
    simp only [ownIds, Stmt.ids, passCost, cost, Stmt.variableIds_eq, permits_cons, DetailKey.all,
      Pi.add_apply, Pi.sub_apply, Pi.zero_apply]
    omega
  | function decl =>
    have h := decl.declareCost_add_laterCost_le f p
    simp only [ownIds, Stmt.ids, passCost, Pi.add_apply, Pi.zero_apply] at *
    omega
  | cls decl =>
    have h := decl.declareCost_add_opening_le f p
    simp only [ownIds, Stmt.ids, passCost, Pi.add_apply, Pi.zero_apply] at *
    omega
  | _ => simp [ownIds, passCost, cost, Stmt.ids]

mutual

/-- A statement with the statements inside it, if it is a namespace. -/
def level : Stmt → List Stmt
  | .space n name visibility body => .space n name visibility body :: levels body
  | s => [s]

/-- Some statements with those inside namespaces. -/
def levels : List Stmt → List Stmt
  | [] => []
  | s :: rest => s.level ++ levels rest

end

mutual

theorem permits_level (f : FrameId) (s : Stmt) :
    permits f s.ids = (s.level.map fun s => permits f s.ownIds).sum := by
  cases s with
  | space n name visibility body =>
    rw [Stmt.ids, level, List.map_cons, List.sum_cons, ← permits_levels f body, ownIds,
      ← permits_append, List.singleton_append]
  | _ => simp [level, ownIds]

theorem permits_levels (f : FrameId) (row : List Stmt) :
    permits f (rowIds row) = ((levels row).map fun s => permits f s.ownIds).sum := by
  cases row with
  | nil => rw [rowIds, permits_nil, levels, List.map_nil, List.sum_nil]
  | cons s rest =>
    rw [rowIds, permits_append, levels, List.map_append, List.sum_append, permits_level f s,
      permits_levels f rest]

end

end Stmt

/-- What a pass over some statements takes. -/
def Pass.cost (p : Pass) (f : FrameId) (row : List Stmt) : Holding :=
  ((Stmt.levels row).map (·.passCost f p)).sum

/-- The nodes of some statements pay for all passes over them. -/
theorem Pass.costs_le (f : FrameId) (row : List Stmt) :
    Pass.types.cost f row + (Pass.aliases true).cost f row + Pass.signatures.cost f row +
      Pass.bodies.cost f row ≤ permits f (Stmt.rowIds row) := by
  unfold Pass.cost
  rw [Stmt.permits_levels, ← List.sum_map_add, ← List.sum_map_add, ← List.sum_map_add]
  exact List.sum_le_sum fun s _ => s.passCosts_le f

end SemanticAnalysis
