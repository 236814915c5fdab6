import SemanticAnalysis.Proofs.Ty.Erasure
import SemanticAnalysis.SymbolTable.Hierarchy

/-!
# The shape of a symbol table

The flow of errors changes what is recorded on scopes and which functions throw, and nothing else.
`SymbolTable.SameShape` says that two tables agree up to this, and all that decides where errors flow
is the same in tables of one shape: the nesting of scopes, their owners, the `try` bodies, the class
hierarchy, and which function a variant belongs to.

`SymbolTable.mayThrow` reads the errors that are recorded, with types that are the same counted as
one.
-/

namespace SemanticAnalysis

/-- A scope without the errors recorded on it. -/
def Scope.shape (s : Scope) : Scope := { s with possibleErrors := [] }

/-- A function without what is known about its errors. -/
def Function.shape (f : Function) : Function := { f with throws := false, beganThrowing := {} }

/-- An item without what is known about its errors. -/
def Item.shape (i : Item) : Item :=
  match i.entity with
  | .fn f => { i with entity := .fn f.shape }
  | _ => i

theorem Item.function?_shape (i : Item) : i.shape.function? = i.function?.map Function.shape := by
  unfold Item.shape Item.function?
  cases h : i.entity <;> simp [h]

theorem Item.class?_shape (i : Item) : i.shape.class? = i.class? := by
  unfold Item.shape Item.class?
  cases h : i.entity <;> simp [h]

namespace SymbolTable

/-- The ancestors of a class, layer by layer, are decided by the parents in the table. -/
theorem ancestorLayers_congr {t u : SymbolTable} (hsize : t.items.size = u.items.size)
    (hparents : t.parentsOf = u.parentsOf) (i : ItemId) :
    t.ancestorLayers i = u.ancestorLayers i := by
  have hlayers : ∀ (bound : Nat) (frontier seen : List ItemId),
      t.layersFrom bound frontier seen = u.layersFrom bound frontier seen := by
    intro bound
    induction bound with
    | zero => exact fun _ _ => rfl
    | succ bound ih =>
      intro frontier seen
      rw [layersFrom, layersFrom, hparents]
      split
      · rfl
      · rw [ih]
  unfold ancestorLayers
  rw [hsize, hlayers]

/-- Two tables that differ in recorded errors only. -/
structure SameShape (t u : SymbolTable) : Prop where
  scopes : ∀ s, (t.scope? s).map Scope.shape = (u.scope? s).map Scope.shape
  items : ∀ i, (t.item? i).map Item.shape = (u.item? i).map Item.shape

namespace SameShape

variable {t u v : SymbolTable}

theorem refl (t : SymbolTable) : t.SameShape t := ⟨fun _ => rfl, fun _ => rfl⟩

theorem symm (h : t.SameShape u) : u.SameShape t :=
  ⟨fun s => (h.scopes s).symm, fun i => (h.items i).symm⟩

theorem trans (h : t.SameShape u) (h' : u.SameShape v) : t.SameShape v :=
  ⟨fun s => (h.scopes s).trans (h'.scopes s), fun i => (h.items i).trans (h'.items i)⟩

/-- What does not look at errors is the same for a scope of either table. -/
theorem scope_map {α : Type} (h : t.SameShape u) {g : Scope → α} (hg : ∀ s, g s.shape = g s)
    (s : ScopeId) : (t.scope? s).map g = (u.scope? s).map g := by
  have hcomp : ∀ o : Option Scope, o.map g = (o.map Scope.shape).map g := by
    intro o
    cases o with
    | none => rfl
    | some sc => simp [hg]
  rw [hcomp, h.scopes s, ← hcomp]

theorem isSome_scope? (h : t.SameShape u) (s : ScopeId) :
    (t.scope? s).isSome = (u.scope? s).isSome := by
  have := congrArg Option.isSome (h.scopes s)
  rwa [Option.isSome_map, Option.isSome_map] at this

theorem parent_eq (h : t.SameShape u) (s : ScopeId) :
    (t.scope? s).bind (·.parent) = (u.scope? s).bind (·.parent) := by
  have hmap := h.scope_map (g := Scope.parent) (fun _ => rfl) s
  cases ht : t.scope? s <;> cases hu : u.scope? s <;> simp_all

theorem functionOwner?_eq (h : t.SameShape u) (s : ScopeId) :
    t.functionOwner? s = u.functionOwner? s := by
  have hmap := h.scope_map (g := Scope.functionOwner?) (fun _ => rfl) s
  unfold functionOwner?
  cases ht : t.scope? s <;> cases hu : u.scope? s <;> simp_all

theorem isTry_eq (h : t.SameShape u) (s : ScopeId) :
    (t.scope? s).any (·.isTry) = (u.scope? s).any (·.isTry) := by
  have hmap := h.scope_map (g := Scope.isTry) (fun _ => rfl) s
  cases ht : t.scope? s <;> cases hu : u.scope? s <;> simp_all

theorem chain_eq (h : t.SameShape u) (s : ScopeId) : t.chain s = u.chain s := by
  induction hn : s.index using Nat.strongRecOn generalizing s with
  | ind n ih =>
    rw [chain, chain, h.parent_eq s]
    cases hp : (u.scope? s).bind (·.parent) with
    | none => rfl
    | some p =>
      simp only
      split
      · rename_i hlt
        rw [ih p.index (hn ▸ hlt) p rfl]
      · rfl

/-! ## Items -/

theorem function?_eq (h : t.SameShape u) (f : ItemId) :
    (t.function? f).map Function.shape = (u.function? f).map Function.shape := by
  have hbind : ∀ w : SymbolTable, (w.function? f).map Function.shape =
      ((w.item? f).map Item.shape).bind (·.function?) := by
    intro w
    unfold function?
    cases w.item? f with
    | none => rfl
    | some i => simp [Item.function?_shape]
  rw [hbind, hbind, h.items f]

theorem class?_eq (h : t.SameShape u) (c : ItemId) : t.class? c = u.class? c := by
  have hbind : ∀ w : SymbolTable, w.class? c = ((w.item? c).map Item.shape).bind (·.class?) := by
    intro w
    unfold class?
    cases w.item? c with
    | none => rfl
    | some i => simp [Item.class?_shape]
  rw [hbind, hbind, h.items c]

theorem size_items_eq (h : t.SameShape u) : t.items.size = u.items.size := by
  have hlt : ∀ n, n < t.items.size ↔ n < u.items.size := by
    intro n
    have hnone := congrArg (· = none) (h.items ⟨n⟩)
    simp only [Option.map_eq_none_iff, item?, Array.getElem?_eq_none_iff, eq_iff_iff] at hnone
    omega
  have h1 := hlt t.items.size
  have h2 := hlt u.items.size
  omega

/-- A function of one table is one of the other, with the same scope. -/
theorem exists_function? (h : t.SameShape u) {f : ItemId} {fn : Function}
    (hf : t.function? f = some fn) :
    ∃ fn', u.function? f = some fn' ∧ fn'.shape = fn.shape := by
  have hmap := h.function?_eq f
  rw [hf, Option.map_some] at hmap
  obtain ⟨fn', hf', heq⟩ := Option.map_eq_some_iff.1 hmap.symm
  exact ⟨fn', hf', heq⟩

/-! ## Class hierarchy -/

theorem parentsOf_eq (h : t.SameShape u) (i : ItemId) : t.parentsOf i = u.parentsOf i := by
  unfold parentsOf
  rw [h.class?_eq i]

theorem hasParent_eq (h : t.SameShape u) (i ancestor : ItemId) :
    t.hasParent i ancestor = u.hasParent i ancestor := by
  unfold hasParent distance?
  rw [ancestorLayers_congr h.size_items_eq (funext h.parentsOf_eq)]

end SameShape

/-! ## Recorded errors -/

/-- The type, or one that is the same, is recorded as thrown in the scope. -/
def mayThrow (t : SymbolTable) (s : ScopeId) (ty : Ty) : Bool :=
  (t.scope? s).any (·.possibleErrors.contains ty)

section Errors

variable (t : SymbolTable)

theorem mayThrow_congr (s : ScopeId) {a b : Ty} (h : a.erase = b.erase) :
    t.mayThrow s a = t.mayThrow s b := by
  unfold mayThrow
  have hcontains : (fun sc : Scope => sc.possibleErrors.contains a) =
      fun sc => sc.possibleErrors.contains b := funext fun _ => Ty.contains_congr h
  rw [hcontains]

theorem scope?_modifyScope (s x : ScopeId) (g : Scope → Scope) :
    (t.modifyScope s g).scope? x = if x = s then (t.scope? x).map g else t.scope? x := by
  have hindex : s.index = x.index ↔ x = s := by
    cases s
    cases x
    simp [eq_comm]
  unfold scope? modifyScope
  simp only [Array.getElem?_modify, hindex]

theorem item?_modifyItem (i x : ItemId) (g : Item → Item) :
    (t.modifyItem i g).item? x = if x = i then (t.item? x).map g else t.item? x := by
  have hindex : i.index = x.index ↔ x = i := by
    cases i
    cases x
    simp [eq_comm]
  unfold item? modifyItem
  simp only [Array.getElem?_modify, hindex]

theorem function?_modifyFunction (i x : ItemId) (g : Function → Function) :
    (t.modifyFunction i g).function? x = if x = i then (t.function? x).map g else t.function? x := by
  unfold function? modifyFunction
  rw [item?_modifyItem]
  split
  · cases t.item? x with
    | none => rfl
    | some item =>
      unfold Item.function?
      cases h : item.entity <;> simp [h]
  · rfl

theorem class?_modifyClass (i x : ItemId) (g : Class → Class) :
    (t.modifyClass i g).class? x = if x = i then (t.class? x).map g else t.class? x := by
  unfold class? modifyClass
  rw [item?_modifyItem]
  split
  · cases t.item? x with
    | none => rfl
    | some item =>
      unfold Item.class?
      cases h : item.entity <;> simp [h]
  · rfl

/-- What does not look at what has changed in an item. -/
theorem bind_modifyItem {α : Type} {g : Item → Item} {q : Item → Option α} (hq : ∀ item, q (g item) = q item)
    (i j : ItemId) : ((t.modifyItem i g).item? j).bind q = (t.item? j).bind q := by
  rw [item?_modifyItem]
  split
  · cases t.item? j with
    | none => rfl
    | some item => exact hq item
  · rfl

theorem class?_modifyFunction (i x : ItemId) (g : Function → Function) :
    (t.modifyFunction i g).class? x = t.class? x := by
  refine t.bind_modifyItem (fun item => ?_) i x
  unfold Item.class?
  cases h : item.entity <;> simp [h]

theorem var?_modifyFunction (i x : ItemId) (g : Function → Function) :
    (t.modifyFunction i g).var? x = t.var? x := by
  refine t.bind_modifyItem (fun item => ?_) i x
  unfold Item.var?
  cases h : item.entity <;> simp [h]

theorem function?_modifyClass (i x : ItemId) (g : Class → Class) :
    (t.modifyClass i g).function? x = t.function? x := by
  refine t.bind_modifyItem (fun item => ?_) i x
  unfold Item.function?
  cases h : item.entity <;> simp [h]

theorem var?_modifyClass (i x : ItemId) (g : Class → Class) :
    (t.modifyClass i g).var? x = t.var? x := by
  refine t.bind_modifyItem (fun item => ?_) i x
  unfold Item.var?
  cases h : item.entity <;> simp [h]

@[simp] theorem size_modifyItem (i : ItemId) (g : Item → Item) :
    (t.modifyItem i g).items.size = t.items.size := Array.size_modify

@[simp] theorem size_modifyFunction (i : ItemId) (g : Function → Function) :
    (t.modifyFunction i g).items.size = t.items.size := t.size_modifyItem i _

@[simp] theorem size_modifyClass (i : ItemId) (g : Class → Class) :
    (t.modifyClass i g).items.size = t.items.size := t.size_modifyItem i _

@[simp] theorem items_addError (s : ScopeId) (ty : Ty) : (t.addError s ty).2.items = t.items := by
  unfold addError
  split <;> rfl

theorem addError_sameShape (s : ScopeId) (ty : Ty) : t.SameShape (t.addError s ty).2 := by
  refine ⟨fun x => ?_, fun i => ?_⟩
  · unfold addError
    split
    · rfl
    · rw [scope?_modifyScope]
      split
      · cases t.scope? x with
        | none => rfl
        | some sc =>
          simp only [Option.map_some, Option.some.injEq, Scope.addError]
          split <;> rfl
      · rfl
  · unfold item?
    rw [items_addError]

theorem modifyFunction_sameShape (f : ItemId) {g : Function → Function}
    (hg : ∀ fn, (g fn).shape = fn.shape) : t.SameShape (t.modifyFunction f g) := by
  refine ⟨fun _ => rfl, fun i => ?_⟩
  unfold modifyFunction
  rw [item?_modifyItem]
  split
  · cases t.item? i with
    | none => rfl
    | some item =>
      unfold Item.shape
      cases h : item.entity <;> simp [h, hg]
  · rfl

theorem beginThrowing_sameShape (f : ItemId) : t.SameShape (t.beginThrowing f).2 := by
  unfold beginThrowing
  split
  · exact .refl t
  · exact t.modifyFunction_sameShape f fun _ => rfl

@[simp] theorem mayThrow_modifyFunction (f : ItemId) (g : Function → Function) (s : ScopeId)
    (ty : Ty) : (t.modifyFunction f g).mayThrow s ty = t.mayThrow s ty := rfl

@[simp] theorem mayThrow_beginThrowing (f : ItemId) (s : ScopeId) (ty : Ty) :
    (t.beginThrowing f).2.mayThrow s ty = t.mayThrow s ty := by
  unfold beginThrowing
  split <;> rfl

variable {t} in
theorem contains_addError (sc : Scope) (ty E : Ty) :
    (sc.addError ty).2.possibleErrors.contains E = true ↔
      sc.possibleErrors.contains E = true ∨ E.erase = ty.erase := by
  unfold Scope.addError
  split
  · rename_i hknown
    constructor
    · exact .inl
    · rintro (h | h)
      · exact h
      · rw [Ty.contains_congr h]
        exact hknown
  · rw [List.contains_eq_any_beq, List.any_append, Bool.or_eq_true, ← List.contains_eq_any_beq]
    simp [Ty.beq_iff]

variable {t} in
theorem addError_isNew {s : ScopeId} (hs : (t.scope? s).isSome = true) (ty : Ty) :
    (t.addError s ty).1 = !t.mayThrow s ty := by
  obtain ⟨sc, hsc⟩ := Option.isSome_iff_exists.1 hs
  unfold addError mayThrow
  rw [hsc]
  simp only [Scope.addError, Option.any_some]
  by_cases h : sc.possibleErrors.contains ty = true <;> simp [h]

variable {t} in
/-- Recording a type adds it to the one scope. -/
theorem mayThrow_addError {s : ScopeId} (hs : (t.scope? s).isSome = true) (ty : Ty) (x : ScopeId)
    (E : Ty) :
    (t.addError s ty).2.mayThrow x E = true ↔
      t.mayThrow x E = true ∨ x = s ∧ E.erase = ty.erase := by
  obtain ⟨sc, hsc⟩ := Option.isSome_iff_exists.1 hs
  unfold addError mayThrow
  rw [hsc]
  simp only [scope?_modifyScope]
  by_cases hx : x = s
  · subst hx
    simp only [if_pos, hsc, Option.map_some, Option.any_some, contains_addError, true_and]
  · simp [hx]

end Errors

end SymbolTable

end SemanticAnalysis
