import SemanticAnalysis.Analysis.Effect
import SemanticAnalysis.Proofs.SymbolTable.Shape
import SemanticAnalysis.Proofs.Ty.Known

/-!
# Tables that only grow

Nearly all that an analysis does to a symbol table adds to it: no item goes away, no class gets other
parents, and a class is named only once it exists. `SymbolTable.Extends` is that relation, and here is
one lemma for each operation of the table. The one exception, the parents a class is given when its
head is resolved, is not among them.
-/

namespace SemanticAnalysis

/-! ## What a table names -/

instance : NamesClasses Variable := ⟨fun v => classIds v.ty⟩

/-- The types of a function that are ever read. -/
instance : NamesClasses Function where
  classIds f := classIds (f.signature, f.generatorParameter, f.generatorReturn, f.coroutineReturn)

instance : NamesClasses Class := ⟨(·.parents)⟩

instance : NamesClasses Entity where
  classIds
    | .var v => classIds v
    | .fn f => classIds f
    | .cls c => classIds c
    | .bound ty => classIds ty
    | .space _ | .aliasOf _ => []

instance : NamesClasses Item := ⟨fun i => classIds i.entity⟩

instance : NamesClasses Scope := ⟨fun s => s.classOwner?.toList⟩

instance : NamesClasses SymbolTable := ⟨fun t => classIds (t.items.toList, t.scopes.toList)⟩

section

variable {n : Nat}

@[grind =] theorem known_variable (v : Variable) : Known n v ↔ Known n v.ty := .rfl

@[grind =] theorem known_function_iff (f : Function) : Known n f ↔ Known n f.params ∧
    Known n f.returnType ∧ Known n f.generatorParameter ∧ Known n f.generatorReturn ∧
      Known n f.coroutineReturn := by
  show Known n (f.signature, f.generatorParameter, f.generatorReturn, f.coroutineReturn) ↔ _
  simp only [known_pair, known_signature, Function.signature, and_assoc]

@[grind ←] theorem known_function_signature {f : Function} (h : Known n f) : Known n f.signature :=
  h.fst

@[grind ←] theorem known_function_ty {f : Function} (h : Known n f) : Known n f.ty := h.fst

@[grind =] theorem known_item (i : Item) : Known n i ↔ Known n i.entity := .rfl

@[grind =] theorem known_entity_var (v : Variable) : Known n (Entity.var v) ↔ Known n v := .rfl

@[grind =] theorem known_entity_fn (f : Function) : Known n (Entity.fn f) ↔ Known n f := .rfl

@[grind =] theorem known_entity_bound (ty : Ty) : Known n (Entity.bound ty) ↔ Known n ty := .rfl

@[grind ←] theorem known_entity_space (s : ScopeId) : Known n (Entity.space s) := known_of_nil rfl

@[grind ←] theorem known_entity_aliasOf (target : ItemId) : Known n (Entity.aliasOf target) :=
  known_of_nil rfl

/-- A class without parents. -/
@[grind ←] theorem known_entity_cls {c : Class} (h : c.parents = []) : Known n (Entity.cls c) := by
  intro p hp
  rw [show classIds (Entity.cls c) = c.parents from rfl, h] at hp
  cases hp

theorem known_class {c : Class} : Known n c ↔ ∀ p ∈ c.parents, p.index < n := .rfl

theorem known_scope {s : Scope} : Known n s ↔ ∀ c, s.classOwner? = some c → c.index < n := by
  show (∀ c ∈ s.classOwner?.toList, c.index < n) ↔ _
  simp [Option.mem_toList]

theorem known_table {t : SymbolTable} : Known n t ↔
    (∀ i item, t.item? i = some item → Known n item) ∧
      ∀ s scope, t.scope? s = some scope → Known n scope := by
  show Known n (t.items.toList, t.scopes.toList) ↔ _
  rw [known_pair, known_list, known_list]
  refine and_congr ⟨fun h i item hi => h item ?_, fun h item hi => ?_⟩
    ⟨fun h s scope hs => h scope ?_, fun h scope hs => ?_⟩
  · exact Array.mem_toList_iff.2 (Array.mem_of_getElem? hi)
  · obtain ⟨i, hi⟩ := Array.mem_iff_getElem?.1 (Array.mem_toList_iff.1 hi)
    exact h ⟨i⟩ item hi
  · exact Array.mem_toList_iff.2 (Array.mem_of_getElem? hs)
  · obtain ⟨s, hs⟩ := Array.mem_iff_getElem?.1 (Array.mem_toList_iff.1 hs)
    exact h ⟨s⟩ scope hs

end

/-- What is known about errors names no class. -/
theorem known_item_shape {n : Nat} {i : Item} : Known n i.shape ↔ Known n i := by
  rw [known_item, known_item]
  unfold Item.shape
  cases h : i.entity with
  | fn f => rfl
  | _ => simp [h]

/-- The parents of an item; only classes have any. -/
def Item.parents (i : Item) : List ItemId :=
  match i.entity with
  | .cls c => c.parents
  | _ => []

@[grind =] theorem Item.parents_eq (i : Item) : i.parents = match i.entity with
    | .cls c => c.parents
    | _ => [] := rfl

namespace SymbolTable

variable {t u v : SymbolTable}

/-! ## What a lookup finds -/

section

variable {n : Nat} {i : ItemId} {s : ScopeId}

@[grind ←] theorem known_item? (h : Known n t) : Known n (t.item? i) := by
  cases hi : t.item? i with
  | none => exact known_none
  | some item => exact (known_some _).2 ((known_table.1 h).1 i item hi)

@[grind ←] theorem known_function? (h : Known n t) : Known n (t.function? i) := by
  refine known_optionBind (known_item? h) fun item _ hitem => ?_
  unfold Item.function?
  grind

@[grind ←] theorem known_class? (h : Known n t) : Known n (t.class? i) := by
  refine known_optionBind (known_item? h) fun item _ hitem => ?_
  unfold Item.class?
  split
  · rename_i c hentity
    rw [known_item, hentity] at hitem
    exact hitem
  · exact known_none

@[grind ←] theorem known_var? (h : Known n t) : Known n (t.var? i) := by
  refine known_optionBind (known_item? h) fun item _ hitem => ?_
  unfold Item.var?
  grind

theorem classOwner_lt (h : Known n t) {c : ItemId} (hc : t.classOwner? s = some c) :
    c.index < n := by
  obtain ⟨scope, hscope, hc⟩ := Option.bind_eq_some_iff.1 hc
  exact known_scope.1 ((known_table.1 h).2 s scope hscope) c hc

@[grind →] theorem enclosingClass_lt (h : Known n t) {c : ItemId}
    (hc : t.enclosingClass? s = some c) : c.index < n := by
  obtain ⟨_, outer, _, -, hc, -⟩ := List.findSome?_eq_some_iff.1 hc
  exact classOwner_lt h hc

end

theorem parentsOf_eq (t : SymbolTable) (i : ItemId) :
    t.parentsOf i = (t.item? i).elim [] Item.parents := by
  unfold parentsOf class? Item.parents Item.class?
  cases t.item? i with
  | none => rfl
  | some item => cases h : item.entity <;> simp [h]

theorem lt_of_item? {i : ItemId} {item : Item} (h : t.item? i = some item) :
    i.index < t.items.size := (Array.getElem?_eq_some_iff.1 h).1

theorem lt_of_class? {i : ItemId} {c : Class} (h : t.class? i = some c) : i.index < t.items.size := by
  obtain ⟨item, hitem, -⟩ := Option.bind_eq_some_iff.1 h
  exact lt_of_item? hitem

theorem item?_addItem (t : SymbolTable) (item : Item) (j : ItemId) :
    (t.addItem item).2.item? j =
      if j.index = t.items.size then some { item with id := ⟨t.items.size⟩ } else t.item? j :=
  Array.getElem?_push

@[simp] theorem size_addItem (t : SymbolTable) (item : Item) :
    (t.addItem item).2.items.size = t.items.size + 1 := Array.size_push _

/-! ## Growing -/

/-- `u` has all items of `t`, the same parents for every class, and names no class it lacks, provided
`t` names none. -/
structure Extends (t u : SymbolTable) : Prop where
  size_le : t.items.size ≤ u.items.size
  parents_eq : ∀ i, u.parentsOf i = t.parentsOf i
  known : Known t.items.size t → Known u.items.size u

namespace Extends

theorem refl (t : SymbolTable) : t.Extends t := ⟨Nat.le_refl _, fun _ => rfl, id⟩

theorem trans (h : t.Extends u) (h' : u.Extends v) : t.Extends v where
  size_le := Nat.le_trans h.size_le h'.size_le
  parents_eq i := (h'.parents_eq i).trans (h.parents_eq i)
  known := h'.known ∘ h.known

/-! ### Items -/

/-- Change an item without giving it other parents. -/
@[grind ←] theorem modifyItem {i : ItemId} {g : Item → Item}
    (hparents : ∀ item, (g item).parents = item.parents)
    (hknown : ∀ item, Known t.items.size item → Known t.items.size (g item)) :
    t.Extends (t.modifyItem i g) := by
  have hsize : (t.modifyItem i g).items.size = t.items.size := Array.size_modify
  refine ⟨Nat.le_of_eq hsize.symm, fun j => ?_, fun h => ?_⟩
  · rw [parentsOf_eq, parentsOf_eq, item?_modifyItem]
    split
    · cases t.item? j with
      | none => rfl
      | some item => exact hparents item
    · rfl
  · rw [hsize]
    obtain ⟨hitems, hscopes⟩ := known_table.1 h
    refine known_table.2 ⟨fun j item hj => ?_, hscopes⟩
    rw [item?_modifyItem] at hj
    split at hj
    · obtain ⟨old, hold, rfl⟩ := Option.map_eq_some_iff.1 hj
      exact hknown old (hitems j old hold)
    · exact hitems j item hj

@[grind ←] theorem modifyFunction {i : ItemId} {g : Function → Function}
    (hknown : ∀ f, Known t.items.size f → Known t.items.size (g f)) :
    t.Extends (t.modifyFunction i g) := by
  refine modifyItem (fun item => ?_) fun item h => ?_
  · cases hentity : item.entity <;> simp [Item.parents, hentity]
  · cases hentity : item.entity with
    | fn f => exact hknown f (by rwa [known_item, hentity] at h)
    | _ => simpa only [hentity] using h

@[grind ←] theorem modifyClass {i : ItemId} {g : Class → Class} (hg : ∀ c, (g c).parents = c.parents) :
    t.Extends (t.modifyClass i g) := by
  refine modifyItem (fun item => ?_) fun item h => ?_
  · cases hentity : item.entity <;> simp [Item.parents, hentity, hg]
  · cases hentity : item.entity with
    | cls c =>
      rw [known_item, hentity] at h
      exact known_class.2 (hg c ▸ known_class.1 h)
    | _ => simpa only [hentity] using h

@[grind ←] theorem modifyVariable {i : ItemId} {g : Variable → Variable} (hg : ∀ v, (g v).ty = v.ty) :
    t.Extends (t.modifyVariable i g) := by
  refine modifyItem (fun item => ?_) fun item h => ?_
  · cases hentity : item.entity <;> simp [Item.parents, hentity]
  · cases hentity : item.entity with
    | var v =>
      rw [known_item, hentity] at h
      exact (known_variable _).2 (hg v ▸ (known_variable v).1 h)
    | _ => simpa only [hentity] using h

/-! ### Scopes and modules -/

/-- Whatever happens to scopes, as long as their owners exist. -/
theorem of_items (hitems : u.items = t.items)
    (hscopes : Known t.items.size t → ∀ s scope, u.scope? s = some scope →
      Known t.items.size scope) : t.Extends u := by
  have hitem : u.item? = t.item? := by
    funext i
    rw [item?, item?, hitems]
  refine ⟨Nat.le_of_eq (congrArg Array.size hitems.symm), fun i => ?_, fun h => ?_⟩
  · rw [parentsOf_eq, parentsOf_eq, hitem]
  · rw [hitems]
    exact known_table.2 ⟨fun i item hi => (known_table.1 h).1 i item (hitem ▸ hi), hscopes h⟩

@[grind ←] theorem modifyScope {s : ScopeId} {g : Scope → Scope}
    (hg : ∀ scope, Known t.items.size scope → Known t.items.size (g scope)) :
    t.Extends (t.modifyScope s g) := by
  refine of_items rfl fun h x scope hx => ?_
  rw [scope?_modifyScope] at hx
  split at hx
  · obtain ⟨old, hold, rfl⟩ := Option.map_eq_some_iff.1 hx
    exact hg old ((known_table.1 h).2 x old hold)
  · exact (known_table.1 h).2 x scope hx

@[grind ←] theorem modifyModule {m : ModuleId} {g : Module → Module} :
    t.Extends (t.modifyModule m g) :=
  of_items rfl (known_table.1 · |>.2)

/-- A scope that belongs to no class. -/
theorem pushScope {parent : Option ScopeId} {owner : ScopeOwner} {module : ModuleId} {relative : Nat}
    (howner : ∀ c, owner ≠ .cls c) : t.Extends (t.pushScope parent owner module relative).2 := by
  refine of_items rfl fun h x scope hx => ?_
  have hpush : (t.pushScope parent owner module relative).2.scope? x =
      if x.index = t.scopes.size then some _ else t.scope? x := Array.getElem?_push
  rw [hpush] at hx
  split at hx
  · cases hx
    refine known_scope.2 fun c hc => ?_
    cases owner <;> cases hc
    exact absurd rfl (howner c)
  · exact (known_table.1 h).2 x scope hx

@[grind ←] theorem newScope {parent : ScopeId} : t.Extends (t.newScope parent .block).2 := by
  have howner : ∀ c, ScopeOwner.block ≠ .cls c := nofun
  unfold SymbolTable.newScope
  split
  · exact pushScope howner
  · have hcount : t.Extends (t.modifyScope parent fun s => { s with nextChild := s.nextChild + 1 }) :=
      modifyScope fun _ h => h
    exact hcount.trans (pushScope howner)

@[grind ←] theorem newModule {name path package : String} :
    t.Extends (t.newModule name path package).2 := by
  have hscope (t' : SymbolTable) (m : ModuleId) : t'.Extends (t'.pushScope none (.unit m) m 0).2 :=
    pushScope nofun
  exact ((hscope t _).trans (hscope _ _)).trans (of_items rfl (known_table.1 · |>.2))

@[grind ←] theorem setOwner {s : ScopeId} {owner : ScopeOwner}
    (h : ∀ c, owner = .cls c → c.index < t.items.size) : t.Extends (t.setOwner s owner) := by
  refine modifyScope fun scope _ => known_scope.2 fun c hc => h c ?_
  cases owner <;> cases hc
  rfl

/-- Add an item; a class starts without parents. -/
@[grind ←] theorem addItem {item : Item} (hparents : item.parents = [])
    (hknown : Known t.items.size item) :
    t.Extends (t.addItem item).2 := by
  have hlater : Later t.items.size (t.items.size + 1) := Nat.le_succ _
  refine ⟨by simp, fun j => ?_, fun h => ?_⟩
  · rw [parentsOf_eq, parentsOf_eq, item?_addItem]
    split
    · rename_i hj
      have hnone : t.item? j = none := Array.getElem?_eq_none (Nat.le_of_eq hj.symm)
      rw [hnone]
      exact hparents
    · rfl
  · obtain ⟨hitems, hscopes⟩ := known_table.1 h
    rw [size_addItem]
    refine known_table.2 ⟨fun j found hj => ?_, fun s scope hs => ?_⟩
    · rw [item?_addItem] at hj
      split at hj
      · cases hj
        exact Known.mono (a := item) hknown hlater
      · exact (hitems j found hj).mono hlater
    · -- only the list of items of one scope is longer
      replace hs : (t.modifyScope item.scope _).scope? s = some scope := hs
      rw [scope?_modifyScope] at hs
      split at hs
      · obtain ⟨old, hold, rfl⟩ := Option.map_eq_some_iff.1 hs
        exact Known.mono (a := old) (hscopes s old hold) hlater
      · exact (hscopes s scope hs).mono hlater

/-! ### Errors and captures -/

theorem of_sameShape (h : t.SameShape u) : t.Extends u := by
  refine ⟨Nat.le_of_eq h.size_items_eq, fun i => (h.parentsOf_eq i).symm, fun hknown => ?_⟩
  obtain ⟨hitems, hscopes⟩ := known_table.1 hknown
  rw [← h.size_items_eq]
  refine known_table.2 ⟨fun i item hi => ?_, fun s scope hs => ?_⟩
  · have hshape := h.items i
    rw [hi] at hshape
    obtain ⟨old, hold, hsame⟩ := Option.map_eq_some_iff.1 hshape
    rw [← known_item_shape, ← hsame, known_item_shape]
    exact hitems i old hold
  · have hshape := h.scopes s
    rw [hs] at hshape
    obtain ⟨old, hold, hsame⟩ := Option.map_eq_some_iff.1 hshape
    show Known _ scope.shape
    rw [← hsame]
    exact hscopes s old hold

end Extends

theorem sameShape_walk (flow : ErrorFlow) (ty : Ty) (chain : List ScopeId) (t : SymbolTable) :
    t.SameShape (flow.walk ty t chain).2 := by
  induction chain generalizing t with
  | nil => exact .refl t
  | cons s outer ih =>
    have hadd := t.addError_sameShape s ty
    simp only [ErrorFlow.walk]
    split
    · exact hadd
    · split
      · split
        · exact hadd
        · exact hadd.trans (ih _)
      · split
        · exact hadd
        · exact hadd.trans (ih _)

theorem sameShape_reach (flow : ErrorFlow) (f : ItemId) (ty : Ty) (t : SymbolTable) :
    t.SameShape (flow.reach f ty t).2 := by
  unfold ErrorFlow.reach
  split
  · exact .refl t
  · exact t.beginThrowing_sameShape f

theorem sameShape_settle (flow : ErrorFlow) (types : List Ty) (tasks : List ErrorFlow.Task)
    (t : SymbolTable) : t.SameShape (flow.settle types tasks t) := by
  fun_induction ErrorFlow.settle flow types tasks t with
  | case1 t => exact .refl t
  | case2 t callee site rest errors ih => exact ih
  | case3 t s ty rest _ after hw ih =>
    have hwalk := sameShape_walk flow ty (t.chain s) t
    rw [hw] at hwalk
    exact hwalk.trans ih
  | case4 t s ty rest _ f after hw reached ih =>
    have hwalk := sameShape_walk flow ty (t.chain s) t
    rw [hw] at hwalk
    exact (hwalk.trans (sameShape_reach flow f ty after)).trans ih
  | case5 t s ty rest _ ih => exact ih

theorem sameShape_link (flow : ErrorFlow) (callee : ItemId) (site : ScopeId) (t : SymbolTable) :
    t.SameShape (flow.link callee site t).2 := by
  simp only [ErrorFlow.link]
  split
  · exact .refl t
  · split
    · exact sameShape_settle _ _ _ t
    · refine SameShape.trans ?_ (sameShape_settle _ _ _ _)
      exact t.modifyFunction_sameShape _ fun _ => rfl

@[grind ←] theorem Extends.captureAlong {used owner : ItemId} {chain : List ScopeId} :
    t.Extends (t.captureAlong used owner chain) := by
  induction chain generalizing t with
  | nil => exact .refl t
  | cons s outer ih =>
    unfold SymbolTable.captureAlong
    split
    · exact ih
    · split
      · exact .refl t
      · split
        · split
          · refine .trans ?_ ih
            exact .modifyFunction fun _ h => h
          · exact .refl t
        · exact .refl t

end SymbolTable

end SemanticAnalysis
