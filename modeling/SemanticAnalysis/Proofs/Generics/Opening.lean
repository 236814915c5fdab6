import SemanticAnalysis.Proofs.Analysis.WrittenTypes
import SemanticAnalysis.Proofs.Course.Programs
import SemanticAnalysis.Proofs.Generics.Instances
import SemanticAnalysis.Proofs.SymbolTable.Enclosing

/-!
# A new instance

What is there when an instance of a class with one parameter has been made and its members are about to be
looked at.

1. The table has three new items (`SymbolTable.openedItems`) and one new scope, which lists two of them; all
   else is as before (`item?_openInstance`, `scope?_openInstance`). So the parameter means its type, the
   template means what it meant, and no other name is taken (`DeclaresClass.isInstanceScope`).
2. A call for an instance that is not there comes to this state and asks for the members
   (`instantiateClass_opens`). The instance is remembered by then (`findClass?_opened`).
-/

namespace SemanticAnalysis

open Analysis (bindType)

/-! ## The table -/

namespace SymbolTable

/-- The table with a class that is no structure: its scope, its item and its object variable. -/
def openClass (t : SymbolTable) (frame : Frame) (decl : ClassDef) (outer : ScopeId) (name : String) :
    SymbolTable :=
  let own : ScopeId := ⟨t.scopes.size⟩
  let cls : ItemId := ⟨t.items.size⟩
  let opened := ((t.newScope outer .block).2.addItem
    { name, scope := outer
      module := frame.module
      visibility := decl.visibility
      position := decl.node.position
      entity := .cls { scope := own, flags := decl.flags } }).2.setOwner own (.cls cls)
  let object := opened.addItem
    { name := "this"
      scope := own
      module := frame.module
      visibility := .scopeOnly
      position := decl.node.position
      entity := .var { ty := .cls cls } }
  object.2.modifyClass cls fun c => { c with thisVariable := some object.1 }

/-- The table with an instance of a class with one parameter. -/
def openInstance (t : SymbolTable) (frame : Frame) (decl : ClassDef) (outer : ScopeId) (name : String)
    (template : ItemId) (p : Ident) (ty : Ty) : SymbolTable :=
  let marked := (t.openClass frame decl outer name).modifyClass ⟨t.items.size⟩ fun c =>
    { c with genericArguments := [ty], genericOrigin := some template }
  bindType frame ⟨t.scopes.size⟩ marked (p, ty)

/-- The items of an instance: the class, its object variable and the parameter. -/
def openedItems (t : SymbolTable) (frame : Frame) (decl : ClassDef) (outer : ScopeId) (name : String)
    (template : ItemId) (p : Ident) (ty : Ty) : List Item :=
  let own : ScopeId := ⟨t.scopes.size⟩
  let n := t.items.size
  [{ id := ⟨n⟩, name, scope := outer
     module := frame.module
     visibility := decl.visibility
     position := decl.node.position
     entity := .cls { scope := own, flags := decl.flags, thisVariable := some ⟨n + 1⟩
                      genericArguments := [ty], genericOrigin := some template } },
   { id := ⟨n + 1⟩, name := "this", scope := own
     module := frame.module
     visibility := .scopeOnly
     position := decl.node.position
     entity := .var { ty := .cls ⟨n⟩ } },
   { id := ⟨n + 2⟩, name := p.name, scope := own
     module := frame.module
     visibility := .scopeOnly
     position := p.position
     entity := .bound ty }]

section

variable (t : SymbolTable)

theorem fst_newScope (outer : ScopeId) (owner : ScopeOwner) : (t.newScope outer owner).1 = ⟨t.scopes.size⟩ := by
  rw [newScope]
  split
  · rfl
  · exact congrArg ScopeId.mk Array.size_modify

theorem size_newScope (outer : ScopeId) (owner : ScopeOwner) :
    (t.newScope outer owner).2.items.size = t.items.size := by rw [items_newScope]

theorem item?_newScope (outer : ScopeId) (owner : ScopeOwner) (j : ItemId) :
    (t.newScope outer owner).2.item? j = t.item? j := by rw [item?, items_newScope, item?]

theorem item?_setOwner (s : ScopeId) (owner : ScopeOwner) (j : ItemId) :
    (t.setOwner s owner).item? j = t.item? j := rfl

theorem size_setOwner (s : ScopeId) (owner : ScopeOwner) :
    (t.setOwner s owner).items.size = t.items.size := rfl

theorem scope?_modifyClass (i : ItemId) (g : Class → Class) (s : ScopeId) :
    (t.modifyClass i g).scope? s = t.scope? s := rfl

theorem fst_addItem (item : Item) : (t.addItem item).1 = ⟨t.items.size⟩ := rfl

end

section

variable {t : SymbolTable} {frame : Frame} {decl : ClassDef} {outer : ScopeId} {name : String}
variable {template : ItemId} {p : Ident} {ty : Ty} {sc : Scope}

/-- The class, while it has neither arguments nor parents. -/
theorem class?_openClass : (t.openClass frame decl outer name).class? ⟨t.items.size⟩ =
    some { scope := ⟨t.scopes.size⟩, flags := decl.flags, thisVariable := some ⟨t.items.size + 1⟩ } := by
  rw [openClass, class?_modifyClass, if_pos rfl, class?]
  simp [item?_addItem, item?_setOwner, size_setOwner, size_newScope, fst_addItem, Item.class?]

/-- The scope around the class lists it; its own scope lists what is in it. -/
theorem scope?_openInstance (h : t.scope? outer = some sc) (s : ScopeId) :
    (t.openInstance frame decl outer name template p ty).scope? s =
      if s.index = t.scopes.size then
        some { id := ⟨t.scopes.size⟩, parent := outer, owner := .cls ⟨t.items.size⟩, module := sc.module
               relativeId := sc.nextChild, items := [⟨t.items.size + 1⟩, ⟨t.items.size + 2⟩] }
      else if s = outer then
        some { sc with nextChild := sc.nextChild + 1, items := sc.items ++ [⟨t.items.size⟩] }
      else t.scope? s := by
  obtain ⟨n⟩ := s
  obtain ⟨m⟩ := outer
  have hlt : m < t.scopes.size := lt_of_scope? h
  simp only [openInstance, openClass, bindType, scope?_addItem_eq, scope?_modifyClass, setOwner,
    scope?_modifyScope, scope?_newScope h, size_modifyClass, size_addItem, ScopeId.mk.injEq]
  simp only [modifyScope, size_addItem, size_newScope]
  by_cases hown : n = t.scopes.size
  · have hne : t.scopes.size ≠ m := by omega
    simp [hown, hne]
  · by_cases hm : n = m
    · subst hm
      simp [hown, h, Scope.counted]
    · simp [hown, hm]

theorem item?_openInstance (j : ItemId) :
    (t.openInstance frame decl outer name template p ty).item? j =
      if j.index < t.items.size then t.item? j
      else (t.openedItems frame decl outer name template p ty)[j.index - t.items.size]? := by
  obtain ⟨n⟩ := j
  simp only [openInstance, openClass, bindType, item?_addItem, modifyClass, item?_modifyItem, item?_setOwner,
    size_setOwner, size_addItem, size_modifyItem, size_newScope, item?_newScope, fst_addItem, ItemId.mk.injEq]
  rcases Nat.lt_or_ge n t.items.size with hlt | hge
  · have hne : n ≠ t.items.size ∧ n ≠ t.items.size + 1 ∧ n ≠ t.items.size + 1 + 1 := by omega
    simp [hlt, hne]
  · obtain ⟨k, rfl⟩ := Nat.exists_eq_add_of_le hge
    rcases k with _ | _ | _ | k
    · simp [openedItems]
      omega
    · simp [openedItems]
    · simp [openedItems]
    · simp [openedItems, item?]
      omega

theorem item?_openInstance_new (k : Nat) :
    (t.openInstance frame decl outer name template p ty).item? ⟨t.items.size + k⟩ =
      (t.openedItems frame decl outer name template p ty)[k]? := by
  have hnew : ¬ t.items.size + k < t.items.size := by omega
  rw [item?_openInstance, if_neg hnew, Nat.add_sub_cancel_left]

theorem size_openInstance :
    (t.openInstance frame decl outer name template p ty).items.size = t.items.size + 3 := by
  simp [openInstance, openClass, bindType, size_addItem, size_setOwner, size_newScope]

/-! ### Names -/

theorem hasName_openInstance_old {j : ItemId} {x : String} (hj : j.index < t.items.size) :
    (t.openInstance frame decl outer name template p ty).hasName x j = t.hasName x j := by
  unfold hasName
  rw [item?_openInstance, if_pos hj]

theorem hasName_openInstance_new {k : Nat} {x : String} :
    (t.openInstance frame decl outer name template p ty).hasName x ⟨t.items.size + k⟩ =
      (t.openedItems frame decl outer name template p ty)[k]?.any (·.name == x) := by
  unfold hasName
  rw [item?_openInstance_new]

/-- In the class there are the object variable and the parameter. -/
theorem named_openInstance (h : t.scope? outer = some sc) (x : String) :
    (t.openInstance frame decl outer name template p ty).named ⟨t.scopes.size⟩ x =
      (if "this" = x then [⟨t.items.size + 1⟩] else []) ++
        (if p.name = x then [⟨t.items.size + 2⟩] else []) := by
  unfold named
  rw [scope?_openInstance h, if_pos rfl]
  simp [List.filter_cons, hasName_openInstance_new, openedItems]
  split <;> split <;> rfl

theorem isScopeOf_openInstance (h : t.scope? outer = some sc) :
    (t.openInstance frame decl outer name template p ty).IsScopeOf ⟨t.scopes.size⟩ outer ⟨t.items.size⟩ where
  inside := ⟨_, (scope?_openInstance h _).trans (if_pos rfl), rfl, rfl⟩
  lt := lt_of_scope? h
  there := by
    have hitem : (t.openInstance frame decl outer name template p ty).item? ⟨t.items.size + 0⟩ = _ :=
      item?_openInstance_new 0
    exact ⟨_, congrArg (·.bind Item.class?) hitem, rfl, rfl⟩

theorem bindsType_openInstance (h : t.scope? outer = some sc) (hp : p.name ≠ "this") :
    (t.openInstance frame decl outer name template p ty).BindsType ⟨t.scopes.size⟩ p.name ty
      ⟨t.items.size + 2⟩ where
  named := by
    rw [named_openInstance h, if_neg hp.symm, if_pos rfl]
    rfl
  there := ⟨_, item?_openInstance_new 2, rfl, rfl, rfl, rfl⟩

/-- The scope of an instance for the type, with nothing in it but the object variable and the parameter. -/
structure IsInstanceScope (t : SymbolTable) (own outer : ScopeId) (cls : ItemId) (p : Ident) (ty : Ty) :
    Prop where
  scope : t.IsScopeOf own outer cls
  binds : ∃ i, t.BindsType own p.name ty i
  free : ∀ x, x ≠ "this" → x ≠ p.name → t.named own x = []

namespace DeclaresClass

variable {base : String} {generics : Nat} {i : ItemId}

theorem isInstanceScope (h : t.DeclaresClass outer base generics i) (hp : p.name ≠ "this") :
    (t.openInstance frame decl outer name template p ty).IsInstanceScope ⟨t.scopes.size⟩ outer ⟨t.items.size⟩
      p ty := by
  obtain ⟨sc, hsc⟩ := h.exists_scope
  refine ⟨isScopeOf_openInstance hsc, ⟨_, bindsType_openInstance hsc hp⟩, fun x hthis hparameter => ?_⟩
  rw [named_openInstance hsc, if_neg hthis.symm, if_neg hparameter.symm]
  rfl

/-- A class with another name does not matter. -/
theorem openInstance (h : t.DeclaresClass outer base generics i) (hne : name ≠ base) :
    (t.openInstance frame decl outer name template p ty).DeclaresClass outer base generics i := by
  obtain ⟨sc, hsc⟩ := h.exists_scope
  have hlt : outer.index < t.scopes.size := lt_of_scope? hsc
  have hscope : (t.openInstance frame decl outer name template p ty).scope? outer =
      some { sc with nextChild := sc.nextChild + 1, items := sc.items ++ [⟨t.items.size⟩] } := by
    rw [scope?_openInstance hsc, if_neg (Nat.ne_of_lt hlt), if_pos rfl]
  constructor
  · have hold : sc.items.filter ((t.openInstance frame decl outer name template p ty).hasName base) =
        sc.items.filter (t.hasName base) :=
      List.filter_congr fun j hj => hasName_openInstance_old (h.lists sc hsc j hj)
    have hnew : (t.openInstance frame decl outer name template p ty).hasName base ⟨t.items.size + 0⟩ = false := by
      rw [hasName_openInstance_new]
      simp [openedItems, hne]
    have hnamed := h.named
    unfold SymbolTable.named at hnamed ⊢
    rw [hscope]
    rw [hsc] at hnamed
    dsimp only [Option.elim] at hnamed ⊢
    rw [List.filter_append, hold, hnamed, List.filter_cons_of_neg (by simpa using hnew)]
    rfl
  · obtain ⟨item, c, hitem, hrest⟩ := h.there
    refine ⟨item, c, ?_, hrest⟩
    rw [item?_openInstance, if_pos (lt_of_item? hitem)]
    exact hitem
  · intro sc' hsc' j hj
    cases hscope.symm.trans hsc'
    rw [size_openInstance]
    rcases List.mem_append.1 hj with hj | hj
    · exact Nat.lt_of_lt_of_le (h.lists sc hsc j hj) (Nat.le_add_right ..)
    · rw [List.mem_singleton.1 hj]
      exact Nat.lt_add_of_pos_right (by decide)
  · have howner := h.unowned
    unfold classOwner? at howner ⊢
    rw [hscope]
    rw [hsc] at howner
    exact howner

end DeclaresClass

end

end SymbolTable

/-! ## The call -/

/-- The name of an instance for a type. -/
def instanceText (table : SymbolTable) (base : String) (ty : Ty) : String :=
  base ++ "<" ++ ", ".intercalate ([ty].map table.typeText) ++ ">"

theorem instanceText_ne {table : SymbolTable} {base : String} {ty : Ty} : instanceText table base ty ≠ base := by
  intro h
  have hlength := congrArg String.length h
  simp only [instanceText, String.length_append] at hlength
  have hopen : "<".length = 1 := rfl
  omega

/-- The state with an instance of a class with one parameter, before its members are looked at. -/
def State.opened (s : State) (template : ItemId) (decl : ClassDef) (outer : ScopeId) (module : ModuleId)
    (p : Ident) (ty : Ty) : State :=
  let frame : Frame := ⟨⟨s.nextFrame⟩, module⟩
  let cls : ItemId := ⟨s.table.items.size⟩
  { s with
    nextFrame := s.nextFrame + 1
    table := s.table.openInstance frame decl outer (instanceText s.table decl.name.name ty) template p ty
    classes := (cls, ⟨decl, frame, .declared⟩) :: s.classes
    instances := (s.instances.insertClass template ⟨[ty], cls, frame.id⟩).2
    instanceFrames := Analysis.addInstanceFrame decl.node.id frame.id s.instanceFrames
    declared := (⟨frame.id, decl.node.id⟩, cls) :: s.declared }

namespace Analysis

variable {an : Analyst} {s : State} {template : ItemId} {decl : ClassDef} {outer : ScopeId} {module : ModuleId}
variable {p : Ident} {ty : Ty} {position : Position}

theorem newScope_run (s : State) : newScope outer s =
    .ok ⟨s.table.scopes.size⟩ { s with table := (s.table.newScope outer .block).2 } :=
  congrArg (EStateM.Result.ok · _) (SymbolTable.fst_newScope ..)

theorem addItem_run {item : Item} (s : State) : addItem item s =
    .ok ⟨s.table.items.size⟩ { s with table := (s.table.addItem item).2 } := rfl

theorem createClass_opens {frame : Frame} {name : String} (hstructural : decl.flags.structural = false)
    (s : State) : createClass frame decl outer name s = .ok ⟨s.table.items.size⟩
      { s with
        table := s.table.openClass frame decl outer name
        classes := (⟨s.table.items.size⟩, ⟨decl, frame, .declared⟩) :: s.classes } := by
  unfold createClass
  rw [bind_ok (newScope_run s), bind_ok (addItem_run _), hstructural]
  dsimp only
  rw [SymbolTable.size_newScope]
  rfl

/-- A module does not depend on itself. -/
theorem noteGenericDependency_self (hstack : s.moduleStack.head? = some module) :
    noteGenericDependency module s = .ok ⟨⟩ s := by
  have hread (f : State → Analysis Unit) : (MonadState.get >>= f) s = f s s := rfl
  obtain ⟨rest, hrest⟩ := List.head?_eq_some_iff.1 hstack
  rw [noteGenericDependency, hread, hrest]
  dsimp only
  rw [if_neg (by simp)]
  rfl

/-- In the module of the template itself, there is no dependency to note. -/
theorem noteInstance_run {frame : Frame} {node : Node} {item : ItemId}
    (hstack : s.moduleStack.head? = some module) :
    noteInstance frame node item module s = .ok ⟨⟩
      { s with
        instanceFrames := addInstanceFrame node.id frame.id s.instanceFrames
        declared := (⟨frame.id, node.id⟩, item) :: s.declared } := by
  let s₁ : State := { s with
    instanceFrames := addInstanceFrame node.id frame.id s.instanceFrames
    declared := (⟨frame.id, node.id⟩, item) :: s.declared }
  exact noteGenericDependency_self (s := s₁) hstack

/-- A call for an instance that is not there makes it and asks for its members. -/
theorem instantiateClass_opens (hdecl : s.templates.lookup template = some (.cls decl outer module))
    (hgenerics : decl.generics = [p]) (hstructural : decl.flags.structural = false)
    (hstack : s.moduleStack.head? = some module)
    (hmissing : s.instances.findClass? template [ty] = none) :
    instantiateClass an template [ty] position s = (do
      an.ask (.signatures ⟨s.table.items.size⟩)
      modify fun t => { t with pendingClasses := ⟨s.table.items.size⟩ :: t.pendingClasses }
      return ⟨s.table.items.size⟩ : Analysis ItemId) (s.opened template decl outer module p ty) := by
  let frame : Frame := ⟨⟨s.nextFrame⟩, module⟩
  let cls : ItemId := ⟨s.table.items.size⟩
  let name := instanceText s.table decl.name.name ty
  let s₁ : State := { s with nextFrame := s.nextFrame + 1 }
  let s₂ : State :=
    { s₁ with
      table := s.table.openClass frame decl outer name
      classes := (cls, ⟨decl, frame, .declared⟩) :: s.classes }
  let s₃ : State := { s₂ with table := s₂.table.modifyClass cls fun c =>
    { c with genericArguments := [ty], genericOrigin := some template } }
  let s₄ : State := { s₃ with table := s.table.openInstance frame decl outer name template p ty }
  let s₅ : State := { s₄ with instances := (s.instances.insertClass template ⟨[ty], cls, frame.id⟩).2 }
  have hread : template? template s = .ok (some (.cls decl outer module)) s :=
    congrArg (EStateM.Result.ok · s) hdecl
  have harity : checkArity decl.name.name decl.generics [ty] position s = .ok () s :=
    checkArity_ok (by rw [hgenerics]; rfl) ..
  have hget : (get : Analysis State) s = .ok s s := rfl
  have hframe : openFrame module s = .ok frame s₁ := rfl
  have hname : instanceName decl.name.name [ty] s₁ = .ok name s₁ := rfl
  have hcreate : createClass frame decl outer name s₁ = .ok cls s₂ := createClass_opens hstructural s₁
  have hmark : change (·.modifyClass cls fun c =>
      { c with genericArguments := [ty], genericOrigin := some template }) s₂ = .ok ⟨⟩ s₃ := rfl
  obtain ⟨c, hclass, hown⟩ : ∃ c, s₃.table.class? cls = some c ∧ c.scope = ⟨s.table.scopes.size⟩ :=
    ⟨_, (SymbolTable.class?_modifyClass ..).trans
      ((if_pos rfl).trans (congrArg (Option.map _) SymbolTable.class?_openClass)), rfl⟩
  have hlook : look (·.class? cls) s₃ = .ok (some c) s₃ := congrArg (EStateM.Result.ok · s₃) hclass
  have hexpect : expect "instance is not a class" (some c) s₃ = .ok c s₃ := rfl
  have hbind : bindGenerics frame decl.generics [ty] c.scope s₃ = .ok ⟨⟩ s₄ := by
    rw [bindGenerics_eq, hgenerics, hown]
    rfl
  have hremember : (modify fun t : State =>
      { t with instances := (t.instances.insertClass template ⟨[ty], cls, frame.id⟩).2 } : Analysis Unit) s₄ =
        .ok ⟨⟩ s₅ := rfl
  have hnote : noteInstance frame decl.node cls module s₅ = .ok ⟨⟩ (s.opened template decl outer module p ty) :=
    noteInstance_run hstack
  unfold instantiateClass
  rw [bind_ok hread]
  dsimp only
  rw [bind_ok harity, bind_ok hget, hmissing]
  dsimp only
  rw [bind_ok hframe, bind_ok hname, bind_ok hcreate, bind_ok hmark, bind_ok hlook, bind_ok hexpect, bind_ok hbind,
    bind_ok hremember, bind_ok hnote]

end Analysis

/-! ## The instances -/

section Instances

variable {s : State} {template : ItemId} {decl : ClassDef} {outer : ScopeId} {module : ModuleId} {p : Ident}
variable {ty other : Ty}

theorem findClass?_opened (hmissing : s.instances.findClass? template [ty] = none)
    (hsame : other.erase = ty.erase) :
    (s.opened template decl outer module p ty).instances.findClass? template [other] =
      some ⟨[ty], ⟨s.table.items.size⟩, ⟨s.nextFrame⟩⟩ := by
  let inst : Instance := ⟨[ty], ⟨s.table.items.size⟩, ⟨s.nextFrame⟩⟩
  have hmissing' : s.instances.classes.find? Instances.argumentsKey template inst.arguments = none := hmissing
  exact InstanceTable.find?_insert_of_same (fun _ _ => Instances.argumentsKey_congr) hmissing'
    (congrArg (fun t => [t]) hsame)

theorem findClass?_opened_of_ne (hmissing : s.instances.findClass? template [ty] = none)
    (hother : other.erase ≠ ty.erase) :
    (s.opened template decl outer module p ty).instances.findClass? template [other] =
      s.instances.findClass? template [other] := by
  let inst : Instance := ⟨[ty], ⟨s.table.items.size⟩, ⟨s.nextFrame⟩⟩
  have hmissing' : s.instances.classes.find? Instances.argumentsKey template inst.arguments = none := hmissing
  exact InstanceTable.find?_insert_of_ne hmissing' fun h => hother (List.head_eq_of_cons_eq h.2)

/-- There is an instance for the type. -/
def State.HasInstance (s : State) (template : ItemId) (ty : Ty) : Prop :=
  (s.instances.findClass? template [ty]).isSome = true

theorem State.HasInstance.self (hmissing : s.instances.findClass? template [ty] = none) :
    (s.opened template decl outer module p ty).HasInstance template ty := by
  unfold HasInstance
  rw [findClass?_opened hmissing rfl]
  rfl

theorem State.HasInstance.opened (h : s.HasInstance template other)
    (hmissing : s.instances.findClass? template [ty] = none) :
    (s.opened template decl outer module p ty).HasInstance template other := by
  unfold HasInstance
  by_cases hsame : other.erase = ty.erase
  · rw [findClass?_opened hmissing hsame]
    rfl
  · rw [findClass?_opened_of_ne hmissing hsame]
    exact h

end Instances

end SemanticAnalysis
