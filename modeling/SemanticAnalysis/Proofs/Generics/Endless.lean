import Mathlib.Algebra.Order.BigOperators.Group.List
import Mathlib.Algebra.Order.Group.Nat
import SemanticAnalysis.Proofs.Generics.Opening
import SemanticAnalysis.Session

/-!
# Instances without end

Only calls for the same instance end a recursion of instances. A class may ask for itself, for a type that is
new each time; then there is always one more instance to make, and only the bound on the nesting ends the
analysis.

1. `Widens` is such a class: its first field asks for the class, for a pointer to the parameter. Resolving
   the members of one instance comes to the members of the next (`Widens.signatures_error`,
   `Widens.type_givesUp`).
2. So at whatever depth the members are asked for, the answer is that the nesting is too deep, and half as
   many instances have been made (`Widens.signatures_givesUp`, by induction on the depth).
3. **`instances_without_end`**: a program of two lines does this from the start of a session.
-/

namespace SemanticAnalysis

open Analysis

/-! ## Pointers to pointers -/

namespace Ty

variable (t : Ty)

/-- A pointer to a pointer, and so on, some levels further out. -/
def pointed (t : Ty) : Nat → Ty
  | 0 => t
  | n + 1 => t.point.pointed n

theorem pointerLevel_point : t.point.pointerLevel = t.pointerLevel + 1 := by
  have hlayers : t.point.layers = t.layers ++ [{ pointer := true }] := rfl
  rw [pointerLevel, hlayers, List.countP_append]
  rfl

theorem pointerLevel_pointed (n : Nat) : (t.pointed n).pointerLevel = t.pointerLevel + n := by
  induction n generalizing t with
  | zero => rfl
  | succ n ih =>
    rw [pointed, ih, pointerLevel_point]
    omega

/-- No two of them are the same type. -/
theorem pointed_erase_inj {i j : Nat} (h : (t.pointed i).erase = (t.pointed j).erase) : i = j := by
  have hlevel := congrArg pointerLevel h
  rw [pointerLevel_erase, pointerLevel_erase, pointerLevel_pointed, pointerLevel_pointed] at hlevel
  omega

end Ty

/-! ## The class -/

/-- The written type is the class for an argument, with layers around it. -/
def Names (decl : ClassDef) (written argument : TypeExpr) : Prop :=
  ∃ base, written.form = .named [base] [argument] ∧ base.name = decl.name.name

/-- The class has one parameter, and its first field asks for the class, for a pointer to the parameter. -/
structure Widens (decl : ClassDef) (p : Ident) (field : FieldDecl Expr) (written argument : TypeExpr) : Prop where
  generics : decl.generics = [p]
  parents : decl.parents = []
  structural : decl.flags.structural = false
  bitfield : decl.flags.bitfield = false
  first : ∃ rest, decl.fields = field :: rest
  type : field.ty = some written
  itself : Names decl written argument
  pointer : ∃ name, argument.form = .named [name] [] ∧ name.name = p.name
  layers : argument.layers = [{ pointer := true }]
  keyword : Native.ofKeyword? p.name = none
  own : decl.name.name ≠ "this" ∧ decl.name.name ≠ p.name
  parameter : p.name ≠ "this"
  member : field.name.name ≠ "this" ∧ field.name.name ≠ p.name

/-- The class is a template of the module that is being analysed, and its name means it there. -/
structure State.Poised (s : State) (decl : ClassDef) (template : ItemId) (outer : ScopeId) (module : ModuleId) :
    Prop where
  known : s.templates.lookup template = some (.cls decl outer module)
  declares : s.table.DeclaresClass outer decl.name.name 1 template
  stack : s.moduleStack.head? = some module

section

variable {decl : ClassDef} {p : Ident} {field : FieldDecl Expr} {written argument : TypeExpr}
variable {s s' : State} {template cls : ItemId} {outer own scope : ScopeId} {module : ModuleId} {ty : Ty}
variable {an : Analyst} {frame : Frame} {e : Diagnostic}

theorem State.Poised.opened (h : s.Poised decl template outer module) :
    (s.opened template decl outer module p ty).Poised decl template outer module := by
  constructor <;> unfold State.opened <;> dsimp only
  · exact h.known
  · exact h.declares.openInstance instanceText_ne
  · exact h.stack

theorem State.options_opened : (s.opened template decl outer module p ty).options = s.options := by
  unfold State.opened
  dsimp only

/-! ## One step -/

/-- The class for an argument: first the argument, then the instance. -/
theorem Names.type_error (hwritten : Names decl written argument) (hp : s.Poised decl template outer module)
    (hfind : s.table.findAll decl.name.name scope EntityKind.values (some scope) = [template])
    (h : (do
      let ty ← an.type frame argument scope
      instantiateClass an template [ty] written.position : Analysis ItemId) s = .error e s') :
    resolveType an frame written scope s = .error e s' := by
  obtain ⟨base, hform, hbase⟩ := hwritten
  obtain ⟨item, c, hitem, -, hgenerics, -, hcls⟩ := hp.declares.there
  have hpath : resolvePath [base] scope EntityKind.values written.position s = .ok template s :=
    resolvePath_single (hbase ▸ hfind)
  have hlook : look (·.item? template) s = .ok (some item) s := by
    rw [← hitem]
    rfl
  have hexpect : expect "item missing" (some item) s = .ok item s := rfl
  have hclass : resolveClass an frame template (pathText [base]) [argument] scope written.position s =
      .error e s' := by
    rw [← h]
    unfold resolveClass resolveTypes
    rw [bind_ok hlook, Option.elim, hgenerics]
    simp
  unfold resolveType resolveForm
  rw [hform]
  dsimp only
  unfold resolveNamedType
  refine bind_error ?_
  dsimp only [List.isEmpty_cons]
  rw [bind_ok hpath, bind_ok hlook, bind_ok hexpect, hcls]
  exact bind_error hclass

/-- A change that changes nothing in the class. -/
theorem SymbolTable.modifyClass_eq_self {t : SymbolTable} {i : ItemId} {c : Class} {g : Class → Class}
    (hc : t.class? i = some c) (hg : g c = c) : t.modifyClass i g = t := by
  obtain ⟨item, hitem, hclass⟩ := Option.bind_eq_some_iff.1 hc
  have hcls : item.entity = .cls c := by
    unfold Item.class? at hclass
    split at hclass
    · rename_i d hd
      rw [hd, Option.some.inj hclass]
    · cases hclass
  have hitems : (t.modifyClass i g).items = t.items := by
    refine Array.ext_getElem? fun n => ?_
    show (t.modifyClass i g).item? ⟨n⟩ = t.item? ⟨n⟩
    unfold modifyClass
    rw [item?_modifyItem]
    split
    · rename_i hn
      rw [hn, hitem, Option.map_some, hcls]
      dsimp only
      rw [hg, ← hcls]
    · rfl
  show { t with items := (t.modifyClass i g).items } = t
  rw [hitems]

namespace Widens

variable (hw : Widens decl p field written argument)

include hw

/-- Inside an instance, the argument is a pointer to its type. -/
theorem argument_run (hown : s.table.IsInstanceScope own outer cls p ty) :
    resolveType an frame argument own s = .ok ty.point s := by
  obtain ⟨name, hform, hname⟩ := hw.pointer
  obtain ⟨i, hbinds⟩ := hown.binds
  have hkeyword : Native.ofKeyword? name.name = none := by
    rw [hname]
    exact hw.keyword
  have hnames : NamesType s [name] own argument.position ty :=
    namesType_of_bindsType (hname ▸ hbinds) hown.scope.ownedRightly hkeyword
  rw [resolveType_of_namesType hform hnames, hw.layers]
  rfl

/-- The members of an instance begin with the type of the field. -/
theorem signatures_error (an : Analyst) (hsource : ∃ frame, s.classes.lookup cls = some ⟨decl, frame, .declared⟩)
    (hown : s.table.IsInstanceScope own outer cls p ty) :
    ∃ frame s₁, s₁.table = s.table ∧ s₁.templates = s.templates ∧ s₁.moduleStack = s.moduleStack ∧
      s₁.instances = s.instances ∧ s₁.options = s.options ∧
        ∀ e s', an.type frame written own s₁ = .error e s' → classSignatures an cls s = .error e s' := by
  obtain ⟨frame, hsource⟩ := hsource
  obtain ⟨c, hc, hscope, hparents⟩ := hown.scope.there
  obtain ⟨rest, hfields⟩ := hw.first
  let s₁ : State := behind (setStage cls .signatures) s
  refine ⟨frame, s₁, rfl, rfl, rfl, rfl, rfl, fun e s' hrun => ?_⟩
  have hread : classSource? cls s = .ok (some ⟨decl, frame, .declared⟩) s :=
    congrArg (EStateM.Result.ok · s) hsource
  have hstage : setStage cls .signatures s = .ok ⟨⟩ s₁ := rfl
  have hopen : classScope cls s₁ = .ok own s₁ := by
    have hlook : look (·.class? cls) s₁ = .ok (some c) s₁ := congrArg (EStateM.Result.ok · s₁) hc
    unfold classScope
    rw [bind_ok hlook, ← hscope]
    rfl
  have hnone : resolveParents an frame decl cls own s₁ = .ok [] s₁ := by
    unfold resolveParents
    rw [hw.parents]
    rfl
  have hset : change (·.modifyClass cls fun c => { c with parents := [] }) s₁ = .ok ⟨⟩ s₁ := by
    have hsame : s.table.modifyClass cls (fun c => { c with parents := [] }) = s.table :=
      SymbolTable.modifyClass_eq_self hc (by rw [← hparents])
    show EStateM.Result.ok _ { s₁ with table := s.table.modifyClass cls _ } = _
    rw [hsame]
    rfl
  have hfree : checkRedeclaration field.name.name own field.node.position s₁ = .ok ⟨⟩ s₁ := by
    have hempty : s.table.findLocal field.name.name own [] none = [] := by
      rw [SymbolTable.findLocal_eq_named, hown.free _ hw.member.1 hw.member.2]
      rfl
    have hlook : look (·.findLocal field.name.name own [] none) s₁ = .ok [] s₁ :=
      congrArg (EStateM.Result.ok · s₁) hempty
    unfold checkRedeclaration
    rw [bind_ok hlook]
    rfl
  have hfield : declareFields an frame decl cls own s₁ = .error e s' := by
    unfold declareFields
    rw [hfields, List.foldlM_cons]
    refine bind_error (bind_error ?_)
    unfold declareField
    rw [bind_ok hfree]
    refine bind_error ?_
    unfold fieldType
    rw [hw.type]
    exact bind_error hrun
  unfold classSignatures
  rw [bind_ok hread]
  dsimp only
  rw [if_neg (by decide), bind_ok hstage, bind_ok hopen, bind_ok hnone, bind_ok hset, hw.bitfield]
  exact bind_error hfield

end Widens

/-! ## All steps -/

/-- The step is given up as too deep. By then there are instances for the type, for a pointer to it and so on,
half as many as the depth. -/
def GivesUp {α : Type} (s : State) (template : ItemId) (ty : Ty) (depth : Nat) (x : Analysis α) : Prop :=
  ∃ s', x s = .error ⟨.tooDeep, {}⟩ s' ∧ s'.options = s.options ∧
    (∀ t, s.HasInstance template t → s'.HasInstance template t) ∧
      ∀ j, 2 * j < depth → s'.HasInstance template (ty.pointed j)

/-- Neither the type nor a pointer to it, and so on, has an instance. -/
def State.Lacks (s : State) (template : ItemId) (ty : Ty) : Prop :=
  ∀ j, s.instances.findClass? template [ty.pointed j] = none

theorem State.Lacks.opened (h : s.Lacks template ty) :
    (s.opened template decl outer module p ty).Lacks template ty.point := by
  intro j
  have hother : (ty.pointed (j + 1)).erase ≠ ty.erase := fun hsame =>
    Nat.succ_ne_zero j (ty.pointed_erase_inj (j := 0) hsame)
  exact (findClass?_opened_of_ne (h 0) hother).trans (h (j + 1))

namespace Widens

variable (hw : Widens decl p field written argument)

include hw

/-- Whoever asks for the class comes to the members of the instance. -/
theorem type_givesUp {written argument : TypeExpr} {depth : Nat} (hwritten : Names decl written argument)
    (hp : s.Poised decl template outer module)
    (hfind : s.table.findAll decl.name.name scope EntityKind.values (some scope) = [template])
    (hargument : ∀ an, resolveType an frame argument scope s = .ok ty s) (hlacks : s.Lacks template ty)
    (hmembers : GivesUp (s.opened template decl outer module p ty) template ty depth
      ((analyst depth).ask (.signatures ⟨s.table.items.size⟩))) :
    GivesUp s template ty depth ((analyst (depth + 1)).type frame written scope) := by
  cases depth with
  | zero =>
    refine ⟨s, hwritten.type_error hp hfind ?_, rfl, fun _ h => h, fun j hj => absurd hj (Nat.not_lt_zero _)⟩
    exact bind_error rfl
  | succ depth =>
    obtain ⟨s', hrun, hoptions, hkept, hmade⟩ := hmembers
    have hasked : (analyst (depth + 1)).type frame argument scope s = .ok ty s := hargument (analyst depth)
    have hmissing : s.instances.findClass? template [ty] = none := hlacks 0
    refine ⟨s', hwritten.type_error hp hfind ?_, hoptions.trans State.options_opened,
      fun t ht => hkept t (ht.opened hmissing), hmade⟩
    rw [bind_ok hasked, instantiateClass_opens hp.known hw.generics hw.structural hp.stack hmissing]
    exact bind_error hrun

/-- The members of an instance come to those of the next, so they are given up at any depth. Each instance
takes two levels: one for its members and one for the type of the field. -/
theorem signatures_givesUp (depth : Nat) (hp : s.Poised decl template outer module)
    (hsource : ∃ frame, s.classes.lookup cls = some ⟨decl, frame, .declared⟩)
    (hown : s.table.IsInstanceScope own outer cls p ty) (hthere : s.HasInstance template ty)
    (hlacks : s.Lacks template ty.point) :
    GivesUp s template ty depth ((analyst depth).ask (.signatures cls)) := by
  induction depth using Nat.strongRecOn generalizing s own cls ty with
  | ind depth ih =>
  cases depth with
  | zero => exact ⟨s, rfl, rfl, fun _ h => h, fun j hj => absurd hj (Nat.not_lt_zero _)⟩
  | succ depth =>
  obtain ⟨frame, s₁, htable, htemplates, hstack, hinstances, hoptions, hrest⟩ :=
    hw.signatures_error (analyst depth) hsource hown
  have hp₁ : s₁.Poised decl template outer module :=
    ⟨htemplates ▸ hp.known, htable ▸ hp.declares, hstack ▸ hp.stack⟩
  have hown₁ : s₁.table.IsInstanceScope own outer cls p ty := htable ▸ hown
  have hsame (t : Ty) : s₁.HasInstance template t ↔ s.HasInstance template t := by
    unfold State.HasInstance
    rw [hinstances]
  cases depth with
  | zero =>
    have hdeep : (analyst 0).type frame written own s₁ = .error ⟨.tooDeep, {}⟩ s₁ := rfl
    refine ⟨s₁, hrest _ _ hdeep, hoptions, fun t ht => (hsame t).2 ht, fun j hj => ?_⟩
    obtain rfl : j = 0 := by omega
    exact (hsame ty).2 hthere
  | succ depth =>
    have hlacks₁ : s₁.Lacks template ty.point := by
      unfold State.Lacks
      rw [hinstances]
      exact hlacks
    have hfind : s₁.table.findAll decl.name.name own EntityKind.values (some own) = [template] :=
      hp₁.declares.findAll_inside hown₁.scope (hown₁.free _ hw.own.1 hw.own.2)
    have hnext : GivesUp (s₁.opened template decl outer module p ty.point) template ty.point depth
        ((analyst depth).ask (.signatures ⟨s₁.table.items.size⟩)) :=
      ih depth (by omega) hp₁.opened ⟨_, List.lookup_cons_self⟩ (hp₁.declares.isInstanceScope hw.parameter)
        (.self (hlacks₁ 0)) hlacks₁.opened
    have hargument (an : Analyst) : resolveType an frame argument own s₁ = .ok ty.point s₁ :=
      hw.argument_run hown₁
    obtain ⟨s', hrun, hoptions', hkept, hmade⟩ :=
      hw.type_givesUp hw.itself hp₁ hfind hargument hlacks₁ hnext
    refine ⟨s', hrest _ _ hrun, hoptions'.trans hoptions, fun t ht => hkept t ((hsame t).2 ht), fun j hj => ?_⟩
    cases j with
    | zero => exact hkept ty ((hsame ty).2 hthere)
    | succ j => exact hmade j (by omega)

/-- Wherever the class is asked for, for a type that is new with all pointers to it, the answer does not come. -/
theorem asked_givesUp {written argument : TypeExpr} (depth : Nat) (hwritten : Names decl written argument)
    (hp : s.Poised decl template outer module)
    (hfind : s.table.findAll decl.name.name scope EntityKind.values (some scope) = [template])
    (hargument : ∀ an, resolveType an frame argument scope s = .ok ty s) (hlacks : s.Lacks template ty) :
    GivesUp s template ty depth ((analyst (depth + 1)).type frame written scope) :=
  hw.type_givesUp hwritten hp hfind hargument hlacks <|
    hw.signatures_givesUp depth hp.opened ⟨_, List.lookup_cons_self⟩ (hp.declares.isInstanceScope hw.parameter)
      (.self (hlacks 0)) hlacks.opened

end Widens

end

/-! ## A program -/

namespace Endless

/-- `Node<argument>*` -/
def nodeOf (argument : TypeExpr) : TypeExpr :=
  { form := .named [{ name := "Node" }] [argument], layers := [{ pointer := true }] }

/-- `T*` -/
def next : TypeExpr := { form := .named [{ name := "T" }] [], layers := [{ pointer := true }] }

/-- `next: Node<T*>*` -/
def nextField : FieldDecl Expr :=
  { node := ⟨.written 2, {}⟩, name := { name := "next" }, ty := some (nodeOf next) }

/-- `class Node<T> { next: Node<T*>* }` -/
def node : ClassDef :=
  { node := ⟨.written 1, {}⟩, name := { name := "Node" }, generics := [{ name := "T" }]
    members := [.field nextField] }

/-- `var x: Node<int>*` -/
def holder : VariableDecl Expr :=
  { node := ⟨.written 3, {}⟩, name := { name := "x" }, ty := some (nodeOf { form := .native .int }) }

/-- `class Node<T> { next: Node<T*>* }  var x: Node<int>*` -/
def root : Root := { statements := [.cls node, .declare holder] }

/-- A session that nests no deeper than a bound. -/
def session (bound : Nat) : Session := { options := { nesting := bound } }

theorem widens : Widens node { name := "T" } nextField (nodeOf next) next where
  generics := rfl
  parents := rfl
  structural := rfl
  bitfield := rfl
  first := ⟨[], rfl⟩
  type := rfl
  itself := ⟨{ name := "Node" }, rfl, rfl⟩
  pointer := ⟨{ name := "T" }, rfl, rfl⟩
  layers := rfl
  keyword := rfl
  own := by decide
  parameter := by decide
  member := by decide

/-! ### The class is declared -/

section Runs

variable {s s' : State} {frame : Frame} {decl : ClassDef} {outer : ScopeId} {e : Diagnostic}

theorem insert_empty (k : DetailKey) (d : Detail) (position : Position) :
    DetailTable.insert {} k d position = .ok ⟨#[(k, d)]⟩ := by
  have hnone : DetailTable.contains {} k = false := by simp [DetailTable.contains]
  rw [DetailTable.insert, hnone]
  rfl

/-- The table with a generic class. -/
def openTemplate (t : SymbolTable) (frame : Frame) (decl : ClassDef) (outer : ScopeId) : SymbolTable :=
  ((t.newScope outer .block).2.addItem
    { name := decl.name.name
      scope := outer
      module := frame.module
      visibility := decl.visibility
      position := decl.node.position
      generics := decl.generics.length
      entity := .cls { scope := ⟨t.scopes.size⟩, flags := decl.flags } }).2.setOwner ⟨t.scopes.size⟩
        (.cls ⟨t.items.size⟩)

theorem declareClassTemplate_run (hdetails : s.details = {}) :
    declareClassTemplate frame decl outer s = .ok ⟨s.table.items.size⟩
      { s with
        table := openTemplate s.table frame decl outer
        templates := (⟨s.table.items.size⟩, .cls decl outer frame.module) :: s.templates
        details := ⟨#[(⟨frame.id, decl.node.id⟩,
          .cls { cls := ⟨s.table.items.size⟩, isTemplate := true })]⟩ } := by
  let cls : ItemId := ⟨s.table.items.size⟩
  let s₁ : State := { s with table := (s.table.newScope outer .block).2 }
  let s₂ : State := { s₁ with table := (s₁.table.addItem
    { name := decl.name.name
      scope := outer
      module := frame.module
      visibility := decl.visibility
      position := decl.node.position
      generics := decl.generics.length
      entity := .cls { scope := ⟨s.table.scopes.size⟩, flags := decl.flags } }).2 }
  let s₃ : State := { s₂ with
    table := openTemplate s.table frame decl outer
    templates := (cls, .cls decl outer frame.module) :: s.templates }
  have hscope : newScope outer s = .ok ⟨s.table.scopes.size⟩ s₁ := newScope_run s
  have hitem : addItem _ s₁ = .ok cls s₂ :=
    congrArg (EStateM.Result.ok · s₂) (congrArg ItemId.mk (SymbolTable.size_newScope ..))
  have hrecord (d : Detail) : record frame decl.node d s₃ =
      .ok ⟨⟩ { s₃ with details := ⟨#[(⟨frame.id, decl.node.id⟩, d)]⟩ } := by
    have hinsert : s₃.details.insert ⟨frame.id, decl.node.id⟩ d decl.node.position =
        .ok ⟨#[(⟨frame.id, decl.node.id⟩, d)]⟩ := by
      show s.details.insert _ _ _ = _
      rw [hdetails, insert_empty]
    rw [record_eq, hinsert]
  unfold declareClassTemplate
  rw [bind_ok hscope, bind_ok hitem]
  exact bind_ok (hrecord _)

theorem attempt_ok {x : Analysis Unit} (h : x s = .ok ⟨⟩ s') : attempt x s = .ok ⟨⟩ s' := by
  have hrecover : recover x s = .ok (some ⟨⟩) s' := by rw [recover_run, h]
  show EStateM.map _ (recover x) s = _
  rw [EStateM.map, hrecover]

theorem attempt_error {x : Analysis Unit} (h : x s = .error e s') (hcollect : s'.options.collectErrors = false) :
    attempt x s = .error e s' := by
  have hrecover : recover x s = .error e s' := by
    rw [recover_run, h]
    dsimp only
    rw [hcollect]
    rfl
  show EStateM.map _ (recover x) s = _
  rw [EStateM.map, hrecover]

end Runs

/-- The frame of the program. -/
def top : Frame := ⟨⟨0⟩, ⟨0⟩⟩

/-- The program is about to be analysed. -/
def start (bound : Nat) : State :=
  State.entered { (session bound).start with loads := LoadStates.set {} Session.rootPath .loading }
    Session.rootName Session.rootPath.spelling ""

/-- Its class is declared. -/
def declared (bound : Nat) : State :=
  { start bound with
    table := openTemplate (start bound).table top node ⟨0⟩
    templates := [(⟨0⟩, .cls node ⟨0⟩ ⟨0⟩)]
    details := ⟨#[(⟨⟨0⟩, .written 1⟩, .cls { cls := ⟨0⟩, isTemplate := true })]⟩
    declared := [(⟨⟨0⟩, .written 1⟩, ⟨0⟩)] }

theorem types_run (bound : Nat) (an : Analyst) :
    runPass an .types top root.statements ⟨0⟩ (start bound) = .ok ⟨⟩ (declared bound) := by
  have htemplate : declareClassTemplate top node ⟨0⟩ (start bound) = .ok ⟨0⟩ _ := declareClassTemplate_run rfl
  have hclass : declareClass top node ⟨0⟩ (start bound) = .ok ⟨0⟩ (declared bound) := by
    show (declareClassTemplate top node ⟨0⟩ >>= _) (start bound) = _
    rw [bind_ok htemplate]
    rfl
  have hdiscard : (discard <| declareClass top node ⟨0⟩ : Analysis Unit) (start bound) =
      .ok ⟨⟩ (declared bound) := by
    show EStateM.map _ (declareClass top node ⟨0⟩) (start bound) = _
    rw [EStateM.map, hclass]
  show (attempt (discard <| declareClass top node ⟨0⟩) >>= _) (start bound) = _
  exact bind_ok (attempt_ok hdiscard)

theorem declared_poised (bound : Nat) : (declared bound).Poised node ⟨0⟩ ⟨0⟩ ⟨0⟩ := by
  have hscope : (declared bound).table.scope? ⟨0⟩ =
      some { id := ⟨0⟩, parent := none, owner := .unit ⟨0⟩, module := ⟨0⟩, items := [⟨0⟩]
             nextChild := 1 } := rfl
  have hitem : (declared bound).table.item? ⟨0⟩ =
      some { id := ⟨0⟩, name := "Node", scope := ⟨0⟩, module := ⟨0⟩, generics := 1
             entity := .cls { scope := ⟨2⟩, flags := {} } } := rfl
  refine ⟨rfl, ⟨?_, ⟨_, _, hitem, rfl, rfl, rfl, rfl⟩, ?_, ?_⟩, rfl⟩
  · unfold SymbolTable.named SymbolTable.hasName
    rw [hscope]
    simp [hitem, node]
  · intro sc hsc j hj
    cases hscope.symm.trans hsc
    cases List.mem_singleton.1 hj
    exact SymbolTable.lt_of_item? hitem
  · unfold SymbolTable.classOwner?
    rw [hscope]
    rfl

/-! ### The variable is not -/

theorem signatures_run (bound depth : Nat) : ∃ s',
    runPass (analyst (depth + 1)) .signatures top root.statements ⟨0⟩ (declared bound) =
      .error ⟨.tooDeep, {}⟩ s' ∧ ∀ j, 2 * j < depth → s'.HasInstance ⟨0⟩ (Ty.int.pointed j) := by
  have hp := declared_poised bound
  have hint (an : Analyst) : resolveType an top { form := .native .int } ⟨0⟩ (declared bound) =
      .ok .int (declared bound) := rfl
  have hnames : Names node (nodeOf { form := .native .int }) { form := .native .int } :=
    ⟨{ name := "Node" }, rfl, rfl⟩
  obtain ⟨s', hrun, hoptions, -, hmade⟩ :=
    widens.asked_givesUp depth hnames hp hp.declares.findAll hint fun _ => rfl
  have hfirst : signaturePass (analyst (depth + 1)) top ⟨0⟩ (.cls node) (declared bound) =
      .ok ⟨⟩ (declared bound) := rfl
  have hsecond : signaturePass (analyst (depth + 1)) top ⟨0⟩ (.declare holder) (declared bound) =
      .error ⟨.tooDeep, {}⟩ s' := by
    show predeclareVariable (analyst (depth + 1)) top holder ⟨0⟩ (declared bound) = _
    unfold predeclareVariable
    exact bind_error (bind_error hrun)
  have hcollect : s'.options.collectErrors = false := by
    rw [hoptions]
    rfl
  refine ⟨s', ?_, hmade⟩
  show (attempt (signaturePass (analyst (depth + 1)) top ⟨0⟩ (.cls node)) >>= _) (declared bound) = _
  rw [bind_ok (attempt_ok hfirst)]
  exact bind_error (attempt_error hsecond hcollect)

/-- What the passes come to, if that of the signatures fails. -/
theorem passes_error (bound depth : Nat) {e : Diagnostic} {s' : State}
    (h : runPass (analyst depth) .signatures top root.statements ⟨0⟩ (declared bound) = .error e s') :
    runPasses (analyst (depth + 1)) top root.statements ⟨0⟩ (start bound) = .error e s' := by
  have htypes : (analyst (depth + 1)).ask (.pass .types top root.statements ⟨0⟩) (start bound) =
      .ok ⟨⟩ (declared bound) := types_run bound _
  have haliases : (analyst (depth + 1)).ask (.pass (.aliases false) top root.statements ⟨0⟩) (declared bound) =
      .ok ⟨⟩ (declared bound) := rfl
  unfold runPasses
  exact bind_error ((bind_ok htypes).trans ((bind_ok haliases).trans (bind_error h)))

/-- The passes are given up, with instances for what the bound leaves room for. -/
theorem passes_run (bound : Nat) : ∃ s',
    runPasses (analyst bound) top root.statements ⟨0⟩ (start bound) = .error ⟨.tooDeep, {}⟩ s' ∧
      ∀ j, 2 * j + 2 < bound → s'.HasInstance ⟨0⟩ (Ty.int.pointed j) := by
  rcases bound with _ | _ | depth
  · exact ⟨_, rfl, fun j hj => absurd hj (by omega)⟩
  · exact ⟨_, passes_error 1 0 rfl, fun j hj => absurd hj (by omega)⟩
  · obtain ⟨s', hrun, hmade⟩ := signatures_run (depth + 2) depth
    exact ⟨s', passes_error _ _ hrun, fun j hj => hmade j (by omega)⟩

/-- The session ends as the passes do. -/
theorem analyseTree_eq {bound : Nat} {e : Diagnostic} {s' : State}
    (h : runPasses (analyst bound) top root.statements ⟨0⟩ (start bound) = .error e s') :
    (session bound).analyseTree root =
      ⟨.error (.analysis e), { s'.left with loads := s'.left.loads.abandon Session.rootPath }⟩ := by
  let s₀ : State := { (session bound).start with loads := LoadStates.set {} Session.rootPath .loading }
  have hbegin : beginLoad Session.rootPath root.position (session bound).start = .ok none s₀ :=
    beginLoad_run ..
  let s₁ : State := s₀.made Session.rootName Session.rootPath.spelling ""
  have hmodule : detailModule (analyst bound) root s₀.nextModule s₁ = .error e s'.left := by
    obtain ⟨md, hmd, hscope⟩ : ∃ md, s₁.table.module? s₀.nextModule = some md ∧ md.scope = ⟨0⟩ := ⟨_, rfl, rfl⟩
    have hpasses : runPasses (analyst bound) ⟨⟨s₁.nextFrame⟩, s₀.nextModule⟩ root.statements ⟨0⟩
        (s₁.within s₀.nextModule) = .error e s' := h
    rw [detailModule_run hmd, hscope, hpasses]
  have hroot : (analyseRoot root Session.rootName Session.rootPath (session bound).package).run
      (session bound).start =
      .error e { s'.left with loads := s'.left.loads.abandon Session.rootPath } := by
    show detailRoot (analyst bound) root Session.rootName Session.rootPath "" (session bound).start = _
    unfold detailRoot
    rw [bind_ok hbegin]
    dsimp only
    rw [loadTree_eq, hmodule]
  unfold Session.analyseTree Session.run
  rw [hroot]

/-- The session ends for nesting too deep, with instances for what the bound leaves room for. -/
theorem analyseTree_tooDeep (bound : Nat) : ∃ s',
    (session bound).analyseTree root = ⟨.error (.analysis ⟨.tooDeep, {}⟩), s'⟩ ∧
      ∀ j, 2 * j + 2 < bound → s'.HasInstance ⟨0⟩ (Ty.int.pointed j) := by
  obtain ⟨s', hrun, hmade⟩ := passes_run bound
  exact ⟨_, analyseTree_eq hrun, hmade⟩

end Endless

/-- **Instances without end.** However deep the analysis of the program may nest, it ends for being too deep.
By then there is an instance for each pointer to a pointer, and so on, to `int` that the bound leaves room for,
and these are different types. -/
theorem instances_without_end :
    (∀ bound, ∃ s', (Endless.session bound).analyseTree Endless.root =
        ⟨.error (.analysis ⟨.tooDeep, {}⟩), s'⟩ ∧
      ∀ j, 2 * j + 2 < bound → (s'.instances.findClass? ⟨0⟩ [Ty.int.pointed j]).isSome = true) ∧
    ∀ i j, ([Ty.int.pointed i] == [Ty.int.pointed j]) = true → i = j := by
  refine ⟨Endless.analyseTree_tooDeep, fun i j hsame => ?_⟩
  have herase := (Ty.beq_list_iff _ _).1 hsame
  exact Ty.int.pointed_erase_inj (List.head_eq_of_cons_eq herase)

end SemanticAnalysis
