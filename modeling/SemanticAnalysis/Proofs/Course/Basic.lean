import SemanticAnalysis.Proofs.Analysis.Settled
import SemanticAnalysis.Proofs.Generics.Instances
import SemanticAnalysis.Proofs.SymbolTable.Natures

/-!
# The course of an analysis

What an analysis can do to a state, said once. Most steps are ordinary ones (`State.Ordinary`): they
add to the symbol table and leave alone which generic instances are remembered, which modules are being
loaded, and how modules are linked. `Course` lists the others:

* a call for a generic instance that was not there yet: the instance is remembered first
  (`State.Opens`), then its members follow, and the call returns or fails;
* two modules are linked, the first under analysis and the second one analysed;
* a path is claimed, given up or finished;
* a new module is entered, its code analysed, and the module left again, with or without an error.

Code from outside touches the table in one place, the callbacks of attributes. What they are trusted
with is stated where it is needed: that no item goes away (`AttributeTable.Growing`), that what the order
of modules rests on stays too (`AttributeTable.Steady`), that the table retains what it has
(`AttributeTable.Discreet`), or that items go on to be what they were declared as, with captures in order
(`AttributeTable.Loyal`).
-/

namespace SemanticAnalysis

/-! ## Callbacks -/

/-- No callback takes an item away. -/
def AttributeTable.Growing (t : AttributeTable) : Prop :=
  ∀ r ∈ t.registrations, ∀ (i : Invocation) (u : SymbolTable),
    u.items.size ≤ (r.callback i u).2.items.size

/-- Callbacks take nothing away, link no modules, and leave inner scopes and those of functions and
modules where they are: inside or outermost. -/
def AttributeTable.Steady (t : AttributeTable) : Prop :=
  ∀ r ∈ t.registrations, ∀ (i : Invocation) (u : SymbolTable),
    u.items.size ≤ (r.callback i u).2.items.size ∧ u.Anchors (r.callback i u).2

/-- Callbacks neither rename nor move what is there, nor link modules. -/
def AttributeTable.Discreet (t : AttributeTable) : Prop :=
  ∀ r ∈ t.registrations, ∀ (i : Invocation) (u : SymbolTable), u.Retains (r.callback i u).2

/-- Callbacks conserve natures and the order of captures. -/
def AttributeTable.Loyal (t : AttributeTable) : Prop :=
  ∀ r ∈ t.registrations, ∀ (i : Invocation) (u : SymbolTable), u.Conserves (r.callback i u).2

theorem AttributeTable.Steady.growing {t : AttributeTable} (h : t.Steady) : t.Growing :=
  fun r hr i u => (h r hr i u).1

theorem AttributeTable.Discreet.steady {t : AttributeTable} (h : t.Discreet) : t.Steady :=
  fun r hr i u => ⟨(h r hr i u).size_le, (h r hr i u).anchors⟩

theorem AttributeTable.Discreet.growing {t : AttributeTable} (h : t.Discreet) : t.Growing :=
  h.steady.growing

/-! ## Calls for instances -/

/-- Generic classes and generic functions have instances. -/
inductive InstanceKind where
  | cls
  | fn
deriving DecidableEq

/-- What a call for an instance asks for. -/
structure Instantiation where
  kind : InstanceKind
  template : ItemId
  arguments : List Ty

namespace Instantiation

/-- The call. -/
def run (c : Instantiation) (an : Analyst) (position : Position) : Analysis ItemId :=
  match c.kind with
  | .cls => Analysis.instantiateClass an c.template c.arguments position
  | .fn => Analysis.instantiateFunction an c.template c.arguments position

/-- Two calls ask for the same: one template, and the same types up to names and ids of parameters. -/
structure Same (c d : Instantiation) : Prop where
  kind : c.kind = d.kind
  template : c.template = d.template
  arguments : c.arguments.map Ty.erase = d.arguments.map Ty.erase

variable {c d e : Instantiation}

theorem Same.refl (c : Instantiation) : c.Same c := ⟨rfl, rfl, rfl⟩

theorem Same.symm (h : c.Same d) : d.Same c := ⟨h.kind.symm, h.template.symm, h.arguments.symm⟩

theorem Same.trans (h : c.Same d) (h' : d.Same e) : c.Same e :=
  ⟨h.kind.trans h'.kind, h.template.trans h'.template, h.arguments.trans h'.arguments⟩

end Instantiation

/-- A template of the kind that takes that many arguments. -/
def Template.Takes : Template → InstanceKind → Nat → Prop
  | .cls decl .., .cls, n => decl.generics.length = n
  | .fn decl .., .fn, n => decl.generics.length = n
  | _, _, _ => False

namespace Instances

/-- The table of the instances of a kind. -/
def table (s : Instances) : InstanceKind → InstanceTable
  | .cls => s.classes
  | .fn => s.functions

/-- Remember an instance. -/
def remember (s : Instances) (template : ItemId) (inst : Instance) : InstanceKind → Instances
  | .cls => (s.insertClass template inst).2
  | .fn => (s.insertFunction template inst).2

theorem table_remember_self (s : Instances) (template : ItemId) (inst : Instance)
    (k : InstanceKind) :
    (s.remember template inst k).table k = ((s.table k).insert argumentsKey template inst).2 := by
  cases k <;> rfl

theorem table_remember_of_ne (s : Instances) (template : ItemId) (inst : Instance)
    {k k' : InstanceKind} (h : k' ≠ k) :
    (s.remember template inst k).table k' = s.table k' := by
  cases k <;> cases k' <;> first | rfl | exact absurd rfl h

end Instances

namespace State

variable {s s' s'' : State}

/-- The item of the instance that a call asks for, if it is there. -/
def instance? (s : State) (c : Instantiation) : Option ItemId :=
  ((s.instances.table c.kind).find? Instances.argumentsKey c.template c.arguments).map (·.item)

/-- The template of a call is there and takes that many arguments. -/
def Offers (s : State) (c : Instantiation) : Prop :=
  ∃ t, s.templates.lookup c.template = some t ∧ t.Takes c.kind c.arguments.length

theorem instance?_congr (s : State) {c d : Instantiation} (h : c.Same d) :
    s.instance? c = s.instance? d := by
  unfold instance?
  rw [h.kind, h.template,
    InstanceTable.find?_congr (fun _ _ => Instances.argumentsKey_congr) h.arguments]

/-- The modules that were analysed, in order. -/
def analysed (s : State) : List ModuleId := s.roots.map (·.module)

/-! ## Ordinary steps -/

/-- What an ordinary step does: the table grows, and keeps what callbacks are trusted to keep;
templates are kept, and new ones belong to existing items; all else that matters stays as it is. -/
structure Ordinary (s s' : State) : Prop where
  items_le : s.table.items.size ≤ s'.table.items.size
  anchors : s.attributes.Steady → s.table.Anchors s'.table
  retains : s.attributes.Discreet → s.table.Retains s'.table
  conserves : s.attributes.Loyal → s.table.Conserves s'.table
  templates : ∀ i t, s.templates.lookup i = some t → s'.templates.lookup i = some t := by
    exact fun _ _ h => h
  owned : ∀ i t, s'.templates.lookup i = some t →
      s.templates.lookup i = some t ∨ i.index < s'.table.items.size := by
    exact fun _ _ h => .inl h
  attributes : s'.attributes = s.attributes := by rfl
  instances : s'.instances = s.instances := by rfl
  loads : s'.loads = s.loads := by rfl
  moduleStack : s'.moduleStack = s.moduleStack := by rfl
  roots : s'.roots = s.roots := by rfl

namespace Ordinary

theorem refl (s : State) : s.Ordinary s where
  items_le := Nat.le_refl _
  anchors _ := .refl _
  retains _ := .refl _
  conserves _ := .refl _

theorem trans (h : s.Ordinary s') (h' : s'.Ordinary s'') : s.Ordinary s'' where
  items_le := Nat.le_trans h.items_le h'.items_le
  anchors hd := (h.anchors hd).trans (h'.anchors (h.attributes ▸ hd))
  retains hd := (h.retains hd).trans (h'.retains (h.attributes ▸ hd))
  conserves hd := (h.conserves hd).trans (h'.conserves (h.attributes ▸ hd))
  templates i t hi := h'.templates i t (h.templates i t hi)
  owned i t hi := by
    rcases h'.owned i t hi with hold | hnew
    · rcases h.owned i t hold with hold' | hnew
      · exact .inl hold'
      · exact .inr (Nat.lt_of_lt_of_le hnew h'.items_le)
    · exact .inr hnew
  attributes := h'.attributes.trans h.attributes
  instances := h'.instances.trans h.instances
  loads := h'.loads.trans h.loads
  moduleStack := h'.moduleStack.trans h.moduleStack
  roots := h'.roots.trans h.roots

theorem analysed_eq (h : s.Ordinary s') : s'.analysed = s.analysed := by
  rw [analysed, analysed, h.roots]

/-- A change of the table alone. -/
theorem of_table {t : SymbolTable} (h : s.table.Maintains t) : s.Ordinary { s with table := t } where
  items_le := h.size_le
  anchors _ := h.anchors
  retains _ := h.toRetains
  conserves _ := h.conserves

end Ordinary

/-! ## The other steps -/

/-- A call finds no instance and makes one: the item is new, and the instance is remembered. -/
structure Opens (s : State) (c : Instantiation) (item : ItemId) (s' : State) : Prop where
  offers : s.Offers c
  missing : s.instance? c = none
  fresh : s.table.items.size ≤ item.index
  made : item.index < s'.table.items.size
  remembered : ∃ frame, s'.instances = s.instances.remember c.template ⟨c.arguments, item, frame⟩ c.kind
  ordinary : s.Ordinary { s' with instances := s.instances }

/-- Link a module to one that it depends on. -/
def linked (s : State) (m d : ModuleId) : State :=
  { s with
    table := (s.table.modifyModule m (·.addDependency d)).modifyModule d (·.addDependent m) }

theorem persists_linked (s : State) (m d : ModuleId) : s.table.Persists (s.linked m d).table := by
  have hdependency : s.table.Persists (s.table.modifyModule m (·.addDependency d)) :=
    .modifyModule fun _ => rfl
  exact hdependency.trans (.modifyModule fun _ => rfl)

/-- The number of the next module. -/
def nextModule (s : State) : ModuleId := ⟨s.table.modules.size⟩

/-- Begin to analyse the code of a module. -/
def within (s : State) (m : ModuleId) : State :=
  { s with nextFrame := s.nextFrame + 1, moduleStack := m :: s.moduleStack }

/-- Make a module. -/
def made (s : State) (name path package : String) : State :=
  { s with table := (s.table.newModule name path package).2 }

/-- Make a module and begin to analyse its code. -/
def entered (s : State) (name path package : String) : State :=
  (s.made name path package).within s.nextModule

/-- Stop analysing the code of the innermost module. -/
def left (s : State) : State := { s with moduleStack := s.moduleStack.drop 1 }

/-- File a module as analysed. -/
def filed (s : State) (root : AnalysedRoot) : State := { s with roots := s.roots ++ [root] }

theorem analysed_filed (s : State) (root : AnalysedRoot) :
    (s.filed root).analysed = s.analysed ++ [root.module] := by
  simp [analysed, filed]

end State

/-! ## Courses -/

/-- The state behind a step, whether or not it stopped with an error. -/
def Analysis.behind {α : Type} (x : Analysis α) (s : State) : State :=
  match x s with
  | .ok _ s' => s'
  | .error _ s' => s'

/-- What an analysis can do to a state. -/
inductive Course : State → State → Prop where
  | ordinary {s s' : State} (h : s.Ordinary s') : Course s s'
  | trans {s s' s'' : State} (h : Course s s') (h' : Course s' s'') : Course s s''
  /-- A call that makes an instance. -/
  | call {s opened s' : State} {c : Instantiation} {item : ItemId} {an : Analyst}
      {position : Position} (hopens : s.Opens c item opened) (hmembers : Course opened s')
      (hends : c.run an position s = .ok item s' ∨ ∃ e, c.run an position s = .error e s') :
      Course s s'
  | link {s : State} {m d : ModuleId}
      (h : s.attributes.Steady → m ∈ s.moduleStack ∧ d ∈ s.analysed) : Course s (s.linked m d)
  /-- Claim, give up or finish a path. -/
  | loads {s : State} {loads : LoadStates}
      (h : ∀ path m, loads.state? path = some (.done m) →
        s.loads.state? path = some (.done m) ∨ m ∈ s.analysed) : Course s { s with loads }
  /-- A new module that is not analysed to its end. -/
  | abandoned {s s' : State} {name path package : String}
      (h : Course (s.entered name path package) s') : Course s s'.left
  /-- A new module that is. -/
  | analysed {s s' s'' : State} {name path package : String} {frame : FrameId} {root : Root}
      (h : Course (s.entered name path package) s') (hleft : s'.left.Ordinary s'') :
      Course s (s''.filed ⟨s.nextModule, frame, root⟩)

namespace Course

variable {s s' : State}

theorem refl (s : State) : Course s s := .ordinary (.refl s)

theorem attributes_eq (h : Course s s') : s'.attributes = s.attributes := by
  induction h with
  | ordinary h => exact h.attributes
  | trans _ _ ih ih' => exact ih'.trans ih
  | call hopens _ _ ih => exact ih.trans hopens.ordinary.attributes
  | link _ | loads _ => rfl
  | abandoned _ ih => exact ih
  | analysed _ hleft ih => exact hleft.attributes.trans ih

/-- Modules that were entered have been left. -/
theorem moduleStack_eq (h : Course s s') : s'.moduleStack = s.moduleStack := by
  induction h with
  | ordinary h => exact h.moduleStack
  | trans _ _ ih ih' => exact ih'.trans ih
  | call hopens _ _ ih => exact ih.trans hopens.ordinary.moduleStack
  | link _ | loads _ => rfl
  | abandoned _ ih => exact congrArg (List.drop 1) ih
  | analysed _ hleft ih => exact hleft.moduleStack.trans (congrArg (List.drop 1) ih)

theorem items_le (h : Course s s') : s.table.items.size ≤ s'.table.items.size := by
  induction h with
  | ordinary h => exact h.items_le
  | trans _ _ ih ih' => exact Nat.le_trans ih ih'
  | call hopens _ _ ih => exact Nat.le_trans hopens.ordinary.items_le ih
  | link _ | loads _ => exact Nat.le_refl _
  | abandoned _ ih => exact ih
  | analysed _ hleft ih => exact Nat.le_trans ih hleft.items_le

/-- Analysed modules stay so, and later ones come behind them. -/
theorem analysed_prefix (h : Course s s') : s.analysed <+: s'.analysed := by
  induction h with
  | ordinary h => exact h.analysed_eq ▸ List.prefix_rfl
  | trans _ _ ih ih' => exact ih.trans ih'
  | call hopens _ _ ih => exact hopens.ordinary.analysed_eq ▸ ih
  | link _ | loads _ => exact List.prefix_rfl
  | abandoned _ ih => exact ih
  | analysed _ hleft ih =>
    rw [State.analysed_filed, hleft.analysed_eq]
    exact ih.trans (List.prefix_append _ _)

theorem owned (h : Course s s') {i : ItemId} {t : Template} (hi : s'.templates.lookup i = some t) :
    s.templates.lookup i = some t ∨ i.index < s'.table.items.size := by
  induction h with
  | ordinary h => exact h.owned i t hi
  | trans _ h' ih ih' =>
    rcases ih' hi with hold | hnew
    · exact (ih hold).imp_right fun hlt => Nat.lt_of_lt_of_le hlt h'.items_le
    · exact .inr hnew
  | call hopens hmembers _ ih =>
    rcases ih hi with hold | hnew
    · exact (hopens.ordinary.owned i t hold).imp_right fun hlt =>
        Nat.lt_of_lt_of_le hlt hmembers.items_le
    · exact .inr hnew
  | link _ => exact .inl hi
  | loads _ => exact .inl hi
  | abandoned _ ih => exact ih hi
  | analysed _ hleft ih =>
    rcases hleft.owned i t hi with hold | hnew
    · exact (ih hold).imp_right fun hlt => Nat.lt_of_lt_of_le hlt hleft.items_le
    · exact .inr hnew

/-- With discreet callbacks, nothing of the table is taken back. -/
theorem persists (h : Course s s') (hd : s.attributes.Discreet) : s.table.Persists s'.table := by
  induction h with
  | ordinary h => exact (h.retains hd).toPersists
  | trans h _ ih ih' => exact (ih hd).trans (ih' (h.attributes_eq ▸ hd))
  | call hopens _ _ ih =>
    have hopened := hopens.ordinary.attributes
    exact (hopens.ordinary.retains hd).toPersists.trans (ih (hopened ▸ hd))
  | link _ => exact State.persists_linked ..
  | loads _ => exact .refl _
  | abandoned _ ih => exact SymbolTable.Persists.newModule.trans (ih hd)
  | analysed h hleft ih =>
    have hattributes : _ = _ := h.attributes_eq
    exact (SymbolTable.Persists.newModule.trans (ih hd)).trans
      (hleft.retains (hattributes ▸ hd)).toPersists

/-- With loyal callbacks, items go on to be what they were declared as. -/
theorem conserves (h : Course s s') (hd : s.attributes.Loyal) : s.table.Conserves s'.table := by
  induction h with
  | ordinary h => exact h.conserves hd
  | trans h _ ih ih' => exact (ih hd).trans (ih' (h.attributes_eq ▸ hd))
  | call hopens _ _ ih =>
    have hopened := hopens.ordinary.attributes
    exact (hopens.ordinary.conserves hd).trans (ih (hopened ▸ hd))
  | link _ => exact .of_items rfl
  | loads _ => exact .refl _
  | @abandoned s _ name path package _ ih =>
    have hmade : s.table.Conserves (s.entered name path package).table := .of_items rfl
    exact hmade.trans (ih hd)
  | @analysed s _ _ name path package _ _ h hleft ih =>
    have hattributes : _ = _ := h.attributes_eq
    have hmade : s.table.Conserves (s.entered name path package).table := .of_items rfl
    exact (hmade.trans (ih hd)).trans (hleft.conserves (hattributes ▸ hd))

/-- With steady callbacks, nothing is taken inside out. -/
theorem shelters (h : Course s s') (hd : s.attributes.Steady) : s.table.Shelters s'.table := by
  induction h with
  | ordinary h => exact (h.anchors hd).toShelters
  | trans h _ ih ih' => exact (ih hd).trans (ih' (h.attributes_eq ▸ hd))
  | call hopens _ _ ih =>
    have hopened := hopens.ordinary.attributes
    exact (hopens.ordinary.anchors hd).toShelters.trans (ih (hopened ▸ hd))
  | link _ => exact (State.persists_linked ..).shelters
  | loads _ => exact .refl _
  | abandoned _ ih => exact SymbolTable.Persists.newModule.shelters.trans (ih hd)
  | analysed h hleft ih =>
    have hattributes : _ = _ := h.attributes_eq
    exact (SymbolTable.Persists.newModule.shelters.trans (ih hd)).trans
      (hleft.anchors (hattributes ▸ hd)).toShelters

theorem isInner {scope : ScopeId} (h : Course s s') (hd : s'.attributes.Steady)
    (hs : s.table.IsInner scope) : s'.table.IsInner scope :=
  (h.shelters (h.attributes_eq ▸ hd)).inner scope hs

end Course

/-! ## Proper states -/

namespace State

/-- Paths that are done belong to analysed modules. -/
def Loaded (s : State) : Prop :=
  ∀ path m, s.loads.state? path = some (.done m) → m ∈ s.analysed

/-- What holds between the steps of an analysis. -/
structure Proper (s : State) : Prop where
  growing : s.attributes.Growing
  owned : ∀ i t, s.templates.lookup i = some t → i.index < s.table.items.size
  nested : s.attributes.Steady → s.table.Scoped
  loaded : s.Loaded

end State

namespace Course

variable {s s' : State}

theorem loaded (h : Course s s') (hs : s.Loaded) : s'.Loaded := by
  induction h with
  | ordinary h =>
    intro path m hm
    rw [h.loads] at hm
    exact h.analysed_eq ▸ hs path m hm
  | trans _ _ ih ih' => exact ih' (ih hs)
  | @call s opened _ _ _ _ _ hopens _ _ ih =>
    refine ih fun path m hm => ?_
    have hloads : opened.loads = s.loads := hopens.ordinary.loads
    have hanalysed : opened.analysed = s.analysed := hopens.ordinary.analysed_eq
    exact hanalysed ▸ hs path m (hloads ▸ hm)
  | link _ => exact hs
  | loads h => exact fun path m hm => (h path m hm).elim (hs path m) id
  | abandoned _ ih => exact ih hs
  | analysed _ hleft ih =>
    intro path m hm
    rw [State.analysed_filed, hleft.analysed_eq]
    exact List.mem_append_left _ (ih hs path m (hleft.loads ▸ hm))

/-- Proper states lead to proper states. -/
theorem proper (h : Course s s') (hs : s.Proper) : s'.Proper where
  growing := h.attributes_eq ▸ hs.growing
  owned i t hi := by
    rcases h.owned hi with hold | hnew
    · exact Nat.lt_of_lt_of_le (hs.owned i t hold) h.items_le
    · exact hnew
  nested hd := by
    have hd' : s.attributes.Steady := h.attributes_eq ▸ hd
    exact (h.shelters hd').nested (hs.nested hd')
  loaded := h.loaded hs.loaded

end Course

/-- So they do while a call is on its way. -/
theorem State.Opens.proper {s s' : State} {c : Instantiation} {item : ItemId}
    (h : s.Opens c item s') (hs : s.Proper) : s'.Proper := by
  have hordinary := (Course.ordinary h.ordinary).proper hs
  exact ⟨hordinary.growing, hordinary.owned, hordinary.nested, hordinary.loaded⟩

namespace State.Proper

variable {s : State}

theorem made (hs : s.Proper) (name path package : String) : (s.made name path package).Proper where
  growing := hs.growing
  owned := hs.owned
  nested hd := SymbolTable.Persists.newModule.wellNested (hs.nested hd)
  loaded := hs.loaded

theorem within (hs : s.Proper) (m : ModuleId) : (s.within m).Proper :=
  ⟨hs.growing, hs.owned, hs.nested, hs.loaded⟩

theorem left (hs : s.Proper) : s.left.Proper := ⟨hs.growing, hs.owned, hs.nested, hs.loaded⟩

theorem filed (hs : s.Proper) (root : AnalysedRoot) : (s.filed root).Proper where
  growing := hs.growing
  owned := hs.owned
  nested := hs.nested
  loaded path m hm := by
    rw [State.analysed_filed]
    exact List.mem_append_left _ (hs.loaded path m hm)

end State.Proper

end SemanticAnalysis
