import SemanticAnalysis.Analysis.Effect
import SemanticAnalysis.Proofs.SymbolTable.Extension

/-!
# What a symbol table retains

An analysis fills in what it finds out about items, scopes and modules, but some facts it never takes
back: what an item is, where a scope is nested and what was declared in it, and which scopes a module
has. `SymbolTable.Persists` is the relation between a table and a later one that keeps these facts.
Nearly all operations of the table also leave the links between modules as they are, which makes
`SymbolTable.Retains`; here is one lemma for each of them. The two exceptions are `newModule` and the
linking of two modules, which only persist. The order of modules rests on less (`SymbolTable.Anchors`).

A scope with a parent is an inner one. In a well nested table (`SymbolTable.Scoped`) the scopes of
modules are outermost and those of functions are inner, so that nothing in a body is mistaken for a
statement of a module (`Scoped.ne_of_isInner`). Later tables stay well nested (`Persists.wellNested`).
-/

namespace SemanticAnalysis

/-- What an alias stands for. -/
def Item.alias? (i : Item) : Option ItemId :=
  match i.entity with
  | .aliasOf target => some target
  | _ => none

/-- What an item is: its name, its kind, the scope it owns and the item it is another name of. -/
def Item.identity (i : Item) : String × EntityKind × Option ScopeId × Option ItemId :=
  (i.name, i.entity.kind, i.ownScope?, i.alias?)

/-- The scopes of a module. -/
def Module.scopes (m : Module) : ScopeId × ScopeId := (m.scope, m.exports)

/-- The modules that a module depends on and those that depend on it. -/
def Module.links (m : Module) : List ModuleId × List ModuleId := (m.dependencies, m.dependents)

theorem Item.identity_shape (i : Item) : i.shape.identity = i.identity := by
  unfold Item.shape
  split
  · rename_i f h
    simp [identity, ownScope?, alias?, Entity.kind, h, Function.shape]
  · rfl

theorem Item.entity_of_function? {i : Item} {f : Function} (h : i.function? = some f) :
    i.entity = .fn f := by
  unfold Item.function? at h
  split at h
  · rename_i g hentity
    rw [hentity, Option.some.inj h]
  · cases h

/-- A function stays one, with its scope. -/
theorem Item.exists_function?_of_identity {i j : Item} (h : i.identity = j.identity) {f : Function}
    (hf : i.function? = some f) : ∃ g, j.function? = some g ∧ g.scope = f.scope := by
  have hkind : i.entity.kind = j.entity.kind := congrArg (·.2.1) h
  have hscope : i.ownScope? = j.ownScope? := congrArg (·.2.2.1) h
  unfold function? ownScope? at *
  cases hi : i.entity with
  | fn f' =>
    rw [hi] at hf hkind hscope
    cases hf
    cases hj : j.entity with
    | fn g =>
      rw [hj] at hscope
      exact ⟨g, rfl, (Option.some.inj hscope).symm⟩
    | _ => simp [hj, Entity.kind] at hkind
  | _ => simp [hi] at hf

namespace SymbolTable

variable {t u v : SymbolTable}

/-! ## Nesting -/

/-- A scope with a scope around it. -/
def IsInner (t : SymbolTable) (s : ScopeId) : Prop :=
  ∃ scope, t.scope? s = some scope ∧ scope.parent.isSome = true

/-- A scope without a scope around it. -/
def IsOutermost (t : SymbolTable) (s : ScopeId) : Prop :=
  ∃ scope, t.scope? s = some scope ∧ scope.parent = none

/-- A module whose scope and exports scope are outermost. -/
structure Houses (t : SymbolTable) (md : Module) : Prop where
  scope : t.IsOutermost md.scope
  exports : t.IsOutermost md.exports

/-- The scopes of modules are outermost, those of functions are not. -/
structure Scoped (t : SymbolTable) : Prop where
  modules : ∀ m md, t.module? m = some md → t.Houses md
  functions : ∀ i f, t.function? i = some f → t.IsInner f.scope

/-- No inner scope is the scope of a module. -/
theorem Scoped.ne_of_isInner (h : t.Scoped) {m : ModuleId} {md : Module}
    (hm : t.module? m = some md) {s : ScopeId} (hs : t.IsInner s) : md.scope ≠ s := by
  rintro rfl
  obtain ⟨scope, hscope, hnone⟩ := (h.modules m md hm).scope
  obtain ⟨scope', hscope', hsome⟩ := hs
  rw [hscope] at hscope'
  cases hscope'
  rw [hnone] at hsome
  cases hsome

/-! ## Persistence -/

theorem lt_of_function? {i : ItemId} {f : Function} (h : t.function? i = some f) :
    i.index < t.items.size := by
  obtain ⟨item, hitem, -⟩ := Option.bind_eq_some_iff.1 h
  exact lt_of_item? hitem

theorem lt_of_module? {m : ModuleId} {md : Module} (h : t.module? m = some md) :
    m.index < t.modules.size := (Array.getElem?_eq_some_iff.1 h).1

theorem module?_modifyModule (t : SymbolTable) (m x : ModuleId) (g : Module → Module) :
    (t.modifyModule m g).module? x = if x = m then (t.module? x).map g else t.module? x := by
  have hindex : m.index = x.index ↔ x = m := by
    cases m
    cases x
    simp [eq_comm]
  unfold module? SymbolTable.modifyModule
  simp only [Array.getElem?_modify, hindex]

theorem scope?_pushScope (t : SymbolTable) (parent : Option ScopeId) (owner : ScopeOwner)
    (module : ModuleId) (relative : Nat) (x : ScopeId) :
    (t.pushScope parent owner module relative).2.scope? x =
      if x.index = t.scopes.size then
        some { id := ⟨t.scopes.size⟩, parent, owner, module, relativeId := relative }
      else t.scope? x := Array.getElem?_push

@[simp] theorem size_pushScope (t : SymbolTable) (parent : Option ScopeId) (owner : ScopeOwner)
    (module : ModuleId) (relative : Nat) :
    (t.pushScope parent owner module relative).2.scopes.size = t.scopes.size + 1 := Array.size_push _

theorem isOutermost_pushScope (t : SymbolTable) (owner : ScopeOwner) (module : ModuleId)
    (relative : Nat) : (t.pushScope none owner module relative).2.IsOutermost ⟨t.scopes.size⟩ :=
  ⟨_, (scope?_pushScope ..).trans (if_pos rfl), rfl⟩

theorem items_newScope (t : SymbolTable) (parent : ScopeId) (owner : ScopeOwner) :
    (t.newScope parent owner).2.items = t.items := by
  unfold SymbolTable.newScope
  split <;> rfl

/-- `u` is a later table than `t`: it has all that `t` has. Functions that are new have inner scopes,
modules that are new have outermost ones. -/
structure Persists (t u : SymbolTable) : Prop where
  items : ∀ i item, t.item? i = some item →
    ∃ item', u.item? i = some item' ∧ item'.identity = item.identity
  scopes : ∀ s scope, t.scope? s = some scope →
    ∃ scope', u.scope? s = some scope' ∧ scope'.parent = scope.parent ∧ scope.items <+: scope'.items
  modules : ∀ m md, t.module? m = some md → ∃ md', u.module? m = some md' ∧ md'.scopes = md.scopes
  functions : ∀ i f, u.function? i = some f → i.index < t.items.size ∨ u.IsInner f.scope
  units : ∀ m md, u.module? m = some md → m.index < t.modules.size ∨ u.Houses md

namespace Persists

theorem isInner (h : t.Persists u) {s : ScopeId} (hs : t.IsInner s) : u.IsInner s := by
  obtain ⟨scope, hscope, hparent⟩ := hs
  obtain ⟨scope', hscope', heq, -⟩ := h.scopes s scope hscope
  exact ⟨scope', hscope', heq ▸ hparent⟩

theorem isOutermost (h : t.Persists u) {s : ScopeId} (hs : t.IsOutermost s) : u.IsOutermost s := by
  obtain ⟨scope, hscope, hparent⟩ := hs
  obtain ⟨scope', hscope', heq, -⟩ := h.scopes s scope hscope
  exact ⟨scope', hscope', heq.trans hparent⟩

theorem houses (h : t.Persists u) {md md' : Module} (hm : t.Houses md) (heq : md.scopes = md'.scopes) :
    u.Houses md' := by
  obtain ⟨hscope, hexports⟩ := Prod.mk.inj heq
  exact ⟨hscope ▸ h.isOutermost hm.scope, hexports ▸ h.isOutermost hm.exports⟩

theorem size_le (h : t.Persists u) : t.items.size ≤ u.items.size := by
  refine Nat.le_of_not_lt fun hlast => ?_
  obtain ⟨item, hitem, -⟩ := h.items ⟨u.items.size⟩ _ (Array.getElem?_eq_getElem hlast)
  exact absurd (lt_of_item? hitem) (Nat.lt_irrefl _)

/-- The function of an old item had its scope before. -/
theorem exists_function? (h : t.Persists u) {i : ItemId} {f : Function}
    (hf : u.function? i = some f) (hi : i.index < t.items.size) :
    ∃ g, t.function? i = some g ∧ g.scope = f.scope := by
  obtain ⟨item', hitem', hfn⟩ := Option.bind_eq_some_iff.1 hf
  have hitem : t.item? i = some t.items[i.index] := Array.getElem?_eq_getElem hi
  obtain ⟨item'', hitem'', hidentity⟩ := h.items i _ hitem
  rw [hitem'] at hitem''
  cases hitem''
  obtain ⟨g, hg, hscope⟩ := Item.exists_function?_of_identity hidentity hfn
  exact ⟨g, by rw [function?, hitem]; exact hg, hscope⟩

/-- An old module had its scopes before. -/
theorem exists_module? (h : t.Persists u) {m : ModuleId} {md : Module}
    (hm : u.module? m = some md) (hold : m.index < t.modules.size) :
    ∃ md', t.module? m = some md' ∧ md'.scopes = md.scopes := by
  have hm' : t.module? m = some t.modules[m.index] := Array.getElem?_eq_getElem hold
  obtain ⟨md', hmd', heq⟩ := h.modules m _ hm'
  rw [hm] at hmd'
  cases hmd'
  exact ⟨_, hm', heq.symm⟩

theorem refl (t : SymbolTable) : t.Persists t where
  items _ item h := ⟨item, h, rfl⟩
  scopes _ scope h := ⟨scope, h, rfl, List.prefix_rfl⟩
  modules _ md h := ⟨md, h, rfl⟩
  functions _ _ h := .inl (lt_of_function? h)
  units _ _ h := .inl (lt_of_module? h)

theorem trans (h : t.Persists u) (h' : u.Persists v) : t.Persists v where
  items i item hi := by
    obtain ⟨item', hi', heq⟩ := h.items i item hi
    obtain ⟨item'', hi'', heq'⟩ := h'.items i item' hi'
    exact ⟨item'', hi'', heq'.trans heq⟩
  scopes s scope hs := by
    obtain ⟨scope', hs', hparent, hitems⟩ := h.scopes s scope hs
    obtain ⟨scope'', hs'', hparent', hitems'⟩ := h'.scopes s scope' hs'
    exact ⟨scope'', hs'', hparent'.trans hparent, hitems.trans hitems'⟩
  modules m md hm := by
    obtain ⟨md', hm', heq⟩ := h.modules m md hm
    obtain ⟨md'', hm'', heq'⟩ := h'.modules m md' hm'
    exact ⟨md'', hm'', heq'.trans heq⟩
  functions i f hf := by
    rcases h'.functions i f hf with hold | hinner
    · obtain ⟨g, hg, hscope⟩ := h'.exists_function? hf hold
      rcases h.functions i g hg with hold' | hinner
      · exact .inl hold'
      · exact .inr (hscope ▸ h'.isInner hinner)
    · exact .inr hinner
  units m md hm := by
    rcases h'.units m md hm with hold | hnew
    · obtain ⟨md', hm', heq⟩ := h'.exists_module? hm hold
      exact (h.units m md' hm').imp_right fun hnew => h'.houses hnew heq
    · exact .inr hnew

/-- Later tables stay well nested. -/
theorem wellNested (h : t.Persists u) (hscoped : t.Scoped) : u.Scoped where
  modules m md hm := by
    rcases h.units m md hm with hold | hnew
    · obtain ⟨md', hm', heq⟩ := h.exists_module? hm hold
      exact h.houses (hscoped.modules m md' hm') heq
    · exact hnew
  functions i f hf := by
    rcases h.functions i f hf with hold | hinner
    · obtain ⟨g, hg, hscope⟩ := h.exists_function? hf hold
      exact hscope ▸ h.isInner (hscoped.functions i g hg)
    · exact hinner

/-- A change of what modules record, as long as they keep their scopes. -/
theorem modifyModule {m : ModuleId} {g : Module → Module} (hg : ∀ md, (g md).scopes = md.scopes) :
    t.Persists (t.modifyModule m g) where
  items _ item h := ⟨item, h, rfl⟩
  scopes _ scope h := ⟨scope, h, rfl, List.prefix_rfl⟩
  modules x md hx := by
    rw [module?_modifyModule, hx]
    split
    · exact ⟨g md, rfl, hg md⟩
    · exact ⟨md, rfl, rfl⟩
  functions _ _ h := .inl (lt_of_function? h)
  units x md hx := by
    have hsize : (t.modifyModule m g).modules.size = t.modules.size := Array.size_modify
    exact .inl (hsize ▸ lt_of_module? hx)

end Persists

/-! ## Shelter -/

/-- The links of a module. One that is not there has none. -/
def links (t : SymbolTable) (m : ModuleId) : List ModuleId × List ModuleId :=
  (t.module? m).elim ([], []) Module.links

/-- What the order of modules rests on: modules stay, inner scopes stay inner ones, and a well nested
table stays so. -/
structure Shelters (t u : SymbolTable) : Prop where
  modules : ∀ m, (t.module? m).isSome = true → (u.module? m).isSome = true
  inner : ∀ s, t.IsInner s → u.IsInner s
  nested : t.Scoped → u.Scoped

namespace Shelters

theorem refl (t : SymbolTable) : t.Shelters t := ⟨fun _ h => h, fun _ h => h, fun h => h⟩

theorem trans (h : t.Shelters u) (h' : u.Shelters v) : t.Shelters v where
  modules m hm := h'.modules m (h.modules m hm)
  inner s hs := h'.inner s (h.inner s hs)
  nested ht := h'.nested (h.nested ht)

end Shelters

theorem Persists.shelters (h : t.Persists u) : t.Shelters u where
  modules m hm := by
    obtain ⟨md, hmd⟩ := Option.isSome_iff_exists.1 hm
    obtain ⟨md', hmd', -⟩ := h.modules m md hmd
    exact Option.isSome_iff_exists.2 ⟨md', hmd'⟩
  inner _ hs := h.isInner hs
  nested ht := h.wellNested ht

/-- `u` is a later table than `t` with the same links. -/
structure Anchors (t u : SymbolTable) : Prop extends t.Shelters u where
  links : u.links = t.links

namespace Anchors

theorem refl (t : SymbolTable) : t.Anchors t := ⟨.refl t, rfl⟩

theorem trans (h : t.Anchors u) (h' : u.Anchors v) : t.Anchors v :=
  ⟨h.toShelters.trans h'.toShelters, h'.links.trans h.links⟩

end Anchors

/-! ## Retention -/

/-- `u` is a later table than `t`, with the same modules and the same links between them. -/
structure Retains (t u : SymbolTable) : Prop extends t.Persists u where
  links : ∀ m, (u.module? m).map Module.links = (t.module? m).map Module.links

namespace Retains

theorem refl (t : SymbolTable) : t.Retains t := ⟨.refl t, fun _ => rfl⟩

theorem trans (h : t.Retains u) (h' : u.Retains v) : t.Retains v :=
  ⟨h.toPersists.trans h'.toPersists, fun m => (h'.links m).trans (h.links m)⟩

theorem anchors (h : t.Retains u) : t.Anchors u := by
  refine ⟨h.toPersists.shelters, ?_⟩
  funext m
  have hlinks := h.links m
  unfold SymbolTable.links
  cases hu : u.module? m <;> cases ht : t.module? m <;> simp_all

/-- A change that leaves modules alone. -/
theorem of_modules (hmodules : u.modules = t.modules)
    (hitems : ∀ i item, t.item? i = some item →
      ∃ item', u.item? i = some item' ∧ item'.identity = item.identity)
    (hscopes : ∀ s scope, t.scope? s = some scope →
      ∃ scope', u.scope? s = some scope' ∧ scope'.parent = scope.parent ∧
        scope.items <+: scope'.items)
    (hfunctions : ∀ i f, u.function? i = some f → i.index < t.items.size ∨ u.IsInner f.scope) :
    t.Retains u := by
  have hmodule : u.module? = t.module? := by
    funext m
    rw [module?, module?, hmodules]
  exact
    { items := hitems
      scopes := hscopes
      modules := fun _ md h => ⟨md, hmodule ▸ h, rfl⟩
      functions := hfunctions
      units := fun m md h => .inl (lt_of_module? (hmodule ▸ h))
      links := fun m => by rw [hmodule] }

/-- A change that leaves items and modules alone. -/
theorem of_scopes (hitems : u.items = t.items) (hmodules : u.modules = t.modules)
    (hscopes : ∀ s scope, t.scope? s = some scope →
      ∃ scope', u.scope? s = some scope' ∧ scope'.parent = scope.parent ∧
        scope.items <+: scope'.items) : t.Retains u := by
  have hitem : u.item? = t.item? := by
    funext i
    rw [item?, item?, hitems]
  refine of_modules hmodules (fun i item h => ⟨item, hitem ▸ h, rfl⟩) hscopes fun i f hf => ?_
  exact .inl (hitems ▸ lt_of_function? hf)

/-! ### Items -/

theorem modifyItem {i : ItemId} {g : Item → Item} (hg : ∀ item, (g item).identity = item.identity) :
    t.Retains (t.modifyItem i g) := by
  refine of_modules rfl (fun j item hj => ?_) (fun _ scope h => ⟨scope, h, rfl, List.prefix_rfl⟩)
    fun j f hf => ?_
  · rw [item?_modifyItem, hj]
    split
    · exact ⟨g item, rfl, hg item⟩
    · exact ⟨item, rfl, rfl⟩
  · have hsize : (t.modifyItem i g).items.size = t.items.size := Array.size_modify
    exact .inl (hsize ▸ lt_of_function? hf)

theorem modifyFunction {i : ItemId} {g : Function → Function} (hg : ∀ f, (g f).scope = f.scope) :
    t.Retains (t.modifyFunction i g) := by
  refine modifyItem fun item => ?_
  cases h : item.entity <;> simp [Item.identity, Item.ownScope?, Item.alias?, Entity.kind, h, hg]

theorem modifyClass {i : ItemId} {g : Class → Class} (hg : ∀ c, (g c).scope = c.scope) :
    t.Retains (t.modifyClass i g) := by
  refine modifyItem fun item => ?_
  cases h : item.entity <;> simp [Item.identity, Item.ownScope?, Item.alias?, Entity.kind, h, hg]

theorem modifyVariable {i : ItemId} {g : Variable → Variable} : t.Retains (t.modifyVariable i g) := by
  refine modifyItem fun item => ?_
  cases h : item.entity <;> simp [Item.identity, Item.ownScope?, Item.alias?, Entity.kind, h]

/-! ### Scopes and modules -/

theorem modifyScope {s : ScopeId} {g : Scope → Scope}
    (hparent : ∀ scope, (g scope).parent = scope.parent)
    (hitems : ∀ scope, scope.items <+: (g scope).items) : t.Retains (t.modifyScope s g) := by
  refine of_scopes rfl rfl fun x scope hx => ?_
  rw [scope?_modifyScope, hx]
  split
  · exact ⟨g scope, rfl, hparent scope, hitems scope⟩
  · exact ⟨scope, rfl, rfl, List.prefix_rfl⟩

theorem setOwner {s : ScopeId} {owner : ScopeOwner} : t.Retains (t.setOwner s owner) :=
  modifyScope (fun _ => rfl) fun _ => List.prefix_rfl

theorem modifyModule {m : ModuleId} {g : Module → Module} (hscopes : ∀ md, (g md).scopes = md.scopes)
    (hlinks : ∀ md, (g md).links = md.links) : t.Retains (t.modifyModule m g) := by
  refine ⟨.modifyModule hscopes, fun x => ?_⟩
  rw [module?_modifyModule]
  split
  · rw [Option.map_map]
    exact congrArg (Option.map · _) (funext hlinks)
  · rfl

theorem pushScope {parent : Option ScopeId} {owner : ScopeOwner} {module : ModuleId}
    {relative : Nat} : t.Retains (t.pushScope parent owner module relative).2 := by
  refine of_scopes rfl rfl fun x scope hx => ?_
  have hlt : x.index < t.scopes.size := (Array.getElem?_eq_some_iff.1 hx).1
  rw [scope?_pushScope, if_neg (Nat.ne_of_lt hlt)]
  exact ⟨scope, hx, rfl, List.prefix_rfl⟩

theorem newScope {parent : ScopeId} {owner : ScopeOwner} : t.Retains (t.newScope parent owner).2 := by
  unfold SymbolTable.newScope
  split
  · exact pushScope
  · have hcount : t.Retains (t.modifyScope parent fun s => { s with nextChild := s.nextChild + 1 }) :=
      modifyScope (fun _ => rfl) fun _ => List.prefix_rfl
    exact hcount.trans pushScope

/-- A child scope is an inner one. -/
theorem isInner_newScope (t : SymbolTable) (parent : ScopeId) (owner : ScopeOwner) :
    (t.newScope parent owner).2.IsInner (t.newScope parent owner).1 := by
  unfold SymbolTable.newScope
  split
  · exact ⟨_, (scope?_pushScope ..).trans (if_pos rfl), rfl⟩
  · exact ⟨_, (scope?_pushScope ..).trans (if_pos rfl), rfl⟩

/-- Add an item; a function brings an inner scope. -/
theorem addItem {item : Item} (hitem : ∀ f, item.entity = .fn f → t.IsInner f.scope) :
    t.Retains (t.addItem item).2 := by
  have hscopes : ∀ s scope, t.scope? s = some scope → ∃ scope',
      (t.addItem item).2.scope? s = some scope' ∧ scope'.parent = scope.parent ∧
        scope.items <+: scope'.items := by
    intro s scope hs
    show ∃ scope', (t.modifyScope item.scope _).scope? s = some scope' ∧ _
    rw [scope?_modifyScope, hs]
    split
    · exact ⟨_, rfl, rfl, List.prefix_append _ _⟩
    · exact ⟨scope, rfl, rfl, List.prefix_rfl⟩
  refine of_modules rfl (fun i old hi => ?_) hscopes fun i f hf => ?_
  · rw [item?_addItem, if_neg (Nat.ne_of_lt (lt_of_item? hi))]
    exact ⟨old, hi, rfl⟩
  · by_cases hi : i.index = t.items.size
    · right
      rw [function?, item?_addItem, if_pos hi] at hf
      obtain ⟨scope, hscope, hparent⟩ := hitem f (Item.entity_of_function? hf)
      obtain ⟨scope', hscope', heq, -⟩ := hscopes _ scope hscope
      exact ⟨scope', hscope', heq ▸ hparent⟩
    · left
      have hlt := lt_of_function? hf
      rw [size_addItem] at hlt
      omega

/-! ### Errors and captures -/

theorem of_sameShape (h : t.SameShape u) (hmodules : u.modules = t.modules) : t.Retains u := by
  refine of_modules hmodules (fun i item hi => ?_) (fun s scope hs => ?_) fun i f hf => ?_
  · have hshape := h.items i
    rw [hi, Option.map_some, eq_comm] at hshape
    obtain ⟨item', hitem', heq⟩ := Option.map_eq_some_iff.1 hshape
    refine ⟨item', hitem', ?_⟩
    rw [← Item.identity_shape, heq, Item.identity_shape]
  · have hshape := h.scopes s
    rw [hs, Option.map_some, eq_comm] at hshape
    obtain ⟨scope', hscope', heq⟩ := Option.map_eq_some_iff.1 hshape
    have hparent : scope'.shape.parent = scope.shape.parent := congrArg Scope.parent heq
    have hitems : scope'.shape.items = scope.shape.items := congrArg Scope.items heq
    exact ⟨scope', hscope', hparent, hitems ▸ List.prefix_rfl⟩
  · exact .inl (h.size_items_eq ▸ lt_of_function? hf)

end Retains

section Errors

variable (flow : ErrorFlow)

theorem modules_addError (t : SymbolTable) (s : ScopeId) (ty : Ty) :
    (t.addError s ty).2.modules = t.modules := by
  unfold addError
  split <;> rfl

theorem modules_beginThrowing (t : SymbolTable) (f : ItemId) :
    (t.beginThrowing f).2.modules = t.modules := by
  unfold beginThrowing
  split <;> rfl

theorem modules_walk (ty : Ty) (chain : List ScopeId) (t : SymbolTable) :
    (flow.walk ty t chain).2.modules = t.modules := by
  induction chain generalizing t with
  | nil => rfl
  | cons s outer ih =>
    have hadd := modules_addError t s ty
    simp only [ErrorFlow.walk]
    split
    · exact hadd
    · split
      · split
        · exact hadd
        · exact (ih _).trans hadd
      · split
        · exact hadd
        · exact (ih _).trans hadd

theorem modules_reach (f : ItemId) (ty : Ty) (t : SymbolTable) :
    (flow.reach f ty t).2.modules = t.modules := by
  unfold ErrorFlow.reach
  split
  · rfl
  · exact modules_beginThrowing t f

theorem modules_settle (types : List Ty) (tasks : List ErrorFlow.Task) (t : SymbolTable) :
    (flow.settle types tasks t).modules = t.modules := by
  fun_induction ErrorFlow.settle flow types tasks t with
  | case1 t => rfl
  | case2 t callee site rest errors ih => exact ih
  | case3 t s ty rest _ after hw ih =>
    have hwalk := modules_walk flow ty (t.chain s) t
    rw [hw] at hwalk
    exact ih.trans hwalk
  | case4 t s ty rest _ f after hw reached ih =>
    have hwalk := modules_walk flow ty (t.chain s) t
    rw [hw] at hwalk
    exact ih.trans ((modules_reach flow f ty after).trans hwalk)
  | case5 t s ty rest _ ih => exact ih

theorem modules_link (callee : ItemId) (site : ScopeId) (t : SymbolTable) :
    (flow.link callee site t).2.modules = t.modules := by
  simp only [ErrorFlow.link]
  split
  · rfl
  · split <;> exact modules_settle _ _ _ _

end Errors

namespace Retains

/-- Working off errors. -/
theorem run (flow : ErrorFlow) (tasks : List ErrorFlow.Task) : t.Retains (flow.run tasks t) :=
  of_sameShape (sameShape_settle flow _ tasks t) (modules_settle flow _ tasks t)

theorem link (flow : ErrorFlow) (callee : ItemId) (site : ScopeId) :
    t.Retains (flow.link callee site t).2 :=
  of_sameShape (sameShape_link flow callee site t) (modules_link flow callee site t)

theorem captureAlong {used owner : ItemId} {chain : List ScopeId} :
    t.Retains (t.captureAlong used owner chain) := by
  induction chain generalizing t with
  | nil => exact refl t
  | cons s outer ih =>
    unfold SymbolTable.captureAlong
    split
    · exact ih
    · split
      · exact refl t
      · split
        · split
          · refine trans ?_ ih
            exact modifyFunction fun _ => rfl
          · exact refl t
        · exact refl t

end Retains

/-! ## New modules -/

section NewModule

variable {name path package : String}

theorem module?_newModule (t : SymbolTable) (name path package : String) (m : ModuleId) :
    (t.newModule name path package).2.module? m =
      if m.index = t.modules.size then
        some { id := ⟨t.modules.size⟩, name, path, package, scope := ⟨t.scopes.size⟩,
               exports := ⟨t.scopes.size + 1⟩ }
      else t.module? m := by
  show (t.modules.push _)[m.index]? = _
  rw [Array.getElem?_push]
  simp only [Array.size_push]
  rfl

/-- A new module comes with two outermost scopes. -/
theorem Persists.newModule : t.Persists (t.newModule name path package).2 := by
  let unit : ModuleId := ⟨t.modules.size⟩
  have hscope : t.Retains (t.pushScope none (.unit unit) unit 0).2 := .pushScope
  have hnext : (t.pushScope none (.unit unit) unit 0).2.Retains
      ((t.pushScope none (.unit unit) unit 0).2.pushScope none (.unit unit) unit 0).2 := .pushScope
  have hexports := hscope.trans hnext
  refine
    { items := hexports.items
      scopes := hexports.scopes
      modules := fun m md hm => ?_
      functions := hexports.functions
      units := fun m md hm => ?_ }
  · rw [module?_newModule, if_neg (Nat.ne_of_lt (lt_of_module? hm))]
    exact ⟨md, hm, rfl⟩
  · rw [module?_newModule] at hm
    split at hm
    · right
      cases hm
      refine ⟨hnext.isOutermost (isOutermost_pushScope t ..), ?_⟩
      have hlast := isOutermost_pushScope (t.pushScope none (.unit unit) unit 0).2 (.unit unit) unit 0
      rwa [size_pushScope] at hlast
    · exact .inl (lt_of_module? hm)

end NewModule

end SymbolTable

end SemanticAnalysis
