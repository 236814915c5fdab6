import SemanticAnalysis.Proofs.SymbolTable.Aliases
import SemanticAnalysis.Proofs.SymbolTable.WellFormed

/-!
# Items keep their kinds

A scope that belongs to a function or a class refers to an item of that kind, and aliases and lists of scopes
to items that are there (`SymbolTable.Coherent`). Operations of the table keep this up and turn no item into one of another
kind (`SymbolTable.Develops`). In a coherent table whatever a lookup finds is an item, and no alias: aliases
have been followed to their ends (`Coherent.isProper_of_findAll`).
-/

namespace SemanticAnalysis

theorem Item.kind_shape (i : Item) : i.shape.entity.kind = i.entity.kind := by
  unfold Item.shape
  cases h : i.entity <;> simp [Entity.kind, h]

theorem Item.alias?_shape (i : Item) : i.shape.alias? = i.alias? := by
  unfold Item.shape Item.alias?
  cases h : i.entity <;> simp [h]

namespace SymbolTable

variable {t u v : SymbolTable} {i j : ItemId} {s : ScopeId} {kind : EntityKind}

/-- The owner of a scope is of the kind that it should be. -/
def Suits (t : SymbolTable) : ScopeOwner → Prop
  | .fn i => t.kind? i = some .fn
  | .cls i => t.kind? i = some .cls
  | _ => True

/-- The scope belongs to an item of the right kind and lists items that are there. -/
structure Holds (t : SymbolTable) (scope : Scope) : Prop where
  owner : t.Suits scope.owner
  items : ∀ i ∈ scope.items, i.index < t.items.size

/-- Scopes are in order, and aliases stand for items that are there. -/
structure Coherent (t : SymbolTable) : Prop where
  scopes : ∀ s scope, t.scope? s = some scope → t.Holds scope
  aliasTarget : ∀ i j, t.aliasTarget? i = some j → j.index < t.items.size

/-- `u` is a later table than `t`: items are of the kinds they were of, and modules are still there. -/
structure Develops (t u : SymbolTable) : Prop where
  kinds : ∀ i kind, t.kind? i = some kind → u.kind? i = some kind
  modules_le : t.modules.size ≤ u.modules.size
  coherent : t.Coherent → u.Coherent

/-! ## Kinds -/

theorem kind?_eq_some_iff : t.kind? i = some kind ↔ ∃ item, t.item? i = some item ∧ item.entity.kind = kind :=
  Option.map_eq_some_iff

theorem lt_of_kind? (h : t.kind? i = some kind) : i.index < t.items.size := by
  obtain ⟨item, hitem, -⟩ := kind?_eq_some_iff.1 h
  exact lt_of_item? hitem

theorem exists_kind? (h : i.index < t.items.size) : ∃ kind, t.kind? i = some kind :=
  ⟨_, kind?_eq_some_iff.2 ⟨_, Array.getElem?_eq_getElem h, rfl⟩⟩

theorem exists_function?_of_kind? (h : t.kind? i = some .fn) : ∃ f, t.function? i = some f := by
  obtain ⟨item, hitem, hkind⟩ := kind?_eq_some_iff.1 h
  unfold function? Item.function?
  rw [hitem]
  cases hentity : item.entity <;> simp_all [Entity.kind]

theorem exists_class?_of_kind? (h : t.kind? i = some .cls) : ∃ c, t.class? i = some c := by
  obtain ⟨item, hitem, hkind⟩ := kind?_eq_some_iff.1 h
  unfold class? Item.class?
  rw [hitem]
  cases hentity : item.entity <;> simp_all [Entity.kind]

theorem kind?_of_function? {f : Function} (h : t.function? i = some f) : t.kind? i = some .fn := by
  obtain ⟨item, hitem, hf⟩ := Option.bind_eq_some_iff.1 h
  exact kind?_eq_some_iff.2 ⟨item, hitem, by rw [Item.entity_of_function? hf, Entity.kind]⟩

/-- A scope of a changed table is one of the old table, perhaps a changed one. -/
theorem exists_scope?_of_modifyScope {g : Scope → Scope} {x : ScopeId} {scope : Scope}
    (h : (t.modifyScope s g).scope? x = some scope) :
    ∃ old, t.scope? x = some old ∧ (scope = old ∨ scope = g old) := by
  rw [scope?_modifyScope] at h
  split at h
  · obtain ⟨old, hold, rfl⟩ := Option.map_eq_some_iff.1 h
    exact ⟨old, hold, .inr rfl⟩
  · exact ⟨scope, h, .inl rfl⟩

namespace Coherent

theorem empty : Coherent {} where
  scopes _ _ h := nomatch h
  aliasTarget _ _ h := nomatch h

theorem functionOwner (h : t.Coherent) (hi : t.functionOwner? s = some i) : t.kind? i = some .fn := by
  obtain ⟨scope, hscope, hi⟩ := Option.bind_eq_some_iff.1 hi
  have howner := (h.scopes s scope hscope).owner
  unfold Scope.functionOwner? at hi
  split at hi
  · rename_i heq
    cases hi
    rwa [heq] at howner
  · cases hi

theorem classOwner (h : t.Coherent) (hi : t.classOwner? s = some i) : t.kind? i = some .cls := by
  obtain ⟨scope, hscope, hi⟩ := Option.bind_eq_some_iff.1 hi
  have howner := (h.scopes s scope hscope).owner
  unfold Scope.classOwner? at hi
  split at hi
  · rename_i heq
    cases hi
    rwa [heq] at howner
  · cases hi

theorem enclosingFunction (h : t.Coherent) (hi : t.enclosingFunction? s = some i) :
    t.kind? i = some .fn := by
  obtain ⟨_, outer, _, -, hi, -⟩ := List.findSome?_eq_some_iff.1 hi
  exact h.functionOwner hi

/-! ## Lookups -/

variable {name : String} {exclude : List EntityKind} {origin : Option ScopeId}

theorem lt_of_leadsTo (h : t.Coherent) (hi : i.index < t.items.size) (hleads : t.LeadsTo i j) :
    j.index < t.items.size :=
  lt_of_follows h.aliasTarget hi hleads.follows

theorem isProper_of_offered? (h : t.Coherent) (hj : t.offered? name exclude origin i = some j) :
    t.IsProper j := by
  unfold offered? at hj
  cases hitem : t.item? i with
  | none => simp [hitem] at hj
  | some item =>
    rw [hitem] at hj
    dsimp only at hj
    split at hj
    · cases hj
    · split at hj
      · cases hj
      · cases hresolve : t.resolveAlias i with
        | error fault => simp [hresolve] at hj
        | ok target =>
          rw [hresolve] at hj
          dsimp only at hj
          split at hj
          · cases hj
          · cases hj
            have hleads := resolveAlias_eq_ok_iff.1 hresolve
            exact ⟨h.lt_of_leadsTo (lt_of_item? hitem) hleads, hleads.ends⟩

theorem isProper_of_findLocal (h : t.Coherent) (hi : i ∈ t.findLocal name s exclude origin) :
    t.IsProper i := by
  unfold findLocal at hi
  split at hi
  · cases hi
  · simp only [mem_foldl_insertNew, List.not_mem_nil, List.mem_filterMap, false_or] at hi
    obtain ⟨j, -, hj⟩ := hi
    exact h.isProper_of_offered? hj

theorem isProper_of_gatherMembers (h : t.Coherent) {found classes : List ItemId}
    (hfound : ∀ i ∈ found, t.IsProper i) (hi : i ∈ t.gatherMembers name exclude origin found classes) :
    t.IsProper i := by
  induction classes generalizing found with
  | nil => exact hfound i hi
  | cons c rest ih =>
    unfold gatherMembers at hi
    split at hi
    · exact ih hfound hi
    · rename_i cls _
      split at hi
      · exact ih hfound hi
      · have hjoined : ∀ i ∈ (t.findLocal name cls.scope exclude origin).foldl insertNew found,
            t.IsProper i := fun i hi =>
          (mem_foldl_insertNew.1 hi).elim (hfound i) h.isProper_of_findLocal
        dsimp only at hi
        split at hi
        · split at hi
          · exact ih hjoined hi
          · exact hjoined i hi
        · exact ih hfound hi

theorem isProper_of_findInClass (h : t.Coherent) {c : ItemId}
    (hi : i ∈ t.findInClass c name exclude origin) : t.IsProper i :=
  h.isProper_of_gatherMembers (fun _ h => absurd h List.not_mem_nil) hi

theorem isProper_of_findAt (h : t.Coherent) (hi : i ∈ t.findAt name exclude origin s) :
    t.IsProper i := by
  unfold findAt at hi
  split at hi
  · exact h.isProper_of_findInClass hi
  · exact h.isProper_of_findLocal hi

/-- Whatever a name is found to mean is an item that is there, and not an alias. -/
theorem isProper_of_findAll (h : t.Coherent) (hi : i ∈ t.findAll name s exclude origin) :
    t.IsProper i := by
  have hfirst : ∀ chain, i ∈ firstNonempty (t.findAt name exclude origin) chain → t.IsProper i := by
    intro chain hi
    induction chain with
    | nil => cases hi
    | cons outer rest ih =>
      unfold firstNonempty at hi
      split at hi
      · exact ih hi
      · exact h.isProper_of_findAt hi
  exact hfirst _ hi

end Coherent

/-! ## Developments -/

namespace Develops

@[grind ←] theorem refl (t : SymbolTable) : t.Develops t := ⟨fun _ _ h => h, Nat.le_refl _, id⟩

theorem trans (h : t.Develops u) (h' : u.Develops v) : t.Develops v where
  kinds i kind hi := h'.kinds i kind (h.kinds i kind hi)
  modules_le := Nat.le_trans h.modules_le h'.modules_le
  coherent hc := h'.coherent (h.coherent hc)

theorem suits {owner : ScopeOwner} (h : ∀ i kind, t.kind? i = some kind → u.kind? i = some kind)
    (howner : t.Suits owner) : u.Suits owner := by
  cases owner with
  | fn i => exact h i _ howner
  | cls i => exact h i _ howner
  | _ => trivial

theorem lt_of_kinds (h : ∀ i kind, t.kind? i = some kind → u.kind? i = some kind)
    (hi : i.index < t.items.size) : i.index < u.items.size := by
  obtain ⟨kind, hkind⟩ := exists_kind? hi
  exact lt_of_kind? (h i kind hkind)

theorem holds {scope : Scope} (h : ∀ i kind, t.kind? i = some kind → u.kind? i = some kind)
    (hscope : t.Holds scope) : u.Holds scope where
  owner := suits h hscope.owner
  items i hi := lt_of_kinds h (hscope.items i hi)

/-- Scopes must be in order if they were before, and new aliases must stand for something. -/
theorem of_kinds (hkinds : ∀ i kind, t.kind? i = some kind → u.kind? i = some kind)
    (hmodules : t.modules.size ≤ u.modules.size)
    (hscopes : (∀ s scope, t.scope? s = some scope → u.Holds scope) →
      ∀ s scope, u.scope? s = some scope → u.Holds scope)
    (haliases : ∀ i j, u.aliasTarget? i = some j → t.aliasTarget? i = some j ∨ j.index < u.items.size) :
    t.Develops u where
  kinds := hkinds
  modules_le := hmodules
  coherent hc :=
    { scopes := hscopes fun s scope hscope => holds hkinds (hc.scopes s scope hscope)
      aliasTarget := fun i j hj => by
        rcases haliases i j hj with hold | hlt
        · exact lt_of_kinds hkinds (hc.aliasTarget i j hold)
        · exact hlt }

/-- A change of scopes that leaves items alone. -/
theorem of_items (hitems : u.items = t.items) (hmodules : t.modules.size ≤ u.modules.size)
    (hscopes : (∀ s scope, t.scope? s = some scope → t.Holds scope) →
      ∀ s scope, u.scope? s = some scope → t.Holds scope) : t.Develops u := by
  have hitem : u.item? = t.item? := funext fun i => by rw [item?, item?, hitems]
  have hkind : u.kind? = t.kind? := funext fun i => by rw [kind?, kind?, hitem]
  have hforth : ∀ i kind, t.kind? i = some kind → u.kind? i = some kind := fun i kind h => hkind ▸ h
  have hback : ∀ i kind, u.kind? i = some kind → t.kind? i = some kind := fun i kind h => hkind ▸ h
  refine of_kinds hforth hmodules (fun h s scope hs => ?_) fun i j h => .inl ?_
  · exact holds hforth (hscopes (fun s scope hs => holds hback (h s scope hs)) s scope hs)
  · rwa [aliasTarget?_eq, hitem, ← aliasTarget?_eq] at h

/-! ### Items -/

theorem modifyItem {g : Item → Item} (hkind : ∀ item, (g item).entity.kind = item.entity.kind)
    (halias : ∀ item, (g item).alias? = item.alias?) : t.Develops (t.modifyItem i g) := by
  refine of_kinds (fun j kind h => ?_) (Nat.le_refl _) (fun h => h) fun j k h => .inl ?_
  · obtain ⟨item, hitem, rfl⟩ := kind?_eq_some_iff.1 h
    rw [kind?, item?_modifyItem, hitem]
    split
    · exact congrArg some (hkind item)
    · rfl
  · rw [aliasTarget?_eq, item?_modifyItem] at h
    rw [aliasTarget?_eq]
    split at h
    · cases hitem : t.item? j with
      | none => rw [hitem] at h; cases h
      | some item => rw [hitem] at h; exact (halias item).symm.trans h
    · exact h

@[grind ←] theorem modifyFunction {g : Function → Function} : t.Develops (t.modifyFunction i g) := by
  refine modifyItem (fun item => ?_) fun item => ?_ <;>
    cases h : item.entity <;> simp [Entity.kind, Item.alias?, h]

@[grind ←] theorem modifyClass {g : Class → Class} : t.Develops (t.modifyClass i g) := by
  refine modifyItem (fun item => ?_) fun item => ?_ <;>
    cases h : item.entity <;> simp [Entity.kind, Item.alias?, h]

@[grind ←] theorem modifyVariable {g : Variable → Variable} : t.Develops (t.modifyVariable i g) := by
  refine modifyItem (fun item => ?_) fun item => ?_ <;>
    cases h : item.entity <;> simp [Entity.kind, Item.alias?, h]

theorem kind?_addItem (t : SymbolTable) (item : Item) :
    (t.addItem item).2.kind? (t.addItem item).1 = some item.entity.kind := by
  rw [kind?, item?_addItem_self]
  rfl

/-- A new alias must stand for something. -/
@[grind ←] theorem addItem {item : Item} (h : ∀ j, item.entity = .aliasOf j → j.index < t.items.size) :
    t.Develops (t.addItem item).2 := by
  refine of_kinds (fun j kind hj => ?_) (Nat.le_refl _) (fun hscopes s scope hs => ?_) fun j k hk => ?_
  · rw [kind?, item?_addItem, if_neg (Nat.ne_of_lt (lt_of_kind? hj))]
    exact hj
  · have hchange : (t.modifyScope item.scope fun s =>
        { s with items := s.items ++ [⟨t.items.size⟩] }).scope? s = some scope := hs
    obtain ⟨old, hold, rfl | rfl⟩ := exists_scope?_of_modifyScope hchange
    · exact hscopes s _ hold
    · refine ⟨(hscopes s old hold).owner, fun i hi => ?_⟩
      rcases List.mem_append.1 hi with hi | hi
      · exact (hscopes s old hold).items i hi
      · rw [List.mem_singleton.1 hi, size_addItem]
        exact Nat.lt_succ_self _
  · rw [aliasTarget?_eq, item?_addItem] at hk
    split at hk
    · refine .inr ?_
      have hentity : item.entity = .aliasOf k := by
        have halias : item.alias? = some k := hk
        unfold Item.alias? at halias
        cases hentity : item.entity <;> simp_all
      rw [size_addItem]
      exact Nat.lt_succ_of_lt (h k hentity)
    · exact .inl ((aliasTarget?_eq t j).trans hk)

/-! ### Scopes and modules -/

@[grind ←] theorem modifyScope {g : Scope → Scope} (howner : ∀ scope, (g scope).owner = scope.owner)
    (hitems : ∀ scope, (g scope).items = scope.items) : t.Develops (t.modifyScope s g) := by
  refine of_items rfl (Nat.le_refl _) fun h x scope hx => ?_
  obtain ⟨old, hold, rfl | rfl⟩ := exists_scope?_of_modifyScope hx
  · exact h x _ hold
  · exact ⟨(howner old).symm ▸ (h x old hold).owner, (hitems old).symm ▸ (h x old hold).items⟩

/-- A scope is given to an item of the right kind. -/
@[grind ←] theorem setOwner {owner : ScopeOwner} (howner : t.Suits owner) :
    t.Develops (t.setOwner s owner) := by
  refine of_items rfl (Nat.le_refl _) fun h x scope hx => ?_
  obtain ⟨old, hold, rfl | rfl⟩ := exists_scope?_of_modifyScope hx
  · exact h x _ hold
  · exact ⟨howner, (h x old hold).items⟩

theorem pushScope {parent : Option ScopeId} {owner : ScopeOwner} {module : ModuleId} {relative : Nat}
    (howner : t.Suits owner) : t.Develops (t.pushScope parent owner module relative).2 := by
  refine of_items rfl (Nat.le_refl _) fun h x scope hx => ?_
  rw [scope?_pushScope] at hx
  split at hx
  · cases hx
    exact ⟨howner, fun _ hi => absurd hi List.not_mem_nil⟩
  · exact h x scope hx

@[grind ←] theorem newScope {parent : ScopeId} : t.Develops (t.newScope parent .block).2 := by
  have hblock (u : SymbolTable) : u.Suits .block := trivial
  unfold SymbolTable.newScope
  split
  · exact pushScope (hblock t)
  · refine trans ?_ (pushScope (hblock _))
    exact modifyScope (fun _ => rfl) fun _ => rfl

@[grind ←] theorem modifyModule {m : ModuleId} {g : Module → Module} : t.Develops (t.modifyModule m g) :=
  of_items rfl (Nat.le_of_eq Array.size_modify.symm) fun h => h

@[grind ←] theorem newModule {name path package : String} :
    t.Develops (t.newModule name path package).2 := by
  refine of_items rfl (by simp [SymbolTable.newModule, SymbolTable.pushScope]) fun h x scope hx => ?_
  rw [scope?_newModule] at hx
  split at hx
  · cases hx
    exact ⟨trivial, fun _ hi => absurd hi List.not_mem_nil⟩
  · exact h x scope hx

/-! ### Errors and captures -/

theorem of_sameShape (h : t.SameShape u) (hmodules : u.modules = t.modules) : t.Develops u := by
  have hkind : u.kind? = t.kind? := funext fun i => by
    have hshape := congrArg (Option.map (·.entity.kind)) (h.items i)
    simpa [kind?, Item.kind_shape, Function.comp_def] using hshape.symm
  have halias : u.aliasTarget? = t.aliasTarget? := funext fun i => by
    have hshape := congrArg (Option.bind · Item.alias?) (h.items i)
    simpa [aliasTarget?_eq, Option.bind_map, Item.alias?_shape, Function.comp_def] using hshape.symm
  refine of_kinds (fun i kind hi => hkind ▸ hi) (hmodules ▸ Nat.le_refl _) (fun hscopes s scope hs => ?_)
    fun i j hj => .inl (halias ▸ hj)
  have hshape := h.scopes s
  rw [hs] at hshape
  obtain ⟨old, hold, heq⟩ := Option.map_eq_some_iff.1 hshape
  have howner : old.shape.owner = scope.shape.owner := congrArg Scope.owner heq
  have hitems : old.shape.items = scope.shape.items := congrArg Scope.items heq
  exact ⟨howner ▸ (hscopes s old hold).owner, hitems ▸ (hscopes s old hold).items⟩

@[grind ←] theorem raise {flow : ErrorFlow} {ty : Ty} : t.Develops (flow.raise s ty t) :=
  of_sameShape (sameShape_settle flow _ _ t) (modules_settle flow _ _ t)

@[grind ←] theorem run {flow : ErrorFlow} {tasks : List ErrorFlow.Task} :
    t.Develops (flow.run tasks t) :=
  of_sameShape (sameShape_settle flow _ tasks t) (modules_settle flow _ tasks t)

@[grind ←] theorem link {flow : ErrorFlow} {callee : ItemId} : t.Develops (flow.link callee s t).2 :=
  of_sameShape (sameShape_link flow callee s t) (modules_link flow callee s t)

@[grind ←] theorem captureAlong {used owner : ItemId} {chain : List ScopeId} :
    t.Develops (t.captureAlong used owner chain) := by
  induction chain generalizing t with
  | nil => exact refl t
  | cons s outer ih =>
    unfold SymbolTable.captureAlong
    split
    · exact ih
    · split
      · exact refl t
      · split
        · split
          · exact modifyFunction.trans ih
          · exact refl t
        · exact refl t

end Develops

end SymbolTable

/-- No callback makes an item one of another kind, or a table incoherent. -/
def AttributeTable.KeepsKinds (t : AttributeTable) : Prop :=
  ∀ r ∈ t.registrations, ∀ (i : Invocation) (u : SymbolTable), u.Develops (r.callback i u).2

/-- Callbacks that leave the table alone. -/
theorem AttributeTable.keepsKinds_of_idle {t : AttributeTable}
    (h : ∀ r ∈ t.registrations, ∀ (i : Invocation) (u : SymbolTable), (r.callback i u).2 = u) :
    t.KeepsKinds := by
  intro r hr i u
  rw [h r hr i u]
  exact .refl u

end SemanticAnalysis
