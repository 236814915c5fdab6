import SemanticAnalysis.Proofs.SymbolTable.Names

/-!
# Names bound to types

What a scope lists under a name (`SymbolTable.named`) decides what is found there (`findLocal_eq_named`). A
parameter is bound to a type by an item of its own (`SymbolTable.BindsType`); inside the scope the name then
means that item (`BindsType.findAll`), and items of other names do not change this (`BindsType.addItem`).
-/

namespace SemanticAnalysis.SymbolTable

variable {t : SymbolTable} {own : ScopeId} {name : String} {i : ItemId} {ty : Ty} {item : Item}

/-! ## Items of a name -/

/-- The item has the name. -/
def hasName (t : SymbolTable) (name : String) (i : ItemId) : Bool := (t.item? i).any (·.name == name)

/-- The items that a scope lists under a name. -/
def named (t : SymbolTable) (own : ScopeId) (name : String) : List ItemId :=
  ((t.scope? own).elim [] (·.items)).filter (t.hasName name)

theorem offered?_eq_none {exclude : List EntityKind} {origin : Option ScopeId}
    (h : t.hasName name i = false) : t.offered? name exclude origin i = none := by
  unfold offered?
  cases hitem : t.item? i with
  | none => rfl
  | some item =>
    have hne : (item.name != name) = true := by simpa [hasName, hitem] using h
    dsimp only
    rw [if_pos hne]

/-- Only items of the name count. -/
theorem findLocal_eq_named (t : SymbolTable) (own : ScopeId) (name : String) (exclude : List EntityKind)
    (origin : Option ScopeId) :
    t.findLocal name own exclude origin =
      ((t.named own name).filterMap (t.offered? name exclude origin)).foldl insertNew [] := by
  unfold findLocal named
  cases t.scope? own with
  | none => rfl
  | some scope =>
    have hsame : ∀ i, (if t.hasName name i then t.offered? name exclude origin i else none) =
        t.offered? name exclude origin i := by
      intro i
      cases h : t.hasName name i with
      | true => rfl
      | false => rw [offered?_eq_none h]; rfl
    dsimp only [Option.elim]
    rw [List.filterMap_filter]
    simp only [hsame]

theorem hasName_addItem_of_lt (h : i.index < t.items.size) :
    (t.addItem item).2.hasName name i = t.hasName name i := by
  unfold hasName
  rw [item?_addItem_of_ne (Nat.ne_of_lt h)]

theorem hasName_addItem_self :
    (t.addItem item).2.hasName name ⟨t.items.size⟩ = (item.name == name) := by
  unfold hasName
  rw [item?_addItem, if_pos rfl]
  rfl

/-- A new item joins those of its name in its scope. -/
theorem named_addItem (hlists : t.ListsItems own) {scope : Scope} (hscope : t.scope? own = some scope)
    (hown : item.scope = own) :
    (t.addItem item).2.named own name =
      t.named own name ++ if item.name == name then [⟨t.items.size⟩] else [] := by
  have hscope' : (t.addItem item).2.scope? own =
      some { scope with items := scope.items ++ [⟨t.items.size⟩] } := by
    show (t.modifyScope item.scope _).scope? own = _
    rw [scope?_modifyScope, if_pos hown.symm, hscope]
    rfl
  have hold : scope.items.filter ((t.addItem item).2.hasName name) = scope.items.filter (t.hasName name) :=
    List.filter_congr fun j hj => hasName_addItem_of_lt (hlists scope hscope j hj)
  unfold named
  rw [hscope', hscope]
  dsimp only [Option.elim]
  rw [List.filter_append, hold, List.filter_cons, hasName_addItem_self, List.filter_nil]

/-! ## Bound names -/

/-- Under the name, the scope lists a single item, which is bound to the type for the scope alone. -/
structure BindsType (t : SymbolTable) (own : ScopeId) (name : String) (ty : Ty) (i : ItemId) : Prop where
  named : t.named own name = [i]
  there : ∃ item, t.item? i = some item ∧ item.name = name ∧ item.scope = own ∧
    item.visibility = .scopeOnly ∧ item.entity = .bound ty

/-- If a class owns the scope, it is the scope of the class. -/
def OwnedRightly (t : SymbolTable) (own : ScopeId) : Prop :=
  ∀ c, t.classOwner? own = some c → ∃ cls, t.class? c = some cls ∧ cls.scope = own

theorem exists_chain_eq_cons (t : SymbolTable) (s : ScopeId) : ∃ outer, t.chain s = s :: outer := by
  rw [chain]
  split
  · exact ⟨[], rfl⟩
  · split
    · exact ⟨_, rfl⟩
    · exact ⟨[], rfl⟩

theorem isWithin_self (t : SymbolTable) (s : ScopeId) : t.isWithin s s = true := by
  obtain ⟨outer, hchain⟩ := t.exists_chain_eq_cons s
  unfold isWithin
  rw [hchain]
  simp

namespace BindsType

theorem exists_scope (h : t.BindsType own name ty i) : ∃ scope, t.scope? own = some scope := by
  have hnamed := h.named
  unfold SymbolTable.named at hnamed
  cases hscope : t.scope? own with
  | some scope => exact ⟨scope, rfl⟩
  | none =>
    rw [hscope] at hnamed
    cases hnamed

theorem offered? (h : t.BindsType own name ty i) :
    t.offered? name EntityKind.values (some own) i = some i := by
  obtain ⟨item, hitem, hname, hscope, hvisible, hbound⟩ := h.there
  obtain ⟨scope, hown⟩ := h.exists_scope
  have hproper : t.IsProper i := by
    refine ⟨lt_of_item? hitem, ?_⟩
    rw [aliasTarget?_eq, hitem, Option.bind_some, Item.alias?, hbound]
  have hresolve : t.resolveAlias i = .ok i := resolveAlias_eq_ok.2 (followAliases_self hproper _)
  have hkind : t.kind? i = some .bound := by
    rw [kind?, hitem, Option.map_some, hbound]
    rfl
  have hsees : t.canSee i own = true := by
    unfold canSee
    rw [hitem, hown]
    dsimp only
    rw [hvisible, hscope]
    exact t.isWithin_self own
  unfold SymbolTable.offered?
  rw [hitem]
  simp [hname, hsees, hresolve, hkind, EntityKind.values]

theorem findLocal (h : t.BindsType own name ty i) :
    t.findLocal name own EntityKind.values (some own) = [i] := by
  rw [findLocal_eq_named, h.named, List.filterMap_cons, h.offered?]
  rfl

/-- Inside the scope, the name means the item. -/
theorem findAll (h : t.BindsType own name ty i) (howner : t.OwnedRightly own) :
    t.findAll name own EntityKind.values (some own) = [i] := by
  have hhere : t.findAt name EntityKind.values (some own) own = [i] := by
    unfold findAt
    split
    · rename_i c hc
      obtain ⟨cls, hcls, hscope⟩ := howner c hc
      obtain ⟨item, hitem, -, -, -, hbound⟩ := h.there
      have hother : t.isFunction i = false := by
        rw [isFunction, kind?, hitem, Option.map_some, hbound]
        rfl
      unfold findInClass withAncestors gatherMembers
      rw [hcls]
      dsimp only
      rw [hscope, h.findLocal]
      simp [hother, insertNew]
    · exact h.findLocal
  obtain ⟨outer, hchain⟩ := t.exists_chain_eq_cons own
  unfold SymbolTable.findAll
  rw [hchain, firstNonempty, hhere]

/-- Items of other names do not matter. -/
theorem addItem (h : t.BindsType own name ty i) (hlists : t.ListsItems own) (hown : item.scope = own)
    (hne : item.name ≠ name) : (t.addItem item).2.BindsType own name ty i where
  named := by
    obtain ⟨scope, hscope⟩ := h.exists_scope
    rw [named_addItem hlists hscope hown, h.named, beq_eq_false_iff_ne.2 hne]
    rfl
  there := by
    obtain ⟨entry, hentry, hrest⟩ := h.there
    exact ⟨entry, (item?_addItem_of_ne (Nat.ne_of_lt (lt_of_item? hentry))).trans hentry, hrest⟩

/-- A name that the scope does not have can be bound. -/
theorem addItem_self (hlists : t.ListsItems own) {scope : Scope} (hscope : t.scope? own = some scope)
    (hfree : t.named own item.name = []) (hown : item.scope = own)
    (hvisible : item.visibility = .scopeOnly) (hbound : item.entity = .bound ty) :
    (t.addItem item).2.BindsType own item.name ty ⟨t.items.size⟩ where
  named := by
    rw [named_addItem hlists hscope hown, hfree, beq_self_eq_true]
    rfl
  there := ⟨_, item?_addItem_self t item, rfl, hown, hvisible, hbound⟩

end BindsType

theorem OwnedRightly.addItem (h : t.OwnedRightly own) : (t.addItem item).2.OwnedRightly own := by
  intro c hc
  have howner : t.classOwner? own = some c := by
    rw [← hc]
    show _ = ((t.modifyScope item.scope _).scope? own).bind _
    rw [scope?_modifyScope]
    split
    · rw [Option.bind_map]
      rfl
    · rfl
  obtain ⟨cls, hcls, hscope⟩ := h c howner
  refine ⟨cls, ?_, hscope⟩
  rw [class?, item?_addItem_of_ne (Nat.ne_of_lt (lt_of_class? hcls))]
  exact hcls

end SemanticAnalysis.SymbolTable
