import SemanticAnalysis.Proofs.SymbolTable.Extension

/-!
# Templates stay templates

Whether a declaration is analysed at once or only through its instances hangs on the item made for it:
an item with generic parameters is a template. No operation of the symbol table turns a template into an
ordinary item, and none takes an item away (`SymbolTable.KeepsTemplates`). The callbacks of attributes
are trusted with the same (`AttributeTable.KeepsTemplates`).
-/

namespace SemanticAnalysis

theorem Item.isGeneric_shape (i : Item) : i.shape.isGeneric = i.isGeneric := by
  unfold Item.shape
  split <;> rfl

namespace SymbolTable

variable {t u v : SymbolTable}

/-- `u` is a later table than `t`: it has all items of `t`, and its templates. -/
structure KeepsTemplates (t u : SymbolTable) : Prop where
  size_le : t.items.size ≤ u.items.size
  isGeneric : ∀ i, t.isGeneric i = true → u.isGeneric i = true

namespace KeepsTemplates

@[grind ←] theorem refl (t : SymbolTable) : t.KeepsTemplates t := ⟨Nat.le_refl _, fun _ h => h⟩

theorem trans (h : t.KeepsTemplates u) (h' : u.KeepsTemplates v) : t.KeepsTemplates v :=
  ⟨Nat.le_trans h.size_le h'.size_le, fun i hi => h'.isGeneric i (h.isGeneric i hi)⟩

/-- A change that leaves items alone. -/
theorem of_items (h : u.items = t.items) : t.KeepsTemplates u := by
  have hitem : u.isGeneric = t.isGeneric := by
    funext i
    rw [SymbolTable.isGeneric, SymbolTable.isGeneric, item?, item?, h]
  exact ⟨h ▸ Nat.le_refl _, fun i hi => hitem ▸ hi⟩

/-! ### Items -/

@[grind ←] theorem modifyItem {i : ItemId} {g : Item → Item}
    (hg : ∀ item, (g item).generics = item.generics) : t.KeepsTemplates (t.modifyItem i g) := by
  refine ⟨Nat.le_of_eq Array.size_modify.symm, fun j hj => ?_⟩
  have hgeneric : ∀ item, (g item).isGeneric = item.isGeneric := by
    intro item
    rw [Item.isGeneric, Item.isGeneric, hg]
  rw [SymbolTable.isGeneric, item?_modifyItem]
  split
  · rw [Option.any_map]
    simpa only [SymbolTable.isGeneric, Function.comp_def, hgeneric] using hj
  · exact hj

@[grind ←] theorem modifyFunction {i : ItemId} {g : Function → Function} :
    t.KeepsTemplates (t.modifyFunction i g) := by
  refine modifyItem fun item => ?_
  cases item.entity <;> rfl

@[grind ←] theorem modifyClass {i : ItemId} {g : Class → Class} :
    t.KeepsTemplates (t.modifyClass i g) := by
  refine modifyItem fun item => ?_
  cases item.entity <;> rfl

@[grind ←] theorem modifyVariable {i : ItemId} {g : Variable → Variable} :
    t.KeepsTemplates (t.modifyVariable i g) := by
  refine modifyItem fun item => ?_
  cases item.entity <;> rfl

@[grind ←] theorem addItem {item : Item} : t.KeepsTemplates (t.addItem item).2 := by
  refine ⟨size_addItem t item ▸ Nat.le_succ _, fun i hi => ?_⟩
  obtain ⟨old, hold, hgeneric⟩ := (Option.any_eq_true ..).1 hi
  rw [SymbolTable.isGeneric, item?_addItem, if_neg (Nat.ne_of_lt (lt_of_item? hold))]
  exact hi

/-! ### Scopes and modules -/

@[grind ←] theorem modifyScope {s : ScopeId} {g : Scope → Scope} :
    t.KeepsTemplates (t.modifyScope s g) := of_items rfl

@[grind ←] theorem setOwner {s : ScopeId} {owner : ScopeOwner} :
    t.KeepsTemplates (t.setOwner s owner) := of_items rfl

@[grind ←] theorem modifyModule {m : ModuleId} {g : Module → Module} :
    t.KeepsTemplates (t.modifyModule m g) := of_items rfl

@[grind ←] theorem newScope {parent : ScopeId} {owner : ScopeOwner} :
    t.KeepsTemplates (t.newScope parent owner).2 := by
  unfold SymbolTable.newScope
  split <;> exact of_items rfl

@[grind ←] theorem newModule {name path package : String} :
    t.KeepsTemplates (t.newModule name path package).2 := of_items rfl

/-! ### Errors and captures -/

theorem of_sameShape (h : t.SameShape u) : t.KeepsTemplates u := by
  refine ⟨Nat.le_of_eq h.size_items_eq, fun i hi => ?_⟩
  have hany : ∀ w : SymbolTable, w.isGeneric i = ((w.item? i).map Item.shape).any (·.isGeneric) := by
    intro w
    rw [SymbolTable.isGeneric, Option.any_map]
    simp only [Item.isGeneric_shape]
  rwa [hany, ← h.items i, ← hany]

@[grind ←] theorem raise {flow : ErrorFlow} {s : ScopeId} {ty : Ty} :
    t.KeepsTemplates (flow.raise s ty t) := of_sameShape (sameShape_settle flow _ _ t)

@[grind ←] theorem run {flow : ErrorFlow} {tasks : List ErrorFlow.Task} :
    t.KeepsTemplates (flow.run tasks t) := of_sameShape (sameShape_settle flow _ tasks t)

@[grind ←] theorem link {flow : ErrorFlow} {callee : ItemId} {site : ScopeId} :
    t.KeepsTemplates (flow.link callee site t).2 := of_sameShape (sameShape_link flow callee site t)

@[grind ←] theorem captureAlong {used owner : ItemId} {chain : List ScopeId} :
    t.KeepsTemplates (t.captureAlong used owner chain) := by
  induction chain generalizing t with
  | nil => exact refl t
  | cons s outer ih =>
    unfold SymbolTable.captureAlong
    split
    · exact ih
    · split
      · exact refl t
      · split
        · split
          · exact modifyFunction.trans ih
          · exact refl t
        · exact refl t

end KeepsTemplates

end SymbolTable

/-- No callback takes an item away or makes an ordinary item of a template. -/
def AttributeTable.KeepsTemplates (t : AttributeTable) : Prop :=
  ∀ r ∈ t.registrations, ∀ (i : Invocation) (u : SymbolTable),
    u.KeepsTemplates (r.callback i u).2

end SemanticAnalysis
