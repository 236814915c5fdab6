import SemanticAnalysis.SymbolTable.Lookup
import SemanticAnalysis.Proofs.SymbolTable.Retention

/-!
# What is found stays found

The items that a scope offers under a name are those of its declarations, aliases followed. A later table
has the declarations of an earlier one under the same names, and its aliases lead where they led
(`Persists.followAliases`), so that what was found in a scope is still found there
(`Persists.mem_findLocal`).
-/

namespace SemanticAnalysis

namespace SymbolTable

variable {t u : SymbolTable} {i j : ItemId} {name : String} {s : ScopeId}

/-! ## Aliases -/

theorem aliasTarget?_eq (t : SymbolTable) (i : ItemId) : t.aliasTarget? i = (t.item? i).bind Item.alias? := by
  unfold aliasTarget? Item.alias?
  cases t.item? i with
  | none => rfl
  | some item => cases item.entity <;> rfl

/-- The item is there, and it is not an alias. -/
structure IsProper (t : SymbolTable) (i : ItemId) : Prop where
  there : i.index < t.items.size
  own : t.aliasTarget? i = none

theorem Persists.aliasTarget?_eq (h : t.Persists u) (hi : i.index < t.items.size) :
    u.aliasTarget? i = t.aliasTarget? i := by
  have hitem : t.item? i = some t.items[i.index] := Array.getElem?_eq_getElem hi
  obtain ⟨item', hitem', hidentity⟩ := h.items i _ hitem
  rw [SymbolTable.aliasTarget?_eq, SymbolTable.aliasTarget?_eq, hitem, hitem']
  exact congrArg (·.2.2.2) hidentity

theorem Persists.isProper (h : t.Persists u) (hi : t.IsProper i) : u.IsProper i :=
  ⟨Nat.lt_of_lt_of_le hi.there h.size_le, (h.aliasTarget?_eq hi.there).trans hi.own⟩

theorem followAliases_of_none (h : t.aliasTarget? i = none) (n : Nat) :
    t.followAliases n i = some i := by
  cases n <;> simp [followAliases, h]

theorem followAliases_self (hi : t.IsProper i) (n : Nat) : t.followAliases n i = some i :=
  followAliases_of_none hi.own n

theorem lt_of_aliasTarget? (h : t.aliasTarget? i = some j) : i.index < t.items.size := by
  rw [aliasTarget?_eq] at h
  obtain ⟨item, hitem, -⟩ := Option.bind_eq_some_iff.1 h
  exact lt_of_item? hitem

/-- Aliases lead where they led. -/
theorem Persists.followAliases (h : t.Persists u) {n m : Nat} (hle : n ≤ m) (hi : i.index < t.items.size)
    (hj : t.followAliases n j = some i) : u.followAliases m j = some i := by
  induction n generalizing j m with
  | zero =>
    unfold SymbolTable.followAliases at hj
    split at hj
    · cases hj
    · rename_i hnone
      cases hj
      have hproper : t.IsProper i := ⟨hi, by simpa using hnone⟩
      exact followAliases_self (h.isProper hproper) m
  | succ n ih =>
    unfold SymbolTable.followAliases at hj
    cases htarget : t.aliasTarget? j with
    | none =>
      rw [htarget] at hj
      cases hj
      exact followAliases_self (h.isProper ⟨hi, htarget⟩) m
    | some k =>
      rw [htarget] at hj
      obtain ⟨m, rfl⟩ : ∃ m', m = m' + 1 := ⟨m - 1, by omega⟩
      unfold SymbolTable.followAliases
      rw [h.aliasTarget?_eq (lt_of_aliasTarget? htarget), htarget]
      exact ih (Nat.le_of_succ_le_succ hle) hj

theorem resolveAlias_eq_ok : t.resolveAlias j = .ok i ↔ t.followAliases t.items.size j = some i := by
  unfold resolveAlias
  cases t.followAliases t.items.size j <;> simp

/-! ## Names -/

/-- A declaration offers an item under its name. -/
theorem offered?_eq_some :
    t.offered? name [] none j = some i ↔
      ∃ item, t.item? j = some item ∧ item.name = name ∧ t.followAliases t.items.size j = some i := by
  unfold offered?
  cases t.item? j with
  | none => simp
  | some item =>
    by_cases hname : item.name = name
    · rw [← resolveAlias_eq_ok]
      cases t.resolveAlias j with
      | error => simp [hname]
      | ok target =>
        have hnone : (t.kind? target).any List.nil.contains = false := by cases t.kind? target <;> rfl
        simp [hname, hnone]
    · simp [hname]

theorem mem_findLocal :
    i ∈ t.findLocal name s [] none ↔
      ∃ scope, t.scope? s = some scope ∧ ∃ j ∈ scope.items, t.offered? name [] none j = some i := by
  unfold findLocal
  cases t.scope? s with
  | none => simp
  | some scope => simp [mem_foldl_insertNew]

/-- What was found in a scope is still found there. -/
theorem Persists.mem_findLocal (h : t.Persists u) (hi : i.index < t.items.size)
    (hfound : i ∈ t.findLocal name s [] none) : i ∈ u.findLocal name s [] none := by
  obtain ⟨scope, hscope, j, hj, hoffered⟩ := SymbolTable.mem_findLocal.1 hfound
  obtain ⟨item, hitem, hname, hfollow⟩ := offered?_eq_some.1 hoffered
  obtain ⟨scope', hscope', -, hitems⟩ := h.scopes s scope hscope
  obtain ⟨item', hitem', hidentity⟩ := h.items j item hitem
  have hname' : item'.name = name := (congrArg Prod.fst hidentity).trans hname
  have hoffered' : u.offered? name [] none j = some i :=
    offered?_eq_some.2 ⟨item', hitem', hname', h.followAliases h.size_le hi hfollow⟩
  exact SymbolTable.mem_findLocal.2 ⟨scope', hscope', j, hitems.subset hj, hoffered'⟩

/-! ## New items -/

section AddItem

variable {item : Item} {scope : Scope}

theorem scope?_addItem (hscope : t.scope? item.scope = some scope) :
    ∃ scope', (t.addItem item).2.scope? item.scope = some scope' ∧
      (t.addItem item).1 ∈ scope'.items := by
  show ∃ scope', (t.modifyScope item.scope _).scope? item.scope = some scope' ∧ _
  rw [scope?_modifyScope, if_pos rfl, hscope]
  exact ⟨_, rfl, List.mem_append_right _ List.mem_cons_self⟩

theorem item?_addItem_self (t : SymbolTable) (item : Item) :
    (t.addItem item).2.item? (t.addItem item).1 = some { item with id := ⟨t.items.size⟩ } :=
  (item?_addItem ..).trans (if_pos rfl)

theorem aliasTarget?_addItem_self (t : SymbolTable) (item : Item) :
    (t.addItem item).2.aliasTarget? (t.addItem item).1 = item.alias? := by
  rw [aliasTarget?_eq, item?_addItem_self]
  rfl

theorem isProper_addItem_self (hown : item.alias? = none) :
    (t.addItem item).2.IsProper (t.addItem item).1 where
  there := by
    rw [size_addItem]
    exact Nat.lt_succ_self _
  own := (aliasTarget?_addItem_self t item).trans hown

theorem isProper_addItem (hi : t.IsProper i) : (t.addItem item).2.IsProper i where
  there := by
    rw [size_addItem]
    exact Nat.lt_succ_of_lt hi.there
  own := by
    rw [aliasTarget?_eq, item?_addItem, if_neg (Nat.ne_of_lt hi.there), ← aliasTarget?_eq]
    exact hi.own

theorem mem_findLocal_addItem (hscope : t.scope? item.scope = some scope)
    (hfollow : (t.addItem item).2.followAliases (t.items.size + 1) (t.addItem item).1 = some i) :
    i ∈ (t.addItem item).2.findLocal item.name item.scope [] none := by
  obtain ⟨scope', hscope', hmem⟩ := scope?_addItem hscope
  rw [← size_addItem t item] at hfollow
  have hoffered := offered?_eq_some.2 ⟨_, item?_addItem_self t item, rfl, hfollow⟩
  exact mem_findLocal.2 ⟨scope', hscope', _, hmem, hoffered⟩

/-- A new declaration is found in its scope. -/
theorem findLocal_addItem (hscope : t.scope? item.scope = some scope) (hown : item.alias? = none) :
    (t.addItem item).1 ∈ (t.addItem item).2.findLocal item.name item.scope [] none :=
  mem_findLocal_addItem hscope (followAliases_self (isProper_addItem_self hown) _)

/-- A new alias of an item leads to it. -/
theorem findLocal_addAlias (hscope : t.scope? item.scope = some scope) (hi : t.IsProper i)
    (halias : item.alias? = some i) :
    i ∈ (t.addItem item).2.findLocal item.name item.scope [] none := by
  refine mem_findLocal_addItem hscope ?_
  unfold followAliases
  rw [aliasTarget?_addItem_self, halias]
  exact followAliases_self (isProper_addItem hi) _

end AddItem

end SymbolTable

end SemanticAnalysis
