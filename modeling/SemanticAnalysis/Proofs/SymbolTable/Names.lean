import SemanticAnalysis.Proofs.SymbolTable.Aliases

/-!
# What a scope has under a name

A name is clear in a scope if it means one kind of thing there: functions, or a single item
(`SymbolTable.Clear`). `SymbolTable.Settles` is about the items that a scope has under a name, aliases followed: an
item and all the others are as some property says that stays true of items (`Lasting`). It goes on to hold when items
change in other ways than by name, kind or target (`SameNames.settles`), and when an item is added that is as the
property says (`Settles.addOwn`, `Settles.addAlias`) or stands elsewhere (`SettlesAlone.addElsewhere`).
-/

namespace SemanticAnalysis

namespace SymbolTable

variable {t u : SymbolTable} {i j : ItemId} {scope : ScopeId} {name : String}

/-- The item is a function, if there is such an item. -/
def OnlyFunction (t : SymbolTable) (i : ItemId) : Prop :=
  ∀ item, t.item? i = some item → item.entity.kind = .fn

/-- A name means one kind of thing in a scope: functions, or a single item. -/
def Clear (t : SymbolTable) (scope : ScopeId) (name : String) : Prop :=
  (∀ i ∈ t.findLocal name scope [] none, t.OnlyFunction i) ∨ ∃ i, t.findLocal name scope [] none = [i]

/-! ## What is found -/

theorem nodup_findLocal (t : SymbolTable) (name : String) (scope : ScopeId) :
    (t.findLocal name scope [] none).Nodup := by
  unfold findLocal
  split
  · exact List.nodup_nil
  · exact nodup_foldl_insertNew List.nodup_nil _

/-- What is found is where the aliases of a declaration end. -/
theorem mem_findLocal_iff : i ∈ t.findLocal name scope [] none ↔
    ∃ sc j item, t.scope? scope = some sc ∧ j ∈ sc.items ∧ t.item? j = some item ∧ item.name = name ∧
      t.LeadsTo j i := by
  simp only [mem_findLocal, offered?_eq_some, ← resolveAlias_eq_ok, resolveAlias_eq_ok_iff]
  constructor
  · rintro ⟨sc, hsc, j, hj, item, hitem, hname, hleads⟩
    exact ⟨sc, j, item, hsc, hj, hitem, hname, hleads⟩
  · rintro ⟨sc, j, item, hsc, hj, hitem, hname, hleads⟩
    exact ⟨sc, hsc, j, hj, item, hitem, hname, hleads⟩

/-- Nothing is found but one item. -/
theorem clear_of_eq
    (h : ∀ j ∈ t.findLocal name scope [] none, ∀ k ∈ t.findLocal name scope [] none, j = k) :
    t.Clear scope name := by
  have hnodup := nodup_findLocal t name scope
  unfold Clear
  generalize t.findLocal name scope [] none = found at h hnodup
  match found with
  | [] => exact .inl (by simp)
  | [j] => exact .inr ⟨j, rfl⟩
  | j :: k :: rest =>
    have hjk : j = k := h j (by simp) k (by simp)
    simp [hjk] at hnodup

/-! ## Properties of items -/

/-- What is said of an item stays true as long as the item stays what it is. -/
def Lasting (P : SymbolTable → ItemId → Prop) : Prop :=
  ∀ t u i, (u.item? i).map Item.identity = (t.item? i).map Item.identity → P t i → P u i

theorem lasting_eq (i : ItemId) : Lasting fun _ j => j = i := fun _ _ _ _ h => h

theorem lasting_onlyFunction : Lasting OnlyFunction := by
  intro t u i hsame h item hitem
  rw [hitem, Option.map_some, eq_comm] at hsame
  obtain ⟨item', hitem', heq⟩ := Option.map_eq_some_iff.1 hsame
  have hkind : item'.entity.kind = item.entity.kind := congrArg (·.2.1) heq
  exact hkind ▸ h item' hitem'

theorem aliasTarget?_congr (h : (u.item? i).map Item.identity = (t.item? i).map Item.identity) :
    u.aliasTarget? i = t.aliasTarget? i := by
  have htarget : ∀ w : SymbolTable,
      w.aliasTarget? i = ((w.item? i).map Item.identity).bind (·.2.2.2) := by
    intro w
    rw [aliasTarget?_eq, Option.bind_map]
    rfl
  rw [htarget, htarget, h]

theorem lasting_isProper : Lasting IsProper := by
  intro t u i hsame h
  refine ⟨?_, (aliasTarget?_congr hsame).trans h.own⟩
  have hlt := h.there
  have hitem : t.item? i = some t.items[i.index] := Array.getElem?_eq_getElem hlt
  rw [hitem] at hsame
  obtain ⟨item', hitem', -⟩ := Option.map_eq_some_iff.1 hsame
  exact lt_of_item? hitem'

theorem exists_item?_of_isFunction (h : t.isFunction i = true) :
    ∃ item f, t.item? i = some item ∧ item.entity = .fn f := by
  unfold isFunction kind? at h
  cases hitem : t.item? i with
  | none => simp [hitem] at h
  | some item =>
    cases hentity : item.entity with
    | fn f => exact ⟨item, f, rfl, hentity⟩
    | var | cls | space | aliasOf | bound => simp [hitem, hentity, Entity.kind] at h

theorem onlyFunction_of_isFunction (h : t.isFunction i = true) : t.OnlyFunction i := by
  obtain ⟨item, f, hitem, hentity⟩ := exists_item?_of_isFunction h
  intro item' hitem'
  obtain rfl := Option.some.inj (hitem.symm.trans hitem')
  exact congrArg Entity.kind hentity

theorem isProper_of_isFunction (h : t.isFunction i = true) : t.IsProper i := by
  obtain ⟨item, f, hitem, hentity⟩ := exists_item?_of_isFunction h
  refine ⟨lt_of_item? hitem, ?_⟩
  rw [aliasTarget?_eq, hitem, Option.bind_some, Item.alias?, hentity]

/-! ## What is settled -/

/-- The item is as `P` says, and so is all that the scope has under the name. -/
structure Settles (t : SymbolTable) (i : ItemId) (scope : ScopeId) (name : String)
    (P : SymbolTable → ItemId → Prop) : Prop where
  proper : t.IsProper i
  self : P t i
  found : ∀ j ∈ t.findLocal name scope [] none, P t j

/-- The scope has nothing but the item under the name. -/
abbrev SettlesAlone (t : SymbolTable) (i : ItemId) (scope : ScopeId) (name : String) : Prop :=
  t.Settles i scope name fun _ j => j = i

theorem Settles.clear_of_functions (h : t.Settles i scope name OnlyFunction) : t.Clear scope name := .inl h.found

theorem SettlesAlone.clear (h : t.SettlesAlone i scope name) : t.Clear scope name :=
  clear_of_eq fun j hj k hk => (h.found j hj).trans (h.found k hk).symm

/-! ## Changes that add no name -/

/-- Items stay what they are, and scopes list what they listed. A new scope lists nothing. -/
structure SameNames (t u : SymbolTable) : Prop where
  items : ∀ i, (u.item? i).map Item.identity = (t.item? i).map Item.identity
  listed : ∀ s sc, u.scope? s = some sc → ∀ i ∈ sc.items, ∃ sc', t.scope? s = some sc' ∧ i ∈ sc'.items

namespace SameNames

theorem of_scopes (hscopes : u.scopes = t.scopes)
    (hitems : ∀ i, (u.item? i).map Item.identity = (t.item? i).map Item.identity) : t.SameNames u where
  items := hitems
  listed s sc hs i hi := ⟨sc, by rwa [scope?, ← hscopes], hi⟩

theorem modifyItem {i : ItemId} {g : Item → Item} (hg : ∀ item, (g item).identity = item.identity) :
    t.SameNames (t.modifyItem i g) := by
  refine of_scopes rfl fun j => ?_
  rw [item?_modifyItem]
  split
  · rw [Option.map_map]
    congr 1
    exact funext hg
  · rfl

theorem modifyFunction {i : ItemId} {g : Function → Function} (hg : ∀ f, (g f).scope = f.scope) :
    t.SameNames (t.modifyFunction i g) := by
  refine modifyItem fun item => ?_
  cases h : item.entity <;>
    simp [Item.identity, Item.ownScope?, Item.alias?, Entity.kind, h, hg]

theorem modifyClass {i : ItemId} {g : Class → Class} (hg : ∀ c, (g c).scope = c.scope) :
    t.SameNames (t.modifyClass i g) := by
  refine modifyItem fun item => ?_
  cases h : item.entity <;>
    simp [Item.identity, Item.ownScope?, Item.alias?, Entity.kind, h, hg]

theorem modifyModule {m : ModuleId} {g : Module → Module} : t.SameNames (t.modifyModule m g) :=
  of_scopes rfl fun _ => rfl

theorem modifyScope {s : ScopeId} {g : Scope → Scope} (hg : ∀ sc, (g sc).items = sc.items) :
    t.SameNames (t.modifyScope s g) where
  items _ := rfl
  listed x sc hx i hi := by
    rw [scope?_modifyScope] at hx
    split at hx
    · obtain ⟨sc', hsc', rfl⟩ := Option.map_eq_some_iff.1 hx
      exact ⟨sc', hsc', hg sc' ▸ hi⟩
    · exact ⟨sc, hx, hi⟩

theorem setOwner {s : ScopeId} {owner : ScopeOwner} : t.SameNames (t.setOwner s owner) :=
  modifyScope fun _ => rfl

theorem pushScope {parent : Option ScopeId} {owner : ScopeOwner} {module : ModuleId} {relative : Nat} :
    t.SameNames (t.pushScope parent owner module relative).2 where
  items _ := rfl
  listed x sc hx i hi := by
    rw [scope?_pushScope] at hx
    split at hx
    · cases hx
      cases hi
    · exact ⟨sc, hx, hi⟩

theorem trans {v : SymbolTable} (h : t.SameNames u) (h' : u.SameNames v) : t.SameNames v where
  items i := (h'.items i).trans (h.items i)
  listed s sc hs i hi := by
    obtain ⟨sc', hs', hi'⟩ := h'.listed s sc hs i hi
    exact h.listed s sc' hs' i hi'

theorem newScope {parent : ScopeId} {owner : ScopeOwner} : t.SameNames (t.newScope parent owner).2 := by
  unfold SymbolTable.newScope
  split
  · exact pushScope
  · have hcounted : t.SameNames (t.modifyScope parent fun s => { s with nextChild := s.nextChild + 1 }) :=
      modifyScope fun _ => rfl
    exact hcounted.trans pushScope

variable (h : t.SameNames u)

include h

/-- Nothing new is found. -/
theorem findLocal_subset : u.findLocal name scope [] none ⊆ t.findLocal name scope [] none := by
  intro i hi
  obtain ⟨sc, j, item, hsc, hj, hitem, hname, hleads⟩ := mem_findLocal_iff.1 hi
  obtain ⟨sc', hsc', hj'⟩ := h.listed scope sc hsc j hj
  have hidentity := h.items j
  rw [hitem, Option.map_some, eq_comm] at hidentity
  obtain ⟨item', hitem', heq⟩ := Option.map_eq_some_iff.1 hidentity
  have htarget : ∀ k, u.aliasTarget? k = t.aliasTarget? k := fun k => aliasTarget?_congr (h.items k)
  have haliases : u.IsAliasOf = t.IsAliasOf := by
    funext a b
    rw [IsAliasOf, IsAliasOf, htarget]
  exact mem_findLocal_iff.2 ⟨sc', j, item', hsc', hj', hitem', (congrArg (·.1) heq).trans hname,
    haliases ▸ hleads.follows, htarget i ▸ hleads.ends⟩

theorem settles {P : SymbolTable → ItemId → Prop} (hP : Lasting P) (hi : t.Settles i scope name P) :
    u.Settles i scope name P where
  proper := lasting_isProper t u i (h.items i) hi.proper
  self := hP t u i (h.items i) hi.self
  found j hj := hP t u j (h.items j) (hi.found j (h.findLocal_subset hj))

end SameNames

/-! ## New items -/

section AddItem

variable {item : Item} {P : SymbolTable → ItemId → Prop}

open Relation

theorem item?_addItem_of_ne (h : j.index ≠ t.items.size) : (t.addItem item).2.item? j = t.item? j := by
  rw [item?_addItem, if_neg h]

/-- Aliases lead where they led, unless that was where the new item is. -/
theorem leadsTo_of_addItem (h : (t.addItem item).2.LeadsTo j i) :
    t.LeadsTo j i ∨ t.LeadsTo j ⟨t.items.size⟩ ∧ (t.addItem item).2.LeadsTo ⟨t.items.size⟩ i := by
  have hnone : t.aliasTarget? ⟨t.items.size⟩ = none := by
    have hitem : t.item? ⟨t.items.size⟩ = none := Array.getElem?_eq_none (Nat.le_refl _)
    rw [aliasTarget?_eq, hitem]
    rfl
  have hold : ∀ k : ItemId, k.index ≠ t.items.size →
      (t.addItem item).2.aliasTarget? k = t.aliasTarget? k := fun k hk =>
    aliasTarget?_congr (congrArg _ (item?_addItem_of_ne hk))
  obtain ⟨hchain, hend⟩ := h
  induction hchain using ReflTransGen.head_induction_on with
  | refl =>
    by_cases hi : i.index = t.items.size
    · obtain rfl : i = ⟨t.items.size⟩ := congrArg ItemId.mk hi
      exact .inl ⟨.refl, hnone⟩
    · exact .inl ⟨.refl, hold i hi ▸ hend⟩
  | @head j k hstep hrest ih =>
    by_cases hj : j.index = t.items.size
    · obtain rfl : j = ⟨t.items.size⟩ := congrArg ItemId.mk hj
      exact .inr ⟨⟨.refl, hnone⟩, .head hstep hrest, hend⟩
    · have hstep' : t.IsAliasOf j k := (hold j hj).symm.trans hstep
      refine ih.imp (fun h => ?_) fun ⟨h, hnew⟩ => ⟨?_, hnew⟩
      · exact ⟨.head hstep' h.follows, h.ends⟩
      · exact ⟨.head hstep' h.follows, h.ends⟩

theorem listed_of_addItem {s : ScopeId} {sc : Scope} (hs : (t.addItem item).2.scope? s = some sc)
    (hmem : j ∈ sc.items) :
    (∃ sc', t.scope? s = some sc' ∧ j ∈ sc'.items) ∨ item.scope = s ∧ j.index = t.items.size := by
  replace hs : (t.modifyScope item.scope _).scope? s = some sc := hs
  rw [scope?_modifyScope] at hs
  split at hs
  · rename_i hin
    obtain ⟨sc', hsc', rfl⟩ := Option.map_eq_some_iff.1 hs
    refine (List.mem_append.1 hmem).imp (fun h => ⟨sc', hsc', h⟩) fun hlast => ⟨hin.symm, ?_⟩
    rw [List.mem_singleton.1 hlast]
  · exact .inl ⟨sc, hs, hmem⟩

/-- What is found was found before, or the new item leads there. It does so for a declaration of the scope:
the new item itself or one that led to where it is. -/
theorem found_of_addItem (hi : i ∈ (t.addItem item).2.findLocal name scope [] none) :
    i ∈ t.findLocal name scope [] none ∨ (t.addItem item).2.LeadsTo ⟨t.items.size⟩ i ∧
      (item.scope = scope ∨ (∃ sc, t.scope? scope = some sc ∧ ⟨t.items.size⟩ ∈ sc.items) ∨
        ⟨t.items.size⟩ ∈ t.findLocal name scope [] none) := by
  obtain ⟨sc, j, entry, hsc, hj, hentry, hname, hleads⟩ := mem_findLocal_iff.1 hi
  by_cases hnew : j.index = t.items.size
  · obtain rfl : j = ⟨t.items.size⟩ := congrArg ItemId.mk hnew
    exact .inr ⟨hleads, (listed_of_addItem hsc hj).symm.imp And.left .inl⟩
  · rw [item?_addItem_of_ne hnew] at hentry
    obtain ⟨sc', hsc', hj'⟩ := (listed_of_addItem hsc hj).resolve_right fun hlast => hnew hlast.2
    have hfound : ∀ k, t.LeadsTo j k → k ∈ t.findLocal name scope [] none := fun k hk =>
      mem_findLocal_iff.2 ⟨sc', j, entry, hsc', hj', hentry, hname, hk⟩
    exact (leadsTo_of_addItem hleads).imp (hfound i) fun ⟨hto, hfrom⟩ =>
      ⟨hfrom, .inr (.inr (hfound _ hto))⟩

theorem leadsTo_addOwn (hown : item.alias? = none) (h : (t.addItem item).2.LeadsTo ⟨t.items.size⟩ i) :
    i = ⟨t.items.size⟩ := by
  have hend : (t.addItem item).2.aliasTarget? ⟨t.items.size⟩ = none :=
    (aliasTarget?_addItem_self t item).trans hown
  rcases ReflTransGen.cases_head h.follows with heq | ⟨k, hstep, -⟩
  · exact heq.symm
  · exact absurd hstep (not_isAliasOf_of_none hend)

theorem leadsTo_addAlias (htarget : t.IsProper j) (halias : item.alias? = some j)
    (h : (t.addItem item).2.LeadsTo ⟨t.items.size⟩ i) : i = j := by
  have hstep : (t.addItem item).2.IsAliasOf ⟨t.items.size⟩ j :=
    (aliasTarget?_addItem_self t item).trans halias
  have hend : (t.addItem item).2.aliasTarget? j = none := (isProper_addItem htarget).own
  rcases ReflTransGen.cases_head h.follows with heq | ⟨k, hstep', hrest⟩
  · exact absurd (heq ▸ hstep) (not_isAliasOf_of_none h.ends)
  · obtain rfl := hstep'.eq hstep
    rcases ReflTransGen.cases_head hrest with heq | ⟨l, hnext, -⟩
    · exact heq.symm
    · exact absurd hnext (not_isAliasOf_of_none hend)

/-- The first item that a scope gets under a name. -/
theorem clear_addItem (hfree : t.findLocal item.name item.scope [] none = []) :
    (t.addItem item).2.Clear item.scope item.name := by
  have hleads : ∀ j ∈ (t.addItem item).2.findLocal item.name item.scope [] none,
      (t.addItem item).2.LeadsTo ⟨t.items.size⟩ j := fun j hj =>
    ((found_of_addItem hj).resolve_left (by simp [hfree])).1
  refine clear_of_eq fun j hj k hk => ?_
  have heq := (resolveAlias_eq_ok_iff.2 (hleads j hj)).symm.trans (resolveAlias_eq_ok_iff.2 (hleads k hk))
  exact Except.ok.inj heq

theorem settles_addItem (hfree : t.findLocal item.name item.scope [] none = [])
    (hown : item.alias? = none) :
    (t.addItem item).2.SettlesAlone ⟨t.items.size⟩ item.scope item.name where
  proper := isProper_addItem_self hown
  self := rfl
  found _ hj := leadsTo_addOwn hown ((found_of_addItem hj).resolve_left (by simp [hfree])).1

/-- A function gets another name among functions. -/
theorem clear_addAlias_of_isFunction
    (hfound : ∀ k ∈ t.findLocal name scope [] none, t.isFunction k = true)
    (hj : t.isFunction j = true) (halias : item.alias? = some j) : (t.addItem item).2.Clear scope name := by
  refine .inl fun k hk => ?_
  have hk' : t.isFunction k = true := by
    rcases found_of_addItem hk with hold | ⟨hleads, -⟩
    · exact hfound k hold
    · exact leadsTo_addAlias (isProper_of_isFunction hj) halias hleads ▸ hj
  have hne := Nat.ne_of_lt (isProper_of_isFunction hk').there
  exact lasting_onlyFunction _ _ k (congrArg _ (item?_addItem_of_ne hne)) (onlyFunction_of_isFunction hk')

namespace Settles

variable (hP : Lasting P) (h : t.Settles i scope name P)

include hP h

theorem self_addItem : P (t.addItem item).2 i :=
  hP _ _ i (congrArg _ (item?_addItem_of_ne (Nat.ne_of_lt h.proper.there))) h.self

/-- A new item that is as `P` says. -/
theorem addOwn (hown : item.alias? = none) (hnew : P (t.addItem item).2 ⟨t.items.size⟩) :
    (t.addItem item).2.Settles i scope name P where
  proper := isProper_addItem h.proper
  self := h.self_addItem hP
  found j hj := by
    rcases found_of_addItem hj with hold | ⟨hleads, -⟩
    · by_cases hlast : j.index = t.items.size
      · obtain rfl : j = ⟨t.items.size⟩ := congrArg ItemId.mk hlast
        exact hnew
      · exact hP _ _ j (congrArg _ (item?_addItem_of_ne hlast)) (h.found j hold)
    · exact leadsTo_addOwn hown hleads ▸ hnew

/-- A new alias of the item. -/
theorem addAlias (halias : item.alias? = some i) : (t.addItem item).2.Settles i scope name P where
  proper := isProper_addItem h.proper
  self := h.self_addItem hP
  found j hj := by
    rcases found_of_addItem hj with hold | ⟨hleads, -⟩
    · by_cases hlast : j.index = t.items.size
      · -- the new alias is not where aliases end
        obtain ⟨_, _, _, -, -, -, -, hends⟩ := mem_findLocal_iff.1 hj
        obtain rfl : j = ⟨t.items.size⟩ := congrArg ItemId.mk hlast
        have htarget := (aliasTarget?_addItem_self t item).trans halias
        cases htarget.symm.trans hends.ends
      · exact hP _ _ j (congrArg _ (item?_addItem_of_ne hlast)) (h.found j hold)
    · exact leadsTo_addAlias h.proper halias hleads ▸ h.self_addItem hP

end Settles

/-- The scope lists only items that are there. -/
def ListsItems (t : SymbolTable) (scope : ScopeId) : Prop :=
  ∀ sc, t.scope? scope = some sc → ∀ j ∈ sc.items, j.index < t.items.size

theorem ListsItems.addItem (h : t.ListsItems scope) : (t.addItem item).2.ListsItems scope := by
  intro sc hsc j hj
  rw [size_addItem]
  rcases listed_of_addItem hsc hj with ⟨sc', hsc', hj'⟩ | ⟨-, hlast⟩
  · exact Nat.lt_succ_of_lt (h sc' hsc' j hj')
  · exact hlast ▸ Nat.lt_succ_self _

theorem SameNames.listsItems (hsame : t.SameNames u) (hsize : u.items.size = t.items.size)
    (h : t.ListsItems scope) : u.ListsItems scope := by
  intro sc hsc j hj
  obtain ⟨sc', hsc', hj'⟩ := hsame.listed scope sc hsc j hj
  exact hsize ▸ h sc' hsc' j hj'

/-- A new item of another scope. -/
theorem SettlesAlone.addElsewhere (h : t.SettlesAlone i scope name) (hlists : t.ListsItems scope)
    (hne : item.scope ≠ scope) : (t.addItem item).2.SettlesAlone i scope name where
  proper := isProper_addItem h.proper
  self := rfl
  found j hj := by
    rcases found_of_addItem hj with hold | ⟨-, hhere | ⟨sc, hsc, hmem⟩ | hfound⟩
    · exact h.found j hold
    · exact absurd hhere hne
    · exact absurd (hlists sc hsc _ hmem) (Nat.lt_irrefl _)
    · have hlast : t.items.size = i.index := congrArg ItemId.index (h.found _ hfound)
      exact absurd (hlast ▸ h.proper.there) (Nat.lt_irrefl _)

end AddItem

/-! ## New scopes -/

theorem fst_newScope_ne (h : (t.scope? scope).isSome = true) (parent : ScopeId) (owner : ScopeOwner) :
    (t.newScope parent owner).1 ≠ scope := by
  obtain ⟨sc, hsc⟩ := Option.isSome_iff_exists.1 h
  have hnew : (t.newScope parent owner).1 = ⟨t.scopes.size⟩ := by
    unfold SymbolTable.newScope
    split
    · rfl
    · exact congrArg ScopeId.mk Array.size_modify
  rw [hnew]
  rintro rfl
  exact absurd (Array.getElem?_eq_some_iff.1 hsc).1 (Nat.lt_irrefl _)

end SymbolTable

end SemanticAnalysis
