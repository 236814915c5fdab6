import Mathlib.Data.List.Count
import SemanticAnalysis.Proofs.SymbolTable.Lookup

/-!
# Tables that are built step by step

Four operations make a symbol table: they add a module, a scope inside a scope, an item in a scope, and
say whom a scope belongs to. `SymbolTable.build` carries out a list of them and fails when one refers to
a scope that is not there. Whatever is built is well formed (`SymbolTable.WellFormed`), which has three
parts, each kept by each operation on its own:

1. Scopes nest (`ScopesNest`): the scope around a scope is an earlier one of the same module, and the
   scopes inside a scope are numbered in order.
2. Items are listed in their scope and nowhere else (`ItemsListed`).
3. Modules have two outermost scopes of their own (`ModulesHoused`).

Since scopes nest, going outward from a scope ends, in the same module (`ScopesNest.leadsOut`).
-/

namespace SemanticAnalysis

/-- Where a scope is. -/
def Scope.place (s : Scope) : ScopeId × Option ScopeId × ModuleId := (s.id, s.parent, s.module)

/-- A scope with one more scope inside. -/
def Scope.counted (s : Scope) : Scope := { s with nextChild := s.nextChild + 1 }

namespace SymbolTable

/-! ## Well formed tables -/

section Definitions

variable (t : SymbolTable)

/-- The scopes right inside a scope, in the order in which they were made. -/
def children (s : ScopeId) : List Scope := t.scopes.toList.filter fun c => c.parent = some s

/-- All that scopes list, scope by scope. -/
def listings : List ItemId := t.scopes.toList.flatMap (·.items)

/-- Scopes know their numbers. The scope around a scope is an earlier one of the same module. The scopes
inside a scope are numbered from zero, and the scope knows how many there are. -/
structure ScopesNest : Prop where
  id : ∀ s scope, t.scope? s = some scope → scope.id = s
  parent : ∀ s scope p, t.scope? s = some scope → scope.parent = some p →
    p.index < s.index ∧ ∃ outer, t.scope? p = some outer ∧ outer.module = scope.module
  numbered : ∀ s scope, t.scope? s = some scope →
    (t.children s).map (·.relativeId) = List.range scope.nextChild

/-- Items know their numbers. An item is listed once, and that is in its scope. Nothing else is
listed. -/
structure ItemsListed : Prop where
  id : ∀ i item, t.item? i = some item → item.id = i
  once : ∀ i item, t.item? i = some item →
    t.listings.count i = 1 ∧ ∃ scope, t.scope? item.scope = some scope ∧ i ∈ scope.items
  there : ∀ i ∈ t.listings, i.index < t.items.size

/-- Modules know their numbers. A module has two scopes, both outermost and its own. -/
structure ModulesHoused : Prop where
  id : ∀ m md, t.module? m = some md → md.id = m
  apart : ∀ m md, t.module? m = some md → md.scope ≠ md.exports
  own : ∀ m md, t.module? m = some md → ∀ s ∈ [md.scope, md.exports],
    ∃ scope, t.scope? s = some scope ∧ scope.parent = none ∧ scope.module = m

/-- What holds of every table that is built. -/
structure WellFormed : Prop where
  scopes : t.ScopesNest
  items : t.ItemsListed
  modules : t.ModulesHoused

/-- Going outward from a scope follows the scopes around it, and ends in an outermost scope of the
module. -/
structure LeadsOut (s : ScopeId) (m : ModuleId) : Prop where
  starts : (t.chain s).head? = some s
  follows : (t.chain s).IsChain fun inner outer => (t.scope? inner).bind (·.parent) = some outer
  ends : ∃ last scope, (t.chain s).getLast? = some last ∧ t.scope? last = some scope ∧
    scope.parent = none ∧ scope.module = m

end Definitions

/-! ## Construction -/

/-- One step of the construction of a table. -/
inductive Construction where
  | newModule (name path package : String)
  | newScope (parent : ScopeId) (owner : ScopeOwner)
  | addItem (item : Item)
  | setOwner (scope : ScopeId) (owner : ScopeOwner)

/-- Carry out a step, unless it refers to a scope that is not there. -/
def Construction.run? (t : SymbolTable) : Construction → Option SymbolTable
  | newModule name path package => some (t.newModule name path package).2
  | newScope parent owner =>
    if (t.scope? parent).isSome then some (t.newScope parent owner).2 else none
  | addItem item => if (t.scope? item.scope).isSome then some (t.addItem item).2 else none
  | setOwner scope owner => if (t.scope? scope).isSome then some (t.setOwner scope owner) else none

/-- The table that a list of steps makes out of nothing. -/
def build (steps : List Construction) : Option SymbolTable := steps.foldlM Construction.run? {}

variable {t : SymbolTable}

/-! ## Lists of scopes -/

section Lists

variable {α β : Type}

theorem map_modify_of_eq {f : α → β} {g : α → α} (h : ∀ a, f (g a) = f a) (l : List α) (k : Nat) :
    (l.modify k g).map f = l.map f := by
  refine List.ext_getElem? fun n => ?_
  rw [List.getElem?_map, List.getElem?_map, List.getElem?_modify]
  cases l[n]? with
  | none => rfl
  | some a => by_cases hk : k = n <;> simp [hk, h]

/-- One list of several grows at its end. -/
theorem flatMap_modify_perm {f : α → List β} {g : α → α} {b : β} (h : ∀ a, f (g a) = f a ++ [b])
    {l : List α} {k : Nat} (hk : k < l.length) :
    ((l.modify k g).flatMap f).Perm (b :: l.flatMap f) := by
  induction l generalizing k with
  | nil => cases hk
  | cons a rest ih =>
    cases k with
    | zero =>
      rw [List.modify_zero_cons, List.flatMap_cons, List.flatMap_cons, h, List.append_assoc]
      exact List.perm_middle
    | succ k =>
      rw [List.modify_succ_cons, List.flatMap_cons, List.flatMap_cons]
      exact ((ih (Nat.lt_of_succ_lt_succ hk)).append_left _).trans List.perm_middle

end Lists

theorem lt_of_scope? {s : ScopeId} {scope : Scope} (h : t.scope? s = some scope) :
    s.index < t.scopes.size := (Array.getElem?_eq_some_iff.1 h).1

/-- A scope of the list of all scopes, by its number. -/
theorem exists_scope?_of_mem {c : Scope} (h : c ∈ t.scopes.toList) :
    ∃ s, t.scope? s = some c ∧ s.index < t.scopes.size := by
  obtain ⟨n, hn⟩ := List.mem_iff_getElem?.1 h
  rw [Array.getElem?_toList] at hn
  exact ⟨⟨n⟩, hn, (Array.getElem?_eq_some_iff.1 hn).1⟩

section Children

theorem toList_modifyScope (t : SymbolTable) (s : ScopeId) (g : Scope → Scope) :
    (t.modifyScope s g).scopes.toList = t.scopes.toList.modify s.index g := Array.toList_modify

theorem toList_pushScope (t : SymbolTable) (parent : Option ScopeId) (owner : ScopeOwner)
    (module : ModuleId) (relative : Nat) :
    (t.pushScope parent owner module relative).2.scopes.toList =
      t.scopes.toList ++
        [{ id := ⟨t.scopes.size⟩, parent, owner, module, relativeId := relative }] :=
  Array.toList_push

/-- The numbers of the scopes inside a scope. -/
def childNumbers (t : SymbolTable) (s : ScopeId) : List Nat := (t.children s).map (·.relativeId)

theorem childNumbers_eq (t : SymbolTable) (s : ScopeId) :
    t.childNumbers s =
      ((t.scopes.toList.map fun c => (c.parent, c.relativeId)).filter (·.1 = some s)).map (·.2) := by
  rw [List.filter_map, List.map_map]
  rfl

theorem childNumbers_modifyScope {x : ScopeId} {g : Scope → Scope}
    (hg : ∀ c, ((g c).parent, (g c).relativeId) = (c.parent, c.relativeId)) (s : ScopeId) :
    (t.modifyScope x g).childNumbers s = t.childNumbers s := by
  rw [childNumbers_eq, childNumbers_eq, toList_modifyScope, map_modify_of_eq hg]

theorem childNumbers_pushScope {parent : Option ScopeId} {owner : ScopeOwner} {module : ModuleId}
    {relative : Nat} (s : ScopeId) :
    (t.pushScope parent owner module relative).2.childNumbers s =
      t.childNumbers s ++ if parent = some s then [relative] else [] := by
  unfold childNumbers children
  rw [toList_pushScope, List.filter_append, List.map_append]
  by_cases h : parent = some s <;> simp [h]

end Children

section Listings

theorem listings_modifyScope {s : ScopeId} {g : Scope → Scope} (hg : ∀ c, (g c).items = c.items) :
    (t.modifyScope s g).listings = t.listings := by
  unfold listings
  rw [List.flatMap_def, List.flatMap_def, toList_modifyScope, map_modify_of_eq hg]

theorem listings_pushScope {parent : Option ScopeId} {owner : ScopeOwner} {module : ModuleId}
    {relative : Nat} : (t.pushScope parent owner module relative).2.listings = t.listings := by
  unfold listings
  rw [toList_pushScope, List.flatMap_append]
  simp

theorem listings_addItem {item : Item} (h : (t.scope? item.scope).isSome = true) :
    (t.addItem item).2.listings.Perm (⟨t.items.size⟩ :: t.listings) := by
  obtain ⟨scope, hscope⟩ := Option.isSome_iff_exists.1 h
  show ((t.modifyScope item.scope _).scopes.toList.flatMap _).Perm _
  rw [toList_modifyScope]
  refine flatMap_modify_perm (fun _ => rfl) ?_
  rw [Array.length_toList]
  exact lt_of_scope? hscope

end Listings

/-! ## New scopes -/

theorem scope?_newModule (t : SymbolTable) (name path package : String) (s : ScopeId) :
    (t.newModule name path package).2.scope? s =
      if s.index = t.scopes.size ∨ s.index = t.scopes.size + 1 then
        some { id := s, parent := none, owner := .unit ⟨t.modules.size⟩, module := ⟨t.modules.size⟩ }
      else t.scope? s := by
  show ((t.pushScope none (.unit ⟨t.modules.size⟩) ⟨t.modules.size⟩ 0).2.pushScope none
    (.unit ⟨t.modules.size⟩) ⟨t.modules.size⟩ 0).2.scope? s = _
  rw [scope?_pushScope, scope?_pushScope, size_pushScope]
  by_cases hlast : s.index = t.scopes.size + 1
  · simp [← hlast]
  · by_cases hfirst : s.index = t.scopes.size
    · simp [← hfirst]
    · simp [hlast, hfirst]

section NewScope

variable {parent : ScopeId} {outer : Scope}

theorem newScope_eq (h : t.scope? parent = some outer) (owner : ScopeOwner) :
    (t.newScope parent owner).2 =
      ((t.modifyScope parent Scope.counted).pushScope (some parent) owner outer.module
        outer.nextChild).2 := by
  rw [SymbolTable.newScope, h]
  rfl

theorem scope?_newScope (h : t.scope? parent = some outer) (owner : ScopeOwner) (x : ScopeId) :
    (t.newScope parent owner).2.scope? x =
      if x.index = t.scopes.size then
        some { id := ⟨t.scopes.size⟩, parent := some parent, owner, module := outer.module,
               relativeId := outer.nextChild }
      else if x = parent then (t.scope? x).map Scope.counted else t.scope? x := by
  have hsize : (t.modifyScope parent Scope.counted).scopes.size = t.scopes.size := Array.size_modify
  rw [newScope_eq h, scope?_pushScope, scope?_modifyScope, hsize]

theorem childNumbers_newScope (h : t.scope? parent = some outer) (owner : ScopeOwner) (x : ScopeId) :
    (t.newScope parent owner).2.childNumbers x =
      t.childNumbers x ++ if parent = x then [outer.nextChild] else [] := by
  have hcount := childNumbers_modifyScope (t := t) (x := parent) (g := Scope.counted) (fun _ => rfl) x
  rw [newScope_eq h, childNumbers_pushScope, hcount]
  simp only [Option.some.injEq]

theorem listings_newScope (h : t.scope? parent = some outer) (owner : ScopeOwner) :
    (t.newScope parent owner).2.listings = t.listings := by
  have hcount := listings_modifyScope (t := t) (s := parent) (g := Scope.counted) fun _ => rfl
  rw [newScope_eq h, listings_pushScope, hcount]

end NewScope

/-! ## Scopes stay -/

/-- The scopes of `t` are scopes of `u`, in the same places and with what they listed. -/
def ScopesStay (t u : SymbolTable) : Prop :=
  ∀ s scope, t.scope? s = some scope → ∃ scope', u.scope? s = some scope' ∧
    scope'.parent = scope.parent ∧ scope'.module = scope.module ∧ scope.items ⊆ scope'.items

namespace ScopesStay

theorem trans {u v : SymbolTable} (h : t.ScopesStay u) (h' : u.ScopesStay v) : t.ScopesStay v := by
  intro s scope hs
  obtain ⟨scope', hs', hparent, hmodule, hitems⟩ := h s scope hs
  obtain ⟨scope'', hs'', hparent', hmodule', hitems'⟩ := h' s scope' hs'
  exact ⟨scope'', hs'', hparent'.trans hparent, hmodule'.trans hmodule,
    List.Subset.trans hitems hitems'⟩

theorem modifyScope {s : ScopeId} {g : Scope → Scope}
    (hg : ∀ c, ((g c).parent, (g c).module) = (c.parent, c.module))
    (hitems : ∀ c, c.items ⊆ (g c).items) : t.ScopesStay (t.modifyScope s g) := by
  intro x scope hx
  rw [scope?_modifyScope, hx]
  split
  · exact ⟨g scope, rfl, congrArg Prod.fst (hg scope), congrArg Prod.snd (hg scope), hitems scope⟩
  · exact ⟨scope, rfl, rfl, rfl, List.Subset.refl _⟩

theorem pushScope {parent : Option ScopeId} {owner : ScopeOwner} {module : ModuleId} {relative : Nat} :
    t.ScopesStay (t.pushScope parent owner module relative).2 := by
  intro x scope hx
  rw [scope?_pushScope, if_neg (Nat.ne_of_lt (lt_of_scope? hx))]
  exact ⟨scope, hx, rfl, rfl, List.Subset.refl _⟩

theorem newModule {name path package : String} :
    t.ScopesStay (t.newModule name path package).2 := pushScope.trans pushScope

theorem setOwner {s : ScopeId} {owner : ScopeOwner} : t.ScopesStay (t.setOwner s owner) :=
  modifyScope (fun _ => rfl) fun _ => List.Subset.refl _

theorem newScope {parent : ScopeId} {owner : ScopeOwner} :
    t.ScopesStay (t.newScope parent owner).2 := by
  unfold SymbolTable.newScope
  split
  · exact pushScope
  · have hcount : t.ScopesStay (t.modifyScope parent Scope.counted) :=
      modifyScope (fun _ => rfl) fun _ => List.Subset.refl _
    exact hcount.trans pushScope

theorem addItem {item : Item} : t.ScopesStay (t.addItem item).2 := by
  show t.ScopesStay (t.modifyScope item.scope fun s => { s with items := s.items ++ [⟨t.items.size⟩] })
  exact modifyScope (fun _ => rfl) fun _ => List.subset_append_left _ _

end ScopesStay

/-! ## Scopes nest -/

namespace ScopesNest

theorem childNumbers_eq_nil (h : t.ScopesNest) {s : ScopeId} (hs : t.scopes.size ≤ s.index) :
    t.childNumbers s = [] := by
  unfold childNumbers children
  rw [List.map_eq_nil_iff, List.filter_eq_nil_iff]
  intro c hc
  obtain ⟨x, hx, hlt⟩ := exists_scope?_of_mem hc
  have hparent : c.parent ≠ some s := by
    intro hp
    have := (h.parent x c s hx hp).1
    omega
  simpa using hparent

/-- Scopes nest in a later table if each of its scopes was in the same place or is new, and new ones are
behind the scopes around them. -/
theorem of_origin {u : SymbolTable} (h : t.ScopesNest) (hstay : t.ScopesStay u)
    (horigin : ∀ s scope, u.scope? s = some scope →
      (∃ old, t.scope? s = some old ∧ scope.place = old.place) ∨
        scope.id = s ∧ ∀ p, scope.parent = some p →
          p.index < s.index ∧ ∃ outer, u.scope? p = some outer ∧ outer.module = scope.module)
    (hnumbered : ∀ s scope, u.scope? s = some scope →
      u.childNumbers s = List.range scope.nextChild) : u.ScopesNest where
  id s scope hs := by
    rcases horigin s scope hs with ⟨old, hold, hplace⟩ | ⟨hid, -⟩
    · exact (congrArg (·.1) hplace).trans (h.id s old hold)
    · exact hid
  parent s scope p hs hp := by
    rcases horigin s scope hs with ⟨old, hold, hplace⟩ | ⟨-, hnew⟩
    · obtain ⟨-, hparent, hmodule⟩ : scope.id = old.id ∧ scope.parent = old.parent ∧
          scope.module = old.module := by simpa [Scope.place] using hplace
      obtain ⟨hlt, outer, houter, heq⟩ := h.parent s old p hold (hparent ▸ hp)
      obtain ⟨outer', houter', -, hmodule', -⟩ := hstay p outer houter
      exact ⟨hlt, outer', houter', (hmodule'.trans heq).trans hmodule.symm⟩
    · exact hnew p hp
  numbered := hnumbered

/-- A change of a scope that leaves it where it is. -/
theorem modifyScope (h : t.ScopesNest) {s : ScopeId} {g : Scope → Scope}
    (hplace : ∀ c, (g c).place = c.place) (hitems : ∀ c, c.items ⊆ (g c).items)
    (hnumbers : ∀ c, ((g c).relativeId, (g c).nextChild) = (c.relativeId, c.nextChild)) :
    (t.modifyScope s g).ScopesNest := by
  have hchanged : ∀ x scope, (t.modifyScope s g).scope? x = some scope →
      ∃ old, t.scope? x = some old ∧ (scope = old ∨ scope = g old) := by
    intro x scope hx
    rw [scope?_modifyScope] at hx
    split at hx
    · obtain ⟨old, hold, rfl⟩ := Option.map_eq_some_iff.1 hx
      exact ⟨old, hold, .inr rfl⟩
    · exact ⟨scope, hx, .inl rfl⟩
  refine h.of_origin (.modifyScope (fun c => congrArg (·.2) (hplace c)) hitems) ?_ ?_
  · intro x scope hx
    obtain ⟨old, hold, rfl | rfl⟩ := hchanged x scope hx
    · exact .inl ⟨_, hold, rfl⟩
    · exact .inl ⟨old, hold, hplace old⟩
  · intro x scope hx
    have hsame : ∀ c, ((g c).parent, (g c).relativeId) = (c.parent, c.relativeId) := fun c =>
      Prod.ext (congrArg (·.2.1) (hplace c)) (congrArg (·.1) (hnumbers c))
    rw [childNumbers_modifyScope hsame]
    obtain ⟨old, hold, rfl | rfl⟩ := hchanged x scope hx
    · exact h.numbered x _ hold
    · exact (h.numbered x old hold).trans (congrArg List.range (congrArg (·.2) (hnumbers old)).symm)

/-- A new outermost scope. -/
theorem pushScope (h : t.ScopesNest) {owner : ScopeOwner} {module : ModuleId} {relative : Nat} :
    (t.pushScope none owner module relative).2.ScopesNest := by
  refine h.of_origin .pushScope (fun x scope hx => ?_) fun x scope hx => ?_
  · rw [scope?_pushScope] at hx
    split at hx
    · rename_i hsize
      cases hx
      refine .inr ⟨?_, nofun⟩
      rw [← hsize]
    · exact .inl ⟨scope, hx, rfl⟩
  · rw [childNumbers_pushScope, if_neg nofun, List.append_nil]
    rw [scope?_pushScope] at hx
    split at hx
    · rename_i hsize
      cases hx
      exact h.childNumbers_eq_nil (Nat.le_of_eq hsize.symm)
    · exact h.numbered x scope hx

theorem newModule (h : t.ScopesNest) {name path package : String} :
    (t.newModule name path package).2.ScopesNest :=
  let hpushed := h.pushScope.pushScope
  ⟨hpushed.id, hpushed.parent, hpushed.numbered⟩

/-- A new scope takes the next number in the scope around it. -/
theorem newScope (h : t.ScopesNest) {parent : ScopeId} {owner : ScopeOwner}
    (hparent : (t.scope? parent).isSome = true) : (t.newScope parent owner).2.ScopesNest := by
  obtain ⟨outer, houter⟩ := Option.isSome_iff_exists.1 hparent
  have hlt := lt_of_scope? houter
  have hstay : t.ScopesStay (t.newScope parent owner).2 := .newScope
  refine h.of_origin hstay (fun x scope hx => ?_) fun x scope hx => ?_
  · rw [scope?_newScope houter owner] at hx
    split at hx
    · rename_i hlast
      cases hx
      refine .inr ⟨by rw [← hlast], ?_⟩
      rintro p ⟨⟩
      obtain ⟨outer', houter', -, hmodule, -⟩ := hstay parent outer houter
      exact ⟨hlast ▸ hlt, outer', houter', hmodule⟩
    · split at hx
      · obtain ⟨old, hold, rfl⟩ := Option.map_eq_some_iff.1 hx
        exact .inl ⟨old, hold, rfl⟩
      · exact .inl ⟨scope, hx, rfl⟩
  · rw [childNumbers_newScope houter]
    rw [scope?_newScope houter owner] at hx
    split at hx
    · -- nothing is inside the new scope
      rename_i hlast
      cases hx
      have hne : parent ≠ x := by
        rintro rfl
        omega
      rw [if_neg hne, h.childNumbers_eq_nil (Nat.le_of_eq hlast.symm)]
      rfl
    · split at hx
      · rename_i heq
        subst heq
        rw [houter] at hx
        cases hx
        rw [if_pos rfl, Scope.counted, List.range_succ]
        exact congrArg (· ++ _) (h.numbered x outer houter)
      · rename_i hne
        rw [if_neg (Ne.symm hne), List.append_nil]
        exact h.numbered x scope hx

theorem setOwner (h : t.ScopesNest) {s : ScopeId} {owner : ScopeOwner} :
    (t.setOwner s owner).ScopesNest :=
  h.modifyScope (fun _ => rfl) (fun _ => List.Subset.refl _) fun _ => rfl

theorem addItem (h : t.ScopesNest) {item : Item} : (t.addItem item).2.ScopesNest :=
  let hlisted := h.modifyScope (s := item.scope)
    (g := fun s => { s with items := s.items ++ [⟨t.items.size⟩] }) (fun _ => rfl)
    (fun _ => List.subset_append_left _ _) fun _ => rfl
  ⟨hlisted.id, hlisted.parent, hlisted.numbered⟩

/-! ### Going outward -/

theorem chain_eq (h : t.ScopesNest) {s : ScopeId} {scope : Scope} (hs : t.scope? s = some scope) :
    t.chain s = s :: scope.parent.elim [] t.chain := by
  rw [chain, hs]
  simp only [Option.bind_some]
  cases hp : scope.parent with
  | none => rfl
  | some p => simp [(h.parent s scope p hs hp).1]

/-- Going outward from a scope ends in the same module. -/
theorem leadsOut (h : t.ScopesNest) {s : ScopeId} {scope : Scope} (hs : t.scope? s = some scope) :
    t.LeadsOut s scope.module := by
  induction hn : s.index using Nat.strongRecOn generalizing s scope with
  | ind n ih =>
    have hchain := h.chain_eq hs
    cases hp : scope.parent with
    | none =>
      rw [hp, Option.elim_none] at hchain
      constructor
      · rw [hchain]
        rfl
      · rw [hchain]
        exact .singleton s
      · exact ⟨s, scope, by rw [hchain]; rfl, hs, hp, rfl⟩
    | some p =>
      rw [hp, Option.elim_some] at hchain
      obtain ⟨hlt, outer, houter, hmodule⟩ := h.parent s scope p hs hp
      have hout := ih p.index (hn ▸ hlt) houter rfl
      obtain ⟨rest, hrest⟩ := List.head?_eq_some_iff.1 hout.starts
      constructor
      · rw [hchain]
        rfl
      · rw [hchain, hrest, List.isChain_cons_cons, ← hrest, hs]
        exact ⟨hp, hout.follows⟩
      · obtain ⟨last, final, hlast, hfinal⟩ := hout.ends
        refine ⟨last, final, ?_, hmodule ▸ hfinal⟩
        rw [hchain, hrest, List.getLast?_cons_cons, ← hrest]
        exact hlast

end ScopesNest

/-! ## Items are listed -/

namespace ItemsListed

/-- A change that adds no item. -/
theorem of_listings {u : SymbolTable} (h : t.ItemsListed) (hstay : t.ScopesStay u)
    (hitems : u.items = t.items) (hlistings : u.listings = t.listings) : u.ItemsListed where
  id i item hi := by
    rw [item?, hitems] at hi
    exact h.id i item hi
  once i item hi := by
    rw [item?, hitems] at hi
    obtain ⟨hcount, scope, hscope, hmem⟩ := h.once i item hi
    obtain ⟨scope', hscope', -, -, hsub⟩ := hstay _ scope hscope
    exact ⟨hlistings ▸ hcount, scope', hscope', hsub hmem⟩
  there i hi := by
    rw [hlistings] at hi
    rw [hitems]
    exact h.there i hi

theorem newModule (h : t.ItemsListed) {name path package : String} :
    (t.newModule name path package).2.ItemsListed := by
  refine h.of_listings .newModule rfl ?_
  show ((t.pushScope none _ _ 0).2.pushScope none _ _ 0).2.listings = _
  rw [listings_pushScope, listings_pushScope]

theorem newScope (h : t.ItemsListed) {parent : ScopeId} {owner : ScopeOwner}
    (hparent : (t.scope? parent).isSome = true) : (t.newScope parent owner).2.ItemsListed := by
  obtain ⟨outer, houter⟩ := Option.isSome_iff_exists.1 hparent
  refine h.of_listings .newScope ?_ (listings_newScope houter owner)
  rw [newScope_eq houter]
  rfl

theorem setOwner (h : t.ItemsListed) {s : ScopeId} {owner : ScopeOwner} :
    (t.setOwner s owner).ItemsListed :=
  h.of_listings .setOwner rfl (listings_modifyScope fun _ => rfl)

/-- A new item is listed in its scope, and it was listed nowhere before. -/
theorem addItem (h : t.ItemsListed) {item : Item} (hscope : (t.scope? item.scope).isSome = true) :
    (t.addItem item).2.ItemsListed := by
  have hperm := listings_addItem hscope
  have hstay : t.ScopesStay (t.addItem item).2 := .addItem
  have hfresh : (⟨t.items.size⟩ : ItemId) ∉ t.listings := fun hmem =>
    Nat.lt_irrefl _ (h.there _ hmem)
  constructor
  · intro i found hi
    rw [item?_addItem] at hi
    split at hi
    · rename_i hsize
      cases hi
      rw [← hsize]
    · exact h.id i found hi
  · intro i found hi
    rw [item?_addItem] at hi
    rw [hperm.count_eq]
    split at hi
    · rename_i hsize
      cases hi
      obtain rfl : i = ⟨t.items.size⟩ := by rw [← hsize]
      obtain ⟨scope, hthere⟩ := Option.isSome_iff_exists.1 hscope
      refine ⟨?_, scope?_addItem hthere⟩
      rw [List.count_cons_self, List.count_eq_zero_of_not_mem hfresh]
    · rename_i hsize
      have hne : (⟨t.items.size⟩ : ItemId) ≠ i := fun heq => hsize (heq ▸ rfl)
      obtain ⟨hcount, scope, hthere, hmem⟩ := h.once i found hi
      obtain ⟨scope', hthere', -, -, hsub⟩ := hstay _ scope hthere
      rw [List.count_cons_of_ne hne]
      exact ⟨hcount, scope', hthere', hsub hmem⟩
  · intro i hi
    rw [size_addItem]
    rcases List.mem_cons.1 (hperm.mem_iff.1 hi) with rfl | hold
    · exact Nat.lt_succ_self _
    · exact Nat.lt_succ_of_lt (h.there i hold)

end ItemsListed

/-! ## Modules have scopes of their own -/

namespace ModulesHoused

/-- A change that adds no module. -/
theorem of_modules {u : SymbolTable} (h : t.ModulesHoused) (hstay : t.ScopesStay u)
    (hmodules : u.modules = t.modules) : u.ModulesHoused := by
  have hmodule : u.module? = t.module? := by
    funext m
    rw [module?, module?, hmodules]
  constructor
  · rw [hmodule]
    exact h.id
  · rw [hmodule]
    exact h.apart
  · rw [hmodule]
    intro m md hm s hs
    obtain ⟨scope, hscope, hparent, hown⟩ := h.own m md hm s hs
    obtain ⟨scope', hscope', hparent', hown', -⟩ := hstay s scope hscope
    exact ⟨scope', hscope', hparent'.trans hparent, hown'.trans hown⟩

theorem newScope (h : t.ModulesHoused) {parent : ScopeId} {owner : ScopeOwner} :
    (t.newScope parent owner).2.ModulesHoused := by
  refine h.of_modules .newScope ?_
  unfold SymbolTable.newScope
  split <;> rfl

theorem setOwner (h : t.ModulesHoused) {s : ScopeId} {owner : ScopeOwner} :
    (t.setOwner s owner).ModulesHoused := h.of_modules .setOwner rfl

theorem addItem (h : t.ModulesHoused) {item : Item} : (t.addItem item).2.ModulesHoused :=
  h.of_modules .addItem rfl

/-- A new module gets the next two scopes. -/
theorem newModule (h : t.ModulesHoused) {name path package : String} :
    (t.newModule name path package).2.ModulesHoused := by
  have horigin : ∀ m md, (t.newModule name path package).2.module? m = some md →
      m = ⟨t.modules.size⟩ ∧ md.id = m ∧ md.scope = ⟨t.scopes.size⟩ ∧
          md.exports = ⟨t.scopes.size + 1⟩ ∨
        t.module? m = some md := by
    intro m md hm
    rw [module?_newModule] at hm
    split at hm
    · rename_i hsize
      cases hm
      obtain rfl : m = ⟨t.modules.size⟩ := congrArg ModuleId.mk hsize
      exact .inl ⟨rfl, rfl, rfl, rfl⟩
    · exact .inr hm
  constructor
  · intro m md hm
    rcases horigin m md hm with ⟨-, hid, -⟩ | hold
    · exact hid
    · exact h.id m md hold
  · intro m md hm
    rcases horigin m md hm with ⟨-, -, hscope, hexports⟩ | hold
    · rw [hscope, hexports]
      simp
    · exact h.apart m md hold
  · intro m md hm s hs
    rcases horigin m md hm with ⟨rfl, -, hscope, hexports⟩ | hold
    · rw [hscope, hexports] at hs
      have hnew : s.index = t.scopes.size ∨ s.index = t.scopes.size + 1 :=
        (List.mem_cons.1 hs).imp (congrArg ScopeId.index) fun hs =>
          congrArg ScopeId.index (List.mem_singleton.1 hs)
      exact ⟨_, (scope?_newModule ..).trans (if_pos hnew), rfl, rfl⟩
    · obtain ⟨scope, hscope, hparent, hown⟩ := h.own m md hold s hs
      obtain ⟨scope', hscope', hparent', hown', -⟩ := ScopesStay.newModule s scope hscope
      exact ⟨scope', hscope', hparent'.trans hparent, hown'.trans hown⟩

/-- A scope is a scope of one module at most. -/
theorem eq_of_mem (h : t.ModulesHoused) {m m' : ModuleId} {md md' : Module}
    (hm : t.module? m = some md) (hm' : t.module? m' = some md') {s : ScopeId}
    (hs : s ∈ [md.scope, md.exports]) (hs' : s ∈ [md'.scope, md'.exports]) : m = m' := by
  obtain ⟨scope, hscope, -, hown⟩ := h.own m md hm s hs
  obtain ⟨scope', hscope', -, hown'⟩ := h.own m' md' hm' s hs'
  rw [hscope] at hscope'
  cases hscope'
  exact hown.symm.trans hown'

end ModulesHoused

/-! ## Every table that is built -/

theorem wellFormed_empty : WellFormed {} := by
  have hitem : ∀ i, ({} : SymbolTable).item? i = none := fun _ => rfl
  have hscope : ∀ s, ({} : SymbolTable).scope? s = none := fun _ => rfl
  have hmodule : ∀ m, ({} : SymbolTable).module? m = none := fun _ => rfl
  constructor
  · constructor <;> simp [hscope]
  · constructor <;> simp [hitem, listings]
  · constructor <;> simp [hmodule]

theorem WellFormed.run? (h : t.WellFormed) {step : Construction} {u : SymbolTable}
    (hrun : step.run? t = some u) : u.WellFormed := by
  cases step with
  | newModule name path package =>
    cases hrun
    exact ⟨h.scopes.newModule, h.items.newModule, h.modules.newModule⟩
  | newScope parent owner =>
    obtain ⟨hparent, rfl⟩ : (t.scope? parent).isSome = true ∧ (t.newScope parent owner).2 = u := by
      simpa [Construction.run?] using hrun
    exact ⟨h.scopes.newScope hparent, h.items.newScope hparent, h.modules.newScope⟩
  | addItem item =>
    obtain ⟨hscope, rfl⟩ : (t.scope? item.scope).isSome = true ∧ (t.addItem item).2 = u := by
      simpa [Construction.run?] using hrun
    exact ⟨h.scopes.addItem, h.items.addItem hscope, h.modules.addItem⟩
  | setOwner s owner =>
    obtain ⟨-, rfl⟩ : (t.scope? s).isSome = true ∧ t.setOwner s owner = u := by
      simpa [Construction.run?] using hrun
    exact ⟨h.scopes.setOwner, h.items.setOwner, h.modules.setOwner⟩

/-- Whatever is built on a well formed table is well formed. -/
theorem WellFormed.runAll (h : t.WellFormed) {steps : List Construction} {u : SymbolTable}
    (hrun : steps.foldlM Construction.run? t = some u) : u.WellFormed := by
  induction steps generalizing t with
  | nil =>
    cases hrun
    exact h
  | cons step rest ih =>
    obtain ⟨t', hstep, hrest⟩ := Option.bind_eq_some_iff.1 hrun
    exact ih (h.run? hstep) hrest

/-- **What is built is well formed.** In a table that is made by adding modules, scopes and items and by
setting owners, scopes nest, items are listed once and in their scope, and modules have two scopes that no
other module has; going outward from a scope ends, in the same module. -/
theorem build_wellFormed {steps : List Construction} {t : SymbolTable} (h : build steps = some t) :
    t.WellFormed ∧ (∀ s scope, t.scope? s = some scope → t.LeadsOut s scope.module) ∧
      ∀ m m' md md', t.module? m = some md → t.module? m' = some md' → m ≠ m' →
        [md.scope, md.exports].Disjoint [md'.scope, md'.exports] := by
  have hwell : t.WellFormed := wellFormed_empty.runAll h
  refine ⟨hwell, fun s scope hs => hwell.scopes.leadsOut hs, fun m m' md md' hm hm' hne s hs hs' => ?_⟩
  exact hne (hwell.modules.eq_of_mem hm hm' hs hs')

/-- A module with a class that has a member, and a second scope in the module. -/
def classSteps : List Construction :=
  [.newModule "m" "m.tsr" "", .newScope ⟨0⟩ .block,
    .addItem { name := "C", scope := ⟨0⟩, module := ⟨0⟩, entity := .cls { scope := ⟨2⟩ } },
    .setOwner ⟨2⟩ (.cls ⟨0⟩),
    .addItem { name := "x", scope := ⟨2⟩, module := ⟨0⟩, entity := .var (.member .int) },
    .newScope ⟨0⟩ .block]

theorem build_wellFormed_class :
    ∃ t, build classSteps = some t ∧ t.listings = [⟨0⟩, ⟨1⟩] ∧ t.WellFormed := by
  have hbuild : ∃ t, build classSteps = some t ∧ t.listings = [⟨0⟩, ⟨1⟩] := ⟨_, rfl, rfl⟩
  obtain ⟨t, ht, hlistings⟩ := hbuild
  exact ⟨t, ht, hlistings, (build_wellFormed ht).1⟩

end SymbolTable

end SemanticAnalysis
