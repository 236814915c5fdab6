import SemanticAnalysis.Proofs.SymbolTable.Meaning
import SemanticAnalysis.Proofs.SymbolTable.Visibility

/-!
# A declaration matters to its scope alone

A lookup goes through the scopes around the place where it starts and, where one of them belongs to a class,
through the scopes of that class and its ancestors (`SymbolTable.Searches`). A new item is listed in one scope.
If all numbers that a table stores are those of items (`SymbolTable.Closed`), none of them is the number of the
new item, so that for all older items nothing changes: where aliases lead, who sees them, which ancestors they
have. A lookup that does not come to the scope of the new item, or is for another name, therefore answers as
before (`findAll_addItem`).
-/

namespace SemanticAnalysis.SymbolTable

open Relation

variable {t u : SymbolTable} {q : Query} {item : Item} {i j c : ItemId} {s : ScopeId}

/-- The targets of aliases, the parents of classes and the classes that own scopes are items of the table. -/
structure Closed (t : SymbolTable) : Prop where
  targets : ∀ i j, t.IsAliasOf i j → j.index < t.items.size
  parents : ∀ i p, t.IsParent i p → p.index < t.items.size
  owners : ∀ s c, t.classOwner? s = some c → c.index < t.items.size

theorem closed_iff : t.Closed ↔
    (∀ item ∈ t.items.toList, (∀ j ∈ item.alias?, j.index < t.items.size) ∧
      ∀ p ∈ item.parents, p.index < t.items.size) ∧
    ∀ scope ∈ t.scopes.toList, ∀ c ∈ scope.classOwner?, c.index < t.items.size := by
  have hitem : ∀ i item, t.item? i = some item → item ∈ t.items.toList := fun i item hi =>
    Array.mem_toList_iff.2 (Array.mem_of_getElem? hi)
  constructor
  · intro h
    refine ⟨fun item hmem => ?_, fun scope hmem => ?_⟩
    · obtain ⟨n, hn⟩ := Array.mem_iff_getElem?.1 (Array.mem_toList_iff.1 hmem)
      have hthere : t.item? ⟨n⟩ = some item := hn
      refine ⟨fun j hj => h.targets ⟨n⟩ j ?_, fun p hp => h.parents ⟨n⟩ p ?_⟩
      · rw [IsAliasOf, aliasTarget?_eq, hthere]
        exact hj
      · rw [IsParent, parentsOf_eq, hthere]
        exact hp
    · obtain ⟨s, hs, -⟩ := exists_scope?_of_mem hmem
      intro c hc
      refine h.owners s c ?_
      rw [classOwner?, hs]
      exact hc
  · rintro ⟨hitems, hscopes⟩
    refine ⟨fun i j hj => ?_, fun i p hp => ?_, fun s c hc => ?_⟩
    · rw [IsAliasOf, aliasTarget?_eq] at hj
      obtain ⟨item, hi, hj⟩ := Option.bind_eq_some_iff.1 hj
      exact (hitems item (hitem i item hi)).1 j hj
    · rw [IsParent, parentsOf_eq] at hp
      cases hi : t.item? i with
      | none =>
        rw [hi] at hp
        cases hp
      | some item =>
        rw [hi] at hp
        exact (hitems item (hitem i item hi)).2 p hp
    · obtain ⟨scope, hs, hc⟩ := Option.bind_eq_some_iff.1 hc
      exact hscopes scope (Array.mem_toList_iff.2 (Array.mem_of_getElem? hs)) c hc

instance : Decidable t.Closed := decidable_of_iff' _ closed_iff

/-- A lookup that starts in `s` may look at what is declared in `x`. -/
inductive Searches (t : SymbolTable) (s x : ScopeId) : Prop
  | around (h : t.isWithin s x = true)
  | inherited {a : ScopeId} {c d : ItemId} {cls : Class} (ha : t.isWithin s a = true)
      (howner : t.classOwner? a = some c) (hclimbs : t.Climbs c d) (hd : t.class? d = some cls)
      (hscope : cls.scope = x)

/-! ## Searches in agreeing tables -/

/-- A search for ancestors meets only what the class reaches. -/
theorem Search.climbs_of_mem_queue {k : ItemId} {n e : Nat} (h : (k, e) ∈ (after t i n).queue) :
    t.Climbs i k := by
  induction n generalizing k e with
  | zero =>
    obtain ⟨rfl, -⟩ := Prod.mk.inj (List.mem_singleton.1 h)
    exact .refl
  | succ n ih =>
    rw [after_succ, next] at h
    split at h
    · rename_i hqueue
      rw [hqueue] at h
      cases h
    · rename_i k' depth rest hqueue
      rw [hqueue] at ih
      rcases List.mem_append.1 h with hrest | hfound
      · exact ih (List.mem_cons_of_mem _ hrest)
      · obtain ⟨k, hk, heq⟩ := List.mem_map.1 hfound
        obtain ⟨rfl, -⟩ := Prod.mk.inj heq
        exact (ih List.mem_cons_self).tail (mem_firstSeen.1 hk).1

/-- Where all that a class reaches has the same parents, the search goes the same way. -/
theorem Search.after_congr (hagree : ∀ k, t.Climbs i k → u.parentsOf k = t.parentsOf k) (n : Nat) :
    after u i n = after t i n := by
  induction n with
  | zero => rfl
  | succ n ih =>
    rw [after_succ, after_succ, ih, next, next]
    split
    · rfl
    · rename_i k depth rest hqueue
      have hk : t.Climbs i k := climbs_of_mem_queue (hqueue ▸ List.mem_cons_self)
      rw [hagree k hk]

theorem Search.after_add_of_queue {n : Nat} (h : (after t i n).queue = []) (m : Nat) :
    after t i (n + m) = after t i n := by
  induction m with
  | zero => rfl
  | succ m ih => rw [← Nat.add_assoc, after_succ, ih, next, h]

/-- The ancestors are decided by the parents of what a class reaches. -/
theorem withAncestors_congr (hagree : ∀ k, t.Climbs i k → u.parentsOf k = t.parentsOf k) :
    u.withAncestors i = t.withAncestors i := by
  obtain ⟨n, hn⟩ := Search.exists_after_eq t i
  obtain ⟨m, hm⟩ := Search.exists_after_eq u i
  rw [Search.after_congr hagree] at hm
  have hboth : Search.after t i n = Search.after t i m := by
    rw [← Search.after_add_of_queue (by rw [hn]) m, Nat.add_comm,
      Search.after_add_of_queue (by rw [hm]) n]
  rw [hn, hm] at hboth
  exact (Search.mk.inj hboth).2.symm

/-! ## What stays -/

theorem scope?_addItem_eq (t : SymbolTable) (item : Item) (s : ScopeId) :
    (t.addItem item).2.scope? s =
      if s = item.scope then
        (t.scope? s).map fun scope => { scope with items := scope.items ++ [⟨t.items.size⟩] }
      else t.scope? s := scope?_modifyScope ..

/-- What does not look at the list of items of a scope is as before. -/
theorem bind_scope?_addItem {α : Type} (item : Item) {g : Scope → Option α}
    (hg : ∀ scope items, g { scope with items } = g scope) (s : ScopeId) :
    ((t.addItem item).2.scope? s).bind g = (t.scope? s).bind g := by
  rw [scope?_addItem_eq]
  split
  · rw [Option.bind_map]
    exact congrArg (Option.bind _) (funext fun scope => hg scope _)
  · rfl

theorem classOwner?_addItem (s : ScopeId) :
    (t.addItem item).2.classOwner? s = t.classOwner? s := bind_scope?_addItem item (fun _ _ => rfl) s

/-- Which scopes are around one is decided by the parents in the table. -/
theorem chain_congr (h : ∀ s, (u.scope? s).bind (·.parent) = (t.scope? s).bind (·.parent)) (s : ScopeId) :
    u.chain s = t.chain s := by
  induction hn : s.index using Nat.strongRecOn generalizing s with
  | ind n ih =>
    rw [chain, chain, h]
    split
    · rfl
    · rename_i p _
      split
      · rename_i hlt
        rw [ih p.index (hn ▸ hlt) p rfl]
      · rfl

theorem chain_addItem (s : ScopeId) : (t.addItem item).2.chain s = t.chain s :=
  chain_congr (bind_scope?_addItem item fun _ _ => rfl) s

theorem isWithin_addItem (s outer : ScopeId) :
    (t.addItem item).2.isWithin s outer = t.isWithin s outer := by
  unfold isWithin
  rw [chain_addItem]

/-! ### Items that were there -/

theorem item?_addItem_old (hi : i.index < t.items.size) :
    (t.addItem item).2.item? i = t.item? i := item?_addItem_of_ne (Nat.ne_of_lt hi)

theorem class?_addItem_old (hi : i.index < t.items.size) :
    (t.addItem item).2.class? i = t.class? i := by
  rw [class?, item?_addItem_old hi, class?]

theorem parentsOf_addItem_old (hi : i.index < t.items.size) :
    (t.addItem item).2.parentsOf i = t.parentsOf i := by
  rw [parentsOf, class?_addItem_old hi, parentsOf]

theorem isAliasOf_addItem_iff (hi : i.index < t.items.size) :
    (t.addItem item).2.IsAliasOf i j ↔ t.IsAliasOf i j := by
  unfold IsAliasOf
  rw [aliasTarget?_eq, aliasTarget?_eq, item?_addItem_old hi]

namespace Closed

variable (h : t.Closed)
include h

/-- From an item, parents lead to items. -/
theorem climbs_lt (hc : c.index < t.items.size) {d : ItemId} (hclimbs : t.Climbs c d) :
    d.index < t.items.size := by
  rcases ReflTransGen.cases_tail hclimbs with rfl | ⟨k, -, hparent⟩
  · exact hc
  · exact h.parents k d hparent

theorem climbs_iff (hc : c.index < t.items.size) {d : ItemId} :
    (t.addItem item).2.Climbs c d ↔ t.Climbs c d := by
  have hagree : ∀ k, t.Climbs c k → (t.addItem item).2.parentsOf k = t.parentsOf k := fun k hk =>
    parentsOf_addItem_old (h.climbs_lt hc hk)
  refine ⟨fun hclimbs => climbs_of_agree hclimbs hagree, fun hclimbs => ?_⟩
  induction hclimbs with
  | refl => exact .refl
  | tail hk hparent ih =>
    refine ih.tail ?_
    rwa [IsParent, hagree _ hk]

theorem withAncestors_eq (hc : c.index < t.items.size) :
    (t.addItem item).2.withAncestors c = t.withAncestors c :=
  withAncestors_congr fun _ hk => parentsOf_addItem_old (h.climbs_lt hc hk)

/-- From an item, aliases lead to items. -/
theorem follows_lt (hi : i.index < t.items.size) (hfollows : ReflTransGen t.IsAliasOf i j) :
    j.index < t.items.size :=
  lt_of_follows h.targets hi hfollows

theorem follows_iff (hi : i.index < t.items.size) :
    ReflTransGen (t.addItem item).2.IsAliasOf i j ↔ ReflTransGen t.IsAliasOf i j := by
  constructor
  · intro hfollows
    induction hfollows with
    | refl => exact .refl
    | tail _ htarget ih => exact ih.tail ((isAliasOf_addItem_iff (h.follows_lt hi ih)).1 htarget)
  · intro hfollows
    induction hfollows with
    | refl => exact .refl
    | tail hk htarget ih => exact ih.tail ((isAliasOf_addItem_iff (h.follows_lt hi hk)).2 htarget)

theorem leadsTo_iff (hi : i.index < t.items.size) :
    (t.addItem item).2.LeadsTo i j ↔ t.LeadsTo i j := by
  have hends : ReflTransGen t.IsAliasOf i j →
      (t.addItem item).2.aliasTarget? j = t.aliasTarget? j := fun hfollows => by
    rw [aliasTarget?_eq, aliasTarget?_eq, item?_addItem_old (h.follows_lt hi hfollows)]
  constructor
  · rintro ⟨hfollows, hend⟩
    have hfollows := (h.follows_iff hi).1 hfollows
    exact ⟨hfollows, hends hfollows ▸ hend⟩
  · rintro ⟨hfollows, hend⟩
    exact ⟨(h.follows_iff hi).2 hfollows, (hends hfollows).trans hend⟩

/-! ### Visibility -/

theorem inherits_iff {declaredIn : ScopeId} :
    (t.addItem item).2.Inherits s declaredIn ↔ t.Inherits s declaredIn := by
  unfold Inherits
  simp only [classOwner?_addItem]
  refine exists_congr fun c => and_congr_right fun hc => exists_congr fun d => and_congr_right fun _ => ?_
  exact h.climbs_iff (h.owners s c hc)

theorem admits_iff {old : Item} : (t.addItem item).2.Admits old s ↔ t.Admits old s := by
  have hmodule : ∀ P : ModuleId → Prop,
      (∃ scope, (t.addItem item).2.scope? s = some scope ∧ P scope.module) ↔
        ∃ scope, t.scope? s = some scope ∧ P scope.module := by
    intro P
    have hbind := t.bind_scope?_addItem item (g := some ∘ Scope.module) (fun _ _ => rfl) s
    cases hold : t.scope? s <;> cases hnew : (t.addItem item).2.scope? s <;> simp_all
  unfold Admits
  cases old.visibility with
  | everyone => rfl
  | scopeOnly => rfl
  | derived => exact or_congr_right h.inherits_iff
  | sameModule => exact hmodule (· = old.module)
  | samePackage => exact hmodule (t.SharePackage · old.module)

/-- The new item is in nobody's way of seeing the others. -/
theorem canSee_eq (hnest : t.ScopesNest) (hi : i.index < t.items.size) :
    (t.addItem item).2.canSee i s = t.canSee i s := by
  have hthere : ((t.addItem item).2.scope? s).isSome = (t.scope? s).isSome := by
    rw [scope?_addItem_eq]
    split <;> simp
  rw [Bool.eq_iff_iff, hnest.addItem.canSee_iff, hnest.canSee_iff, item?_addItem_old hi, hthere]
  simp only [isWithin_addItem, h.admits_iff]

/-! ### Offers -/

theorem offers_lt (hi : i.index < t.items.size) (hoffers : t.Offers q i j) :
    j.index < t.items.size := h.follows_lt hi hoffers.leads.follows

theorem offers_iff (hnest : t.ScopesNest) (hi : i.index < t.items.size) :
    (t.addItem item).2.Offers q i j ↔ t.Offers q i j := by
  have hkind : t.LeadsTo i j → (t.addItem item).2.kind? j = t.kind? j := fun hleads => by
    rw [kind?, item?_addItem_old (h.follows_lt hi hleads.follows), kind?]
  constructor
  · rintro ⟨hnamed, hseen, hleads, hwanted⟩
    have hleads := (h.leadsTo_iff hi).1 hleads
    refine ⟨item?_addItem_old hi ▸ hnamed, fun o ho => ?_, hleads, hkind hleads ▸ hwanted⟩
    rw [← h.canSee_eq hnest hi]
    exact hseen o ho
  · rintro ⟨hnamed, hseen, hleads, hwanted⟩
    refine ⟨(item?_addItem_old hi).symm ▸ hnamed, fun o ho => ?_, (h.leadsTo_iff hi).2 hleads,
      (hkind hleads).symm ▸ hwanted⟩
    rw [h.canSee_eq hnest hi]
    exact hseen o ho

theorem offered?_eq (hnest : t.ScopesNest) (hi : i.index < t.items.size) :
    (t.addItem item).2.offered? q.name q.exclude q.origin i = t.offered? q.name q.exclude q.origin i := by
  refine Option.ext fun j => ?_
  rw [← offers_iff_offered?, ← offers_iff_offered?]
  exact h.offers_iff hnest hi

end Closed

/-! ## Declarations -/

theorem ItemsListed.declared_lt (h : t.ItemsListed) (hi : i ∈ t.declaredIn s) :
    i.index < t.items.size := by
  unfold declaredIn at hi
  cases hs : t.scope? s with
  | none =>
    rw [hs] at hi
    cases hi
  | some scope =>
    rw [hs] at hi
    refine h.there i (List.mem_flatMap.2 ⟨scope, ?_, hi⟩)
    exact Array.mem_toList_iff.2 (Array.mem_of_getElem? hs)

theorem declaredIn_addItem (t : SymbolTable) (item : Item) (s : ScopeId) :
    (t.addItem item).2.declaredIn s = t.declaredIn s ∨
      s = item.scope ∧ (t.addItem item).2.declaredIn s = t.declaredIn s ++ [⟨t.items.size⟩] := by
  unfold declaredIn
  rw [scope?_addItem_eq]
  split
  · rename_i heq
    cases t.scope? s with
    | none => exact .inl rfl
    | some scope => exact .inr ⟨heq, rfl⟩
  · exact .inl rfl

/-- What a scope offers is as before, in other scopes and for other names. -/
theorem gathered_addItem (hnest : t.ScopesNest) (hlisted : t.ItemsListed) (h : t.Closed)
    (hfar : q.name ≠ item.name ∨ s ≠ item.scope) :
    (t.addItem item).2.gathered q ((t.addItem item).2.declaredIn s) =
      t.gathered q (t.declaredIn s) := by
  have hold : ∀ i ∈ t.declaredIn s, (t.addItem item).2.offered? q.name q.exclude q.origin i =
      t.offered? q.name q.exclude q.origin i := fun i hi =>
    h.offered?_eq hnest (hlisted.declared_lt hi)
  rcases t.declaredIn_addItem item s with hsame | ⟨hs, hmore⟩
  · rw [hsame, gathered, List.filterMap_congr hold, gathered]
  · have hname : (t.addItem item).2.hasName q.name ⟨t.items.size⟩ = false := by
      rw [hasName_addItem_self, beq_eq_false_iff_ne]
      exact Ne.symm (hfar.resolve_right fun hne => hne hs)
    rw [hmore, gathered, List.filterMap_append, List.filterMap_congr hold, List.filterMap_cons,
      offered?_eq_none hname, List.filterMap_nil, List.append_nil, gathered]

/-- A walk through classes is decided by what each of them offers. -/
theorem gatherMembers_congr {found classes : List ItemId}
    (hclasses : ∀ c ∈ classes, u.gathered q (u.declaredBy c) = t.gathered q (t.declaredBy c) ∧
      ∀ j ∈ t.gathered q (t.declaredBy c), u.isFunction j = t.isFunction j)
    (hfound : ∀ j ∈ found, u.isFunction j = t.isFunction j) :
    u.gatherMembers q.name q.exclude q.origin found classes =
      t.gatherMembers q.name q.exclude q.origin found classes := by
  have hall : ∀ l : List ItemId, (∀ j ∈ l, u.isFunction j = t.isFunction j) →
      l.all u.isFunction = l.all t.isFunction := by
    intro l hl
    rw [Bool.eq_iff_iff, List.all_eq_true, List.all_eq_true]
    exact forall₂_congr fun j hj => by rw [hl j hj]
  induction classes generalizing found with
  | nil => rw [gatherMembers, gatherMembers]
  | cons c rest ih =>
    obtain ⟨hgathered, hown⟩ := hclasses c List.mem_cons_self
    have hrest := fun d hd => hclasses d (List.mem_cons_of_mem c hd)
    have hjoined : ∀ j ∈ (t.gathered q (t.declaredBy c)).foldl insertNew found,
        u.isFunction j = t.isFunction j := fun j hj =>
      (mem_foldl_insertNew.1 hj).elim (hfound j) (hown j)
    rw [gatherMembers_cons, gatherMembers_cons, hgathered]
    split
    · exact ih hrest hfound
    · rw [hall _ hown, hall _ hfound, ih hrest hfound, ih hrest hjoined]

/-- What a class and its ancestors offer is as before, unless one of them has the scope of the new item. -/
theorem findInClass_addItem (hnest : t.ScopesNest) (hlisted : t.ItemsListed) (h : t.Closed)
    (hc : c.index < t.items.size)
    (hfar : ∀ d cls, t.Climbs c d → t.class? d = some cls →
      q.name ≠ item.name ∨ cls.scope ≠ item.scope) :
    (t.addItem item).2.findInClass c q.name q.exclude q.origin =
      t.findInClass c q.name q.exclude q.origin := by
  unfold findInClass
  rw [h.withAncestors_eq hc]
  refine gatherMembers_congr (fun d hd => ?_) nofun
  have hclimbs : t.Climbs c d := ((t.nearestFirst_withAncestors c).mem d).1 hd
  have hold : d.index < t.items.size := h.climbs_lt hc hclimbs
  unfold declaredBy
  rw [class?_addItem_old hold]
  cases hd : t.class? d with
  | none => exact ⟨rfl, nofun⟩
  | some cls =>
    refine ⟨gathered_addItem hnest hlisted h (hfar d cls hclimbs hd), fun j hj => ?_⟩
    obtain ⟨i, hi, hoffers⟩ := mem_gathered.1 hj
    have hj : j.index < t.items.size := h.offers_lt (hlisted.declared_lt hi) hoffers
    rw [isFunction, kind?, item?_addItem_old hj, isFunction, kind?]

theorem firstNonempty_congr {α β : Type} {f g : α → List β} {l : List α} (h : ∀ a ∈ l, f a = g a) :
    firstNonempty f l = firstNonempty g l := by
  induction l with
  | nil => rfl
  | cons a rest ih =>
    rw [firstNonempty, firstNonempty, h a List.mem_cons_self,
      ih fun b hb => h b (List.mem_cons_of_mem a hb)]

/-- **A declaration is invisible outside its scope.** Adding an item changes no lookup for another name, and no
lookup that does not come to the scope of the item. -/
theorem findAll_addItem (hwell : t.WellFormed) (h : t.Closed) (item : Item) (q : Query) (s : ScopeId)
    (hfar : q.name ≠ item.name ∨ ¬ t.Searches s item.scope) :
    (t.addItem item).2.findAll q.name s q.exclude q.origin = t.findAll q.name s q.exclude q.origin := by
  unfold findAll
  rw [chain_addItem]
  refine firstNonempty_congr fun a ha => ?_
  have hin : t.isWithin s a = true := isWithin_iff.2 ha
  unfold findAt
  rw [classOwner?_addItem]
  cases hc : t.classOwner? a with
  | none =>
    dsimp only
    rw [findLocal_eq, findLocal_eq]
    refine gathered_addItem hwell.scopes hwell.items h (hfar.imp_right fun hnot heq => hnot ?_)
    exact .around (heq ▸ hin)
  | some c =>
    refine findInClass_addItem hwell.scopes hwell.items h (h.owners a c hc) fun d cls hclimbs hd => ?_
    exact hfar.imp_right fun hnot heq => hnot (.inherited hin hc hclimbs hd heq)

/-- A member with the name of its class. -/
def namesake : Item :=
  { name := "B", scope := ⟨3⟩, module := ⟨0⟩, entity := .var (.member .int) }

/-- Outside the class its name means the class, as before; inside it means the member. -/
theorem findAll_addItem_namesake : ∃ t, build derivedSteps = some t ∧ t.WellFormed ∧ t.Closed ∧
    ¬ t.Searches ⟨0⟩ namesake.scope ∧
      (t.addItem namesake).2.findAll "B" ⟨0⟩ [] none = [⟨1⟩] ∧
      (t.addItem namesake).2.findAll "B" ⟨4⟩ [] none = [⟨3⟩] := by
  obtain ⟨t, ht⟩ : ∃ t, build derivedSteps = some t := ⟨_, rfl⟩
  have hfacts : (build derivedSteps).map (fun t => (decide t.Closed, t.chain ⟨0⟩, t.classOwner? ⟨0⟩,
      t.findAll "B" ⟨0⟩ [] none, (t.addItem namesake).2.findAll "B" ⟨4⟩ [] none)) =
      some (true, [⟨0⟩], none, [⟨1⟩], [⟨3⟩]) := by decide +kernel
  rw [ht] at hfacts
  simp only [Option.map_some, Option.some.injEq, Prod.mk.injEq, decide_eq_true_eq] at hfacts
  obtain ⟨hclosed, hchain, howner, hbefore, hinside⟩ := hfacts
  have hwell : t.WellFormed := wellFormed_empty.runAll ht
  have hfar : ¬ t.Searches ⟨0⟩ namesake.scope := by
    rintro (hin | ⟨hin, hc, -, -, -⟩)
    · rw [isWithin_iff, hchain] at hin
      simp [namesake] at hin
    · rw [isWithin_iff, hchain, List.mem_singleton] at hin
      rw [hin, howner] at hc
      cases hc
  refine ⟨t, ht, hwell, hclosed, hfar, ?_, hinside⟩
  exact (findAll_addItem hwell hclosed namesake { name := "B" } ⟨0⟩ (.inr hfar)).trans hbefore

end SemanticAnalysis.SymbolTable
