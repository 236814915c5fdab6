import SemanticAnalysis.Proofs.SymbolTable.Bindings
import SemanticAnalysis.Proofs.SymbolTable.Queue
import SemanticAnalysis.Proofs.SymbolTable.WellFormed

/-!
# Who sees an item

A scope may let an item in by itself: it is the scope that declares the item, it belongs to a class that
descends from the declaring one, or it lies in the right module or package (`SymbolTable.Admits`). An item is
seen in a scope exactly if that scope or one around it lets the item in (`canSee_iff`), where scopes nest. So
whatever is seen in a scope is seen in all scopes inside (`visible_inward`).
-/

namespace SemanticAnalysis.SymbolTable

variable {t : SymbolTable} {i : ItemId} {s outer inner : ScopeId} {item : Item}

/-! ## Nesting -/

theorem isWithin_iff : t.isWithin inner outer = true ↔ outer ∈ t.chain inner := List.contains_iff_mem

theorem chain_cases (t : SymbolTable) (s : ScopeId) :
    t.chain s = [s] ∨ ∃ p, p.index < s.index ∧ t.chain s = s :: t.chain p := by
  rw [chain]
  split
  · exact .inl rfl
  · rename_i p _
    split
    · rename_i hlt
      exact .inr ⟨p, hlt, rfl⟩
    · exact .inl rfl

/-- Going outward from a scope inside another one leads through that one. -/
theorem chain_suffix_of_isWithin (h : t.isWithin inner outer = true) :
    t.chain outer <:+ t.chain inner := by
  rw [isWithin_iff] at h
  induction hn : inner.index using Nat.strongRecOn generalizing inner with
  | ind n ih =>
    by_cases heq : outer = inner
    · exact heq ▸ List.suffix_rfl
    · rcases t.chain_cases inner with hchain | ⟨p, hlt, hchain⟩
      · rw [hchain] at h
        exact absurd (List.mem_singleton.1 h) heq
      · rw [hchain] at h ⊢
        have hmem : outer ∈ t.chain p := (List.mem_cons.1 h).resolve_left heq
        exact (ih p.index (hn ▸ hlt) hmem rfl).trans (List.suffix_cons _ _)

theorem isWithin_trans {innermost : ScopeId} (h : t.isWithin innermost inner = true)
    (h' : t.isWithin inner outer = true) : t.isWithin innermost outer = true :=
  isWithin_iff.2 ((chain_suffix_of_isWithin h).subset (isWithin_iff.1 h'))

/-- Scopes inside a scope are in its module. -/
theorem ScopesNest.module_eq (h : t.ScopesNest) {a b : Scope} (ha : t.scope? inner = some a)
    (hb : t.scope? outer = some b) (hin : t.isWithin inner outer = true) : a.module = b.module := by
  obtain ⟨before, hchain⟩ := chain_suffix_of_isWithin hin
  obtain ⟨last, final, hlast, hfinal, -, hmodule⟩ := (h.leadsOut ha).ends
  obtain ⟨last', final', hlast', hfinal', -, hmodule'⟩ := (h.leadsOut hb).ends
  have hsame : (t.chain inner).getLast? = some last' := by
    rw [← hchain, List.getLast?_append, hlast', Option.some_or]
  rw [hlast] at hsame
  cases hsame
  rw [hfinal] at hfinal'
  cases hfinal'
  exact hmodule.symm.trans hmodule'

/-! ## Letting in -/

/-- A class is another one or descends from it. -/
theorem beq_or_hasParent_iff {c d : ItemId} :
    (c == d || t.hasParent c d) = true ↔ t.Climbs c d := by
  rw [Bool.or_eq_true, beq_iff_eq]
  constructor
  · rintro (rfl | hparent)
    · exact .refl
    · unfold hasParent at hparent
      cases hd : t.distance? c d with
      | none =>
        rw [hd] at hparent
        cases hparent
      | some n => exact (isDistance_of_distance? hd).path.climbs
  · intro hclimbs
    by_cases heq : c = d
    · exact .inl heq
    · exact .inr (hasParent_of_climbs hclimbs heq)

/-- The scope is that of a class that inherits what is declared in the other one. -/
def Inherits (t : SymbolTable) (s declaredIn : ScopeId) : Prop :=
  ∃ c, t.classOwner? s = some c ∧ ∃ declaring, t.classOwner? declaredIn = some declaring ∧
    t.Climbs c declaring

/-- The modules are the same or of one package, which has a name. -/
def SharePackage (t : SymbolTable) (m m' : ModuleId) : Prop :=
  ∃ md, t.module? m = some md ∧ ∃ md', t.module? m' = some md' ∧
    (md.id = md'.id ∨ md'.package ≠ "" ∧ md.package = md'.package)

/-- The scope lets the item in by itself, whatever is around it. -/
def Admits (t : SymbolTable) (item : Item) (s : ScopeId) : Prop :=
  match item.visibility with
  | .everyone => True
  | .scopeOnly => s = item.scope
  | .derived => s = item.scope ∨ t.Inherits s item.scope
  | .sameModule => ∃ scope, t.scope? s = some scope ∧ scope.module = item.module
  | .samePackage => ∃ scope, t.scope? s = some scope ∧ t.SharePackage scope.module item.module

/-- Among the classes around a scope there is one that inherits the declarations of another. -/
theorem exists_inherits_iff {declaredIn : ScopeId} {declaring : ItemId}
    (hdeclaring : t.classOwner? declaredIn = some declaring) :
    (∃ a, t.isWithin s a = true ∧ t.Inherits a declaredIn) ↔
      (((t.chain s).filterMap t.classOwner?).any fun c =>
        c == declaring || t.hasParent c declaring) = true := by
  simp only [Inherits, hdeclaring, List.any_eq_true, List.mem_filterMap, beq_or_hasParent_iff,
    isWithin_iff, Option.some.injEq, exists_eq_left']
  constructor
  · rintro ⟨a, ha, c, hc, hclimbs⟩
    exact ⟨c, ⟨a, ha, hc⟩, hclimbs⟩
  · rintro ⟨c, ⟨a, ha, hc⟩, hclimbs⟩
    exact ⟨a, ha, c, hc, hclimbs⟩

theorem sharePackage_iff {m m' : ModuleId} :
    t.SharePackage m m' ↔
      (match t.module? m, t.module? m' with
        | some asking, some owner =>
          asking.id == owner.id || (!owner.package.isEmpty && asking.package == owner.package)
        | _, _ => false) = true := by
  unfold SharePackage
  cases t.module? m <;> cases t.module? m' <;> simp

/-- A module that a scope is in is that of any scope around it. -/
theorem ScopesNest.exists_isWithin_iff (h : t.ScopesNest) {scope : Scope}
    (hs : t.scope? s = some scope) {P : ModuleId → Prop} :
    (∃ a, t.isWithin s a = true ∧ ∃ outer, t.scope? a = some outer ∧ P outer.module) ↔
      P scope.module := by
  constructor
  · rintro ⟨a, hin, outer, houter, hP⟩
    rwa [h.module_eq hs houter hin]
  · intro hP
    exact ⟨s, t.isWithin_self s, scope, hs, hP⟩

/-- **Visibility.** An item is seen in a scope if that scope or one around it lets the item in. -/
theorem ScopesNest.canSee_iff (h : t.ScopesNest) :
    t.canSee i s = true ↔ ∃ item, t.item? i = some item ∧ (t.scope? s).isSome = true ∧
      ∃ a, t.isWithin s a = true ∧ t.Admits item a := by
  unfold canSee
  cases hi : t.item? i with
  | none => simp
  | some item =>
    cases hs : t.scope? s with
    | none => simp
    | some scope =>
      simp only [Option.some.injEq, exists_eq_left', Option.isSome_some, true_and]
      unfold Admits
      cases item.visibility with
      | everyone => exact iff_of_true rfl ⟨s, t.isWithin_self s, trivial⟩
      | scopeOnly =>
        show t.isWithin s item.scope = true ↔ ∃ a, t.isWithin s a = true ∧ a = item.scope
        rw [exists_eq_right]
      | derived =>
        cases hd : t.classOwner? item.scope with
        | none =>
          have hnot : ∀ a, ¬ t.Inherits a item.scope := by simp [Inherits, hd]
          show (t.isWithin s item.scope || false) = true ↔
            ∃ a, t.isWithin s a = true ∧ (a = item.scope ∨ t.Inherits a item.scope)
          simp [hnot]
        | some declaring =>
          show (t.isWithin s item.scope || ((t.chain s).filterMap t.classOwner?).any _) = true ↔
            ∃ a, t.isWithin s a = true ∧ (a = item.scope ∨ t.Inherits a item.scope)
          rw [Bool.or_eq_true, ← exists_inherits_iff hd]
          simp only [and_or_left, exists_or, exists_eq_right]
      | sameModule =>
        exact beq_iff_eq.trans (h.exists_isWithin_iff hs (P := (· = item.module))).symm
      | samePackage =>
        exact sharePackage_iff.symm.trans
          (h.exists_isWithin_iff hs (P := (t.SharePackage · item.module))).symm

theorem isSome_scope?_of_isWithin (houter : (t.scope? outer).isSome = true)
    (hin : t.isWithin inner outer = true) : (t.scope? inner).isSome = true := by
  cases hinner : t.scope? inner with
  | some scope => rfl
  | none =>
    -- nothing is around a scope that is not there
    have hchain : t.chain inner = [inner] := by rw [chain, hinner]; rfl
    rw [isWithin_iff, hchain, List.mem_singleton] at hin
    rw [hin, hinner] at houter
    cases houter

theorem ScopesNest.canSee_of_isWithin (h : t.ScopesNest) (hin : t.isWithin inner outer = true)
    (hsee : t.canSee i outer = true) : t.canSee i inner = true := by
  obtain ⟨item, hitem, houter, a, ha, hadmits⟩ := h.canSee_iff.1 hsee
  exact h.canSee_iff.2 ⟨item, hitem, isSome_scope?_of_isWithin houter hin, a, isWithin_trans hin ha, hadmits⟩

/-- **What is seen in a scope is seen inside it.** In a table that is built, whatever the visibility of an
item is: all scopes inside one that sees the item see it too. The scopes that see it are those that let it in
and those inside them. -/
theorem visible_inward {steps : List Construction} (h : build steps = some t) (i : ItemId) :
    (∀ outer inner, t.isWithin inner outer = true → t.canSee i outer = true →
      t.canSee i inner = true) ∧
      ∀ s, t.canSee i s = true ↔ ∃ item, t.item? i = some item ∧ (t.scope? s).isSome = true ∧
        ∃ a, t.isWithin s a = true ∧ t.Admits item a :=
  have hnest : t.ScopesNest := (wellFormed_empty.runAll h).scopes
  ⟨fun _ _ => hnest.canSee_of_isWithin, fun _ => hnest.canSee_iff⟩

/-- A class with a member for derived classes, a derived class and a scope inside that one. -/
def derivedSteps : List Construction :=
  [.newModule "m" "m.tsr" "", .newScope ⟨0⟩ .block, .newScope ⟨0⟩ .block,
    .addItem { name := "A", scope := ⟨0⟩, module := ⟨0⟩, entity := .cls { scope := ⟨2⟩ } },
    .addItem { name := "B", scope := ⟨0⟩, module := ⟨0⟩,
               entity := .cls { scope := ⟨3⟩, parents := [⟨0⟩] } },
    .setOwner ⟨2⟩ (.cls ⟨0⟩), .setOwner ⟨3⟩ (.cls ⟨1⟩),
    .addItem { name := "x", scope := ⟨2⟩, module := ⟨0⟩, entity := .var (.member .int),
               visibility := .derived },
    .newScope ⟨3⟩ .block]

theorem visible_inward_derived :
    ∃ t, build derivedSteps = some t ∧ t.canSee ⟨2⟩ ⟨4⟩ = true ∧ t.canSee ⟨2⟩ ⟨0⟩ = false := by
  obtain ⟨t, ht⟩ : ∃ t, build derivedSteps = some t := ⟨_, rfl⟩
  have hfacts : (build derivedSteps).map (fun t =>
      (t.isWithin ⟨4⟩ ⟨3⟩, t.canSee ⟨2⟩ ⟨3⟩, t.canSee ⟨2⟩ ⟨0⟩)) = some (true, true, false) := by
    decide +kernel
  rw [ht] at hfacts
  obtain ⟨hin, hsee, hnot⟩ : t.isWithin ⟨4⟩ ⟨3⟩ = true ∧ t.canSee ⟨2⟩ ⟨3⟩ = true ∧
      t.canSee ⟨2⟩ ⟨0⟩ = false := by simpa using hfacts
  exact ⟨t, ht, (visible_inward ht ⟨2⟩).1 ⟨3⟩ ⟨4⟩ hin hsee, hnot⟩

end SemanticAnalysis.SymbolTable
