import SemanticAnalysis.Proofs.SymbolTable.Bindings
import SemanticAnalysis.Proofs.SymbolTable.Frame

/-!
# Names seen from inside a class

A name that a class does not declare is looked up around the class. If the scope around it declares a class of
that name (`SymbolTable.DeclaresClass`), the name means this class, inside and outside
(`DeclaresClass.findAll`, `DeclaresClass.findAll_inside`).
-/

namespace SemanticAnalysis.SymbolTable

variable {t : SymbolTable} {own outer : ScopeId} {name : String} {generics : Nat} {i cls : ItemId}

/-- Under the name, the scope lists a single item: a class that everyone sees. -/
structure DeclaresClass (t : SymbolTable) (outer : ScopeId) (name : String) (generics : Nat) (i : ItemId) : Prop where
  named : t.named outer name = [i]
  there : ∃ item c, t.item? i = some item ∧ item.name = name ∧ item.generics = generics ∧
    item.visibility = .everyone ∧ item.entity = .cls c
  lists : t.ListsItems outer
  unowned : t.classOwner? outer = none

/-- The scope of a class without parents, inside another scope. -/
structure IsScopeOf (t : SymbolTable) (own outer : ScopeId) (cls : ItemId) : Prop where
  inside : ∃ sc, t.scope? own = some sc ∧ sc.parent = some outer ∧ sc.owner = .cls cls
  lt : outer.index < own.index
  there : ∃ c, t.class? cls = some c ∧ c.scope = own ∧ c.parents = []

namespace IsScopeOf

theorem chain (h : t.IsScopeOf own outer cls) : t.chain own = own :: t.chain outer := by
  obtain ⟨sc, hsc, hparent, -⟩ := h.inside
  have houter : (t.scope? own).bind (·.parent) = some outer := by rw [hsc, Option.bind_some, hparent]
  rw [SymbolTable.chain, houter]
  exact if_pos h.lt

theorem classOwner? (h : t.IsScopeOf own outer cls) : t.classOwner? own = some cls := by
  obtain ⟨sc, hsc, -, howner⟩ := h.inside
  rw [SymbolTable.classOwner?, hsc, Option.bind_some, Scope.classOwner?, howner]

theorem ownedRightly (h : t.IsScopeOf own outer cls) : t.OwnedRightly own := by
  obtain ⟨c, hc, hscope, -⟩ := h.there
  intro d hd
  cases h.classOwner?.symm.trans hd
  exact ⟨c, hc, hscope⟩

/-- It has no ancestors. -/
theorem withAncestors (h : t.IsScopeOf own outer cls) : t.withAncestors cls = [cls] := by
  obtain ⟨c, hc, -, hparents⟩ := h.there
  have hnone : t.parentsOf cls = [] := by rw [parentsOf, hc]; exact hparents
  have hlayers : t.layersFrom t.items.size [cls] [cls] = [] := by
    cases t.items.size with
    | zero => rfl
    | succ n => simp [layersFrom, hnone, firstSeen]
  rw [SymbolTable.withAncestors, ancestors, ancestorLayers, hlayers]
  rfl

/-- What the class does not declare is not found in it. -/
theorem findAt_own (h : t.IsScopeOf own outer cls) (hfree : t.named own name = [])
    (exclude : List EntityKind) (origin : Option ScopeId) : t.findAt name exclude origin own = [] := by
  obtain ⟨c, hc, hscope, -⟩ := h.there
  have hlocal : t.findLocal name own exclude origin = [] := by rw [findLocal_eq_named, hfree]; rfl
  rw [findAt, h.classOwner?]
  dsimp only
  rw [findInClass, h.withAncestors, gatherMembers, hc]
  dsimp only
  rw [hscope, hlocal]
  rfl

end IsScopeOf

namespace DeclaresClass

theorem exists_scope (h : t.DeclaresClass outer name generics i) : ∃ sc, t.scope? outer = some sc := by
  have hnamed := h.named
  unfold SymbolTable.named at hnamed
  cases hsc : t.scope? outer with
  | some sc => exact ⟨sc, rfl⟩
  | none =>
    rw [hsc] at hnamed
    cases hnamed

theorem offered? (h : t.DeclaresClass outer name generics i) {origin : ScopeId}
    (horigin : ∃ sc, t.scope? origin = some sc) :
    t.offered? name EntityKind.values (some origin) i = some i := by
  obtain ⟨item, c, hitem, hname, -, hvisible, hcls⟩ := h.there
  obtain ⟨sc, hsc⟩ := horigin
  have hproper : t.IsProper i := by
    refine ⟨lt_of_item? hitem, ?_⟩
    rw [aliasTarget?_eq, hitem, Option.bind_some, Item.alias?, hcls]
  have hresolve : t.resolveAlias i = .ok i := resolveAlias_eq_ok.2 (followAliases_self hproper _)
  have hkind : t.kind? i = some .cls := by
    rw [kind?, hitem, Option.map_some, hcls]
    rfl
  have hsees : t.canSee i origin = true := by
    unfold canSee
    rw [hitem, hsc]
    dsimp only
    rw [hvisible]
  unfold SymbolTable.offered?
  rw [hitem]
  simp [hname, hsees, hresolve, hkind, EntityKind.values]

/-- The scope offers the class. -/
theorem findAt (h : t.DeclaresClass outer name generics i) {origin : ScopeId}
    (horigin : ∃ sc, t.scope? origin = some sc) :
    t.findAt name EntityKind.values (some origin) outer = [i] := by
  rw [SymbolTable.findAt, h.unowned]
  dsimp only
  rw [findLocal_eq_named, h.named, List.filterMap_cons, h.offered? horigin]
  rfl

/-- In the scope, the name means the class. -/
theorem findAll (h : t.DeclaresClass outer name generics i) :
    t.findAll name outer EntityKind.values (some outer) = [i] := by
  obtain ⟨rest, hchain⟩ := t.exists_chain_eq_cons outer
  rw [SymbolTable.findAll, hchain, firstNonempty, h.findAt h.exists_scope]

/-- So it does inside a class of the scope that does not declare the name. -/
theorem findAll_inside (h : t.DeclaresClass outer name generics i) (hown : t.IsScopeOf own outer cls)
    (hfree : t.named own name = []) : t.findAll name own EntityKind.values (some own) = [i] := by
  obtain ⟨rest, hchain⟩ := t.exists_chain_eq_cons outer
  have hscope : ∃ sc, t.scope? own = some sc := hown.inside.imp fun _ hsc => hsc.1
  rw [SymbolTable.findAll, hown.chain, hchain, firstNonempty, hown.findAt_own hfree, firstNonempty,
    h.findAt hscope]

end DeclaresClass

end SemanticAnalysis.SymbolTable
