import SemanticAnalysis.Proofs.SymbolTable.Retention

/-!
# What an item was declared as

An item goes on to be what it was declared as (`Item.nature`). A later table has all items of an earlier one, with
their natures, and what its functions capture is in order if it was so before (`SymbolTable.Conserves`).

Every operation of the table but `newModule` and the linking of two modules conserves this and retains the rest
(`SymbolTable.Maintains`). Here is one lemma for each. Two concern captures: noting a use along a chain of scopes
(`Maintains.captureAlong`), and copying what was noted (`Maintains.copyReferenced`).
-/

namespace SemanticAnalysis

/-- What an item was declared as. A function says of which one it is a variant and whether it is a lambda, a variable
who owns it. -/
structure Nature where
  name : String
  scope : ScopeId
  generics : Nat
  variantOf : Option (Option ItemId)
  isLambda : Option Bool
  owner : Option (Option ItemId)

def Item.nature (i : Item) : Nature where
  name := i.name
  scope := i.scope
  generics := i.generics
  variantOf := i.function?.map (·.variantOf)
  isLambda := i.function?.map (·.flags.lambda)
  owner := i.var?.map (·.owner)

/-- What of a function its nature and its captures rest on. -/
@[grind =] def Function.guise (f : Function) : Option ItemId × Bool × List ItemId × List ItemId :=
  (f.variantOf, f.flags.lambda, f.referenced, f.copied)

theorem Item.nature_shape (i : Item) : i.shape.nature = i.nature := by
  cases h : i.entity <;> simp [Item.shape, Item.nature, Item.function?, Item.var?, Function.shape, h]

namespace SymbolTable

variable {t u v : SymbolTable} {i : ItemId} {f : Function}

/-! ## Natures -/

/-- All items of `t` are there, with their natures. -/
def KeepsNatures (t u : SymbolTable) : Prop :=
  ∀ i item, t.item? i = some item → ∃ item', u.item? i = some item' ∧ item'.nature = item.nature

theorem KeepsNatures.of_items (h : u.items = t.items) : t.KeepsNatures u :=
  fun i item hi => ⟨item, by rw [item?, h]; exact hi, rfl⟩

theorem KeepsNatures.modifyItem {g : Item → Item} (hg : ∀ item, (g item).nature = item.nature) :
    t.KeepsNatures (t.modifyItem i g) := by
  intro j item hj
  rw [item?_modifyItem, hj]
  split
  · exact ⟨g item, rfl, hg item⟩
  · exact ⟨item, rfl, rfl⟩

theorem KeepsNatures.modifyFunction {g : Function → Function}
    (hg : ∀ f, (g f).variantOf = f.variantOf ∧ (g f).flags.lambda = f.flags.lambda) :
    t.KeepsNatures (t.modifyFunction i g) := by
  refine .modifyItem fun item => ?_
  cases h : item.entity <;> simp [Item.nature, Item.function?, Item.var?, h, hg]

theorem KeepsNatures.exists_var? (h : t.KeepsNatures u) {x : Variable} (hx : t.var? i = some x) :
    ∃ y, u.var? i = some y ∧ y.owner = x.owner := by
  obtain ⟨item, hitem, hvar⟩ := Option.bind_eq_some_iff.1 hx
  obtain ⟨item', hitem', heq⟩ := h i item hitem
  have howner : item'.var?.map (·.owner) = item.var?.map (·.owner) := congrArg Nature.owner heq
  rw [hvar, Option.map_some] at howner
  obtain ⟨y, hy, howner⟩ := Option.map_eq_some_iff.1 howner
  exact ⟨y, by rw [var?, hitem', Option.bind_some, hy], howner⟩

/-- A function goes on to be what it was declared as. -/
theorem KeepsNatures.exists_function (h : t.KeepsNatures u) {item : Item} (hitem : t.item? i = some item)
    (hf : item.entity = .fn f) : ∃ item' g, u.item? i = some item' ∧ item'.entity = .fn g ∧ item'.name = item.name ∧
      item'.scope = item.scope ∧ item'.generics = item.generics ∧ g.variantOf = f.variantOf := by
  obtain ⟨item', hitem', heq⟩ := h i item hitem
  have hvariant : item'.function?.map (·.variantOf) = item.function?.map (·.variantOf) := congrArg Nature.variantOf heq
  rw [Item.function?, Item.function?, hf] at hvariant
  obtain ⟨g, hg, hsame⟩ := Option.map_eq_some_iff.1 hvariant
  exact ⟨item', g, hitem', Item.entity_of_function? hg, congrArg Nature.name heq, congrArg Nature.scope heq,
    congrArg Nature.generics heq, hsame⟩

/-! ## Captures -/

/-- What a function captures is in order. Only lambdas refer to variables, to those of other functions, and to each
once. What was copied was referred to first. -/
structure Captures (t : SymbolTable) (i : ItemId) (f : Function) : Prop where
  lambda : f.referenced ≠ [] → f.flags.lambda = true
  once : f.referenced.Nodup
  foreign : ∀ v ∈ f.referenced, ∃ x owner, t.var? v = some x ∧ x.owner = some owner ∧ owner ≠ i
  copied : f.copied <+: f.referenced

/-- What the functions capture is in order. -/
def CapturesInOrder (t : SymbolTable) : Prop := ∀ i f, t.function? i = some f → t.Captures i f

theorem Captures.of_natures (h : t.Captures i f) (hnatures : t.KeepsNatures u) : u.Captures i f where
  lambda := h.lambda
  once := h.once
  foreign v hv := by
    obtain ⟨x, owner, hx, howner, hne⟩ := h.foreign v hv
    obtain ⟨y, hy, hsame⟩ := hnatures.exists_var? hx
    exact ⟨y, owner, hy, hsame.trans howner, hne⟩
  copied := h.copied

theorem Captures.of_guise {g : Function} (h : t.Captures i f) (hguise : g.guise = f.guise) : t.Captures i g := by
  obtain ⟨-, hlambda, hreferenced, hcopied⟩ : g.variantOf = f.variantOf ∧ g.flags.lambda = f.flags.lambda ∧
      g.referenced = f.referenced ∧ g.copied = f.copied := by simpa [Function.guise] using hguise
  refine ⟨fun hsome => ?_, ?_, fun v hv => ?_, ?_⟩
  · rw [hlambda]
    exact h.lambda (hreferenced ▸ hsome)
  · exact hreferenced ▸ h.once
  · exact h.foreign v (hreferenced ▸ hv)
  · rw [hreferenced, hcopied]
    exact h.copied

/-- One more variable of another function is noted on a lambda. -/
theorem Captures.refer {used owner : ItemId} {x : Variable} (h : t.Captures i f) (hlambda : f.flags.lambda = true)
    (hx : t.var? used = some x) (howner : x.owner = some owner) (hne : owner ≠ i) :
    t.Captures i { f with referenced := insertNew f.referenced used } where
  lambda _ := hlambda
  once := nodup_insertNew h.once used
  foreign v hv := by
    rcases mem_insertNew.1 hv with hold | rfl
    · exact h.foreign v hold
    · exact ⟨x, owner, hx, howner, hne⟩
  copied := by
    refine h.copied.trans ?_
    dsimp only
    unfold insertNew
    split
    · exact List.prefix_rfl
    · exact List.prefix_append ..

theorem Captures.copy (h : t.Captures i f) : t.Captures i { f with copied := f.referenced } :=
  { h with copied := List.prefix_rfl }

/-! ## Conservation -/

/-- Items keep their natures, and captures are in order if they were so. -/
structure Conserves (t u : SymbolTable) : Prop where
  natures : t.KeepsNatures u
  captures : t.CapturesInOrder → u.CapturesInOrder

namespace Conserves

theorem refl (t : SymbolTable) : t.Conserves t := ⟨.of_items rfl, id⟩

theorem trans (h : t.Conserves u) (h' : u.Conserves v) : t.Conserves v where
  natures i item hi := by
    obtain ⟨item', hi', heq⟩ := h.natures i item hi
    obtain ⟨item'', hi'', heq'⟩ := h'.natures i item' hi'
    exact ⟨item'', hi'', heq'.trans heq⟩
  captures ht := h'.captures (h.captures ht)

/-- Functions keep their guises, and new ones capture nothing yet. -/
theorem of_guises (hnatures : t.KeepsNatures u) (hfunctions : ∀ i g, u.function? i = some g →
      (g.referenced = [] ∧ g.copied = []) ∨ ∃ f, t.function? i = some f ∧ g.guise = f.guise) : t.Conserves u where
  natures := hnatures
  captures ht i g hg := by
    rcases hfunctions i g hg with ⟨hnone, hnone'⟩ | ⟨f, hf, hguise⟩
    · refine ⟨fun hsome => absurd hnone hsome, ?_, fun v hv => ?_, ?_⟩
      · rw [hnone]
        exact List.nodup_nil
      · rw [hnone] at hv
        exact absurd hv List.not_mem_nil
      · rw [hnone']
        exact List.nil_prefix
    · exact ((ht i f hf).of_guise hguise).of_natures hnatures

/-- A change that leaves items alone. -/
theorem of_items (h : u.items = t.items) : t.Conserves u :=
  of_guises (.of_items h) fun i g hg => .inr ⟨g, by rw [← hg, function?, function?, item?, item?, h], rfl⟩

theorem of_sameShape (h : t.SameShape u) : t.Conserves u := by
  refine of_guises (fun i item hi => ?_) fun i g hg => .inr ?_
  · have hshape := h.items i
    rw [hi, Option.map_some, eq_comm] at hshape
    obtain ⟨item', hitem', heq⟩ := Option.map_eq_some_iff.1 hshape
    exact ⟨item', hitem', by rw [← Item.nature_shape, heq, Item.nature_shape]⟩
  · obtain ⟨item, hitem, hfunction⟩ := Option.bind_eq_some_iff.1 hg
    have hshape := h.items i
    rw [hitem, Option.map_some, eq_comm] at hshape
    obtain ⟨old, hold, heq⟩ := Option.map_eq_some_iff.1 hshape.symm
    have hsame := congrArg Item.function? heq
    rw [Item.function?_shape, Item.function?_shape, hfunction, Option.map_some] at hsame
    obtain ⟨f, hf, hguise⟩ := Option.map_eq_some_iff.1 hsame
    exact ⟨f, by rw [function?, hold, Option.bind_some, hf], (congrArg Function.guise hguise).symm⟩

theorem modifyItem {g : Item → Item} (hnature : ∀ item, (g item).nature = item.nature)
    (hfunction : ∀ item, (g item).function?.map Function.guise = item.function?.map Function.guise) :
    t.Conserves (t.modifyItem i g) := by
  refine of_guises (.modifyItem hnature) fun j f hf => .inr ?_
  obtain ⟨item, hitem, hf⟩ := Option.bind_eq_some_iff.1 hf
  rw [item?_modifyItem] at hitem
  split at hitem
  · obtain ⟨old, hold, rfl⟩ := Option.map_eq_some_iff.1 hitem
    have hguise := hfunction old
    rw [hf, Option.map_some] at hguise
    obtain ⟨f', hf', heq⟩ := Option.map_eq_some_iff.1 hguise.symm
    exact ⟨f', by rw [function?, hold, Option.bind_some, hf'], heq.symm⟩
  · exact ⟨f, by rw [function?, hitem, Option.bind_some, hf], rfl⟩

theorem addItem {item : Item} (hitem : ∀ f, item.entity = .fn f → f.referenced = [] ∧ f.copied = []) :
    t.Conserves (t.addItem item).2 := by
  refine of_guises (fun i old hi => ?_) fun i f hf => ?_
  · rw [item?_addItem, if_neg (Nat.ne_of_lt (lt_of_item? hi))]
    exact ⟨old, hi, rfl⟩
  · obtain ⟨made, hmade, hf⟩ := Option.bind_eq_some_iff.1 hf
    rw [item?_addItem] at hmade
    split at hmade
    · cases hmade
      exact .inl (hitem f (Item.entity_of_function? hf))
    · exact .inr ⟨f, by rw [function?, hmade, Option.bind_some, hf], rfl⟩

/-- A change of what a function captures. -/
theorem recapture {g : Function → Function}
    (hg : ∀ f, (g f).variantOf = f.variantOf ∧ (g f).flags.lambda = f.flags.lambda)
    (hcaptures : ∀ f, t.function? i = some f → t.Captures i f → t.Captures i (g f)) :
    t.Conserves (t.modifyFunction i g) where
  natures := .modifyFunction hg
  captures ht j f hf := by
    rw [function?_modifyFunction] at hf
    split at hf
    · obtain ⟨old, hold, rfl⟩ := Option.map_eq_some_iff.1 hf
      rename_i heq
      subst heq
      exact (hcaptures old hold (ht j old hold)).of_natures (.modifyFunction hg)
    · exact (ht j f hf).of_natures (.modifyFunction hg)

end Conserves

/-! ## Maintenance -/

/-- `u` is a later table than `t` that retains all and conserves natures and captures. -/
structure Maintains (t u : SymbolTable) : Prop extends t.Retains u where
  conserves : t.Conserves u

namespace Maintains

theorem refl (t : SymbolTable) : t.Maintains t := ⟨.refl t, .refl t⟩

theorem trans (h : t.Maintains u) (h' : u.Maintains v) : t.Maintains v :=
  ⟨h.toRetains.trans h'.toRetains, h.conserves.trans h'.conserves⟩

/-! ### Items -/

theorem modifyItem {g : Item → Item} (hg : ∀ item, (g item).identity = item.identity ∧
      (g item).nature = item.nature ∧ (g item).function?.map Function.guise = item.function?.map Function.guise) :
    t.Maintains (t.modifyItem i g) :=
  ⟨.modifyItem fun item => (hg item).1, .modifyItem (fun item => (hg item).2.1) fun item => (hg item).2.2⟩

theorem modifyFunction {g : Function → Function} (hg : ∀ f, (g f).scope = f.scope ∧ (g f).guise = f.guise) :
    t.Maintains (t.modifyFunction i g) := by
  have hguise : ∀ f, (g f).variantOf = f.variantOf ∧ (g f).flags.lambda = f.flags.lambda := fun f =>
    ⟨congrArg (·.1) (hg f).2, congrArg (·.2.1) (hg f).2⟩
  exact ⟨.modifyFunction fun f => (hg f).1, .recapture hguise fun f _ hf => hf.of_guise (hg f).2⟩

theorem modifyClass {g : Class → Class} (hg : ∀ c, (g c).scope = c.scope) :
    t.Maintains (t.modifyClass i g) := by
  refine ⟨.modifyClass hg, .modifyItem (fun item => ?_) fun item => ?_⟩ <;>
    cases h : item.entity <;> simp [Item.nature, Item.function?, Item.var?, h]

theorem modifyVariable {g : Variable → Variable} (hg : ∀ x, (g x).owner = x.owner) :
    t.Maintains (t.modifyVariable i g) := by
  refine ⟨.modifyVariable, .modifyItem (fun item => ?_) fun item => ?_⟩ <;>
    cases h : item.entity <;> simp [Item.nature, Item.function?, Item.var?, h, hg]

/-- Add an item. A function brings an inner scope and captures nothing yet. -/
theorem addItem {item : Item}
    (hitem : ∀ f, item.entity = .fn f → t.IsInner f.scope ∧ f.referenced = [] ∧ f.copied = []) :
    t.Maintains (t.addItem item).2 :=
  ⟨.addItem fun f hf => (hitem f hf).1, .addItem fun f hf => (hitem f hf).2⟩

/-! ### Scopes and modules -/

theorem modifyScope {s : ScopeId} {g : Scope → Scope}
    (hparent : ∀ scope, (g scope).parent = scope.parent)
    (hitems : ∀ scope, scope.items <+: (g scope).items) : t.Maintains (t.modifyScope s g) :=
  ⟨.modifyScope hparent hitems, .of_items rfl⟩

theorem setOwner {s : ScopeId} {owner : ScopeOwner} : t.Maintains (t.setOwner s owner) :=
  ⟨.setOwner, .of_items rfl⟩

theorem modifyModule {m : ModuleId} {g : Module → Module} (hscopes : ∀ md, (g md).scopes = md.scopes)
    (hlinks : ∀ md, (g md).links = md.links) : t.Maintains (t.modifyModule m g) :=
  ⟨.modifyModule hscopes hlinks, .of_items rfl⟩

theorem newScope {parent : ScopeId} {owner : ScopeOwner} : t.Maintains (t.newScope parent owner).2 :=
  ⟨.newScope, .of_items (items_newScope ..)⟩

/-! ### Errors and captures -/

/-- Working off errors. -/
theorem run (flow : ErrorFlow) (tasks : List ErrorFlow.Task) : t.Maintains (flow.run tasks t) :=
  ⟨.run flow tasks, .of_sameShape (sameShape_settle flow _ tasks t)⟩

theorem link (flow : ErrorFlow) (callee : ItemId) (site : ScopeId) : t.Maintains (flow.link callee site t).2 :=
  ⟨.link flow callee site, .of_sameShape (sameShape_link flow callee site t)⟩

/-- A use of a variable is noted on lambdas, and not on the owner of the variable. -/
theorem captureAlong {used owner : ItemId} {chain : List ScopeId} {x : Variable} (hx : t.var? used = some x)
    (howner : x.owner = some owner) : t.Maintains (t.captureAlong used owner chain) := by
  induction chain generalizing t with
  | nil => exact refl t
  | cons s outer ih =>
    unfold SymbolTable.captureAlong
    split
    · exact ih hx
    · split
      · exact refl t
      · split
        · rename_i f _ hne _ g hg
          split
          · rename_i hlambda
            have hcaptured : t.Maintains (t.modifyFunction f fun fn =>
                { fn with referenced := insertNew fn.referenced used }) := by
              refine ⟨.modifyFunction fun _ => rfl, .recapture (fun _ => ⟨rfl, rfl⟩) fun fn hfn hcaptures => ?_⟩
              cases hg.symm.trans hfn
              exact hcaptures.refer hlambda hx howner fun heq => hne (by simp [heq])
            refine hcaptured.trans (ih ?_)
            rw [var?_modifyFunction]
            exact hx
          · exact refl t
        · exact refl t

/-- What a function refers to is copied. -/
theorem copyReferenced : t.Maintains (t.modifyFunction i fun f => { f with copied := f.referenced }) :=
  ⟨.modifyFunction fun _ => rfl, .recapture (fun _ => ⟨rfl, rfl⟩) fun _ _ h => h.copy⟩

end Maintains

end SymbolTable

end SemanticAnalysis
