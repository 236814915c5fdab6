import SemanticAnalysis.Proofs.Module.Exports
import SemanticAnalysis.Proofs.SymbolTable.Names

/-!
# Names that mean one kind of thing

1. The checks. A declaration of something else than a function needs a name that its scope does not have
   (`checkRedeclaration_ok`), a function one that means functions only (`checkDuplicateFunction_settles`).
2. What a declaration does behind its check leaves the name as it is, or adds functions to functions
   (`Preserves`).
3. So a declaration leaves its name clear (`declared_name_clear`). Namespaces and the names that imports bind join
   what is there, and leave a clear name clear.

Generic functions are left out: they are declared without a check, whatever their name means
(`declareFunction_unclear`). So are fields and parameters, whose names are checked before their types are analysed.
-/

namespace SemanticAnalysis

open SymbolTable

section

variable {α β γ : Type} {x : Analysis α} {f : α → Analysis β}

/-- A step that starts with one property ends with the other, if it does not stop. -/
def Leads (Q : State → Prop) (x : Analysis α) (R : α → State → Prop) : Prop :=
  ∀ s a s', Q s → x s = .ok a s' → R a s'

/-- A step that starts with the property ends with it, if it does not stop. -/
abbrev Preserves (Q : State → Prop) (x : Analysis α) : Prop := Leads Q x fun _ => Q

theorem Orderly.course {s s' : State} {a : α} (hx : Orderly s x) (hs : s.Proper) (h : x s = .ok a s') :
    Course s s' := by
  have hcourse := hx s hs (.refl s)
  rwa [Analysis.behind, h] at hcourse

namespace Leads

variable {Q : State → Prop} {M : α → State → Prop} {R : β → State → Prop}

theorem pure {R : α → State → Prop} {a : α} (h : ∀ s, Q s → R a s) :
    Leads Q (Pure.pure a : Analysis α) R := by
  rintro s b s' hs ⟨⟩
  exact h s hs

theorem throw {R : α → State → Prop} {e : Diagnostic} :
    Leads Q (MonadExcept.throw e : Analysis α) R := by
  rintro s b s' hs ⟨⟩

theorem bind_from (hx : Leads Q x M) (hf : ∀ a, Leads (M a) (f a) R) : Leads Q (x >>= f) R := by
  intro s b s' hs hrun
  obtain ⟨a, s₁, hxs, hrun⟩ := Analysis.of_bind_ok hrun
  exact hf a s₁ b s' (hx s a s₁ hs hxs) hrun

theorem bind (hx : Preserves Q x) (hf : ∀ a, Leads Q (f a) R) : Leads Q (x >>= f) R :=
  bind_from hx hf

/-- First read the table. -/
theorem bind_look {g : SymbolTable → α} (hf : ∀ a, Leads Q (f a) R) :
    Leads Q (Analysis.look g >>= f) R := by
  refine .bind ?_ hf
  rintro s _ s' hs ⟨⟩
  exact hs

theorem discard {R : State → Prop} (hx : Leads Q x fun _ => R) : Leads Q (discard x) fun _ => R := by
  show Leads Q ((fun _ => PUnit.unit) <$> x) _
  rw [← bind_pure_comp]
  exact hx.bind_from fun _ => .pure fun _ => id

theorem modify {R : State → Prop} {g : State → State} (h : ∀ s, Q s → R (g s)) :
    Leads Q (modify g : Analysis PUnit) fun _ => R := by
  rintro s _ s' hs ⟨⟩
  exact h s hs

theorem forM {xs : List γ} {f : γ → Analysis PUnit} (h : ∀ a, Preserves Q (f a)) :
    Preserves Q (xs.forM f) := by
  induction xs with
  | nil => exact .pure fun _ => id
  | cons a rest ih => exact .bind (h a) fun _ => ih

theorem expect {what : String} {o : Option α} : Preserves Q (Analysis.expect what o) := by
  cases o with
  | none => exact .throw
  | some a => exact .pure fun _ => id

end Leads

end

namespace Analysis

section

variable {s s' : State} {frame : Frame} {an : Analyst} {scope : ScopeId} {name : String} {i : ItemId}
variable {P : SymbolTable → ItemId → Prop} {position : Position} {m : ModuleId}

/-! ## The checks -/

theorem checkRedeclaration_ok (h : checkRedeclaration name scope position s = .ok ⟨⟩ s') :
    s' = s ∧ s.table.findLocal name scope [] none = [] := by
  have hlook : look (·.findLocal name scope [] none) s = .ok (s.table.findLocal name scope [] none) s := rfl
  unfold checkRedeclaration at h
  rw [bind_ok hlook] at h
  cases hfound : s.table.findLocal name scope [] none with
  | nil =>
    rw [hfound] at h
    cases h
    exact ⟨rfl, rfl⟩
  | cons j rest =>
    rw [hfound] at h
    cases h

/-- What is no duplicate is a function. -/
theorem onlyFunction_of_isDuplicateOf {t : SymbolTable} {f : Function} (h : isDuplicateOf t f i = false) :
    t.OnlyFunction i := by
  intro item hitem
  unfold isDuplicateOf at h
  rw [hitem] at h
  cases hentity : item.entity with
  | fn g => rfl
  | var | cls | space | aliasOf | bound => simp [hentity] at h

theorem checkDuplicateFunction_settles {entry : Item} {f : Function} (hentry : s.table.item? i = some entry)
    (hf : entry.entity = .fn f) (h : checkDuplicateFunction i position s = .ok ⟨⟩ s') :
    s' = s ∧ s.table.Settles i entry.scope entry.name OnlyFunction := by
  have hlook : look id s = .ok s.table s := rfl
  have hfunction : s.table.function? i = some f := by
    rw [SymbolTable.function?, hentry, Option.bind_some, Item.function?, hf]
  have hself : s.table.OnlyFunction i := by
    intro item hitem
    obtain rfl := Option.some.inj (hentry.symm.trans hitem)
    rw [hf]
    rfl
  have hproper : s.table.IsProper i := by
    refine ⟨lt_of_item? hentry, ?_⟩
    rw [SymbolTable.aliasTarget?_eq, hentry, Option.bind_some, Item.alias?, hf]
  unfold checkDuplicateFunction at h
  rw [bind_ok hlook] at h
  simp only [hentry, hfunction] at h
  split at h
  · cases h
  · rename_i hnone
    cases h
    refine ⟨rfl, hproper, hself, fun j hj => ?_⟩
    by_cases hji : j = i
    · exact hji ▸ hself
    · have hduplicate : isDuplicateOf s.table f j = false := by
        by_contra htrue
        exact hnone (List.any_eq_true.2 ⟨j, List.mem_filter.2 ⟨hj, by simpa using hji⟩, by simpa using htrue⟩)
      exact onlyFunction_of_isDuplicateOf hduplicate

/-! ## Behind the checks -/

/-- A change of the table that adds no name. -/
theorem change_settles (hP : Lasting P) {g : SymbolTable → SymbolTable}
    (hg : ∀ t : SymbolTable, t.SameNames (g t)) : Preserves (·.table.Settles i scope name P) (change g) :=
  .modify fun s hs => (hg s.table).settles hP hs

theorem newScope_settles (hP : Lasting P) {parent : ScopeId} :
    Preserves (·.table.Settles i scope name P) (newScope parent) := by
  rintro s _ s' hs ⟨⟩
  exact SameNames.newScope.settles hP hs

/-- Another name for the item. -/
theorem bindAlias_settles (hP : Lasting P) {exports : ScopeId} {other : String} {v : Visibility} :
    Preserves (·.table.Settles i scope name P) (bindAlias m exports other i v position) := by
  unfold bindAlias
  refine .bind_look fun t => ?_
  dsimp only
  split
  · exact .pure fun _ => id
  · have hadd : Preserves (·.table.Settles i scope name P) (addItem
        { name := other, scope := exports, module := m, visibility := v, position, entity := .aliasOf i }) := by
      rintro s _ s' hs ⟨⟩
      exact hs.addAlias hP rfl
    split
    · exact .bind .throw fun _ => hadd
    · exact hadd

theorem exportItem_settles (hP : Lasting P) {other : String} :
    Preserves (·.table.Settles i scope name P) (discard (exportItem m other i position)) := by
  unfold exportItem
  exact .discard (.bind_look fun _ => .bind .expect fun _ => bindAlias_settles hP)

theorem registerMember_settles (hP : Lasting P) {cls item : ItemId} {decl : FunctionDef} :
    Preserves (·.table.Settles i scope name P) (registerMember cls item decl) := by
  have hcls : ∀ g : Class → Class, (∀ c, (g c).scope = c.scope) →
      Preserves (·.table.Settles i scope name P) (change (·.modifyClass cls g)) :=
    fun g hg => change_settles hP fun _ => .modifyClass hg
  unfold registerMember
  refine .bind_look fun f => .bind_look fun c => .bind .expect fun entity => ?_
  dsimp only
  split
  · split
    · exact hcls _ fun _ => rfl
    · split
      · exact .bind (hcls _ fun _ => rfl) fun _ =>
          change_settles hP fun _ => .modifyFunction fun _ => rfl
      · exact hcls _ fun _ => rfl
  · split
    · exact .bind .throw fun _ => hcls _ fun _ => rfl
    · exact hcls _ fun _ => rfl
  all_goals exact hcls _ fun _ => rfl

theorem declareVariant_settles {decl : FunctionDef} {canonical : ItemId} {entry : Item} {source : Function}
    {cls : Option ItemId} {kept : Nat} :
    Preserves (·.table.Settles i scope name OnlyFunction)
      (declareVariant decl canonical entry source cls kept) := by
  have hP := lasting_onlyFunction
  unfold declareVariant
  refine .bind (newScope_settles hP) fun own => ?_
  refine .bind (fun s _ s' hs hrun => ?_) fun item => ?_
  · cases hrun
    refine hs.addOwn hP rfl fun item hitem => ?_
    obtain rfl := Option.some.inj ((item?_addItem_self ..).symm.trans hitem)
    rfl
  · refine .bind (change_settles hP fun _ => .setOwner) fun _ => ?_
    refine .bind (change_settles hP fun _ => .modifyFunction fun _ => rfl) fun _ => ?_
    refine .bind (change_settles hP fun _ => .modifyItem fun _ => rfl) fun _ => ?_
    refine .bind (change_settles hP fun _ => .modifyModule) fun _ => ?_
    split
    · exact registerMember_settles hP
    · exact .pure fun _ => id

theorem declareVariants_settles {decl : FunctionDef} {canonical : ItemId} {cls : Option ItemId} :
    Preserves (·.table.Settles i scope name OnlyFunction) (declareVariants decl canonical cls) := by
  unfold declareVariants
  refine .bind_look fun entry => .bind_look fun source => ?_
  split
  · exact .forM fun _ => declareVariant_settles
  · exact .pure fun _ => id

end

end Analysis

/-! ## Declarations -/

namespace Analysis

section

variable {s s' : State} {frame : Frame} {an : Analyst} {scope : ScopeId} {name : String} {i : ItemId}

/-! ### Functions -/

theorem of_discard_ok {α : Type} {x : Analysis α} (h : discard x s = .ok ⟨⟩ s') : ∃ a, x s = .ok a s' := by
  replace h : ((fun _ => PUnit.unit) <$> x) s = .ok ⟨⟩ s' := h
  rw [← bind_pure_comp] at h
  obtain ⟨a, s₁, hx, hpure⟩ := of_bind_ok h
  cases hpure
  exact ⟨a, hx⟩

theorem createFunction_ok {decl : FunctionDef} {cls : Option ItemId} {generics : Nat}
    (hrun : createFunction frame decl scope name cls generics s = .ok i s') :
    ∃ entry f, s'.table.item? i = some entry ∧ entry.entity = .fn f ∧ entry.name = name ∧ entry.scope = scope ∧
      entry.generics = generics ∧ f.variantOf = none := by
  cases hrun
  exact ⟨_, _, item?_addItem_self .., rfl, rfl, rfl, rfl, rfl⟩

theorem declareFunction_clear (han : an.Orderly) {decl : FunctionDef} {cls : Option ItemId}
    (hs : s.Proper) (hd : s.attributes.Loyal)
    (hnew : s.declared.lookup ⟨frame.id, decl.node.id⟩ = none) (hplain : decl.isGeneric = false)
    (hrun : declareFunction an frame decl scope cls s = .ok i s') : s'.table.Clear scope decl.itemName := by
  have hundeclared : declared? frame decl.node s = .ok none s := by
    rw [← hnew]
    rfl
  unfold declareFunction at hrun
  rw [bind_ok hundeclared] at hrun
  dsimp only at hrun
  rw [if_neg (by simp [hplain])] at hrun
  obtain ⟨item, s₁, hcreate, hrest⟩ := of_bind_ok hrun
  obtain ⟨_, s₂, hsignature, hbehind⟩ := of_bind_ok hrest
  obtain ⟨_, s₃, hcheck, htail⟩ := of_bind_ok hbehind
  have h₁ : Course s s₁ := createFunction_orderly.course hs hcreate
  have h₂ : Course s₁ s₂ := (resolveSignature_orderly han).course (h₁.proper hs) hsignature
  -- whatever the signature needs, the function is there when its name is checked
  obtain ⟨entry, f, hentry, hf, hname₁, hin₁, -⟩ := createFunction_ok hcreate
  have hconserves := h₂.conserves (h₁.attributes_eq ▸ hd)
  obtain ⟨entry', f', hentry', hf', hname, hin, -⟩ := hconserves.natures.exists_function hentry hf
  obtain ⟨rfl, hsettles⟩ := checkDuplicateFunction_settles hentry' hf' hcheck
  rw [hname.trans hname₁, hin.trans hin₁] at hsettles
  have hlast : Leads (·.table.Settles item scope decl.itemName OnlyFunction) (do
      recordDeclared frame decl.node item
      return item) fun _ s => s.table.Clear scope decl.itemName :=
    .bind (.modify fun _ => id) fun _ => .pure fun _ => Settles.clear_of_functions
  have hexport : Leads (·.table.Settles item scope decl.itemName OnlyFunction) (do
      if decl.keywords.exported then
        discard <| exportItem frame.module decl.itemName item decl.node.position
      recordDeclared frame decl.node item
      return item) fun _ s => s.table.Clear scope decl.itemName := by
    split
    · exact .bind (exportItem_settles lasting_onlyFunction) fun _ => hlast
    · exact hlast
  have hvariants : Preserves (·.table.Settles item scope decl.itemName OnlyFunction)
      (declareVariants decl item cls) := declareVariants_settles
  replace hvariants := hvariants.bind fun _ => hexport
  cases cls with
  | none => exact hvariants _ i s' hsettles htail
  | some c =>
    exact Leads.bind (registerMember_settles lasting_onlyFunction) (fun _ => hvariants) _ i s' hsettles htail

/-! ### Classes -/

/-- The name is free in the scope, which is there and lists only items that are there. -/
structure Free (t : SymbolTable) (scope : ScopeId) (name : String) : Prop where
  there : (t.scope? scope).isSome = true
  lists : t.ListsItems scope
  free : t.findLocal name scope [] none = []

/-- Something with a scope of its own is declared under a free name, and then come other steps. -/
theorem declareItem_leads {β : Type} {item : ScopeId → Item} {owner : ItemId → ScopeOwner}
    {k : ScopeId → ItemId → Analysis β} {R : β → State → Prop}
    (hitem : ∀ own, (item own).scope = scope ∧ (item own).name = name ∧ (item own).alias? = none)
    (hk : ∀ own i, own ≠ scope →
      Leads (fun s => s.table.ListsItems scope ∧ s.table.SettlesAlone i scope name) (k own i) R) :
    Leads (fun s => Free s.table scope name) (do
      let own ← newScope scope
      let i ← addItem (item own)
      setOwner own (owner i)
      k own i) R := by
  intro s b s' hfree hrun
  have hscopes : newScope scope s = .ok (s.table.newScope scope .block).1
      { s with table := (s.table.newScope scope .block).2 } := rfl
  have hnew : s.table.SameNames (s.table.newScope scope .block).2 := .newScope
  have hne := fst_newScope_ne hfree.there scope .block
  have hlists := hnew.listsItems (congrArg Array.size (items_newScope ..)) hfree.lists
  have hfound : (s.table.newScope scope .block).2.findLocal name scope [] none = [] :=
    List.eq_nil_iff_forall_not_mem.2 fun j hj => by simpa [hfree.free] using hnew.findLocal_subset hj
  rw [bind_ok hscopes] at hrun
  generalize s.table.newScope scope .block = made at hne hlists hfound hrun
  obtain ⟨own, t⟩ := made
  obtain ⟨hscope, hname, halias⟩ := hitem own
  have hsettles : (t.addItem (item own)).2.SettlesAlone ⟨t.items.size⟩ (item own).scope (item own).name :=
    settles_addItem (by rwa [hscope, hname]) halias
  rw [hscope, hname] at hsettles
  exact hk own _ hne _ b s'
    ⟨SameNames.setOwner.listsItems rfl hlists.addItem, SameNames.setOwner.settles (lasting_eq _) hsettles⟩ hrun

theorem declareClassTemplate_settles {decl : ClassDef} :
    Leads (fun s => Free s.table scope decl.name.name) (declareClassTemplate frame decl scope)
      fun i s => s.table.SettlesAlone i scope decl.name.name := by
  unfold declareClassTemplate
  refine declareItem_leads (fun _ => ⟨rfl, rfl, rfl⟩) fun own i _ => ?_
  refine .bind_from (.modify (R := fun s => s.table.SettlesAlone i scope decl.name.name)
    fun s hs => hs.2) fun _ => .bind (fun s _ s' hs hrun => ?_) fun _ => .pure fun _ => id
  show s'.table.Settles ..
  rwa [record_table hrun]

theorem createClass_settles {decl : ClassDef} :
    Leads (fun s => Free s.table scope name) (createClass frame decl scope name)
      fun i s => s.table.SettlesAlone i scope name := by
  unfold createClass
  refine declareItem_leads (fun _ => ⟨rfl, rfl, rfl⟩) fun own i hown => ?_
  have hlast : Leads (fun s => s.table.SettlesAlone i scope name) (do
      modify fun s => { s with classes := (i, ⟨decl, frame, .declared⟩) :: s.classes }
      return i) fun i s => s.table.SettlesAlone i scope name :=
    .bind (.modify fun _ => id) fun _ => .pure fun _ => id
  split
  · refine .bind_from (M := fun _ s => s.table.SettlesAlone i scope name)
      (fun s this s' hs hrun => ?_) fun this => ?_
    · cases hrun
      exact SettlesAlone.addElsewhere hs.2 hs.1 hown
    · exact .bind (change_settles (lasting_eq i) fun _ => .modifyClass fun _ => rfl) fun _ => hlast
  · exact fun s i s' hs => hlast s i s' hs.2

theorem declareClass_clear {decl : ClassDef} (hthere : (s.table.scope? scope).isSome = true)
    (hlists : s.table.ListsItems scope) (hnew : s.declared.lookup ⟨frame.id, decl.node.id⟩ = none)
    (hrun : declareClass frame decl scope s = .ok i s') : s'.table.Clear scope decl.name.name := by
  have hundeclared : declared? frame decl.node s = .ok none s := by
    rw [← hnew]
    rfl
  unfold declareClass at hrun
  rw [bind_ok hundeclared] at hrun
  obtain ⟨_, s₁, hcheck, hrest⟩ := of_bind_ok hrun
  obtain ⟨rfl, hfound⟩ := checkRedeclaration_ok hcheck
  have hfree : Free s₁.table scope decl.name.name := ⟨hthere, hlists, hfound⟩
  have hend : ∀ item, Leads (·.table.SettlesAlone item scope decl.name.name) (do
      let isModuleScope ← look fun t => (t.module? frame.module).any (·.scope == scope)
      if decl.flags.exported && isModuleScope then
        discard <| exportItem frame.module decl.name.name item decl.node.position
      recordDeclared frame decl.node item
      return item) fun _ s => s.table.Clear scope decl.name.name := by
    intro item
    have hlast : Leads (·.table.SettlesAlone item scope decl.name.name) (do
        recordDeclared frame decl.node item
        return item) fun _ s => s.table.Clear scope decl.name.name :=
      .bind (.modify fun _ => id) fun _ => .pure fun _ => SettlesAlone.clear
    refine .bind_look fun isModuleScope => ?_
    split
    · exact .bind (exportItem_settles (lasting_eq item)) fun _ => hlast
    · exact hlast
  dsimp only at hrest
  split at hrest
  · exact declareClassTemplate_settles.bind_from hend s₁ i s' hfree hrest
  · exact createClass_settles.bind_from hend s₁ i s' hfree hrest

/-! ### Variables and aliases -/

theorem addVariable_settles {decl : VariableDecl Expr} {ty : Ty} :
    Leads (fun s => s.table.findLocal decl.name.name scope [] none = []) (addVariable frame decl ty scope)
      fun i s => s.table.SettlesAlone i scope decl.name.name := by
  unfold addVariable
  refine .bind_look fun owner => ?_
  refine .bind_from (M := fun i s => s.table.SettlesAlone i scope decl.name.name)
    (fun s i s' hfree hrun => ?_) fun item => ?_
  · cases hrun
    exact settles_addItem hfree rfl
  · split
    · exact .bind (exportItem_settles (lasting_eq item)) fun _ => .pure fun _ => id
    · exact .pure fun _ => id

theorem predeclareVariable_clear {decl : VariableDecl Expr} (hwritten : decl.ty.isSome = true)
    (hrun : predeclareVariable an frame decl scope s = .ok ⟨⟩ s') : s'.table.Clear scope decl.name.name := by
  obtain ⟨written, hty⟩ := Option.isSome_iff_exists.1 hwritten
  unfold predeclareVariable at hrun
  rw [hty] at hrun
  obtain ⟨ty, s₁, -, hrest⟩ := of_bind_ok hrun
  obtain ⟨_, s₂, hcheck, hadd⟩ := of_bind_ok hrest
  obtain ⟨rfl, hfree⟩ := checkRedeclaration_ok hcheck
  have hrecorded : Leads (fun s => s.table.findLocal decl.name.name scope [] none = []) (do
      let v ← addVariable frame decl ty scope
      recordDeclared frame decl.node v) fun _ s => s.table.Clear scope decl.name.name :=
    addVariable_settles.bind_from fun v => .modify fun _ => SettlesAlone.clear
  exact hrecorded s₂ ⟨⟩ s' hfree hadd

/-- Recording a detail changes nothing else. -/
theorem record_ok {node : Node} {d : Detail} (h : record frame node d s = .ok ⟨⟩ s') :
    ∃ details, s' = { s with details } := by
  have hget : (get : Analysis State) s = .ok s s := rfl
  unfold record at h
  rw [bind_ok hget] at h
  cases hinsert : s.details.insert ⟨frame.id, node.id⟩ d node.position with
  | ok details =>
    rw [hinsert] at h
    cases h
    exact ⟨details, rfl⟩
  | error e =>
    rw [hinsert] at h
    cases h

theorem bindAliasDecl_clear {node : Node} {decl : AliasDecl}
    (hrun : bindAliasDecl frame node decl scope s = .ok ⟨⟩ s') : s'.table.Clear scope (decl.localName?.getD "") := by
  unfold bindAliasDecl at hrun
  obtain ⟨target, s₁, -, hrest⟩ := of_bind_ok hrun
  obtain ⟨name, hname⟩ : ∃ name, decl.localName? = some name := by
    cases hname : decl.localName? with
    | none =>
      rw [hname] at hrest
      cases hrest
    | some name => exact ⟨name, rfl⟩
  rw [hname] at hrest
  rw [hname, Option.getD_some]
  obtain ⟨_, s₂, hcheck, hadd⟩ := of_bind_ok hrest
  obtain ⟨rfl, hfree⟩ := checkRedeclaration_ok hcheck
  obtain ⟨item, s₃, hitem, hdeclare⟩ := of_bind_ok hadd
  obtain ⟨_, s₄, hdeclared, hrecord⟩ := of_bind_ok hdeclare
  obtain ⟨details, rfl⟩ := record_ok hrecord
  cases hitem
  cases hdeclared
  exact clear_addItem hfree

/-! ### Namespaces and bound names -/

/-- Opening a namespace leaves a clear name clear. -/
theorem declareSpace_clear {node : Node} {visibility : Visibility} {own : ScopeId}
    (hthere : (s.table.scope? scope).isSome = true) (hlists : s.table.ListsItems scope)
    (hclear : s.table.Clear scope name)
    (hrun : declareSpace frame node name visibility scope s = .ok own s') : s'.table.Clear scope name := by
  have hlook : look id s = .ok s.table s := rfl
  unfold declareSpace at hrun
  rw [bind_ok hlook] at hrun
  have hlast : ∀ item, Leads (·.table.Clear scope name) (do
      recordDeclared frame node item
      record frame node (.space item)
      expect "namespace without a scope" (← spaceScope? frame node)) fun _ s => s.table.Clear scope name := by
    intro item
    refine .bind (.modify fun _ => id) fun _ => .bind (fun s _ s' hs hrecord => ?_) fun _ => ?_
    · obtain ⟨details, rfl⟩ := record_ok hrecord
      exact hs
    · exact .bind (fun s _ s' hs hread => by cases hread; exact hs) fun _ => .expect
  cases hfound : s.table.findLocal name scope [] none with
  | nil =>
    simp only [hfound] at hrun
    have hcreate : Leads (fun s => Free s.table scope name) (createSpace frame node name visibility scope)
        fun _ s => s.table.Clear scope name :=
      declareItem_leads (fun _ => ⟨rfl, rfl, rfl⟩) fun own i _ => .pure fun _ h => SettlesAlone.clear h.2
    exact hcreate.bind_from hlast s own s' ⟨hthere, hlists, hfound⟩ hrun
  | cons first rest =>
    simp only [hfound] at hrun
    split at hrun
    · exact hlast _ s own s' hclear hrun
    · cases hrun

/-- Binding a name leaves a clear name clear. -/
theorem bindAlias_clear {m : ModuleId} {target : ItemId} {v : Visibility} {position : Position}
    (hclear : s.table.Clear scope name)
    (hrun : bindAlias m scope name target v position s = .ok i s') : s'.table.Clear scope name := by
  have hlook : look id s = .ok s.table s := rfl
  unfold bindAlias at hrun
  rw [bind_ok hlook] at hrun
  dsimp only at hrun
  split at hrun
  · cases hrun
    exact hclear
  · split at hrun
    · cases hrun
    · rename_i hmeans
      cases hrun
      cases hfound : s.table.findLocal name scope [] none with
      | nil => exact clear_addItem hfound
      | cons first rest =>
        -- the name means functions already, and the target is one
        simp [hfound] at hmeans
        refine clear_addAlias_of_isFunction (fun k hk => ?_) hmeans.1 rfl
        rw [hfound] at hk
        simp at hk
        grind

/-! ### Generic functions -/

/-- Something with a scope of its own is found besides all that was found before. -/
theorem declareItem_made {item : ScopeId → Item} {owner : ItemId → ScopeOwner} (hscope : s.HasScope scope)
    (hitem : ∀ own, (item own).scope = scope ∧ (item own).name = name ∧ (item own).alias? = none)
    (hfn : ∀ own f, (item own).entity = .fn f → f.scope = own) :
    ∃ i t, (do
      let own ← newScope scope
      let i ← addItem (item own)
      setOwner own (owner i)
      return i : Analysis ItemId) s = .ok i { s with table := t } ∧
      s.table.Persists t ∧ s.table.items.size ≤ i.index ∧ i ∈ t.findLocal name scope [] none := by
  have hscopes : newScope scope s = .ok (s.table.newScope scope .block).1
      { s with table := (s.table.newScope scope .block).2 } := rfl
  have hnew : s.table.Retains (s.table.newScope scope .block).2 := .newScope
  have hinner := Retains.isInner_newScope s.table scope .block
  obtain ⟨sc, hsc⟩ := hscope
  obtain ⟨sc', hsc', -⟩ := hnew.scopes scope sc hsc
  rw [bind_ok hscopes]
  generalize s.table.newScope scope .block = made at *
  obtain ⟨own, t⟩ := made
  obtain ⟨rfl, rfl, halias⟩ := hitem own
  have hadd : t.Retains (t.addItem (item own)).2 := .addItem fun f hf => hfn own f hf ▸ hinner
  have howner : (t.addItem (item own)).2.Retains ((t.addItem (item own)).2.setOwner own
      (owner ⟨t.items.size⟩)) := .setOwner
  have hproper := isProper_addItem_self (t := t) halias
  exact ⟨_, _, rfl, ((hnew.trans hadd).trans howner).toPersists, hnew.size_le,
    howner.mem_findLocal hproper.there (findLocal_addItem hsc' halias)⟩

/-- A generic function is declared whatever its name means in the scope. If it means something else than
functions, it means two kinds of thing from then on. -/
theorem declareFunction_unclear (an : Analyst) {decl : FunctionDef} {cls : Option ItemId} {j : ItemId}
    {item : Item} (hgeneric : decl.isGeneric = true)
    (hnew : s.declared.lookup ⟨frame.id, decl.node.id⟩ = none)
    (hundetailed : s.details.contains ⟨frame.id, decl.node.id⟩ = false) (hscope : s.HasScope scope)
    (hj : j ∈ s.table.findLocal decl.itemName scope [] none) (hitem : s.table.item? j = some item)
    (hother : item.entity.kind ≠ .fn) :
    ∃ i s', declareFunction an frame decl scope cls s = .ok i s' ∧ ¬ s'.table.Clear scope decl.itemName := by
  have hundeclared : declared? frame decl.node s = .ok none s := by
    rw [← hnew]
    rfl
  obtain ⟨i, t, hmade, hpersists, hlast, hi⟩ : ∃ i t,
      createFunction frame decl scope decl.itemName cls decl.generics.length s = .ok i { s with table := t } ∧
        s.table.Persists t ∧ s.table.items.size ≤ i.index ∧ i ∈ t.findLocal decl.itemName scope [] none :=
    declareItem_made hscope (fun _ => ⟨rfl, rfl, rfl⟩) fun own f hf => by cases hf; rfl
  unfold declareFunction
  rw [bind_ok hundeclared]
  dsimp only
  rw [if_pos hgeneric]
  unfold declareFunctionTemplate
  rw [bind_ok hmade]
  have hrecord : ∀ w : State, w.details = s.details → ∃ details, record frame decl.node
      (.function { function := i, isTemplate := true }) w = .ok ⟨⟩ { w with details } := by
    intro w hw
    have hget : (get : Analysis State) w = .ok w w := rfl
    unfold record
    rw [bind_ok hget, DetailTable.insert, hw, hundetailed]
    exact ⟨_, rfl⟩
  let filed : State :=
    { s with table := t, templates := (i, .fn decl scope frame.module cls) :: s.templates,
             declared := (⟨frame.id, decl.node.id⟩, i) :: s.declared }
  obtain ⟨details, hdetails⟩ := hrecord filed rfl
  refine ⟨i, { filed with details }, bind_ok hdetails, ?_⟩
  have hlt := lt_of_item? hitem
  obtain ⟨item', hitem', hidentity⟩ := hpersists.items j item hitem
  rintro (hfunctions | ⟨k, hk⟩)
  · have hkind := hfunctions j (hpersists.mem_findLocal hlt hj) item' hitem'
    exact hother ((congrArg (·.2.1) hidentity).symm.trans hkind)
  · have hjk : j ∈ [k] := hk ▸ hpersists.mem_findLocal hlt hj
    have hik : i ∈ [k] := hk ▸ hi
    have hij : i = j := (List.mem_singleton.1 hik).trans (List.mem_singleton.1 hjk).symm
    exact absurd (hij ▸ hlast) (Nat.not_le_of_lt hlt)

end

end Analysis

/-! ## Declared names -/

/-- What gives something a name in a scope: a function, also one of a class, a class, a variable, another name for an
item, a namespace, or a name that an import or export binds to an item. -/
inductive Naming where
  | fn (decl : FunctionDef) (owner : Option ItemId)
  | cls (decl : ClassDef)
  | var (decl : VariableDecl Expr)
  | another (node : Node) (decl : AliasDecl)
  | space (node : Node) (name : String) (visibility : Visibility)
  | bound (module : ModuleId) (name : String) (target : ItemId) (visibility : Visibility) (position : Position)

namespace Naming

def name : Naming → String
  | fn decl _ => decl.itemName
  | cls decl => decl.name.name
  | var decl => decl.name.name
  | another _ decl => decl.localName?.getD ""
  | space _ name _ => name
  | bound _ name .. => name

/-- Declare it in a scope. Only a variable with a written type is declared ahead of its use. -/
def declare (an : Analyst) (frame : Frame) (scope : ScopeId) : Naming → Analysis Unit
  | fn decl owner => discard <| Analysis.declareFunction an frame decl scope owner
  | cls decl => discard <| Analysis.declareClass frame decl scope
  | var decl => Analysis.predeclareVariable an frame decl scope
  | another node decl => Analysis.bindAliasDecl frame node decl scope
  | space node name visibility => discard <| Analysis.declareSpace frame node name visibility scope
  | bound module name target visibility position =>
    discard <| Analysis.bindAlias module scope name target visibility position

/-- Functions that are not generic, and classes, have not been declared at their nodes. -/
def IsNew (frame : Frame) (s : State) : Naming → Prop
  | fn decl _ => s.declared.lookup ⟨frame.id, decl.node.id⟩ = none ∧ decl.isGeneric = false
  | cls decl => s.declared.lookup ⟨frame.id, decl.node.id⟩ = none
  | _ => True

/-- The declaration joins what its name means already, or is put off. -/
def joins : Naming → Bool
  | var decl => decl.ty.isNone
  | space .. | bound .. => true
  | _ => false

end Naming

section

variable {s s' : State} {frame : Frame} {scope : ScopeId}

/-- **Clear names.** A declaration that succeeds, generic functions apart, leaves its name clear in its scope. If it
joins what the name means already, the name has to be clear before. -/
theorem declared_name_clear (depth : Nat) (d : Naming) (hs : s.Proper) (hd : s.attributes.Loyal)
    (hthere : (s.table.scope? scope).isSome = true) (hlists : s.table.ListsItems scope) (hnew : d.IsNew frame s)
    (hbefore : d.joins = true → s.table.Clear scope d.name)
    (hrun : d.declare (analyst depth) frame scope s = .ok ⟨⟩ s') : s'.table.Clear scope d.name := by
  cases d with
  | fn decl owner =>
    obtain ⟨j, hfunction⟩ := Analysis.of_discard_ok hrun
    exact Analysis.declareFunction_clear (analyst_orderly depth) hs hd hnew.1 hnew.2 hfunction
  | cls decl =>
    obtain ⟨j, hcls⟩ := Analysis.of_discard_ok hrun
    exact Analysis.declareClass_clear hthere hlists hnew hcls
  | var decl =>
    cases hty : decl.ty with
    | some written => exact Analysis.predeclareVariable_clear (by rw [hty]; rfl) hrun
    | none =>
      have hsame : Analysis.predeclareVariable (analyst depth) frame decl scope s = .ok ⟨⟩ s := by
        unfold Analysis.predeclareVariable
        rw [hty]
        rfl
      cases hsame.symm.trans hrun
      exact hbefore (by simp [Naming.joins, hty])
  | another node decl => exact Analysis.bindAliasDecl_clear hrun
  | space node name visibility =>
    obtain ⟨own, hspace⟩ := Analysis.of_discard_ok hrun
    exact Analysis.declareSpace_clear hthere hlists (hbefore rfl) hspace
  | bound module name target visibility position =>
    obtain ⟨j, halias⟩ := Analysis.of_discard_ok hrun
    exact Analysis.bindAlias_clear (hbefore rfl) halias

end

/-- `var f: int`. -/
def namedVariable : VariableDecl Expr :=
  { node := ⟨.written 1, {}⟩, name := ⟨"f", {}⟩, ty := some { form := .native .int } }

/-- `fn f<..>(x: int) {}`. -/
def namedFunction (generics : List Ident) : FunctionDef :=
  { node := ⟨.written 2, {}⟩, name := ⟨"f", {}⟩, generics
    params := [{ node := ⟨.written 3, {}⟩, name := ⟨"x", {}⟩, ty := { form := .native .int } }]
    body := some ⟨⟨.written 4, {}⟩, []⟩ }

/-- The module has nothing but functions under the name. -/
theorem declared_name_clear_function :
    ∃ s', (Naming.fn (namedFunction []) none).declare (analyst 1) bareFrame ⟨0⟩ bareModuleState = .ok ⟨⟩ s' ∧
      s'.table.Clear ⟨0⟩ "f" := by
  have hgrowing : ({} : Session).attributes.Growing := fun r hr => nomatch hr
  have hloyal : bareModuleState.attributes.Loyal := fun r hr => nomatch hr
  have hproper : bareModuleState.Proper := (Session.proper_start hgrowing).made ..
  have hlists : bareModuleState.table.ListsItems ⟨0⟩ := by
    rintro sc ⟨⟩ j hj
    cases hj
  obtain ⟨s', hrun⟩ : ∃ s', (Naming.fn (namedFunction []) none).declare (analyst 1) bareFrame ⟨0⟩
      bareModuleState = .ok ⟨⟩ s' := ⟨_, rfl⟩
  exact ⟨s', hrun, declared_name_clear 1 (.fn (namedFunction []) none) hproper hloyal rfl hlists ⟨rfl, rfl⟩ nofun
    hrun⟩

/-! ## What is not checked -/

/-- A variable and a function of one name. -/
def sharedName (generics : List Ident) : Root :=
  { statements := [.declare namedVariable, .function (namedFunction generics)] }

/-- With a generic function the analysis ends without an error, and the module has the variable and the function
under the name. Without the generic parameter it fails, since the name is there already. -/
theorem shared_name_unclear :
    (({} : Session).analyseTree (sharedName [⟨"T", {}⟩])).root = .ok ⟨0⟩ ∧
      (({} : Session).analyseTree (sharedName [⟨"T", {}⟩])).isClean = true ∧
      ¬ (({} : Session).analyseTree (sharedName [⟨"T", {}⟩])).state.table.Clear ⟨0⟩ "f" ∧
      (({} : Session).analyseTree (sharedName [])).root =
        .error (.analysis ⟨.duplicateDefinition "f", {}⟩) := by
  refine ⟨by decide +kernel, by decide +kernel, ?_, by decide +kernel⟩
  have hfound : (({} : Session).analyseTree (sharedName [⟨"T", {}⟩])).state.table.findLocal "f" ⟨0⟩ [] none =
      [⟨0⟩, ⟨1⟩] := by decide +kernel
  have hkind : (({} : Session).analyseTree (sharedName [⟨"T", {}⟩])).state.table.kind? ⟨0⟩ = some .var := by
    decide +kernel
  generalize (({} : Session).analyseTree (sharedName [⟨"T", {}⟩])).state.table = t at hfound hkind
  rintro (hfunctions | ⟨i, hi⟩)
  · obtain ⟨item, hitem, hvar⟩ := Option.map_eq_some_iff.1 hkind
    have hfn := hfunctions ⟨0⟩ (by simp [hfound]) item hitem
    cases hvar.symm.trans hfn
  · cases hfound.symm.trans hi

end SemanticAnalysis
