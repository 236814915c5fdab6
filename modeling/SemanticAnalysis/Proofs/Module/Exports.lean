import SemanticAnalysis.Proofs.Course.Programs
import SemanticAnalysis.Proofs.SymbolTable.Lookup

/-!
# What a module exports

A declaration of a module with the word `export` makes one item visible to importers, the one it
declares: it is found under its name in the scope of the module and in its exports scope, and stays so.

1. Making an item lists it in its scope (`Yields.declare`), and exporting one lists it in the exports
   scope (`exportItem_lists`). What is listed stays listed (`Course.lists`).
2. Functions, classes and variables do the first and then the second, with other steps in between.

The item is not all that a function has. The variants with fewer parameters are found in the scope of the
module only, and a generic function is not exported by its declaration at all: the last section has one
of each. An export statement exports what it finds in the scope of the module, and so covers both.
-/

namespace SemanticAnalysis

/-! ## Listed items -/

/-- A scope has an item under a name. -/
structure SymbolTable.Lists (t : SymbolTable) (scope : ScopeId) (name : String) (i : ItemId) : Prop where
  proper : t.IsProper i
  found : i ∈ t.findLocal name scope [] none

theorem SymbolTable.Persists.lists {t u : SymbolTable} (h : t.Persists u) {scope : ScopeId}
    {name : String} {i : ItemId} (hi : t.Lists scope name i) : u.Lists scope name i :=
  ⟨h.isProper hi.proper, h.mem_findLocal hi.proper.there hi.found⟩

section

variable {s₀ s s' : State} {scope : ScopeId} {name : String} {i : ItemId}

theorem Course.lists (h : Course s s') (hd : s.attributes.Discreet) (hi : s.table.Lists scope name i) :
    s'.table.Lists scope name i := (h.persists hd).lists hi

theorem Course.discreet (h : Course s s') (hd : s.attributes.Discreet) : s'.attributes.Discreet :=
  h.attributes_eq ▸ hd

/-- The scope is there. -/
def State.HasScope (s : State) (scope : ScopeId) : Prop := ∃ sc, s.table.scope? scope = some sc

theorem Course.hasScope (h : Course s s') (hd : s.attributes.Discreet) (hs : s.HasScope scope) :
    s'.HasScope scope := by
  obtain ⟨sc, hsc⟩ := hs
  obtain ⟨sc', hsc', -⟩ := (h.persists hd).scopes scope sc hsc
  exact ⟨sc', hsc'⟩

namespace Analysis

/-- A new item is listed in its scope. -/
theorem addItem_lists {item : Item} (hscope : s.HasScope item.scope) (hown : item.alias? = none)
    (hrun : addItem item s = .ok i s') : s'.table.Lists item.scope item.name i := by
  obtain ⟨sc, hsc⟩ := hscope
  cases hrun
  exact ⟨SymbolTable.isProper_addItem_self hown, SymbolTable.findLocal_addItem hsc hown⟩

end Analysis

/-- Something with a scope of its own is declared, and then come other steps. -/
theorem Yields.declare {α : Type} (hd : s₀.attributes.Discreet) (hscope : s₀.HasScope scope)
    {item : ScopeId → Item} {owner : ItemId → ScopeOwner} {k : ScopeId → ItemId → Analysis α}
    {Q : State → α → Prop} (hitem : ∀ own, (item own).scope = scope ∧ (item own).name = name)
    (hown : ∀ own, (item own).alias? = none)
    (hfn : ∀ own f, (item own).entity = .fn f → f.scope = own ∧ f.referenced = [] ∧ f.copied = [])
    (hk : ∀ s own i, Course s₀ s → s.table.Lists scope name i → Yields s (k own i) Q) :
    Yields s₀ (do
      let own ← Analysis.newScope scope
      let i ← Analysis.addItem (item own)
      Analysis.setOwner own (owner i)
      k own i) Q := by
  refine .bind_from Analysis.newScope_orderly fun s own s₁ _ h₀ h₁ hnew => ?_
  have hinner : s₁.table.IsInner own := by
    cases hnew
    exact SymbolTable.Retains.isInner_newScope s.table scope .block
  refine .bind_from (Analysis.addFunction_orderly fun f hf => ⟨(hfn own f hf).1 ▸ hinner, (hfn own f hf).2⟩)
    fun s₂ i s₃ _ h₂ h₃ hadd => ?_
  have h₂ := (h₀.trans h₁).trans h₂
  obtain ⟨hin, hname⟩ := hitem own
  have hlists := Analysis.addItem_lists (hin.symm ▸ h₂.hasScope hd hscope) (hown own) hadd
  rw [hin, hname] at hlists
  have h₃ := h₂.trans h₃
  refine .bind Analysis.setOwner_orderly fun s₄ _ h₄ => ?_
  exact hk s₄ own i (h₃.trans h₄) (h₄.lists (h₃.discreet hd) hlists)

/-! ## Exported items -/

/-- The module and its scopes are there. -/
structure State.HasModule (s : State) (m : ModuleId) (md : Module) : Prop where
  there : ∃ md', s.table.module? m = some md' ∧ md'.scopes = md.scopes
  scope : s.HasScope md.scope
  exports : s.HasScope md.exports

/-- A module has an item under a name, and exports it under that name. -/
structure State.Exposes (s : State) (md : Module) (name : String) (i : ItemId) : Prop where
  inside : s.table.Lists md.scope name i
  outside : s.table.Lists md.exports name i

section

variable {m : ModuleId} {md : Module} {position : Position}

theorem State.Proper.hasModule (hs : s.Proper) (hd : s.attributes.Discreet)
    (hm : s.table.module? m = some md) : s.HasModule m md := by
  have hhouses := (hs.nested hd.steady).modules m md hm
  obtain ⟨scope, hscope, -⟩ := hhouses.scope
  obtain ⟨exports, hexports, -⟩ := hhouses.exports
  exact ⟨⟨md, hm, rfl⟩, ⟨scope, hscope⟩, ⟨exports, hexports⟩⟩

theorem Course.hasModule (h : Course s s') (hd : s.attributes.Discreet) (hm : s.HasModule m md) :
    s'.HasModule m md := by
  obtain ⟨⟨md', hm', heq⟩, hscope, hexports⟩ := hm
  obtain ⟨md'', hm'', heq'⟩ := (h.persists hd).modules m md' hm'
  exact ⟨⟨md'', hm'', heq'.trans heq⟩, h.hasScope hd hscope, h.hasScope hd hexports⟩

theorem Course.exposes (h : Course s s') (hd : s.attributes.Discreet) (hi : s.Exposes md name i) :
    s'.Exposes md name i := ⟨h.lists hd hi.inside, h.lists hd hi.outside⟩

namespace Analysis

/-- An alias that is bound leads to its item, also when something else led there before. -/
theorem bindAlias_lists {v : Visibility} {a : ItemId} (hscope : s.HasScope scope)
    (hi : s.table.IsProper i) (hrun : bindAlias m scope name i v position s = .ok a s') :
    s'.table.Lists scope name i := by
  have hlook : look id s = .ok s.table s := rfl
  unfold bindAlias at hrun
  rw [bind_ok hlook] at hrun
  dsimp only at hrun
  split at hrun
  · rename_i hfound
    cases hrun
    exact ⟨hi, by simpa using hfound⟩
  · split at hrun
    · cases hrun
    · obtain ⟨sc, hsc⟩ := hscope
      cases hrun
      exact ⟨SymbolTable.isProper_addItem hi, SymbolTable.findLocal_addAlias hsc hi rfl⟩

theorem exportItem_lists {a : ItemId} (hm : s.HasModule m md) (hi : s.table.IsProper i)
    (hrun : exportItem m name i position s = .ok a s') : s'.table.Lists md.exports name i := by
  obtain ⟨⟨md', hm', heq⟩, -, hexports⟩ := hm
  have hlook : look (·.module? m) s = .ok (some md') s := by
    rw [← hm']
    rfl
  have hbind : exportItem m name i position s =
      bindAlias m md'.exports name i .everyone position s := bind_ok hlook
  rw [hbind, (Prod.mk.inj heq).2] at hrun
  exact bindAlias_lists hexports hi hrun

end Analysis

/-- An item of the module is exported, and then come other steps that give it. -/
theorem Yields.exported (hd : s₀.attributes.Discreet) (hm : s₀.HasModule m md)
    (hin : s₀.table.Lists md.scope name i) {f : Unit → Analysis ItemId} (hf : ∀ s, Orderly s (f ⟨⟩))
    (hgives : Analysis.Returns (f ⟨⟩) (· = i)) :
    Yields s₀ (discard (Analysis.exportItem m name i position) >>= f)
      fun s a => s.Exposes md name a := by
  have hbind : discard (Analysis.exportItem m name i position) >>= f =
      Analysis.exportItem m name i position >>= fun _ => f ⟨⟩ := bind_map_left ..
  rw [hbind]
  refine .bind_from Analysis.exportItem_orderly fun s _ s₁ _ h₀ h₁ hexport => ?_
  have hin' := h₀.lists hd hin
  have hexposes : s₁.Exposes md name i :=
    ⟨h₁.lists (h₀.discreet hd) hin',
      Analysis.exportItem_lists (h₀.hasModule hd hm) hin'.proper hexport⟩
  intro s₂ a s₃ hs₂ h₂ hrun
  have h₃ := hf s₁ s₂ hs₂ h₂
  rw [Analysis.behind, hrun] at h₃
  rw [hgives s₂ a s₃ hrun]
  exact (h₂.trans h₃).exposes ((h₀.trans h₁).discreet hd) hexposes

end

end

/-! ## Declarations -/

/-- What a module can declare and export at once. The type of a variable is known when it is declared. -/
inductive Declaration where
  | fn (decl : FunctionDef)
  | cls (decl : ClassDef)
  | var (decl : VariableDecl Expr) (ty : Ty)

namespace Declaration

def node : Declaration → Node
  | fn decl => decl.node
  | cls decl => decl.node
  | var decl _ => decl.node

def name : Declaration → String
  | fn decl => decl.itemName
  | cls decl => decl.name.name
  | var decl _ => decl.name.name

/-- The word `export` is there, and not on a generic function. -/
def isExported : Declaration → Bool
  | fn decl => decl.keywords.exported && !decl.isGeneric
  | cls decl => decl.flags.exported
  | var decl _ => decl.isExport

/-- Declare it in a scope. -/
def declare (an : Analyst) (frame : Frame) (scope : ScopeId) : Declaration → Analysis ItemId
  | fn decl => Analysis.declareFunction an frame decl scope none
  | cls decl => Analysis.declareClass frame decl scope
  | var decl ty => Analysis.addVariable frame decl ty scope

end Declaration

section

variable {s₀ s s' : State} {an : Analyst} {frame : Frame} {md : Module} {scope : ScopeId} {name : String}
variable {i : ItemId}

namespace Analysis

theorem createFunction_lists {decl : FunctionDef} {cls : Option ItemId} {generics : Nat}
    (hd : s₀.attributes.Discreet) (hscope : s₀.HasScope scope) :
    Yields s₀ (createFunction frame decl scope name cls generics)
      fun s i => s.table.Lists scope name i := by
  unfold createFunction
  refine .declare hd hscope (fun _ => ⟨rfl, rfl⟩) (fun _ => rfl) (fun own f hf => ?_) fun s own i h₀ hi => ?_
  · cases hf
    exact ⟨rfl, rfl, rfl⟩
  · exact .pure fun s' h₁ => h₁.lists (h₀.discreet hd) hi

theorem declareFunction_exposes (han : an.Orderly) {decl : FunctionDef} (hs : s.Proper)
    (hd : s.attributes.Discreet) (hm : s.HasModule frame.module md)
    (hnew : s.declared.lookup ⟨frame.id, decl.node.id⟩ = none) (hexported : decl.keywords.exported = true)
    (hplain : decl.isGeneric = false)
    (hrun : declareFunction an frame decl md.scope none s = .ok i s') :
    s'.Exposes md decl.itemName i := by
  have hundeclared : declared? frame decl.node s = .ok none s := by
    rw [← hnew]
    rfl
  unfold declareFunction at hrun
  rw [bind_ok hundeclared] at hrun
  dsimp only at hrun
  rw [if_neg (by simp [hplain])] at hrun
  refine (?_ : Yields s _ fun s a => s.Exposes md decl.itemName a) s i s' hs (.refl s) hrun
  refine .bind_yields createFunction_orderly (createFunction_lists hd hm.scope) fun s₁ item hmade hin => ?_
  refine .bind (resolveSignature_orderly han) fun s₂ _ h₂ => ?_
  refine .bind checkDuplicateFunction_orderly fun s₃ _ h₃ => ?_
  refine .bind declareVariants_orderly fun s₄ _ h₄ => ?_
  have hlater := (h₂.trans h₃).trans h₄
  have hcourse := hmade.trans hlater
  rw [if_pos hexported]
  exact .exported (hcourse.discreet hd) (hcourse.hasModule hd hm) (hlater.lists (hmade.discreet hd) hin)
    (fun _ => .bind recordDeclared_orderly fun _ => .pure) (.bind fun _ => .pure rfl)

/-- Recording a detail leaves the table alone. -/
theorem record_table {node : Node} {d : Detail} (hrun : record frame node d s = .ok ⟨⟩ s') :
    s'.table = s.table := by
  have hget : (get : Analysis State) s = .ok s s := rfl
  unfold record at hrun
  rw [bind_ok hget] at hrun
  cases hinsert : s.details.insert ⟨frame.id, node.id⟩ d node.position with
  | ok details =>
    rw [hinsert] at hrun
    cases hrun
    rfl
  | error e =>
    rw [hinsert] at hrun
    cases hrun

theorem declareClassTemplate_lists {decl : ClassDef} (hd : s₀.attributes.Discreet)
    (hscope : s₀.HasScope scope) :
    Yields s₀ (declareClassTemplate frame decl scope)
      fun s i => s.table.Lists scope decl.name.name i := by
  unfold declareClassTemplate
  refine .declare hd hscope (fun _ => ⟨rfl, rfl⟩) (fun _ => rfl) (by simp) fun s own i h₀ hi => ?_
  -- filing a template is orderly only together with the item it belongs to, so it is followed by hand
  intro s₁ a s₂ _ h₁ hrun
  have hlists := h₁.lists (h₀.discreet hd) hi
  let filed : State := { s₁ with templates := (i, .cls decl scope frame.module) :: s₁.templates }
  replace hrun : (record frame decl.node (.cls { cls := i, isTemplate := true }) >>= fun _ =>
      return i : Analysis ItemId) filed = .ok a s₂ := hrun
  cases hrecord : record frame decl.node (.cls { cls := i, isTemplate := true }) filed with
  | ok _ s₃ =>
    cases (bind_ok hrecord).symm.trans hrun
    rw [record_table hrecord]
    exact hlists
  | error e s₃ => cases (bind_error hrecord).symm.trans hrun

theorem createClass_lists {decl : ClassDef} (hd : s₀.attributes.Discreet)
    (hscope : s₀.HasScope scope) :
    Yields s₀ (createClass frame decl scope name) fun s i => s.table.Lists scope name i := by
  unfold createClass
  refine .declare hd hscope (fun _ => ⟨rfl, rfl⟩) (fun _ => rfl) (by simp) fun s own i h₀ hi => ?_
  have hlast : ∀ s', Course s s' → Yields s' (do
      modify fun s => { s with classes := (i, ⟨decl, frame, .declared⟩) :: s.classes }
      return i) fun s i => s.table.Lists scope name i := by
    intro s' h₁
    refine .bind (.alter fun s => { State.Ordinary.refl s with }) fun s₂ _ h₂ => .pure fun s₃ h₃ => ?_
    exact ((h₁.trans h₂).trans h₃).lists (h₀.discreet hd) hi
  split
  · refine .bind (addItem_orderly (by simp)) fun s₁ this h₁ => ?_
    exact .bind (change_orderly fun _ => .modifyClass fun _ => rfl) fun s₂ _ h₂ => hlast s₂ (h₁.trans h₂)
  · exact hlast s (.refl s)

theorem declareClass_exposes {decl : ClassDef} (hs : s.Proper)
    (hd : s.attributes.Discreet) (hm : s.HasModule frame.module md)
    (hnew : s.declared.lookup ⟨frame.id, decl.node.id⟩ = none) (hexported : decl.flags.exported = true)
    (hrun : declareClass frame decl md.scope s = .ok i s') :
    s'.Exposes md decl.name.name i := by
  have hundeclared : declared? frame decl.node s = .ok none s := by
    rw [← hnew]
    rfl
  unfold declareClass at hrun
  rw [bind_ok hundeclared] at hrun
  dsimp only at hrun
  refine (?_ : Yields s _ fun s a => s.Exposes md decl.name.name a) s i s' hs (.refl s) hrun
  refine .bind checkRedeclaration_orderly fun s₁ _ h₁ => ?_
  have hlast : ∀ s₂ item, Course s s₂ → s₂.table.Lists md.scope decl.name.name item → Yields s₂ (do
      let isModuleScope ← look fun t => (t.module? frame.module).any (·.scope == md.scope)
      if decl.flags.exported && isModuleScope then
        discard <| exportItem frame.module decl.name.name item decl.node.position
      recordDeclared frame decl.node item
      return item) fun s a => s.Exposes md decl.name.name a := by
    intro s₂ item h₂ hin
    refine .bind_from look_orderly fun s₃ isModuleScope s₄ _ h₃ h₄ hlook => ?_
    have hin' := (h₃.trans h₄).lists (h₂.discreet hd) hin
    have h₃ := h₂.trans h₃
    obtain ⟨md', hmd', hscopes⟩ := (h₃.hasModule hd hm).there
    have hscope : isModuleScope = true := by
      cases hlook
      simp [hmd', (Prod.mk.inj hscopes).1]
    have hcourse := h₃.trans h₄
    rw [if_pos (by simp [hexported, hscope])]
    exact .exported (hcourse.discreet hd) (hcourse.hasModule hd hm) hin'
      (fun _ => .bind recordDeclared_orderly fun _ => .pure) (.bind fun _ => .pure rfl)
  have hd₁ := h₁.discreet hd
  have hscope := h₁.hasScope hd hm.scope
  split
  · exact .bind_yields declareClassTemplate_orderly (declareClassTemplate_lists hd₁ hscope)
      fun s₂ item h₂ hin => hlast s₂ item (h₁.trans h₂) hin
  · exact .bind_yields createClass_orderly (createClass_lists hd₁ hscope)
      fun s₂ item h₂ hin => hlast s₂ item (h₁.trans h₂) hin

theorem addVariable_exposes {decl : VariableDecl Expr} {ty : Ty} (hs : s.Proper)
    (hd : s.attributes.Discreet) (hm : s.HasModule frame.module md) (hexported : decl.isExport = true)
    (hrun : addVariable frame decl ty md.scope s = .ok i s') :
    s'.Exposes md decl.name.name i := by
  refine (?_ : Yields s _ fun s a => s.Exposes md decl.name.name a) s i s' hs (.refl s) hrun
  unfold addVariable
  refine .bind look_orderly fun s₁ owner h₁ => ?_
  refine .bind_from (addItem_orderly (by simp)) fun s₂ item s₃ _ h₂ h₃ hadd => ?_
  have hcourse := h₁.trans h₂
  have hlists := addItem_lists (hcourse.hasScope hd hm.scope) rfl hadd
  have hcourse' := hcourse.trans h₃
  rw [if_pos hexported]
  exact .exported (hcourse'.discreet hd) (hcourse'.hasModule hd hm) hlists (fun _ => .pure) (.pure rfl)

end Analysis

/-- **Exports.** A declaration with the word `export`, generic functions apart, exposes the item that it
declares: from then on the module has it under its name, and exports it under that name. -/
theorem exported_declaration_exposed (depth : Nat) (d : Declaration) (hs : s.Proper)
    (hd : s.attributes.Discreet) (hm : s.table.module? frame.module = some md)
    (hnew : s.declared.lookup ⟨frame.id, d.node.id⟩ = none) (hexported : d.isExported = true)
    (hrun : d.declare (analyst depth) frame md.scope s = .ok i s') {later : State}
    (hlater : Course s' later) : later.Exposes md d.name i := by
  have hmodule := hs.hasModule hd hm
  have hdeclares : Orderly s (d.declare (analyst depth) frame md.scope) := by
    cases d with
    | fn decl => exact Analysis.declareFunction_orderly (analyst_orderly depth)
    | cls decl => exact Analysis.declareClass_orderly
    | var decl ty => exact Analysis.addVariable_orderly
  have hcourse := hdeclares s hs (.refl s)
  rw [Analysis.behind, hrun] at hcourse
  refine hlater.exposes (hcourse.discreet hd) ?_
  cases d with
  | fn decl =>
    obtain ⟨hword, hplain⟩ := Bool.and_eq_true_iff.1 hexported
    exact Analysis.declareFunction_exposes (analyst_orderly depth) hs hd hmodule hnew hword
      (by simpa using hplain) hrun
  | cls decl => exact Analysis.declareClass_exposes hs hd hmodule hnew hexported hrun
  | var decl ty => exact Analysis.addVariable_exposes hs hd hmodule hexported hrun

end

/-- `export v: int`. -/
def exportedVariable : Declaration :=
  .var { node := ⟨.written 1, {}⟩, name := ⟨"v", {}⟩, isExport := true } .int

/-- A module without code, in a state that has just made it. -/
def bareModule : Module :=
  { id := ⟨0⟩, name := "m", path := "m.tsr", package := "", scope := ⟨0⟩, exports := ⟨1⟩ }

def bareModuleState : State := ({} : Session).start.made "m" "m.tsr" ""

def bareFrame : Frame := ⟨⟨0⟩, ⟨0⟩⟩

theorem exported_declaration_exposed_variable :
    ∃ i s', exportedVariable.declare (analyst 1) bareFrame bareModule.scope bareModuleState = .ok i s' ∧
      s'.Exposes bareModule "v" i := by
  have hgrowing : ({} : Session).attributes.Growing := fun r hr => nomatch hr
  have hdiscreet : bareModuleState.attributes.Discreet := fun r hr => nomatch hr
  have hproper : bareModuleState.Proper := (Session.proper_start hgrowing).made ..
  have hmodule : bareModuleState.table.module? bareFrame.module = some bareModule := rfl
  obtain ⟨s', hrun⟩ : ∃ s', exportedVariable.declare (analyst 1) bareFrame bareModule.scope
      bareModuleState = .ok ⟨0⟩ s' := ⟨_, rfl⟩
  exact ⟨⟨0⟩, s', hrun,
    exported_declaration_exposed 1 exportedVariable hproper hdiscreet hmodule rfl rfl hrun (.refl s')⟩

/-! ## What is left out -/

/-- `export fn f(a: int = 1) {}` and `export fn g<T>(a: T) {}`. -/
def exportedFunctions : Request :=
  .tree
    { statements :=
        [.function
          { node := ⟨.written 1, {}⟩, name := ⟨"f", {}⟩, keywords := { exported := true }
            params :=
              [{ node := ⟨.written 2, {}⟩, name := ⟨"a", {}⟩, ty := { form := .native .int }
                 defaultValue := some (.literal ⟨.written 3, {}⟩ (.int 1)) }]
            body := some ⟨⟨.written 4, {}⟩, []⟩ },
         .function
          { node := ⟨.written 5, {}⟩, name := ⟨"g", {}⟩, keywords := { exported := true }
            generics := [⟨"T", {}⟩]
            params :=
              [{ node := ⟨.written 6, {}⟩, name := ⟨"a", {}⟩
                 ty := { form := .named [⟨"T", {}⟩] [] } }]
            body := some ⟨⟨.written 7, {}⟩, []⟩ }] }
    Session.rootName Session.rootPath ""

/-- What the first module has under a name, and what it exports under it. -/
def SymbolTable.scopesUnder (t : SymbolTable) (name : String) : Option (List ItemId × List ItemId) :=
  (t.module? ⟨0⟩).map fun m => (t.findLocal name m.scope [] none, t.findLocal name m.exports [] none)

/-- The analysis ends without an error. The module has `f` in two variants and exports one; it has `g` and
does not export it. -/
theorem exported_functions_incomplete :
    (exportedFunctions.next ({} : Session).start).errors = [] ∧
      (exportedFunctions.next ({} : Session).start).analysed = [⟨0⟩] ∧
      (exportedFunctions.next ({} : Session).start).table.scopesUnder "f" = some ([⟨0⟩, ⟨2⟩], [⟨0⟩]) ∧
      (exportedFunctions.next ({} : Session).start).table.scopesUnder "g" = some ([⟨4⟩], []) := by
  decide +kernel

end SemanticAnalysis
