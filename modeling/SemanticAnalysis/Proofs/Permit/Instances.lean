import SemanticAnalysis.Proofs.Permit.Demands
import SemanticAnalysis.Proofs.SymbolTable.Lookup

/-!
# Functions and instances pay

Effects, names and attributes take nothing. A function is declared with the permits of its node and of its
parameters. An instance comes with a frame of its own, whose permits pay for its head; what its bodies take
waits with it.
-/

namespace SemanticAnalysis.Analysis

variable {α : Type} {frame : Frame} {node : Node} {scope : ScopeId}
variable {position : Position} {an : Analyst} {s : State} {held : Holding}

/-! ## Errors and captures -/

@[grind ←] theorem raise_quiet {ty : Ty} : Quiet (raise scope ty) := .alter fun _ => .of_table .raise

@[grind ←] theorem linkThrows_quiet {callee : ItemId} : Quiet (linkThrows callee scope) :=
  .alter fun _ => { State.Steady.of_table .link with }

@[grind ←] theorem noteCapture_quiet {item : ItemId} : Quiet (noteCapture item scope) := by
  unfold noteCapture
  refine .bind look_quiet fun v => ?_
  split
  · exact .pure
  · exact change_quiet fun _ => .captureAlong

@[grind ←] theorem addCapturedMember_quiet {module : ModuleId} {item : ItemId} :
    Quiet (addCapturedMember scope module position item) := by
  unfold addCapturedMember
  grind

@[grind ←] theorem makeCaptureHolder_quiet {lambda : ItemId} {entry : Item} {own : ScopeId}
    {captured : List ItemId} : Quiet (makeCaptureHolder lambda entry own captured) := by
  unfold makeCaptureHolder
  refine .bind newScope_quiet fun holderScope => .bind addItem_quiet fun holder => ?_
  refine .bind setOwner_quiet fun _ => ?_
  refine .bind (.filterMapM fun _ => addCapturedMember_quiet) fun members => ?_
  refine .bind (change_quiet fun _ => .modifyClass) fun _ => ?_
  refine .bind (change_quiet fun _ => .modifyFunction) fun _ => ?_
  refine .bind (change_quiet fun _ => .modifyItem fun _ => rfl) fun _ => ?_
  exact change_quiet fun _ => .modifyModule

@[grind ←] theorem sealCaptures_quiet {lambda : ItemId} : Quiet (sealCaptures lambda) := by
  unfold sealCaptures
  grind

@[grind ←] theorem runDeferred_quiet {d : Deferred} : Quiet (runDeferred d) := by
  cases d with
  | surfaceErrors callee site => exact .alter fun _ => .of_table .run
  | sealCaptures lambda => exact sealCaptures_quiet

@[grind ←] theorem finishFunction_quiet {item : ItemId} : Quiet (finishFunction item) := by
  unfold finishFunction
  grind

@[grind ←] theorem sealWhenDone_quiet {lambda : ItemId} : Quiet (sealWhenDone lambda scope) := by
  unfold sealWhenDone
  grind

/-! ## Names -/

@[grind ←] theorem missingName_quiet {name : String} {exclude : List EntityKind} :
    Quiet (missingName name scope exclude position : Analysis α) := by
  unfold missingName
  grind

@[grind ←] theorem followPath_quiet {exclude : List EntityKind} {current : ItemId}
    {walked rest : List Ident} :
    Quiet (followPath scope exclude position current walked rest) := by
  induction rest generalizing current walked with
  | nil => exact .pure
  | cons segment rest ih =>
    unfold followPath
    grind

@[grind ←] theorem resolvePath_quiet {path : List Ident} {exclude : List EntityKind} :
    Quiet (resolvePath path scope exclude position) := by
  unfold resolvePath
  grind

@[grind ←] theorem checkRedeclaration_quiet {name : String} :
    Quiet (checkRedeclaration name scope position) := by
  unfold checkRedeclaration
  grind

@[grind ←] theorem bindAlias_quiet {module : ModuleId} {name : String} {target : ItemId}
    {v : Visibility} : Quiet (bindAlias module scope name target v position) := by
  unfold bindAlias
  grind

@[grind ←] theorem exportItem_quiet {module : ModuleId} {name : String} {target : ItemId} :
    Quiet (exportItem module name target position) := by
  unfold exportItem
  grind

/-! ## Uses -/

@[grind ←] theorem checkAssignable_quiet {value : Expr} {src dst : Ty} :
    Quiet (checkAssignable frame value src dst position) := by
  unfold checkAssignable
  grind

@[grind ←] theorem attributeValue_quiet (han : an.Sparing) {a : AttributeArgument Expr} :
    Quiet (attributeValue an frame scope position a) := by
  unfold attributeValue
  split
  · exact .map (type_quiet han)
  · exact .pure
  · refine .bind look_quiet fun found => ?_
    cases found with
    | nil => exact missingName_quiet
    | cons item rest => exact .pure
  · exact failOther_quiet

@[grind ←] theorem applyAttribute_quiet (han : an.Sparing) {subject : Subject}
    {a : Attribute Expr} : Quiet (applyAttribute an frame subject node scope a) := by
  intro s held hs
  have hread (f : State → Analysis Unit) : (MonadState.get >>= f) s = f s s := rfl
  unfold applyAttribute
  rw [hread]
  dsimp only
  cases hfind : s.attributes.find? (pathText a.path) subject.target frame.module with
  | none => exact Quiet.pure s held hs
  | some found =>
    obtain ⟨registration, index⟩ := found
    have hkeeps := hs.attributes registration (AttributeTable.mem_of_find? hfind)
    refine Quiet.bind (.mapM fun _ => attributeValue_quiet han) (fun arguments => ?_) s held hs
    refine .bind (.alter fun s => { State.Steady.refl s with }) fun _ => ?_
    refine .bind (make_quiet (hkeeps _)) fun outcome => ?_
    grind

@[grind ←] theorem applyAttributes_quiet (han : an.Sparing) {subject : Subject}
    {attributes : List (Attribute Expr)} :
    Quiet (applyAttributes an frame attributes subject node scope) :=
  .forM fun _ => applyAttribute_quiet han

/-! ## Signatures -/

/-- Declaring something with a scope of its own gives a new item, a template if it is to be one. -/
theorem declare_gives (s : State) (scope : ScopeId) (item : ScopeId → Item)
    (owner : ItemId → ScopeOwner) :
    ∃ (own : ScopeId) (i : ItemId) (s' : State),
      (∀ {β : Type} (k : ScopeId → ItemId → Analysis β),
        (do
          let own ← newScope scope
          let i ← addItem (item own)
          setOwner own (owner i)
          k own i) s = k own i s') ∧
      s.Steady s' ∧ s.table.items.size ≤ i.index ∧ i.index < s'.table.items.size ∧
        s'.table.isGeneric i = (item own).isGeneric := by
  let made := s.table.newScope scope .block
  let added := made.2.addItem (item made.1)
  have hmade : s.table.KeepsTemplates made.2 := .newScope
  have hadded : made.2.KeepsTemplates added.2 := .addItem
  have howned : added.2.KeepsTemplates (added.2.setOwner made.1 (owner added.1)) := .setOwner
  refine ⟨made.1, added.1, _, fun k => rfl, .of_table ((hmade.trans hadded).trans howned), ?_, ?_, ?_⟩
  · exact hmade.size_le
  · show added.1.index < added.2.items.size
    rw [SymbolTable.size_addItem]
    exact Nat.lt_succ_self _
  · show ((made.2.addItem (item made.1)).2.item? (made.2.addItem (item made.1)).1).any _ = _
    rw [SymbolTable.item?_addItem_self]
    rfl

/-- The step gives what is declared at a node. -/
def Declares (k : DetailKey) (x : Analysis ItemId) : Prop :=
  ∀ s item s', x s = .ok item s' → (k, item) ∈ s'.declared

namespace Declares

variable {k : DetailKey} {β : Type} {x : Analysis β} {f : β → Analysis ItemId}

theorem bind (hf : ∀ a, Declares k (f a)) : Declares k (x >>= f) := by
  intro s item s' hrun
  cases hx : x s with
  | ok a s₁ =>
    rw [bind_ok hx] at hrun
    exact hf a s₁ item s' hrun
  | error e s₁ =>
    rw [bind_error hx] at hrun
    cases hrun

/-- What is declared already is given back. -/
theorem unless_known {f : Option ItemId → Analysis ItemId} (hknown : ∀ i, f (some i) = pure i)
    (hf : Declares ⟨frame.id, node.id⟩ (f none)) :
    Declares ⟨frame.id, node.id⟩ (declared? frame node >>= f) := by
  intro s item s' hrun
  have hread : (declared? frame node >>= f) s = f (s.declared.lookup ⟨frame.id, node.id⟩) s := rfl
  rw [hread] at hrun
  cases hlookup : s.declared.lookup ⟨frame.id, node.id⟩ with
  | none => exact hf s item s' (hlookup ▸ hrun)
  | some i =>
    rw [hlookup, hknown] at hrun
    cases hrun
    exact mem_of_lookup hlookup

/-- The item is declared last. -/
theorem last {item : ItemId} : Declares ⟨frame.id, node.id⟩ (do
    recordDeclared frame node item
    return item) := by
  intro s i s' hrun
  cases hrun
  exact List.mem_cons_self

/-- The detail of the node is recorded last. -/
theorem recorded {item : ItemId} {d : Detail} : Declares ⟨frame.id, node.id⟩ (do
    recordDeclared frame node item
    record frame node d
    return item) := by
  intro s i s' hrun
  let s₁ : State := { s with declared := (⟨frame.id, node.id⟩, item) :: s.declared }
  change (record frame node d >>= fun _ => pure item) s₁ = .ok i s' at hrun
  have hrecord := record_eq frame node d s₁
  cases hinsert : s₁.details.insert ⟨frame.id, node.id⟩ d node.position with
  | ok details =>
    rw [hinsert] at hrecord
    rw [bind_ok hrecord] at hrun
    cases hrun
    exact List.mem_cons_self
  | error e =>
    rw [hinsert] at hrecord
    rw [bind_error hrecord] at hrun
    cases hrun

end Declares

section Signatures

variable {decl : FunctionDef} {cls : Option ItemId} {item : ItemId}

theorem createFunction_gives (s : State) (frame : Frame) (decl : FunctionDef) (scope : ScopeId)
    (name : String) (cls : Option ItemId) (generics : Nat) : ∃ item s',
      createFunction frame decl scope name cls generics s = .ok item s' ∧ s.Steady s' ∧
        s'.table.isGeneric item = decide (0 < generics) := by
  unfold createFunction
  obtain ⟨own, i, s', hrun, hsteady, -, -, hgeneric⟩ := declare_gives s scope _ _
  exact ⟨i, s', hrun fun _ i => pure i, hsteady, hgeneric⟩

@[grind ←] theorem createFunction_quiet {name : String} {generics : Nat} :
    Quiet (createFunction frame decl scope name cls generics) := by
  unfold createFunction
  grind

theorem bindParameter_spends (han : an.Sparing) {written : List (Param Expr)} {function : ItemId}
    {p : Param Expr} {index : Nat} :
    Spends (DetailKey.declaring ⟨frame.id, p.node.id⟩)
      (bindParameter an frame written function scope p index) := by
  unfold bindParameter
  refine .guard (fail_quiet (by simp)) (.after (type_quiet han) fun ty => ?_)
  exact .after addItem_quiet fun item => recordDeclared_spends.before fun _ => .pure

theorem bindParameters_spends (han : an.Sparing) {written : List (Param Expr)} {function : ItemId} :
    Spends (written.map fun p => DetailKey.declaring ⟨frame.id, p.node.id⟩).sum
      (bindParameters an frame written function scope) := by
  have hrow : (written.zipIdx.map fun p => DetailKey.declaring ⟨frame.id, p.1.node.id⟩) =
      written.map fun p => DetailKey.declaring ⟨frame.id, p.node.id⟩ := by
    conv_rhs => rw [← List.zipIdx_map_fst 0 written, List.map_map]
    rfl
  unfold bindParameters
  rw [← hrow]
  refine .before (.mapM fun a _ => ?_) fun _ => .pure
  exact bindParameter_spends han

@[grind ←] theorem resultType_quiet (han : an.Sparing) :
    Quiet (resultType an frame decl scope cls) := by
  unfold resultType
  split
  · exact .pure
  · exact .pure
  · exact .pure
  · cases decl.returnType with
    | none => exact .pure
    | some t => exact type_quiet han

@[grind ←] theorem generatorParameter_quiet (han : an.Sparing) :
    Quiet (generatorParameter an frame decl scope) := by
  unfold generatorParameter
  grind

theorem resolveSignature_spends (han : an.Sparing) :
    Spends (decl.params.map fun p => DetailKey.declaring ⟨frame.id, p.node.id⟩).sum
      (resolveSignature an frame decl item cls) := by
  unfold resolveSignature
  refine .after look_quiet fun known => .after expect_quiet fun f => ?_
  refine .before (bindParameters_spends han) fun bound => .bind (resultType_quiet han) fun result => ?_
  refine .bind (generatorParameter_quiet han) fun sent => .bind look_quiet fun now => ?_
  exact .bind expect_quiet fun _ => change_quiet fun _ => .modifyFunction

@[grind ←] theorem checkDuplicateFunction_quiet : Quiet (checkDuplicateFunction item position) := by
  unfold checkDuplicateFunction
  grind

@[grind ←] theorem registerMember_quiet {c : ItemId} : Quiet (registerMember c item decl) :=
  registerMember_of .bind look_quiet expect_quiet (fail_quiet (by simp))
    (fun _ _ => change_quiet fun _ => .modifyClass) fun _ _ => change_quiet fun _ => .modifyFunction

@[grind ←] theorem declareVariant_quiet {canonical : ItemId} {entry : Item} {source : Function}
    {kept : Nat} : Quiet (declareVariant decl canonical entry source cls kept) := by
  unfold declareVariant
  refine .bind newScope_quiet fun own => .bind addItem_quiet fun item => ?_
  refine .bind setOwner_quiet fun _ => .bind (change_quiet fun _ => .modifyFunction) fun _ => ?_
  grind

@[grind ←] theorem declareVariants_quiet {canonical : ItemId} :
    Quiet (declareVariants decl canonical cls) := by
  unfold declareVariants
  grind

/-- A template is filed by somebody who holds its nodes, and has no ordinary item at its own. -/
theorem declareFunctionTemplate_spends (hgeneric : decl.isGeneric = true) :
    Spends (decl.declareCost frame.id) (declareFunctionTemplate frame decl scope cls) := by
  intro s held hs
  obtain ⟨item, s₁, hcreated, hsteady, hitem⟩ := createFunction_gives s frame decl scope decl.itemName
    cls decl.generics.length
  have hitem : s₁.table.isGeneric item = true := by
    rw [hitem]
    cases hlist : decl.generics with
    | nil => simp [FunctionDecl.isGeneric, hlist] at hgeneric
    | cons g rest => simp
  let k : DetailKey := ⟨frame.id, decl.node.id⟩
  let s₂ : State :=
    { s₁ with templates := (item, .fn decl scope frame.module cls) :: s₁.templates }
  have hcost : decl.declareCost frame.id =
      permits frame.id (Stmt.functionIds decl) - k.permit .ordinary := if_pos hgeneric
  have hs₂ : s₂.Accounts (decl.declareCost frame.id + held) := by
    refine (hsteady.accounts hs).fileTemplate (f := frame.id) fun n => ?_
    rw [hcost]
    simp [Template.ids, k, DetailKey.permit]
  have hpaid : s₂.Accounts (k.permit .declare + k.permit .bodies +
      (if s₂.table.isGeneric item then 0 else k.permit .ordinary) + (k.permit .detail + held)) := by
    rw [if_pos hitem]
    refine hs₂.of_le fun p => ?_
    rw [hcost, Stmt.functionIds_eq, permits_cons]
    simp only [k, DetailKey.all, DetailKey.declaring, Pi.add_apply, Pi.sub_apply, Pi.zero_apply]
    omega
  have hfiled : s₁.Continues s₂ :=
    { State.Continues.refl s₁ with templates := fun _ h => List.mem_cons_of_mem _ h }
  have hdeclared : s.Continues { s₂ with declared := (k, item) :: s₂.declared } :=
    (hsteady.continues.trans hfiled).trans (continues_declare s₂ k item)
  unfold declareFunctionTemplate
  rw [bind_ok hcreated]
  exact .after hdeclared ((record_spends.before fun _ => .pure) _ held hpaid.declare_plain)

/-- A function is declared, once per frame. -/
theorem declareFunction_spends (han : an.Sparing) :
    Spends (decl.declareCost frame.id) (declareFunction an frame decl scope cls) := by
  unfold declareFunction
  refine .after declared?_quiet fun known => ?_
  split
  · exact .pure
  split
  · rename_i hgeneric
    exact declareFunctionTemplate_spends hgeneric
  rename_i hordinary
  rw [FunctionDecl.declareCost, if_neg hordinary, FunctionDecl.headCost, add_comm]
  refine .after createFunction_quiet fun item => .bind (resolveSignature_spends han) fun _ => ?_
  refine .after checkDuplicateFunction_quiet fun _ => ?_
  have hlast : Spends (DetailKey.declaring ⟨frame.id, decl.node.id⟩) (do
      recordDeclared frame decl.node item
      return item : Analysis ItemId) := recordDeclared_spends.before fun _ => .pure
  have hexport : Spends (DetailKey.declaring ⟨frame.id, decl.node.id⟩) (do
      if decl.keywords.exported then
        discard <| exportItem frame.module decl.itemName item decl.node.position
      recordDeclared frame decl.node item
      return item : Analysis ItemId) := .guard exportItem_quiet.discard hlast
  dsimp only
  split
  · exact .after registerMember_quiet fun _ => .after declareVariants_quiet fun _ => hexport
  · exact .after declareVariants_quiet fun _ => hexport

@[grind ←] theorem declareFunction_declares :
    Declares ⟨frame.id, decl.node.id⟩ (declareFunction an frame decl scope cls) := by
  unfold declareFunction
  refine .unless_known (fun _ => rfl) ?_
  dsimp only
  split
  · unfold declareFunctionTemplate
    refine .bind fun item => .bind fun _ => ?_
    exact .recorded
  · refine .bind fun item => .bind fun _ => .bind fun _ => ?_
    have hlast : Declares ⟨frame.id, decl.node.id⟩ (do
        recordDeclared frame decl.node item
        return item : Analysis ItemId) := .last
    split
    · refine .bind fun _ => .bind fun _ => ?_
      split
      · exact .bind fun _ => hlast
      · exact hlast
    · refine .bind fun _ => ?_
      split
      · exact .bind fun _ => hlast
      · exact hlast

end Signatures

/-! ## Instances -/

section Instances

variable {generics : List Ident} {arguments : List Ty}

/-- A class is made by somebody who has what its head and its bodies take. It keeps that. -/
theorem createClass_gives (frame : Frame) (decl : ClassDef) (scope : ScopeId) (name : String)
    (hs : s.Accounts (DetailKey.permit ⟨frame.id, decl.node.id⟩ .create +
      (decl.headCost frame.id + decl.bodyCost frame.id) + held)) : ∃ item s',
      createClass frame decl scope name s = .ok item s' ∧ s.Continues s' ∧ s'.Accounts held ∧
        s'.classes.lookup item = some ⟨decl, frame, .declared⟩ ∧
          item.index < s'.table.items.size := by
  unfold createClass
  obtain ⟨own, item, s₁, hrun, hsteady, hfresh, hlt, -⟩ := declare_gives s scope
    (fun own => { name, scope, module := frame.module, visibility := decl.visibility
                  position := decl.node.position
                  entity := .cls { scope := own, flags := decl.flags } }) ScopeOwner.cls
  rw [hrun]
  have hcreate : ∀ s₂ : State, s.Steady s₂ → item.index < s₂.table.items.size →
      let s' : State := { s₂ with classes := (item, ⟨decl, frame, .declared⟩) :: s₂.classes }
      s.Continues s' ∧ s'.Accounts held ∧
        s'.classes.lookup item = some ⟨decl, frame, .declared⟩ ∧
          item.index < s'.table.items.size := fun s₂ h₂ hlt₂ =>
    ⟨.create hs h₂ hfresh, .create hs h₂ hfresh hlt₂, List.lookup_cons_self, hlt₂⟩
  split
  · let object := s₁.table.addItem
      { name := "this", scope := own, module := frame.module, visibility := .scopeOnly
        position := decl.node.position, entity := .var { ty := .cls item } }
    have hobject : s₁.table.KeepsTemplates
        (object.2.modifyClass item fun c => { c with thisVariable := some object.1 }) :=
      SymbolTable.KeepsTemplates.addItem.trans .modifyClass
    have hsteady' : s₁.Steady { s₁ with table := _ } := .of_table hobject
    have hlt' := Nat.lt_of_lt_of_le hlt hobject.size_le
    exact ⟨item, _, rfl, hcreate _ (hsteady.trans hsteady') hlt'⟩
  · exact ⟨item, _, rfl, hcreate s₁ hsteady hlt⟩

@[grind ←] theorem instanceName_quiet {base : String} : Quiet (instanceName base arguments) := by
  unfold instanceName
  grind

@[grind ←] theorem bindGenerics_quiet {own : ScopeId} :
    Quiet (bindGenerics frame generics arguments own) := by
  unfold bindGenerics
  grind

@[grind ←] theorem noteGenericDependency_quiet {origin : ModuleId} :
    Quiet (noteGenericDependency origin) := by
  unfold noteGenericDependency
  grind

@[grind ←] theorem checkArity_quiet {name : String} :
    Quiet (checkArity name generics arguments position) := by
  unfold checkArity
  grind

/-- A class is declared by somebody who may still have its bodies analysed. -/
theorem recordDeclared_class {item : ItemId} :
    SpendsWhile (.fits item ⟨frame.id, node.id⟩)
      (DetailKey.permit ⟨frame.id, node.id⟩ .declare + DetailKey.permit ⟨frame.id, node.id⟩ .ordinary)
      (recordDeclared frame node item) := by
  intro s held hfits hs
  refine ⟨(zero_add held).symm ▸ State.Accounts.declare (hs.of_le ?_) fun _ => hfits,
    continues_declare s ⟨frame.id, node.id⟩ item⟩
  refine add_le_add (add_le_add (le_refl _) ?_) (le_refl _)
  split
  · exact fun p => Nat.zero_le _
  · exact le_refl _

theorem noteInstance_class {item : ItemId} {source : ClassSource} {module : ModuleId} :
    SpendsWhile (.hasClass item source) (source.key.permit .declare + source.key.permit .ordinary)
      (noteInstance source.frame source.decl.node item module) := by
  unfold noteInstance
  refine .after (.alter fun s => { State.Steady.refl s with }) fun _ => ?_
  refine .before (fun s held hcls hs => ?_) fun _ => noteGenericDependency_quiet
  exact recordDeclared_class s held ⟨hcls.lt, fun _ => hcls.key_eq⟩ hs

/-- An instance waits, with the right to have its bodies analysed. -/
theorem postponeClass_spends {item : ItemId} {source : ClassSource} :
    SpendsWhile (.hasClass item source) source.key.opening
      (modify fun s => { s with pendingClasses := item :: s.pendingClasses } : Analysis Unit) := by
  intro s held hcls hs
  have hpending := State.Accounts.postponeClass (hcls.opening_eq ▸ hs) hcls.lt
  exact ⟨(zero_add held).symm ▸ hpending, { State.Continues.refl s with }⟩

/-- The instance of a class comes with a frame of its own. -/
@[grind ←] theorem instantiateClass_quiet (han : an.Sparing) {template : ItemId} :
    Quiet (instantiateClass an template arguments position) := by
  intro s held hs
  have hread (f : Option Template → Analysis ItemId) :
    (template? template >>= f) s = f (s.templates.lookup template) s := rfl
  unfold instantiateClass
  rw [hread]
  rcases htemplate : s.templates.lookup template with - | ⟨decl, scope, module⟩ | -
  · exact Quiet.bind itemName_quiet (fun _ => failOther_quiet) s held hs
  · dsimp only
    refine hs.rest.quietly checkArity_quiet (le_refl _) fun _ s₁ h₁ hs₁ => ?_
    refine hs₁.quietly .get (le_refl _) fun known s₂ h₂ hs₂ => ?_
    cases known.instances.findClass? template arguments with
    | some inst => exact Quiet.pure s₂ held ((zero_add held).symm ▸ hs₂)
    | none =>
      have hadmits := hs₂.templates _ (h₂.templates _ (h₁.templates _ (mem_of_lookup htemplate)))
      obtain ⟨frame, s₃, hopened, h₃, hs₃⟩ := openFrame_gives module hs₂ hadmits
      -- the nodes of the class pay for its head and its bodies, and for its declaration
      let source : ClassSource := ⟨decl, frame, .declared⟩
      have hle : source.key.permit .create + (decl.headCost frame.id + decl.bodyCost frame.id) +
          (source.key.permit .declare + source.key.permit .ordinary + source.key.opening + held) ≤
          permits frame.id (Stmt.classIds decl) + held := by
        intro p
        have hmembers := decl.memberCosts_le_declareCost frame.id p
        have hdeclare := decl.declareCost_add_opening_le frame.id p
        simp only [source, ClassSource.key, Pi.add_apply] at *
        omega
      dsimp only
      rw [bind_ok hopened]
      refine .after h₃.continues ?_
      refine (hs₃.of_le hle).quietly instanceName_quiet ?_ fun name s₄ h₄ hs₄ => ?_
      · exact fun p => by simp only [Pi.add_apply]; omega
      obtain ⟨item, s₅, hcreated, h₅, hs₅, hsource, hlt⟩ :=
        createClass_gives frame decl scope name hs₄
      rw [bind_ok hcreated]
      have hcls : s₅.HasClass item source := ⟨hlt, _, hsource, rfl, rfl⟩
      refine .after h₅ (SpendsWhile.after (P := .hasClass item source) ?_ ?_ s₅ held hcls hs₅)
      · exact change_quiet fun _ => .modifyClass
      intro _
      refine .after look_quiet fun found => .after expect_quiet fun c => ?_
      refine .after bindGenerics_quiet fun _ => ?_
      refine .after (.alter fun s => { State.Steady.refl s with }) fun _ => ?_
      refine .bind noteInstance_class fun _ => .after (signatures_quiet han) fun _ => ?_
      exact .before postponeClass_spends fun _ => .pure
  · exact Quiet.bind itemName_quiet (fun _ => failOther_quiet) s held hs

/-- A function waits with what its default values and its body take. -/
theorem postponeFunction_spends {decl : FunctionDef} {item : ItemId} :
    Spends (decl.bodyCost frame.id) (modify fun s =>
      { s with pendingFunctions := ⟨frame, decl, item⟩ :: s.pendingFunctions } : Analysis Unit) :=
  fun s held hs => ⟨(zero_add held).symm ▸ State.Accounts.postponeFunction hs,
    { State.Continues.refl s with }⟩

theorem noteInstance_spends {item : ItemId} {module : ModuleId} :
    Spends (DetailKey.declaring ⟨frame.id, node.id⟩) (noteInstance frame node item module) := by
  unfold noteInstance
  refine .after (.alter fun s => { State.Steady.refl s with }) fun _ => ?_
  exact recordDeclared_spends.before fun _ => noteGenericDependency_quiet

/-- The instance of a function comes with a frame of its own. -/
@[grind ←] theorem instantiateFunction_quiet (han : an.Sparing) {template : ItemId} :
    Quiet (instantiateFunction an template arguments position) := by
  intro s held hs
  have hread (f : Option Template → Analysis ItemId) :
    (template? template >>= f) s = f (s.templates.lookup template) s := rfl
  unfold instantiateFunction
  rw [hread]
  rcases htemplate : s.templates.lookup template with - | - | ⟨decl, scope, module, cls⟩
  · exact Quiet.bind itemName_quiet (fun _ => failOther_quiet) s held hs
  · exact Quiet.bind itemName_quiet (fun _ => failOther_quiet) s held hs
  · dsimp only
    refine hs.rest.quietly checkArity_quiet (le_refl _) fun _ s₁ h₁ hs₁ => ?_
    refine hs₁.quietly .get (le_refl _) fun known s₂ h₂ hs₂ => ?_
    cases known.instances.findFunction? template arguments with
    | some inst => exact Quiet.pure s₂ held ((zero_add held).symm ▸ hs₂)
    | none =>
      have hadmits := hs₂.templates _ (h₂.templates _ (h₁.templates _ (mem_of_lookup htemplate)))
      obtain ⟨frame, s₃, hopened, h₃, hs₃⟩ := openFrame_gives module hs₂ hadmits
      have hle : DetailKey.declaring ⟨frame.id, decl.node.id⟩ +
          ((decl.params.map fun p => DetailKey.declaring ⟨frame.id, p.node.id⟩).sum +
            decl.bodyCost frame.id) ≤ permits frame.id (Stmt.functionIds decl) := by
        have hcost := decl.headCost_add_bodyCost_le frame.id
        rwa [FunctionDecl.headCost, add_assoc] at hcost
      dsimp only
      rw [bind_ok hopened]
      refine .after h₃.continues (Spends.after instanceName_quiet ?_ s₃ held
        (hs₃.of_le (add_le_add hle (le_refl _))))
      intro name
      refine .after createFunction_quiet fun item => ?_
      refine .after (change_quiet fun _ => .modifyFunction) fun _ => ?_
      refine .after look_quiet fun found => .after expect_quiet fun f => ?_
      refine .after bindGenerics_quiet fun _ => ?_
      refine .after (.alter fun s => { State.Steady.refl s with }) fun _ => ?_
      refine .bind noteInstance_spends fun _ => .bind (resolveSignature_spends han) fun _ => ?_
      refine .after declareVariants_quiet fun _ => ?_
      exact postponeFunction_spends.before fun _ => .pure

end Instances

/-! ## Written types -/

section Types

variable {typeArgs : List TypeExpr}

@[grind ←] theorem resolveTypes_quiet (han : an.Sparing) :
    Quiet (resolveTypes an frame typeArgs scope) := .mapM fun _ => type_quiet han

@[grind ←] theorem resolveClass_quiet (han : an.Sparing) {cls : ItemId} {name : String} :
    Quiet (resolveClass an frame cls name typeArgs scope position) := by
  unfold resolveClass
  grind

@[grind ←] theorem resolveNamedType_quiet (han : an.Sparing) {path : List Ident} :
    Quiet (resolveNamedType an frame path typeArgs scope position) := by
  unfold resolveNamedType
  dsimp only
  split
  on_goal 1 => split
  · exact .pure
  -- the path is looked up, whether or not it could have been a keyword
  all_goals
    refine .bind resolvePath_quiet fun item => .bind look_quiet fun found => ?_
    refine .bind expect_quiet fun entry => ?_
    cases entry.entity with
    | cls c => exact .bind (resolveClass_quiet han) fun _ => .pure
    | bound ty => exact .guard (fail_quiet (by simp)) .pure
    | _ => exact failOther_quiet

@[grind ←] theorem resolveTypeParam_quiet (han : an.Sparing) {p : TypeParam TypeExpr}
    {index : Nat} : Quiet (resolveTypeParam an frame scope p index) := by
  unfold resolveTypeParam
  grind

@[grind ←] theorem resolveForm_quiet (han : an.Sparing) {t : TypeExpr} :
    Quiet (resolveForm an frame t scope) := by
  unfold resolveForm
  grind

@[grind ←] theorem resolveType_quiet (han : an.Sparing) {t : TypeExpr} :
    Quiet (resolveType an frame t scope) := by
  unfold resolveType
  grind

end Types

end SemanticAnalysis.Analysis
