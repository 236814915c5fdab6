import SemanticAnalysis.Proofs.Course.Rules

/-!
# Names, signatures and instances follow a course

Most steps are ordinary, and the proofs only put those of their parts together. Two kinds are not. A new
item that is filed as a template must not displace another one (`Orderly.bind_template`), so the steps
that make it are followed exactly (`Creates`). And a call for an instance is a step of its own: everything
up to the moment the instance is remembered is ordinary, the rest happens inside the call
(`makeInstance_makes`). `Meets` collects what such a call can come to.
-/

namespace SemanticAnalysis

open Analysis (behind)

attribute [grind ←] SymbolTable.Maintains.modifyFunction SymbolTable.Maintains.modifyClass
  SymbolTable.Maintains.modifyVariable SymbolTable.Maintains.modifyModule
  SymbolTable.Maintains.modifyScope

/-- The step always makes a new item, and does nothing but ordinary things on the way. -/
def Creates (x : Analysis ItemId) : Prop :=
  ∀ s : State, ∃ item s', x s = .ok item s' ∧ s.Ordinary s' ∧
    s.table.items.size ≤ item.index ∧ item.index < s'.table.items.size

theorem Creates.orderly {x : Analysis ItemId} (hx : Creates x) {s₀ : State} : Orderly s₀ x := by
  intro s _ _
  obtain ⟨item, s', hrun, hordinary, -⟩ := hx s
  rw [behind, hrun]
  exact .ordinary hordinary

/-- A new item is filed as a template. -/
theorem Orderly.bind_template {x : Analysis ItemId} (hx : Creates x) {t : Template} {β : Type}
    {f : ItemId → Analysis β} {s₀ : State} (hf : ∀ s item, Orderly s (f item)) :
    Orderly s₀ (x >>= fun item =>
      modify (fun s => { s with templates := (item, t) :: s.templates }) >>= fun _ => f item) := by
  intro s hs _
  obtain ⟨item, s', hrun, hordinary, hfresh, hlt⟩ := hx s
  let filed : State := { s' with templates := (item, t) :: s'.templates }
  have hother : ∀ i u, s.templates.lookup i = some u → (i == item) = false := by
    intro i u hi
    have hold := hs.owned i u hi
    rw [beq_eq_false_iff_ne]
    rintro rfl
    omega
  have hfiled : s.Ordinary filed :=
    { hordinary with
      templates := fun i u hi => by
        rw [List.lookup_cons, hother i u hi]
        exact hordinary.templates i u hi
      owned := fun i u hi => by
        by_cases heq : i = item
        · exact .inr (heq ▸ hlt)
        · rw [List.lookup_cons, beq_eq_false_iff_ne.2 heq] at hi
          exact hordinary.owned i u hi }
  have hrest := hf filed item filed ((Course.ordinary hfiled).proper hs) (.refl _)
  show Course s (behind (EStateM.bind x _) s)
  rw [behind, EStateM.bind, hrun]
  exact (Course.ordinary hfiled).trans hrest

/-- A child scope is an inner one. -/
theorem Orderly.bind_newScope {parent : ScopeId} {β : Type} {f : ScopeId → Analysis β} {s₀ : State}
    (hf : ∀ s own, Course s₀ s → s.table.IsInner own → Orderly s (f own)) :
    Orderly s₀ (Analysis.newScope parent >>= f) := by
  refine .bind_from Analysis.newScope_orderly fun s own s' _ h₀ hrun hnew => ?_
  cases hnew
  exact hf _ _ (h₀.trans hrun) (SymbolTable.Retains.isInner_newScope ..)

namespace Analysis

/-- Declaring something with a scope of its own is ordinary and gives a new item. -/
theorem run_declare (s : State) (scope : ScopeId) (item : ScopeId → Item)
    (owner : ItemId → ScopeOwner)
    (hitem : ∀ own f, (item own).entity = .fn f → f.scope = own ∧ f.referenced = [] ∧ f.copied = []) :
    ∃ (own : ScopeId) (i : ItemId) (s' : State),
      (∀ {β : Type} (k : ScopeId → ItemId → Analysis β),
        (do
          let own ← newScope scope
          let i ← addItem (item own)
          setOwner own (owner i)
          k own i) s = k own i s') ∧
      s.Ordinary s' ∧ s.table.items.size ≤ i.index ∧ i.index < s'.table.items.size := by
  let made := s.table.newScope scope .block
  let added := made.2.addItem (item made.1)
  have hmade : s.table.Maintains made.2 := .newScope
  have hadded : made.2.Maintains added.2 := .addItem fun f hf => by
    obtain ⟨hscope, hnone⟩ := hitem made.1 f hf
    rw [hscope]
    exact ⟨SymbolTable.Retains.isInner_newScope s.table scope .block, hnone⟩
  have howned : added.2.Maintains (added.2.setOwner made.1 (owner added.1)) := .setOwner
  refine ⟨made.1, added.1, _, fun k => rfl, .of_table ((hmade.trans hadded).trans howned), ?_, ?_⟩
  · exact hmade.size_le
  · show added.1.index < added.2.items.size
    rw [SymbolTable.size_addItem]
    exact Nat.lt_succ_self _

theorem creates_declared {scope : ScopeId} {item : ScopeId → Item} {owner : ItemId → ScopeOwner}
    (hitem : ∀ own f, (item own).entity = .fn f → f.scope = own ∧ f.referenced = [] ∧ f.copied = []) :
    Creates (do
      let own ← newScope scope
      let i ← addItem (item own)
      setOwner own (owner i)
      return i) := by
  intro s
  obtain ⟨own, i, s', hrun, hmade⟩ := run_declare s scope item owner hitem
  exact ⟨i, s', hrun fun _ i => pure i, hmade⟩

variable {α : Type} {s₀ : State} {frame : Frame} {node : Node} {scope : ScopeId}
variable {position : Position} {an : Analyst}

/-! ## Errors and captures -/

@[grind ←] theorem raise_orderly {ty : Ty} : Orderly s₀ (raise scope ty) :=
  .alter fun s => .of_table (.run s.flow _)

@[grind ←] theorem linkThrows_orderly {callee : ItemId} : Orderly s₀ (linkThrows callee scope) :=
  .alter fun s => { State.Ordinary.of_table (.link s.flow callee scope) with }

@[grind ←] theorem noteCapture_orderly {item : ItemId} : Orderly s₀ (noteCapture item scope) := by
  intro s _ _
  have hlook : look (·.var? item) s = .ok (s.table.var? item) s := rfl
  rw [noteCapture, behind, bind_ok hlook]
  cases howner : (s.table.var? item).bind (·.owner) with
  | none => exact .refl s
  | some owner =>
    obtain ⟨x, hx, howner⟩ := Option.bind_eq_some_iff.1 howner
    exact .ordinary (.of_table (.captureAlong hx howner))

@[grind ←] theorem addCapturedMember_orderly {module : ModuleId} {item : ItemId} :
    Orderly s₀ (addCapturedMember scope module position item) := by
  unfold addCapturedMember
  grind

@[grind ←] theorem makeCaptureHolder_orderly {lambda : ItemId} {entry : Item} {own : ScopeId}
    {captured : List ItemId} : Orderly s₀ (makeCaptureHolder lambda entry own captured) := by
  unfold makeCaptureHolder
  refine .bind newScope_orderly fun holderScope => ?_
  refine .bind (addItem_orderly (by simp)) fun holder => ?_
  refine .bind setOwner_orderly fun _ => ?_
  refine .bind (.filterMapM fun _ _ => addCapturedMember_orderly) fun members => ?_
  refine .bind (change_orderly fun _ => .modifyClass fun _ => rfl) fun _ => ?_
  refine .bind (change_orderly fun _ => .modifyFunction fun _ => ⟨rfl, rfl⟩) fun _ => ?_
  refine .bind (change_orderly fun _ => .modifyItem fun _ => ⟨rfl, rfl, rfl⟩) fun _ => ?_
  exact change_orderly fun _ => .modifyModule (fun _ => rfl) fun _ => rfl

@[grind ←] theorem sealCaptures_orderly {lambda : ItemId} : Orderly s₀ (sealCaptures lambda) := by
  unfold sealCaptures
  refine .bind look_orderly fun entry => .bind look_orderly fun f => ?_
  split
  · split
    · exact .pure
    · refine .bind (change_orderly fun _ => .copyReferenced) fun _ => ?_
      split
      · exact .pure
      · exact makeCaptureHolder_orderly
  · exact .pure

@[grind ←] theorem runDeferred_orderly {d : Deferred} : Orderly s₀ (runDeferred d) := by
  cases d with
  | surfaceErrors callee site => exact .alter fun s => .of_table (.run s.flow _)
  | sealCaptures lambda => exact sealCaptures_orderly

@[grind ←] theorem finishFunction_orderly {item : ItemId} : Orderly s₀ (finishFunction item) := by
  unfold finishFunction
  grind

@[grind ←] theorem sealWhenDone_orderly {lambda : ItemId} : Orderly s₀ (sealWhenDone lambda scope) := by
  unfold sealWhenDone
  grind

/-! ## Names -/

@[grind ←] theorem missingName_orderly {name : String} {exclude : List EntityKind} :
    Orderly s₀ (missingName name scope exclude position : Analysis α) := by
  unfold missingName
  grind

@[grind ←] theorem followPath_orderly {exclude : List EntityKind} {current : ItemId}
    {walked rest : List Ident} :
    Orderly s₀ (followPath scope exclude position current walked rest) := by
  induction rest generalizing current walked with
  | nil => exact .pure
  | cons segment rest ih =>
    unfold followPath
    grind

@[grind ←] theorem resolvePath_orderly {path : List Ident} {exclude : List EntityKind} :
    Orderly s₀ (resolvePath path scope exclude position) := by
  unfold resolvePath
  grind

@[grind ←] theorem checkRedeclaration_orderly {name : String} :
    Orderly s₀ (checkRedeclaration name scope position) := by
  unfold checkRedeclaration
  grind

@[grind ←] theorem bindAlias_orderly {module : ModuleId} {name : String} {target : ItemId}
    {v : Visibility} : Orderly s₀ (bindAlias module scope name target v position) := by
  unfold bindAlias
  grind

@[grind ←] theorem exportItem_orderly {module : ModuleId} {name : String} {target : ItemId} :
    Orderly s₀ (exportItem module name target position) := by
  unfold exportItem
  grind

/-! ## Uses -/

@[grind ←] theorem checkAssignable_orderly {value : Expr} {src dst : Ty} :
    Orderly s₀ (checkAssignable frame value src dst position) := by
  unfold checkAssignable
  grind

@[grind ←] theorem attributeValue_orderly (han : an.Orderly) {a : AttributeArgument Expr} :
    Orderly s₀ (attributeValue an frame scope position a) := by
  unfold attributeValue
  split
  · exact (type_orderly han).map
  · exact .pure
  · grind
  · exact failOther_orderly

@[grind ←] theorem applyAttribute_orderly (han : an.Orderly) {subject : Subject}
    {a : Attribute Expr} : Orderly s₀ (applyAttribute an frame subject node scope a) := by
  unfold applyAttribute
  refine .bind_from .get fun s _ s' hs h₀ _ hget => ?_
  cases hget
  split
  · exact .pure
  · rename_i registration index hfind
    have hmem := AttributeTable.mem_of_find? hfind
    refine .bind (.mapM fun _ _ => attributeValue_orderly han) fun arguments => ?_
    refine .bind (.alter fun s => { State.Ordinary.refl s with }) fun _ => ?_
    refine .bind (.modifyGet fun t ht => ?_) fun outcome => ?_
    · exact
        { items_le := hs.growing registration hmem _ t.table
          anchors := fun hd => ((ht.attributes_eq ▸ hd) registration hmem _ t.table).2
          retains := fun hd => (ht.attributes_eq ▸ hd) registration hmem _ t.table
          conserves := fun hd => (ht.attributes_eq ▸ hd) registration hmem _ t.table }
    · split
      · exact .pure
      · exact fail_orderly

@[grind ←] theorem applyAttributes_orderly (han : an.Orderly) {subject : Subject}
    {attributes : List (Attribute Expr)} :
    Orderly s₀ (applyAttributes an frame attributes subject node scope) :=
  .forM fun _ _ => applyAttribute_orderly han

/-! ## Signatures -/

section Signatures

variable {decl : FunctionDef} {cls : Option ItemId} {item : ItemId}

theorem createFunction_creates {name : String} {generics : Nat} :
    Creates (createFunction frame decl scope name cls generics) := by
  unfold createFunction
  refine creates_declared fun own f hf => ?_
  cases hf
  exact ⟨rfl, rfl, rfl⟩

@[grind ←] theorem createFunction_orderly {name : String} {generics : Nat} :
    Orderly s₀ (createFunction frame decl scope name cls generics) :=
  createFunction_creates.orderly

@[grind ←] theorem bindParameter_orderly (han : an.Orderly) {written : List (Param Expr)}
    {function : ItemId} {p : Param Expr} {index : Nat} :
    Orderly s₀ (bindParameter an frame written function scope p index) := by
  unfold bindParameter
  refine .guard fail_orderly (.bind (type_orderly han) fun ty => ?_)
  refine .bind (addItem_orderly (by simp)) fun item => ?_
  exact recordDeclared_orderly.bind fun _ => .pure

@[grind ←] theorem bindParameters_orderly (han : an.Orderly) {written : List (Param Expr)}
    {function : ItemId} : Orderly s₀ (bindParameters an frame written function scope) := by
  unfold bindParameters
  grind

@[grind ←] theorem resultType_orderly (han : an.Orderly) :
    Orderly s₀ (resultType an frame decl scope cls) := by
  unfold resultType
  grind

@[grind ←] theorem generatorParameter_orderly (han : an.Orderly) :
    Orderly s₀ (generatorParameter an frame decl scope) := by
  unfold generatorParameter
  grind

@[grind ←] theorem resolveSignature_orderly (han : an.Orderly) :
    Orderly s₀ (resolveSignature an frame decl item cls) := by
  unfold resolveSignature
  refine .bind look_orderly fun known => .bind expect_orderly fun f => ?_
  refine .bind (bindParameters_orderly han) fun bound => .bind (resultType_orderly han) fun result => ?_
  refine .bind (generatorParameter_orderly han) fun sent => .bind look_orderly fun now => ?_
  exact .bind expect_orderly fun _ => change_orderly fun _ => .modifyFunction fun _ => ⟨rfl, rfl⟩

@[grind ←] theorem checkDuplicateFunction_orderly :
    Orderly s₀ (checkDuplicateFunction item position) := by
  unfold checkDuplicateFunction
  grind

@[grind ←] theorem registerMember_orderly {c : ItemId} : Orderly s₀ (registerMember c item decl) :=
  registerMember_of .bind look_orderly expect_orderly fail_orderly
    (fun _ hg => change_orderly fun _ => .modifyClass hg) fun _ hg => change_orderly fun _ => .modifyFunction hg

@[grind ←] theorem declareVariant_orderly {canonical : ItemId} {entry : Item} {source : Function}
    {kept : Nat} : Orderly s₀ (declareVariant decl canonical entry source cls kept) := by
  unfold declareVariant
  refine .bind_newScope fun s own _ hinner => ?_
  refine .bind (addFunction_orderly fun f hf => by cases hf; exact ⟨hinner, rfl, rfl⟩) fun item => ?_
  refine .bind setOwner_orderly fun _ => ?_
  refine .bind (change_orderly fun _ => .modifyFunction fun _ => ⟨rfl, rfl⟩) fun _ => ?_
  refine .bind (change_orderly fun _ => .modifyItem fun _ => ⟨rfl, rfl, rfl⟩) fun _ => ?_
  refine .bind (change_orderly fun _ => .modifyModule (fun _ => rfl) fun _ => rfl) fun _ => ?_
  grind

@[grind ←] theorem declareVariants_orderly {canonical : ItemId} :
    Orderly s₀ (declareVariants decl canonical cls) := by
  unfold declareVariants
  grind

@[grind ←] theorem declareFunctionTemplate_orderly :
    Orderly s₀ (declareFunctionTemplate frame decl scope cls) := by
  unfold declareFunctionTemplate
  refine .bind_template createFunction_creates fun s item => ?_
  grind

@[grind ←] theorem declareFunction_orderly (han : an.Orderly) :
    Orderly s₀ (declareFunction an frame decl scope cls) := by
  unfold declareFunction
  refine .bind declared?_orderly fun known => ?_
  split
  · exact .pure
  split
  · exact declareFunctionTemplate_orderly
  refine .bind createFunction_orderly fun item => .bind (resolveSignature_orderly han) fun _ => ?_
  refine .bind checkDuplicateFunction_orderly fun _ => ?_
  grind

end Signatures

/-! ## Instances -/

section Instances

variable {decl : ClassDef} {generics : List Ident} {arguments : List Ty}

theorem createClass_creates {name : String} : Creates (createClass frame decl scope name) := by
  intro s
  unfold createClass
  obtain ⟨own, item, s₁, hrun, hordinary, hfresh, hlt⟩ := run_declare s scope
    (fun own => { name, scope, module := frame.module, visibility := decl.visibility
                  position := decl.node.position
                  entity := .cls { scope := own, flags := decl.flags } }) ScopeOwner.cls (by simp)
  rw [hrun]
  split
  · let object := s₁.table.addItem
      { name := "this", scope := own, module := frame.module, visibility := .scopeOnly
        position := decl.node.position, entity := .var { ty := .cls item } }
    have hobject : s₁.table.Maintains object.2 := .addItem (by simp)
    have hthis : object.2.Maintains
        (object.2.modifyClass item fun c => { c with thisVariable := some object.1 }) :=
      .modifyClass fun _ => rfl
    have hordinary' : s₁.Ordinary { s₁ with table := _ } := .of_table (hobject.trans hthis)
    refine ⟨item, _, rfl, hordinary.trans { hordinary' with }, hfresh, ?_⟩
    exact Nat.lt_of_lt_of_le hlt hordinary'.items_le
  · exact ⟨item, _, rfl, { hordinary with }, hfresh, hlt⟩

@[grind ←] theorem createClass_orderly {name : String} :
    Orderly s₀ (createClass frame decl scope name) := createClass_creates.orderly

/-- Binding generic parameters always succeeds. -/
theorem bindGenerics_run (frame : Frame) (generics : List Ident) (arguments : List Ty)
    (own : ScopeId) (s : State) :
    ∃ s', bindGenerics frame generics arguments own s = .ok ⟨⟩ s' ∧ s.Ordinary s' := by
  unfold bindGenerics
  generalize generics.zip arguments = pairs
  induction pairs generalizing s with
  | nil => exact ⟨s, rfl, .refl s⟩
  | cons p rest ih =>
    let bound := s.table.addItem
      { name := p.1.name, scope := own, module := frame.module, visibility := .scopeOnly
        position := p.1.position, entity := .bound p.2 }
    have hbound : s.Ordinary { s with table := bound.2 } := .of_table (.addItem (by simp))
    obtain ⟨s', hrun, hordinary⟩ := ih { s with table := bound.2 }
    exact ⟨s', hrun, hbound.trans hordinary⟩

@[grind ←] theorem noteGenericDependency_orderly {origin : ModuleId} :
    Orderly s₀ (noteGenericDependency origin) := by
  unfold noteGenericDependency
  refine .bind .get fun s => ?_
  split
  · split
    · exact change_orderly fun _ => .modifyModule (fun _ => rfl) fun _ => rfl
    · exact .pure
  · exact .pure

@[grind ←] theorem noteInstance_orderly {item : ItemId} {module : ModuleId} :
    Orderly s₀ (noteInstance frame node item module) := by
  unfold noteInstance
  refine .bind (.alter fun s => { State.Ordinary.refl s with }) fun _ => ?_
  exact .bind recordDeclared_orderly fun _ => noteGenericDependency_orderly

/-- How a call for an instance that is not there ends: before it has made one, or behind the members of
the one it has made. -/
inductive Makes (s : State) (c : Instantiation) : EStateM.Result Diagnostic State ItemId → Prop where
  | unmade {e : Diagnostic} {s' : State} (h : s.Ordinary s') : Makes s c (.error e s')
  | returned {item : ItemId} {opened s' : State} (hopens : s.Opens c item opened)
      (hmembers : Course opened s') : Makes s c (.ok item s')
  | failed {item : ItemId} {e : Diagnostic} {opened s' : State} (hopens : s.Opens c item opened)
      (hmembers : Course opened s') : Makes s c (.error e s')

theorem Makes.course {c : Instantiation} {s : State} (h : Makes s c (c.run an position s)) :
    Course s (behind (c.run an position) s) := by
  rw [behind]
  cases hrun : c.run an position s with
  | ok item s' =>
    rw [hrun] at h
    cases h with
    | returned hopens hmembers => exact .call hopens hmembers (.inl hrun)
  | error e s' =>
    rw [hrun] at h
    cases h with
    | unmade h => exact .ordinary h
    | failed hopens hmembers => exact .call hopens hmembers (.inr ⟨e, hrun⟩)

/-- Whatever comes before the instance is remembered is ordinary, and the rest happens inside the
call. -/
theorem makeInstance_makes {γ : Type} {c : Instantiation} {s : State} (hs : s.Proper)
    (hoffers : s.Offers c) (hmissing : s.instance? c = none) {create : Frame → String → Analysis ItemId}
    (hcreate : ∀ frame name, Creates (create frame name)) {mark : ItemId → SymbolTable → SymbolTable}
    (hmark : ∀ (i : ItemId) (t : SymbolTable), t.Maintains (mark i t)) {find : ItemId → SymbolTable → Option γ}
    {own : γ → ScopeId} {rest : Frame → ItemId → Analysis ItemId}
    (hrest : ∀ s frame item, Orderly s (rest frame item))
    (hgives : ∀ frame item, Returns (rest frame item) (· = item))
    {module : ModuleId} {base what : String}
    (hrun : c.run an position s = (do
      let frame ← openFrame module
      let name ← instanceName base c.arguments
      let item ← create frame name
      change (mark item)
      let found ← look (find item)
      let x ← expect what found
      bindGenerics frame generics c.arguments (own x)
      modify fun s =>
        { s with instances := s.instances.remember c.template ⟨c.arguments, item, frame.id⟩ c.kind }
      rest frame item : Analysis ItemId) s) :
    Makes s c (c.run an position s) := by
  let frame : Frame := ⟨⟨s.nextFrame⟩, module⟩
  let s₁ : State := { s with nextFrame := s.nextFrame + 1 }
  let name := base ++ "<" ++ ", ".intercalate (c.arguments.map s₁.table.typeText) ++ ">"
  have hframe : s.Ordinary s₁ := { State.Ordinary.refl s with }
  obtain ⟨item, s₂, hcreated, hcreates, hfresh, hlt⟩ := hcreate frame name s₁
  have hcreates' : s.Ordinary s₂ := hframe.trans hcreates
  let s₃ : State := { s₂ with table := mark item s₂.table }
  have hmarked : s₂.Ordinary s₃ := .of_table (hmark item s₂.table)
  replace hrun : c.run an position s = (expect what (find item s₃.table) >>= fun x => do
      bindGenerics frame generics c.arguments (own x)
      modify fun s =>
        { s with instances := s.instances.remember c.template ⟨c.arguments, item, frame.id⟩ c.kind }
      rest frame item : Analysis ItemId) s₃ := by
    rw [hrun]
    exact bind_ok hcreated
  cases hfind : find item s₃.table with
  | none =>
    rw [hrun, hfind]
    exact .unmade (hcreates'.trans hmarked)
  | some x =>
    obtain ⟨s₄, hbound, hbinds⟩ := bindGenerics_run frame generics c.arguments (own x) s₃
    have hopened : s.Ordinary s₄ := (hcreates'.trans hmarked).trans hbinds
    let s₅ : State :=
      { s₄ with
        instances := s₄.instances.remember c.template ⟨c.arguments, item, frame.id⟩ c.kind }
    replace hrun : c.run an position s = rest frame item s₅ := by
      rw [hrun, hfind]
      exact bind_ok hbound
    have hopens : s.Opens c item s₅ :=
      { offers := hoffers
        missing := hmissing
        fresh := hfresh
        made := Nat.lt_of_lt_of_le hlt (hmarked.trans hbinds).items_le
        remembered := ⟨frame.id, by rw [← hopened.instances]⟩
        ordinary := { hopened with instances := rfl } }
    have hmembers := hrest s₅ frame item s₅ (hopens.proper hs) (.refl _)
    rw [hrun]
    cases hends : rest frame item s₅ with
    | ok i s' =>
      rw [behind, hends] at hmembers
      rw [hgives frame item s₅ i s' hends]
      exact .returned hopens hmembers
    | error e s' =>
      rw [behind, hends] at hmembers
      exact .failed hopens hmembers

/-- What a call for an instance does: without a template it fails at once, else it gives the instance
that is there, else it makes one. -/
structure Meets (an : Analyst) (position : Position) (s : State) (c : Instantiation) : Prop where
  refused : ¬ s.Offers c → ∃ e, c.run an position s = .error e s
  found : s.Offers c → ∀ i, s.instance? c = some i → c.run an position s = .ok i s
  makes : s.Offers c → s.instance? c = none → an.Orderly → s.Proper →
    Makes s c (c.run an position s)

namespace Meets

variable {s : State} {c : Instantiation}

theorem of_refused {e : Diagnostic} (hno : ¬ s.Offers c) (hrun : c.run an position s = .error e s) :
    Meets an position s c :=
  ⟨fun _ => ⟨e, hrun⟩, fun h => absurd h hno, fun h => absurd h hno⟩

theorem of_found {i : ItemId} (hoffers : s.Offers c) (hi : s.instance? c = some i)
    (hrun : c.run an position s = .ok i s) : Meets an position s c := by
  refine ⟨absurd hoffers, fun _ j hj => ?_, fun _ hnone => ?_⟩
  · cases hi.symm.trans hj
    exact hrun
  · cases hi.symm.trans hnone

theorem of_missing (hoffers : s.Offers c) (hnone : s.instance? c = none)
    (hmakes : an.Orderly → s.Proper → Makes s c (c.run an position s)) :
    Meets an position s c := by
  refine ⟨absurd hoffers, fun _ j hj => ?_, fun _ _ => hmakes⟩
  cases hnone.symm.trans hj

end Meets

theorem checkArity_ok (h : generics.length = arguments.length) (name : String) (position : Position)
    (s : State) : checkArity name generics arguments position s = .ok () s := by
  rw [checkArity, if_neg (by simpa using h)]
  rfl

theorem checkArity_error (h : generics.length ≠ arguments.length) (name : String)
    (position : Position) (s : State) : checkArity name generics arguments position s =
      .error ⟨.genericArity name generics.length arguments.length, position⟩ s := by
  rw [checkArity, if_pos (by simpa using h)]
  rfl

theorem instantiateClass_meets (an : Analyst) (position : Position) (s : State) (template : ItemId)
    (arguments : List Ty) : Meets an position s ⟨.cls, template, arguments⟩ := by
  have hrun : (⟨.cls, template, arguments⟩ : Instantiation).run an position s =
      instantiateClass an template arguments position s := rfl
  unfold instantiateClass at hrun
  have hread : template? template s = .ok (s.templates.lookup template) s := rfl
  rw [bind_ok hread] at hrun
  cases ht : s.templates.lookup template with
  | none =>
    rw [ht] at hrun
    exact .of_refused (by simp [State.Offers, ht]) hrun
  | some t =>
    rw [ht] at hrun
    cases t with
    | fn decl scope module cls =>
      exact .of_refused (by simp [State.Offers, ht, Template.Takes]) hrun
    | cls decl scope module =>
      have hoffers : s.Offers ⟨.cls, template, arguments⟩ ↔
          decl.generics.length = arguments.length := by simp [State.Offers, ht, Template.Takes]
      by_cases hn : decl.generics.length = arguments.length
      · have hget : (get : Analysis State) s = .ok s s := rfl
        replace hrun := (hrun.trans (bind_ok (checkArity_ok hn _ _ s))).trans (bind_ok hget)
        cases hfind : s.instances.findClass? template arguments with
        | some inst =>
          rw [hfind] at hrun
          exact .of_found (hoffers.2 hn) (congrArg (Option.map _) hfind) hrun
        | none =>
          rw [hfind] at hrun
          have hnone := congrArg (Option.map Instance.item) hfind
          refine .of_missing (hoffers.2 hn) hnone fun han hs => ?_
          refine makeInstance_makes hs (hoffers.2 hn) hnone ?_ ?_ (fun s frame item => ?_)
            (fun frame item => ?_) hrun
          · exact fun frame name => createClass_creates
          · exact fun i t => .modifyClass fun _ => rfl
          · refine .bind noteInstance_orderly fun _ => .bind (signatures_orderly han) fun _ => ?_
            exact .bind (.alter fun s => { State.Ordinary.refl s with }) fun _ => .pure
          · exact .bind fun _ => .bind fun _ => .bind fun _ => .pure rfl
      · exact .of_refused (fun h => hn (hoffers.1 h))
          (hrun.trans (bind_error (checkArity_error hn _ _ s)))

theorem instantiateFunction_meets (an : Analyst) (position : Position) (s : State)
    (template : ItemId) (arguments : List Ty) : Meets an position s ⟨.fn, template, arguments⟩ := by
  have hrun : (⟨.fn, template, arguments⟩ : Instantiation).run an position s =
      instantiateFunction an template arguments position s := rfl
  unfold instantiateFunction at hrun
  have hread : template? template s = .ok (s.templates.lookup template) s := rfl
  rw [bind_ok hread] at hrun
  cases ht : s.templates.lookup template with
  | none =>
    rw [ht] at hrun
    exact .of_refused (by simp [State.Offers, ht]) hrun
  | some t =>
    rw [ht] at hrun
    cases t with
    | cls decl scope module =>
      exact .of_refused (by simp [State.Offers, ht, Template.Takes]) hrun
    | fn decl scope module cls =>
      have hoffers : s.Offers ⟨.fn, template, arguments⟩ ↔
          decl.generics.length = arguments.length := by simp [State.Offers, ht, Template.Takes]
      by_cases hn : decl.generics.length = arguments.length
      · have hget : (get : Analysis State) s = .ok s s := rfl
        replace hrun := (hrun.trans (bind_ok (checkArity_ok hn _ _ s))).trans (bind_ok hget)
        cases hfind : s.instances.findFunction? template arguments with
        | some inst =>
          rw [hfind] at hrun
          exact .of_found (hoffers.2 hn) (congrArg (Option.map _) hfind) hrun
        | none =>
          rw [hfind] at hrun
          have hnone := congrArg (Option.map Instance.item) hfind
          refine .of_missing (hoffers.2 hn) hnone fun han hs => ?_
          refine makeInstance_makes hs (hoffers.2 hn) hnone ?_ ?_ (fun s frame item => ?_)
            (fun frame item => ?_) hrun
          · exact fun frame name => createFunction_creates
          · exact fun i t => .modifyFunction fun _ => ⟨rfl, rfl⟩
          · refine .bind noteInstance_orderly fun _ => .bind (resolveSignature_orderly han) fun _ => ?_
            refine .bind declareVariants_orderly fun _ => ?_
            exact .bind (.alter fun s => { State.Ordinary.refl s with }) fun _ => .pure
          · exact .bind fun _ => .bind fun _ => .bind fun _ => .bind fun _ => .pure rfl
      · exact .of_refused (fun h => hn (hoffers.1 h))
          (hrun.trans (bind_error (checkArity_error hn _ _ s)))

/-- What any call does. -/
theorem meets (an : Analyst) (position : Position) (s : State) (c : Instantiation) :
    Meets an position s c := by
  obtain ⟨kind, template, arguments⟩ := c
  cases kind with
  | cls => exact instantiateClass_meets an position s template arguments
  | fn => exact instantiateFunction_meets an position s template arguments

theorem run_orderly (han : an.Orderly) (c : Instantiation) : Orderly s₀ (c.run an position) := by
  intro s hs _
  have hmeets := meets an position s c
  by_cases hoffers : s.Offers c
  · cases hi : s.instance? c with
    | some i =>
      rw [behind, hmeets.found hoffers i hi]
      exact .refl s
    | none => exact (hmeets.makes hoffers hi han hs).course
  · obtain ⟨e, hrun⟩ := hmeets.refused hoffers
    rw [behind, hrun]
    exact .refl s

@[grind ←] theorem instantiateClass_orderly (han : an.Orderly) {template : ItemId} :
    Orderly s₀ (instantiateClass an template arguments position) :=
  run_orderly han ⟨.cls, template, arguments⟩

@[grind ←] theorem instantiateFunction_orderly (han : an.Orderly) {template : ItemId} :
    Orderly s₀ (instantiateFunction an template arguments position) :=
  run_orderly han ⟨.fn, template, arguments⟩

end Instances

end Analysis

end SemanticAnalysis
