import SemanticAnalysis.Proofs.Faithful.Rules

/-!
# Declarations are faithful

Names, attributes, signatures and instances. A declaration makes an item and works on it: a function is given its
parameters and its variants, and it is filed with its class, a capture holder is given its members. All this
concerns items that are new since the declaration began (`State.Builds`, `State.Signs`), so what was settled before
stays so.
-/

namespace SemanticAnalysis

/-! ## New items -/

/-- Whether a class is a bitfield, and what its fields come to. -/
def Class.outline (c : Class) : Bool × Option Ty × List ItemId := (c.flags.bitfield, c.head)

namespace State

variable {s₀ s : State} {t : SymbolTable} {i : ItemId}

/-- An item that is new since `s₀`: it is no constructor, and no declaration is kept for it. -/
structure Builds (s₀ : State) (i : ItemId) (s : State) : Prop where
  vouched : s₀.Vouched s
  fresh : s₀.table.items.size ≤ i.index
  made : i.index < s.table.items.size
  unfiled : ∀ c, i ∉ s.table.constructorsOf c
  unlisted : s.classes.lookup i = none

/-- A function that is new since `s₀`. -/
structure Signs (s₀ : State) (i : ItemId) (s : State) : Prop where
  vouched : s₀.Vouched s
  fresh : s₀.table.items.size ≤ i.index
  function : ∃ f, s.table.function? i = some f

theorem lasts_builds (hs₀ : s₀.Grounded) : Lasts s₀ (s₀.Builds i) := fun _ _ _ h₀ h hv hF =>
  { vouched := hF.vouched.trans hs₀ h₀ hv h
    fresh := hF.fresh
    made := Nat.lt_of_lt_of_le hF.made h.table.size_le
    unfiled := h.table.not_mem_constructorsOf hF.made hF.unfiled
    unlisted := h.unlisted i hF.made hF.unlisted }

theorem lasts_signs (hs₀ : s₀.Grounded) : Lasts s₀ (s₀.Signs i) := fun _ _ _ h₀ h hv hF =>
  { vouched := hF.vouched.trans hs₀ h₀ hv h
    fresh := hF.fresh
    function := by
      obtain ⟨f, hf⟩ := hF.function
      obtain ⟨g, hg, -⟩ := h.table.exists_function? hf
      exact ⟨g, hg⟩ }

/-! ### Changes of the table -/

theorem Honours.retable (h : s₀.Honours s) (ht : s₀.table.Honours t)
    (houtline : ∀ c source, s.classes.lookup c = some source →
      (t.class? c).map Class.outline = (s.table.class? c).map Class.outline) :
    s₀.Honours { s with table := t } where
  table := ht
  heads c hc hheaded := by
    obtain ⟨⟨source, hsource, hrank⟩, hhead⟩ := h.heads c hc hheaded
    refine ⟨⟨source, hsource, hrank⟩, Eq.trans ?_ hhead⟩
    have hsnd := congrArg (Option.map Prod.snd) (houtline c source hsource)
    rwa [Option.map_map, Option.map_map] at hsnd
  unlisted := h.unlisted
  noted_le := h.noted_le
  grounded hs₀ :=
    { honest := (h.grounded hs₀).honest
      filed := ht.filed hs₀.filed
      sources := fun c source hsource => by
        obtain ⟨old, hold, hflag, hblank⟩ := (h.grounded hs₀).sources c source hsource
        have hsame := houtline c source hsource
        rw [hold] at hsame
        obtain ⟨cls, hcls, heq⟩ := Option.map_eq_some_iff.1 hsame
        have hbitfield : cls.flags.bitfield = old.flags.bitfield := congrArg Prod.fst heq
        have hhead : cls.head = old.head := congrArg Prod.snd heq
        exact ⟨cls, hcls, hbitfield.trans hflag, fun hlow => hhead.trans (hblank hlow)⟩ }

theorem Vouched.retable (h : s₀.Vouched s)
    (houtline : ∀ c source, s.classes.lookup c = some source →
      (t.class? c).map Class.outline = (s.table.class? c).map Class.outline)
    (hvar : t.var? = s.table.var?) : s₀.Vouched { s with table := t } := by
  intro hnoted c hheaded hnot cls hcls hbitfield
  obtain ⟨source, hsource, -⟩ := id hheaded
  have hsame := houtline c source hsource
  rw [show t.class? c = some cls from hcls] at hsame
  obtain ⟨old, hold, heq⟩ := Option.map_eq_some_iff.1 hsame.symm
  have hflag : old.flags.bitfield = cls.flags.bitfield := congrArg Prod.fst heq
  have hhead : old.head = cls.head := congrArg Prod.snd heq
  refine (h hnoted c hheaded hnot old hold (hflag.trans hbitfield)).of_widths hhead.symm fun m _ => ?_
  show (t.var? m).map Variable.width = _
  rw [hvar]

/-- A new function is changed, its parameters only as long as it is no constructor. -/
theorem Honours.modifyFunction {g : Function → Function} (h : s₀.Honours s) (hi : s₀.table.items.size ≤ i.index)
    (hg : (∀ f, (g f).params = f.params) ∨ ∀ c, i ∉ s.table.constructorsOf c) :
    s₀.Honours { s with table := s.table.modifyFunction i g } :=
  h.retable (h.table.modifyNew hi hg) fun c _ _ => by rw [SymbolTable.class?_modifyFunction]

theorem Vouched.modifyFunction {g : Function → Function} (h : s₀.Vouched s) :
    s₀.Vouched { s with table := s.table.modifyFunction i g } :=
  h.retable (fun c _ _ => by rw [SymbolTable.class?_modifyFunction])
    (funext fun j => s.table.var?_modifyFunction i j g)

theorem Builds.modifyFunction {k : ItemId} {g : Function → Function} (h : s₀.Builds i s) :
    s₀.Builds i { s with table := s.table.modifyFunction k g } where
  vouched := h.vouched.modifyFunction
  fresh := h.fresh
  made := by
    show i.index < (s.table.modifyFunction k g).items.size
    rw [SymbolTable.size_modifyFunction]
    exact h.made
  unfiled c := by
    show i ∉ (s.table.modifyFunction k g).constructorsOf c
    rw [SymbolTable.constructorsOf, SymbolTable.class?_modifyFunction]
    exact h.unfiled c
  unlisted := h.unlisted

theorem Signs.modifyFunction {k : ItemId} {g : Function → Function} (h : s₀.Signs i s) :
    s₀.Signs i { s with table := s.table.modifyFunction k g } where
  vouched := h.vouched.modifyFunction
  fresh := h.fresh
  function := by
    obtain ⟨f, hf⟩ := h.function
    show ∃ f, (s.table.modifyFunction k g).function? i = some f
    rw [SymbolTable.function?_modifyFunction, hf]
    split
    · exact ⟨g f, rfl⟩
    · exact ⟨f, rfl⟩

/-- The declaration of a new class is kept, at the first stage. -/
theorem honours_list (source : ClassSource) {cls : Class} (hs : s.Grounded) (ht : s.table.Spares t)
    (hnew : s.table.items.size ≤ i.index) (hcls : t.class? i = some cls)
    (houtline : cls.outline = (source.decl.flags.bitfield, none, [])) (hstage : source.stage = .declared) :
    s.Honours { s with table := t, classes := (i, source) :: s.classes } ∧
      s.Vouched { s with table := t, classes := (i, source) :: s.classes } := by
  have hcopy : s.Honours { s with table := t } := .of_spares ht rfl rfl (Nat.le_refl _)
  have hself : List.lookup i ((i, source) :: s.classes) = some source := List.lookup_cons_self
  have hlookup : ∀ d, d ≠ i → List.lookup d ((i, source) :: s.classes) = s.classes.lookup d := by
    intro d hd
    rw [List.lookup_cons, beq_false_of_ne hd]
  have hne : ∀ d : ItemId, d.index < s.table.items.size → d ≠ i := by
    rintro d hd rfl
    exact absurd hd (Nat.not_lt.2 hnew)
  refine ⟨⟨ht.toHonours, fun d hd hold => ?_, fun d hd hnone => (hlookup d (hne d hd)).trans hnone, Nat.le_refl _,
    fun _ => ⟨hs.honest, ht.filed hs.filed, fun d kept hkept => ?_⟩⟩, fun _ d hheaded hnot => ?_⟩
  · obtain ⟨kept, hkept, hrank⟩ := hold
    exact ⟨⟨kept, (hlookup d (hne d hd)).trans hkept, hrank⟩, ht.heads d hd⟩
  · by_cases hd : d = i
    · subst hd
      cases hself.symm.trans hkept
      exact ⟨cls, hcls, congrArg Prod.fst houtline, fun _ => congrArg Prod.snd houtline⟩
    · exact (hcopy.grounded hs).sources d kept ((hlookup d hd).symm.trans hkept)
  · obtain ⟨kept, hkept, hrank⟩ := hheaded
    by_cases hd : d = i
    · subst hd
      cases hself.symm.trans hkept
      rw [hstage] at hrank
      cases hrank
    · exact absurd ⟨kept, (hlookup d hd).symm.trans hkept, hrank⟩ hnot

end State

namespace Within

variable {α : Type} {s₀ : State} {F : State → Prop} {x : Analysis α} {G H : α → State → Prop}

theorem and (hx : Within s₀ F x G) (hx' : Within s₀ F x H) : Within s₀ F x fun a s => G a s ∧ H a s :=
  fun s h₀ hF => ⟨(hx s h₀ hF).1, fun a s' h => ⟨(hx s h₀ hF).2 a s' h, (hx' s h₀ hF).2 a s' h⟩⟩

/-- An item is added, to be worked on. -/
theorem addItem {item : Item} (hs₀ : s₀.Grounded) (h : ∀ c, item.entity = .cls c → c.filing = ([], none)) :
    Within s₀ s₀.Vouched (Analysis.addItem item) fun i s => s₀.Builds i s := by
  have hadd : Faithful (Analysis.addItem item) := Analysis.addClass_faithful h
  intro s h₀ hF
  have hs := h₀.grounded hs₀
  have hlast := Within.of_faithful hs₀ hadd (Lasts.vouched hs₀) s h₀ hF
  refine ⟨hlast.1, ?_⟩
  rintro _ _ ⟨⟩
  refine ⟨hlast.2 _ _ rfl, h₀.table.size_le, ?_, fun c hmem => ?_, ?_⟩
  · show s.table.items.size < (s.table.addItem item).2.items.size
    rw [SymbolTable.size_addItem]
    exact Nat.lt_succ_self _
  · -- what is filed is a function that was there before
    obtain ⟨cls, hcls, hmem⟩ := SymbolTable.mem_constructorsOf_iff.1 hmem
    replace hcls : ((s.table.addItem item).2.item? c).bind Item.class? = some cls := hcls
    rw [SymbolTable.item?_addItem] at hcls
    split at hcls
    · have hentity : item.entity = .cls cls := by
        replace hcls : item.class? = some cls := hcls
        unfold Item.class? at hcls
        split at hcls <;> simp_all
      have hnil : cls.constructors = [] := congrArg Prod.fst (h cls hentity)
      rw [hnil] at hmem
      cases hmem
    · have hold := SymbolTable.mem_constructorsOf_iff.2 ⟨cls, hcls, hmem⟩
      obtain ⟨f, hf⟩ := hs.filed.functions c _ hold
      exact Nat.lt_irrefl _ (SymbolTable.lt_of_function? hf)
  · show s.classes.lookup ⟨s.table.items.size⟩ = none
    rw [Option.eq_none_iff_forall_not_mem]
    exact fun source hsource => Nat.lt_irrefl _ (hs.lt_of_lookup hsource)

/-- A function is added, to be worked on. -/
theorem addFunction {item : Item} {f : Function} (hs₀ : s₀.Grounded) (hf : item.entity = .fn f) :
    Within s₀ s₀.Vouched (Analysis.addItem item) fun i s => s₀.Builds i s ∧ s₀.Signs i s := by
  have hplain : ∀ c, item.entity = .cls c → c.filing = ([], none) := by
    intro c hc
    cases hf.symm.trans hc
  have hbuilds := addItem hs₀ hplain
  intro s h₀ hF
  obtain ⟨hhonours, hrun⟩ := hbuilds s h₀ hF
  refine ⟨hhonours, ?_⟩
  rintro _ _ ⟨⟩
  have hb := hrun _ _ rfl
  refine ⟨hb, hb.vouched, hb.fresh, f, ?_⟩
  show ((s.table.addItem item).2.item? ⟨s.table.items.size⟩).bind Item.function? = some f
  rw [SymbolTable.item?_addItem, if_pos rfl, Option.bind_some, Item.function?, hf]

/-- A class without a declaration is given members. -/
theorem giveMembers {i : ItemId} {g : Class → Class}
    (hg : ∀ c, (g c).flags.bitfield = c.flags.bitfield ∧ (g c).filing = c.filing) :
    Within s₀ (s₀.Builds i) (Analysis.change (·.modifyClass i g)) fun _ => s₀.Vouched := by
  refine .change fun s h₀ hs => ?_
  have houtline : ∀ c source, s.classes.lookup c = some source →
      ((s.table.modifyClass i g).class? c).map Class.outline = (s.table.class? c).map Class.outline := by
    intro c source hsource
    have hne : c ≠ i := by
      rintro rfl
      rw [hs.unlisted] at hsource
      cases hsource
    rw [SymbolTable.class?_modifyClass, if_neg hne]
  exact ⟨h₀.retable (h₀.table.trans (.modifyClass hg)) houtline,
    hs.vouched.retable houtline (funext fun j => s.table.var?_modifyClass i j g)⟩

end Within

namespace Analysis

variable {α : Type} {frame : Frame} {node : Node} {scope : ScopeId}
variable {position : Position} {an : Analyst}

/-! ## Errors and captures -/

@[grind ←] theorem raise_faithful {ty : Ty} : Faithful (raise scope ty) :=
  .of_spares (fun _ _ => .raise) (fun _ => rfl) (fun _ => rfl) fun _ => Nat.le_refl _

@[grind ←] theorem linkThrows_faithful {callee : ItemId} :
    Faithful (linkThrows callee scope) :=
  .of_spares (fun _ _ => .link) (fun _ => rfl) (fun _ => rfl) fun _ => Nat.le_refl _

@[grind ←] theorem noteCapture_faithful {item : ItemId} :
    Faithful (noteCapture item scope) := by
  unfold noteCapture
  grind

@[grind ←] theorem addCapturedMember_faithful {module : ModuleId} {item : ItemId} :
    Faithful (addCapturedMember scope module position item) := by
  unfold addCapturedMember
  grind

@[grind ←] theorem makeCaptureHolder_faithful {lambda : ItemId} {entry : Item} {own : ScopeId}
    {captured : List ItemId} :
    Faithful (makeCaptureHolder lambda entry own captured) := by
  refine Within.faithful_of_vouched fun s₀ hs₀ => ?_
  unfold makeCaptureHolder
  refine .bind_faithful hs₀ newScope_faithful (.vouched hs₀) fun holderScope => ?_
  refine .bind (.addItem hs₀ (by rintro c ⟨⟩; rfl)) fun holder => ?_
  refine .bind_faithful hs₀ setOwner_faithful (State.lasts_builds hs₀) fun _ => ?_
  refine .bind_faithful hs₀ (.filterMapM fun _ => addCapturedMember_faithful) (State.lasts_builds hs₀) fun _ => ?_
  refine .bind (.giveMembers fun _ => ⟨rfl, rfl⟩) fun _ => ?_
  refine .of_faithful hs₀ ?_ (.vouched hs₀)
  refine .bind (change_faithful fun _ => .modifyFunction fun _ => rfl) fun _ => ?_
  exact .bind (change_faithful fun _ => .modifyHoisted fun _ => rfl) fun _ => change_faithful fun _ => .modifyModule

@[grind ←] theorem sealCaptures_faithful {lambda : ItemId} :
    Faithful (sealCaptures lambda) := by
  unfold sealCaptures
  refine .bind look_faithful fun entry => .bind look_faithful fun f => ?_
  split
  · split
    · exact .pure
    · refine .bind (change_faithful fun _ => .modifyFunction fun _ => rfl) fun _ => ?_
      split
      · exact .pure
      · exact makeCaptureHolder_faithful
  · exact .pure

@[grind ←] theorem runDeferred_faithful {d : Deferred} : Faithful (runDeferred d) := by
  cases d with
  | surfaceErrors callee site =>
    exact .of_spares (fun _ _ => .run) (fun _ => rfl) (fun _ => rfl) fun _ => Nat.le_refl _
  | sealCaptures lambda => exact sealCaptures_faithful

@[grind ←] theorem finishFunction_faithful {item : ItemId} :
    Faithful (finishFunction item) := by
  unfold finishFunction
  grind

@[grind ←] theorem sealWhenDone_faithful {lambda : ItemId} :
    Faithful (sealWhenDone lambda scope) := by
  unfold sealWhenDone
  grind

/-! ## Names -/

@[grind ←] theorem missingName_faithful {name : String} {exclude : List EntityKind} :
    Faithful (missingName name scope exclude position : Analysis α) := by
  unfold missingName
  grind

@[grind ←] theorem followPath_faithful {exclude : List EntityKind} {current : ItemId}
    {walked rest : List Ident} :
    Faithful (followPath scope exclude position current walked rest) := by
  induction rest generalizing current walked with
  | nil => exact .pure
  | cons segment rest ih =>
    unfold followPath
    grind

@[grind ←] theorem resolvePath_faithful {path : List Ident} {exclude : List EntityKind} :
    Faithful (resolvePath path scope exclude position) := by
  unfold resolvePath
  grind

@[grind ←] theorem checkRedeclaration_faithful {name : String} :
    Faithful (checkRedeclaration name scope position) := by
  unfold checkRedeclaration
  grind

@[grind ←] theorem bindAlias_faithful {module : ModuleId} {name : String} {target : ItemId}
    {v : Visibility} :
    Faithful (bindAlias module scope name target v position) := by
  unfold bindAlias
  grind

@[grind ←] theorem exportItem_faithful {module : ModuleId} {name : String} {target : ItemId} :
    Faithful (exportItem module name target position) := by
  unfold exportItem
  grind

/-! ## Uses -/

@[grind ←] theorem checkAssignable_faithful {value : Expr} {src dst : Ty} :
    Faithful (checkAssignable frame value src dst position) := by
  unfold checkAssignable
  grind

@[grind ←] theorem attributeValue_faithful (han : an.Faithful) {a : AttributeArgument Expr} :
    Faithful (attributeValue an frame scope position a) := by
  unfold attributeValue
  grind

@[grind ←] theorem applyAttribute_faithful (han : an.Faithful) {subject : Subject} {a : Attribute Expr} :
    Faithful (applyAttribute an frame subject node scope a) := by
  unfold applyAttribute
  refine .bind_get fun s hs => ?_
  split
  · exact .pure
  · rename_i registration index hfind
    have hspares := hs.honest registration (AttributeTable.mem_of_find? hfind)
    refine .bind (.mapM fun _ => attributeValue_faithful han) fun arguments => ?_
    refine .bind (.alter fun _ => rfl) fun _ => .bind (make_faithful fun t => hspares _ t) fun outcome => ?_
    grind

@[grind ←] theorem applyAttributes_faithful (han : an.Faithful) {subject : Subject}
    {attributes : List (Attribute Expr)} :
    Faithful (applyAttributes an frame attributes subject node scope) := by
  unfold applyAttributes
  grind

/-! ## Signatures -/

section Signatures

variable {decl : FunctionDef} {cls : Option ItemId} {item : ItemId}

@[grind ←] theorem createFunction_faithful {name : String} {generics : Nat} :
    Faithful (createFunction frame decl scope name cls generics) := by
  unfold createFunction
  refine .bind newScope_faithful fun own => .bind (addItem_faithful (by simp)) fun item => ?_
  exact setOwner_faithful.bind fun _ => .pure

theorem createFunction_builds {name : String} {generics : Nat} {s₀ : State} (hs₀ : s₀.Grounded) :
    Within s₀ s₀.Vouched (createFunction frame decl scope name cls generics) fun i s =>
      s₀.Builds i s ∧ s₀.Signs i s := by
  unfold createFunction
  refine .bind_faithful hs₀ newScope_faithful (.vouched hs₀) fun own => ?_
  refine .bind (.addFunction hs₀ rfl) fun i => ?_
  exact .bind_faithful hs₀ setOwner_faithful (.and (State.lasts_builds hs₀) (State.lasts_signs hs₀)) fun _ =>
    .pure fun _ hs => hs

@[grind ←] theorem bindParameter_faithful (han : an.Faithful) {written : List (Param Expr)} {function : ItemId}
    {p : Param Expr} {index : Nat} :
    Faithful (bindParameter an frame written function scope p index) := by
  unfold bindParameter
  refine .guard fail_faithful (.bind (type_faithful han) fun ty => ?_)
  refine .bind (addItem_faithful (by simp)) fun item => ?_
  exact recordDeclared_faithful.bind fun _ => .pure

@[grind ←] theorem bindParameters_faithful (han : an.Faithful) {written : List (Param Expr)} {function : ItemId} :
    Faithful (bindParameters an frame written function scope) := by
  unfold bindParameters
  grind

@[grind ←] theorem resultType_faithful (han : an.Faithful) : Faithful (resultType an frame decl scope cls) := by
  unfold resultType
  grind

@[grind ←] theorem generatorParameter_faithful (han : an.Faithful) :
    Faithful (generatorParameter an frame decl scope) := by
  unfold generatorParameter
  grind

/-- A new function is given its parameters. -/
theorem resolveSignature_builds (han : an.Faithful) {s₀ : State} (hs₀ : s₀.Grounded) :
    Within s₀ (fun s => s₀.Builds item s ∧ s₀.Signs item s) (resolveSignature an frame decl item cls) fun _ s =>
      s₀.Builds item s ∧ s₀.Signs item s := by
  have hlasts : Lasts s₀ fun s => s₀.Builds item s ∧ s₀.Signs item s :=
    .and (State.lasts_builds hs₀) (State.lasts_signs hs₀)
  unfold resolveSignature
  refine .bind_faithful hs₀ look_faithful hlasts fun _ => .bind_faithful hs₀ expect_faithful hlasts fun f => ?_
  refine .bind_faithful hs₀ (bindParameters_faithful han) hlasts fun bound => ?_
  refine .bind_faithful hs₀ (resultType_faithful han) hlasts fun result => ?_
  refine .bind_faithful hs₀ (generatorParameter_faithful han) hlasts fun sent => ?_
  refine .bind_faithful hs₀ look_faithful hlasts fun _ => .bind_faithful hs₀ expect_faithful hlasts fun _ => ?_
  refine .change fun s h₀ hs => ⟨h₀.modifyFunction hs.1.fresh (.inr hs.1.unfiled), ?_⟩
  exact ⟨hs.1.modifyFunction, hs.2.modifyFunction⟩

@[grind ←] theorem checkDuplicateFunction_faithful :
    Faithful (checkDuplicateFunction item position) := by
  unfold checkDuplicateFunction
  grind

/-- A new function is filed with a class as a constructor. The other one is the function that it may be a variant
of. -/
theorem fileConstructor_signs {c other : ItemId} {known : Option Function} {entity : Class} {g : Class → Class}
    {s₀ : State} (houtline : ∀ cls, (g cls).outline = cls.outline)
    (hconstructors : ∀ cls, (g cls).constructors = cls.constructors ++ [item])
    (hdefault : (g entity).defaultConstructor =
      entity.defaultConstructor.or (if (known.elim [] (·.params)).isEmpty then some item else none)) :
    Within s₀ (fun s => ((s₀.Signs item s ∧ s₀.Signs other s) ∧ s.table.function? item = known) ∧
        s.table.class? c = some entity)
      (change (·.modifyClass c g)) fun _ s => s₀.Signs item s ∧ s₀.Signs other s := by
  refine .change fun s h₀ ⟨⟨⟨hs, hother⟩, hknown⟩, hentity⟩ => ?_
  obtain ⟨f, hf⟩ := hs.function
  have hsame : ∀ d source, s.classes.lookup d = some source →
      ((s.table.modifyClass c g).class? d).map Class.outline = (s.table.class? d).map Class.outline := by
    intro d source _
    rw [SymbolTable.class?_modifyClass]
    split
    · rw [Option.map_map]
      exact Option.map_congr fun cls _ => houtline cls
    · rfl
  have hfiled : s₀.table.Honours (s.table.modifyClass c g) := by
    refine h₀.table.fileConstructor hs.fresh hf (fun cls => congrArg Prod.fst (houtline cls)) hconstructors ?_
    intro cls hcls
    cases hentity.symm.trans hcls
    rw [hdefault, ← hknown, hf]
    rfl
  have hkeep : ∀ k, s₀.Signs k s → s₀.Signs k { s with table := s.table.modifyClass c g } := fun k hk =>
    { vouched := hk.vouched.retable hsame (funext fun j => s.table.var?_modifyClass c j g)
      fresh := hk.fresh
      function := by
        obtain ⟨f, hf⟩ := hk.function
        exact ⟨f, (s.table.function?_modifyClass c k g).trans hf⟩ }
  exact ⟨h₀.retable hfiled hsame, hkeep item hs, hkeep other hother⟩

/-- A new function is filed with its class. -/
theorem registerMember_signs {c other : ItemId} {s₀ : State} (hs₀ : s₀.Grounded) :
    Within s₀ (fun s => s₀.Signs item s ∧ s₀.Signs other s) (registerMember c item decl) fun _ s =>
      s₀.Signs item s ∧ s₀.Signs other s := by
  have hlasts : Lasts s₀ fun s => s₀.Signs item s ∧ s₀.Signs other s :=
    .and (State.lasts_signs hs₀) (State.lasts_signs hs₀)
  unfold registerMember
  refine .bind_look fun known => .bind_look fun found => .bind_expect fun entity hentity => ?_
  subst hentity
  -- all but constructors are filed under fields that do not count
  have hother : ∀ g : Class → Class, (∀ cls, (g cls).flags.bitfield = cls.flags.bitfield ∧
      (g cls).head = cls.head ∧ (g cls).filing = cls.filing) →
      Within s₀ (fun s => ((s₀.Signs item s ∧ s₀.Signs other s) ∧ s.table.function? item = known) ∧
          s.table.class? c = some entity)
        (change (·.modifyClass c g)) fun _ s => s₀.Signs item s ∧ s₀.Signs other s := fun g hg =>
    (Within.of_faithful hs₀ (change_faithful fun _ => .modifyClass hg) hlasts).imp (fun _ hs => hs.1.1) fun _ _ hs => hs
  cases decl.role with
  | construct =>
    dsimp only
    split
    · rename_i hfirst
      refine fileConstructor_signs (fun _ => rfl) (fun _ => rfl) ?_
      simp_all
    · rename_i hnot
      have hkeep : entity.defaultConstructor =
          entity.defaultConstructor.or (if (known.elim [] (·.params)).isEmpty then some item else none) := by
        cases hdefault : entity.defaultConstructor with
        | none => simp_all
        | some ctor => rfl
      split
      · refine .bind (fileConstructor_signs (fun _ => rfl) (fun _ => rfl) hkeep) fun _ => ?_
        exact .of_faithful hs₀ (change_faithful fun _ => .modifyFunction fun _ => rfl) hlasts
      · exact fileConstructor_signs (fun _ => rfl) (fun _ => rfl) hkeep
  | destruct =>
    dsimp only
    split
    · exact .bind .throw fun _ => hother _ fun _ => ⟨rfl, rfl, rfl⟩
    · exact hother _ fun _ => ⟨rfl, rfl, rfl⟩
  | cast direction => cases direction <;> exact hother _ fun _ => ⟨rfl, rfl, rfl⟩
  | operator | plain | accessor => exact hother _ fun _ => ⟨rfl, rfl, rfl⟩

/-- A new function is given a variant. -/
theorem declareVariant_signs {canonical : ItemId} {entry : Item} {source : Function} {kept : Nat} {s₀ : State}
    (hs₀ : s₀.Grounded) :
    Within s₀ (s₀.Signs canonical) (declareVariant decl canonical entry source cls kept) fun _ s =>
      s₀.Signs canonical s := by
  have hlasts : Lasts s₀ (s₀.Signs canonical) := State.lasts_signs hs₀
  unfold declareVariant
  refine .bind_faithful hs₀ newScope_faithful hlasts fun own => ?_
  refine .bind (G := fun i s => s₀.Signs i s ∧ s₀.Signs canonical s) (.and ?_ ?_) fun i => ?_
  · exact (Within.addFunction hs₀ rfl).imp (fun _ hs => hs.vouched) fun _ _ hs => hs.2
  · exact .of_faithful hs₀ (addItem_faithful (by simp)) hlasts
  have hboth : Lasts s₀ fun s => s₀.Signs i s ∧ s₀.Signs canonical s := .and (State.lasts_signs hs₀) hlasts
  refine .bind_faithful hs₀ setOwner_faithful hboth fun _ => ?_
  refine .bind (G := fun _ s => s₀.Signs i s ∧ s₀.Signs canonical s) (.change fun s h₀ hs => ?_) fun _ => ?_
  · exact ⟨h₀.modifyFunction hs.2.fresh (.inl fun _ => rfl), hs.1.modifyFunction, hs.2.modifyFunction⟩
  refine .bind_faithful hs₀ (change_faithful fun _ => .modifyHoisted fun _ => rfl) hboth fun _ => ?_
  refine .bind_faithful hs₀ (change_faithful fun _ => .modifyModule) hboth fun _ => ?_
  cases cls with
  | none => exact .pure fun _ hs => hs.2
  | some c => exact (registerMember_signs hs₀).imp (fun _ hs => hs) fun _ _ hs => hs.2

/-- A new function is given its variants. -/
theorem declareVariants_signs {canonical : ItemId} {s₀ : State} (hs₀ : s₀.Grounded) :
    Within s₀ (s₀.Signs canonical) (declareVariants decl canonical cls) fun _ s => s₀.Signs canonical s := by
  have hlasts : Lasts s₀ (s₀.Signs canonical) := State.lasts_signs hs₀
  unfold declareVariants
  refine .bind_faithful hs₀ look_faithful hlasts fun _ => .bind_faithful hs₀ look_faithful hlasts fun _ => ?_
  split
  · exact .forM fun _ => declareVariant_signs hs₀
  · exact .pure fun _ hs => hs

@[grind ←] theorem declareFunctionTemplate_faithful :
    Faithful (declareFunctionTemplate frame decl scope cls) := by
  unfold declareFunctionTemplate
  grind

@[grind ←] theorem declareFunction_faithful (han : an.Faithful) :
    Faithful (declareFunction an frame decl scope cls) := by
  unfold declareFunction
  refine .bind declared?_faithful fun known => ?_
  split
  · exact .pure
  split
  · exact declareFunctionTemplate_faithful
  refine Within.faithful_of_vouched fun s₀ hs₀ => ?_
  refine .bind (createFunction_builds hs₀) fun item => .bind (resolveSignature_builds han hs₀) fun _ => ?_
  refine .bind_faithful hs₀ checkDuplicateFunction_faithful (.and (State.lasts_builds hs₀) (State.lasts_signs hs₀))
    fun _ => ?_
  have hrest : Within s₀ (s₀.Signs item) (do
      declareVariants decl item cls
      if decl.keywords.exported then
        discard <| exportItem frame.module decl.itemName item decl.node.position
      recordDeclared frame decl.node item
      return item) fun _ => s₀.Vouched := by
    refine .bind (declareVariants_signs hs₀) fun _ => ?_
    refine (Within.of_faithful hs₀ ?_ (.vouched hs₀)).imp (fun _ hs => hs.vouched) fun _ _ hs => hs
    exact .guard (.discard exportItem_faithful) (recordDeclared_faithful.bind fun _ => .pure)
  cases cls with
  | none => exact hrest.imp (fun _ hs => hs.2) fun _ _ hs => hs
  | some c =>
    refine .bind ((registerMember_signs hs₀).imp (fun _ hs => ⟨hs.2, hs.2⟩) fun _ _ hs => hs.1) fun _ => hrest

end Signatures

/-! ## Instances -/

section Instances

variable {decl : ClassDef} {generics : List Ident} {arguments : List Ty}

/-- A class is new when it is made, and has no fields. -/
theorem createClass_spares (s : State) (frame : Frame) (decl : ClassDef) (scope : ScopeId) (name : String) :
    ∃ (t : SymbolTable) (item : ItemId) (c : Class), s.table.Spares t ∧ s.table.items.size ≤ item.index ∧
      t.class? item = some c ∧ c.outline = (decl.flags.bitfield, none, []) ∧
        createClass frame decl scope name s = .ok item
          { s with table := t, classes := (item, ⟨decl, frame, .declared⟩) :: s.classes } := by
  let made := s.table.newScope scope .block
  let added := made.2.addItem
    { name, scope
      module := frame.module
      visibility := decl.visibility
      position := decl.node.position
      entity := .cls { scope := made.1, flags := decl.flags } }
  let owned := added.2.setOwner made.1 (.cls added.1)
  have hmade : s.table.Spares made.2 := .newScope
  have hadded : made.2.Spares added.2 := .addItem (by rintro c ⟨⟩; rfl)
  have howned : added.2.Spares owned := .setOwner
  have hclass : owned.class? added.1 = some { scope := made.1, flags := decl.flags } := by
    show (added.2.item? added.1).bind Item.class? = _
    rw [SymbolTable.item?_addItem_self]
    rfl
  by_cases hstructural : decl.flags.structural = true
  · refine ⟨owned, added.1, _, (hmade.trans hadded).trans howned, hmade.size_le, hclass, rfl, ?_⟩
    simp only [createClass, hstructural]
    rfl
  · let object := owned.addItem
      { name := "this"
        scope := made.1
        module := frame.module
        visibility := .scopeOnly
        position := decl.node.position
        entity := .var { ty := .cls added.1 } }
    have hobject : owned.Spares object.2 := .addItem (by simp)
    have hlast : object.2.Spares
        (object.2.modifyClass added.1 fun c => { c with thisVariable := some object.1 }) :=
      .modifyClass fun _ => ⟨rfl, rfl, rfl⟩
    have hheads := (hobject.trans hlast).heads added.1 (SymbolTable.lt_of_class? hclass)
    have hflags := (hobject.trans hlast).bitfields added.1 (SymbolTable.lt_of_class? hclass)
    rw [hclass] at hheads hflags
    obtain ⟨c, hc, hhead⟩ := Option.map_eq_some_iff.1 hheads
    rw [hc] at hflags
    refine ⟨_, added.1, c, (((hmade.trans hadded).trans howned).trans hobject).trans hlast, hmade.size_le, hc, ?_, ?_⟩
    · exact Prod.ext (Option.some_inj.1 hflags) hhead
    · simp only [createClass, hstructural]
      rfl

@[grind ←] theorem createClass_faithful {name : String} : Faithful (createClass frame decl scope name) := by
  refine ⟨fun s hs => ?_, fun s a s' hs hrun => ?_⟩
  all_goals
    obtain ⟨t, item, c, hspares, hnew, hc, houtline, heq⟩ := createClass_spares s frame decl scope name
    obtain ⟨hhonours, hvouched⟩ := State.honours_list ⟨decl, frame, .declared⟩ hs hspares hnew hc houtline rfl
  · rwa [behind, heq]
  · cases heq.symm.trans hrun
    exact hvouched

@[grind ←] theorem checkArity_faithful {name : String} :
    Faithful (checkArity name generics arguments position) := by
  unfold checkArity
  grind

@[grind ←] theorem instanceName_faithful {base : String} :
    Faithful (instanceName base arguments) := by
  unfold instanceName
  grind

@[grind ←] theorem bindGenerics_faithful {own : ScopeId} :
    Faithful (bindGenerics frame generics arguments own) := by
  unfold bindGenerics
  grind

@[grind ←] theorem noteGenericDependency_faithful {origin : ModuleId} :
    Faithful (noteGenericDependency origin) := by
  unfold noteGenericDependency
  grind

@[grind ←] theorem noteInstance_faithful {item : ItemId} {module : ModuleId} :
    Faithful (noteInstance frame node item module) := by
  unfold noteInstance
  grind

@[grind ←] theorem instantiateClass_faithful (han : an.Faithful) {template : ItemId} :
    Faithful (instantiateClass an template arguments position) := by
  unfold instantiateClass
  refine .bind template?_faithful fun t => ?_
  split
  · refine .bind checkArity_faithful fun _ => .bind .get fun s => ?_
    split
    · exact .pure
    refine .bind openFrame_faithful fun frame => .bind instanceName_faithful fun name => ?_
    refine .bind createClass_faithful fun item => ?_
    refine .bind (change_faithful fun _ => .modifyClass fun _ => ⟨rfl, rfl, rfl⟩) fun _ => ?_
    refine .bind look_faithful fun _ => .bind expect_faithful fun c => ?_
    refine .bind bindGenerics_faithful fun _ => .bind (.alter fun _ => rfl) fun _ => ?_
    grind
  · grind

@[grind ←] theorem instantiateFunction_faithful (han : an.Faithful) {template : ItemId} :
    Faithful (instantiateFunction an template arguments position) := by
  unfold instantiateFunction
  refine .bind template?_faithful fun t => ?_
  split
  · refine .bind checkArity_faithful fun _ => .bind .get fun s => ?_
    split
    · exact .pure
    refine .bind openFrame_faithful fun frame => .bind instanceName_faithful fun name => ?_
    refine Within.faithful_of_vouched fun s₀ hs₀ => ?_
    have hlasts : ∀ item, Lasts s₀ fun s => s₀.Builds item s ∧ s₀.Signs item s := fun _ =>
      .and (State.lasts_builds hs₀) (State.lasts_signs hs₀)
    refine .bind (createFunction_builds hs₀) fun item => ?_
    refine .bind_faithful hs₀ (change_faithful fun _ => .modifyFunction fun _ => rfl) (hlasts item) fun _ => ?_
    refine .bind_faithful hs₀ look_faithful (hlasts item) fun _ => ?_
    refine .bind_faithful hs₀ expect_faithful (hlasts item) fun f => ?_
    refine .bind_faithful hs₀ bindGenerics_faithful (hlasts item) fun _ => ?_
    refine .bind_faithful hs₀ (.alter fun _ => rfl) (hlasts item) fun _ => ?_
    refine .bind_faithful hs₀ noteInstance_faithful (hlasts item) fun _ => ?_
    refine .bind (resolveSignature_builds han hs₀) fun _ => ?_
    refine .bind ((declareVariants_signs hs₀).imp (fun _ hs => hs.2) fun _ _ hs => hs.vouched) fun _ => ?_
    exact .of_faithful hs₀ (.bind (.alter fun _ => rfl) fun _ => .pure) (.vouched hs₀)
  · exact itemName_faithful.bind fun _ => failOther_faithful

end Instances

end Analysis

end SemanticAnalysis
