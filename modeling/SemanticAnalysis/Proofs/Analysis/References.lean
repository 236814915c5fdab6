import SemanticAnalysis.Proofs.Analysis.Declarations

/-!
# References keep states sound

Types are what parents are taken from, so here every class that comes out of a step has to be traced
to where it exists: a class item that was found, an instance that was made before, or a class that is
new (`createClass_run`). `Makes` is that promise for steps that give a class.
-/

namespace SemanticAnalysis.Analysis

variable {n : Nat} {frame : Frame} {scope : ScopeId} {position : Position} {an an' : Analyst}

/-! ## Instances -/

/-- A class is new when it is made. -/
theorem createClass_run (s : State) (frame : Frame) (decl : ClassDef) (scope : ScopeId)
    (name : String) : ∃ (t : SymbolTable) (item : ItemId), s.table.Extends t ∧
      s.bound ≤ item.index ∧ item.index < t.items.size ∧
        createClass frame decl scope name s =
          .ok item (State.withClass { s with table := t } item ⟨decl, frame, .declared⟩) := by
  let made := s.table.newScope scope .block
  let added := made.2.addItem
    { name, scope
      module := frame.module
      visibility := decl.visibility
      position := decl.node.position
      entity := .cls { scope := made.1, flags := decl.flags } }
  have hmade : s.table.Extends made.2 := .newScope
  have hadded : made.2.Extends added.2 := .addItem rfl (known_entity_cls rfl)
  have hlt : added.1.index < added.2.items.size := by
    rw [SymbolTable.size_addItem]
    exact Nat.lt_succ_self _
  let owned := added.2.setOwner made.1 (.cls added.1)
  have howned : added.2.Extends owned := .setOwner fun c hc => by cases hc; exact hlt
  by_cases hstructural : decl.flags.structural = true
  · refine ⟨owned, added.1, (hmade.trans hadded).trans howned, hmade.size_le,
      Nat.lt_of_lt_of_le hlt howned.size_le, ?_⟩
    simp only [createClass, hstructural]
    rfl
  · let object := owned.addItem
      { name := "this"
        scope := made.1
        module := frame.module
        visibility := .scopeOnly
        position := decl.node.position
        entity := .var { ty := .cls added.1 } }
    have hobject : owned.Extends object.2 :=
      .addItem rfl ((known_cls _).2 (Nat.lt_of_lt_of_le hlt howned.size_le))
    have hlast : object.2.Extends
        (object.2.modifyClass added.1 fun c => { c with thisVariable := some object.1 }) :=
      .modifyClass fun _ => rfl
    refine ⟨_, added.1, (((hmade.trans hadded).trans howned).trans hobject).trans hlast,
      hmade.size_le, ?_, ?_⟩
    · exact Nat.lt_of_lt_of_le hlt ((howned.trans hobject).trans hlast).size_le
    · simp only [createClass, hstructural]
      rfl

theorem createClass_makes {decl : ClassDef} {name : String} :
    Makes n (createClass frame decl scope name) (createClass frame decl scope name) := by
  intro s hs _
  obtain ⟨t, item, ht, hnew, hlt, hrun⟩ := createClass_run s frame decl scope name
  have hgrows : s.Grows { s with table := t } := .of_table ht
  rw [Runs, hrun]
  exact ⟨rfl, hgrows.sound_withClass hs hnew, hgrows.onward_withClass hnew, hlt⟩

@[grind ←] theorem checkArity_keeps {name : String} {generics : List Ident} {arguments : List Ty} :
    Keeps n (checkArity name generics arguments position)
      (checkArity name generics arguments position) := by
  unfold checkArity
  grind

@[grind ←] theorem instanceName_keeps {base : String} {arguments : List Ty} :
    Keeps n (instanceName base arguments) (instanceName base arguments) := by
  unfold instanceName
  grind

@[grind ←] theorem bindGenerics_keeps {generics : List Ident} {arguments : List Ty} {own : ScopeId}
    (h : Known n arguments) :
    Keeps n (bindGenerics frame generics arguments own)
      (bindGenerics frame generics arguments own) := by
  refine .forM fun p hp m hm => ?_
  obtain ⟨g, ty⟩ := p
  have hty : Known m ty := (h.mem (List.of_mem_zip hp).2).mono hm
  exact .discard (addItem_keeps rfl hty)

@[grind ←] theorem noteGenericDependency_keeps {origin : ModuleId} :
    Keeps n (noteGenericDependency origin) (noteGenericDependency origin) := by
  unfold noteGenericDependency
  grind

@[grind ←] theorem noteInstance_keeps {node : Node} {item : ItemId} {module : ModuleId} :
    Keeps n (noteInstance frame node item module) (noteInstance frame node item module) := by
  unfold noteInstance
  refine .bind (aside_keeps fun _ => rfl) fun _ _ _ _ => ?_
  grind

theorem instantiateClass_makes (han : an.Agrees an') {template : ItemId} {arguments : List Ty}
    (h : Known n arguments) :
    Makes n (instantiateClass an template arguments position)
      (instantiateClass an' template arguments position) := by
  unfold instantiateClass
  refine .bind template?_keeps fun t m hm _ => ?_
  split
  · refine .bind checkArity_keeps fun _ k hk _ => ?_
    refine .bind get_keeps fun s k₁ hk₁ hs => ?_
    split
    · rename_i inst hinst
      exact .pure ((known_state.1 hs).2.2.1.findClass hinst)
    · refine .bind openFrame_keeps fun frame k₂ hk₂ _ => ?_
      refine .bind instanceName_keeps fun name k₃ hk₃ _ => ?_
      refine .bind_makes createClass_makes fun item k₄ hk₄ hitem => ?_
      refine .bind (by grind) fun _ k₅ hk₅ _ => ?_
      refine .bind (by grind) fun c k₆ hk₆ _ => ?_
      refine .bind (by grind) fun c k₇ hk₇ _ => ?_
      refine .bind (bindGenerics_keeps (h.mono (by grind))) fun _ k₈ hk₈ _ => ?_
      refine .bind (modify_keeps fun s hs => .of_instances fun hinstances => ?_) fun _ k₉ hk₉ _ => ?_
      · exact known_insertClass hinstances (by grind)
      refine .bind noteInstance_keeps fun _ k₁₀ hk₁₀ _ => ?_
      refine .bind (han.keeps _) fun _ k₁₁ hk₁₁ _ => ?_
      refine .bind (aside_keeps fun _ => rfl) fun _ k₁₂ hk₁₂ _ => ?_
      exact .pure (by grind)
  · refine .bind itemName_keeps fun _ _ _ _ => ?_
    exact .throw _

@[grind ←] theorem instantiateFunction_keeps (han : an.Agrees an') {template : ItemId}
    {arguments : List Ty} (h : Known n arguments) :
    Keeps n (instantiateFunction an template arguments position)
      (instantiateFunction an' template arguments position) := by
  unfold instantiateFunction
  refine .bind template?_keeps fun t m hm ht => ?_
  split
  · rename_i decl scope module cls
    have hcls : ∀ c, cls = some c → c.index < m := (known_fnTemplate decl scope module cls).1 ht
    refine .bind checkArity_keeps fun _ k hk _ => ?_
    refine .bind get_keeps fun s k₁ hk₁ hs => ?_
    split
    · exact .idle
    · refine .bind openFrame_keeps fun frame k₂ hk₂ _ => ?_
      refine .bind instanceName_keeps fun name k₃ hk₃ _ => ?_
      refine .bind createFunction_keeps fun item k₄ hk₄ hitem => ?_
      refine .bind (by grind) fun _ k₅ hk₅ _ => ?_
      refine .bind (by grind) fun c k₆ hk₆ _ => ?_
      refine .bind (by grind) fun c k₇ hk₇ _ => ?_
      refine .bind (bindGenerics_keeps (h.mono (by grind))) fun _ k₈ hk₈ _ => ?_
      refine .bind (aside_keeps fun _ => rfl) fun _ k₉ hk₉ _ => ?_
      refine .bind noteInstance_keeps fun _ k₁₀ hk₁₀ _ => ?_
      refine .bind (resolveSignature_keeps han (by grind)) fun _ k₁₁ hk₁₁ _ => ?_
      refine .bind declareVariants_keeps fun _ k₁₂ hk₁₂ _ => ?_
      refine .bind (aside_keeps fun _ => rfl) fun _ _ _ _ => ?_
      exact .idle
  · refine .bind itemName_keeps fun _ _ _ _ => ?_
    exact failOther_keeps

/-! ## Written types -/

@[grind ←] theorem resolveTypes_keeps (han : an.Agrees an') {ts : List TypeExpr} :
    Keeps n (resolveTypes an frame ts scope) (resolveTypes an' frame ts scope) :=
  .mapM fun _ _ _ _ => type_keeps han

theorem resolveClass_makes (han : an.Agrees an') {cls : ItemId} {name : String}
    {typeArgs : List TypeExpr} (hcls : cls.index < n) :
    Makes n (resolveClass an frame cls name typeArgs scope position)
      (resolveClass an' frame cls name typeArgs scope position) := by
  unfold resolveClass
  refine .bind (by grind) fun item m hm _ => ?_
  refine .guard fail_keeps fun k hk => ?_
  split
  · exact .pure (by grind)
  · refine .bind (resolveTypes_keeps han) fun arguments k₁ hk₁ harguments => ?_
    exact instantiateClass_makes han harguments

@[grind ←] theorem resolveNamedType_keeps (han : an.Agrees an') {path : List Ident}
    {typeArgs : List TypeExpr} :
    Keeps n (resolveNamedType an frame path typeArgs scope position)
      (resolveNamedType an' frame path typeArgs scope position) := by
  unfold resolveNamedType
  dsimp only
  split <;> try split
  · exact .pure (known_native _)
  all_goals
    refine .bind resolvePath_keeps fun item m hm _ => ?_
    refine .bind_item fun entry k hk hentry hitem => ?_
    split
    · refine .bind_makes (resolveClass_makes han hitem) fun cls _ _ hcls => ?_
      exact .pure ((known_cls cls).2 hcls)
    · grind
    · exact failOther_keeps

@[grind ←] theorem resolveTypeParam_keeps (han : an.Agrees an') {p : TypeParam TypeExpr}
    {index : Nat} :
    Keeps n (resolveTypeParam an frame scope p index) (resolveTypeParam an' frame scope p index) := by
  unfold resolveTypeParam
  exact .bind (type_keeps han) fun ty m _ hty => .pure hty

@[grind ←] theorem resolveForm_keeps (han : an.Agrees an') {t : TypeExpr} :
    Keeps n (resolveForm an frame t scope) (resolveForm an' frame t scope) := by
  unfold resolveForm
  split
  · exact .pure (known_native _)
  · exact .pure known_any
  · refine .bind_gives enclosingClass_gives fun o m hm ho => ?_
    split
    · exact .pure ((known_cls _).2 (ho _ rfl))
    · exact misplaced_keeps
  · exact .bind (type_keeps han) fun ty m _ hty => .pure ((known_optional ty).2 hty)
  · exact .bind (resolveTypes_keeps han) fun ts m _ hts => .pure (known_union hts)
  · refine .bind (.mapM fun _ _ _ _ => resolveTypeParam_keeps han) fun params m hm hparams => ?_
    refine .bind (type_keeps han) fun result k hk hresult => .pure ?_
    exact (known_function _).2 (known_signature.2 ⟨hparams.mono hk, hresult⟩)
  · exact resolveNamedType_keeps han

@[grind ←] theorem resolveType_keeps (han : an.Agrees an') {t : TypeExpr} :
    Keeps n (resolveType an frame t scope) (resolveType an' frame t scope) := by
  unfold resolveType
  exact .bind (resolveForm_keeps han) fun ty m _ hty => .pure (known_qualified t.layers hty)

/-! ## References -/

theorem known_ofType {ty : Ty} {item : Option ItemId} (h : Known n ty) :
    Known n (NameDetail.ofType ty item) := known_nameDetail.2 ⟨h, h⟩

@[grind ←] theorem known_propertyType {t : SymbolTable} {getter setter : Option ItemId}
    (h : Known n t) : Known n (propertyType t getter setter) := by
  unfold propertyType
  grind

@[grind ←] theorem propertyDetail_keeps {functions : List ItemId} {getter setter : Option ItemId}
    {isMethod : Bool} {access : Access} {name : String} :
    Keeps n (propertyDetail functions getter setter isMethod access name position)
      (propertyDetail functions getter setter isMethod access name position) := by
  unfold propertyDetail
  dsimp only
  split
  · exact .stop
  · refine .bind (by grind) fun ty m hm hty => ?_
    exact .pure (known_nameDetail.2 ⟨known_withoutOuterReferences hty, known_of_nil rfl⟩)

@[grind ←] theorem known_functionType {t : SymbolTable} {f : ItemId} (h : Known n t) :
    Known n (functionType t f) := by
  unfold functionType
  grind

@[grind ←] theorem instanceDetail_keeps (han : an.Agrees an') {functions : List ItemId}
    {typeArgs : List TypeExpr} {isMethod : Bool} {name : String} :
    Keeps n (instanceDetail an frame functions typeArgs scope isMethod name position)
      (instanceDetail an' frame functions typeArgs scope isMethod name position) := by
  unfold instanceDetail
  refine .bind (by grind) fun table m hm _ => ?_
  dsimp only
  split
  · exact fail_keeps
  · refine .bind (resolveTypes_keeps han) fun arguments k hk harguments => ?_
    refine .bind (instantiateFunction_keeps han harguments) fun inst k₁ hk₁ _ => ?_
    refine .bind (by grind) fun table k₂ hk₂ htable => ?_
    exact .pure (known_nameDetail.2 ⟨known_functionType htable, known_of_nil rfl⟩)

@[grind ←] theorem functionDetail_keeps (han : an.Agrees an') {found : List ItemId}
    {typeArgs : List TypeExpr} {access : Access} {name : String} :
    Keeps n (functionDetail an frame found typeArgs scope access name position)
      (functionDetail an' frame found typeArgs scope access name position) := by
  unfold functionDetail
  refine .bind (by grind) fun table m hm htable => ?_
  dsimp only
  split
  · exact propertyDetail_keeps
  · split
    · exact instanceDetail_keeps han
    · refine .pure (known_nameDetail.2
        ⟨known_getD (known_optionMap ?_ ?_) known_any, known_of_nil rfl⟩)
      · exact known_of_namesNone m _
      · exact fun _ _ _ => known_functionType htable

@[grind ←] theorem nameDetail_keeps (han : an.Agrees an') {first : ItemId} {found : List ItemId}
    {typeArgs : List TypeExpr} {access : Access} {name : String} :
    Keeps n (nameDetail an frame first found typeArgs scope access name position)
      (nameDetail an' frame first found typeArgs scope access name position) := by
  unfold nameDetail
  refine .bind_item fun entry m hm hentry hfirst => ?_
  rw [known_item] at hentry
  split
  · rename_i v hv
    rw [hv] at hentry
    refine .bind noteCapture_keeps fun _ k hk _ => .pure (known_nameDetail.2 ⟨?_, known_of_nil rfl⟩)
    exact Known.mono (a := v.ty) hentry hk
  · exact functionDetail_keeps han
  · refine .bind_makes (resolveClass_makes han hfirst) fun cls k _ hcls => ?_
    exact .pure (known_ofType ((known_cls cls).2 hcls))
  · rename_i ty hty
    rw [hty] at hentry
    exact .pure (known_ofType hentry)
  · exact .pure (known_nameDetail.2 ⟨known_any, known_of_nil rfl⟩)
  · exact .throw _

theorem known_name {d : NameDetail} (h : Known n d) : Known n (Detail.name d) :=
  (known_nameDetail.1 h).2

theorem known_member {d : NameDetail} (h : Known n d) : Known n (Detail.member d) :=
  (known_nameDetail.1 h).2

@[grind ←] theorem detailName_keeps (han : an.Agrees an') {node : Node} {ident : Ident}
    {typeArgs : List TypeExpr} {access : Access} :
    Keeps n (detailName an frame node ident typeArgs scope access)
      (detailName an' frame node ident typeArgs scope access) := by
  unfold detailName
  dsimp only
  refine .bind (by grind) fun found m hm _ => ?_
  have hlast : ∀ (d : NameDetail) k, Later m k → Known k d → Keeps k
      (record frame node (.name d) >>= fun _ => pure d.info)
      (record frame node (.name d) >>= fun _ => pure d.info) := fun d k _ hd =>
    .bind (record_keeps (known_name hd)) fun _ _ hk _ => .pure (known_nameDetail.1 (hd.mono hk)).1
  split
  · split
    · exact .bind (.pure (known_ofType (known_native _))) hlast
    · exact .bind missingName_keeps hlast
  · exact .bind (nameDetail_keeps han) hlast

theorem known_meaning {d : Detail} {nd : NameDetail} (h : Known n d) (hnd : d.name? = some nd) :
    Known n nd.meaning := known_detail.1 h nd hnd

@[grind ←] theorem meaningOf?_keeps {e : Expr} :
    Keeps n (meaningOf? frame e) (meaningOf? frame e) := by
  unfold meaningOf?
  refine .bind detail?_keeps fun d m _ hd => .pure ?_
  cases d with
  | none => exact known_none
  | some d =>
    cases hnd : d.name? with
    | none => simp [hnd, known_none]
    | some nd => simpa [hnd, known_some] using known_meaning hd hnd

@[grind ←] theorem findMembers_keeps (han : an.Agrees an') {cls : ItemId} {name : String} :
    Keeps n (findMembers an cls name scope position) (findMembers an' cls name scope position) := by
  unfold findMembers
  refine .bind (han.keeps _) fun _ m _ _ => ?_
  grind

@[grind ←] theorem foundMember_keeps (han : an.Agrees an') {node : Node} {found : List ItemId}
    {typeArgs : List TypeExpr} {access : Access} {name : String} {constantObject : Bool} :
    Keeps n (foundMember an frame node found typeArgs scope access name constantObject)
      (foundMember an' frame node found typeArgs scope access name constantObject) := by
  unfold foundMember
  split
  · exact fail_keeps
  · refine .bind (nameDetail_keeps han) fun d m hm hd => ?_
    obtain ⟨hinfo, hmeaning⟩ := known_nameDetail.1 hd
    refine .bind (by grind) fun isVariable k hk _ => ?_
    refine .bind (record_keeps (known_member (known_nameDetail.2 ⟨?_, ?_⟩))) fun _ k₁ hk₁ _ => ?_
    · grind
    · exact hmeaning.mono hk
    · exact .pure (by grind)

@[grind ←] theorem detailMember_keeps (han : an.Agrees an') {node : Node} {object : Expr}
    {member : Ident} {typeArgs : List TypeExpr} {access : Access} :
    Keeps n (detailMember an frame node object member typeArgs scope access)
      (detailMember an' frame node object member typeArgs scope access) := by
  unfold detailMember
  refine .bind (expr_keeps han) fun info m hm hinfo => ?_
  refine .bind meaningOf?_keeps fun meaning k hk hmeaning => ?_
  split
  · refine .bind (by grind) fun own k₁ hk₁ _ => .bind (by grind) fun found k₂ hk₂ _ => ?_
    exact foundMember_keeps han
  · split
    · refine .bind (han.keeps _) fun _ k₁ hk₁ _ => .bind (by grind) fun found k₂ hk₂ _ => ?_
      exact foundMember_keeps han
    · exact foundMember_keeps han
  · dsimp only
    split
    · exact .bind (record_keeps (known_of_nil rfl)) fun _ _ _ _ => .pure known_any
    · split
      · exact .bind typeText_keeps fun _ _ _ _ => failOther_keeps
      · exact .bind (findMembers_keeps han) fun found _ _ _ => foundMember_keeps han

theorem methodClass_makes {construct : String} :
    Makes n (methodClass scope construct position) (methodClass scope construct position) := by
  unfold methodClass
  have hlook : Gives n (fun m t => Known m t) (look id) (look id) := look_gives fun _ ht => ht
  refine Gives.bind hlook fun table m hm htable => ?_
  dsimp only
  split
  · rename_i c hc _
    exact Makes.pure (SymbolTable.enclosingClass_lt htable hc)
  · exact Makes.throw _

theorem firstParent_makes {cls : ItemId} {construct : String} :
    Makes n (firstParent cls construct position) (firstParent cls construct position) := by
  unfold firstParent
  have hlook : Gives n (fun m o => Known m o) (look (·.class? cls)) (look (·.class? cls)) :=
    look_gives fun _ ht => SymbolTable.known_class? ht
  refine Gives.bind hlook fun c m hm hc => ?_
  split
  · rename_i parent hparent
    obtain ⟨c, rfl, hhead⟩ := Option.bind_eq_some_iff.1 hparent
    exact Makes.pure (known_class.1 hc parent (List.mem_of_mem_head? hhead))
  · exact Makes.throw _

@[grind ←] theorem detailThis_keeps {node : Node} :
    Keeps n (detailThis frame node scope) (detailThis frame node scope) := by
  unfold detailThis
  refine .bind_makes methodClass_makes fun cls m hm hcls => ?_
  refine .bind (recordUnnamed_keeps rfl) fun _ k hk _ => .pure ((known_cls cls).2 ?_)
  exact Nat.lt_of_lt_of_le hcls hk

@[grind ←] theorem detailSuper_keeps {node : Node} :
    Keeps n (detailSuper frame node scope) (detailSuper frame node scope) := by
  unfold detailSuper
  refine .bind_makes methodClass_makes fun cls m hm _ => ?_
  refine .bind_makes firstParent_makes fun parent m hm hparent => ?_
  refine .bind (recordUnnamed_keeps rfl) fun _ k hk _ => .pure ((known_cls parent).2 ?_)
  exact Nat.lt_of_lt_of_le hparent hk

end SemanticAnalysis.Analysis
