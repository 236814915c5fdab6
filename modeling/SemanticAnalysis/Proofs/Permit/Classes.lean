import SemanticAnalysis.Proofs.Permit.Expressions

/-!
# Classes pay

A class is made by whoever declares it, and keeps the permits of its members: those of their heads until
its own head is resolved, those of their bodies until somebody comes who has the right to open it. The
member functions that the analysis makes are kept in the same way.
-/

namespace SemanticAnalysis.Analysis

variable {α : Type} {frame : Frame} {node : Node} {scope : ScopeId}
variable {position : Position} {an : Analyst} {s : State} {held : Holding}

/-! ## Class heads -/

section ClassHeads

variable {decl : ClassDef} {item : ItemId}

/-- The tree of a generic class is filed by somebody who holds its nodes. -/
theorem declareClassTemplate_gives (frame : Frame) (decl : ClassDef) (scope : ScopeId)
    (hs : s.Accounts (decl.declareCost frame.id + held)) : ∃ item s',
      declareClassTemplate frame decl scope s = .ok item s' ∧ s.Continues s' ∧
        s'.Accounts (DetailKey.permit ⟨frame.id, decl.node.id⟩ .declare +
          DetailKey.permit ⟨frame.id, decl.node.id⟩ .ordinary + held) ∧
        (Lasting.fits item ⟨frame.id, decl.node.id⟩).holds s' := by
  let k : DetailKey := ⟨frame.id, decl.node.id⟩
  unfold declareClassTemplate
  obtain ⟨own, item, s₁, hrun, hsteady, hfresh, hlt, -⟩ := declare_gives s scope
    (fun own => { name := decl.name.name, scope, module := frame.module, visibility := decl.visibility
                  position := decl.node.position, generics := decl.generics.length
                  entity := .cls { scope := own, flags := decl.flags } }) ScopeOwner.cls
  rw [hrun]
  let s₂ : State := { s₁ with templates := (item, .cls decl scope frame.module) :: s₁.templates }
  have hs₂ : s₂.Accounts (decl.declareCost frame.id + held) := by
    refine (hsteady.accounts hs).fileTemplate (f := frame.id) fun n => ?_
    simp [Template.ids, ClassDecl.declareCost, DetailKey.opening, DetailKey.permit]
  have hpaid : s₂.Accounts (k.permit .detail + (k.permit .declare + k.permit .ordinary + held)) := by
    refine hs₂.of_le fun p => ?_
    have hmembers := decl.memberCosts_le_declareCost frame.id p
    simp only [k, ClassDecl.bodyCost, Pi.add_apply] at *
    omega
  obtain ⟨details, hrecord, hs₃⟩ := record_gives (d := .cls { cls := item, isTemplate := true }) hpaid
  refine ⟨item, _, bind_ok hrecord, ?_, hs₃, hlt, fun known hknown => ?_⟩
  · have hfiled : s₁.Continues { s₂ with details } :=
      { State.Continues.refl s₁ with templates := fun _ h => List.mem_cons_of_mem _ h }
    exact hsteady.continues.trans hfiled
  · -- no class was made of the new item
    have hold : item.index < s.table.items.size :=
      hs.classes_lt _ (mem_of_lookup (hsteady.classes ▸ hknown))
    omega

/-- A class is declared, once per frame. -/
theorem declareClass_spends :
    Spends (decl.declareCost frame.id) (declareClass frame decl scope) := by
  let k : DetailKey := ⟨frame.id, decl.node.id⟩
  have hlast (item : ItemId) : SpendsWhile (.fits item k) (k.permit .declare + k.permit .ordinary) (do
      let isModuleScope ← look fun t => (t.module? frame.module).any (·.scope == scope)
      if decl.flags.exported && isModuleScope then
        discard <| exportItem frame.module decl.name.name item decl.node.position
      recordDeclared frame decl.node item
      return item : Analysis ItemId) := by
    refine .after look_quiet fun isModuleScope => .guard exportItem_quiet.discard ?_
    exact recordDeclared_class.before fun _ => .pure
  unfold declareClass
  refine .after declared?_quiet fun known => ?_
  split
  · exact .pure
  refine .after checkRedeclaration_quiet fun _ s held hs => ?_
  dsimp only
  by_cases hgeneric : decl.isGeneric = true
  · rw [if_pos hgeneric]
    obtain ⟨item, s', hrun, hcontinues, hs', hfits⟩ := declareClassTemplate_gives frame decl scope hs
    rw [bind_ok hrun]
    exact .after hcontinues (hlast item s' held hfits hs')
  · rw [if_neg hgeneric]
    have hpaid : s.Accounts (k.permit .create + (decl.headCost frame.id + decl.bodyCost frame.id) +
        (k.permit .declare + k.permit .ordinary + held)) := by
      refine hs.of_le fun p => ?_
      have hmembers := decl.memberCosts_le_declareCost frame.id p
      simp only [k, Pi.add_apply] at *
      omega
    obtain ⟨item, s', hrun, hcontinues, hs', hsource, hlt⟩ :=
      createClass_gives frame decl scope decl.name.name hpaid
    rw [bind_ok hrun]
    refine .after hcontinues (hlast item s' held ⟨hlt, fun known hknown => ?_⟩ hs')
    cases hsource.symm.trans hknown
    rfl

theorem declareClass_declares :
    Declares ⟨frame.id, decl.node.id⟩ (declareClass frame decl scope) := by
  have hlast (item : ItemId) : Declares ⟨frame.id, decl.node.id⟩ (do
      let isModuleScope ← look fun t => (t.module? frame.module).any (·.scope == scope)
      if decl.flags.exported && isModuleScope then
        discard <| exportItem frame.module decl.name.name item decl.node.position
      recordDeclared frame decl.node item
      return item : Analysis ItemId) := by
    refine .bind fun isModuleScope => ?_
    split
    · exact .bind fun _ => .last
    · exact .last
  unfold declareClass
  refine .unless_known (fun _ => rfl) (.bind fun _ => ?_)
  dsimp only
  split
  · exact .bind hlast
  · exact .bind hlast

@[grind ←] theorem classScope_quiet : Quiet (classScope item) := by
  unfold classScope
  grind

@[grind ←] theorem resolveParent_quiet (han : an.Sparing) {earlier : List ItemId}
    {written : TypeExpr} : Quiet (resolveParent an frame item scope earlier written) := by
  unfold resolveParent
  refine .bind (type_quiet han) fun ty => ?_
  split
  · exact .bind typeText_quiet fun _ => failOther_quiet
  · refine .bind (signatures_quiet han) fun _ => .bind look_quiet fun _ => ?_
    grind

@[grind ←] theorem resolveParents_quiet (han : an.Sparing) :
    Quiet (resolveParents an frame decl item scope) := by
  unfold resolveParents
  exact .foldlM fun parents written => .bind (resolveParent_quiet han) fun _ => .pure

@[grind ←] theorem resolveUnderlying_quiet (han : an.Sparing) :
    Quiet (resolveUnderlying an frame decl item scope) := by
  unfold resolveUnderlying
  grind

@[grind ←] theorem checkCapacity_quiet {bits : Nat} : Quiet (checkCapacity decl item bits) := by
  unfold checkCapacity
  grind

/-- Without a written type the initializer of a field is looked at with its head. -/
theorem fieldType_spends (han : an.Sparing) {field : FieldDecl Expr} :
    Spends (if field.ty.isNone then permits frame.id (Expr.optionIds field.initializer) else 0)
      (fieldType an frame field scope) := by
  unfold fieldType
  cases hty : field.ty with
  | some t => exact .after (type_quiet han) fun _ => .pure
  | none =>
    cases hinitializer : field.initializer with
    | some e => exact (expr_spends han).map.before fun _ => .pure
    | none => exact (failOther_quiet.bind fun _ => .pure).of_le fun _ => Nat.zero_le _

@[grind ←] theorem fieldVariable_quiet {field : FieldDecl Expr} {ty : Ty} {isBitfield : Bool} :
    Quiet (fieldVariable field ty isBitfield) := by
  unfold fieldVariable
  grind

theorem declareField_spends (han : an.Sparing) {isBitfield : Bool} {field : FieldDecl Expr} :
    Spends (field.headCost frame.id) (declareField an frame item scope isBitfield field) := by
  unfold declareField FieldDecl.headCost
  rw [add_comm]
  refine .after checkRedeclaration_quiet fun _ => .bind (fieldType_spends han) fun ty => ?_
  refine .after fieldVariable_quiet fun v => .after addItem_quiet fun member => ?_
  refine .after (change_quiet fun _ => .modifyClass) fun _ => ?_
  exact recordDeclared_spends.before fun _ => .pure

theorem declareFields_spends (han : an.Sparing) :
    Spends (decl.fields.map (·.headCost frame.id)).sum (declareFields an frame decl item scope) := by
  unfold declareFields
  exact .foldlM fun total field _ => (declareField_spends han).before fun _ => .pure

theorem declareMemberFunctions_spends (han : an.Sparing) :
    Spends (decl.functions.map (·.declareCost frame.id)).sum
      (declareMemberFunctions an frame decl item scope) := by
  unfold declareMemberFunctions
  dsimp only
  split
  · exact .after misplaced_quiet fun _ => .forM fun f _ => (declareFunction_spends han).discard
  · exact .forM fun f _ => (declareFunction_spends han).discard

/-- The head of a class is resolved once, and pays for it with what the class kept for that. -/
@[grind ←] theorem classSignatures_quiet (han : an.Sparing) : Quiet (classSignatures an item) := by
  intro s held hs
  have hread (f : Option ClassSource → Analysis Unit) :
    (classSource? item >>= f) s = f (s.classes.lookup item) s := rfl
  unfold classSignatures
  rw [hread]
  cases hsource : s.classes.lookup item with
  | none => exact Quiet.pure s held hs
  | some source =>
    obtain ⟨decl, frame, stage⟩ := source
    dsimp only
    by_cases hdone : Stage.signatures.rank ≤ stage.rank
    · rw [if_pos hdone]
      exact Quiet.pure s held hs
    rw [if_neg hdone]
    have hfirst : stage = .declared := by
      cases stage <;> first | rfl | exact absurd (by decide) hdone
    have hstep (f : Unit → Analysis Unit) :
      (setStage item .signatures >>= f) s = f ⟨⟩ (s.withStage item .signatures) := rfl
    have hcost : Spends (decl.headCost frame.id) (do
        let scope ← classScope item
        let parents ← resolveParents an frame decl item scope
        change (·.modifyClass item fun c => { c with parents })
        if decl.flags.bitfield then resolveUnderlying an frame decl item scope
        let bits ← declareFields an frame decl item scope
        if decl.flags.bitfield then checkCapacity decl item bits
        declareMemberFunctions an frame decl item scope) := by
      refine .after classScope_quiet fun scope => .after (resolveParents_quiet han) fun parents => ?_
      refine .after (change_quiet fun _ => .modifyClass) fun _ => ?_
      refine .guard (resolveUnderlying_quiet han) ?_
      refine .bind (declareFields_spends han) fun bits => ?_
      exact .guard checkCapacity_quiet (declareMemberFunctions_spends han)
    have hkept := State.Accounts.resolve hs.rest (show Stage.signatures ≠ .declared by decide) hsource
      hfirst
    rw [hstep]
    exact .after (.withStage s item .signatures) (hcost _ held hkept)

end ClassHeads

/-! ## Synthesis -/

section Synthesis

variable {item : ItemId} {f : FrameId}

@[grind ←] theorem isDefaultConstructible_quiet (han : an.Sparing) {ty : Ty} :
    Quiet (isDefaultConstructible an ty) := by
  have hclass (c : ItemId) : Quiet (isDefaultConstructibleClass an c) := by
    unfold isDefaultConstructibleClass
    grind
  unfold isDefaultConstructible
  cases ty.startingAs? with
  | none => exact .pure
  | some start =>
    dsimp only
    split
    · exact .pure
    split
    · exact .pure
    cases start.kind with
    | cls c => exact hclass c
    | _ => exact .pure

@[grind ←] theorem typeNeedsCleanup_quiet (han : an.Sparing) {ty : Ty} :
    Quiet (typeNeedsCleanup an ty) := by
  unfold typeNeedsCleanup
  split
  · exact .pure
  cases ty.kind with
  | cls c => exact .bind (synthesis_quiet han) fun _ => look_quiet
  | _ => exact .pure

@[grind ←] theorem classNeedsCleanup_quiet (han : an.Sparing) {c : Class} :
    Quiet (classNeedsCleanup an c) := by
  unfold classNeedsCleanup
  grind

@[grind ←] theorem checkFieldConstructible_quiet (han : an.Sparing) {name : String}
    {field : FieldDecl Expr} : Quiet (checkFieldConstructible an item name field) := by
  unfold checkFieldConstructible
  grind

@[grind ←] theorem checkParentConstructible_quiet (han : an.Sparing) {name : String}
    {parent : ItemId} : Quiet (checkParentConstructible an name position parent) := by
  unfold checkParentConstructible
  grind

@[grind ←] theorem checkConstructible_quiet (han : an.Sparing) {decl : ClassDef} :
    Quiet (checkConstructible an item decl) := by
  unfold checkConstructible
  grind

/-! ### Trees that are made -/

/-- The step makes a function of new nodes, whose permits come with it. -/
def Brings (f : FrameId) (x : Analysis FunctionDef) : Prop :=
  ∀ s held, f.index < s.nextFrame → s.Accounts held → ∃ decl s', x s = .ok decl s' ∧
    s.Continues s' ∧ decl.isGeneric = false ∧
      s'.Accounts (permits f (Stmt.functionIds decl) + held)

/-- A function has two new nodes besides those of its parameters and of its statements. -/
theorem makeMember_gives {role : Role} {params : List (Param Expr)} {body : List Stmt}
    (hf : f.index < s.nextFrame)
    (hs : s.Accounts (permits f (Expr.paramIds params ++ Stmt.rowIds body) + held)) :
    ∃ decl s', makeMember role params body position s = .ok decl s' ∧ s.Continues s' ∧
      decl.isGeneric = false ∧ s'.Accounts (permits f (Stmt.functionIds decl) + held) := by
  obtain ⟨node, s₁, hnode, h₁, hs₁⟩ := freshNode_gives position hs hf
  obtain ⟨block, s₂, hblock, h₂, hs₂⟩ :=
    freshNode_gives position hs₁ (Nat.lt_of_lt_of_le hf h₁.frames_le)
  unfold makeMember
  refine ⟨_, s₂, (bind_ok hnode).trans (bind_ok hblock), h₁.trans h₂, rfl, hs₂.of_le (le_of_eq ?_)⟩
  simp only [Stmt.functionIds_eq, Stmt.bodyIds, Stmt.blockIds, permits_append, permits_cons,
    permits_nil]
  ac_rfl

theorem makeMember_brings {role : Role} : Brings f (makeMember role [] [] position) :=
  fun s held hf hs => makeMember_gives hf (hs.of_le (le_of_eq (by simp [Expr.paramIds, Stmt.rowIds])))

theorem makeDefaultConstructor_brings {hasParents : Bool} :
    Brings f (makeDefaultConstructor hasParents position) := by
  intro s held hf hs
  unfold makeDefaultConstructor
  cases hasParents with
  | false => exact makeMember_brings s held hf hs
  | true =>
    obtain ⟨marker, s₁, hmarker, h₁, hs₁⟩ := freshNode_gives position hs hf
    have hf₁ := Nat.lt_of_lt_of_le hf h₁.frames_le
    obtain ⟨call, s₂, hcall, h₂, hs₂⟩ := freshNode_gives position hs₁ hf₁
    have hf₂ := Nat.lt_of_lt_of_le hf₁ h₂.frames_le
    obtain ⟨stmt, s₃, hstmt, h₃, hs₃⟩ := freshNode_gives position hs₂ hf₂
    have hf₃ := Nat.lt_of_lt_of_le hf₂ h₃.frames_le
    -- the only statement calls the constructor of the parent
    have hbody : s₃.Accounts (permits f (Expr.paramIds [] ++
        Stmt.rowIds [.expr stmt (.call call (.superRef marker) [])]) + held) := by
      refine hs₃.of_le (le_of_eq ?_)
      simp only [Expr.paramIds, Stmt.rowIds, Stmt.ids, Expr.ids, Expr.argumentIds, List.nil_append,
        List.append_nil, permits_cons, permits_nil]
      ac_rfl
    obtain ⟨decl, s₄, hmade, h₄, hgeneric, hs₄⟩ := makeMember_gives hf₃ hbody
    refine ⟨decl, s₄, ?_, ((h₁.trans h₂).trans h₃).trans h₄, hgeneric, hs₄⟩
    exact (bind_ok hmarker).trans ((bind_ok hcall).trans ((bind_ok hstmt).trans hmade))

theorem makeCopyConstructor_brings : Brings f (makeCopyConstructor position) := by
  intro s held hf hs
  obtain ⟨node, s₁, hnode, h₁, hs₁⟩ := freshNode_gives position hs hf
  let self : TypeExpr := { form := .self, position }
  let other : Param Expr := { node, name := ⟨"other", position⟩, ty := self.const.reference }
  have hparams : s₁.Accounts (permits f (Expr.paramIds [other] ++ Stmt.rowIds []) + held) := by
    refine hs₁.of_le (le_of_eq ?_)
    simp only [other, Expr.paramIds, Expr.paramId, Expr.optionIds, Stmt.rowIds, List.append_nil]
  obtain ⟨decl, s₂, hmade, h₂, hgeneric, hs₂⟩ :=
    makeMember_gives (Nat.lt_of_lt_of_le hf h₁.frames_le) hparams
  exact ⟨decl, s₂, (bind_ok hnode).trans hmade, h₁.trans h₂, hgeneric, hs₂⟩

/-! ### Members that are made -/

theorem declareSynthesized_spends (han : an.Sparing) {decl : FunctionDef} :
    Spends (decl.declareCost frame.id) (declareSynthesized an frame decl item scope) := by
  unfold declareSynthesized
  refine (declareFunction_spends han).before fun item => ?_
  exact .bind (change_quiet fun _ => .modifyFunction) fun _ => .pure

/-- The frame of a class exists. -/
theorem frame_lt {source : ClassSource} {out : Holding} (hs : s.Balanced out)
    (hcls : s.HasClass item source) : source.frame.id.index < s.nextFrame := by
  obtain ⟨known, hknown, -, hframe⟩ := hcls.known
  rw [← hframe]
  exact (hs.knows (mem_of_lookup hknown)).1

variable {source : ClassSource} {made : List FunctionDef}

/-- What the bodies of the functions made so far take. -/
abbrev madeSoFar (source : ClassSource) (made : List FunctionDef) : Holding :=
  (made.map (·.bodyCost source.frame.id)).sum

/-- One more function is made and declared. -/
theorem declare_made {β : Type} {x : Analysis FunctionDef} {y : FunctionDef → Analysis β}
    {g : FunctionDef → β → Analysis α} (hx : Brings source.frame.id x)
    (hy : ∀ decl, Spends (decl.declareCost source.frame.id) (y decl))
    (hg : ∀ decl b, SpendsWhile (.hasClass item source) (madeSoFar source (made ++ [decl])) (g decl b)) :
    SpendsWhile (.hasClass item source) (madeSoFar source made) (do
      let decl ← x
      let b ← y decl
      g decl b) := by
  intro s held hcls hs
  obtain ⟨decl, s₁, hrun, h₁, hgeneric, hs₁⟩ := hx s _ (frame_lt hs hcls) hs
  have hpaid : s₁.Accounts (decl.declareCost source.frame.id +
      madeSoFar source (made ++ [decl]) + held) := by
    refine hs₁.of_le fun p => ?_
    have hcost := decl.declareCost_add_laterCost_le source.frame.id p
    simp only [FunctionDecl.laterCost, hgeneric, Bool.false_eq_true, if_false, madeSoFar,
      List.map_append, List.sum_append, List.map_cons, List.map_nil, List.sum_cons, List.sum_nil,
      Pi.add_apply, Pi.zero_apply] at *
    omega
  rw [bind_ok hrun]
  exact .after h₁ (SpendsWhile.bind (.of_spends (hy decl)) (hg decl) s₁ held (h₁.hasClass hcls) hpaid)

/-- The functions made for a class are filed with it. -/
theorem synthesized_spends :
    SpendsWhile (.hasClass item source) (madeSoFar source made)
      (modify fun s => { s with synthesized := (item, made) :: s.synthesized } : Analysis Unit) := by
  intro s held hcls hs
  refine ⟨(zero_add held).symm ▸ State.Accounts.synthesized hs (fun e he heq => ?_) hcls.lt,
    { State.Continues.refl s with }⟩
  obtain ⟨known, hknown, -, hframe⟩ := hcls.known
  have hsame : e = (item, known) :=
    List.inj_on_of_nodup_map hs.classes_nodup he (mem_of_lookup hknown) heq
  rw [hsame, hframe]

theorem synthesizeCopy_spends (han : an.Sparing) {g : FunctionDef → Analysis α}
    (hg : ∀ decl, SpendsWhile (.hasClass item source) (madeSoFar source (made ++ [decl])) (g decl)) :
    SpendsWhile (.hasClass item source) (madeSoFar source made)
      (synthesizeCopy an source.frame item scope position >>= g) := by
  unfold synthesizeCopy
  simp only [bind_assoc, pure_bind]
  refine declare_made makeCopyConstructor_brings (fun _ => declareSynthesized_spends han) ?_
  intro decl copy
  refine .after (change_quiet fun _ => .modifyFunction) fun _ => ?_
  exact .after (change_quiet fun _ => .modifyClass) fun _ => hg decl

/-- The functions that are made bring what they take. -/
theorem synthesizeMembers_spends (han : an.Sparing) :
    SpendsWhile (.hasClass item source) 0 (synthesizeMembers an item source) := by
  have hdeclare {decl : FunctionDef} {scope : ScopeId} : Spends (decl.declareCost source.frame.id)
      (discard (declareSynthesized an source.frame decl item scope)) :=
    (declareSynthesized_spends han).discard
  unfold synthesizeMembers
  refine .after look_quiet fun known => .after expect_quiet fun c => ?_
  refine .after (.forM fun _ => synthesis_quiet han) fun _ => ?_
  refine .after (classNeedsCleanup_quiet han) fun needsCleanup => ?_
  refine .after (change_quiet fun _ => .modifyClass) fun _ => ?_
  show SpendsWhile _ (madeSoFar source []) _
  -- the default constructor, the destructor and the copy constructor, where they are not written
  dsimp only
  split
  on_goal 1 =>
    refine .after (checkConstructible_quiet han) fun _ => ?_
    refine declare_made makeDefaultConstructor_brings (fun _ => hdeclare) fun ctor _ => ?_
  all_goals
    split
    on_goal 1 => refine declare_made makeMember_brings (fun _ => hdeclare) fun dtor _ => ?_
    all_goals
      refine .after look_quiet fun hasCopy => .after .get fun s => ?_
      split
      on_goal 1 => exact synthesizeCopy_spends han fun _ => synthesized_spends
      all_goals exact synthesized_spends

/-- A class is given the members it lacks, once. -/
@[grind ←] theorem synthesize_quiet (han : an.Sparing) : Quiet (synthesize an item) := by
  unfold synthesize
  refine .bind (signatures_quiet han) fun _ s held hs => ?_
  have hread (f : Option ClassSource → Analysis Unit) :
    (classSource? item >>= f) s = f (s.classes.lookup item) s := rfl
  rw [hread]
  cases hsource : s.classes.lookup item with
  | none => exact Quiet.pure s held hs
  | some source =>
    have hcls : s.HasClass item source :=
      ⟨hs.classes_lt _ (mem_of_lookup hsource), source, hsource, rfl, rfl⟩
    have hmembers : SpendsWhile (.hasClass item source) 0 (do
        setStage item .synthesizing
        andFinally (synthesizeMembers an item source) (setStage item .synthesized)) := by
      refine .after (setStage_quiet (by decide)) fun _ s held hcls hs => ?_
      exact andFinally_leaves (synthesizeMembers_spends han s held hcls hs) (setStage_quiet (by decide))
    dsimp only
    split
    · exact Quiet.pure s held hs
    · exact hmembers s held hcls hs

end Synthesis

/-! ## Bodies -/

section Bodies

variable {item : ItemId}

/-- A default value is looked at when the body of its function is. -/
theorem detailDefault_spends (han : an.Sparing) {written : Param Expr} {expected : Ty} :
    Spends (permits frame.id (Expr.optionIds written.defaultValue))
      (detailDefault an frame scope written expected) := by
  unfold detailDefault
  cases written.defaultValue with
  | none => exact .pure
  | some e => exact (expr_spends han).before fun _ => checkAssignable_quiet

@[grind ←] theorem implicitSuperCall_quiet (han : an.Sparing) {cls parent : ItemId} :
    Quiet (implicitSuperCall an cls position parent) := by
  unfold implicitSuperCall
  grind

@[grind ←] theorem implicitSuperCalls_quiet (han : an.Sparing) :
    Quiet (implicitSuperCalls an item scope position) := by
  unfold implicitSuperCalls
  grind

/-- Some of the things in a row take no more than all of them. -/
theorem sum_zip_le {β γ : Type} (xs : List β) (ys : List γ) (costs : β → Holding) :
    ((xs.zip ys).map fun p => costs p.1).sum ≤ (xs.map costs).sum := by
  induction xs generalizing ys with
  | nil => exact fun p => Nat.zero_le _
  | cons x rest ih =>
    cases ys with
    | nil => exact fun p => Nat.zero_le _
    | cons y others => exact add_le_add (le_refl _) (ih others)

/-- The body of a function takes what is left for it. A template has none. -/
theorem detailFunctionBody_affords (han : an.Sparing) {decl : FunctionDef} :
    Affords (fun s => if s.table.isGeneric item then 0 else decl.bodyCost frame.id)
      (detailFunctionBody an frame decl item) fun _ _ => 0 := by
  intro s held hs
  replace hs : s.Accounts
    ((if s.table.isGeneric item then 0 else decl.bodyCost frame.id) + held) := hs
  have hread (f : Option Item → Analysis Unit) :
    (look (·.item? item) >>= f) s = f (s.table.item? item) s := rfl
  unfold detailFunctionBody
  rw [hread]
  cases hentry : s.table.item? item with
  | none => exact ⟨hs.rest, .refl s, by simp [Diagnostic.internal]⟩
  | some entry =>
    have hfound (f : Item → Analysis Unit) :
      (expect "body of a non-function" (some entry) >>= f) s = f entry s := rfl
    have hgeneric : s.table.isGeneric item = entry.isGeneric := by
      rw [SymbolTable.isGeneric, hentry, Option.any_some]
    rw [hfound]
    by_cases htemplate : entry.isGeneric = true
    · rw [if_pos htemplate]
      exact Quiet.pure s held ((zero_add held).symm ▸ hs.rest)
    have hpaid : s.Accounts (decl.bodyCost frame.id + held) := by
      rwa [hgeneric, if_neg htemplate] at hs
    rw [if_neg htemplate]
    refine Spends.after expect_quiet (fun f => ?_) s held hpaid
    split
    · exact .pure
    -- default values, then statements, then the function itself
    rw [FunctionDecl.bodyCost, add_assoc, add_comm, add_assoc]
    have hdefaults := sum_zip_le decl.params f.params fun p =>
      permits frame.id (Expr.optionIds p.defaultValue)
    refine .bind (Spends.of_le (.forM fun p _ => detailDefault_spends han) hdefaults) fun _ => ?_
    have hlast : ∀ implicitSuper : List ItemId, Spends (frame.detailing decl.node) (do
        finishFunction item
        let variants := ((← look (·.function? item)).map (·.variants)).getD []
        record frame decl.node (.function { function := item, variants, implicitSuper })
        applyAttributes an frame decl.attributes ⟨.fn, item⟩ decl.node entry.scope) := by
      intro implicitSuper
      refine .after finishFunction_quiet fun _ => .after look_quiet fun known => ?_
      exact record_spends.before fun _ => applyAttributes_quiet han
    cases decl.body with
    | none =>
      rw [Stmt.bodyIds, permits_nil, zero_add]
      dsimp only
      split
      · exact .after (implicitSuperCalls_quiet han) hlast
      · exact .after .pure hlast
    | some body =>
      refine .bind (detailBlock_spends han) fun _ => ?_
      dsimp only
      split
      · exact .after (implicitSuperCalls_quiet han) hlast
      · exact .after .pure hlast

/-- The body of a function that was declared. -/
theorem functionBody_later (han : an.Sparing) {decl : FunctionDef}
    (hitem : (⟨frame.id, decl.node.id⟩, item) ∈ s.declared)
    (hs : s.Accounts (decl.laterCost frame.id + held)) :
    Leaves s (fun _ _ => 0) held (an.ask (.functionBody frame decl item) s) := by
  unfold FunctionDecl.laterCost at hs
  by_cases hgeneric : decl.isGeneric = true
  · -- the permit that is left shows that the item is a template
    rw [if_pos hgeneric] at hs
    have htemplate : s.table.isGeneric item = true := by
      refine State.Balanced.isGeneric hs hitem ?_
      simp
    have hpaid : s.Accounts
        ((if s.table.isGeneric item then 0 else decl.bodyCost frame.id) + held) := by
      rw [if_pos htemplate, zero_add]
      exact hs.rest
    exact functionBody_affords han s held hpaid
  · rw [if_neg hgeneric] at hs
    exact functionBody_spends han s held hs

/-- A function declared inside a body has its body analysed at once. -/
theorem detailLocalFunction_spends (han : an.Sparing) {decl : FunctionDef} :
    Spends (permits frame.id (Stmt.functionIds decl)) (detailLocalFunction an frame decl scope) := by
  intro s held hs
  have hpaid := hs.of_le (add_le_add (decl.declareCost_add_laterCost_le frame.id) (le_refl held))
  rw [add_assoc] at hpaid
  unfold detailLocalFunction
  refine (declareFunction_spends han s _ hpaid).bind ?_ fun item s' hrun _ hs' => ?_
  · exact fun _ => Nat.le_add_left _ _
  · rw [zero_add] at hs'
    exact functionBody_later han (declareFunction_declares s item s' hrun) hs'

/-! ### Bodies of classes -/

/-- The initializer of a field with a written type is looked at with the bodies. -/
theorem detailField_spends (han : an.Sparing) {field : FieldDecl Expr} :
    Spends (field.bodyCost frame.id) (detailField an frame scope field) := by
  have hlast (v : ItemId) : Spends (frame.detailing field.node) (do
      record frame field.node (.field v)
      applyAttributes an frame field.attributes ⟨.field, v⟩ field.node scope) :=
    record_spends.before fun _ => applyAttributes_quiet han
  unfold detailField
  refine .after declared?_quiet fun known => ?_
  cases known with
  | none => exact .pure
  | some v =>
    unfold FieldDecl.bodyCost
    cases field.ty with
    | none => exact (hlast v).of_le (le_of_eq (by simp))
    | some t =>
      cases field.initializer with
      | none => exact (hlast v).of_le fun _ => Nat.le_add_right _ _
      | some e =>
        rw [add_comm]
        refine .after look_quiet fun found => .bind (expr_spends han) fun info => ?_
        exact .after checkAssignable_quiet fun _ => hlast v

/-- Members that were declared have their bodies analysed, and an error in one does not keep the others
from it. -/
theorem detailMemberBodies_spends {members : List FunctionDef} {costs : FunctionDef → Holding}
    (hbody : ∀ f ∈ members, ∀ item s held, (⟨frame.id, f.node.id⟩, item) ∈ s.declared →
      s.Accounts (costs f + held) →
        Leaves s (fun _ _ => 0) held (an.ask (.functionBody frame f item) s)) :
    Spends (members.map costs).sum (detailMemberBodies an frame members) := by
  unfold detailMemberBodies
  refine .filterMapM fun f hf s held hs => ?_
  have hread (g : Option ItemId → Analysis (Option ItemId)) :
    (declared? frame f.node >>= g) s = g (s.declared.lookup ⟨frame.id, f.node.id⟩) s := rfl
  rw [hread]
  cases hitem : s.declared.lookup ⟨frame.id, f.node.id⟩ with
  | none => exact Spends.pure s held hs
  | some item =>
    have hrecovered := recover_leaves (hbody f hf item s held (mem_of_lookup hitem) hs)
    exact hrecovered.map.bind (le_refl _) fun _ s' _ _ hs' => Quiet.pure s' held hs'

/-- Whoever has the right to open a class gets what it kept for its bodies, and for those of the
functions made for it. -/
theorem detailClassBodies_spends (han : an.Sparing) {source : ClassSource} :
    SpendsWhile (.hasClass item source) source.key.opening (detailClassBodies an item) := by
  unfold detailClassBodies
  refine .after (synthesis_quiet han) fun _ s held hcls hs => ?_
  have hread (f : Option ClassSource → Analysis Unit) :
    (classSource? item >>= f) s = f (s.classes.lookup item) s := rfl
  obtain ⟨known, hknown, -⟩ := hcls.known
  have hcls' : s.HasClass item known := ⟨hcls.lt, known, hknown, rfl, rfl⟩
  rw [← hcls.key_eq hknown, DetailKey.opening, add_assoc] at hs
  have hopened := hs.openBodies hknown
  rw [hread, hknown]
  obtain ⟨decl, frame, stage⟩ := known
  dsimp only
  split
  · exact Quiet.pure s held ((zero_add held).symm ▸ hs.rest.rest)
  let open' : ClassSource := ⟨decl, frame, stage⟩
  have hcost : (decl.fields.map (·.bodyCost frame.id)).sum +
      ((decl.functions.map (·.laterCost frame.id)).sum +
        (open'.key.permit .made + frame.detailing decl.node)) =
      decl.bodyCost frame.id + open'.key.permit .made := by
    rw [ClassDecl.bodyCost]
    ac_rfl
  refine SpendsWhile.after (P := .hasClass item open') (setStage_quiet (by decide)) ?_ s held hcls'
    (hcost ▸ (add_assoc (decl.bodyCost frame.id) _ held) ▸ hopened)
  intro _
  refine .after classScope_quiet fun scope => ?_
  refine .bind (.of_spends (.forM fun field _ => detailField_spends han)) fun _ => ?_
  refine .bind (.of_spends (Spends.discard (detailMemberBodies_spends ?_))) fun _ s held hcls hs => ?_
  · exact fun f _ item s held hitem hs => functionBody_later han hitem hs
  -- the functions that were made come last
  have hget (f : State → Analysis Unit) : (MonadState.get >>= f) s = f s s := rfl
  obtain ⟨known, hknown, -, hframe⟩ := hcls.known
  have hmade : s.Accounts (s.madeCost item frame.id + frame.detailing decl.node + held) := by
    rw [← hcls.key_eq hknown, add_assoc] at hs
    have hopen := hs.openMade hknown
    rw [hframe] at hopen
    exact (add_assoc (s.madeCost item frame.id) _ held).symm ▸ hopen
  unfold State.madeCost at hmade
  rw [hget]
  refine Spends.bind (detailMemberBodies_spends ?_) (fun synthesized => ?_) s held hmade
  · exact fun f _ item s held _ hs => functionBody_spends han s held hs
  · refine .after (change_quiet fun _ => .modifyClass) fun _ => ?_
    exact record_spends.before fun _ => applyAttributes_quiet han

/-- An item of which no class was made has no bodies, and none becomes one in the meantime. -/
theorem detailClassBodies_leaves (han : an.Sparing) (hlt : item.index < s.table.items.size)
    (hs : s.Accounts (s.opening item + held)) :
    Leaves s (fun _ _ => 0) held (detailClassBodies an item s) := by
  cases hsource : s.classes.lookup item with
  | some source =>
    have hcls : s.HasClass item source := ⟨hlt, source, hsource, rfl, rfl⟩
    exact detailClassBodies_spends han s held hcls (hcls.opening_eq ▸ hs)
  | none =>
    unfold detailClassBodies
    refine hs.rest.quietly (synthesis_quiet han) (le_refl _) fun _ s' hcontinues hs' => ?_
    have hread (f : Option ClassSource → Analysis Unit) :
      (classSource? item >>= f) s' = f (s'.classes.lookup item) s' := rfl
    rw [hread, hcontinues.unmade item hlt hsource]
    exact Quiet.pure s' held ((zero_add held).symm ▸ hs')

theorem classBodies_spends (han : an.Sparing) {source : ClassSource} :
    SpendsWhile (.hasClass item source) source.key.opening (an.ask (.classBodies item)) :=
  fun _ _ hcls hs => classBodies_leaves han hcls.lt (hcls.opening_eq.symm ▸ hs)

/-- A class that is declared and may still be opened is the one of its declaration. -/
theorem hasClass_of_declared {k : DetailKey} {known : ClassSource}
    (hs : s.Accounts (k.opening + held)) (hitem : (k, item) ∈ s.declared)
    (hknown : s.classes.lookup item = some known) : s.HasClass item known ∧ known.key = k := by
  have hopen : (s.waiting + (k.opening + held)) ⟨k, .bodies⟩ ≠ 0 := by
    simp [DetailKey.opening]
  obtain ⟨hlt, hkey⟩ := State.Balanced.keyed hs k item hitem hopen
  exact ⟨⟨hlt, known, hknown, rfl, rfl⟩, hkey known hknown⟩

/-- A class declared inside a body has its bodies analysed at once. -/
theorem detailLocalClass_spends (han : an.Sparing) {decl : ClassDef} :
    Spends (permits frame.id (Stmt.classIds decl)) (detailLocalClass an frame decl scope) := by
  intro s held hs
  have hpaid := hs.of_le (add_le_add (decl.declareCost_add_opening_le frame.id) (le_refl held))
  rw [add_assoc] at hpaid
  unfold detailLocalClass
  refine (declareClass_spends s _ hpaid).bind ?_ fun item s' hrun _ hs' => ?_
  · exact fun _ => Nat.le_add_left _ _
  rw [zero_add] at hs'
  have hread (f : Option ClassSource → Analysis Unit) :
    (classSource? item >>= f) s' = f (s'.classes.lookup item) s' := rfl
  rw [hread]
  cases hknown : s'.classes.lookup item with
  | none => exact Quiet.pure s' held ((zero_add held).symm ▸ hs'.rest)
  | some known =>
    obtain ⟨hcls, hkey⟩ := hasClass_of_declared hs' (declareClass_declares s item s' hrun) hknown
    rw [← hkey] at hs'
    exact SpendsWhile.after (signatures_quiet han) (fun _ => classBodies_spends han) s' held hcls hs'

end Bodies

end SemanticAnalysis.Analysis
