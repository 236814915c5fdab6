import SemanticAnalysis.Proofs.Analysis.Statements

/-!
# Control flow and passes keep states sound

The remaining statements, which only open scopes and ask about their parts, and the passes over the
statements of a module.
-/

namespace SemanticAnalysis.Analysis

variable {n : Nat} {frame : Frame} {node : Node} {scope : ScopeId} {position : Position}
variable {an an' : Analyst}

/-! ## Branches and loops -/

@[grind ←] theorem detailBranch_keeps (han : an.Agrees an') {body : Stmt} :
    Keeps n (detailBranch an frame body scope) (detailBranch an' frame body scope) := by
  unfold detailBranch
  refine .bind newScope_keeps fun inner m hm _ => ?_
  split
  · exact .bind (detailBlock_keeps han) fun _ _ _ _ => .idle
  · exact .bind (stmt_keeps han) fun _ _ _ _ => .idle

@[grind ←] theorem detailIf_keeps (han : an.Agrees an') {condition : Expr} {yes : Stmt}
    {no : Option Stmt} :
    Keeps n (detailIf an frame node condition yes no scope)
      (detailIf an' frame node condition yes no scope) := by
  unfold detailIf
  refine .bind (.discard (expr_keeps han)) fun _ m hm _ => ?_
  refine .bind (detailBranch_keeps han) fun yesScope k hk _ => ?_
  refine .bind (.optionMapM fun _ _ => detailBranch_keeps han) fun noScope k₁ hk₁ _ => ?_
  exact recordUnnamed_keeps rfl

@[grind ←] theorem detailLoop_keeps (han : an.Agrees an') {condition : Expr} {body : Stmt}
    {tail : Bool} :
    Keeps n (detailLoop an frame node condition body tail scope)
      (detailLoop an' frame node condition body tail scope) := by
  unfold detailLoop
  refine .guard (.discard (expr_keeps han)) fun m hm => ?_
  refine .bind (detailBranch_keeps han) fun bodyScope k hk _ => ?_
  exact .guard (.discard (expr_keeps han)) fun _ _ => recordUnnamed_keeps rfl

@[grind ←] theorem detailFor_keeps (han : an.Agrees an') {init : Option Stmt}
    {condition update : Option Expr} {body : Stmt} :
    Keeps n (detailFor an frame node init condition update body scope)
      (detailFor an' frame node init condition update body scope) := by
  unfold detailFor
  refine .bind newScope_keeps fun own m hm _ => ?_
  refine .bind (.forM fun _ _ _ _ => stmt_keeps han) fun _ k hk _ => ?_
  refine .bind (.forM fun _ _ _ _ => .discard (expr_keeps han)) fun _ k₁ hk₁ _ => ?_
  refine .bind (.forM fun _ _ _ _ => .discard (expr_keeps han)) fun _ k₂ hk₂ _ => ?_
  exact .bind (.discard (detailBranch_keeps han)) fun _ _ _ _ => recordUnnamed_keeps rfl

theorem known_findIterator? {t : SymbolTable} {cls : ItemId} (h : Known n t) :
    Known n (findIterator? t cls scope) := by
  unfold findIterator?
  cases hfound : (t.findInClass cls "next" [] (some scope)).findSome? _ with
  | none => exact known_none
  | some found =>
    obtain ⟨c, _, hc⟩ := List.exists_of_findSome?_eq_some hfound
    obtain ⟨f, hf, hc⟩ := Option.bind_eq_some_iff.1 hc
    split at hc
    · obtain ⟨element, helement, rfl⟩ := Option.map_eq_some_iff.1 hc
      have hfunction : Known n f := by grind
      have hreturn : Known n f.returnType := by grind
      have hinner := known_inner? (known_withoutOuterReferences hreturn)
      rw [helement, known_some] at hinner
      exact (known_some _).2 ((known_pair _ _).2 ⟨known_of_namesNone _ _, hinner⟩)
    · cases hc

@[grind ←] theorem elementType_keeps (han : an.Agrees an') {name : Ident} {ty : Option TypeExpr}
    {element : Ty} (h : Known n element) :
    Keeps n (elementType an frame name ty element scope)
      (elementType an' frame name ty element scope) := by
  unfold elementType
  split
  · exact .pure h
  · refine .bind (type_keeps han) fun declared m hm hdeclared => ?_
    refine .bind conversion_keeps fun c k hk _ => ?_
    split
    · exact .bind typeText_keeps fun _ _ _ _ => .bind typeText_keeps fun _ _ _ _ => .stop
    · exact .pure (hdeclared.mono hk)

@[grind ←] theorem detailForEach_keeps (han : an.Agrees an') {name : Ident} {ty : Option TypeExpr}
    {iterable : Expr} {body : Stmt} :
    Keeps n (detailForEach an frame node name ty iterable body scope)
      (detailForEach an' frame node name ty iterable body scope) := by
  unfold detailForEach
  refine .bind (expr_keeps han) fun info m hm _ => ?_
  dsimp only
  split
  · refine .bind (han.keeps _) fun _ k hk _ => ?_
    refine .bind (look_keeps fun _ _ _ => known_findIterator?) fun found k₁ hk₁ hfound => ?_
    split
    · rename_i next element
      have helement : Known k₁ element := Known.snd (p := (next, element)) hfound
      refine .bind newScope_keeps fun own k₂ hk₂ _ => ?_
      refine .bind (elementType_keeps han (helement.mono hk₂)) fun declared k₃ hk₃ hdeclared => ?_
      refine .bind (by grind) fun owner k₄ hk₄ _ => ?_
      refine .bind (addLocal_keeps (hdeclared.mono hk₄)) fun v k₅ hk₅ _ => ?_
      refine .bind linkThrows_keeps fun _ k₆ hk₆ _ => ?_
      exact .bind (.discard (detailBranch_keeps han)) fun _ _ _ _ => recordUnnamed_keeps rfl
    · exact .bind typeText_keeps fun _ _ _ _ => fail_keeps
  · exact .bind typeText_keeps fun _ _ _ _ => fail_keeps

/-! ## Results and errors -/

@[grind ←] theorem checkReturn_keeps {value : Option (Expr × Ty)} {expected : Ty} :
    Keeps n (checkReturn frame value expected position)
      (checkReturn frame value expected position) := by
  unfold checkReturn
  split
  · exact checkAssignable_keeps
  · split
    · exact .bind typeText_keeps fun _ _ _ _ => fail_keeps
    · exact .idle
  · exact .bind typeText_keeps fun _ _ _ _ => fail_keeps
  · exact .idle

@[grind ←] theorem detailReturn_keeps (han : an.Agrees an') {value : Option Expr} :
    Keeps n (detailReturn an frame node value scope)
      (detailReturn an' frame node value scope) := by
  unfold detailReturn
  refine .bind (by grind) fun function m hm _ => ?_
  dsimp only
  split
  · rename_i function _
    refine .bind (.optionMapM fun _ _ => ?_) fun returned k hk hreturned => ?_
    · refine .bind (expr_keeps han) fun info k hk hinfo => .pure ?_
      exact (known_pair _ _).2 ⟨known_of_namesNone _ _, hinfo⟩
    have hlast : ∀ j, Later k j → Keeps j
        (do
          let f ← expect "return owner is not a function" (← look (·.function? function))
          let expected := if f.flags.generator then .void else f.returnType
          checkReturn frame returned expected node.position
          record frame node (.ret function expected))
        (do
          let f ← expect "return owner is not a function" (← look (·.function? function))
          let expected := if f.flags.generator then .void else f.returnType
          checkReturn frame returned expected node.position
          record frame node (.ret function expected)) := by
      intro j _
      refine .bind (by grind) fun f _ _ hf => .bind (expect_keeps hf) fun f _ _ _ => ?_
      exact .bind checkReturn_keeps fun _ _ _ _ => recordUnnamed_keeps rfl
    refine .bind get_keeps fun s k₁ hk₁ _ => ?_
    split
    · refine .bind stopInferring_keeps fun _ k₂ hk₂ _ => ?_
      refine .bind ?_ fun _ k₃ hk₃ _ => hlast k₃ (by grind)
      have hresult : Known k ((returned.map (·.2.inferred)).getD .void) := by
        cases returned with
        | none => exact known_void
        | some r => exact known_inferred (Known.snd (p := r) hreturned)
      grind
    · exact hlast k₁ hk₁
  · exact misplaced_keeps

@[grind ←] theorem detailRaise_keeps (han : an.Agrees an') {value : Expr} :
    Keeps n (detailRaise an frame node value scope) (detailRaise an' frame node value scope) := by
  unfold detailRaise
  refine .bind (expr_keeps han) fun info m hm _ => ?_
  exact .bind raise_keeps fun _ _ _ _ => recordUnnamed_keeps rfl

@[grind ←] theorem detailCatch_keeps (han : an.Agrees an') {owner : Option ItemId}
    {clause : CatchClause Stmt} {ty : Option Ty} (h : Known n ty) :
    Keeps n (detailCatch an frame owner scope clause ty)
      (detailCatch an' frame owner scope clause ty) := by
  unfold detailCatch
  refine .bind newScope_keeps fun own m hm _ => ?_
  refine .bind (.optionMapM fun ident _ => addLocal_keeps ?_) fun var k hk _ => ?_
  · exact known_getD (h.mono hm) known_any
  · exact .bind (detailBlock_keeps han) fun _ _ _ _ => .idle

@[grind ←] theorem detailTry_keeps (han : an.Agrees an') {body : Block Stmt}
    {catches : List (CatchClause Stmt)} :
    Keeps n (detailTry an frame node body catches scope)
      (detailTry an' frame node body catches scope) := by
  unfold detailTry
  refine .bind newScope_keeps fun own m hm _ => ?_
  refine .bind (change_keeps fun _ _ => .modifyScope fun _ => id) fun _ k hk _ => ?_
  refine .bind (.mapM fun c _ _ _ => .optionMapM fun _ _ => type_keeps han)
    fun types k₁ hk₁ htypes => ?_
  refine .bind (aside_keeps fun _ => rfl) fun _ k₂ hk₂ _ => ?_
  refine .bind (detailBlock_keeps han) fun _ k₃ hk₃ _ => .bind (by grind) fun owner k₄ hk₄ _ => ?_
  refine .bind (.mapM fun c hc j hj => ?_) fun details k₅ hk₅ _ => ?_
  · have hty : Known k₁ c.2 := htypes.mem (List.of_mem_zip hc).2
    exact detailCatch_keeps han (hty.mono (by grind))
  · refine .bind (by grind) fun table k₆ hk₆ _ => ?_
    exact .bind (.forM fun _ _ _ _ => raise_keeps) fun _ _ _ _ => recordUnnamed_keeps rfl

@[grind ←] theorem detailDelete_keeps (han : an.Agrees an') {value : Expr} {persistent : Bool} :
    Keeps n (detailDelete an frame node value persistent scope)
      (detailDelete an' frame node value persistent scope) := by
  unfold detailDelete
  refine .bind (expr_keeps han) fun info m hm _ => ?_
  dsimp only
  split
  · exact .bind (.pure known_none) fun _ _ _ _ => recordUnnamed_keeps rfl
  · refine .bind (han.keeps _) fun _ k hk _ => .bind (by grind) fun _ _ _ _ => ?_
    exact recordUnnamed_keeps rfl

/-! ## All statements -/

@[grind ←] theorem detailAlias_keeps {decl : AliasDecl} :
    Keeps n (detailAlias frame node decl scope) (detailAlias frame node decl scope) := by
  unfold detailAlias
  refine .bind declared?_keeps fun known m hm _ => ?_
  split
  · exact bindAliasDecl_keeps
  · exact .idle

theorem detailStmt_keeps (han : an.Agrees an') {stmt : Stmt} :
    Keeps n (detailStmt an frame stmt scope) (detailStmt an' frame stmt scope) := by
  unfold detailStmt
  split
  · exact .bind (.discard (expr_keeps han)) fun _ _ _ _ => recordUnnamed_keeps rfl
  · exact detailVariable_keeps han
  · exact .bind newScope_keeps fun _ _ _ _ => detailBlock_keeps han
  · exact detailReturn_keeps han
  · exact detailIf_keeps han
  · exact detailLoop_keeps han
  · exact detailFor_keeps han
  · exact detailForEach_keeps han
  · exact recordUnnamed_keeps rfl
  · exact recordUnnamed_keeps rfl
  · exact detailRaise_keeps han
  · exact detailTry_keeps han
  · exact detailDelete_keeps han
  · exact detailLocalFunction_keeps han
  · exact detailLocalClass_keeps han
  · exact misplaced_keeps
  · exact misplaced_keeps
  · exact detailExport_keeps han
  · exact detailAlias_keeps

/-! ## Passes -/

@[grind ←] theorem attempt_keeps {x y : Analysis Unit} (h : Keeps n x y) :
    Keeps n (attempt x) (attempt y) := .discard (recover_keeps h)

@[grind ←] theorem passInside_keeps (han : an.Agrees an') {p : Pass} {body : List Stmt} :
    Keeps n (passInside an p frame node body) (passInside an' p frame node body) := by
  unfold passInside
  refine .bind spaceScope?_keeps fun inner m hm _ => ?_
  split
  · exact .idle
  · exact han.keeps _

@[grind ←] theorem importPass_keeps (han : an.Agrees an') {stmt : Stmt} :
    Keeps n (importPass an frame scope stmt) (importPass an' frame scope stmt) := by
  unfold importPass
  split
  · exact attempt_keeps (detailImport_keeps han)
  · exact .idle

@[grind ←] theorem typePass_keeps (han : an.Agrees an') {stmt : Stmt} :
    Keeps n (typePass an frame scope stmt) (typePass an' frame scope stmt) := by
  unfold typePass
  split
  · exact attempt_keeps (.discard declareClass_keeps)
  · refine .bind (recover_keeps declareSpace_keeps) fun inner m hm _ => ?_
    split
    · exact han.keeps _
    · exact .idle
  · exact .idle

@[grind ←] theorem aliasPass_keeps (han : an.Agrees an') {last : Bool} {stmt : Stmt} :
    Keeps n (aliasPass an last frame scope stmt) (aliasPass an' last frame scope stmt) := by
  unfold aliasPass
  split
  · refine .bind declared?_keeps fun known m hm _ => ?_
    dsimp only
    split
    · exact .idle
    split
    · exact attempt_keeps bindAliasDecl_keeps
    · exact .tryCatch bindAliasDecl_keeps fun _ => giveUp_keeps
  · exact passInside_keeps han
  · exact .idle

@[grind ←] theorem signaturePass_keeps (han : an.Agrees an') {stmt : Stmt} :
    Keeps n (signaturePass an frame scope stmt) (signaturePass an' frame scope stmt) := by
  unfold signaturePass
  split
  · refine .bind declared?_keeps fun cls m hm _ => ?_
    split
    · exact han.keeps _
    · exact .idle
  · exact .discard (declareFunction_keeps han (by simp))
  · exact predeclareVariable_keeps han
  · exact passInside_keeps han
  · exact .idle

@[grind ←] theorem bodyPass_keeps (han : an.Agrees an') {stmt : Stmt} :
    Keeps n (bodyPass an frame scope stmt) (bodyPass an' frame scope stmt) := by
  unfold bodyPass
  split
  · refine .bind declared?_keeps fun cls m hm _ => ?_
    split
    · refine .bind classSource?_keeps fun source k hk _ => ?_
      split
      · exact han.keeps _
      · exact .idle
    · exact .idle
  · refine .bind declared?_keeps fun function m hm _ => ?_
    split
    · exact han.keeps _
    · exact .idle
  · exact passInside_keeps han
  · exact .idle
  · exact .idle
  · exact stmt_keeps han

theorem runPass_keeps (han : an.Agrees an') {p : Pass} {statements : List Stmt} :
    Keeps n (runPass an p frame statements scope) (runPass an' p frame statements scope) := by
  unfold runPass
  split
  · exact .bind (.forM fun _ _ _ _ => importPass_keeps han) fun _ _ _ _ =>
      .forM fun _ _ _ _ => typePass_keeps han
  · exact .forM fun _ _ _ _ => aliasPass_keeps han
  · exact .forM fun _ _ _ _ => attempt_keeps (signaturePass_keeps han)
  · exact .forM fun _ _ _ _ => attempt_keeps (bodyPass_keeps han)

@[grind ←] theorem nextPending_keeps : Keeps n nextPending nextPending := by
  refine Gives.grow (fun s _ => ?_) fun _ _ _ => known_of_namesNone _ _
  split
  · exact .of_eq rfl
  · exact .of_eq rfl
  · exact .of_eq rfl

theorem drainPending_keeps (han : an.Agrees an') : Keeps n (drainPending an) (drainPending an') := by
  unfold drainPending
  refine .bind nextPending_keeps fun next m hm _ => ?_
  split
  · exact .idle
  · exact .bind (attempt_keeps (han.keeps _)) fun _ _ _ _ => han.keeps _
  · exact .bind (attempt_keeps (han.keeps _)) fun _ _ _ _ => han.keeps _

end SemanticAnalysis.Analysis
