import SemanticAnalysis.Proofs.Analysis.References

/-!
# Expressions keep states sound

One lemma for each step from a choice between candidates to a whole expression (`detailExpr_keeps`).
The type of an expression can come back as a generic argument, and that as a parent, so the classes
in it are followed through candidates, signatures and operators.
-/

namespace SemanticAnalysis

/-! ## Candidates -/

instance : NamesClasses ArgumentOption := ⟨fun o => classIds o.ty⟩

instance : NamesClasses CallArgument := ⟨fun a => classIds a.options⟩

instance : NamesClasses Candidate := ⟨fun c => classIds c.signature⟩

instance : NamesClasses Analysis.OperatorChoice := ⟨fun c => classIds c.signature⟩

instance : NamesClasses CallDetail := ⟨fun d => classIds d.info⟩

section

variable {n : Nat} {table : SymbolTable}

@[grind =] theorem known_argumentOption (o : ArgumentOption) : Known n o ↔ Known n o.ty := .rfl

@[grind =] theorem known_candidate (c : Candidate) : Known n c ↔ Known n c.signature := .rfl

@[grind ←] theorem known_ofFunction? {i : ItemId} (h : Known n table) :
    Known n (Candidate.ofFunction? table i) :=
  known_optionMap (SymbolTable.known_function? h) fun _ _ hf => known_function_signature hf

theorem known_constructorCandidates {cls : ItemId} (h : Known n table) :
    Known n (Analysis.constructorCandidates table cls) :=
  (known_of_namesNone n _).filterMap fun _ _ _ => known_ofFunction? h

theorem known_addCandidate {candidates : List Candidate} {function : ItemId} (h : Known n table)
    (hcandidates : Known n candidates) : Known n (addCandidate table candidates function) := by
  have hnew : Known n (Candidate.ofFunction? table function) := known_ofFunction? h
  unfold addCandidate
  grind

theorem known_foldl_addCandidate {functions : List ItemId} {candidates : List Candidate}
    (h : Known n table) (hcandidates : Known n candidates) :
    Known n (functions.foldl (addCandidate table) candidates) := by
  induction functions generalizing candidates with
  | nil => exact hcandidates
  | cons f rest ih => exact ih (known_addCandidate h hcandidates)

theorem known_overloadOptions {d : NameDetail} (h : Known n table) :
    Known n (Analysis.overloadOptions table d) := by
  unfold Analysis.overloadOptions
  split
  · refine (known_some _).2 ((known_of_namesNone n _).filterMap fun _ _ _ => ?_)
    exact known_optionMap (SymbolTable.known_function? h) fun _ _ hf => known_function_ty hf
  · exact known_none

/-- A function that was looked up by its item. -/
theorem known_foundFunction {found : Option ItemId} {i : ItemId} {f : Function} (h : Known n table)
    (hfound : (found.bind fun i => (table.function? i).map (i, ·)) = some (i, f)) : Known n f := by
  obtain ⟨j, -, hj⟩ := Option.bind_eq_some_iff.1 hfound
  obtain ⟨g, hg, heq⟩ := Option.map_eq_some_iff.1 hj
  cases heq
  have hknown : Known n (table.function? i) := SymbolTable.known_function? h
  rwa [hg, known_some] at hknown

/-- The types that a generic call infers from. -/
theorem known_writtenArguments {params : List (Param Expr)} {written : List (Argument Expr)}
    {arguments : List CallArgument} {bound : List WrittenArgument} (h : Known n arguments)
    (hbound : Analysis.writtenArguments params written arguments = some bound) : Known n bound := by
  obtain ⟨pairs, hpairs, rfl⟩ := Option.map_eq_some_iff.1 hbound
  refine Known.filterMap (known_of_mapM (fun p hp => ?_) hpairs) fun _ _ hp => hp
  obtain ⟨⟨a, argument⟩, index⟩ := p
  have hargument : Known n argument := h.mem (List.of_mem_zip (List.fst_mem_of_mem_zipIdx hp)).2
  refine known_optionMap (known_of_namesNone n _) fun _ _ _ => ?_
  exact known_optionMap (known_head? hargument) fun _ _ ho => ho

end

namespace Analysis

variable {n : Nat} {frame : Frame} {node : Node} {scope : ScopeId} {position : Position}
variable {an an' : Analyst}

/-! ## Choices -/

@[grind ←] theorem detailArguments_keeps (han : an.Agrees an') {arguments : List (Argument Expr)} :
    Keeps n (detailArguments an frame arguments scope)
      (detailArguments an' frame arguments scope) := by
  refine .mapM fun a _ m _ => ?_
  refine .bind (expr_keeps han) fun info k hk hinfo => ?_
  refine .bind detail?_keeps fun d k₁ hk₁ _ => ?_
  refine .bind (look_keeps fun t m _ ht => ?_) fun options k₂ hk₂ hoptions => .pure ?_
  · cases d.bind (·.name?) with
    | none => exact known_none
    | some d => exact known_overloadOptions ht
  · have hown : Known k₂ [({ ty := info.ty } : ArgumentOption)] := by grind
    exact known_getD hoptions hown

@[grind ←] theorem chooseCandidate_keeps {name : String} {arguments : List CallArgument}
    {candidates : List Candidate} :
    Keeps n (chooseCandidate name arguments candidates position)
      (chooseCandidate name arguments candidates position) := by
  unfold chooseCandidate
  grind

@[grind ←] theorem settleArgument_keeps {r : Resolution} {signature : Signature Ty} {value : Expr}
    {index : Nat} :
    Keeps n (settleArgument frame r signature value index)
      (settleArgument frame r signature value index) := by
  unfold settleArgument
  grind

@[grind ←] theorem settleArguments_keeps {arguments : List (Argument Expr)} {r : Resolution}
    {signature : Signature Ty} :
    Keeps n (settleArguments frame arguments r signature)
      (settleArguments frame arguments r signature) :=
  .forM fun _ _ _ _ => settleArgument_keeps

@[grind ←] theorem chosenSignature_keeps {r : Resolution} {candidates : List Candidate}
    (h : Known n candidates) :
    Keeps n (chosenSignature r candidates) (chosenSignature r candidates) := by
  unfold chosenSignature
  grind

@[grind ←] theorem chooseConstructor_keeps (han : an.Agrees an') {cls : ItemId}
    {arguments : List CallArgument} {written : List (Argument Expr)} :
    Keeps n (chooseConstructor an frame cls arguments written scope position)
      (chooseConstructor an' frame cls arguments written scope position) := by
  unfold chooseConstructor
  refine .bind (han.keeps _) fun _ m hm _ => ?_
  refine .bind itemName_keeps fun name k hk _ => ?_
  refine .bind (look_keeps fun _ _ _ => known_constructorCandidates) fun candidates k₁ hk₁ hc => ?_
  split
  · split
    · exact .idle
    · exact .bind (by grind) fun _ _ _ _ => .throw _
  · refine .bind chooseCandidate_keeps fun resolution k₂ hk₂ _ => ?_
    refine .bind (chosenSignature_keeps (hc.mono hk₂)) fun signature k₃ hk₃ _ => ?_
    refine .bind settleArguments_keeps fun _ k₄ hk₄ _ => ?_
    grind

@[grind ←] theorem chooseOperator?_keeps (han : an.Agrees an') {cls : ItemId} {operator : Operator}
    {side : Side} {arguments : List CallArgument} :
    Keeps n (chooseOperator? an cls operator side arguments scope position)
      (chooseOperator? an' cls operator side arguments scope position) := by
  unfold chooseOperator?
  refine .bind (han.keeps _) fun _ m hm _ => ?_
  refine .bind get_keeps fun s k hk hs => ?_
  have htable : Known k s.table := (known_state.1 hs).1
  split
  · exact .pure known_none
  · exact .throw _
  · split
    · exact .pure known_none
    · rename_i function f hfound
      have hf : Known k f := known_foundFunction htable hfound
      exact .bind linkThrows_keeps fun _ _ hk₁ _ =>
        .pure (known_function_signature (hf.mono hk₁))

@[grind ←] theorem castOperand_keeps {operand : Expr} {choice : OperatorChoice} :
    Keeps n (castOperand frame operand choice) (castOperand frame operand choice) := by
  unfold castOperand
  grind

/-! ## Calls -/

@[grind ←] theorem inferInstance?_keeps (han : an.Agrees an') {template : ItemId}
    {written : List (Argument Expr)} {arguments : List CallArgument} (h : Known n arguments) :
    Keeps n (inferInstance? an template written arguments position)
      (inferInstance? an' template written arguments position) := by
  unfold inferInstance?
  refine .bind template?_keeps fun t m hm _ => ?_
  split
  · dsimp only
    split
    · exact .pure known_none
    · rename_i bound hbound
      split
      · rename_i types htypes
        have htypes : Known m types :=
          known_inferGenerics (known_writtenArguments (h.mono hm) hbound) htypes
        exact (instantiateFunction_keeps han htypes).map fun _ k _ _ => known_of_namesNone k _
      · exact fail_keeps
  · exact .pure known_none

@[grind ←] theorem gatherCandidates_keeps (han : an.Agrees an') {written : List (Argument Expr)}
    {arguments : List CallArgument} {candidates : List Candidate} {function : ItemId}
    (h : Known n arguments) (hcandidates : Known n candidates) :
    Keeps n (gatherCandidates an written arguments position candidates function)
      (gatherCandidates an' written arguments position candidates function) := by
  unfold gatherCandidates
  refine .bind (by grind) fun generic m hm _ => ?_
  dsimp only
  split
  · exact look_keeps fun t k hk ht => known_addCandidate ht ((hcandidates.mono hm).mono hk)
  · refine .bind (inferInstance?_keeps han (h.mono hm)) fun inst k hk _ => ?_
    split
    · exact .pure ((hcandidates.mono hm).mono hk)
    · refine .bind (by grind) fun table k₁ hk₁ htable => .pure ?_
      exact known_foldl_addCandidate htable (((hcandidates.mono hm).mono hk).mono hk₁)

@[grind ←] theorem callCandidates_keeps (han : an.Agrees an') {functions : List ItemId}
    {written : List (Argument Expr)} {arguments : List CallArgument} (h : Known n arguments) :
    Keeps n (callCandidates an functions written arguments position)
      (callCandidates an' functions written arguments position) := by
  unfold callCandidates
  refine .bind (.foldlM ?_ fun function _ state m hm hstate => ?_) fun result k hk hresult => ?_
  · exact (known_pair _ _).2 ⟨known_nil, known_none⟩
  · have hfirst : Known m state.1 := hstate.fst
    refine .tryCatch ?_ fun e => .bind giveUp_keeps fun _ k hk _ =>
      .pure ((known_pair _ _).2 ⟨hfirst.mono hk, known_of_namesNone k _⟩)
    refine .bind (gatherCandidates_keeps han (h.mono hm) hfirst) fun found k hk hfound => ?_
    exact .pure ((known_pair _ _).2 ⟨hfound, known_of_namesNone k _⟩)
  · split
    · exact .throw _
    · exact .pure hresult.fst

@[grind ←] theorem callNamed_keeps (han : an.Agrees an') {callee : Expr}
    {written : List (Argument Expr)} {d : NameDetail} {arguments : List CallArgument}
    (h : Known n arguments) :
    Keeps n (callNamed an frame callee written d arguments scope position)
      (callNamed an' frame callee written d arguments scope position) := by
  unfold callNamed
  refine .bind (callCandidates_keeps han h) fun candidates m hm hcandidates => ?_
  refine .bind chooseCandidate_keeps fun resolution k hk _ => ?_
  refine .bind (chosenSignature_keeps (hcandidates.mono hk)) fun signature k₁ hk₁ hsignature => ?_
  refine .bind (expect_keeps (known_of_namesNone _ _)) fun item k₂ hk₂ _ => ?_
  refine .bind (by grind) fun f k₃ hk₃ _ => ?_
  refine .bind (by grind) fun f k₄ hk₄ _ => ?_
  refine .bind narrow_keeps fun _ k₅ hk₅ _ => ?_
  refine .bind settleArguments_keeps fun _ k₆ hk₆ _ => ?_
  refine .bind linkThrows_keeps fun _ k₇ hk₇ _ => .pure ?_
  exact hsignature.result.mono (by grind)

@[grind ←] theorem callType_keeps (han : an.Agrees an') {ty : Ty} {written : List (Argument Expr)}
    {arguments : List CallArgument} (h : Known n ty) :
    Keeps n (callType an frame ty written arguments scope position)
      (callType an' frame ty written arguments scope position) := by
  unfold callType
  dsimp only
  split
  · rename_i cls hcls
    refine .bind (chooseConstructor_keeps han) fun _ m hm _ => .pure ((known_cls cls).2 ?_)
    exact Nat.lt_of_lt_of_le (h.valueClass hcls) hm
  · split
    · exact .bind (by grind) fun _ _ _ _ => .bind typeText_keeps fun _ _ _ _ => .throw _
    · refine .bind conversion_keeps fun c m hm _ => ?_
      split
      · exact .bind typeText_keeps fun _ _ _ _ => .bind typeText_keeps fun _ _ _ _ => .stop
      · exact .pure (h.mono hm)

@[grind ←] theorem callValue_keeps (han : an.Agrees an') {callee : Expr} {ty : Ty}
    {written : List (Argument Expr)} {arguments : List CallArgument} (h : Known n ty) :
    Keeps n (callValue an frame callee ty written arguments scope position)
      (callValue an' frame callee ty written arguments scope position) := by
  have hvalue : Known n ty.withoutOuterReferences := known_withoutOuterReferences h
  unfold callValue
  dsimp only
  split
  · exact .pure known_any
  split
  · rename_i signature hsignature
    have hsig := known_signature? hvalue
    rw [hsignature, known_some] at hsig
    refine .bind chooseCandidate_keeps fun resolution m hm _ => ?_
    refine .bind settleArguments_keeps fun _ k hk _ => .pure ?_
    exact (hsig.result.mono hm).mono hk
  split
  · refine .bind (chooseOperator?_keeps han) fun choice m hm hchoice => ?_
    split
    · refine .bind settleArguments_keeps fun _ k hk _ => .pure ?_
      exact (Known.result hchoice).mono hk
    · exact .bind typeText_keeps fun _ _ _ _ => failOther_keeps
  · exact .bind typeText_keeps fun _ _ _ _ => failOther_keeps

@[grind ←] theorem callSuper_keeps (han : an.Agrees an') {marker : Node}
    {written : List (Argument Expr)} :
    Keeps n (callSuper an frame node marker written scope)
      (callSuper an' frame node marker written scope) := by
  unfold callSuper
  refine .bind (by grind) fun table m hm _ => ?_
  dsimp only
  split
  · refine .bind_makes methodClass_makes fun cls k hk _ => ?_
    refine .bind_makes firstParent_makes fun parent k₁ hk₁ hparent => ?_
    refine .bind (recordUnnamed_keeps rfl) fun _ k₂ hk₂ _ => ?_
    refine .bind (detailArguments_keeps han) fun arguments k₃ hk₃ _ => ?_
    refine .bind (chooseConstructor_keeps han) fun _ k₄ hk₄ _ => ?_
    refine .bind (aside_keeps fun _ => rfl) fun _ k₅ hk₅ _ => ?_
    exact .bind (recordUnnamed_keeps rfl) fun _ _ _ _ => .pure known_void
  · exact misplaced_keeps

@[grind ←] theorem detailCallee_keeps (han : an.Agrees an') {callee : Expr} :
    Keeps n (detailCallee an frame node callee scope)
      (detailCallee an' frame node callee scope) := by
  refine .tryCatch (expr_keeps han) fun e => ?_
  split
  · exact fail_keeps
  · exact .throw e

@[grind ←] theorem detailCall_keeps (han : an.Agrees an') {callee : Expr}
    {written : List (Argument Expr)} :
    Keeps n (detailCall an frame node callee written scope)
      (detailCall an' frame node callee written scope) := by
  unfold detailCall
  split
  · exact callSuper_keeps han
  refine .bind (detailCallee_keeps han) fun info m hm hinfo => ?_
  refine .bind (detailArguments_keeps han) fun arguments k hk harguments => ?_
  refine .bind detail?_keeps fun d k₁ hk₁ hd => ?_
  refine .bind (by grind) fun table k₂ hk₂ _ => ?_
  have hlast : ∀ (d : CallDetail) m, Later k₂ m → Known m d → Keeps m
      (record frame node (.call d) >>= fun _ => pure d.info)
      (record frame node (.call d) >>= fun _ => pure d.info) := fun d m _ hd =>
    .bind (recordUnnamed_keeps rfl) fun _ _ hk _ => .pure (Known.mono (a := d.info) hd hk)
  have harguments' : Known k₂ arguments := (harguments.mono hk₁).mono hk₂
  have hinfo' : Known k₂ info.ty := hinfo.mono (by grind)
  dsimp only
  split
  · exact .bind (callValue_keeps han hinfo') hlast
  · rename_i nd hnd
    obtain ⟨d, rfl, hname⟩ := Option.bind_eq_some_iff.1 hnd
    split
    · rename_i ty hty
      have hmeaning := known_meaning hd hname
      rw [hty, known_typeMeaning] at hmeaning
      exact .bind (callType_keeps han (hmeaning.mono hk₂)) hlast
    · split
      · exact .bind (callNamed_keeps han harguments') hlast
      · exact .bind (callValue_keeps han hinfo') hlast

/-! ## Values -/

theorem known_literal (l : Literal) : Known n l.ty := by
  cases l <;> exact known_of_nil rfl

@[grind ←] theorem detailLiteral_keeps {value : Literal} :
    Keeps n (detailLiteral frame node value) (detailLiteral frame node value) :=
  .bind (recordUnnamed_keeps rfl) fun _ _ _ _ => .pure (known_literal value)

@[grind ←] theorem conditionalInfo_keeps {yes no : ExprInfo} (hyes : Known n yes)
    (hno : Known n no) :
    Keeps n (conditionalInfo yes no position) (conditionalInfo yes no position) := by
  unfold conditionalInfo
  dsimp only
  split
  · exact .pure hyes
  refine .bind conversion_keeps fun toYes m hm _ => ?_
  refine .bind conversion_keeps fun toNo k hk _ => ?_
  split
  · exact .bind typeText_keeps fun _ _ _ _ => .bind typeText_keeps fun _ _ _ _ => .stop
  · have hyes' : Known k yes.ty := hyes.mono (by grind)
    have hno' : Known k no.ty := hno.mono (by grind)
    refine .pure (known_deconstify ?_)
    split
    · exact known_withoutOuterReferences hyes'
    · exact known_withoutOuterReferences hno'

@[grind ←] theorem detailConditional_keeps (han : an.Agrees an') {condition yes no : Expr} :
    Keeps n (detailConditional an frame node condition yes no scope)
      (detailConditional an' frame node condition yes no scope) := by
  unfold detailConditional
  refine .bind (.discard (expr_keeps han)) fun _ m hm _ => ?_
  refine .bind (expr_keeps han) fun y k hk hy => ?_
  refine .bind (expr_keeps han) fun no k₁ hk₁ hno => ?_
  refine .bind (conditionalInfo_keeps (hy.mono hk₁) hno) fun info k₂ hk₂ hinfo => ?_
  exact .bind (recordUnnamed_keeps rfl) fun _ _ hk₃ _ => .pure (hinfo.mono hk₃)

@[grind ←] theorem castKind_keeps {src dst : Ty} :
    Keeps n (castKind src dst position) (castKind src dst position) := by
  unfold castKind
  grind

@[grind ←] theorem detailCast_keeps (han : an.Agrees an') {value : Expr} {ty : TypeExpr} :
    Keeps n (detailCast an frame node value ty scope) (detailCast an' frame node value ty scope) := by
  unfold detailCast
  refine .bind (expr_keeps han) fun v m hm _ => ?_
  refine .bind (type_keeps han) fun target k hk htarget => ?_
  refine .bind castKind_keeps fun kind k₁ hk₁ _ => ?_
  exact .bind (recordUnnamed_keeps rfl) fun _ _ hk₂ _ => .pure ((htarget.mono hk₁).mono hk₂)

@[grind ←] theorem checkInitialValue_keeps {ty : Ty} {written : List (Argument Expr)}
    {arguments : List CallArgument} :
    Keeps n (checkInitialValue frame ty written arguments position)
      (checkInitialValue frame ty written arguments position) := by
  unfold checkInitialValue
  split
  · exact .idle
  · exact .idle
  · exact checkAssignable_keeps
  · exact .bind typeText_keeps fun _ _ _ _ => failOther_keeps

@[grind ←] theorem detailNew_keeps (han : an.Agrees an') {ty : TypeExpr}
    {written : List (Argument Expr)} {persistent : Bool} :
    Keeps n (detailNew an frame node ty written persistent scope)
      (detailNew an' frame node ty written persistent scope) := by
  unfold detailNew
  refine .bind (type_keeps han) fun made m hm hmade => ?_
  refine .bind (detailArguments_keeps han) fun arguments k hk _ => ?_
  have hinfo : Known k (ExprInfo.rvalue (if persistent then made.point else made)) := by
    have := hmade.mono hk
    split
    · exact known_point this
    · exact this
  dsimp only
  split
  · refine .bind (chooseConstructor_keeps han) fun _ k₁ hk₁ _ => ?_
    exact .bind (recordUnnamed_keeps rfl) fun _ _ hk₂ _ => .pure ((hinfo.mono hk₁).mono hk₂)
  · split
    · refine .bind checkInitialValue_keeps fun _ k₁ hk₁ _ => ?_
      exact .bind (recordUnnamed_keeps rfl) fun _ _ hk₂ _ => .pure ((hinfo.mono hk₁).mono hk₂)
    · exact .bind typeText_keeps fun _ _ _ _ => .stop

@[grind ←] theorem detailSizeOf_keeps (han : an.Agrees an') {ty : TypeExpr} :
    Keeps n (detailSizeOf an frame node ty scope) (detailSizeOf an' frame node ty scope) := by
  unfold detailSizeOf
  refine .bind (type_keeps han) fun measured m hm _ => .guard failOther_keeps fun k _ => ?_
  exact .bind (recordUnnamed_keeps rfl) fun _ _ _ _ => .pure known_size

@[grind ←] theorem enclosingSort_keeps {sort : FunctionFlags → Bool}
    {construct requirement : String} :
    Keeps n (enclosingSort sort construct requirement scope position)
      (enclosingSort sort construct requirement scope position) := by
  unfold enclosingSort
  refine .bind (by grind) fun table m hm htable => ?_
  split
  · rename_i item f hfound
    have hf : Known m f := known_foundFunction htable hfound
    split
    · exact .pure ((known_pair _ _).2 ⟨known_of_namesNone m _, hf⟩)
    · exact misplaced_keeps
  · exact misplaced_keeps

@[grind ←] theorem awaitedType?_keeps {value : Expr} :
    Keeps n (awaitedType? frame value) (awaitedType? frame value) := by
  unfold awaitedType?
  refine .bind detail?_keeps fun d m hm _ => ?_
  refine .bind (look_keeps fun t k _ ht => ?_) fun f k hk hf => .pure ?_
  · refine known_optionFilter (known_optionBind (known_of_namesNone k _) fun _ _ _ => ?_)
    exact SymbolTable.known_function? ht
  · grind

@[grind ←] theorem detailAwait_keeps (han : an.Agrees an') {value : Expr} :
    Keeps n (detailAwait an frame node value scope) (detailAwait an' frame node value scope) := by
  unfold detailAwait
  refine .bind enclosingSort_keeps fun function m hm _ => ?_
  refine .bind (expr_keeps han) fun v k hk hv => ?_
  refine .bind awaitedType?_keeps fun awaited k₁ hk₁ hawaited => ?_
  have hinfo : Known k₁ (awaited.getD v.ty.withoutOuterReferences) :=
    known_getD hawaited (known_withoutOuterReferences (hv.mono hk₁))
  exact .bind (recordUnnamed_keeps rfl) fun _ _ hk₂ _ => .pure (hinfo.mono hk₂)

@[grind ←] theorem detailYield_keeps (han : an.Agrees an') {value : Option Expr} :
    Keeps n (detailYield an frame node value scope) (detailYield an' frame node value scope) := by
  unfold detailYield
  refine .bind enclosingSort_keeps fun sort m hm hsort => ?_
  obtain ⟨function, f⟩ := sort
  have hf : Known m f := hsort.snd
  have hinfo : Known m (f.generatorParameter.getD .void) :=
    known_getD ((known_function_iff f).1 hf).2.2.1 known_void
  have hlast : ∀ k, Later m k → Keeps k
      (record frame node (.yield (.rvalue (f.generatorParameter.getD .void)) function) >>= fun _ =>
        pure (ExprInfo.rvalue (f.generatorParameter.getD .void)))
      (record frame node (.yield (.rvalue (f.generatorParameter.getD .void)) function) >>= fun _ =>
        pure (ExprInfo.rvalue (f.generatorParameter.getD .void))) := fun k hk =>
    .bind (recordUnnamed_keeps rfl) fun _ _ hk₂ _ => .pure ((hinfo.mono hk).mono hk₂)
  dsimp only
  split
  · refine .bind (expr_keeps han) fun v k hk _ => ?_
    split
    · exact .bind checkAssignable_keeps fun _ k₁ hk₁ _ => hlast k₁ (Nat.le_trans hk hk₁)
    · exact hlast k hk
  · exact hlast m (.refl m)

/-! ## Operators -/

@[grind ←] theorem noOperator_keeps {α : Type} [NamesClasses α] {symbol : String}
    {operands : List Ty} :
    Keeps n (noOperator symbol operands position : Analysis α)
      (noOperator symbol operands position) := by
  unfold noOperator
  exact .bind (by grind) fun _ _ _ _ => fail_keeps

@[grind ←] theorem recordOperator_keeps {info : ExprInfo} {overload : Option ItemId}
    (h : Known n info) :
    Keeps n (recordOperator frame node info overload) (recordOperator frame node info overload) :=
  .bind (recordUnnamed_keeps rfl) fun _ _ hm _ => .pure (h.mono hm)

@[grind ←] theorem recordOverload_keeps {choice : OperatorChoice} (h : Known n choice) :
    Keeps n (recordOverload frame node choice) (recordOverload frame node choice) :=
  recordOperator_keeps (Known.result h)

@[grind ←] theorem chooseSide?_keeps (han : an.Agrees an') {op : BinaryOp}
    {sides : List OperandSide} :
    Keeps n (chooseSide? an op scope position sides) (chooseSide? an' op scope position sides) := by
  induction sides generalizing n with
  | nil => exact .pure known_none
  | cons side rest ih =>
    unfold chooseSide?
    split
    · exact ih
    · refine .bind (chooseOperator?_keeps han) fun choice m hm hchoice => ?_
      split
      · exact .pure ((known_pair _ _).2 ⟨known_of_namesNone m _, hchoice⟩)
      · exact ih

@[grind ←] theorem detailBinary_keeps (han : an.Agrees an') {op : BinaryOp} {left right : Expr} :
    Keeps n (detailBinary an frame node op left right scope)
      (detailBinary an' frame node op left right scope) := by
  unfold detailBinary
  refine .bind (expr_keeps han) fun l m hm hl => ?_
  refine .bind (expr_keeps han) fun r k hk hr => ?_
  refine .bind (chooseSide?_keeps han) fun side k₁ hk₁ hside => ?_
  split
  · refine .bind castOperand_keeps fun _ k₂ hk₂ _ => recordOverload_keeps ?_
    exact hside.snd.mono hk₂
  · have htype := known_nativeBinaryType op ((hl.mono hk).mono hk₁ : Known k₁ l.ty)
      (hr.mono hk₁ : Known k₁ r.ty)
    split
    · rename_i ty hty
      rw [hty, known_some] at htype
      exact recordOperator_keeps htype
    · exact noOperator_keeps

theorem known_changedInfo {op : UnaryOp} {ty : Ty} (h : Known n ty) :
    Known n (op.changedInfo ty) := by
  unfold UnaryOp.changedInfo
  split
  · exact h
  · exact known_deconstify h

@[grind ←] theorem changeOperand_keeps {op : UnaryOp} {operand : ExprInfo} {ty : Ty}
    (h : Known n ty) :
    Keeps n (changeOperand op operand ty position) (changeOperand op operand ty position) := by
  unfold changeOperand
  split
  · exact noOperator_keeps
  split
  · exact failOther_keeps
  · exact .pure (known_changedInfo h)

@[grind ←] theorem nativeUnary_keeps {op : UnaryOp} {operand : ExprInfo} {ty : Ty}
    (h : Known n ty) :
    Keeps n (nativeUnary op operand ty position) (nativeUnary op operand ty position) := by
  have hfollow := known_follow? h
  unfold nativeUnary
  dsimp only
  split
  · split
    · exact .pure (known_point h)
    · exact failOther_keeps
  · split
    · exact .pure known_any
    split
    · rename_i pointee hpointee
      rw [hpointee, known_some] at hfollow
      split
      · exact noOperator_keeps
      · exact .pure hfollow
    · exact noOperator_keeps
  · split
    · exact .pure known_bool
    · exact noOperator_keeps
  · split
    · exact .pure (known_deconstify h)
    · exact noOperator_keeps
  · split
    · exact .pure (known_deconstify h)
    · exact noOperator_keeps
  · split
    · exact .pure (known_deconstify h)
    · exact noOperator_keeps
  all_goals exact changeOperand_keeps h

@[grind ←] theorem detailUnary_keeps (han : an.Agrees an') {op : UnaryOp} {operand : Expr} :
    Keeps n (detailUnary an frame node op operand scope)
      (detailUnary an' frame node op operand scope) := by
  unfold detailUnary
  refine .bind han.expr fun info m hm hinfo => ?_
  have hlast : ∀ k, Later m k → Keeps k
      (nativeUnary op info info.ty.withoutOuterReferences node.position >>= fun i =>
        recordOperator frame node i none)
      (nativeUnary op info info.ty.withoutOuterReferences node.position >>= fun i =>
        recordOperator frame node i none) := fun k hk =>
    .bind (nativeUnary_keeps (known_withoutOuterReferences (hinfo.mono hk))) fun _ _ _ hi =>
      recordOperator_keeps hi
  dsimp only
  split
  · refine .bind (chooseOperator?_keeps han) fun choice k hk hchoice => ?_
    split
    · exact recordOverload_keeps hchoice
    · exact hlast k hk
  · exact hlast m (.refl m)

@[grind ←] theorem assignedValue_keeps (han : an.Agrees an') {op : Option BinaryOp}
    {target : ExprInfo} {value : Expr} {valueType : Ty} (htarget : Known n target)
    (hvalue : Known n valueType) :
    Keeps n (assignedValue an frame op target value valueType scope position)
      (assignedValue an' frame op target value valueType scope position) := by
  have htype (op : BinaryOp) (m : Nat) (hm : Later n m) :=
    known_nativeBinaryType op (known_withoutOuterReferences (htarget.mono hm : Known m target.ty))
      (hvalue.mono hm)
  unfold assignedValue
  dsimp only
  split
  on_goal 1 => refine .bind (chooseOperator?_keeps han) fun choice m hm hchoice => ?_
  on_goal 2 => refine .bind (.pure known_none) fun choice m hm hchoice => ?_
  all_goals
    cases choice with
    | some choice =>
      refine .bind castOperand_keeps fun _ k hk _ => ?_
      cases op with
      | none => exact .pure ((known_pair _ _).2 ⟨known_of_namesNone k _, hvalue.mono (by grind)⟩)
      | some op =>
        refine .pure ((known_pair _ _).2 ⟨known_of_namesNone k _, ?_⟩)
        exact known_withoutOuterReferences ((Known.result hchoice).mono hk)
    | none =>
      cases op with
      | none => exact .pure ((known_pair _ _).2 ⟨known_none, hvalue.mono hm⟩)
      | some op =>
        have hnative := htype op m hm
        dsimp only
        split
        · rename_i ty hty
          rw [hty, known_some] at hnative
          exact .pure ((known_pair _ _).2 ⟨known_none, hnative⟩)
        · exact noOperator_keeps

@[grind ←] theorem assignmentFits_keeps {op : Option BinaryOp} {overload : Option ItemId}
    {value : Expr} {valueType targetType : Ty} :
    Keeps n (assignmentFits frame op overload value valueType targetType)
      (assignmentFits frame op overload value valueType targetType) := by
  unfold assignmentFits
  grind

@[grind ←] theorem detailAssign_keeps (han : an.Agrees an') {op : Option BinaryOp}
    {target value : Expr} :
    Keeps n (detailAssign an frame node op target value scope)
      (detailAssign an' frame node op target value scope) := by
  unfold detailAssign
  refine .bind han.expr fun t m hm ht => ?_
  refine .bind (expr_keeps han) fun v k hk hv => ?_
  refine .bind meaningOf?_keeps fun meaning k₁ hk₁ _ => ?_
  have ht' : Known k₁ t := (ht.mono hk).mono hk₁
  refine .bind (assignedValue_keeps han ht' (hv.mono hk₁)) fun _ k₂ hk₂ _ => ?_
  refine .bind assignmentFits_keeps fun compatible k₃ hk₃ _ => ?_
  refine .bind (recordUnnamed_keeps rfl) fun _ k₄ hk₄ _ => .pure ?_
  exact known_withoutOuterReferences (ht'.mono (by grind))

@[grind ←] theorem detailIndex_keeps (han : an.Agrees an') {object index : Expr} :
    Keeps n (detailIndex an frame node object index scope)
      (detailIndex an' frame node object index scope) := by
  unfold detailIndex
  refine .bind (expr_keeps han) fun o m hm ho => ?_
  refine .bind (expr_keeps han) fun i k hk _ => ?_
  have helement := known_follow? (known_withoutOuterReferences (ho.mono hk : Known k o.ty))
  dsimp only
  split
  · refine .bind (chooseOperator?_keeps han) fun choice k₁ hk₁ hchoice => ?_
    split
    · refine .bind castOperand_keeps fun _ k₂ hk₂ _ => ?_
      exact recordOverload_keeps (Known.mono (known_some _ |>.1 hchoice) hk₂)
    · exact noOperator_keeps
  split
  · exact recordOperator_keeps known_any
  split
  · rename_i element hfollow
    rw [hfollow, known_some] at helement
    split
    · exact recordOperator_keeps helement
    · exact noOperator_keeps
  · exact noOperator_keeps

/-! ## Lambdas -/

@[grind ←] theorem detailBlock_keeps (han : an.Agrees an') {b : Block Stmt} :
    Keeps n (detailBlock an frame b scope) (detailBlock an' frame b scope) :=
  .bind (stmts_keeps han) fun _ _ _ _ => recordUnnamed_keeps rfl

@[grind ←] theorem declareLambda_keeps (han : an.Agrees an') {params : List (Param Expr)}
    {returnType : Option TypeExpr} :
    Keeps n (declareLambda an frame node params returnType scope)
      (declareLambda an' frame node params returnType scope) := by
  unfold declareLambda
  refine .bind (aside_keeps fun _ => rfl) fun _ m hm _ => ?_
  refine .bind get_keeps fun s k hk _ => ?_
  dsimp only
  split
  on_goal 1 => refine .bind (type_keeps han) fun result k₁ hk₁ hresult => ?_
  on_goal 2 => refine .bind (.pure known_void) fun result k₁ hk₁ hresult => ?_
  all_goals
    refine .bind newScope_keeps fun own k₂ hk₂ _ => ?_
    refine .bind (by grind) fun item k₃ hk₃ _ => ?_
    refine .bind (setOwner_keeps (by simp)) fun _ k₄ hk₄ _ => ?_
    refine .bind (bindParameters_keeps han) fun bound k₅ hk₅ hbound => ?_
    refine .bind (by grind) fun _ _ _ _ => ?_
    exact .idle

@[grind ←] theorem stopInferring_keeps {item : ItemId} :
    Keeps n (stopInferring item) (stopInferring item) := aside_keeps fun _ => rfl

@[grind ←] theorem detailLambda_keeps (han : an.Agrees an') {params : List (Param Expr)}
    {returnType : Option TypeExpr} {body : Block Stmt} :
    Keeps n (detailLambda an frame node params returnType body scope)
      (detailLambda an' frame node params returnType body scope) := by
  unfold detailLambda
  refine .bind (declareLambda_keeps han) fun lambda m hm _ => ?_
  obtain ⟨item, own⟩ := lambda
  refine .guard (aside_keeps fun _ => rfl) fun k hk => ?_
  refine .bind (andFinally_keeps (detailBlock_keeps han) stopInferring_keeps) fun _ k₁ hk₁ _ => ?_
  refine .bind finishFunction_keeps fun _ k₂ hk₂ _ => ?_
  refine .bind sealWhenDone_keeps fun _ k₃ hk₃ _ => ?_
  refine .bind (by grind) fun ty k₄ hk₄ hty => ?_
  exact .bind (recordUnnamed_keeps rfl) fun _ _ hk₅ _ => .pure (hty.mono hk₅)

/-! ## All expressions -/

theorem detailExpr_keeps (han : an.Agrees an') {e : Expr} {access : Access} :
    Keeps n (detailExpr an frame e scope access) (detailExpr an' frame e scope access) := by
  unfold detailExpr
  split
  · exact detailLiteral_keeps
  · exact detailName_keeps han
  · exact detailMember_keeps han
  · exact detailCall_keeps han
  · exact detailNew_keeps han
  · exact detailBinary_keeps han
  · exact detailUnary_keeps han
  · exact detailAssign_keeps han
  · exact detailConditional_keeps han
  · exact detailCast_keeps han
  · exact detailIndex_keeps han
  · exact detailLambda_keeps han
  · exact detailThis_keeps
  · exact detailSuper_keeps
  · exact detailAwait_keeps han
  · exact detailYield_keeps han
  · exact detailSizeOf_keeps han

end Analysis

end SemanticAnalysis
