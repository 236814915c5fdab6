import SemanticAnalysis.Proofs.Overload.Resolution
import SemanticAnalysis.Proofs.Safety.Instances

/-!
# Expressions are safe

Written types, references, calls, operators, values and lambdas. What a lookup finds is never an alias
(`nameDetail_safe`), and the candidates of a call by name are functions, so the one that is chosen is one
(`callNamed_safe`).
-/

namespace SemanticAnalysis

theorem World.HasTarget.exists_item {w : World} {i : ItemId} (h : w.HasTarget i) :
    ∃ entry, w.table.item? i = some entry :=
  ⟨_, Array.getElem?_eq_getElem h.hasItem⟩

theorem World.HasTarget.entity_ne {w : World} {i : ItemId} {entry : Item} (h : w.HasTarget i)
    (hentry : w.table.item? i = some entry) (j : ItemId) : entry.entity ≠ .aliasOf j := by
  obtain ⟨kind, hne, hkind⟩ := h
  obtain ⟨entry', hentry', rfl⟩ := SymbolTable.kind?_eq_some_iff.1 hkind
  cases hentry.symm.trans hentry'
  intro hentity
  rw [hentity] at hne
  exact hne rfl

/-! ## Candidates -/

@[grind =] theorem isInternal_noMatchingCall {table : SymbolTable} {name : String}
    {arguments : List CallArgument} {candidates : List Candidate} {position : Position} :
    (noMatchingCall table name arguments candidates position).cause.isInternal = false := rfl

@[grind =] theorem isInternal_ambiguousCall {table : SymbolTable} {name : String}
    {arguments : List CallArgument} {candidates : List Candidate} {tied : List Nat} {position : Position} :
    (ambiguousCall table name arguments candidates tied position).cause.isInternal = false := rfl

/-- The candidates are functions. -/
def World.HasFunctions (w : World) (candidates : List Candidate) : Prop :=
  ∀ c ∈ candidates, ∃ i, c.item = some i ∧ w.HasKind i .fn

theorem World.Leads.hasFunctions {w w' : World} {candidates : List Candidate} (h : w.Leads w')
    (hcandidates : w.HasFunctions candidates) : w'.HasFunctions candidates := by
  intro c hc
  obtain ⟨i, hi, hkind⟩ := hcandidates c hc
  exact ⟨i, hi, h.hasKind hkind⟩

theorem World.HasFunctions.addCandidate {w : World} {candidates : List Candidate} {function : ItemId}
    (h : w.HasFunctions candidates) : w.HasFunctions (addCandidate w.table candidates function) := by
  unfold SemanticAnalysis.addCandidate
  cases hnew : Candidate.ofFunction? w.table function with
  | none => exact h
  | some new =>
    dsimp only
    split
    · exact h
    · intro c hc
      rcases List.mem_append.1 hc with hold | hc
      · exact h c hold
      · cases List.mem_singleton.1 hc
        obtain ⟨f, hf, rfl⟩ := Option.map_eq_some_iff.1 hnew
        exact ⟨function, rfl, SymbolTable.kind?_of_function? hf⟩

theorem World.HasFunctions.foldl_addCandidate {w : World} {candidates : List Candidate}
    {functions : List ItemId} (h : w.HasFunctions candidates) :
    w.HasFunctions (functions.foldl (SemanticAnalysis.addCandidate w.table) candidates) := by
  induction functions generalizing candidates with
  | nil => exact h
  | cons function rest ih => exact ih h.addCandidate

namespace Analysis

variable {α : Type} {w₀ : World} {frame : Frame} {node : Node} {scope : ScopeId}
variable {position : Position} {an : Analyst}

/-! ## Written types -/

section Types

variable {typeArgs : List TypeExpr}

@[grind ←] theorem resolveTypes_safe (han : an.Reliable) :
    Safe w₀ (resolveTypes an frame typeArgs scope) := .mapM fun _ _ => type_safe han

@[grind ←] theorem resolveClass_safe (han : an.Reliable) {cls : ItemId} {name : String} :
    Safe w₀ (resolveClass an frame cls name typeArgs scope position) := by
  unfold resolveClass
  grind

@[grind ←] theorem resolveNamedType_safe (han : an.Reliable) {path : List Ident} :
    Safe w₀ (resolveNamedType an frame path typeArgs scope position) := by
  unfold resolveNamedType
  extract_lets rest
  have hrest : ∀ u, Safe w₀ (rest u) := by
    intro u
    refine .bind_assures resolvePath_assures fun w item _ hitem => ?_
    refine .bind_expect (fun _ h₁ _ => (h₁.hasTarget hitem).exists_item) fun _ entry _ _ _ => ?_
    grind
  clear_value rest
  grind

@[grind ←] theorem resolveTypeParam_safe (han : an.Reliable) {p : TypeParam TypeExpr}
    {index : Nat} : Safe w₀ (resolveTypeParam an frame scope p index) := by
  unfold resolveTypeParam
  grind

@[grind ←] theorem resolveForm_safe (han : an.Reliable) {t : TypeExpr} :
    Safe w₀ (resolveForm an frame t scope) := by
  unfold resolveForm
  grind

@[grind ←] theorem resolveType_safe (han : an.Reliable) {t : TypeExpr} :
    Safe w₀ (resolveType an frame t scope) := by
  unfold resolveType
  grind

end Types

/-! ## References -/

section References

variable {functions found : List ItemId} {typeArgs : List TypeExpr} {access : Access} {name : String}

@[grind ←] theorem propertyDetail_safe {getter setter : Option ItemId} {isMethod : Bool} :
    Safe w₀ (propertyDetail functions getter setter isMethod access name position) := by
  unfold propertyDetail
  grind

@[grind ←] theorem instanceDetail_safe (han : an.Reliable) {isMethod : Bool} :
    Safe w₀ (instanceDetail an frame functions typeArgs scope isMethod name position) := by
  unfold instanceDetail
  grind

@[grind ←] theorem functionDetail_safe (han : an.Reliable) :
    Safe w₀ (functionDetail an frame found typeArgs scope access name position) := by
  unfold functionDetail
  grind

/-- A name is found to mean an item, and no alias. -/
@[grind ←] theorem nameDetail_safe (han : an.Reliable) {first : ItemId} (hfirst : w₀.HasTarget first) :
    Safe w₀ (nameDetail an frame first found typeArgs scope access name position) := by
  unfold nameDetail
  refine .bind_expect (fun _ h₀ _ => (h₀.hasTarget hfirst).exists_item) fun w entry h₀ _ hentry => ?_
  have hne := (h₀.hasTarget hfirst).entity_ne hentry
  cases hentity : entry.entity with
  | aliasOf target => exact absurd hentity (hne target)
  | _ => grind

@[grind ←] theorem detailName_safe (han : an.Reliable) {ident : Ident} :
    Safe w₀ (detailName an frame node ident typeArgs scope access) := by
  unfold detailName
  refine .bind_look fun w _ hw => ?_
  dsimp only
  split
  · grind
  · rename_i first rest hfound
    have hfirst : w.HasTarget first :=
      World.hasTarget_of_isProper (hw.coherent.isProper_of_findAll (hfound ▸ List.mem_cons_self))
    exact .bind (nameDetail_safe han hfirst) fun d => .bind record_safe fun _ => .pure

@[grind ←] theorem meaningOf?_safe {e : Expr} : Safe w₀ (meaningOf? frame e) := by
  unfold meaningOf?
  grind

theorem findMembers_assures (han : an.Reliable) {cls : ItemId} :
    Assures w₀ (findMembers an cls name scope position) fun w found => ∀ i ∈ found, w.HasTarget i := by
  unfold findMembers
  refine .after (signatures_safe han) fun _ => .bind_look fun w _ hw => ?_
  dsimp only
  split
  · exact .after (fail_safe rfl) fun _ => .pure fun w' h _ i hi => h.hasTarget <|
      World.hasTarget_of_isProper (hw.coherent.isProper_of_findInClass hi)
  · exact .pure fun w' h _ i hi => h.hasTarget <|
      World.hasTarget_of_isProper (hw.coherent.isProper_of_findInClass hi)

@[grind ←] theorem foundMember_safe (han : an.Reliable) {constantObject : Bool}
    (hfound : ∀ i ∈ found, w₀.HasTarget i) :
    Safe w₀ (foundMember an frame node found typeArgs scope access name constantObject) := by
  unfold foundMember
  split
  · exact fail_safe rfl
  · refine .bind (nameDetail_safe han (hfound _ List.mem_cons_self)) fun d => ?_
    grind

@[grind ←] theorem detailMember_safe (han : an.Reliable) {object : Expr} {member : Ident}
    (h : w₀.Hosts frame object.decls) :
    Safe w₀ (detailMember an frame node object member typeArgs scope access) := by
  unfold detailMember
  refine .bind (expr_safe han h) fun info => .bind meaningOf?_safe fun meaning => ?_
  split
  · refine .bind look_safe fun own => .bind_look fun w _ hw => foundMember_safe han fun i hi => ?_
    cases own with
    | none => cases hi
    | some s => exact World.hasTarget_of_isProper (hw.coherent.isProper_of_findLocal hi)
  · split
    · refine .bind (signatures_safe han) fun _ => .bind_look fun w _ hw => foundMember_safe han fun i hi => ?_
      exact World.hasTarget_of_isProper (hw.coherent.isProper_of_findInClass hi)
    · exact foundMember_safe han nofun
  · dsimp only
    split
    · grind
    split
    · grind
    · exact .bind_assures (findMembers_assures han) fun w found _ hfound => foundMember_safe han hfound

@[grind ←] theorem methodClass_safe {construct : String} :
    Safe w₀ (methodClass scope construct position) := by
  unfold methodClass
  grind

@[grind ←] theorem firstParent_safe {cls : ItemId} {construct : String} :
    Safe w₀ (firstParent cls construct position) := by
  unfold firstParent
  grind

@[grind ←] theorem detailThis_safe : Safe w₀ (detailThis frame node scope) := by
  unfold detailThis
  grind

@[grind ←] theorem detailSuper_safe : Safe w₀ (detailSuper frame node scope) := by
  unfold detailSuper
  grind

end References

/-! ## Choices -/

section Choices

variable {arguments : List CallArgument} {written : List (Argument Expr)} {cls : ItemId}
variable {candidates : List Candidate} {resolution : Resolution} {signature : Signature Ty}

@[grind ←] theorem detailArguments_safe (han : an.Reliable)
    (h : w₀.Hosts frame (Expr.argumentDecls written)) :
    Safe w₀ (detailArguments an frame written scope) := by
  unfold detailArguments
  refine .mapM fun a ha => .bind (expr_safe han (h.subset (Expr.decls_subset_of_argument ha))) fun _ => ?_
  grind

/-- The choice is one of the candidates. -/
theorem chooseCandidate_assures {name : String} :
    Assures w₀ (chooseCandidate name arguments candidates position) fun _ r =>
      ∃ c, candidates[r.candidate]? = some c ∧ c.item = r.item := by
  unfold chooseCandidate
  refine .bind_get fun w _ _ => ?_
  split
  · rename_i r hresolve
    obtain ⟨c, hc, hmatch⟩ := isViable_of_resolveCall hresolve
    exact .pure fun _ _ _ => ⟨c, hc, (item_of_matchCandidate hmatch).symm⟩
  · exact .throw rfl
  · exact .throw rfl

@[grind ←] theorem chooseCandidate_safe {name : String} :
    Safe w₀ (chooseCandidate name arguments candidates position) := chooseCandidate_assures.safe

@[grind ←] theorem settleArgument_safe {value : Expr} {index : Nat} :
    Safe w₀ (settleArgument frame resolution signature value index) := by
  unfold settleArgument
  grind

@[grind ←] theorem settleArguments_safe : Safe w₀ (settleArguments frame written resolution signature) :=
  .forM fun _ _ => settleArgument_safe

theorem chosenSignature_safe {c : Candidate} (hc : candidates[resolution.candidate]? = some c) :
    Safe w₀ (chosenSignature resolution candidates) := by
  unfold chosenSignature
  exact .bind_some hc .pure

@[grind ←] theorem chooseConstructor_safe (han : an.Reliable) :
    Safe w₀ (chooseConstructor an frame cls arguments written scope position) := by
  unfold chooseConstructor
  refine .bind (synthesis_safe han) fun _ => .bind itemName_safe fun name => ?_
  refine .bind look_safe fun candidates => ?_
  split
  · grind
  · refine .bind_assures chooseCandidate_assures fun w r _ hr => ?_
    obtain ⟨c, hc, -⟩ := hr
    refine .bind (chosenSignature_safe hc) fun signature => .bind settleArguments_safe fun _ => ?_
    grind

@[grind ←] theorem chooseOperator?_safe (han : an.Reliable) {operator : Operator} {side : Side} :
    Safe w₀ (chooseOperator? an cls operator side arguments scope position) := by
  unfold chooseOperator?
  refine .bind (signatures_safe han) fun _ => .bind .get fun s => ?_
  split
  · exact .pure
  · exact .throw rfl
  · split
    · exact .pure
    · exact .bind linkThrows_safe fun _ => .pure

@[grind ←] theorem castOperand_safe {operand : Expr} {choice : OperatorChoice} :
    Safe w₀ (castOperand frame operand choice) := by
  unfold castOperand
  grind

end Choices

/-! ## Calls -/

section Calls

variable {arguments : List CallArgument} {written : List (Argument Expr)} {callee : Expr}

@[grind ←] theorem inferInstance?_safe (han : an.Reliable) {template : ItemId} :
    Safe w₀ (inferInstance? an template written arguments position) := by
  unfold inferInstance?
  refine .bind template?_safe fun t => ?_
  split
  · dsimp only
    split
    · exact .pure
    split
    · exact .map (instantiateFunction_safe han)
    · exact fail_safe rfl
  · exact .pure

theorem gatherCandidates_assures (han : an.Reliable) {candidates : List Candidate} {function : ItemId}
    (h : w₀.HasFunctions candidates) :
    Assures w₀ (gatherCandidates an written arguments position candidates function) fun w cs =>
      w.HasFunctions cs := by
  unfold gatherCandidates
  refine .after look_safe fun generic => ?_
  split
  · exact .read fun w h₀ _ => (h₀.hasFunctions h).addCandidate
  · refine .after (inferInstance?_safe han) fun inst => ?_
    split
    · exact .pure fun w h₀ _ => h₀.hasFunctions h
    · refine .bind_look fun w h₀ _ => .pure fun w' h₁ _ => h₁.hasFunctions ?_
      exact (h₀.hasFunctions h).foldl_addCandidate

/-- A call by name has functions for candidates, and what it reports of the others is no internal error. -/
theorem callCandidates_assures (han : an.Reliable) {functions : List ItemId} :
    Assures w₀ (callCandidates an functions written arguments position) fun w cs =>
      w.HasFunctions cs := by
  unfold callCandidates
  extract_lets step
  have hstep : ∀ (w : World) (state : List Candidate × Option Diagnostic), ∀ function ∈ functions,
      w.HasFunctions state.1 ∧ (∀ e, state.2 = some e → e.cause.isInternal = false) →
        Assures w (step state function) fun w' state' => w'.HasFunctions state'.1 ∧
          ∀ e, state'.2 = some e → e.cause.isInternal = false := by
    intro w state function _ hstate
    refine .tryCatch (.bind (gatherCandidates_assures han hstate.1) fun w' cs _ hcs => ?_) fun e he => ?_
    · exact .pure fun _ h₁ _ => ⟨h₁.hasFunctions hcs, hstate.2⟩
    · refine .after (giveUp_safe he) fun _ => .pure fun _ h₁ _ => ⟨h₁.hasFunctions hstate.1, fun d hd => ?_⟩
      cases hfirst : state.2 with
      | none =>
        rw [hfirst] at hd
        cases hd
        exact he
      | some first =>
        rw [hfirst] at hd
        cases hd
        exact hstate.2 _ hfirst
  clear_value step
  refine .bind (.foldlM (fun _ _ _ h₁ hstate => ⟨h₁.hasFunctions hstate.1, hstate.2⟩) ⟨nofun, nofun⟩
    fun w state a ha _ => hstep w state a ha) fun w state _ hstate => ?_
  split
  · exact .throw (hstate.2 _ rfl)
  · exact .pure fun _ h₁ _ => h₁.hasFunctions hstate.1

/-- A call by name chooses a function. -/
@[grind ←] theorem callNamed_safe (han : an.Reliable) {d : NameDetail} :
    Safe w₀ (callNamed an frame callee written d arguments scope position) := by
  unfold callNamed
  refine .bind_assures (callCandidates_assures han) fun w candidates _ hcandidates => ?_
  refine .bind_assures chooseCandidate_assures fun w₁ resolution h₁ hresolution => ?_
  obtain ⟨c, hc, hitem⟩ := hresolution
  obtain ⟨item, hsome, hkind⟩ := hcandidates c (List.mem_of_getElem? hc)
  refine .bind (chosenSignature_safe hc) fun signature => ?_
  rw [← hitem, hsome]
  refine .bind_function (h₁.hasKind hkind) fun f => ?_
  grind

@[grind ←] theorem callType_safe (han : an.Reliable) {ty : Ty} :
    Safe w₀ (callType an frame ty written arguments scope position) := by
  unfold callType
  split
  · exact .bind (chooseConstructor_safe han) fun _ => .pure
  · dsimp only
    split
    · exact .bind look_safe fun _ => .bind typeText_safe fun _ => .throw rfl
    · refine .bind conversion_safe fun _ => ?_
      split
      · exact .bind typeText_safe fun _ => .bind typeText_safe fun _ => .bind (fail_safe rfl) fun _ => .pure
      · exact .pure

@[grind ←] theorem callValue_safe (han : an.Reliable) {ty : Ty} :
    Safe w₀ (callValue an frame callee ty written arguments scope position) := by
  unfold callValue
  grind

@[grind ←] theorem callSuper_safe (han : an.Reliable) {marker : Node}
    (h : w₀.Hosts frame (Expr.argumentDecls written)) :
    Safe w₀ (callSuper an frame node marker written scope) := by
  unfold callSuper
  refine .bind look_safe fun table => ?_
  dsimp only
  split
  · refine .bind methodClass_safe fun cls => .bind firstParent_safe fun parent => ?_
    refine .bind record_safe fun _ => .bind (detailArguments_safe han h) fun arguments => ?_
    refine .bind (chooseConstructor_safe han) fun choice => ?_
    refine .bind (.alter fun w => { World.Change.refl w with }) fun _ => ?_
    exact .bind record_safe fun _ => .pure
  · exact misplaced_safe

@[grind ←] theorem detailCallee_safe (han : an.Reliable) (h : w₀.Hosts frame callee.decls) :
    Safe w₀ (detailCallee an frame node callee scope) := by
  unfold detailCallee
  refine .tryCatch (expr_safe han h) fun e he => ?_
  split
  · exact fail_safe rfl
  · exact .throw he

@[grind ←] theorem detailCall_safe (han : an.Reliable) (hcallee : w₀.Hosts frame callee.decls)
    (h : w₀.Hosts frame (Expr.argumentDecls written)) :
    Safe w₀ (detailCall an frame node callee written scope) := by
  unfold detailCall
  split
  · exact callSuper_safe han h
  refine .bind (detailCallee_safe han hcallee) fun info => ?_
  refine .bind (detailArguments_safe han h) fun arguments => ?_
  refine .bind detail?_safe fun d => .bind look_safe fun table => ?_
  grind

end Calls

/-! ## Operators -/

section Operators

@[grind ←] theorem noOperator_safe {symbol : String} {operands : List Ty} :
    Safe w₀ (noOperator symbol operands position : Analysis α) := by
  unfold noOperator
  exact .bind look_safe fun _ => fail_safe rfl

@[grind ←] theorem recordOperator_safe {info : ExprInfo} {overload : Option ItemId} :
    Safe w₀ (recordOperator frame node info overload) := by
  unfold recordOperator
  grind

@[grind ←] theorem recordOverload_safe {choice : OperatorChoice} :
    Safe w₀ (recordOverload frame node choice) := recordOperator_safe

@[grind ←] theorem chooseSide?_safe (han : an.Reliable) {op : BinaryOp} {sides : List OperandSide} :
    Safe w₀ (chooseSide? an op scope position sides) := by
  induction sides with
  | nil => exact .pure
  | cons side rest ih =>
    unfold chooseSide?
    grind

@[grind ←] theorem detailBinary_safe (han : an.Reliable) {op : BinaryOp} {left right : Expr}
    (hleft : w₀.Hosts frame left.decls) (hright : w₀.Hosts frame right.decls) :
    Safe w₀ (detailBinary an frame node op left right scope) := by
  unfold detailBinary
  grind

@[grind ←] theorem changeOperand_safe {op : UnaryOp} {operand : ExprInfo} {ty : Ty} :
    Safe w₀ (changeOperand op operand ty position) := by
  unfold changeOperand
  split
  · exact noOperator_safe
  · split
    · exact failOther_safe
    · exact .pure

@[grind ←] theorem nativeUnary_safe {op : UnaryOp} {operand : ExprInfo} {ty : Ty} :
    Safe w₀ (nativeUnary op operand ty position) := by
  unfold nativeUnary
  grind

@[grind ←] theorem detailUnary_safe (han : an.Reliable) {op : UnaryOp} {operand : Expr}
    (h : w₀.Hosts frame operand.decls) : Safe w₀ (detailUnary an frame node op operand scope) := by
  unfold detailUnary
  grind

@[grind ←] theorem assignedValue_safe (han : an.Reliable) {op : Option BinaryOp} {target : ExprInfo}
    {value : Expr} {valueType : Ty} :
    Safe w₀ (assignedValue an frame op target value valueType scope position) := by
  unfold assignedValue
  dsimp only
  split
  · refine .bind (chooseOperator?_safe han) fun choice => ?_
    cases op <;> cases choice <;> grind
  · refine .bind .pure fun choice => ?_
    cases op <;> cases choice <;> grind

@[grind ←] theorem assignmentFits_safe {op : Option BinaryOp} {overload : Option ItemId} {value : Expr}
    {valueType targetType : Ty} :
    Safe w₀ (assignmentFits frame op overload value valueType targetType) := by
  unfold assignmentFits
  grind

@[grind ←] theorem detailAssign_safe (han : an.Reliable) {op : Option BinaryOp} {target value : Expr}
    (htarget : w₀.Hosts frame target.decls) (hvalue : w₀.Hosts frame value.decls) :
    Safe w₀ (detailAssign an frame node op target value scope) := by
  unfold detailAssign
  grind

@[grind ←] theorem detailIndex_safe (han : an.Reliable) {object index : Expr}
    (hobject : w₀.Hosts frame object.decls) (hindex : w₀.Hosts frame index.decls) :
    Safe w₀ (detailIndex an frame node object index scope) := by
  unfold detailIndex
  refine .bind (expr_safe han hobject) fun o => .bind (expr_safe han hindex) fun i => ?_
  dsimp only
  split
  · refine .bind (chooseOperator?_safe han) fun choice => ?_
    grind
  · grind

end Operators

/-! ## Values -/

section Values

variable {written : List (Argument Expr)}

@[grind ←] theorem detailLiteral_safe {value : Literal} : Safe w₀ (detailLiteral frame node value) := by
  unfold detailLiteral
  grind

@[grind ←] theorem conditionalInfo_safe {yes no : ExprInfo} :
    Safe w₀ (conditionalInfo yes no position) := by
  unfold conditionalInfo
  split
  · exact .pure
  · refine .bind conversion_safe fun _ => .bind conversion_safe fun _ => ?_
    dsimp only
    split
    · exact .bind typeText_safe fun _ => .bind typeText_safe fun _ => .bind (fail_safe rfl) fun _ => .pure
    · exact .pure

@[grind ←] theorem detailConditional_safe (han : an.Reliable) {condition yes no : Expr}
    (hcondition : w₀.Hosts frame condition.decls) (hyes : w₀.Hosts frame yes.decls)
    (hno : w₀.Hosts frame no.decls) :
    Safe w₀ (detailConditional an frame node condition yes no scope) := by
  unfold detailConditional
  grind

@[grind ←] theorem castKind_safe {src dst : Ty} : Safe w₀ (castKind src dst position) := by
  unfold castKind
  refine .bind conversion_safe fun c => ?_
  split
  · exact .pure
  · refine .bind look_safe fun kind => ?_
    split
    · exact .pure
    · exact .bind typeText_safe fun _ => .bind typeText_safe fun _ => fail_safe rfl

@[grind ←] theorem detailCast_safe (han : an.Reliable) {value : Expr} {ty : TypeExpr}
    (h : w₀.Hosts frame value.decls) : Safe w₀ (detailCast an frame node value ty scope) := by
  unfold detailCast
  grind

@[grind ←] theorem checkInitialValue_safe {ty : Ty} {arguments : List CallArgument} :
    Safe w₀ (checkInitialValue frame ty written arguments position) := by
  unfold checkInitialValue
  grind

@[grind ←] theorem detailNew_safe (han : an.Reliable) {ty : TypeExpr} {persistent : Bool}
    (h : w₀.Hosts frame (Expr.argumentDecls written)) :
    Safe w₀ (detailNew an frame node ty written persistent scope) := by
  unfold detailNew
  grind

@[grind ←] theorem detailSizeOf_safe (han : an.Reliable) {ty : TypeExpr} :
    Safe w₀ (detailSizeOf an frame node ty scope) := by
  unfold detailSizeOf
  grind

@[grind ←] theorem enclosingSort_safe {sort : FunctionFlags → Bool} {construct requirement : String} :
    Safe w₀ (enclosingSort sort construct requirement scope position) := by
  unfold enclosingSort
  grind

@[grind ←] theorem awaitedType?_safe {value : Expr} : Safe w₀ (awaitedType? frame value) := by
  unfold awaitedType?
  grind

@[grind ←] theorem detailAwait_safe (han : an.Reliable) {value : Expr} (h : w₀.Hosts frame value.decls) :
    Safe w₀ (detailAwait an frame node value scope) := by
  unfold detailAwait
  grind

@[grind ←] theorem detailYield_safe (han : an.Reliable) {value : Option Expr}
    (h : w₀.Hosts frame (Expr.optionDecls value)) :
    Safe w₀ (detailYield an frame node value scope) := by
  unfold detailYield
  refine .bind enclosingSort_safe fun sort => ?_
  cases value with
  | none => grind
  | some e =>
    have he : w₀.Hosts frame e.decls := (Expr.optionDecls.eq_2 e) ▸ h
    grind

end Values

/-! ## Lambdas -/

section Lambdas

variable {params : List (Param Expr)} {returnType : Option TypeExpr} {body : Block Stmt}

@[grind ←] theorem detailBlock_safe (han : an.Reliable) (h : w₀.Hosts frame (Stmt.blockDecls body)) :
    Safe w₀ (detailBlock an frame body scope) := by
  unfold detailBlock
  rw [Stmt.blockDecls_eq] at h
  grind

@[grind ←] theorem stopInferring_safe {item : ItemId} : Safe w₀ (stopInferring item) :=
  .alter fun w => { World.Change.refl w with }

/-- What declaring a lambda comes to once its result is known. -/
theorem makeLambda_safe (han : an.Reliable) (h : w₀.Hosts frame (Expr.paramDecls params)) (result : Ty)
    (name : String) : Safe w₀ (do
      let own ← newScope scope
      let item ← addItem
        { name, scope
          module := frame.module
          visibility := .scopeOnly
          position := node.position
          entity := .fn { scope := own, returnType := result, flags := { lambda := true } } }
      setOwner own (.fn item)
      let (params, paramVariables) ← bindParameters an frame params item own
      change (·.modifyFunction item fun f => { f with params, paramVariables })
      return (item, own)) := by
  refine .bind newScope_safe fun own => ?_
  refine .bind_assures (addItem_assures (by simp)) fun w item h₀ hitem => ?_
  refine .bind (setFunction_safe hitem) fun _ => .bind (bindParameters_safe han (h₀.hosts h)) fun bound => ?_
  exact .bind (change_safe fun _ => .modifyFunction) fun _ => .pure

@[grind ←] theorem declareLambda_safe (han : an.Reliable) (h : w₀.Hosts frame (Expr.paramDecls params)) :
    Safe w₀ (declareLambda an frame node params returnType scope) := by
  unfold declareLambda
  refine .bind (.alter fun w => { World.Change.refl w with }) fun _ => .bind .get fun s => ?_
  cases returnType with
  | some t => exact .bind (type_safe han) fun _ => makeLambda_safe han h _ _
  | none => exact makeLambda_safe han h _ _

@[grind ←] theorem detailLambda_safe (han : an.Reliable) (hparams : w₀.Hosts frame (Expr.paramDecls params))
    (hbody : w₀.Hosts frame (Stmt.blockDecls body)) :
    Safe w₀ (detailLambda an frame node params returnType body scope) := by
  unfold detailLambda
  refine .bind (declareLambda_safe han hparams) fun declared => ?_
  refine .guard (.alter fun w => { World.Change.refl w with }) ?_
  refine .bind (andFinally_safe (detailBlock_safe han hbody) stopInferring_safe) fun _ => ?_
  grind

end Lambdas

end Analysis

end SemanticAnalysis
