import SemanticAnalysis.Proofs.Faithful.Programs
import SemanticAnalysis.Proofs.Overload.Binding
import SemanticAnalysis.Proofs.Overload.Resolution

/-!
# Values without arguments

There are two ways to make a value of a class without arguments: a variable without an initializer, and a call
`C()`. Each of them is accepted under a condition of its own (`default_construction`).

* The variable needs a constructor without parameters, and runs the first one (`uninitializedType_eq`).
* The call chooses among the constructors that can do without arguments. Those without parameters beat those that
  pack what they get, and the best one has to be the only one of its kind (`leaders_nil`). A class without
  constructors accepts the call as well (`chooseConstructor_none`).

If both are accepted, they run the same constructor. But a class without constructors can be called only, and so can
one whose only such constructor packs what it gets (`external_class_differs`), while of a class with two constructors
without parameters there can be variables only.
-/

namespace SemanticAnalysis

open Analysis (bind_ok bind_error of_bind_ok)

/-- Around a value there is no reference. -/
theorem Ty.isReference_of_isValue {t : Ty} (h : t.isValue = true) : t.isReference = false := by
  have hnone : ∀ m ∈ t.layers, ¬ m.isIndirection = true := by
    rw [Ty.isValue, beq_iff_eq] at h
    exact List.countP_eq_zero.1 h
  unfold Ty.isReference Ty.outermost
  cases hlast : t.layers.getLast? with
  | none => rfl
  | some m =>
    have hm := hnone m (List.mem_of_getLast? hlast)
    rw [Modifier.isIndirection, Bool.or_eq_true, not_or] at hm
    exact Bool.eq_false_iff.2 hm.2

/-! ## Calls without arguments -/

/-- The signature has one parameter, which is variadic. -/
def Signature.isPacking (s : Signature Ty) : Bool := s.isVariadic && s.fixedArity == 0

theorem Signature.isVariadic_of_isEmpty {s : Signature Ty} (h : s.params.isEmpty = true) : s.isVariadic = false := by
  rw [List.isEmpty_iff] at h
  rw [Signature.isVariadic, h, List.getLast?_nil]

theorem Signature.accepts_zero (s : Signature Ty) : s.accepts 0 = (s.params.isEmpty || s.isPacking) := by
  have hlength := s.length_params
  cases hvariadic : s.isVariadic with
  | false =>
    rw [hvariadic, if_neg Bool.false_ne_true, Nat.add_zero] at hlength
    rw [accepts, isPacking, hvariadic, if_neg Bool.false_ne_true, Bool.false_and, Bool.or_false, Bool.eq_iff_iff,
      beq_iff_eq, List.isEmpty_iff_length_eq_zero, hlength]
    exact eq_comm
  | true =>
    have hsome : s.params.isEmpty = false := by
      rw [← Bool.not_eq_true]
      intro hempty
      rw [isVariadic_of_isEmpty hempty] at hvariadic
      cases hvariadic
    rw [accepts, isPacking, hvariadic, if_pos rfl, hsome, Bool.false_or, Bool.true_and, Bool.eq_iff_iff,
      decide_eq_true_eq, beq_iff_eq, Nat.le_zero]

/-- What takes no argument and packs nothing has no parameters. -/
theorem Signature.accepts_zero_fixed (s : Signature Ty) : (s.accepts 0 && !s.isVariadic) = s.params.isEmpty := by
  rw [accepts_zero]
  cases hempty : s.params.isEmpty with
  | true =>
    rw [isVariadic_of_isEmpty hempty]
    rfl
  | false =>
    rw [Bool.false_or, isPacking]
    cases s.isVariadic <;> simp

/-- A standing without scores dominates another one if only the other one is variadic. -/
theorem Standing.dominates_nil (a b : Bool) : Standing.dominates ⟨[], a⟩ ⟨[], b⟩ = (!a && b) := by
  cases a <;> cases b <;> rfl

section Choice

variable {table : SymbolTable} {options : Options} {candidates : List Candidate}

theorem matchCandidate_nil (convert : Ty → Ty → Conversion) (c : Candidate) (i : Nat) :
    matchCandidate convert [] c i = (bindArguments c.signature []).map fun bindings =>
      { candidate := i, item := c.item, argumentMap := [], bindings, scores := [], narrowed := [], casts := [] } := by
  unfold matchCandidate
  cases bindArguments c.signature [] <;> rfl

/-- All that take no argument are viable, with nothing to be compared but whether they are variadic. -/
theorem viable_nil (table : SymbolTable) (options : Options) (candidates : List Candidate) :
    (viable table options [] candidates).map (fun r => (r.item, standingOf candidates r)) =
    (candidates.filter (·.signature.accepts 0)).map fun c => (c.item, ⟨[], c.signature.isVariadic⟩) := by
  rw [← List.filterMap_eq_filter, List.map_filterMap]
  conv_rhs => rw [← List.zipIdx_map_fst 0 candidates, List.filterMap_map]
  unfold viable
  rw [List.map_filterMap]
  refine List.filterMap_congr fun ⟨c, i⟩ hc => ?_
  have hc : candidates[i]? = some c := List.mem_zipIdx_iff_getElem?.1 hc
  have hbound : (bindArguments c.signature []).isSome = c.signature.accepts 0 :=
    bindArguments_positional fun a ha => absurd ha List.not_mem_nil
  dsimp only [Function.comp_apply]
  rw [matchCandidate_nil, Option.map_map, Option.guard, ← hbound]
  cases bindArguments c.signature [] with
  | none => rfl
  | some bindings => simp [standingOf, hc]

/-- The candidates that an empty argument list chooses among: those without parameters, or else those that pack
what they get. -/
def emptyCallees (candidates : List Candidate) : List Candidate :=
  if (candidates.filter (·.signature.params.isEmpty)).isEmpty then candidates.filter (·.signature.isPacking)
  else candidates.filter (·.signature.params.isEmpty)

/-- A variadic candidate is beaten by one that is not. -/
theorem leaders_nil_eq_filter : (leaders table options [] candidates).map (·.item) =
    ((candidates.filter (·.signature.accepts 0)).filter fun c =>
      !(candidates.filter (·.signature.accepts 0)).any fun d =>
        !d.signature.isVariadic && c.signature.isVariadic).map (·.item) := by
  have hviable := viable_nil table options candidates
  have hstandings : (viable table options [] candidates).map (standingOf candidates) =
      (candidates.filter (·.signature.accepts 0)).map fun c => ⟨[], c.signature.isVariadic⟩ := by
    have hsnd := congrArg (List.map Prod.snd) hviable
    rwa [List.map_map, List.map_map] at hsnd
  have htop : ∀ b, Standing.isTop ((viable table options [] candidates).map (standingOf candidates)) ⟨[], b⟩ =
      !(candidates.filter (·.signature.accepts 0)).any fun d => !d.signature.isVariadic && b := by
    intro b
    rw [Standing.isTop, hstandings, List.any_map]
    simp only [Function.comp_def, Standing.dominates_nil]
  have hfilter := congrArg (fun l => (l.filter fun x =>
    Standing.isTop ((viable table options [] candidates).map (standingOf candidates)) x.2).map Prod.fst) hviable
  simp only [List.filter_map, List.map_map, Function.comp_def, htop] at hfilter
  exact hfilter

/-- If there is a candidate without parameters, it beats all that are variadic. Else nothing is beaten. -/
theorem any_fixed_eq (b : Bool) :
    ((candidates.filter (·.signature.accepts 0)).any fun d => !d.signature.isVariadic && b) =
      (!(candidates.filter (·.signature.params.isEmpty)).isEmpty && b) := by
  cases b with
  | false => simp
  | true =>
    rw [List.any_filter, Bool.and_true]
    simp only [Bool.and_true, Signature.accepts_zero_fixed]
    rw [Bool.eq_iff_iff, List.any_eq_true, Bool.not_eq_true', ← Bool.not_eq_true, List.isEmpty_iff,
      List.filter_eq_nil_iff]
    push Not
    rfl

/-- Without arguments the leaders are the candidates without parameters, or else those that pack what they get. -/
theorem leaders_nil : (leaders table options [] candidates).map (·.item) = (emptyCallees candidates).map (·.item) := by
  rw [leaders_nil_eq_filter, List.filter_filter, emptyCallees]
  simp only [any_fixed_eq]
  split
  · rename_i hplain
    refine congrArg _ (List.filter_congr fun c hc => ?_)
    rw [List.isEmpty_iff] at hplain
    have hsome : c.signature.params.isEmpty = false := Bool.eq_false_iff.2 (List.filter_eq_nil_iff.1 hplain c hc)
    rw [hplain, c.signature.accepts_zero, hsome]
    rfl
  · rename_i hplain
    refine congrArg _ (List.filter_congr fun c _ => ?_)
    rw [Bool.eq_false_iff.2 hplain, Bool.not_false, Bool.true_and, Bool.and_comm, c.signature.accepts_zero_fixed]

end Choice

/-! ## Constructors -/

namespace SymbolTable

variable {t : SymbolTable} {constructors : List ItemId}

/-- The item is a function with one parameter, which is variadic. -/
def takesSurplus (t : SymbolTable) (k : ItemId) : Bool := (t.function? k).any (·.signature.isPacking)

/-- The constructors that an empty argument list chooses among. -/
def emptyConstructors (t : SymbolTable) (constructors : List ItemId) : List ItemId :=
  if (constructors.filter t.takesNothing).isEmpty then constructors.filter t.takesSurplus
  else constructors.filter t.takesNothing

theorem filter_candidates (p : Signature Ty → Bool) :
    ((constructors.filterMap (Candidate.ofFunction? t)).filter (p ·.signature)).map (·.item) =
      (constructors.filter fun k => (t.function? k).any (p ·.signature)).map some := by
  induction constructors with
  | nil => rfl
  | cons k rest ih =>
    cases hk : t.function? k with
    | none =>
      have hnone : Candidate.ofFunction? t k = none := by rw [Candidate.ofFunction?, hk, Option.map_none]
      rw [List.filterMap_cons_none hnone, ih, List.filter_cons_of_neg (by simp [hk])]
    | some f =>
      have hsome : Candidate.ofFunction? t k = some ⟨some k, f.signature⟩ := by
        rw [Candidate.ofFunction?, hk, Option.map_some]
      rw [List.filterMap_cons_some hsome, List.filter_cons, List.filter_cons, hk, Option.any_some]
      split
      · rw [List.map_cons, List.map_cons, ih]
      · exact ih

theorem emptyCallees_candidates : (emptyCallees (constructors.filterMap (Candidate.ofFunction? t))).map (·.item) =
    (t.emptyConstructors constructors).map some := by
  have hplain : ((constructors.filterMap (Candidate.ofFunction? t)).filter (·.signature.params.isEmpty)).map (·.item) =
      (constructors.filter t.takesNothing).map some := filter_candidates (·.params.isEmpty)
  have hpacking : ((constructors.filterMap (Candidate.ofFunction? t)).filter (·.signature.isPacking)).map (·.item) =
      (constructors.filter t.takesSurplus).map some := filter_candidates (·.isPacking)
  have hsame := congrArg List.isEmpty hplain
  rw [List.isEmpty_map, List.isEmpty_map] at hsame
  rw [emptyCallees, emptyConstructors, hsame]
  split
  · exact hpacking
  · exact hplain

end SymbolTable

namespace Analysis

variable {an : Analyst} {frame : Frame} {scope : ScopeId} {position : Position} {s s₁ : State} {cls : ItemId}
variable {decl : VariableDecl Expr} {ty : Ty} {c : Class}

/-- A variable without an initializer runs the default constructor of its class, or is refused. -/
theorem uninitializedType_eq (decl : VariableDecl Expr) (hask : an.ask (.synthesis cls) s = .ok ⟨⟩ s₁) (hcls : s₁.table.class? cls = some c)
    (href : ty.isReference = false) (hty : ty.valueClass? = some cls) :
    uninitializedType an decl (some ty) s =
      match c.defaultConstructor with
      | some ctor => .ok (ty, some ctor) s₁
      | none => .error ⟨.noDefaultConstructor (s₁.table.itemName cls)
        ("variable " ++ Cause.quoted decl.name.name ++ " has no initializer"), decl.node.position⟩ s₁ := by
  have hlook : look (·.class? cls) s₁ = .ok (some c) s₁ := by
    rw [← hcls]
    rfl
  unfold uninitializedType
  dsimp only
  rw [href, hty, if_neg Bool.false_ne_true]
  dsimp only
  rw [bind_ok hask, bind_ok hlook, Option.bind_some]
  cases c.defaultConstructor <;> rfl

/-- A class without constructors is made without one. -/
theorem chooseConstructor_none (hask : an.ask (.synthesis cls) s = .ok ⟨⟩ s₁)
    (hnone : constructorCandidates s₁.table cls = []) :
    chooseConstructor an frame cls [] [] scope position s = .ok (none, none) s₁ := by
  have hname : itemName cls s₁ = .ok (s₁.table.itemName cls) s₁ := rfl
  have hlook : look (constructorCandidates · cls) s₁ = .ok [] s₁ := by
    rw [← hnone]
    rfl
  unfold chooseConstructor
  rw [bind_ok hask, bind_ok hname, bind_ok hlook]
  rfl

/-- A choice goes by the resolution alone, and changes nothing. -/
theorem chooseCandidate_ok_iff {name : String} {arguments : List CallArgument} {candidates : List Candidate}
    {r : Resolution} {s' : State} : chooseCandidate name arguments candidates position s = .ok r s' ↔
      resolveCall s.table s.options arguments candidates = .ok r ∧ s' = s := by
  have hget : (get : Analysis State) s = .ok s s := rfl
  unfold chooseCandidate
  rw [bind_ok hget]
  cases resolveCall s.table s.options arguments candidates with
  | ok resolution =>
    dsimp only
    constructor
    · rintro ⟨⟩
      exact ⟨rfl, rfl⟩
    · rintro ⟨⟨⟩, rfl⟩
      rfl
  | error failure => cases failure <;> exact ⟨nofun, nofun⟩

/-- The only constructor that an empty argument list chooses among is chosen. -/
theorem resolveCall_nil_iff {t : SymbolTable} {options : Options} (hcls : t.class? cls = some c)
    (hpolicy : options.ambiguity = .reject) {callee : Option ItemId} :
    (∃ r, resolveCall t options [] (constructorCandidates t cls) = .ok r ∧ r.item = callee) ↔
      ∃ k, callee = some k ∧ t.emptyConstructors c.constructors = [k] := by
  have hcandidates : constructorCandidates t cls = c.constructors.filterMap (Candidate.ofFunction? t) := by
    rw [constructorCandidates, hcls, Option.map_some, Option.getD_some]
  have hitems : (leaders t options [] (constructorCandidates t cls)).map (·.item) =
      (t.emptyConstructors c.constructors).map some := by
    rw [leaders_nil, hcandidates, SymbolTable.emptyCallees_candidates]
  simp only [resolveCall_eq_ok_iff hpolicy]
  constructor
  · rintro ⟨r, hleaders, rfl⟩
    rw [hleaders] at hitems
    obtain ⟨k, rest, hk, hitem, hrest⟩ := List.map_eq_cons_iff.1 hitems.symm
    rw [List.map_nil, List.map_eq_nil_iff] at hrest
    exact ⟨k, hitem.symm, hrest ▸ hk⟩
  · rintro ⟨k, rfl, hk⟩
    rw [hk] at hitems
    obtain ⟨r, rest, hr, hitem, hrest⟩ := List.map_eq_cons_iff.1 hitems
    rw [List.map_nil, List.map_eq_nil_iff] at hrest
    exact ⟨r, hrest ▸ hr, hitem⟩

/-- A constructor is called exactly if it is what the empty argument list resolves to. -/
theorem chooseConstructor_some (hask : an.ask (.synthesis cls) s = .ok ⟨⟩ s₁)
    (hsome : constructorCandidates s₁.table cls ≠ []) {callee : Option ItemId} :
    (∃ resolution s', chooseConstructor an frame cls [] [] scope position s = .ok (callee, resolution) s') ↔
      ∃ r, resolveCall s₁.table s₁.options [] (constructorCandidates s₁.table cls) = .ok r ∧ r.item = callee := by
  have hname : itemName cls s₁ = .ok (s₁.table.itemName cls) s₁ := rfl
  have hlook : look (constructorCandidates · cls) s₁ = .ok (constructorCandidates s₁.table cls) s₁ := rfl
  obtain ⟨first, rest, hcandidates⟩ := List.exists_cons_of_ne_nil hsome
  unfold chooseConstructor
  rw [bind_ok hask, bind_ok hname, bind_ok hlook, hcandidates]
  dsimp only
  constructor
  · rintro ⟨resolution, s', hrun⟩
    obtain ⟨r, s₂, hchoice, hsettle⟩ := of_bind_ok hrun
    obtain ⟨hresolve, hsame⟩ := chooseCandidate_ok_iff.1 hchoice
    refine ⟨r, hresolve, ?_⟩
    obtain ⟨signature, s₃, -, hsettle⟩ := of_bind_ok hsettle
    obtain ⟨_, s₄, -, hlink⟩ := of_bind_ok hsettle
    cases hitem : r.item with
    | none =>
      rw [hitem] at hlink
      cases hlink
      rfl
    | some function =>
      rw [hitem] at hlink
      cases hlink
      rfl
  · rintro ⟨r, hresolve, rfl⟩
    have hchoice : chooseCandidate (s₁.table.itemName cls) [] (first :: rest) position s₁ = .ok r s₁ :=
      chooseCandidate_ok_iff.2 ⟨hresolve, rfl⟩
    obtain ⟨c, hc, -⟩ := isViable_of_resolveCall hresolve
    have hsignature : chosenSignature r (first :: rest) s₁ = .ok c.signature s₁ := by
      unfold chosenSignature
      rw [hc]
      rfl
    have hsettle : settleArguments frame [] r c.signature s₁ = .ok ⟨⟩ s₁ := rfl
    rw [bind_ok hchoice, bind_ok hsignature, bind_ok hsettle]
    cases r.item with
    | none => exact ⟨_, _, rfl⟩
    | some function => exact ⟨_, _, rfl⟩

/-! ## Both ways -/

/-- A variable of the type is accepted without an initializer, and runs the constructor. -/
def VariableRuns (an : Analyst) (decl : VariableDecl Expr) (ty : Ty) (s : State) (ctor : Option ItemId) : Prop :=
  ∃ s', uninitializedType an decl (some ty) s = .ok (ty, ctor) s'

/-- A call of the type is accepted without arguments, and runs the constructor. -/
def CallRuns (an : Analyst) (frame : Frame) (ty : Ty) (scope : ScopeId) (position : Position) (s : State)
    (ctor : Option ItemId) : Prop :=
  ∃ d s', callType an frame ty [] [] scope position s = .ok d s' ∧ d.callee = ctor

theorem variableRuns_iff (hask : an.ask (.synthesis cls) s = .ok ⟨⟩ s₁) (hfiled : s₁.table.Filed)
    (hcls : s₁.table.class? cls = some c) (hty : ty.valueClass? = some cls) {ctor : Option ItemId} :
    VariableRuns an decl ty s ctor ↔
      ∃ k, ctor = some k ∧ (c.constructors.filter s₁.table.takesNothing).head? = some k := by
  have hvalue : ty.isValue = true := by
    rw [Ty.valueClass?] at hty
    by_contra hnot
    rw [if_neg hnot] at hty
    cases hty
  have hrun := uninitializedType_eq decl hask hcls (Ty.isReference_of_isValue hvalue) hty
  rw [List.head?_filter, ← hfiled.first cls c hcls]
  unfold VariableRuns
  rw [hrun]
  cases c.defaultConstructor with
  | none =>
    constructor
    · rintro ⟨_, ⟨⟩⟩
    · rintro ⟨_, _, ⟨⟩⟩
  | some k =>
    constructor
    · rintro ⟨s', ⟨⟩⟩
      exact ⟨k, rfl, rfl⟩
    · rintro ⟨_, rfl, ⟨⟩⟩
      exact ⟨s₁, rfl⟩

theorem callRuns_iff_chooseConstructor (hty : ty.valueClass? = some cls) {ctor : Option ItemId} :
    CallRuns an frame ty scope position s ctor ↔
      ∃ resolution s', chooseConstructor an frame cls [] [] scope position s = .ok (ctor, resolution) s' := by
  unfold CallRuns callType
  rw [hty]
  dsimp only
  constructor
  · rintro ⟨d, s', hrun, rfl⟩
    obtain ⟨⟨callee, resolution⟩, s₂, hchoice, hpure⟩ := of_bind_ok hrun
    cases hpure
    exact ⟨resolution, _, hchoice⟩
  · rintro ⟨resolution, s', hchoice⟩
    exact ⟨_, s', bind_ok hchoice, rfl⟩

theorem callRuns_iff (hask : an.ask (.synthesis cls) s = .ok ⟨⟩ s₁) (hfiled : s₁.table.Filed)
    (hcls : s₁.table.class? cls = some c) (hpolicy : s₁.options.ambiguity = .reject)
    (hty : ty.valueClass? = some cls) {ctor : Option ItemId} :
    CallRuns an frame ty scope position s ctor ↔ c.constructors = [] ∧ ctor = none ∨
      ∃ k, ctor = some k ∧ s₁.table.emptyConstructors c.constructors = [k] := by
  have hcandidates : constructorCandidates s₁.table cls = c.constructors.filterMap (Candidate.ofFunction? s₁.table) := by
    rw [constructorCandidates, hcls, Option.map_some, Option.getD_some]
  rw [callRuns_iff_chooseConstructor hty]
  cases hconstructors : c.constructors with
  | nil =>
    rw [hconstructors] at hcandidates
    rw [chooseConstructor_none hask hcandidates]
    constructor
    · rintro ⟨resolution, s', ⟨⟩⟩
      exact .inl ⟨rfl, rfl⟩
    · rintro (⟨-, rfl⟩ | ⟨k, -, hk⟩)
      · exact ⟨none, s₁, rfl⟩
      · cases hk
  | cons first rest =>
    -- constructors are functions, so they are candidates
    have hsome : constructorCandidates s₁.table cls ≠ [] := by
      have hfirst : first ∈ s₁.table.constructorsOf cls :=
        SymbolTable.mem_constructorsOf_iff.2 ⟨c, hcls, hconstructors ▸ List.mem_cons_self⟩
      obtain ⟨f, hf⟩ := hfiled.functions cls first hfirst
      have hcandidate : Candidate.ofFunction? s₁.table first = some ⟨some first, f.signature⟩ := by
        rw [Candidate.ofFunction?, hf, Option.map_some]
      rw [hcandidates, hconstructors, List.filterMap_cons_some hcandidate]
      exact List.cons_ne_nil _ _
    rw [chooseConstructor_some hask hsome, resolveCall_nil_iff hcls hpolicy, hconstructors]
    simp

/-- **Values without arguments.** In a state that is in order, as those of a session are
(`Session.Rests.grounded`), with ties rejected and the class given its members: a variable without an initializer
runs the first constructor without parameters, and there has to be one. An empty call runs the only constructor
without parameters, or the only one that packs what it gets if there is none without, or no constructor if the class
has none at all. So if both are accepted they run the same. They are accepted together exactly if the class has
constructors, at most one of them without parameters, and in the absence of such a one not just one that packs what
it gets. -/
theorem default_construction (han : an.Faithful) (hs : s.Grounded)
    (hask : an.ask (.synthesis cls) s = .ok ⟨⟩ s₁) (hcls : s₁.table.class? cls = some c)
    (hpolicy : s₁.options.ambiguity = .reject) (hty : ty.valueClass? = some cls) (decl : VariableDecl Expr)
    (frame : Frame) (scope : ScopeId) (position : Position) :
    (∀ ctor, VariableRuns an decl ty s ctor ↔
      ∃ k, ctor = some k ∧ (c.constructors.filter s₁.table.takesNothing).head? = some k) ∧
    (∀ ctor, CallRuns an frame ty scope position s ctor ↔ c.constructors = [] ∧ ctor = none ∨
      ∃ k, ctor = some k ∧ s₁.table.emptyConstructors c.constructors = [k]) ∧
    (∀ ctor ctor', VariableRuns an decl ty s ctor → CallRuns an frame ty scope position s ctor' → ctor = ctor') ∧
    (((∃ ctor, VariableRuns an decl ty s ctor) ↔ ∃ ctor, CallRuns an frame ty scope position s ctor) ↔
      c.constructors ≠ [] ∧ (c.constructors.filter s₁.table.takesNothing).length ≤ 1 ∧
        (c.constructors.filter s₁.table.takesNothing = [] →
          (c.constructors.filter s₁.table.takesSurplus).length ≠ 1)) := by
  have hfiled : s₁.table.Filed := (((han.ask _).honours_ok hs hask).grounded hs).filed
  have hvariable : ∀ ctor, VariableRuns an decl ty s ctor ↔
      ∃ k, ctor = some k ∧ (c.constructors.filter s₁.table.takesNothing).head? = some k :=
    fun _ => variableRuns_iff hask hfiled hcls hty
  have hcall : ∀ ctor, CallRuns an frame ty scope position s ctor ↔ c.constructors = [] ∧ ctor = none ∨
      ∃ k, ctor = some k ∧ s₁.table.emptyConstructors c.constructors = [k] :=
    fun _ => callRuns_iff hask hfiled hcls hpolicy hty
  refine ⟨hvariable, hcall, fun ctor ctor' hdeclared hcalled => ?_, ?_⟩
  · obtain ⟨k, rfl, hk⟩ := (hvariable _).1 hdeclared
    rcases (hcall _).1 hcalled with ⟨hnone, -⟩ | ⟨k', rfl, hk'⟩
    · rw [hnone] at hk
      cases hk
    · rw [SymbolTable.emptyConstructors, if_neg] at hk'
      · rw [hk'] at hk
        exact hk.symm
      · intro hempty
        rw [List.isEmpty_iff.1 hempty] at hk
        cases hk
  · have hdeclared : (∃ ctor, VariableRuns an decl ty s ctor) ↔
        c.constructors.filter s₁.table.takesNothing ≠ [] := by
      simp only [hvariable]
      cases c.constructors.filter s₁.table.takesNothing <;> simp
    have hcalled : (∃ ctor, CallRuns an frame ty scope position s ctor) ↔
        c.constructors = [] ∨ (s₁.table.emptyConstructors c.constructors).length = 1 := by
      simp only [hcall, List.length_eq_one_iff]
      constructor
      · rintro ⟨ctor, ⟨hnone, -⟩ | ⟨k, -, hk⟩⟩
        · exact .inl hnone
        · exact .inr ⟨k, hk⟩
      · rintro (hnone | ⟨k, hk⟩)
        · exact ⟨none, .inl ⟨hnone, rfl⟩⟩
        · exact ⟨some k, .inr ⟨k, rfl, hk⟩⟩
    rw [hdeclared, hcalled, SymbolTable.emptyConstructors]
    cases hplain : c.constructors.filter s₁.table.takesNothing with
    | nil =>
      rw [List.isEmpty_nil, if_pos rfl]
      simp only [List.length_nil]
      tauto
    | cons k rest =>
      have hsome : c.constructors ≠ [] := by
        rintro hnone
        rw [hnone] at hplain
        cases hplain
      rw [List.isEmpty_cons, if_neg Bool.false_ne_true, List.length_cons]
      simp [hsome]

end Analysis

/-- A module that is nothing but a class `C` with these constructors. -/
def constructedRequest (flags : ClassFlags) (constructors : List (List (Param Expr))) : Request :=
  .tree
    { statements := [.cls
      { node := ⟨.written 1, {}⟩, name := ⟨"C", {}⟩, flags
        members := constructors.zipIdx.map fun (params, index) => .function
          { node := ⟨.written (10 * (index + 1)), {}⟩, name := ⟨"", {}⟩, role := .construct, params
            body := some ⟨⟨.written (10 * (index + 1) + 1), {}⟩, []⟩ } }] }
    Session.rootName Session.rootPath ""

/-- `c: C`. -/
def variableOfClass : VariableDecl Expr := { node := ⟨.written 2, {}⟩, name := ⟨"c", {}⟩ }

/-- The request for two constructors, one without parameters and one that packs what it gets. -/
def plainRequest : Request :=
  constructedRequest {} [[],
    [{ node := ⟨.written 5, {}⟩, name := ⟨"xs", {}⟩, ty := { form := .native .int }, variadic := true }]]

/-- Both ways the constructor without parameters runs. -/
theorem default_construction_plain : ∃ k,
    Analysis.VariableRuns (analyst 2) variableOfClass (.cls ⟨0⟩) (plainRequest.next ({} : Session).start) (some k) ∧
      Analysis.CallRuns (analyst 2) bareFrame (.cls ⟨0⟩) ⟨0⟩ {} (plainRequest.next ({} : Session).start) (some k) := by
  have hs : (plainRequest.next ({} : Session).start).Grounded :=
    plainRequest.grounded_next (Session.grounded_start Session.honest_default)
  have hruns : Analysis.passes (fun _ s => s.options.ambiguity == .reject && (s.table.class? ⟨0⟩).any fun c =>
      (c.constructors.filter s.table.takesNothing).length == 1)
      ((analyst 2).ask (.synthesis ⟨0⟩) (plainRequest.next ({} : Session).start)) = true := by decide +kernel
  obtain ⟨_, s₁, hask, htest⟩ := Analysis.passes_iff.1 hruns
  simp only [Bool.and_eq_true, beq_iff_eq, Option.any_eq_true] at htest
  obtain ⟨hpolicy, c, hcls, hlength⟩ := htest
  obtain ⟨hvariable, hcall, -, -⟩ := Analysis.default_construction (analyst_faithful 2) hs hask hcls hpolicy
    (rfl : (Ty.cls ⟨0⟩).valueClass? = some ⟨0⟩) variableOfClass bareFrame ⟨0⟩ {}
  obtain ⟨k, hk⟩ := List.length_eq_one_iff.1 hlength
  refine ⟨k, (hvariable _).2 ⟨k, rfl, by rw [hk]; rfl⟩, (hcall _).2 (.inr ⟨k, rfl, ?_⟩)⟩
  rw [SymbolTable.emptyConstructors, hk]
  rfl

/-- An external class without constructors: the call is accepted, and the variable refused. -/
theorem external_class_differs :
    let s := (constructedRequest { external := true } []).next ({} : Session).start
    s.errors = [] ∧ Analysis.CallRuns (analyst 2) bareFrame (.cls ⟨0⟩) ⟨0⟩ {} s none ∧
      ∀ ctor, ¬ Analysis.VariableRuns (analyst 2) variableOfClass (.cls ⟨0⟩) s ctor := by
  intro s
  have hcall : Analysis.passes (fun d _ => d.callee.isNone)
      (Analysis.callType (analyst 2) bareFrame (.cls ⟨0⟩) [] [] ⟨0⟩ {} s) = true := by decide +kernel
  have hvariable : Analysis.passes (fun _ _ => true)
      (Analysis.uninitializedType (analyst 2) variableOfClass (some (.cls ⟨0⟩)) s) = false := by decide +kernel
  refine ⟨by decide +kernel, ?_, ?_⟩
  · obtain ⟨d, s', hrun, hcallee⟩ := Analysis.passes_iff.1 hcall
    exact ⟨d, s', hrun, Option.isNone_iff_eq_none.1 hcallee⟩
  · rintro ctor ⟨s', hrun⟩
    rw [hrun] at hvariable
    cases hvariable

end SemanticAnalysis
