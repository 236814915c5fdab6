import SemanticAnalysis.Proofs.Permit.Programs
import SemanticAnalysis.Proofs.Safety.Programs

/-!
# No internal errors

Whatever a session is asked, no analysis contradicts itself (`no_internal_error`): the items, classes,
functions and modules that it refers to are there and of the right kind, in every state that it comes through
(`State.InOrder`). An analysis is observed where it makes demands (`Analyst.observed`). An observer that finds
no fault with states in order does not make the analyst unreliable, so one that raises an internal error in
any other state is never heard (`Request.Meets`).
-/

namespace SemanticAnalysis

/-! ## States in order -/

/-- What the state refers to is there and of the right kind, and whatever a lookup finds is an item and no
alias. -/
structure State.InOrder (s : State) : Prop where
  classes : ∀ e ∈ s.classes, ∃ c, s.table.class? e.1 = some c
  pending : ∀ f ∈ s.pendingFunctions, ∃ function, s.table.function? f.item = some function
  templates : ∀ e ∈ s.templates, ∃ module, s.table.module? e.2.module = some module
  loaded : ∀ path m, s.loads.state? path = some (.done m) → ∃ module, s.table.module? m = some module
  /-- What is filed under the node of a function declaration is a function. -/
  declared : ∀ r ∈ s.roots, ∀ d ∈ r.root.decls, d.isFunction = true →
    ∀ i, s.declared.lookup ⟨r.frame, d.node⟩ = some i → ∃ function, s.table.function? i = some function
  functionOwner : ∀ scope i, s.table.functionOwner? scope = some i →
    ∃ function, s.table.function? i = some function
  classOwner : ∀ scope i, s.table.classOwner? scope = some i → ∃ c, s.table.class? i = some c
  found : ∀ name scope exclude origin, ∀ i ∈ s.table.findAll name scope exclude origin, s.table.IsProper i
  foundLocally : ∀ name scope exclude origin, ∀ i ∈ s.table.findLocal name scope exclude origin,
    s.table.IsProper i
  foundInClass : ∀ cls name exclude origin, ∀ i ∈ s.table.findInClass cls name exclude origin,
    s.table.IsProper i

namespace World

variable {w : World}

theorem HasModule.exists_module? {m : ModuleId} (h : w.HasModule m) :
    ∃ module, w.table.module? m = some module := ⟨_, Array.getElem?_eq_getElem h⟩

theorem Sound.inOrder (hw : w.Sound) : w.state.InOrder where
  classes e he := SymbolTable.exists_class?_of_kind? (hw.classes e he).isClass
  pending f hf := SymbolTable.exists_function?_of_kind? (hw.pending f hf).isFunction
  templates e he := (hw.templates e he).module.exists_module?
  loaded path m hm := HasModule.exists_module? (hw.loaded path m hm)
  declared r hr d hd hfunction _ hi :=
    have hrole := ((hw.roots r hr).agrees d hd).trans hfunction
    SymbolTable.exists_function?_of_kind? ((hw.declared _ (mem_of_lookup hi)).isFunction hrole)
  functionOwner _ _ hi := SymbolTable.exists_function?_of_kind? (hw.coherent.functionOwner hi)
  classOwner _ _ hi := SymbolTable.exists_class?_of_kind? (hw.coherent.classOwner hi)
  found _ _ _ _ _ hi := hw.coherent.isProper_of_findAll hi
  foundLocally _ _ _ _ _ hi := hw.coherent.isProper_of_findLocal hi
  foundInClass _ _ _ _ _ hi := hw.coherent.isProper_of_findInClass hi

end World

/-! ## Observed analysts -/

section Lasting

variable {α : Type} {w w' : World} {d : Demand α}

theorem World.Leads.suits (h : w.Leads w') (hd : d.Suits w) : d.Suits w' := by
  cases d with
  | expr frame e scope access => exact h.hosts hd
  | stmt frame stmt scope => exact h.hosts hd
  | functionBody frame decl item => exact h.awaits hd
  | pass p frame row scope => exact h.hosts hd
  | _ => trivial

theorem World.Leads.yields {a : α} (h : w.Leads w') (ha : d.Yields w a) : d.Yields w' a := by
  cases d with
  | module path request position => exact h.hasModule ha
  | _ => trivial

end Lasting

section Observed

variable {react : Analysis Unit} (hreact : ∀ s : State, s.InOrder → react s = .ok () s)

include hreact

theorem react_safe {w₀ : World} : Safe w₀ react := by
  intro w _ hw
  rw [hreact w.state hw.inOrder]
  exact ⟨w, rfl, .refl w, hw, trivial⟩

/-- An observer that finds no fault with states in order keeps an analyst reliable. -/
theorem Analyst.Reliable.observed {an : Analyst} (han : an.Reliable) : (an.observed react).Reliable := by
  intro α d w₀ hd
  have hlast : ∀ (w : World) (a : α), d.Yields w a → Assures w (do react; return a) fun w a => d.Yields w a :=
    fun w a ha => .after (react_safe hreact) fun _ => .pure fun _ h₁ _ => h₁.yields ha
  refine .bind (react_safe hreact) fun w _ h₀ _ => ?_
  refine .bind (.tryCatch (han d w (h₀.suits hd)) fun e he => ?_) fun w' a _ ha => hlast w' a ha
  exact .after (react_safe hreact) fun _ => .throw he

theorem observedAnalyst_reliable (depth : Nat) : (observedAnalyst react depth).Reliable := by
  induction depth with
  | zero => exact fun d w₀ hd => Analyst.Reliable.observed hreact (analyst_reliable 0) d w₀ hd
  | succ depth ih =>
    have hanswer : Analyst.Reliable ⟨Analysis.answer (observedAnalyst react depth)⟩ := fun d _ hd =>
      Analysis.answer_assures ih d hd
    intro α d w₀ hd
    exact Analyst.Reliable.observed hreact hanswer d w₀ hd

end Observed

/-! ## Requests -/

/-- The step reports an internal error: it stops with one, or there is one among those that it collects or
gives up. -/
def Analysis.Blames {α : Type} (x : Analysis α) (s : State) : Prop :=
  match x s with
  | .ok _ s' => ∃ e ∈ s'.errors ++ s'.dropped, e.cause.isInternal = true
  | .error e s' =>
    e.cause.isInternal = true ∨ ∃ e' ∈ s'.errors ++ s'.dropped, e'.cause.isInternal = true

namespace Request

open Analysis

/-- A tree that is given as the body of a module is that of one that is there. -/
def Placed (s : State) : Request → Prop
  | .body _ module => module.index < s.table.modules.size
  | _ => True

/-- In the middle of a request the analysis comes through a state: an observer that finds fault with this
state alone is heard. -/
def Meets (r : Request) (s mid : State) : Prop :=
  ∃ react : Analysis Unit,
    (∀ other, other ≠ mid → react other = .ok () other) ∧ (r.runObserved react).Blames s

variable {r : Request} {w : World}

theorem runWith_safe {an : Analyst} (han : an.Reliable) (hr : r.Distinct) (hplaced : r.Placed w.state) :
    Safe w (r.runWith an) := by
  cases r with
  | tree root name path package => exact .discard (detailRoot_assures han hr).safe
  | body root module => exact .discard (detailModule_safe han hr hplaced)
  | load path => exact .discard (loadModule_assures han).safe
  | classInstance template arguments position => exact .discard (instantiateClass_safe han)
  | functionInstance template arguments position => exact .discard (instantiateFunction_safe han)
  | errors =>
    have htake : Safe w takeErrors :=
      Assures.modifyGet fun w' _ _ =>
        ⟨w'.on { w'.state with errors := [] }, rfl,
          { World.Change.refl w' with errors := fun _ he => nomatch he }, trivial⟩
    exact .discard htake

theorem run_ends (hw : w.Sound) (hr : r.Distinct) (hplaced : r.Placed w.state) :
    w.Ends (fun _ _ => True) (r.run w.state) := by
  rw [run_eq]
  exact runWith_safe (analyst_reliable _) hr hplaced w (.refl w) hw

theorem exists_sound_next (hw : w.Sound) (hr : r.Distinct) (hplaced : r.Placed w.state) :
    ∃ w' : World, w'.state = r.next w.state ∧ w'.Sound := by
  have hends := run_ends hw hr hplaced
  unfold next
  cases hrun : r.run w.state with
  | ok a s =>
    rw [hrun] at hends
    obtain ⟨w', hstate, -, hsound, -⟩ := hends
    exact ⟨w', hstate, hsound⟩
  | error e s =>
    rw [hrun] at hends
    obtain ⟨⟨w', hstate, -, hsound⟩, -⟩ := hends
    exact ⟨w', hstate, hsound⟩


/-- Nothing that an observer says of states that are not in order is heard. -/
theorem not_blames_runObserved {react : Analysis Unit} (hreact : ∀ s : State, s.InOrder → react s = .ok () s)
    (hw : w.Sound) (hr : r.Distinct) (hplaced : r.Placed w.state) :
    ¬ (r.runObserved react).Blames w.state := by
  have hclean : ∀ w' : World, w'.Sound → ∀ e ∈ w'.state.errors ++ w'.state.dropped,
      e.cause.isInternal = false := fun w' hsound e he =>
    (List.mem_append.1 he).elim (hsound.errors e) (hsound.dropped e)
  have hends : w.Ends (fun _ _ => True) (r.runObserved react w.state) :=
    runWith_safe (observedAnalyst_reliable hreact _) hr hplaced w (.refl w) hw
  intro hblames
  unfold Blames at hblames
  cases hrun : r.runObserved react w.state with
  | ok a s =>
    rw [hrun] at hends hblames
    obtain ⟨w', rfl, -, hsound, -⟩ := hends
    obtain ⟨e, he, hcause⟩ := hblames
    exact Bool.false_ne_true ((hclean w' hsound e he).symm.trans hcause)
  | error e s =>
    rw [hrun] at hends hblames
    obtain ⟨⟨w', rfl, -, hsound⟩, hfirst⟩ := hends
    rcases hblames with hcause | ⟨e', he', hcause⟩
    · exact Bool.false_ne_true (hfirst.symm.trans hcause)
    · exact Bool.false_ne_true ((hclean w' hsound e' he').symm.trans hcause)

theorem Meets.inOrder {mid : State} (h : r.Meets w.state mid) (hw : w.Sound) (hr : r.Distinct)
    (hplaced : r.Placed w.state) : mid.InOrder := by
  obtain ⟨react, hreact, hblames⟩ := h
  by_contra hmid
  refine not_blames_runObserved (fun other hother => hreact other ?_) hw hr hplaced hblames
  rintro rfl
  exact hmid hother

end Request

/-! ## Sessions -/

namespace Session

/-- The states in which a session waits for a request, after any requests for trees as a reader makes them.
-/
inductive Rests (session : Session) : State → Prop where
  | start : session.Rests session.start
  | next {s : State} (r : Request) (hs : session.Rests s) (hr : r.Distinct) (hplaced : r.Placed s) :
      session.Rests (r.next s)

variable {session : Session} {s : State}

theorem exists_sound_start (hattributes : session.attributes.KeepsKinds)
    (hresolver : ∀ r, session.library = some r → r.Distinct) :
    ∃ w : World, w.state = session.start ∧ w.Sound :=
  ⟨⟨session.start, fun _ _ => false, fun _ => false⟩, rfl,
    { coherent := .empty
      declared := fun _ he => nomatch he
      classes := fun _ he => nomatch he
      templates := fun _ he => nomatch he
      pending := fun _ hf => nomatch hf
      synthesized := fun _ he => nomatch he
      loaded := fun _ _ hm => nomatch hm
      roots := fun _ hr => nomatch hr
      attributes := hattributes
      library := hresolver
      errors := fun _ he => nomatch he
      dropped := fun _ he => nomatch he }⟩

theorem Rests.exists_sound (hattributes : session.attributes.KeepsKinds)
    (hresolver : ∀ r, session.library = some r → r.Distinct) (hs : session.Rests s) :
    ∃ w : World, w.state = s ∧ w.Sound := by
  induction hs with
  | start => exact exists_sound_start hattributes hresolver
  | next r _ hr hplaced ih =>
    obtain ⟨w, rfl, hw⟩ := ih
    exact Request.exists_sound_next hw hr hplaced

end Session

theorem Cause.ne_internal {c : Cause} (h : c.isInternal = false) (what : String) : c ≠ .internal what := by
  rintro rfl
  cases h

/-- **No internal errors.** The trees that a session is given, and those that its resolver finds, have distinct
nodes, and a tree that is given as a body is that of a module that is there. Then, with whatever options, no
error that the session collects, gives up or stops with is an internal one, and all states that it comes
through, in and between requests, are in order. Callbacks must leave items of the kinds that they are of, as
those do that leave the table alone (`AttributeTable.keepsKinds_of_idle`). -/
theorem no_internal_error {session : Session} (hattributes : session.attributes.KeepsKinds)
    (hresolver : ∀ r, session.library = some r → r.Distinct) {s : State} (hs : session.Rests s) :
    s.InOrder ∧ (∀ e ∈ s.errors ++ s.dropped, ∀ what, e.cause ≠ .internal what) ∧
      ∀ r : Request, r.Distinct → r.Placed s →
        (∀ e s', r.run s = .error e s' → ∀ what, e.cause ≠ .internal what) ∧
          ∀ mid, r.Meets s mid → mid.InOrder := by
  obtain ⟨w, rfl, hw⟩ := hs.exists_sound hattributes hresolver
  refine ⟨hw.inOrder, fun e he => ?_, fun r hr hplaced => ⟨fun e s' hrun => ?_, fun mid hmid => ?_⟩⟩
  · exact Cause.ne_internal ((List.mem_append.1 he).elim (hw.errors e) (hw.dropped e))
  · have hends := Request.run_ends hw hr hplaced
    rw [hrun] at hends
    exact Cause.ne_internal hends.2
  · exact hmid.inOrder hw hr hplaced

/-- An alias of nothing, a namespace with a function, a generic class with an instance, and a class with an
attribute. -/
def wornRequest : Request :=
  .tree
    { statements :=
        [.aliasing ⟨.written 1, {}⟩ { path := [⟨"Nothing", {}⟩] },
         .space ⟨.written 2, {}⟩ ⟨"inner", {}⟩ .everyone
          [.function
            { node := ⟨.written 3, {}⟩, name := ⟨"f", {}⟩
              body := some ⟨⟨.written 4, {}⟩, [.ret ⟨.written 5, {}⟩ none]⟩ }],
         .cls { node := ⟨.written 6, {}⟩, name := ⟨"Box", {}⟩, generics := [⟨"T", {}⟩] },
         .declare
          { node := ⟨.written 7, {}⟩, name := ⟨"box", {}⟩
            ty := some { form := .named [⟨"Box", {}⟩] [{ form := .native .int }] } },
         .cls
          { node := ⟨.written 8, {}⟩, name := ⟨"Worn", {}⟩
            attributes := [{ path := [⟨"mark", {}⟩] }] }] }
    Session.rootName Session.rootPath ""

/-- A session that collects errors, with an attribute that complains and a module under every path. -/
def complainingSession : Session where
  options := { collectErrors := true }
  attributes := AttributeTable.register {}
    { path := "mark", targets := [.cls], callback := fun _ t => (.error "worn", t) }
  library := some ⟨fun request _ => .ok ⟨request⟩, fun _ => .ok pointModule⟩

/-- The alias and the attribute are reported, and the first attempt at the alias is given up. -/
theorem no_internal_error_worn :
    let s := wornRequest.next complainingSession.start
    (s.errors.length = 2 ∧ s.dropped.length = 1) ∧
      (s.InOrder ∧ (∀ e ∈ s.errors ++ s.dropped, ∀ what, e.cause ≠ .internal what) ∧
        ∀ r : Request, r.Distinct → r.Placed s →
          (∀ e s', r.run s = .error e s' → ∀ what, e.cause ≠ .internal what) ∧
            ∀ mid, r.Meets s mid → mid.InOrder) ∧
      ∃ mid, wornRequest.Meets complainingSession.start mid ∧ mid.InOrder := by
  have hattributes : complainingSession.attributes.KeepsKinds := by
    refine AttributeTable.keepsKinds_of_idle fun r hr i u => ?_
    rw [List.mem_singleton.1 hr]
  have hresolver : ∀ r, complainingSession.library = some r → r.Distinct := by
    rintro r hr path m hm
    cases hr
    cases hm
    show pointModule.root.Distinct
    decide
  have hdistinct : wornRequest.Distinct := by
    show Root.Distinct _
    decide
  have hstart : complainingSession.Rests complainingSession.start := .start
  have hbehind := no_internal_error hattributes hresolver (.next wornRequest hstart hdistinct trivial)
  have hbefore := no_internal_error hattributes hresolver hstart
  have hobserved : ∃ (mid : State) (react : Analysis Unit),
      (∀ other, other ≠ mid → react other = .ok () other) ∧
        Request.Fails (.internal "") complainingSession.start (wornRequest.runObserved react) :=
    Request.exists_stops_tree rfl _
  obtain ⟨mid, react, hreact, s', hstops⟩ := hobserved
  have hmeets : wornRequest.Meets complainingSession.start mid := by
    refine ⟨react, hreact, ?_⟩
    unfold Analysis.Blames
    rw [hstops]
    exact .inl rfl
  refine ⟨⟨?_, ?_⟩, hbehind, mid, hmeets, (hbefore.2.2 wornRequest hdistinct trivial).2 mid hmeets⟩
  · decide +kernel
  · decide +kernel

end SemanticAnalysis
