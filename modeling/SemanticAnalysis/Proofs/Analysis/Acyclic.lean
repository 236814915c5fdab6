import SemanticAnalysis.Proofs.Analysis.Parents
import SemanticAnalysis.Session

/-!
# No class is reached from itself

Whatever is asked of an analysis, its hierarchy stays free of cycles, also while an answer is on its
way.

1. The parts of the analysis keep states sound if the analyst they ask does, so the analyst of every
   depth does (`answer_agrees`, `observedAnalyst_agrees`).
2. To speak of the states in the middle of a request, an observer looks at the state whenever a demand
   is made and whenever it has been met or has failed. An observer that waits for a state which is not
   sound waits in vain (`Request.Passes.sound`).

Lists of parents are stored in answers to demands only, and after each such list comes another demand
or the end of the answer before anything else can touch a hierarchy: an observer misses none.
-/

namespace SemanticAnalysis

/-! ## Answers -/

/-- **One answer.** It keeps its promise if the answers it asks for keep theirs. -/
theorem Analysis.answer_agrees {an an' : Analyst} (han : an.Agrees an') :
    Analyst.Agrees ⟨answer an⟩ ⟨answer an'⟩ := by
  intro α d s hs
  have unpromised {α : Type} [NamesClasses α] {x y : Analysis α} (h : Keeps 0 x y) :
      Runs (fun _ _ => True) s s x y := (h s hs (Nat.zero_le _)).imp fun _ _ _ => trivial
  cases d with
  | type frame t scope => exact resolveType_keeps han s hs (Nat.zero_le _)
  | expr frame e scope access => exact detailExpr_keeps han s hs (Nat.zero_le _)
  | stmt frame stmt scope => exact unpromised (detailStmt_keeps han)
  | signatures cls => exact classSignatures_runs han hs
  | synthesis cls => exact unpromised (synthesize_keeps han)
  | classBodies cls => exact unpromised (detailClassBodies_keeps han)
  | functionBody frame decl item => exact unpromised (detailFunctionBody_keeps han)
  | pass p frame statements scope => exact unpromised (runPass_keeps han)
  | module path request position => exact unpromised (loadModule_keeps han)
  | pending => exact unpromised (drainPending_keeps han)

/-! ## Observers -/

/-- The same analyst, with a reaction whenever a demand is made and whenever it is over. -/
def Analyst.observed (react : Analysis Unit) (an : Analyst) : Analyst :=
  ⟨fun d => do
    react
    Analysis.andFinally (an.ask d) react⟩

/-- The analyst that answers demands nested up to a depth, all of them observed. -/
def observedAnalyst (react : Analysis Unit) : (depth : Nat) → Analyst
  | 0 => (analyst 0).observed react
  | depth + 1 => Analyst.observed react ⟨Analysis.answer (observedAnalyst react depth)⟩

section Observed

variable {react : Analysis Unit} (hreact : ∀ s : State, s.Sound → react s = .ok () s)

include hreact

/-- An observer that lets sound states pass is not noticed. -/
theorem Analyst.Agrees.observed {an an' : Analyst} (han : an.Agrees an') :
    (an.observed react).Agrees an' := by
  intro α d s hs
  have hrun := han α d s hs
  have heq : (an.observed react).ask d s = an.ask d s := by
    show EStateM.bind react (fun _ => Analysis.andFinally (an.ask d) react) s = _
    unfold EStateM.bind
    rw [hreact s hs]
    show EStateM.bind (EStateM.tryCatch (an.ask d) fun e => EStateM.bind react fun _ => .throw e)
      (fun a => EStateM.bind react fun _ => .pure a) s = _
    have hend := hrun.2
    unfold EStateM.bind EStateM.tryCatch
    cases hask : an.ask d s with
    | ok a s' =>
      rw [hask] at hend
      simp only [hreact s' hend.1]
      rfl
    | error e s' =>
      rw [hask] at hend
      simp only [EStateM.Backtrackable.restore, EStateM.dummyRestore, hreact s' hend.1]
      rfl
  rw [Runs, heq]
  exact hrun

/-- **All answers.** -/
theorem observedAnalyst_agrees (depth : Nat) :
    (observedAnalyst react depth).Agrees (analyst depth) := by
  induction depth with
  | zero =>
    have hnone : (analyst 0).Agrees (analyst 0) := fun _ d s hs => ⟨rfl, hs, .refl s⟩
    exact hnone.observed hreact
  | succ depth ih => exact (Analysis.answer_agrees ih).observed hreact

end Observed

/-! ## Requests -/

/-- What can be asked of an analysis from outside. -/
inductive Request where
  | tree (root : Root) (name : String) (path : Path) (package : String)
  | body (root : Root) (module : ModuleId)
  | load (path : Path)
  | classInstance (template : ItemId) (arguments : List Ty) (position : Position)
  | functionInstance (template : ItemId) (arguments : List Ty) (position : Position)
  | errors

namespace Request

open Analysis

/-- Carry out a request. -/
def run : Request → Analysis Unit
  | .tree root name path package => discard <| analyseRoot root name path package
  | .body root module => discard <| analyseModule root module
  | .load path => discard <| analysePath path
  | .classInstance template arguments position =>
    discard <| analyseClassInstance template arguments position
  | .functionInstance template arguments position =>
    discard <| analyseFunctionInstance template arguments position
  | .errors => discard takeErrors

/-- The types in a request name classes that exist. -/
def Fits (s : State) : Request → Prop
  | .classInstance _ arguments _ | .functionInstance _ arguments _ => Known s.bound arguments
  | _ => True

/-- The state behind a request, whether or not it failed. -/
def next (r : Request) (s : State) : State :=
  match r.run s with
  | .ok _ s' => s'
  | .error _ s' => s'

/-- A request in the hands of an analyst. -/
def runWith (an : Analyst) : Request → Analysis Unit
  | .tree root name path package => discard <| detailRoot an root name path package
  | .body root module => discard <| detailModule an root module
  | .load path => discard <| loadModule an path path.spelling {}
  | .classInstance template arguments position =>
    discard <| instantiateClass an template arguments position
  | .functionInstance template arguments position =>
    discard <| instantiateFunction an template arguments position
  | .errors => discard takeErrors

/-- Carry out a request under observation. -/
def runObserved (react : Analysis Unit) (r : Request) : Analysis Unit := do
  r.runWith (observedAnalyst react (← get).options.nesting)

/-- In the middle of a request the analysis comes through a state: it matters what an observer does
there. -/
def Passes (r : Request) (s mid : State) : Prop :=
  ∃ react : Analysis Unit,
    (∀ other, other ≠ mid → react other = .ok () other) ∧ r.runObserved react s ≠ r.run s

theorem discard_withAnalyst {α : Type} (step : Analyst → Analysis α) (s : State) :
    discard (withAnalyst step) s = discard (step (analyst s.options.nesting)) s := by
  have hstep : withAnalyst step s = step (analyst s.options.nesting) s := rfl
  show EStateM.map _ (withAnalyst step) s = EStateM.map _ (step (analyst s.options.nesting)) s
  rw [EStateM.map, EStateM.map, hstep]

theorem run_eq (r : Request) (s : State) : r.run s = r.runWith (analyst s.options.nesting) s := by
  cases r with
  | errors => rfl
  | _ => exact discard_withAnalyst _ s

variable {r : Request} {s mid : State}

theorem runWith_keeps {an an' : Analyst} (han : an.Agrees an') (hfits : r.Fits s) :
    Keeps s.bound (r.runWith an) (r.runWith an') := by
  cases r with
  | tree root name path package => exact .discard (detailRoot_keeps han)
  | body root module => exact .discard (detailModule_keeps han)
  | load path => exact .discard (loadModule_keeps han)
  | classInstance template arguments position =>
    exact .discard (instantiateClass_makes han hfits).keeps
  | functionInstance template arguments position =>
    exact .discard (instantiateFunction_keeps han hfits)
  | errors =>
    have htake : Keeps s.bound takeErrors takeErrors :=
      Gives.grow (fun _ _ => .of_eq rfl) fun _ _ _ => known_of_namesNone _ _
    exact .discard htake

/-- Nobody can tell whether a request was observed, if sound states are let pass. -/
theorem runs_of_observer {react : Analysis Unit} (hreact : ∀ s : State, s.Sound → react s = .ok () s)
    (hs : s.Sound) (hfits : r.Fits s) :
    Runs (fun _ _ => True) s s (r.runObserved react) r.run := by
  have hkeeps := runWith_keeps (observedAnalyst_agrees hreact s.options.nesting) hfits
  have hrun := (hkeeps s hs (Nat.le_refl _)).imp fun _ _ _ => trivial
  rw [Runs, run_eq]
  exact hrun

theorem Passes.sound (h : r.Passes s mid) (hs : s.Sound) (hfits : r.Fits s) : mid.Sound := by
  obtain ⟨react, hreact, hdiffers⟩ := h
  by_contra hmid
  refine hdiffers (runs_of_observer (fun other hother => hreact other ?_) hs hfits).1
  rintro rfl
  exact hmid hother

theorem sound_next (hs : s.Sound) (hfits : r.Fits s) : (r.next s).Sound := by
  have hrun : Runs _ s s (r.runObserved (pure ())) r.run :=
    runs_of_observer (fun _ _ => rfl) hs hfits
  obtain ⟨heq, hend⟩ := hrun
  rw [heq] at hend
  unfold next
  cases hrun : r.run s with
  | ok a s' =>
    rw [hrun] at hend
    exact hend.1
  | error e s' =>
    rw [hrun] at hend
    exact hend.1

/-! ### Observers see something

The state in which the first pass over a tree is demanded is one that a request passes: an observer
that stops there stops the request. -/

/-- The step stops with this error. -/
def Fails {α : Type} (e : Diagnostic) (s : State) (x : Analysis α) : Prop :=
  ∃ s', x s = .error e s'

namespace Fails

variable {α β : Type} {e : Diagnostic} {s s' : State} {a : α} {x : Analysis α} {f : α → Analysis β}

theorem bind (h : Fails e s x) : Fails e s (x >>= f) := by
  obtain ⟨s', hx⟩ := h
  refine ⟨s', ?_⟩
  show EStateM.bind x f s = _
  rw [EStateM.bind, hx]

theorem after (hx : x s = .ok a s') (h : Fails e s' (f a)) : Fails e s (x >>= f) := by
  obtain ⟨s'', hf⟩ := h
  refine ⟨s'', ?_⟩
  show EStateM.bind x f s = _
  rw [EStateM.bind, hx]
  exact hf

theorem discard (h : Fails e s x) : Fails e s (discard x) := by
  obtain ⟨s', hx⟩ := h
  refine ⟨s', ?_⟩
  show EStateM.map _ x s = _
  rw [EStateM.map, hx]

theorem handled {h : Diagnostic → Analysis α} (hx : Fails e s x) (hh : ∀ s', Fails e s' (h e)) :
    Fails e s (tryCatch x h) := by
  obtain ⟨s', hx⟩ := hx
  obtain ⟨s'', hh⟩ := hh s'
  refine ⟨s'', ?_⟩
  show EStateM.tryCatch x h s = _
  rw [EStateM.tryCatch, hx]
  exact hh

end Fails

open Classical in
/-- An observer stops a request for a tree, with any error, before the first pass over it. -/
theorem exists_stops_tree {root : Root} {name package : String} {path : Path} {loads : LoadStates}
    (h : s.loads.begin path root.position = .ok (none, loads)) (e : Diagnostic) :
    ∃ (mid : State) (react : Analysis Unit), (∀ other, other ≠ mid → react other = .ok () other) ∧
      Fails e s ((Request.tree root name path package).runObserved react) := by
  let made := s.table.newModule name path.spelling package
  let mid : State :=
    { s with
      loads
      table := made.2
      nextFrame := s.nextFrame + 1
      moduleStack := made.1 :: s.moduleStack }
  let react : Analysis Unit := fun t => if t = mid then .error e t else .ok () t
  refine ⟨mid, react, fun t ht => if_neg ht, ?_⟩
  have hask {α : Type} (depth : Nat) (d : Demand α) :
      Fails e mid ((observedAnalyst react depth).ask d) := by
    cases depth <;> exact Fails.bind ⟨mid, if_pos rfl⟩
  have hbegin : beginLoad path root.position s = .ok none { s with loads } := by
    have hread (f : State → Analysis (Option ModuleId)) : (get >>= f) s = f s s := rfl
    rw [beginLoad, hread, h]
    rfl
  have hmodule : mid.table.module? made.1 = some _ := Array.getElem?_push_size
  have hdetail : Fails e { s with loads, table := made.2 }
      (detailModule (observedAnalyst react s.options.nesting) root made.1) := by
    refine .after rfl (.after rfl (.after rfl ?_))
    have hexpect : expect "module missing" (mid.table.module? made.1) mid = .ok _ mid :=
      congrArg (fun o => expect "module missing" o mid) hmodule
    refine .after hexpect ?_
    refine .bind (.bind (.handled (.bind ?_) fun _ => ⟨_, rfl⟩))
    exact .bind (hask _ _)
  refine Fails.after rfl (.discard (.after hbegin (.after rfl (.bind ?_))))
  exact .handled (.bind (.discard hdetail)) fun _ => ⟨_, rfl⟩

theorem exists_passes_tree {root : Root} {name package : String} {path : Path} {loads : LoadStates}
    (h : s.loads.begin path root.position = .ok (none, loads)) :
    ∃ mid, (Request.tree root name path package).Passes s mid := by
  -- some error is not the outcome of the request
  obtain ⟨e, he⟩ : ∃ e, ¬ Fails e s (Request.tree root name path package).run := by
    by_contra hall
    push Not at hall
    obtain ⟨s₁, h₁⟩ := hall ⟨.tooDeep, {}⟩
    obtain ⟨s₂, h₂⟩ := hall (.other {} "")
    rw [h₁] at h₂
    cases h₂
  have hobserved : ∃ (mid : State) (react : Analysis Unit),
      (∀ other, other ≠ mid → react other = .ok () other) ∧
        Fails e s ((Request.tree root name path package).runObserved react) := exists_stops_tree h e
  obtain ⟨mid, react, hreact, hfails⟩ := hobserved
  refine ⟨mid, react, hreact, fun heq => he ?_⟩
  rwa [Fails, ← heq]

end Request

/-! ## Reached states -/

/-- The states that a session can come to, in and between requests. The callbacks of its attributes
edit no parents. -/
inductive Reached : State → Prop where
  | start (session : Session) (htidy : session.attributes.Tidy) : Reached session.start
  | next {s : State} (r : Request) (hs : Reached s) (hfits : r.Fits s) : Reached (r.next s)
  | within {s mid : State} (r : Request) (hs : Reached s) (hfits : r.Fits s)
      (hpasses : r.Passes s mid) : Reached mid

theorem Session.sound_start (session : Session) (htidy : session.attributes.Tidy) :
    session.start.Sound where
  known := known_state.2 ⟨known_of_nil rfl, known_of_nil rfl, known_of_nil rfl, known_of_nil rfl⟩
  settled _ _ hp := by cases hp
  acyclic i hi := by
    obtain ⟨p, hp, -⟩ := Relation.TransGen.head'_iff.1 hi
    cases hp
  tidy := htidy

theorem Reached.sound {s : State} (h : Reached s) : s.Sound := by
  induction h with
  | start session htidy => exact session.sound_start htidy
  | next r _ hfits ih => exact Request.sound_next ih hfits
  | within r _ hfits hpasses ih => exact hpasses.sound ih hfits

/-- **No cycles.** In no state that a session comes to does a path of parents lead from a class
back to itself. -/
theorem hierarchy_isAcyclic {s : State} (h : Reached s) : s.table.IsAcyclic := h.sound.acyclic

/-- A session with an attribute that marks classes for cleanup. -/
def markingSession : Session where
  options := { collectErrors := true }
  attributes := AttributeTable.register {}
    { path := "mark"
      targets := [.cls]
      callback := fun i t =>
        (.ok (), t.modifyClass i.subject.item fun c => { c with needsCleanup := true }) }

/-- Two classes that want to inherit from each other, one of them marked. -/
def rivals : Request :=
  let rival (id : Nat) (name parent : String) : ClassDef :=
    { node := ⟨.written id, {}⟩
      name := ⟨name, {}⟩
      parents := [{ form := .named [⟨parent, {}⟩] [] }] }
  .tree
    { statements := [.cls { rival 1 "A" "B" with attributes := [{ path := [⟨"mark", {}⟩] }] },
        .cls (rival 2 "B" "A")] }
    Session.rootName Session.rootPath ""

/-- Behind the rivals, and in a state on the way, there is no cycle. -/
theorem hierarchy_isAcyclic_rivals :
    (rivals.next markingSession.start).table.IsAcyclic ∧
      ∃ mid, rivals.Passes markingSession.start mid ∧ mid.table.IsAcyclic := by
  have htidy : markingSession.attributes.Tidy := by
    intro r hr
    rw [List.mem_singleton.1 hr]
    exact fun _ _ _ => .modifyClass fun _ => rfl
  have hstart : Reached markingSession.start := .start markingSession htidy
  obtain ⟨mid, hmid⟩ : ∃ mid, rivals.Passes markingSession.start mid :=
    Request.exists_passes_tree rfl
  exact ⟨hierarchy_isAcyclic (.next rivals hstart trivial), mid, hmid,
    hierarchy_isAcyclic (.within rivals hstart trivial hmid)⟩

end SemanticAnalysis
