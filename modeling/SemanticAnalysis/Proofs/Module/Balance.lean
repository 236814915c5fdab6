import SemanticAnalysis.Proofs.Delegation.Statements

/-!
# Loading gives back what it took

A path is claimed before its module is analysed, and the module is entered. Whatever happens then, to the
module itself or to one that it imports, the claim ends and the module is left (`loadTree_settles`). In
between, all loading is done by the analyst, so the argument is an induction on how deep demands are
nested: an analyst that answers every demand in balance (`Analyst.Balanced`) makes one that does so one
level further up (`answer_balances`).
-/

namespace SemanticAnalysis

open Analysis (behind)
open LoadStates (SameEntry)

/-! ## Balance -/

/-- The same paths are being loaded, and the same modules are under analysis. -/
structure State.Balances (s s' : State) : Prop where
  loading : ∀ path, s'.loads.state? path = some .loading ↔ s.loads.state? path = some .loading
  stack : s'.moduleStack = s.moduleStack

namespace State.Balances

variable {s s' s'' : State}

theorem of_loading_eq (h : s'.loading = s.loading) : s.Balances s' := by
  obtain ⟨hloads, hstack⟩ : s'.loads = s.loads ∧ s'.moduleStack = s.moduleStack := Prod.mk.inj h
  exact ⟨fun path => by rw [hloads], hstack⟩

theorem refl (s : State) : s.Balances s := of_loading_eq rfl

theorem trans (h : s.Balances s') (h' : s'.Balances s'') : s.Balances s'' :=
  ⟨fun path => (h'.loading path).trans (h.loading path), h'.stack.trans h.stack⟩

/-- A path is claimed, and in the end its entry says something else. -/
theorem of_claimed {path : Path} {loads : LoadStates} {state : Option LoadState}
    (hnone : s.loads.state? path = none)
    (h : State.Balances { s with loads := s.loads.set path .loading } s')
    (hloads : ∀ p, loads.state? p = if SameEntry p path then state else s'.loads.state? p)
    (hended : state ≠ some .loading) : s.Balances { s' with loads } where
  loading p := by
    show loads.state? p = _ ↔ _
    rw [hloads]
    by_cases hp : SameEntry p path
    · rw [if_pos hp, LoadStates.state?_congr hp, hnone]
      exact iff_of_false hended (by simp)
    · rw [if_neg hp, h.loading, LoadStates.state?_set_eq, if_neg hp]
  stack := h.stack

end State.Balances

/-- Whatever the analyst is asked, it leaves the same loads under way. -/
def Analyst.Balanced (an : Analyst) : Prop :=
  ∀ {α : Type} (d : Demand α) (s : State), s.Balances (behind (an.ask d) s)

theorem Delegates.balances {α : Type} {an : Analyst} {x y : Analysis α} (hx : Delegates an an x y)
    (han : an.Balanced) (s : State) : s.Balances (behind x s) :=
  hx.relates (fun _ _ => .of_loading_eq) (fun _ _ _ => .trans) han s

namespace Analysis

variable {an an' : Analyst} {s : State} {path : Path} {position : Position}

/-! ## Loading -/

theorem runPasses_delegates {frame : Frame} {statements : List Stmt} {scope : ScopeId} :
    Delegates an an' (runPasses an frame statements scope) (runPasses an' frame statements scope) :=
  .bind (.forM fun _ => .ask _) fun _ => .ask _

/-- A module that is entered is left. -/
theorem detailModule_balances (han : an.Balanced) {m : ModuleId} {md : Module}
    (hm : s.table.module? m = some md) (root : Root) :
    s.Balances (behind (detailModule an root m) s) := by
  let frame : Frame := ⟨⟨s.nextFrame⟩, m⟩
  have hpasses : (s.within m).Balances (behind (runPasses an frame root.statements md.scope) _) :=
    runPasses_delegates.balances han (s.within m)
  have hleft : ∀ s', (s.within m).Balances s' → s.Balances s'.left := fun s' h =>
    ⟨h.loading, congrArg (List.drop 1) h.stack⟩
  rw [behind] at hpasses
  rw [behind, detailModule_run hm]
  cases hends : runPasses an frame root.statements md.scope (s.within m) with
  | ok a s' =>
    rw [hends] at hpasses
    exact (hleft s' hpasses).trans (.of_loading_eq rfl)
  | error e s' =>
    rw [hends] at hpasses
    exact hleft s' hpasses

/-- How the loading of a path ends that was claimed in `s`: what was under way then is under way, but the
claim ends. -/
inductive Settles (path : Path) (s : State) : EStateM.Result Diagnostic State ModuleId → Prop
  | finished {m : ModuleId} {s' : State} (h : s.Balances s') :
      Settles path s (.ok m { s' with loads := s'.loads.finish path m })
  | abandoned {e : Diagnostic} {s' : State} (h : s.Balances s') :
      Settles path s (.error e { s' with loads := s'.loads.abandon path })

theorem loadTree_settles (han : an.Balanced) (root : Root) (name : String) (path : Path)
    (package : String) (s : State) : Settles path s (loadTree an root name path package s) := by
  obtain ⟨md, hmd⟩ := module?_made s name path.spelling package
  have hmade : s.Balances (s.made name path.spelling package) := .of_loading_eq rfl
  have hdetail := hmade.trans (detailModule_balances han hmd root)
  rw [behind] at hdetail
  rw [loadTree_eq]
  cases hends : detailModule an root s.nextModule (s.made name path.spelling package) with
  | ok frame s' =>
    rw [hends] at hdetail
    exact .finished hdetail
  | error e s' =>
    rw [hends] at hdetail
    exact .abandoned hdetail

/-- Beginning to load the path is refused as a circular import. -/
def Circular (s : State) (path : Path) : Prop :=
  ∀ position, beginLoad path position s = .error ⟨.circularImport path.spelling, position⟩ s

theorem circular_iff : Circular s path ↔ s.loads.state? path = some .loading := by
  constructor
  · intro h
    have hrun := (beginLoad_run path {} s).symm.trans (h {})
    cases hstate : s.loads.state? path with
    | none =>
      rw [hstate] at hrun
      cases hrun
    | some state =>
      rw [hstate] at hrun
      cases state with
      | loading => rfl
      | done m => cases hrun
  · intro h position
    rw [beginLoad_run, h]

/-- What loading a path comes to: what was under way is under way, the path is done if loading succeeds,
and if it fails, the path is where it was. So loading makes no other import circular, and what failed can be
tried again. -/
structure GivesBack (path : Path) (load : Analysis ModuleId) (s : State) : Prop where
  balances : s.Balances (behind load s)
  done : ∀ m s', load s = .ok m s' → s'.loads.state? path = some (.done m)
  failed : ∀ e s', load s = .error e s' → s'.loads.state? path = s.loads.state? path
  circular : ∀ p, Circular (behind load s) p ↔ Circular s p
  retry : ∀ e s', load s = .error e s' → ¬ Circular s path →
    ∀ position, ∃ s'', beginLoad path position s' = .ok none s''

namespace GivesBack

variable {load load' : Analysis ModuleId}

theorem congr (h : GivesBack path load s) (hrun : load' s = load s) : GivesBack path load' s := by
  have hbehind : behind load' s = behind load s := by rw [behind, behind, hrun]
  constructor
  · rw [hbehind]
    exact h.balances
  · rw [hrun]
    exact h.done
  · rw [hrun]
    exact h.failed
  · rw [hbehind]
    exact h.circular
  · rw [hrun]
    exact h.retry

/-- A path that fails was not done before. -/
theorem of_states (hbalances : s.Balances (behind load s))
    (hdone : ∀ m s', load s = .ok m s' → s'.loads.state? path = some (.done m))
    (hfailed : ∀ e s', load s = .error e s' →
      s'.loads.state? path = s.loads.state? path ∧ ∀ m, s.loads.state? path ≠ some (.done m)) :
    GivesBack path load s where
  balances := hbalances
  done := hdone
  failed e s' h := (hfailed e s' h).1
  circular p := by rw [circular_iff, circular_iff, hbalances.loading]
  retry e s' h hfree position := by
    obtain ⟨hsame, hnew⟩ := hfailed e s' h
    rw [circular_iff] at hfree
    rw [beginLoad_run, hsame]
    cases hstate : s.loads.state? path with
    | none => exact ⟨_, rfl⟩
    | some state =>
      cases state with
      | loading => exact absurd hstate hfree
      | done m => exact absurd hstate (hnew m)

/-- A path that is claimed and then settled. -/
theorem of_settles (hnone : s.loads.state? path = none)
    (h : Settles path { s with loads := s.loads.set path .loading } (load s)) :
    GivesBack path load s := by
  generalize hload : load s = r at h
  cases h with
  | @finished m s' hb =>
    have hstate : ∀ p, (s'.loads.finish path m).state? p =
        if SameEntry p path then some (.done m) else s'.loads.state? p := fun p =>
      LoadStates.state?_set_eq
    refine of_states ?_ (fun m' s'' hrun => ?_) fun e s'' hrun => ?_
    · rw [behind, hload]
      exact .of_claimed hnone hb hstate (by simp)
    · cases hload.symm.trans hrun
      exact (hstate path).trans (if_pos (.refl path))
    · cases hload.symm.trans hrun
  | @abandoned e s' hb =>
    have hstate : ∀ p, (s'.loads.abandon path).state? p =
        if SameEntry p path then none else s'.loads.state? p := fun p =>
      LoadStates.state?_abandon_eq
    refine of_states ?_ (fun m s'' hrun => ?_) fun e' s'' hrun => ?_
    · rw [behind, hload]
      exact .of_claimed hnone hb hstate (by simp)
    · cases hload.symm.trans hrun
    · cases hload.symm.trans hrun
      refine ⟨?_, fun m hm => by cases hnone.symm.trans hm⟩
      exact (hstate path).trans ((if_pos (.refl path)).trans hnone.symm)

/-- First begin to load, then settle the claim if the path is not done. -/
theorem of_begin {f : Option ModuleId → Analysis ModuleId} (hknown : ∀ m, f (some m) = pure m)
    (hload : ∀ s, Settles path s (f none s)) (s : State) :
    GivesBack path (beginLoad path position >>= f) s := by
  have hbegin := beginLoad_run path position s
  cases hstate : s.loads.state? path with
  | none =>
    rw [hstate] at hbegin
    exact of_settles hstate ((bind_ok hbegin).symm ▸ hload _)
  | some state =>
    rw [hstate] at hbegin
    cases state with
    | loading =>
      have hrun : (beginLoad path position >>= f) s = .error _ s := bind_error hbegin
      refine of_states ?_ (fun m s' h => ?_) fun e s' h => ?_
      · rw [behind, hrun]
        exact .refl s
      · cases hrun.symm.trans h
      · cases hrun.symm.trans h
        exact ⟨rfl, fun m hm => by cases hstate.symm.trans hm⟩
    | done m =>
      have hrun : (beginLoad path position >>= f) s = .ok m s := by
        rw [bind_ok hbegin, hknown]
        rfl
      refine of_states ?_ (fun m' s' h => ?_) fun e s' h => ?_
      · rw [behind, hrun]
        exact .refl s
      · cases hrun.symm.trans h
        exact hstate
      · cases hrun.symm.trans h

end GivesBack

theorem detailRoot_givesBack (han : an.Balanced) (root : Root) (name : String) (path : Path)
    (package : String) (s : State) : GivesBack path (detailRoot an root name path package) s :=
  .of_begin (fun _ => rfl) (loadTree_settles han root name path package) s

theorem loadModule_givesBack (han : an.Balanced) (path : Path) (request : String)
    (position : Position) (s : State) : GivesBack path (loadModule an path request position) s := by
  unfold loadModule
  refine .of_begin (fun _ => rfl) (fun s => ?_) s
  have hread (f : State → Analysis ModuleId) : (MonadState.get >>= f) s = f s s := rfl
  dsimp only
  rw [hread]
  cases s.library with
  | none => exact .abandoned (.refl s)
  | some library =>
    dsimp only
    cases library.parse path with
    | error fault => exact .abandoned (.refl s)
    | ok m => exact loadTree_settles han m.root m.name path m.package s

/-! ## Demands -/

theorem answer_balances (han : an.Balanced) {α : Type} (d : Demand α) (s : State) :
    s.Balances (behind (answer an d) s) := by
  cases d with
  | type frame t scope => exact resolveType_delegates.balances han s
  | expr frame e scope access => exact detailExpr_delegates.balances han s
  | stmt frame stmt scope => exact detailStmt_delegates.balances han s
  | signatures cls => exact classSignatures_delegates.balances han s
  | synthesis cls => exact synthesize_delegates.balances han s
  | classBodies cls => exact detailClassBodies_delegates.balances han s
  | functionBody frame decl item => exact detailFunctionBody_delegates.balances han s
  | pass p frame statements scope => exact runPass_delegates.balances han s
  | module path request position => exact (loadModule_givesBack han path request position s).balances
  | pending => exact drainPending_delegates.balances han s

end Analysis

/-- However deep demands may be nested, the analyst answers in balance. -/
theorem analyst_balanced (depth : Nat) : (analyst depth).Balanced := by
  induction depth with
  | zero => exact fun d s => .refl s
  | succ depth ih => exact fun d s => Analysis.answer_balances ih d s

namespace Analysis

/-- **Loading gives back what it took.** Whether a tree is given for a path, the path is asked for, or code
imports it, however deep in other modules: the same paths are being loaded and the same modules are under
analysis afterwards as before, the path is done if loading succeeds and as before if it fails, and no import
is refused that would not have been refused before. -/
theorem loading_givesBack (path : Path) (s : State) :
    (∀ root name package, GivesBack path (analyseRoot root name path package) s) ∧
      GivesBack path (analysePath path) s ∧
      ∀ depth request position, GivesBack path (loadModule (analyst depth) path request position) s := by
  have hnesting : (analyst s.options.nesting).Balanced := analyst_balanced _
  refine ⟨fun root name package => ?_, ?_, fun depth request position => ?_⟩
  · exact (detailRoot_givesBack hnesting root name path package s).congr (withAnalyst_run _ s)
  · exact (loadModule_givesBack hnesting path path.spelling {} s).congr (withAnalyst_run _ s)
  · exact loadModule_givesBack (analyst_balanced depth) path request position s

end Analysis

end SemanticAnalysis
