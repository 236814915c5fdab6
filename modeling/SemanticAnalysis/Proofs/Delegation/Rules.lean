import SemanticAnalysis.Proofs.Course.Programs

/-!
# Steps that load nothing themselves

Which paths are being loaded and which modules are under analysis changes in one place only, where a module
is loaded. Everything else leaves that to the analyst: it is put together from impartial steps that do not touch
it, from demands, and from attempts whose errors are noted, given up or reported again. Two steps are put together
alike if they differ in the analyst only whom they ask (`Delegates`).

Impartial steps (`Impartial`) neither note an error nor give one up, and see neither whether errors are collected
nor how deep demands may be nested: they do the same in a state that has other options for these
(`State.adjusted`), as that of an analysis that stops at its first error (`State.strict`) or one that may go deeper
(`State.nested`).
-/

namespace SemanticAnalysis

open Analysis (behind)

/-- What is being loaded and analysed. -/
@[grind =] def State.loading (s : State) : LoadStates × List ModuleId := (s.loads, s.moduleStack)

/-- The options, the errors noted and the errors given up. -/
@[grind =] def State.ledger (s : State) : Options × List Diagnostic × List Diagnostic :=
  (s.options, s.errors, s.dropped)

/-- The state of an analysis that stops at its first error. -/
@[grind =] def State.strict (s : State) : State := { s with options.collectErrors := false }

/-- The state of an analysis in which demands may be nested so deep. -/
def State.nested (s : State) (nesting : Nat) : State := { s with options.nesting := nesting }

/-- The state of an analysis that may collect errors, and in which demands may be nested so deep. -/
@[grind =] def State.adjusted (s : State) (collect : Bool) (nesting : Nat) : State :=
  { s with options.collectErrors := collect, options.nesting := nesting }

/-! ## Impartial steps -/

namespace Analysis

variable {α : Type}

/-- The state in which a step ended. -/
def stateAt : EStateM.Result Diagnostic State α → State
  | .ok _ s => s
  | .error _ s => s

theorem behind_eq (x : Analysis α) (s : State) : behind x s = stateAt (x s) := rfl

/-- The same end in an analysis that stops at its first error. -/
def strictly : EStateM.Result Diagnostic State α → EStateM.Result Diagnostic State α
  | .ok a s => .ok a s.strict
  | .error e s => .error e s.strict

/-- The same end in another state. -/
def inState (f : State → State) :
    EStateM.Result Diagnostic State α → EStateM.Result Diagnostic State α
  | .ok a s => .ok a (f s)
  | .error e s => .error e (f s)

theorem inState_congr {f g : State → State} {r : EStateM.Result Diagnostic State α}
    (h : f (stateAt r) = g (stateAt r)) : inState f r = inState g r := by
  cases r with
  | ok a s => exact congrArg (EStateM.Result.ok a) h
  | error e s => exact congrArg (EStateM.Result.error e) h

/-- The step notes no error and gives none up, and sees neither whether errors are collected nor how deep demands
may be nested. -/
structure Impartial (x : Analysis α) : Prop where
  ledger : ∀ s, (behind x s).ledger = s.ledger
  adjusted : ∀ collect nesting s,
    x (s.adjusted collect nesting) = inState (·.adjusted collect nesting) (x s)

namespace Impartial

variable {x : Analysis α}

theorem pure {a : α} : Impartial (Pure.pure a : Analysis α) := ⟨fun _ => rfl, fun _ _ _ => rfl⟩

theorem throw {e : Diagnostic} : Impartial (MonadExcept.throw e : Analysis α) :=
  ⟨fun _ => rfl, fun _ _ _ => rfl⟩

theorem alter {f : State → State} (hledger : ∀ s, (f s).ledger = s.ledger)
    (hadjusted : ∀ c n s, f (s.adjusted c n) = (f s).adjusted c n) : Impartial (modify f : Analysis PUnit) :=
  ⟨hledger, fun c n s => congrArg (EStateM.Result.ok PUnit.unit) (hadjusted c n s)⟩

theorem modifyGet {h : State → α × State} (hledger : ∀ s, (h s).2.ledger = s.ledger)
    (hadjusted : ∀ c n s, h (s.adjusted c n) = ((h s).1, (h s).2.adjusted c n)) :
    Impartial (MonadStateOf.modifyGet h : Analysis α) where
  ledger := hledger
  adjusted c n s := by
    show (match h (s.adjusted c n) with | (a, s') => EStateM.Result.ok a s') = _
    rw [hadjusted c n s]
    rfl

theorem options (hx : Impartial x) (s : State) : (stateAt (x s)).options = s.options :=
  congrArg (·.1) (hx.ledger s)

/-- In an analysis that stops at its first error. -/
theorem strict (hx : Impartial x) (s : State) : x s.strict = strictly (x s) := by
  have hoptions := hx.options s
  have hrun : x s.strict = inState (·.adjusted false s.options.nesting) (x s) := hx.adjusted ..
  rw [hrun]
  cases hxs : x s with
  | ok a s' =>
    rw [hxs] at hoptions
    rw [inState, strictly, State.adjusted, State.strict, ← show s'.options = s.options from hoptions]
  | error e s' =>
    rw [hxs] at hoptions
    rw [inState, strictly, State.adjusted, State.strict, ← show s'.options = s.options from hoptions]

/-- In an analysis that may go deeper. -/
theorem nested (hx : Impartial x) (n : Nat) (s : State) : x (s.nested n) = inState (·.nested n) (x s) := by
  have hrun : x (s.nested n) = inState (·.adjusted s.options.collectErrors n) (x s) := hx.adjusted ..
  rw [hrun]
  refine inState_congr ?_
  rw [State.adjusted, State.nested, hx.options s]

end Impartial

end Analysis

/-! ## Errors that are reported again -/

/-- The error is the other one, or both say that a name means nothing. -/
def Diagnostic.Restates (d e : Diagnostic) : Prop :=
  d = e ∨ ∃ name, d.cause = .noTarget name ∧ e.cause = .noTarget name

theorem Diagnostic.Restates.refl (e : Diagnostic) : e.Restates e := .inl rfl

theorem Diagnostic.Restates.trans {d e f : Diagnostic} (h : d.Restates e) (h' : e.Restates f) :
    d.Restates f := by
  rcases h with rfl | ⟨name, hd, he⟩
  · exact h'
  rcases h' with rfl | ⟨name', he', hf⟩
  · exact .inr ⟨name, hd, he⟩
  · cases he.symm.trans he'
    exact .inr ⟨name, hd, hf⟩

namespace Analysis

variable {α : Type}

/-- A step ended by reporting an error, or has given it up. -/
inductive Reported (e : Diagnostic) : EStateM.Result Diagnostic State α → Prop
  | again {d : Diagnostic} {s : State} (h : d.Restates e) : Reported e (.error d s)
  | givenUp {r : EStateM.Result Diagnostic State α} {d : Diagnostic} (h : d.Restates e)
      (hd : d ∈ (stateAt r).dropped) : Reported e r

/-- Whoever meets the error and goes on with the step reports the error or gives it up. -/
def Reports (e : Diagnostic) (x : Analysis α) : Prop := ∀ s, Reported e (x s)

theorem Reports.throw {d e : Diagnostic} (h : d.Restates e) :
    Reports e (MonadExcept.throw d : Analysis α) := fun _ => .again h

theorem Reports.giveUp (e : Diagnostic) : Reports e (giveUp e) := fun s =>
  .givenUp (.refl e) (List.mem_append_right s.dropped (List.mem_singleton_self e))

theorem Reports.giveUp_pure (e : Diagnostic) (a : α) :
    Reports e (do Analysis.giveUp e; return a : Analysis α) := fun s =>
  .givenUp (.refl e) (List.mem_append_right s.dropped (List.mem_singleton_self e))

end Analysis

open Analysis (Impartial Reported Reports behind_eq recover_run)

/-! ## Delegation -/

/-- The first step loads modules only by asking the first analyst, notes errors only where it recovers from them, and
gives up no error silently. The second one does the same with the other analyst. -/
inductive Delegates (an an' : Analyst) : {α : Type} → Analysis α → Analysis α → Prop
  | aside {α : Type} {x : Analysis α} (hloading : ∀ s, (behind x s).loading = s.loading)
      (himpartial : Impartial x) : Delegates an an' x x
  | ask {α : Type} (d : Demand α) : Delegates an an' (an.ask d) (an'.ask d)
  | bind {α β : Type} {x y : Analysis α} {f g : α → Analysis β} (hx : Delegates an an' x y)
      (hf : ∀ a, Delegates an an' (f a) (g a)) : Delegates an an' (x >>= f) (y >>= g)
  /-- Look at the state, but not at whether errors are collected or how deep demands may be nested. -/
  | read {β : Type} {f g : State → Analysis β}
      (hadjusted : ∀ c n s, f (s.adjusted c n) = f s ∧ g (s.adjusted c n) = g s)
      (hf : ∀ s, Delegates an an' (f s) (g s)) :
      Delegates an an' (MonadState.get >>= f) (MonadState.get >>= g)
  | tryCatch {α : Type} {x y : Analysis α} {h k : Diagnostic → Analysis α} (hx : Delegates an an' x y)
      (hh : ∀ e, Delegates an an' (h e) (k e)) (hreports : ∀ e, Reports e (h e)) :
      Delegates an an' (MonadExcept.tryCatch x h) (MonadExcept.tryCatch y k)
  | recover {α : Type} {x y : Analysis α} (hx : Delegates an an' x y) :
      Delegates an an' (Analysis.recover x) (Analysis.recover y)
  | giveUp {e : Diagnostic} : Delegates an an' (Analysis.giveUp e) (Analysis.giveUp e)

namespace Delegates

attribute [grind ←] Delegates.ask Delegates.bind Delegates.recover Delegates.giveUp

variable {α β γ : Type} {an an' : Analyst} {x y : Analysis α} {f g : α → Analysis β}

/-- What holds around the demands of the first analyst and around steps aside holds around the whole first step. -/
theorem relates {R : State → State → Prop} (haside : ∀ s s', s'.loading = s.loading → R s s')
    (htrans : ∀ s s' s'', R s s' → R s' s'' → R s s'')
    (hask : ∀ {α : Type} (d : Demand α) (s : State), R s (behind (an.ask d) s))
    (hx : Delegates an an' x y) (s : State) : R s (behind x s) := by
  induction hx generalizing s with
  | aside h => exact haside s _ (h s)
  | ask d => exact hask d s
  | @bind α β x _ f _ _ _ ihx ihf =>
    have hfirst := ihx s
    show R s (behind (EStateM.bind x f) s)
    unfold behind EStateM.bind at *
    cases hxs : x s with
    | error e s' =>
      rw [hxs] at hfirst
      exact hfirst
    | ok a s' =>
      rw [hxs] at hfirst
      exact htrans s s' _ hfirst (ihf a s')
  | read _ _ ihf => exact ihf s s
  | @tryCatch α x _ h _ _ _ _ ihx ihh =>
    have hfirst := ihx s
    show R s (behind (EStateM.tryCatch x h) s)
    unfold behind EStateM.tryCatch at *
    cases hxs : x s with
    | ok a s' =>
      rw [hxs] at hfirst
      exact hfirst
    | error e s' =>
      rw [hxs] at hfirst
      exact htrans s s' _ hfirst (ihh e s')
  | @recover α x _ _ ihx =>
    have hfirst := ihx s
    rw [behind_eq] at hfirst ⊢
    rw [recover_run]
    cases hxs : x s with
    | ok a s' =>
      rw [hxs] at hfirst
      exact hfirst
    | error e s' =>
      rw [hxs] at hfirst
      dsimp only
      split
      · exact htrans s s' _ hfirst (haside _ _ rfl)
      · exact hfirst
  | giveUp => exact haside s _ rfl

@[grind ←] theorem pure {a : α} : Delegates an an' (Pure.pure a : Analysis α) (Pure.pure a) :=
  .aside (fun _ => rfl) .pure

@[grind ←] theorem throw {e : Diagnostic} :
    Delegates an an' (MonadExcept.throw e : Analysis α) (MonadExcept.throw e) := .aside (fun _ => rfl) .throw

/-- A change of something else. -/
@[grind ←] theorem alter {f : State → State} (hf : ∀ s, (f s).loading = s.loading)
    (hledger : ∀ s, (f s).ledger = s.ledger) (hadjusted : ∀ c n s, f (s.adjusted c n) = (f s).adjusted c n) :
    Delegates an an' (modify f : Analysis PUnit) (modify f) := .aside hf (.alter hledger hadjusted)

/-- A change of something else that gives something. -/
@[grind ←] theorem modifyGet {h : State → α × State} (hh : ∀ s, (h s).2.loading = s.loading)
    (hledger : ∀ s, (h s).2.ledger = s.ledger)
    (hadjusted : ∀ c n s, h (s.adjusted c n) = ((h s).1, (h s).2.adjusted c n)) :
    Delegates an an' (MonadStateOf.modifyGet h : Analysis α) (MonadStateOf.modifyGet h) :=
  .aside hh (.modifyGet hledger hadjusted)

@[grind ←] theorem map {h : α → β} (hx : Delegates an an' x y) : Delegates an an' (h <$> x) (h <$> y) := by
  rw [← bind_pure_comp, ← bind_pure_comp]
  exact hx.bind fun _ => .pure

@[grind ←] theorem discard (hx : Delegates an an' x y) : Delegates an an' (discard x) (discard y) := hx.map

/-- First do something under a condition. -/
theorem guard {c : Prop} [Decidable c] {x y : Analysis PUnit} {f g : PUnit → Analysis β}
    (hx : Delegates an an' x y) (hf : Delegates an an' (f ⟨⟩) (g ⟨⟩)) :
    Delegates an an' (if c then x >>= f else f ⟨⟩) (if c then y >>= g else g ⟨⟩) := by
  split
  · exact hx.bind fun _ => hf
  · exact hf

/-! ## Lists -/

@[grind ←] theorem forM {xs : List γ} {f g : γ → Analysis PUnit} (h : ∀ a, Delegates an an' (f a) (g a)) :
    Delegates an an' (xs.forM f) (xs.forM g) := by
  induction xs with
  | nil => exact .pure
  | cons a rest ih => exact (h a).bind fun _ => ih

@[grind ←] theorem mapM {xs : List γ} {f g : γ → Analysis β} (h : ∀ a, Delegates an an' (f a) (g a)) :
    Delegates an an' (xs.mapM f) (xs.mapM g) := by
  induction xs with
  | nil => exact .pure
  | cons a rest ih =>
    rw [List.mapM_cons, List.mapM_cons]
    exact (h a).bind fun b => ih.bind fun _ => .pure

@[grind ←] theorem foldlM {xs : List γ} {f g : β → γ → Analysis β} {b : β}
    (h : ∀ b a, Delegates an an' (f b a) (g b a)) : Delegates an an' (xs.foldlM f b) (xs.foldlM g b) := by
  induction xs generalizing b with
  | nil => exact .pure
  | cons a rest ih =>
    rw [List.foldlM_cons, List.foldlM_cons]
    exact (h b a).bind fun _ => ih

@[grind ←] theorem filterMapM {xs : List γ} {f g : γ → Analysis (Option β)}
    (h : ∀ a, Delegates an an' (f a) (g a)) : Delegates an an' (xs.filterMapM f) (xs.filterMapM g) := by
  have hloop : ∀ (ys : List γ) (acc : List β),
      Delegates an an' (List.filterMapM.loop f ys acc) (List.filterMapM.loop g ys acc) := by
    intro ys
    induction ys with
    | nil => exact fun acc => .pure
    | cons a rest ih =>
      intro acc
      unfold List.filterMapM.loop
      refine (h a).bind fun o => ?_
      cases o with
      | none => exact ih acc
      | some b => exact ih (b :: acc)
  exact hloop xs []

@[grind ←] theorem optionMapM {o : Option γ} {f g : γ → Analysis β} (h : ∀ a, Delegates an an' (f a) (g a)) :
    Delegates an an' (o.mapM f) (o.mapM g) := by
  cases o with
  | none => exact .pure
  | some a => exact (h a).map

end Delegates

namespace Analysis

variable {α : Type} {an an' : Analyst} {frame : Frame} {node : Node} {scope : ScopeId}

/-! ## Small steps -/

@[grind ←] theorem fail_delegates {p : Position} {c : Cause} :
    Delegates an an' (fail p c : Analysis α) (fail p c) :=
  .throw

@[grind ←] theorem failOther_delegates {p : Position} {m : String} :
    Delegates an an' (failOther p m : Analysis α) (failOther p m) := .throw

@[grind ←] theorem misplaced_delegates {c r : String} {p : Position} :
    Delegates an an' (misplaced c r p : Analysis α) (misplaced c r p) := .throw

@[grind ←] theorem expect_delegates {what : String} {o : Option α} :
    Delegates an an' (expect what o) (expect what o) := by
  cases o with
  | none => exact .throw
  | some a => exact .pure

@[grind ←] theorem look_delegates {f : SymbolTable → α} :
    Delegates an an' (look f) (look f) := .read (fun _ _ _ => ⟨rfl, rfl⟩) fun _ => .pure

@[grind ←] theorem typeText_delegates {ty : Ty} :
    Delegates an an' (typeText ty) (typeText ty) := .read (fun _ _ _ => ⟨rfl, rfl⟩) fun _ => .pure

@[grind ←] theorem itemName_delegates {i : ItemId} :
    Delegates an an' (itemName i) (itemName i) := .read (fun _ _ _ => ⟨rfl, rfl⟩) fun _ => .pure

@[grind ←] theorem conversion_delegates {src dst : Ty} :
    Delegates an an' (conversion src dst) (conversion src dst) :=
  .read (fun _ _ _ => ⟨rfl, rfl⟩) fun _ => .read (fun _ _ _ => ⟨rfl, rfl⟩) fun _ => .pure

@[grind ←] theorem detail?_delegates :
    Delegates an an' (detail? frame node) (detail? frame node) := .read (fun _ _ _ => ⟨rfl, rfl⟩) fun _ => .pure

@[grind ←] theorem declared?_delegates :
    Delegates an an' (declared? frame node) (declared? frame node) := .read (fun _ _ _ => ⟨rfl, rfl⟩) fun _ => .pure

@[grind ←] theorem classSource?_delegates {cls : ItemId} :
    Delegates an an' (classSource? cls) (classSource? cls) :=
  .read (fun _ _ _ => ⟨rfl, rfl⟩) fun _ => .pure

@[grind ←] theorem template?_delegates {item : ItemId} : Delegates an an' (template? item) (template? item) :=
  .read (fun _ _ _ => ⟨rfl, rfl⟩) fun _ => .pure

@[grind ←] theorem change_delegates {f : SymbolTable → SymbolTable} : Delegates an an' (change f) (change f) :=
  .alter (fun _ => rfl) (fun _ => rfl) fun _ _ _ => rfl

@[grind ←] theorem make_delegates {f : SymbolTable → α × SymbolTable} : Delegates an an' (make f) (make f) :=
  .modifyGet (fun _ => rfl) (fun _ => rfl) fun _ _ _ => rfl

@[grind ←] theorem newScope_delegates {parent : ScopeId} : Delegates an an' (newScope parent) (newScope parent) :=
  make_delegates

@[grind ←] theorem addItem_delegates {item : Item} :
    Delegates an an' (addItem item) (addItem item) := make_delegates

@[grind ←] theorem setOwner_delegates {s : ScopeId} {owner : ScopeOwner} :
    Delegates an an' (setOwner s owner) (setOwner s owner) := change_delegates

@[grind ←] theorem openFrame_delegates {module : ModuleId} :
    Delegates an an' (openFrame module) (openFrame module) :=
  .modifyGet (fun _ => rfl) (fun _ => rfl) fun _ _ _ => rfl

@[grind ←] theorem freshNode_delegates {p : Position} : Delegates an an' (freshNode p) (freshNode p) :=
  .modifyGet (fun _ => rfl) (fun _ => rfl) fun _ _ _ => rfl

@[grind ←] theorem record_delegates {d : Detail} :
    Delegates an an' (record frame node d) (record frame node d) := by
  refine .aside (fun s => ?_) ⟨fun s => ?_, fun c n s => ?_⟩
  · rw [behind_eq, record_eq]
    split <;> rfl
  · rw [behind_eq, record_eq]
    split <;> rfl
  · have hsame : (s.adjusted c n).details = s.details := rfl
    rw [record_eq, record_eq, hsame]
    cases s.details.insert ⟨frame.id, node.id⟩ d node.position <;> rfl

@[grind ←] theorem narrow_delegates {item : ItemId} {ty : Ty} :
    Delegates an an' (narrow frame node item ty)
      (narrow frame node item ty) := .alter (fun _ => rfl) (fun _ => rfl) fun _ _ _ => rfl

@[grind ←] theorem castImplicitly_delegates {cast : ImplicitCast} :
    Delegates an an' (castImplicitly frame node cast)
      (castImplicitly frame node cast) := .alter (fun _ => rfl) (fun _ => rfl) fun _ _ _ => rfl

@[grind ←] theorem recordDeclared_delegates {item : ItemId} :
    Delegates an an' (recordDeclared frame node item)
      (recordDeclared frame node item) := .alter (fun _ => rfl) (fun _ => rfl) fun _ _ _ => rfl

@[grind ←] theorem setStage_delegates {cls : ItemId} {stage : Stage} :
    Delegates an an' (setStage cls stage) (setStage cls stage) := .alter (fun _ => rfl) (fun _ => rfl) fun _ _ _ => rfl

theorem andFinally_delegates {x y : Analysis α} {f : State → State} (hx : Delegates an an' x y)
    (hlast : Delegates an an' (modify f : Analysis Unit) (modify f)) :
    Delegates an an' (andFinally x (modify f)) (andFinally y (modify f)) := by
  unfold andFinally
  refine .bind (.tryCatch hx (fun e => ?_) fun e s => .again (.refl e)) fun a => ?_
  · exact hlast.bind fun _ => .throw
  · exact hlast.bind fun _ => .pure

/-! ## Demands -/

@[grind ←] theorem type_delegates {t : TypeExpr} :
    Delegates an an' (an.type frame t scope) (an'.type frame t scope) := .ask _

@[grind ←] theorem expr_delegates {e : Expr} :
    Delegates an an' (an.expr frame e scope) (an'.expr frame e scope) := .ask _

@[grind ←] theorem stmt_delegates {stmt : Stmt} :
    Delegates an an' (an.stmt frame stmt scope) (an'.stmt frame stmt scope) := .ask _

@[grind ←] theorem stmts_delegates {ss : List Stmt} :
    Delegates an an' (an.stmts frame ss scope) (an'.stmts frame ss scope) :=
  .forM fun _ => stmt_delegates

end Analysis

end SemanticAnalysis
