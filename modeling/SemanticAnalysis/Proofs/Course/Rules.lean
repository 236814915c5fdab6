import SemanticAnalysis.Proofs.Analysis.Acyclic
import SemanticAnalysis.Proofs.Course.Basic

/-!
# Steps that follow a course

`Orderly s₀ x` says that the step `x`, begun in any proper state that has come about since `s₀`,
follows a course, also when it stops with an error. A fact about a part of the analysis is of the form
`Orderly s₀ (part an)`, from what the analyst answers to demands (`Analyst.Orderly`).

The state `s₀` is where a fact was noticed that has to last: that a module is on the stack, or that a
scope is an inner one. Both last (`State.Hosts`), so a demand made later still finds them.
-/

namespace SemanticAnalysis

open Analysis (behind)

/-- The step follows a course from every proper state that has come about since `s₀`. -/
def Orderly {α : Type} (s₀ : State) (x : Analysis α) : Prop :=
  ∀ s : State, s.Proper → Course s₀ s → Course s (behind x s)

/-! ## Rules -/

namespace Orderly

variable {α β γ : Type} {s₀ s₁ : State} {x : Analysis α} {f : α → Analysis β}

theorem rebase (hx : Orderly s₀ x) (h : Course s₀ s₁) : Orderly s₁ x :=
  fun s hs h₁ => hx s hs (h.trans h₁)

/-- A step that leaves the state as it is. -/
theorem of_behind_eq (hx : ∀ s, behind x s = s) : Orderly s₀ x := by
  intro s _ _
  rw [hx s]
  exact .refl s

@[grind ←] theorem pure {a : α} : Orderly s₀ (Pure.pure a : Analysis α) := of_behind_eq fun _ => rfl

@[grind ←] theorem throw {e : Diagnostic} : Orderly s₀ (MonadExcept.throw e : Analysis α) :=
  of_behind_eq fun _ => rfl

/-- First one step, then another, which may rely on what came about in between. -/
theorem bind_from (hx : Orderly s₀ x)
    (hf : ∀ s a s', s.Proper → Course s₀ s → Course s s' → x s = .ok a s' → Orderly s' (f a)) :
    Orderly s₀ (x >>= f) := by
  intro s hs h₀
  have hrun := hx s hs h₀
  show Course s (behind (EStateM.bind x f) s)
  unfold behind EStateM.bind at *
  cases hxs : x s with
  | error e s' =>
    rw [hxs] at hrun
    exact hrun
  | ok a s' =>
    rw [hxs] at hrun
    exact hrun.trans (hf s a s' hs h₀ hrun hxs s' (hrun.proper hs) (.refl s'))

@[grind ←] theorem bind (hx : Orderly s₀ x) (hf : ∀ a, Orderly s₀ (f a)) : Orderly s₀ (x >>= f) :=
  hx.bind_from fun _ a _ _ h₀ hrun _ => (hf a).rebase (h₀.trans hrun)

@[grind ←] theorem map {h : α → β} (hx : Orderly s₀ x) : Orderly s₀ (h <$> x) := by
  rw [← bind_pure_comp]
  exact hx.bind fun _ => .pure

@[grind ←] theorem discard (hx : Orderly s₀ x) : Orderly s₀ (discard x) := hx.map

@[grind ←] theorem tryCatch {h : Diagnostic → Analysis α} (hx : Orderly s₀ x)
    (hh : ∀ e, Orderly s₀ (h e)) : Orderly s₀ (MonadExcept.tryCatch x h) := by
  intro s hs h₀
  have hrun := hx s hs h₀
  show Course s (behind (EStateM.tryCatch x h) s)
  unfold behind EStateM.tryCatch at *
  cases hxs : x s with
  | ok a s' =>
    rw [hxs] at hrun
    exact hrun
  | error e s' =>
    rw [hxs] at hrun
    exact hrun.trans (hh e s' (hrun.proper hs) (h₀.trans hrun))

/-- First do something under a condition. -/
theorem guard {c : Prop} [Decidable c] {x : Analysis PUnit} {f : PUnit → Analysis β}
    (hx : Orderly s₀ x) (hf : Orderly s₀ (f ⟨⟩)) :
    Orderly s₀ (if c then x >>= f else f ⟨⟩) := by
  split
  · exact hx.bind fun _ => hf
  · exact hf

/-! ### Lists -/

@[grind ←] theorem forM {xs : List γ} {f : γ → Analysis PUnit} (h : ∀ a ∈ xs, Orderly s₀ (f a)) :
    Orderly s₀ (xs.forM f) := by
  induction xs with
  | nil => exact .pure
  | cons a rest ih =>
    refine (h a List.mem_cons_self).bind fun _ => ih fun b hb => ?_
    exact h b (List.mem_cons_of_mem _ hb)

@[grind ←] theorem mapM {xs : List γ} {f : γ → Analysis β} (h : ∀ a ∈ xs, Orderly s₀ (f a)) :
    Orderly s₀ (xs.mapM f) := by
  induction xs with
  | nil => exact .pure
  | cons a rest ih =>
    rw [List.mapM_cons]
    refine (h a List.mem_cons_self).bind fun b => ?_
    exact (ih fun c hc => h c (List.mem_cons_of_mem _ hc)).bind fun _ => .pure

@[grind ←] theorem foldlM {xs : List γ} {f : β → γ → Analysis β} {b : β}
    (h : ∀ b, ∀ a ∈ xs, Orderly s₀ (f b a)) : Orderly s₀ (xs.foldlM f b) := by
  induction xs generalizing b with
  | nil => exact .pure
  | cons a rest ih =>
    rw [List.foldlM_cons]
    refine (h b a List.mem_cons_self).bind fun c => ih fun d e he => ?_
    exact h d e (List.mem_cons_of_mem _ he)

@[grind ←] theorem filterMapM {xs : List γ} {f : γ → Analysis (Option β)}
    (h : ∀ a ∈ xs, Orderly s₀ (f a)) : Orderly s₀ (xs.filterMapM f) := by
  have hloop : ∀ (ys : List γ) (acc : List β), (∀ a ∈ ys, Orderly s₀ (f a)) →
      Orderly s₀ (List.filterMapM.loop f ys acc) := by
    intro ys
    induction ys with
    | nil => exact fun acc _ => .pure
    | cons a rest ih =>
      intro acc hys
      unfold List.filterMapM.loop
      refine (hys a List.mem_cons_self).bind fun o => ?_
      have hrest : ∀ b ∈ rest, Orderly s₀ (f b) := fun b hb => hys b (List.mem_cons_of_mem _ hb)
      cases o with
      | none => exact ih acc hrest
      | some b => exact ih (b :: acc) hrest
  exact hloop xs [] h

@[grind ←] theorem optionMapM {o : Option γ} {f : γ → Analysis β}
    (h : ∀ a, Orderly s₀ (f a)) : Orderly s₀ (o.mapM f) := by
  cases o with
  | none => exact .pure
  | some a => exact (h a).map

/-! ### The state -/

@[grind ←] theorem get : Orderly s₀ (MonadState.get : Analysis State) := of_behind_eq fun _ => rfl

/-- A step that only reads. -/
theorem read {h : State → α} : Orderly s₀ (fun s => .ok (h s) s : Analysis α) :=
  of_behind_eq fun _ => rfl

/-- First read the state. What follows may put a state together from it. -/
theorem bind_get {f : State → Analysis β}
    (hf : ∀ s : State, s.Proper → Course s₀ s → Course s (behind (f s) s)) :
    Orderly s₀ (MonadState.get >>= f) := fun s hs h₀ => hf s hs h₀

/-- An ordinary change that gives something. -/
theorem modifyGet {h : State → α × State} (hh : ∀ s, Course s₀ s → s.Ordinary (h s).2) :
    Orderly s₀ (MonadStateOf.modifyGet h : Analysis α) := fun s _ h₀ => .ordinary (hh s h₀)

/-- An ordinary change. -/
theorem alter {f : State → State} (hf : ∀ s : State, s.Ordinary (f s)) :
    Orderly s₀ (modify f : Analysis PUnit) := fun s _ _ => .ordinary (hf s)

end Orderly

/-! ### Results -/

namespace Analysis

variable {α β γ : Type} {x : Analysis α} {f : α → Analysis β}

/-- A step that succeeds hands over to the next one. -/
theorem bind_ok {s s' : State} {a : α} (h : x s = .ok a s') : (x >>= f) s = f a s' := by
  show EStateM.bind x f s = _
  rw [EStateM.bind, h]

/-- Nothing comes after an error. -/
theorem bind_error {s s' : State} {e : Diagnostic} (h : x s = .error e s') :
    (x >>= f) s = .error e s' := by
  show EStateM.bind x f s = _
  rw [EStateM.bind, h]

theorem of_bind_ok {s s' : State} {b : β} (h : (x >>= f) s = .ok b s') :
    ∃ a s₁, x s = .ok a s₁ ∧ f a s₁ = .ok b s' := by
  cases hx : x s with
  | ok a s₁ => exact ⟨a, s₁, rfl, (bind_ok hx).symm.trans h⟩
  | error e s₁ => cases (bind_error hx).symm.trans h

/-- What is done last is done in any case. -/
theorem andFinally_modify {x : Analysis α} {f : State → State} (s : State) :
    andFinally x (modify f) s =
      match x s with
      | .ok a s' => .ok a (f s')
      | .error e s' => .error e (f s') := by
  show EStateM.bind (EStateM.tryCatch x _) _ s = _
  unfold EStateM.bind EStateM.tryCatch
  cases x s <;> rfl

theorem tryCatch_run (x : Analysis α) (h : Diagnostic → Analysis α) (s : State) :
    (MonadExcept.tryCatch x h : Analysis α) s =
      match x s with
      | .ok a s' => .ok a s'
      | .error e s' => h e s' := by
  show EStateM.tryCatch x h s = _
  unfold EStateM.tryCatch
  cases x s <;> rfl

/-- An attempt notes its error if errors are collected, and else fails with it. -/
theorem recover_run (x : Analysis α) (s : State) : recover x s =
    match x s with
    | .ok a s' => .ok (some a) s'
    | .error e s' =>
      if s'.options.collectErrors then .ok none { s' with errors := s'.errors ++ [e] }
      else .error e s' := by
  show EStateM.tryCatch (EStateM.map some x) _ s = _
  unfold EStateM.tryCatch EStateM.map
  cases x s with
  | ok a s' => rfl
  | error e s' =>
    show (if s'.options.collectErrors then _ else _ : Analysis (Option α)) s' = if _ then _ else _
    split <;> rfl

theorem record_eq (frame : Frame) (node : Node) (d : Detail) (s : State) : record frame node d s =
    match s.details.insert ⟨frame.id, node.id⟩ d node.position with
    | .ok details => .ok ⟨⟩ { s with details }
    | .error e => .error e s := by
  have hread (f : State → Analysis Unit) : (MonadState.get >>= f) s = f s s := rfl
  rw [record, hread]
  cases s.details.insert ⟨frame.id, node.id⟩ d node.position <;> rfl

/-- What the step gives, if anything, has the property. -/
def Returns (x : Analysis α) (P : α → Prop) : Prop := ∀ s a s', x s = .ok a s' → P a

namespace Returns

theorem pure {P : α → Prop} {a : α} (h : P a) : Returns (Pure.pure a) P := by
  rintro s b s' ⟨⟩
  exact h

theorem bind_from {P : α → Prop} {Q : β → Prop} (hx : Returns x P)
    (hf : ∀ a, P a → Returns (f a) Q) : Returns (x >>= f) Q := by
  intro s b s' h
  cases hxs : x s with
  | ok a s₁ => exact hf a (hx s a s₁ hxs) s₁ b s' ((bind_ok hxs).symm.trans h)
  | error e s₁ => cases (bind_error hxs).symm.trans h

theorem bind {Q : β → Prop} (hf : ∀ a, Returns (f a) Q) : Returns (x >>= f) Q :=
  bind_from (fun _ _ _ _ => trivial) fun a (_ : True) => hf a

/-- The results of a list of steps stand in the order of the steps. -/
theorem mapM {δ : Type} {g : β → δ} {k : γ → δ} {h : γ → Analysis β} {xs : List γ}
    (hh : ∀ c ∈ xs, Returns (h c) (g · = k c)) : Returns (xs.mapM h) (·.map g = xs.map k) := by
  induction xs with
  | nil => exact .pure rfl
  | cons c rest ih =>
    rw [List.mapM_cons]
    refine bind_from (hh c List.mem_cons_self) fun b hb => ?_
    refine bind_from (ih fun d hd => hh d (List.mem_cons_of_mem _ hd)) fun bs hbs => .pure ?_
    rw [List.map_cons, List.map_cons, hb, hbs]

end Returns

end Analysis

/-- What the step gives has the property, in the state behind it. -/
def Yields {α : Type} (s₀ : State) (x : Analysis α) (Q : State → α → Prop) : Prop :=
  ∀ s a s', s.Proper → Course s₀ s → x s = .ok a s' → Q s' a

section

variable {α β : Type} {s₀ : State} {x : Analysis α} {f : α → Analysis β}

theorem Yields.pure {Q : State → α → Prop} {a : α} (h : ∀ s, Course s₀ s → Q s a) :
    Yields s₀ (Pure.pure a : Analysis α) Q := by
  rintro s _ _ _ h₀ ⟨⟩
  exact h s h₀

theorem Yields.throw {Q : State → α → Prop} {e : Diagnostic} :
    Yields s₀ (MonadExcept.throw e : Analysis α) Q := by
  rintro s _ _ _ _ ⟨⟩

/-- Only the last step counts. It may rely on what came about before. -/
theorem Yields.bind_from {Q : State → β → Prop} (hx : Orderly s₀ x)
    (hf : ∀ s a s', s.Proper → Course s₀ s → Course s s' → x s = .ok a s' → Yields s' (f a) Q) :
    Yields s₀ (x >>= f) Q := by
  intro s b s'' hs h₀ hrun
  have hcourse := hx s hs h₀
  replace hrun : EStateM.bind x f s = .ok b s'' := hrun
  rw [EStateM.bind] at hrun
  rw [behind] at hcourse
  cases hxs : x s with
  | error e s' =>
    rw [hxs] at hrun
    cases hrun
  | ok a s' =>
    rw [hxs] at hrun hcourse
    exact hf s a s' hs h₀ hcourse hxs s' b s'' (hcourse.proper hs) (.refl s') hrun

theorem Yields.bind {Q : State → β → Prop} (hx : Orderly s₀ x)
    (hf : ∀ s a, Course s₀ s → Yields s (f a) Q) : Yields s₀ (x >>= f) Q :=
  .bind_from hx fun _ a _ _ h₀ hrun _ => hf _ a (h₀.trans hrun)

/-- The last step may also rely on what the first one gives. -/
theorem Yields.bind_yields {P : State → α → Prop} {Q : State → β → Prop} (hx : Orderly s₀ x)
    (hyields : Yields s₀ x P) (hf : ∀ s a, Course s₀ s → P s a → Yields s (f a) Q) :
    Yields s₀ (x >>= f) Q :=
  .bind_from hx fun s a s' hs h₀ hrun hxs => hf s' a (h₀.trans hrun) (hyields s a s' hs h₀ hxs)

end

namespace Analysis

variable {α β : Type} {s₀ : State} {frame : Frame} {node : Node}

/-! ## Small steps -/

@[grind ←] theorem fail_orderly {p : Position} {c : Cause} : Orderly s₀ (fail p c : Analysis α) := .throw

@[grind ←] theorem failOther_orderly {p : Position} {m : String} :
    Orderly s₀ (failOther p m : Analysis α) := .throw

@[grind ←] theorem misplaced_orderly {c r : String} {p : Position} :
    Orderly s₀ (misplaced c r p : Analysis α) := .throw

@[grind ←] theorem expect_orderly {what : String} {o : Option α} : Orderly s₀ (expect what o) := by
  cases o with
  | none => exact .throw
  | some a => exact .pure

theorem bind_expect {what : String} {o : Option α} {f : α → Analysis β}
    (hf : ∀ a, o = some a → Orderly s₀ (f a)) : Orderly s₀ (expect what o >>= f) := by
  cases o with
  | none => exact .throw
  | some a => exact hf a rfl

@[grind ←] theorem look_orderly {f : SymbolTable → α} : Orderly s₀ (look f) := .read

@[grind ←] theorem typeText_orderly {ty : Ty} : Orderly s₀ (typeText ty) := .read

@[grind ←] theorem itemName_orderly {i : ItemId} : Orderly s₀ (itemName i) := .read

@[grind ←] theorem conversion_orderly {src dst : Ty} : Orderly s₀ (conversion src dst) := .read

@[grind ←] theorem detail?_orderly : Orderly s₀ (detail? frame node) := .read

@[grind ←] theorem declared?_orderly : Orderly s₀ (declared? frame node) := .read

@[grind ←] theorem classSource?_orderly {cls : ItemId} : Orderly s₀ (classSource? cls) := .read

@[grind ←] theorem template?_orderly {item : ItemId} : Orderly s₀ (template? item) := .read

@[grind ←] theorem change_orderly {f : SymbolTable → SymbolTable}
    (h : ∀ t : SymbolTable, t.Maintains (f t)) : Orderly s₀ (change f) :=
  .alter fun s => .of_table (h s.table)

@[grind ←] theorem make_orderly {f : SymbolTable → α × SymbolTable}
    (h : ∀ t : SymbolTable, t.Maintains (f t).2) : Orderly s₀ (make f) :=
  .modifyGet fun s _ => .of_table (h s.table)

@[grind ←] theorem newScope_orderly {parent : ScopeId} : Orderly s₀ (newScope parent) :=
  make_orderly fun _ => .newScope

/-- A function brings an inner scope, and captures nothing yet. -/
theorem addFunction_orderly {item : Item}
    (h : ∀ f, item.entity = .fn f → s₀.table.IsInner f.scope ∧ f.referenced = [] ∧ f.copied = []) :
    Orderly s₀ (addItem item) := by
  refine .modifyGet fun s h₀ => ?_
  have hsize := SymbolTable.size_addItem s.table item
  have hretains : s.attributes.Steady → s.table.Retains (s.table.addItem item).2 :=
    fun hd => .addItem fun f hf => h₀.isInner hd (h f hf).1
  exact
    { items_le := Nat.le_of_lt (hsize ▸ Nat.lt_succ_self _)
      anchors := fun hd => (hretains hd).anchors
      retains := fun hd => hretains hd.steady
      conserves := fun _ => .addItem fun f hf => (h f hf).2 }

/-- Any other item. -/
@[grind ←] theorem addItem_orderly {item : Item} (h : ∀ f, item.entity ≠ .fn f) :
    Orderly s₀ (addItem item) := addFunction_orderly fun f hf => absurd hf (h f)

@[grind ←] theorem setOwner_orderly {s : ScopeId} {owner : ScopeOwner} :
    Orderly s₀ (setOwner s owner) := change_orderly fun _ => .setOwner

@[grind ←] theorem freshNode_orderly {p : Position} : Orderly s₀ (freshNode p) :=
  .modifyGet fun s _ => { State.Ordinary.refl s with }

@[grind ←] theorem record_orderly {d : Detail} : Orderly s₀ (record frame node d) := by
  unfold record
  refine .bind_get fun s _ _ => ?_
  split
  · rename_i details _
    have hordinary : s.Ordinary { s with details } := { State.Ordinary.refl s with }
    exact .ordinary hordinary
  · exact .refl s

@[grind ←] theorem narrow_orderly {item : ItemId} {ty : Ty} : Orderly s₀ (narrow frame node item ty) :=
  .alter fun s => { State.Ordinary.refl s with }

@[grind ←] theorem castImplicitly_orderly {cast : ImplicitCast} :
    Orderly s₀ (castImplicitly frame node cast) := .alter fun s => { State.Ordinary.refl s with }

@[grind ←] theorem recordDeclared_orderly {item : ItemId} :
    Orderly s₀ (recordDeclared frame node item) := .alter fun s => { State.Ordinary.refl s with }

@[grind ←] theorem setStage_orderly {cls : ItemId} {stage : Stage} : Orderly s₀ (setStage cls stage) :=
  .alter fun s => { State.Ordinary.refl s with }

@[grind ←] theorem recover_orderly {x : Analysis α} (hx : Orderly s₀ x) : Orderly s₀ (recover x) := by
  unfold recover
  refine .tryCatch hx.map fun e => .bind .get fun s => ?_
  split
  · exact .bind (.alter fun s => { State.Ordinary.refl s with }) fun _ => .pure
  · exact .throw

@[grind ←] theorem giveUp_orderly {e : Diagnostic} : Orderly s₀ (giveUp e) :=
  .alter fun s => { State.Ordinary.refl s with }

@[grind ←] theorem andFinally_orderly {x : Analysis α} {last : Analysis Unit} (hx : Orderly s₀ x)
    (hlast : Orderly s₀ last) : Orderly s₀ (andFinally x last) := by
  unfold andFinally
  refine .bind (.tryCatch hx fun e => ?_) fun a => ?_
  · exact hlast.bind fun _ => .throw
  · exact hlast.bind fun _ => .pure

/-! ## Filing a member -/

/-- What holds of steps in a row if it holds of each holds of the filing of a member if it does of a look at the
table, of changes that leave scopes and origins alone, and of the refusal of a second destructor. -/
theorem registerMember_of {P : {α : Type} → Analysis α → Prop} {cls item : ItemId} {decl : FunctionDef}
    (hbind : ∀ {α β : Type} {x : Analysis α} {f : α → Analysis β}, P x → (∀ a, P (f a)) → P (x >>= f))
    (hlook : ∀ {α : Type} {f : SymbolTable → α}, P (look f))
    (hexpect : ∀ {α : Type} {what : String} {o : Option α}, P (expect what o))
    (hrefusal : P (fail decl.node.position (.duplicateDefinition "destructor") : Analysis PUnit))
    (hclass : ∀ g : Class → Class, (∀ c, (g c).scope = c.scope) → P (change (·.modifyClass cls g)))
    (hfunction : ∀ g : Function → Function, (∀ f, (g f).scope = f.scope ∧ (g f).guise = f.guise) →
      P (change (·.modifyFunction item g))) :
    P (registerMember cls item decl) := by
  unfold registerMember
  refine hbind hlook fun _ => hbind hlook fun _ => hbind hexpect fun entity => ?_
  cases decl.role with
  | construct =>
    dsimp only
    split
    · exact hclass _ fun _ => rfl
    · split
      · exact hbind (hclass _ fun _ => rfl) fun _ => hfunction _ fun _ => ⟨rfl, rfl⟩
      · exact hclass _ fun _ => rfl
  | destruct =>
    dsimp only
    split
    · exact hbind hrefusal fun _ => hclass _ fun _ => rfl
    · exact hclass _ fun _ => rfl
  | cast direction => cases direction <;> exact hclass _ fun _ => rfl
  | operator | plain | accessor => exact hclass _ fun _ => rfl

end Analysis

/-! ## Demands -/

/-- Code of a frame in a scope is a statement of a module under analysis or inside a body. -/
def State.Hosts (s : State) (frame : Frame) (scope : ScopeId) : Prop :=
  s.attributes.Steady → frame.module ∈ s.moduleStack ∨ s.table.IsInner scope

/-- What has to hold where a demand is made. -/
def Demand.Apt (s : State) : {α : Type} → Demand α → Prop
  | _, .stmt frame _ scope => s.Hosts frame scope
  | _, .pass _ frame _ _ => frame.module ∈ s.moduleStack
  | _, _ => True

namespace Course

variable {s s' : State} {frame : Frame} {scope : ScopeId}

theorem hosts (h : Course s s') (hs : s.Hosts frame scope) : s'.Hosts frame scope := by
  intro hd
  rcases hs (h.attributes_eq ▸ hd) with hstack | hinner
  · exact .inl (h.moduleStack_eq ▸ hstack)
  · exact .inr (h.isInner hd hinner)

theorem apt {α : Type} {d : Demand α} (h : Course s s') (hd : d.Apt s) : d.Apt s' := by
  cases d with
  | stmt frame stmt scope => exact h.hosts hd
  | pass p frame statements scope =>
    show frame.module ∈ s'.moduleStack
    rw [h.moduleStack_eq]
    exact hd
  | _ => trivial

end Course

/-- The analyst follows a course, and modules it gives are analysed. -/
structure Analyst.Orderly (an : Analyst) : Prop where
  follows : ∀ {α : Type} (d : Demand α) (s : State), s.Proper → d.Apt s →
    Course s (behind (an.ask d) s)
  gives : ∀ (path : Path) (request : String) (position : Position) (s : State) (m : ModuleId)
    (s' : State), s.Proper → an.ask (.module path request position) s = .ok m s' → m ∈ s'.analysed

section

variable {an : Analyst} (han : an.Orderly) {s₀ : State} {frame : Frame} {scope : ScopeId}

include han

theorem Analyst.Orderly.ask {α : Type} (d : Demand α) (hd : d.Apt s₀) :
    SemanticAnalysis.Orderly s₀ (an.ask d) := fun s hs h₀ => han.follows d s hs (h₀.apt hd)

@[grind ←] theorem type_orderly {t : TypeExpr} : Orderly s₀ (an.type frame t scope) :=
  han.ask _ trivial

@[grind ←] theorem expr_orderly {e : Expr} : Orderly s₀ (an.expr frame e scope) := han.ask _ trivial

@[grind ←] theorem stmts_orderly {ss : List Stmt} (h : s₀.Hosts frame scope) :
    Orderly s₀ (an.stmts frame ss scope) := .forM fun _ _ => han.ask _ h

@[grind ←] theorem signatures_orderly {cls : ItemId} : Orderly s₀ (an.ask (.signatures cls)) :=
  han.ask _ trivial

@[grind ←] theorem synthesis_orderly {cls : ItemId} : Orderly s₀ (an.ask (.synthesis cls)) :=
  han.ask _ trivial

@[grind ←] theorem classBodies_orderly {cls : ItemId} : Orderly s₀ (an.ask (.classBodies cls)) :=
  han.ask _ trivial

@[grind ←] theorem functionBody_orderly {decl : FunctionDef} {item : ItemId} :
    Orderly s₀ (an.ask (.functionBody frame decl item)) := han.ask _ trivial

@[grind ←] theorem pending_orderly : Orderly s₀ (an.ask .pending) := han.ask _ trivial

end

end SemanticAnalysis
