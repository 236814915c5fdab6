import SemanticAnalysis.Proofs.Course.Programs
import SemanticAnalysis.Proofs.Safety.Worlds

/-!
# Safe steps

`Safe w₀ x` says that the step `x`, begun in any sound world that `w₀` leads to, ends in a sound world, also
when it stops with an error, and that the error is no internal one. `Assures w₀ x Q` says besides what holds
of the result. A fact about a part of the analysis is of the form `Safe w₀ (part an)`, from what holds of its
arguments in `w₀` and from what the analyst answers to demands (`Analyst.Reliable`). What holds in `w₀` has to
last (`World.Leads`).
-/

namespace SemanticAnalysis

open Analysis (bind_ok bind_error)

/-- How a step ends that was begun in a world. -/
def World.Ends {α : Type} (w : World) (Q : World → α → Prop) :
    EStateM.Result Diagnostic State α → Prop
  | .ok a s => ∃ w' : World, w'.state = s ∧ w.Leads w' ∧ w'.Sound ∧ Q w' a
  | .error e s => (∃ w' : World, w'.state = s ∧ w.Leads w' ∧ w'.Sound) ∧ e.cause.isInternal = false

/-- From every sound world that has come about since `w₀` the step leads to a sound world, with a result of
which `Q` holds or an error that is no internal one. -/
def Assures {α : Type} (w₀ : World) (x : Analysis α) (Q : World → α → Prop) : Prop :=
  ∀ w : World, w₀.Leads w → w.Sound → w.Ends Q (x w.state)

/-- The step leads to sound worlds without an internal error. -/
def Safe {α : Type} (w₀ : World) (x : Analysis α) : Prop := Assures w₀ x fun _ _ => True

/-! ## Rules -/

theorem World.Ends.after {α : Type} {w w' : World} {Q : World → α → Prop}
    {r : EStateM.Result Diagnostic State α} (hr : w'.Ends Q r) (h : w.Leads w') : w.Ends Q r := by
  cases r with
  | ok a s =>
    obtain ⟨w'', hstate, hleads, hsound, hQ⟩ := hr
    exact ⟨w'', hstate, h.trans hleads, hsound, hQ⟩
  | error e s =>
    obtain ⟨⟨w'', hstate, hleads, hsound⟩, hcause⟩ := hr
    exact ⟨⟨w'', hstate, h.trans hleads, hsound⟩, hcause⟩

/-- A change ends in order. -/
theorem World.Change.ends {α : Type} {w w' : World} {Q : World → α → Prop} {a : α}
    (h : w.Change w') (hw : w.Sound) (hQ : Q w' a) : w.Ends Q (.ok a w'.state) :=
  ⟨w', rfl, h.leads, h.sound hw, hQ⟩

namespace Assures

variable {α β γ : Type} {w₀ w₁ : World} {x : Analysis α} {f : α → Analysis β}
variable {P : World → α → Prop} {Q : World → β → Prop}

theorem rebase (hx : Assures w₀ x P) (h : w₀.Leads w₁) : Assures w₁ x P :=
  fun w h₁ hw => hx w (h.trans h₁) hw

theorem imp {P' : World → α → Prop} (hx : Assures w₀ x P)
    (h : ∀ w a, w₀.Leads w → w.Sound → P w a → P' w a) : Assures w₀ x P' := by
  intro w h₀ hw
  have hrun := hx w h₀ hw
  cases hxs : x w.state with
  | error e s =>
    rw [hxs] at hrun
    exact hrun
  | ok a s =>
    rw [hxs] at hrun
    obtain ⟨w', hstate, hleads, hsound, hP⟩ := hrun
    exact ⟨w', hstate, hleads, hsound, h w' a (h₀.trans hleads) hsound hP⟩

theorem safe (hx : Assures w₀ x P) : Safe w₀ x := hx.imp fun _ _ _ _ _ => trivial

theorem pure {a : α} (h : ∀ w, w₀.Leads w → w.Sound → P w a) : Assures w₀ (Pure.pure a) P :=
  fun w h₀ hw => ⟨w, rfl, .refl w, hw, h w h₀ hw⟩

theorem throw {e : Diagnostic} (he : e.cause.isInternal = false) :
    Assures w₀ (MonadExcept.throw e) P := fun w _ hw => ⟨⟨w, rfl, .refl w, hw⟩, he⟩

/-- First one step, then another, which may rely on what the first one gives. -/
theorem bind (hx : Assures w₀ x P) (hf : ∀ w a, w₀.Leads w → P w a → Assures w (f a) Q) :
    Assures w₀ (x >>= f) Q := by
  intro w h₀ hw
  have hrun := hx w h₀ hw
  cases hxs : x w.state with
  | error e s =>
    rw [bind_error hxs]
    rw [hxs] at hrun
    exact hrun
  | ok a s =>
    rw [bind_ok hxs]
    rw [hxs] at hrun
    obtain ⟨w', rfl, hleads, hsound, hP⟩ := hrun
    exact (hf w' a (h₀.trans hleads) hP w' (.refl w') hsound).after hleads

/-- First a step on whose result nothing hangs. -/
theorem after (hx : Safe w₀ x) (hf : ∀ a, Assures w₀ (f a) Q) : Assures w₀ (x >>= f) Q :=
  bind hx fun _ a h₀ _ => (hf a).rebase h₀

theorem map {h : α → β} (hx : Assures w₀ x P)
    (hh : ∀ w a, w₀.Leads w → w.Sound → P w a → Q w (h a)) : Assures w₀ (h <$> x) Q := by
  intro w h₀ hw
  have hrun := hx w h₀ hw
  show w.Ends Q (EStateM.map h x w.state)
  unfold EStateM.map
  cases hxs : x w.state with
  | error e s =>
    rw [hxs] at hrun
    exact hrun
  | ok a s =>
    rw [hxs] at hrun
    obtain ⟨w', hstate, hleads, hsound, hP⟩ := hrun
    exact ⟨w', hstate, hleads, hsound, hh w' a (h₀.trans hleads) hsound hP⟩

theorem tryCatch {h : Diagnostic → Analysis α} (hx : Assures w₀ x P)
    (hh : ∀ e, e.cause.isInternal = false → Assures w₀ (h e) P) :
    Assures w₀ (MonadExcept.tryCatch x h) P := by
  intro w h₀ hw
  have hrun := hx w h₀ hw
  show w.Ends P (EStateM.tryCatch x h w.state)
  unfold EStateM.tryCatch
  cases hxs : x w.state with
  | ok a s =>
    rw [hxs] at hrun
    exact hrun
  | error e s =>
    rw [hxs] at hrun
    obtain ⟨⟨w', rfl, hleads, hsound⟩, hcause⟩ := hrun
    exact (hh e hcause w' (h₀.trans hleads) hsound).after hleads

/-- What holds of the start of a fold and is kept by each step holds of its result. -/
theorem foldlM {I : World → β → Prop} {xs : List γ} {f : β → γ → Analysis β} {b : β}
    (hlasts : ∀ w w' b, w.Leads w' → I w b → I w' b) (hb : I w₀ b)
    (h : ∀ w b, ∀ a ∈ xs, w₀.Leads w → I w b → Assures w (f b a) I) :
    Assures w₀ (xs.foldlM f b) I := by
  induction xs generalizing b w₀ with
  | nil => exact pure fun w h₀ _ => hlasts w₀ w b h₀ hb
  | cons a rest ih =>
    rw [List.foldlM_cons]
    refine (h w₀ b a List.mem_cons_self (.refl w₀) hb).bind fun w c h₀ hc => ?_
    exact ih hc fun w' d e he h₁ hd => h w' d e (List.mem_cons_of_mem _ he) (h₀.trans h₁) hd

/-! ### The state -/

/-- First look at the table. -/
theorem bind_look {g : SymbolTable → α} {f : α → Analysis β}
    (hf : ∀ w, w₀.Leads w → w.Sound → Assures w (f (g w.table)) Q) :
    Assures w₀ (Analysis.look g >>= f) Q := fun w h₀ hw => hf w h₀ hw w (.refl w) hw

/-- First read the state. -/
theorem bind_get {f : State → Analysis β}
    (hf : ∀ w, w₀.Leads w → w.Sound → Assures w (f w.state) Q) :
    Assures w₀ (MonadState.get >>= f) Q := fun w h₀ hw => hf w h₀ hw w (.refl w) hw

/-- First read the state, of which a new one is put together. -/
theorem of_state {f : State → Analysis β}
    (hf : ∀ w, w₀.Leads w → w.Sound → w.Ends Q (f w.state w.state)) :
    Assures w₀ (MonadState.get >>= f) Q := fun w h₀ hw => hf w h₀ hw

/-- A step that only reads. -/
theorem read {h : State → α} (hh : ∀ w, w₀.Leads w → w.Sound → P w (h w.state)) :
    Assures w₀ (fun s => .ok (h s) s : Analysis α) P :=
  fun w h₀ hw => ⟨w, rfl, .refl w, hw, hh w h₀ hw⟩

/-- A change that gives something. -/
theorem modifyGet {h : State → α × State} (hh : ∀ w, w₀.Leads w → w.Sound → ∃ w' : World,
      w'.state = (h w.state).2 ∧ w.Change w' ∧ P w' (h w.state).1) :
    Assures w₀ (MonadStateOf.modifyGet h : Analysis α) P := by
  intro w h₀ hw
  obtain ⟨w', hstate, hchange, hP⟩ := hh w h₀ hw
  show w.Ends P (.ok (h w.state).1 (h w.state).2)
  exact hstate ▸ hchange.ends hw hP

/-- Something that must be in the table, and is. -/
theorem bind_expect {g : SymbolTable → Option α} {what : String} {f : α → Analysis β}
    (hg : ∀ w, w₀.Leads w → w.Sound → ∃ a, g w.table = some a)
    (hf : ∀ w a, w₀.Leads w → w.Sound → g w.table = some a → Assures w (f a) Q) :
    Assures w₀ (Analysis.look g >>= fun o => Analysis.expect what o >>= f) Q := by
  refine bind_look fun w h₀ hw => ?_
  obtain ⟨a, ha⟩ := hg w h₀ hw
  rw [ha]
  exact hf w a h₀ hw ha

end Assures

namespace Safe

variable {α β γ : Type} {w₀ w₁ : World} {x : Analysis α} {f : α → Analysis β}

theorem rebase (hx : Safe w₀ x) (h : w₀.Leads w₁) : Safe w₁ x := Assures.rebase hx h

@[grind ←] theorem pure {a : α} : Safe w₀ (Pure.pure a : Analysis α) := Assures.pure fun _ _ _ => trivial

@[grind ←] theorem throw {e : Diagnostic} (he : e.cause.isInternal = false) :
    Safe w₀ (MonadExcept.throw e : Analysis α) := Assures.throw he

@[grind ←] theorem bind (hx : Safe w₀ x) (hf : ∀ a, Safe w₀ (f a)) : Safe w₀ (x >>= f) :=
  Assures.after hx hf

@[grind ←] theorem map {h : α → β} (hx : Safe w₀ x) : Safe w₀ (h <$> x) :=
  Assures.map hx fun _ _ _ _ _ => trivial

@[grind ←] theorem discard (hx : Safe w₀ x) : Safe w₀ (discard x) := hx.map

@[grind ←] theorem tryCatch {h : Diagnostic → Analysis α} (hx : Safe w₀ x)
    (hh : ∀ e, e.cause.isInternal = false → Safe w₀ (h e)) : Safe w₀ (MonadExcept.tryCatch x h) :=
  Assures.tryCatch hx hh

/-- First do something under a condition. -/
theorem guard {c : Prop} [Decidable c] {x : Analysis PUnit} {f : PUnit → Analysis β}
    (hx : Safe w₀ x) (hf : Safe w₀ (f ⟨⟩)) : Safe w₀ (if c then x >>= f else f ⟨⟩) := by
  split
  · exact hx.bind fun _ => hf
  · exact hf

/-! ### Lists -/

@[grind ←] theorem forM {xs : List γ} {f : γ → Analysis PUnit} (h : ∀ a ∈ xs, Safe w₀ (f a)) :
    Safe w₀ (xs.forM f) := by
  induction xs with
  | nil => exact pure
  | cons a rest ih =>
    refine (h a List.mem_cons_self).bind fun _ => ih fun b hb => ?_
    exact h b (List.mem_cons_of_mem _ hb)

@[grind ←] theorem mapM {xs : List γ} {f : γ → Analysis β} (h : ∀ a ∈ xs, Safe w₀ (f a)) :
    Safe w₀ (xs.mapM f) := by
  induction xs with
  | nil => exact pure
  | cons a rest ih =>
    rw [List.mapM_cons]
    refine (h a List.mem_cons_self).bind fun b => ?_
    exact (ih fun c hc => h c (List.mem_cons_of_mem _ hc)).bind fun _ => pure

@[grind ←] theorem foldlM {xs : List γ} {f : β → γ → Analysis β} {b : β}
    (h : ∀ b, ∀ a ∈ xs, Safe w₀ (f b a)) : Safe w₀ (xs.foldlM f b) := by
  refine Assures.foldlM (fun _ _ _ _ => id) trivial fun w b a ha h₀ _ => ?_
  exact (h b a ha).rebase h₀

@[grind ←] theorem filterMapM {xs : List γ} {f : γ → Analysis (Option β)}
    (h : ∀ a ∈ xs, Safe w₀ (f a)) : Safe w₀ (xs.filterMapM f) := by
  have hloop : ∀ (ys : List γ) (acc : List β), (∀ a ∈ ys, Safe w₀ (f a)) →
      Safe w₀ (List.filterMapM.loop f ys acc) := by
    intro ys
    induction ys with
    | nil => exact fun acc _ => pure
    | cons a rest ih =>
      intro acc hys
      unfold List.filterMapM.loop
      refine (hys a List.mem_cons_self).bind fun o => ?_
      have hrest : ∀ b ∈ rest, Safe w₀ (f b) := fun b hb => hys b (List.mem_cons_of_mem _ hb)
      cases o with
      | none => exact ih acc hrest
      | some b => exact ih (b :: acc) hrest
  exact hloop xs [] h

@[grind ←] theorem optionMapM {o : Option γ} {f : γ → Analysis β} (h : ∀ a, o = some a → Safe w₀ (f a)) :
    Safe w₀ (o.mapM f) := by
  cases o with
  | none => exact pure
  | some a => exact (h a rfl).map

/-! ### The state -/

@[grind ←] theorem get : Safe w₀ (MonadState.get : Analysis State) := Assures.read fun _ _ _ => trivial

theorem read {h : State → α} : Safe w₀ (fun s => .ok (h s) s : Analysis α) :=
  Assures.read fun _ _ _ => trivial

/-- First look at the table. -/
theorem bind_look {g : SymbolTable → α} {f : α → Analysis β}
    (hf : ∀ w, w₀.Leads w → w.Sound → Safe w (f (g w.table))) : Safe w₀ (Analysis.look g >>= f) :=
  Assures.bind_look hf

/-- First read the state. -/
theorem bind_get {f : State → Analysis β} (hf : ∀ w, w₀.Leads w → w.Sound → Safe w (f w.state)) :
    Safe w₀ (MonadState.get >>= f) := Assures.bind_get hf

/-- Something that must be in the table, and is. -/
theorem bind_expect {g : SymbolTable → Option α} {what : String} {f : α → Analysis β}
    (hg : ∀ w, w₀.Leads w → w.Sound → ∃ a, g w.table = some a)
    (hf : ∀ w a, w₀.Leads w → w.Sound → g w.table = some a → Safe w (f a)) :
    Safe w₀ (Analysis.look g >>= fun o => Analysis.expect what o >>= f) := Assures.bind_expect hg hf

/-- The value of an option that has one. -/
theorem bind_some {o : Option α} {a : α} {what : String} {f : α → Analysis β} (h : o = some a)
    (hf : Safe w₀ (f a)) : Safe w₀ (Analysis.expect what o >>= f) := by
  subst h
  exact hf

/-- The function of an item that is one. -/
theorem bind_function {i : ItemId} {what : String} {f : Function → Analysis β}
    (hi : w₀.HasKind i .fn) (hf : ∀ function, Safe w₀ (f function)) :
    Safe w₀ (Analysis.look (·.function? i) >>= fun o => Analysis.expect what o >>= f) :=
  bind_expect (fun _ h₀ _ => SymbolTable.exists_function?_of_kind? (h₀.hasKind hi))
    fun _ a h₀ _ _ => (hf a).rebase h₀

/-- The class of an item that is one. -/
theorem bind_class {i : ItemId} {what : String} {f : Class → Analysis β}
    (hi : w₀.HasKind i .cls) (hf : ∀ cls, Safe w₀ (f cls)) :
    Safe w₀ (Analysis.look (·.class? i) >>= fun o => Analysis.expect what o >>= f) :=
  bind_expect (fun _ h₀ _ => SymbolTable.exists_class?_of_kind? (h₀.hasKind hi))
    fun _ a h₀ _ _ => (hf a).rebase h₀

/-- The module of a frame. -/
theorem bind_module {m : ModuleId} {what : String} {f : Module → Analysis β}
    (hm : w₀.HasModule m) (hf : ∀ module, Safe w₀ (f module)) :
    Safe w₀ (Analysis.look (·.module? m) >>= fun o => Analysis.expect what o >>= f) :=
  bind_expect (fun _ h₀ _ => ⟨_, Array.getElem?_eq_getElem (h₀.hasModule hm)⟩)
    fun _ a h₀ _ _ => (hf a).rebase h₀

/-- First a step whose result counts. -/
theorem bind_assures {P : World → α → Prop} (hx : Assures w₀ x P)
    (hf : ∀ w a, w₀.Leads w → P w a → Safe w (f a)) : Safe w₀ (x >>= f) := Assures.bind hx hf

/-- A change of the state, when the world is in order. -/
theorem alter_from {g : State → State}
    (hg : ∀ w : World, w₀.Leads w → w.Sound → w.Change (w.on (g w.state))) :
    Safe w₀ (modify g : Analysis PUnit) :=
  Assures.modifyGet fun w h₀ hw => ⟨w.on (g w.state), rfl, hg w h₀ hw, trivial⟩

/-- A change of the state. -/
theorem alter {g : State → State} (hg : ∀ w : World, w.Change (w.on (g w.state))) :
    Safe w₀ (modify g : Analysis PUnit) := alter_from fun w _ _ => hg w

end Safe

/-! ## Small steps -/

namespace Analysis

variable {α : Type} {w₀ : World} {frame : Frame} {node : Node} {i : ItemId}

@[grind ←] theorem fail_safe {p : Position} {c : Cause} (h : c.isInternal = false) :
    Safe w₀ (fail p c : Analysis α) := .throw h

@[grind ←] theorem failOther_safe {p : Position} {m : String} :
    Safe w₀ (failOther p m : Analysis α) := .throw rfl

@[grind ←] theorem misplaced_safe {c r : String} {p : Position} :
    Safe w₀ (misplaced c r p : Analysis α) := .throw rfl

@[grind ←] theorem look_safe {f : SymbolTable → α} : Safe w₀ (look f) := .read

@[grind ←] theorem typeText_safe {ty : Ty} : Safe w₀ (typeText ty) := .read

@[grind ←] theorem itemName_safe : Safe w₀ (itemName i) := .read

@[grind ←] theorem conversion_safe {src dst : Ty} : Safe w₀ (conversion src dst) := .read

@[grind ←] theorem detail?_safe : Safe w₀ (detail? frame node) := .read

@[grind ←] theorem declared?_safe : Safe w₀ (declared? frame node) := .read

@[grind ←] theorem classSource?_safe : Safe w₀ (classSource? i) := .read

@[grind ←] theorem template?_safe : Safe w₀ (template? i) := .read

@[grind ←] theorem change_safe {f : SymbolTable → SymbolTable}
    (h : ∀ t : SymbolTable, t.Develops (f t)) : Safe w₀ (change f) :=
  .alter fun w => .of_table (h w.table)

@[grind ←] theorem newScope_safe {parent : ScopeId} : Safe w₀ (newScope parent) :=
  Assures.modifyGet fun _ _ _ => ⟨_, rfl, .of_table .newScope, trivial⟩

/-- A new item is of the kind it was made as. -/
theorem addItem_assures {item : Item} (h : ∀ j, item.entity = .aliasOf j → w₀.HasItem j) :
    Assures w₀ (addItem item) fun w i => w.HasKind i item.entity.kind := by
  refine .modifyGet fun w h₀ _ => ⟨_, rfl, .of_table (.addItem fun j hj => ?_), ?_⟩
  · exact h₀.hasItem (h j hj)
  · exact SymbolTable.Develops.kind?_addItem w.table item

@[grind ←] theorem addItem_safe {item : Item} (h : ∀ j, item.entity = .aliasOf j → w₀.HasItem j) :
    Safe w₀ (addItem item) := (addItem_assures h).safe

theorem setOwner_safe {s : ScopeId} {owner : ScopeOwner}
    (h : ∀ w, w₀.Leads w → w.table.Suits owner) : Safe w₀ (setOwner s owner) :=
  .alter_from fun w h₀ _ => .of_table (.setOwner (h w h₀))

@[grind ←] theorem setFunction_safe {s : ScopeId} (h : w₀.HasKind i .fn) :
    Safe w₀ (setOwner s (.fn i)) := setOwner_safe fun _ h₀ => h₀.hasKind h

@[grind ←] theorem setClass_safe {s : ScopeId} (h : w₀.HasKind i .cls) :
    Safe w₀ (setOwner s (.cls i)) := setOwner_safe fun _ h₀ => h₀.hasKind h

@[grind ←] theorem setSpace_safe {s : ScopeId} : Safe w₀ (setOwner s (.space i)) :=
  setOwner_safe fun _ _ => trivial

@[grind ←] theorem record_safe {d : Detail} : Safe w₀ (record frame node d) := by
  unfold record
  refine Assures.of_state fun w _ hw => ?_
  cases hinsert : w.state.details.insert ⟨frame.id, node.id⟩ d node.position with
  | ok details =>
    have hchange : w.Change (w.on { w.state with details }) := { World.Change.refl w with }
    exact hchange.ends hw trivial
  | error e =>
    unfold DetailTable.insert at hinsert
    split at hinsert
    · cases hinsert
      exact ⟨⟨w, rfl, .refl w, hw⟩, rfl⟩
    · cases hinsert

@[grind ←] theorem narrow_safe {ty : Ty} : Safe w₀ (narrow frame node i ty) :=
  .alter fun w => { World.Change.refl w with }

@[grind ←] theorem castImplicitly_safe {cast : ImplicitCast} :
    Safe w₀ (castImplicitly frame node cast) := .alter fun w => { World.Change.refl w with }

@[grind ←] theorem setStage_safe {stage : Stage} : Safe w₀ (setStage i stage) :=
  .alter fun w =>
    { World.Change.refl w with
      classes := fun e he => by
        obtain ⟨⟨cls, source⟩, hold, heq⟩ := List.mem_map.1 he
        refine .inl ⟨source, ?_⟩
        dsimp only at heq
        split at heq <;> cases heq <;> exact ⟨hold, rfl, rfl⟩ }

/-- A node of the tree that is no function is given an item. -/
@[grind ←] theorem recordOther_safe (h : w₀.Hosts frame [node.ofOther]) :
    Safe w₀ (recordDeclared frame node i) :=
  .alter_from fun w h₀ _ =>
    { World.Change.refl w with
      declared := fun e he => by
        rcases List.mem_cons.1 he with rfl | hold
        · exact .inr (h₀.hosts h).files_other
        · exact .inl hold }

/-- The node of a function is given a function. -/
@[grind ←] theorem recordFunction_safe (h : w₀.Hosts frame [node.ofFunction])
    (hi : w₀.HasKind i .fn) : Safe w₀ (recordDeclared frame node i) :=
  .alter_from fun w h₀ _ =>
    { World.Change.refl w with
      declared := fun e he => by
        rcases List.mem_cons.1 he with rfl | hold
        · exact .inr ((h₀.hosts h).files (h₀.hasKind hi))
        · exact .inl hold }

/-- Code that may be given frames is kept with a template. -/
theorem keepTemplate_safe {t : Template} (h : w₀.HoldsTemplate t) :
    Safe w₀ (modify fun s => { s with templates := (i, t) :: s.templates } : Analysis PUnit) :=
  .alter_from fun w h₀ _ =>
    { World.Change.refl w with
      templates := fun e he => by
        rcases List.mem_cons.1 he with rfl | hold
        · exact .inr (h₀.holdsTemplate h)
        · exact .inl hold }

/-- What is filed under the node of a function is a function. -/
theorem declared?_assures (h : w₀.Hosts frame [node.ofFunction]) :
    Assures w₀ (declared? frame node) fun w o => ∀ i, o = some i → w.HasKind i .fn := by
  refine .read fun w h₀ hw i hi => ?_
  have hrole := (h₀.hosts h).agrees _ List.mem_cons_self
  exact (hw.declared _ (mem_of_lookup hi)).isFunction hrole

theorem classSource?_assures :
    Assures w₀ (classSource? i) fun w o => ∀ source, o = some source → w.HoldsClass i source :=
  .read fun _ _ hw _ hsource => hw.classes _ (mem_of_lookup hsource)

theorem template?_assures :
    Assures w₀ (template? i) fun w o => ∀ t, o = some t → w.HoldsTemplate t :=
  .read fun _ _ hw _ ht => hw.templates _ (mem_of_lookup ht)

/-- A new frame hosts a tree whose nodes are distinct. -/
theorem openFrame_assures {m : ModuleId} {ds : List Declaring} (hm : w₀.HasModule m)
    (hds : w₀.Admits ds) : Assures w₀ (openFrame m) fun w frame => frame.module = m ∧ w.Hosts frame ds :=
  .modifyGet fun w h₀ _ =>
    ⟨w.opening ds, rfl, w.change_opening ds, rfl,
      World.hosts_opening (h₀.hasModule hm) (h₀.admits hds)⟩

/-- A new node may be given the role that it is made for. -/
theorem freshNode_assures {p : Position} (isFunction : Bool) :
    Assures w₀ (freshNode p) fun w n => w.Made [⟨n.id, isFunction⟩] :=
  .modifyGet fun w _ _ => ⟨w.making isFunction, rfl, w.change_making isFunction, w.made_making isFunction⟩

@[grind ←] theorem freshNode_safe {p : Position} : Safe w₀ (freshNode p) :=
  (freshNode_assures false).safe

/-! ### Errors -/

@[grind ←] theorem recover_safe {x : Analysis α} (hx : Safe w₀ x) : Safe w₀ (recover x) := by
  unfold recover
  refine .tryCatch hx.map fun e he => .bind .get fun s => ?_
  split
  · refine .bind (.alter fun w => { World.Change.refl w with errors := fun d hd => ?_ }) fun _ => .pure
    rcases List.mem_append.1 hd with hold | hnew
    · exact .inl hold
    · exact .inr (List.mem_singleton.1 hnew ▸ he)
  · exact .throw he

@[grind ←] theorem giveUp_safe {e : Diagnostic} (he : e.cause.isInternal = false) :
    Safe w₀ (giveUp e) := by
  refine .alter fun w => { World.Change.refl w with dropped := fun d hd => ?_ }
  rcases List.mem_append.1 hd with hold | hnew
  · exact .inl hold
  · exact .inr (List.mem_singleton.1 hnew ▸ he)

@[grind ←] theorem andFinally_safe {x : Analysis α} {last : Analysis Unit} (hx : Safe w₀ x)
    (hlast : Safe w₀ last) : Safe w₀ (andFinally x last) := by
  unfold andFinally
  refine .bind (.tryCatch hx fun e he => ?_) fun a => ?_
  · exact hlast.bind fun _ => .throw he
  · exact hlast.bind fun _ => .pure

end Analysis

/-! ## Demands -/

/-- What has to hold where a demand is made. -/
def Demand.Suits (w : World) : {α : Type} → Demand α → Prop
  | _, .expr frame e _ _ => w.Hosts frame e.decls
  | _, .stmt frame s _ => w.Hosts frame s.decls
  | _, .functionBody frame decl item => w.Awaits ⟨frame, decl, item⟩
  | _, .pass _ frame statements _ => w.Hosts frame (Stmt.rowDecls statements)
  | _, _ => True

/-- What holds of the answer. -/
def Demand.Yields (w : World) : {α : Type} → Demand α → α → Prop
  | _, .module .., m => w.HasModule m
  | _, _, _ => True

/-- The analyst answers demands safely, and modules it gives are there. -/
def Analyst.Reliable (an : Analyst) : Prop :=
  ∀ {α : Type} (d : Demand α) (w₀ : World), d.Suits w₀ → Assures w₀ (an.ask d) fun w a => d.Yields w a

section

variable {an : Analyst} (han : an.Reliable) {w₀ : World} {frame : Frame} {scope : ScopeId}

include han

@[grind ←] theorem type_safe {t : TypeExpr} : Safe w₀ (an.type frame t scope) :=
  (han (.type frame t scope) w₀ trivial).safe

@[grind ←] theorem expr_safe {e : Expr} (h : w₀.Hosts frame e.decls) :
    Safe w₀ (an.expr frame e scope) := (han (.expr frame e scope .read) w₀ h).safe

@[grind ←] theorem accessed_safe {e : Expr} {access : Access} (h : w₀.Hosts frame e.decls) :
    Safe w₀ (an.ask (.expr frame e scope access)) := (han (.expr frame e scope access) w₀ h).safe

@[grind ←] theorem stmt_safe {s : Stmt} (h : w₀.Hosts frame s.decls) :
    Safe w₀ (an.stmt frame s scope) := (han (.stmt frame s scope) w₀ h).safe

@[grind ←] theorem stmts_safe {ss : List Stmt} (h : w₀.Hosts frame (Stmt.rowDecls ss)) :
    Safe w₀ (an.stmts frame ss scope) :=
  .forM fun _ hs => stmt_safe han (h.subset (Stmt.decls_subset_of_mem hs))

@[grind ←] theorem signatures_safe {cls : ItemId} : Safe w₀ (an.ask (.signatures cls)) :=
  (han (.signatures cls) w₀ trivial).safe

@[grind ←] theorem synthesis_safe {cls : ItemId} : Safe w₀ (an.ask (.synthesis cls)) :=
  (han (.synthesis cls) w₀ trivial).safe

@[grind ←] theorem classBodies_safe {cls : ItemId} : Safe w₀ (an.ask (.classBodies cls)) :=
  (han (.classBodies cls) w₀ trivial).safe

@[grind ←] theorem functionBody_safe {decl : FunctionDef} {item : ItemId}
    (h : w₀.Hosts frame (Stmt.functionDecls decl)) (hitem : w₀.HasKind item .fn) :
    Safe w₀ (an.ask (.functionBody frame decl item)) :=
  (han (.functionBody frame decl item) w₀ ⟨hitem, h⟩).safe

@[grind ←] theorem pass_safe {p : Pass} {row : List Stmt} (h : w₀.Hosts frame (Stmt.rowDecls row)) :
    Safe w₀ (an.ask (.pass p frame row scope)) := (han (.pass p frame row scope) w₀ h).safe

theorem module_assures {path : Path} {request : String} {position : Position} :
    Assures w₀ (an.ask (.module path request position)) fun w m => w.HasModule m :=
  han (.module path request position) w₀ trivial

@[grind ←] theorem pending_safe : Safe w₀ (an.ask .pending) := (han .pending w₀ trivial).safe

end

end SemanticAnalysis
