import SemanticAnalysis.Proofs.Course.Rules
import SemanticAnalysis.Proofs.Permit.Changes

/-!
# Steps that pay for what they do

`Affords cost x change` says that the step `x` keeps the accounts, begun by somebody who holds `cost`, and
leaves `change`. Whatever else is held, by those who wait for the step, is held still afterwards: that is
what makes steps that were looked at one by one fit together (`Affords.bind`). A step that stops with an
error leaves nothing, and the error is never a repeated detail.

Most steps of an analysis leave nothing (`Spends`), and most of those take nothing either (`Quiet`).
-/

namespace SemanticAnalysis

/-- How a step ends that was begun in `s`, with `held` in other hands. -/
def Leaves {α : Type} (s : State) (change : α → State → Holding) (held : Holding) :
    EStateM.Result Diagnostic State α → Prop
  | .ok a s' => s'.Accounts (change a s' + held) ∧ s.Continues s'
  | .error e s' => s'.Accounts held ∧ s.Continues s' ∧ e.cause ≠ .alreadyDetailed

/-- The step turns what it takes into what it leaves. -/
def Affords {α : Type} (cost : State → Holding) (x : Analysis α) (change : α → State → Holding) : Prop :=
  ∀ s held, s.Accounts (cost s + held) → Leaves s change held (x s)

/-- The step takes what it is given. -/
def Spends {α : Type} (cost : Holding) (x : Analysis α) : Prop :=
  Affords (fun _ => cost) x fun _ _ => 0

/-- The step takes nothing. -/
def Quiet {α : Type} (x : Analysis α) : Prop := Spends 0 x

section General

variable {α β : Type} {x : Analysis α} {f : α → Analysis β} {s s' s'' : State}
variable {cost cost' : State → Holding} {change change' : α → State → Holding}
variable {final : β → State → Holding} {more held : Holding}

theorem Leaves.after {r : EStateM.Result Diagnostic State α} (h : s.Continues s')
    (hr : Leaves s' change held r) : Leaves s change held r := by
  cases r with
  | ok a s'' => exact ⟨hr.1, h.trans hr.2⟩
  | error e s'' => exact ⟨hr.1, h.trans hr.2.1, hr.2.2⟩

/-- First one step, then another, which may rely on what came about in between. What it takes besides
what the first step leaves is in other hands meanwhile. -/
theorem Leaves.bind {out : Holding} (hx : Leaves s change out (x s)) (hle : held ≤ out)
    (hf : ∀ a s', x s = .ok a s' → s.Continues s' → s'.Accounts (change a s' + out) →
      Leaves s' final held (f a s')) : Leaves s final held ((x >>= f) s) := by
  cases hxs : x s with
  | error e s' =>
    rw [Analysis.bind_error hxs]
    rw [hxs] at hx
    exact ⟨hx.1.of_le hle, hx.2⟩
  | ok a s' =>
    rw [Analysis.bind_ok hxs]
    rw [hxs] at hx
    exact (hf a s' hxs hx.2 hx.1).after hx.2

namespace Affords

theorem bind (hx : Affords cost x change)
    (hf : ∀ a, Affords (fun s => change a s + more) (f a) final) :
    Affords (fun s => cost s + more) (x >>= f) final := by
  intro s held hs
  refine (hx s (more + held) ((add_assoc (cost s) more held) ▸ hs)).bind ?_ fun a s' _ _ hs' => ?_
  · exact fun _ => Nat.le_add_left _ _
  · exact hf a s' held ((add_assoc (change a s') more held).symm ▸ hs')

/-- More may be given, and less used of what is left. -/
theorem imp (hx : Affords cost x change) (hcost : ∀ s, cost s ≤ cost' s)
    (hchange : ∀ a s, change' a s ≤ change a s) : Affords cost' x change' := by
  intro s held hs
  have hrun := hx s held (hs.of_le (add_le_add (hcost s) (le_refl _)))
  cases hxs : x s with
  | ok a s' =>
    rw [hxs] at hrun
    exact ⟨hrun.1.of_le (add_le_add (hchange a s') (le_refl _)), hrun.2⟩
  | error e s' =>
    rw [hxs] at hrun
    exact hrun

end Affords

theorem Leaves.map {h : α → β} (hx : Leaves s (fun _ _ => 0) held (x s)) :
    Leaves s (fun _ _ => 0) held ((h <$> x) s) := by
  show Leaves s _ held (EStateM.map h x s)
  unfold EStateM.map
  cases hxs : x s <;> rw [hxs] at hx <;> exact hx

/-- An error that somebody takes care of. -/
theorem Leaves.tryCatch {h : Diagnostic → Analysis α} (hx : Leaves s (fun _ _ => 0) held (x s))
    (hh : ∀ e, e.cause ≠ .alreadyDetailed → Quiet (h e)) :
    Leaves s (fun _ _ => 0) held (MonadExcept.tryCatch x h s) := by
  show Leaves s _ held (EStateM.tryCatch x h s)
  unfold EStateM.tryCatch
  cases hxs : x s with
  | ok a s' =>
    rw [hxs] at hx
    exact hx
  | error e s' =>
    rw [hxs] at hx
    exact (hh e hx.2.2 s' held ((zero_add held).symm ▸ hx.1)).after hx.2.1

end General

/-- First a step that takes nothing. -/
theorem State.Accounts.quietly {α β : Type} {x : Analysis α} {f : α → Analysis β} {s : State}
    {final : β → State → Holding} {out held : Holding} (hs : s.Accounts out) (hx : Quiet x)
    (hle : held ≤ out)
    (hf : ∀ a s', s.Continues s' → s'.Accounts out → Leaves s' final held (f a s')) :
    Leaves s final held ((x >>= f) s) := by
  refine (hx s out ((zero_add out).symm ▸ hs)).bind hle fun a s' _ hcontinues hs' => ?_
  exact hf a s' hcontinues ((zero_add out) ▸ hs')

/-! ## Spending -/

namespace Spends

variable {α β γ : Type} {x : Analysis α} {f : α → Analysis β} {cost cost' : Holding}

/-- A step that always succeeds. -/
theorem of_run {g : State → α × State} (hx : ∀ s, x s = .ok (g s).1 (g s).2)
    (h : ∀ s held, s.Accounts (cost + held) → (g s).2.Accounts held ∧ s.Continues (g s).2) :
    Spends cost x := by
  intro s held hs
  rw [hx s]
  obtain ⟨haccounts, hcontinues⟩ := h s held hs
  exact ⟨(zero_add held).symm ▸ haccounts, hcontinues⟩

theorem of_le (hx : Spends cost x) (hle : cost ≤ cost') : Spends cost' x :=
  hx.imp (fun _ => hle) fun _ _ => le_refl _

theorem bind (hx : Spends cost x) (hf : ∀ a, Spends cost' (f a)) :
    Spends (cost + cost') (x >>= f) := by
  have hrest (a : α) : Affords (fun _ => 0 + cost') (f a) fun _ _ => 0 :=
    (hf a).imp (fun _ => le_of_eq (zero_add _).symm) fun _ _ => le_refl _
  exact Affords.bind hx hrest

/-- First something that takes nothing. -/
theorem after (hx : Quiet x) (hf : ∀ a, Spends cost (f a)) : Spends cost (x >>= f) :=
  zero_add cost ▸ bind hx hf

/-- Something that takes nothing last. -/
theorem before (hx : Spends cost x) (hf : ∀ a, Quiet (f a)) : Spends cost (x >>= f) :=
  add_zero cost ▸ bind hx hf

theorem map {h : α → β} (hx : Spends cost x) : Spends cost (h <$> x) := fun s held hs =>
  (hx s held hs).map

theorem discard (hx : Spends cost x) : Spends cost (discard x) := hx.map

theorem tryCatch {h : Diagnostic → Analysis α} (hx : Spends cost x)
    (hh : ∀ e, e.cause ≠ .alreadyDetailed → Quiet (h e)) :
    Spends cost (MonadExcept.tryCatch x h) := fun s held hs => (hx s held hs).tryCatch hh

/-- First do something under a condition. -/
theorem guard {c : Prop} [Decidable c] {x : Analysis PUnit} {f : PUnit → Analysis β}
    (hx : Quiet x) (hf : Spends cost (f ⟨⟩)) : Spends cost (if c then x >>= f else f ⟨⟩) := by
  split
  · exact after hx fun _ => hf
  · exact hf

theorem pure {a : α} : Spends cost (Pure.pure a) := fun s held hs =>
  ⟨(zero_add held).symm ▸ hs.rest, .refl s⟩

theorem throw {e : Diagnostic} (he : e.cause ≠ .alreadyDetailed) :
    Spends cost (MonadExcept.throw e : Analysis α) := fun s _ hs => ⟨hs.rest, .refl s, he⟩

/-! ### Lists -/

variable {xs : List γ} {costs : γ → Holding}

theorem forM {f : γ → Analysis PUnit} (h : ∀ a ∈ xs, Spends (costs a) (f a)) :
    Spends (xs.map costs).sum (xs.forM f) := by
  induction xs with
  | nil => exact pure
  | cons a rest ih =>
    rw [List.map_cons, List.sum_cons]
    exact (h a List.mem_cons_self).bind fun _ => ih fun b hb => h b (List.mem_cons_of_mem _ hb)

theorem mapM {f : γ → Analysis β} (h : ∀ a ∈ xs, Spends (costs a) (f a)) :
    Spends (xs.map costs).sum (xs.mapM f) := by
  induction xs with
  | nil => exact pure
  | cons a rest ih =>
    rw [List.mapM_cons, List.map_cons, List.sum_cons]
    refine (h a List.mem_cons_self).bind fun b => ?_
    exact (ih fun c hc => h c (List.mem_cons_of_mem _ hc)).before fun _ => pure

theorem foldlM {f : β → γ → Analysis β} {b : β} (h : ∀ b, ∀ a ∈ xs, Spends (costs a) (f b a)) :
    Spends (xs.map costs).sum (xs.foldlM f b) := by
  induction xs generalizing b with
  | nil => exact pure
  | cons a rest ih =>
    rw [List.foldlM_cons, List.map_cons, List.sum_cons]
    refine (h b a List.mem_cons_self).bind fun c => ih fun d e he => ?_
    exact h d e (List.mem_cons_of_mem _ he)

theorem filterMapM {f : γ → Analysis (Option β)} (h : ∀ a ∈ xs, Spends (costs a) (f a)) :
    Spends (xs.map costs).sum (xs.filterMapM f) := by
  have hloop : ∀ (ys : List γ) (acc : List β), (∀ a ∈ ys, Spends (costs a) (f a)) →
      Spends (ys.map costs).sum (List.filterMapM.loop f ys acc) := by
    intro ys
    induction ys with
    | nil => exact fun acc _ => pure
    | cons a rest ih =>
      intro acc hys
      unfold List.filterMapM.loop
      rw [List.map_cons, List.sum_cons]
      refine (hys a List.mem_cons_self).bind fun o => ?_
      have hrest : ∀ b ∈ rest, Spends (costs b) (f b) := fun b hb => hys b (List.mem_cons_of_mem _ hb)
      cases o with
      | none => exact ih acc hrest
      | some b => exact ih (b :: acc) hrest
  exact hloop xs [] h

end Spends

/-! ## Steps that rely on something -/

/-- Something that stays true as an analysis goes on. -/
structure Lasting where
  holds : State → Prop
  lasts : ∀ {s s' : State}, s.Continues s' → holds s → holds s'

/-- A class is there. -/
def Lasting.hasClass (cls : ItemId) (source : ClassSource) : Lasting where
  holds s := s.HasClass cls source
  lasts h hcls := h.hasClass hcls

/-- An item is there, and is no class of another declaration. -/
def Lasting.fits (item : ItemId) (k : DetailKey) : Lasting where
  holds s := item.index < s.table.items.size ∧
    ∀ known, s.classes.lookup item = some known → known.key = k
  lasts {s s'} h := by
    rintro ⟨hlt, hkey⟩
    refine ⟨Nat.lt_of_lt_of_le hlt h.size_le, fun known' hknown' => ?_⟩
    cases hknown : s.classes.lookup item with
    | none => cases (h.unmade item hlt hknown).symm.trans hknown'
    | some known =>
      have hcls : s.HasClass item known := ⟨hlt, known, hknown, rfl, rfl⟩
      exact ((h.hasClass hcls).key_eq hknown').trans (hkey known hknown)

/-- The step takes what it is given, as long as something is true. -/
def SpendsWhile {α : Type} (P : Lasting) (cost : Holding) (x : Analysis α) : Prop :=
  ∀ s held, P.holds s → s.Accounts (cost + held) → Leaves s (fun _ _ => 0) held (x s)

namespace SpendsWhile

variable {α β : Type} {x : Analysis α} {f : α → Analysis β} {cost cost' : Holding} {P : Lasting}

theorem of_spends (hx : Spends cost x) : SpendsWhile P cost x := fun s held _ hs => hx s held hs

theorem bind (hx : SpendsWhile P cost x) (hf : ∀ a, SpendsWhile P cost' (f a)) :
    SpendsWhile P (cost + cost') (x >>= f) := by
  intro s held hP hs
  refine (hx s (cost' + held) hP ((add_assoc cost cost' held) ▸ hs)).bind ?_ fun a s' _ hc hs' => ?_
  · exact fun _ => Nat.le_add_left _ _
  · exact hf a s' held (P.lasts hc hP) ((zero_add (cost' + held)) ▸ hs')

theorem after (hx : Quiet x) (hf : ∀ a, SpendsWhile P cost (f a)) :
    SpendsWhile P cost (x >>= f) := zero_add cost ▸ bind (of_spends hx) hf

theorem before (hx : SpendsWhile P cost x) (hf : ∀ a, Quiet (f a)) :
    SpendsWhile P cost (x >>= f) := add_zero cost ▸ bind hx fun a => of_spends (hf a)

/-- First do something under a condition. -/
theorem guard {c : Prop} [Decidable c] {x : Analysis PUnit} {f : PUnit → Analysis β}
    (hx : Quiet x) (hf : SpendsWhile P cost (f ⟨⟩)) :
    SpendsWhile P cost (if c then x >>= f else f ⟨⟩) := by
  split
  · exact after hx fun _ => hf
  · exact hf

end SpendsWhile

namespace Quiet

variable {α β γ : Type} {x : Analysis α} {f : α → Analysis β}

/-- A step that always succeeds, with a steady change. -/
theorem of_run {g : State → α × State} (hx : ∀ s, x s = .ok (g s).1 (g s).2)
    (h : ∀ s : State, s.Steady (g s).2) : Quiet x :=
  Spends.of_run hx fun s held hs => ⟨(h s).accounts ((zero_add held) ▸ hs), (h s).continues⟩

@[grind ←] theorem pure {a : α} : Quiet (Pure.pure a) := Spends.pure

@[grind ←] theorem throw {e : Diagnostic} (he : e.cause ≠ .alreadyDetailed) :
    Quiet (MonadExcept.throw e : Analysis α) := Spends.throw he

@[grind ←] theorem bind (hx : Quiet x) (hf : ∀ a, Quiet (f a)) : Quiet (x >>= f) :=
  Spends.after hx hf

@[grind ←] theorem map {h : α → β} (hx : Quiet x) : Quiet (h <$> x) := Spends.map hx

@[grind ←] theorem discard (hx : Quiet x) : Quiet (discard x) := hx.map

theorem tryCatch {h : Diagnostic → Analysis α} (hx : Quiet x)
    (hh : ∀ e, e.cause ≠ .alreadyDetailed → Quiet (h e)) : Quiet (MonadExcept.tryCatch x h) :=
  Spends.tryCatch hx hh

/-- First do something under a condition. -/
theorem guard {c : Prop} [Decidable c] {x : Analysis PUnit} {f : PUnit → Analysis β}
    (hx : Quiet x) (hf : Quiet (f ⟨⟩)) : Quiet (if c then x >>= f else f ⟨⟩) := Spends.guard hx hf

@[grind ←] theorem get : Quiet (MonadState.get : Analysis State) :=
  of_run (g := fun s => (s, s)) (fun _ => rfl) fun s => .refl s

/-- A steady change. -/
theorem alter {f : State → State} (hf : ∀ s : State, s.Steady (f s)) : Quiet (modify f : Analysis PUnit) :=
  of_run (g := fun s => (⟨⟩, f s)) (fun _ => rfl) hf

/-- A steady change that gives something. -/
theorem modifyGet {h : State → α × State} (hh : ∀ s : State, s.Steady (h s).2) :
    Quiet (MonadStateOf.modifyGet h : Analysis α) := of_run (fun _ => rfl) hh

/-! ### Lists -/

section Lists

variable {xs : List γ}

/-- A row of steps that take nothing takes nothing. -/
theorem of_row (hx : Spends (xs.map fun _ => (0 : Holding)).sum x) : Quiet x := by
  have hsum : (xs.map fun _ => (0 : Holding)).sum = 0 := by simp
  rwa [hsum] at hx

@[grind ←] theorem forM {f : γ → Analysis PUnit} (h : ∀ a, Quiet (f a)) : Quiet (xs.forM f) :=
  of_row (Spends.forM fun a _ => h a)

@[grind ←] theorem mapM {f : γ → Analysis β} (h : ∀ a, Quiet (f a)) : Quiet (xs.mapM f) :=
  of_row (Spends.mapM fun a _ => h a)

@[grind ←] theorem foldlM {f : β → γ → Analysis β} {b : β} (h : ∀ b a, Quiet (f b a)) :
    Quiet (xs.foldlM f b) := of_row (Spends.foldlM fun b a _ => h b a)

@[grind ←] theorem filterMapM {f : γ → Analysis (Option β)} (h : ∀ a, Quiet (f a)) :
    Quiet (xs.filterMapM f) := of_row (Spends.filterMapM fun a _ => h a)

@[grind ←] theorem optionMapM {o : Option γ} {f : γ → Analysis β} (h : ∀ a, Quiet (f a)) :
    Quiet (o.mapM f) := by
  cases o with
  | none => exact pure
  | some a => exact (h a).map

end Lists

end Quiet

/-! ## Steps that give something certain -/

/-- The step takes nothing, and gives only what has the property. -/
structure Promises {α : Type} (P : α → Prop) (x : Analysis α) : Prop where
  quiet : Quiet x
  gives : ∀ s held a s', s.Accounts held → x s = .ok a s' → P a

namespace Promises

variable {α β γ : Type} {x : Analysis α} {f : α → Analysis β} {P : α → Prop} {Q : β → Prop}

theorem pure {a : α} (h : P a) : Promises P (Pure.pure a) where
  quiet := .pure
  gives := by
    rintro s held b s' - ⟨⟩
    exact h

theorem of_quiet (hx : Quiet x) : Promises (fun _ => True) x := ⟨hx, fun _ _ _ _ _ _ => trivial⟩

theorem bind_quiet (hx : Promises P x) (hf : ∀ a, P a → Quiet (f a)) : Quiet (x >>= f) := by
  intro s held hs
  refine (hx.quiet s held hs).bind (le_refl _) fun a s' hrun _ hs' => ?_
  exact hf a (hx.gives s _ a s' hs hrun) s' held hs'

theorem bind (hx : Promises P x) (hf : ∀ a, P a → Promises Q (f a)) : Promises Q (x >>= f) where
  quiet := hx.bind_quiet fun a ha => (hf a ha).quiet
  gives s held b s' hs hrun := by
    have hleaves := hx.quiet s held ((zero_add held).symm ▸ hs)
    cases hxs : x s with
    | error e s₁ => cases (Analysis.bind_error hxs).symm.trans hrun
    | ok a s₁ =>
      rw [hxs] at hleaves
      have ha := hx.gives s held a s₁ hs hxs
      exact (hf a ha).gives s₁ _ b s' hleaves.1 ((Analysis.bind_ok hxs).symm.trans hrun)

theorem tryCatch {h : Diagnostic → Analysis α} (hx : Promises P x)
    (hh : ∀ e, e.cause ≠ .alreadyDetailed → Promises P (h e)) :
    Promises P (MonadExcept.tryCatch x h) where
  quiet := hx.quiet.tryCatch fun e he => (hh e he).quiet
  gives s held a s' hs hrun := by
    have hleaves := hx.quiet s held ((zero_add held).symm ▸ hs)
    change EStateM.tryCatch x h s = .ok a s' at hrun
    unfold EStateM.tryCatch at hrun
    cases hxs : x s with
    | error e s₁ =>
      rw [hxs] at hrun hleaves
      exact (hh e hleaves.2.2).gives s₁ held a s' hleaves.1 hrun
    | ok b s₁ =>
      rw [hxs] at hrun
      cases hrun
      exact hx.gives s held a _ hs hxs

theorem foldlM {f : β → γ → Analysis β} {b : β} {xs : List γ} (hb : Q b)
    (h : ∀ b a, Q b → Promises Q (f b a)) : Promises Q (xs.foldlM f b) := by
  induction xs generalizing b with
  | nil => exact pure hb
  | cons a rest ih =>
    rw [List.foldlM_cons]
    exact (h b a hb).bind fun c hc => ih hc

end Promises

/-! ## Nodes -/

/-- The right to record the detail of a node. -/
abbrev Frame.detailing (frame : Frame) (node : Node) : Holding :=
  DetailKey.permit ⟨frame.id, node.id⟩ .detail

section Nodes

variable {α : Type} {x : Analysis α} {f : FrameId} {n : NodeId} {ids : List NodeId}

theorem Spends.node (hx : Spends (permits f ids + DetailKey.permit ⟨f, n⟩ .detail) x) :
    Spends (permits f (n :: ids)) x := hx.of_le permits_add_detail_le

theorem Spends.leaf (hx : Spends (DetailKey.permit ⟨f, n⟩ .detail) x) : Spends (permits f [n]) x :=
  hx.of_le detail_le_permits

end Nodes

namespace Analysis

variable {α : Type} {x : Analysis α} {cost : Holding} {frame : Frame} {node : Node} {scope : ScopeId}

/-! ## Small steps -/

@[grind ←] theorem fail_quiet {p : Position} {c : Cause} (h : c ≠ .alreadyDetailed) :
    Quiet (fail p c : Analysis α) := .throw h

@[grind ←] theorem failOther_quiet {p : Position} {m : String} :
    Quiet (failOther p m : Analysis α) := .throw (by simp [Diagnostic.other])

@[grind ←] theorem misplaced_quiet {c r : String} {p : Position} :
    Quiet (misplaced c r p : Analysis α) := .throw (by simp)

@[grind ←] theorem expect_quiet {what : String} {o : Option α} : Quiet (expect what o) := by
  cases o with
  | none => exact .throw (by simp [Diagnostic.internal])
  | some a => exact .pure

@[grind ←] theorem look_quiet {f : SymbolTable → α} : Quiet (look f) :=
  .of_run (g := fun s => (f s.table, s)) (fun _ => rfl) fun s => .refl s

@[grind ←] theorem typeText_quiet {ty : Ty} : Quiet (typeText ty) := look_quiet

@[grind ←] theorem itemName_quiet {i : ItemId} : Quiet (itemName i) := look_quiet

@[grind ←] theorem conversion_quiet {src dst : Ty} : Quiet (conversion src dst) :=
  .of_run (g := fun s => (convert s.table s.options src dst, s)) (fun _ => rfl) fun s => .refl s

@[grind ←] theorem detail?_quiet : Quiet (detail? frame node) :=
  .of_run (g := fun s => (s.details.get? ⟨frame.id, node.id⟩, s)) (fun _ => rfl) fun s => .refl s

@[grind ←] theorem declared?_quiet : Quiet (declared? frame node) :=
  .of_run (g := fun s => (s.declared.lookup ⟨frame.id, node.id⟩, s)) (fun _ => rfl) fun s => .refl s

@[grind ←] theorem classSource?_quiet {cls : ItemId} : Quiet (classSource? cls) :=
  .of_run (g := fun s => (s.classes.lookup cls, s)) (fun _ => rfl) fun s => .refl s

@[grind ←] theorem template?_quiet {item : ItemId} : Quiet (template? item) :=
  .of_run (g := fun s => (s.templates.lookup item, s)) (fun _ => rfl) fun s => .refl s

@[grind ←] theorem change_quiet {f : SymbolTable → SymbolTable} (hf : ∀ t : SymbolTable, t.KeepsTemplates (f t)) :
    Quiet (change f) := .alter fun s => .of_table (hf s.table)

@[grind ←] theorem make_quiet {f : SymbolTable → α × SymbolTable}
    (hf : ∀ t : SymbolTable, t.KeepsTemplates (f t).2) : Quiet (make f) := .modifyGet fun s => .of_table (hf s.table)

@[grind ←] theorem newScope_quiet {parent : ScopeId} : Quiet (newScope parent) :=
  make_quiet fun _ => .newScope

@[grind ←] theorem addItem_quiet {item : Item} : Quiet (addItem item) := make_quiet fun _ => .addItem

@[grind ←] theorem setOwner_quiet {s : ScopeId} {owner : ScopeOwner} : Quiet (setOwner s owner) :=
  change_quiet fun _ => .setOwner

/-- A change of what is recorded for a node that has a detail. -/
theorem keys_modify (t : DetailTable) (k : DetailKey) (f : Detail → Detail) :
    (t.modify k f).entries.toList.map (·.1) = t.entries.toList.map (·.1) := by
  rw [DetailTable.modify, Array.toList_map, List.map_map]
  refine List.map_congr_left fun e _ => ?_
  dsimp only [Function.comp]
  split <;> rfl

@[grind ←] theorem narrow_quiet {item : ItemId} {ty : Ty} : Quiet (narrow frame node item ty) :=
  .alter fun s => { State.Steady.refl s with details := keys_modify .. }

@[grind ←] theorem castImplicitly_quiet {cast : ImplicitCast} :
    Quiet (castImplicitly frame node cast) :=
  .alter fun s => { State.Steady.refl s with details := keys_modify .. }

@[grind ←] theorem setStage_quiet {cls : ItemId} {stage : Stage} (h : stage ≠ .declared) :
    Quiet (setStage cls stage) :=
  Spends.of_run (g := fun s => (⟨⟩, s.withStage cls stage)) (fun _ => rfl) fun s held hs =>
    ⟨((zero_add held) ▸ hs).withStage h, .withStage s cls stage⟩

/-! ### Errors -/

/-- An error may be reported. -/
theorem report_quiet {e : Diagnostic} (he : e.cause ≠ .alreadyDetailed) :
    Quiet (modify fun s => { s with errors := s.errors ++ [e] } : Analysis PUnit) :=
  Spends.of_run (g := fun s => (⟨⟩, { s with errors := s.errors ++ [e] })) (fun _ => rfl)
    fun s held hs => ⟨((zero_add held) ▸ hs).report he, { State.Continues.refl s with }⟩

theorem giveUp_quiet {e : Diagnostic} (he : e.cause ≠ .alreadyDetailed) : Quiet (giveUp e) :=
  Spends.of_run (g := fun s => (⟨⟩, { s with dropped := s.dropped ++ [e] })) (fun _ => rfl)
    fun s held hs => ⟨((zero_add held) ▸ hs).drop he, { State.Continues.refl s with }⟩

theorem recover_leaves {s : State} {held : Holding}
    (hx : Leaves s (fun _ _ => 0) held (x s)) : Leaves s (fun _ _ => 0) held (recover x s) := by
  refine (hx.map (h := some)).tryCatch fun e he => .bind .get fun _ => ?_
  split
  · exact .bind (report_quiet he) fun _ => .pure
  · exact .throw he

theorem recover_spends (hx : Spends cost x) : Spends cost (recover x) := fun s held hs =>
  recover_leaves (hx s held hs)

theorem andFinally_leaves {last : Analysis Unit} {s : State} {held : Holding}
    (hx : Leaves s (fun _ _ => 0) held (x s)) (hlast : Quiet last) :
    Leaves s (fun _ _ => 0) held (andFinally x last s) := by
  unfold andFinally
  refine (hx.tryCatch fun e he => hlast.bind fun _ => .throw he).bind (le_refl _) ?_
  exact fun a s' _ _ hs' => (hlast.bind fun _ => .pure) s' held hs'

theorem andFinally_spends {last : Analysis Unit} (hx : Spends cost x) (hlast : Quiet last) :
    Spends cost (andFinally x last) := fun s held hs => andFinally_leaves (hx s held hs) hlast

/-! ### Entries -/

/-- Whoever has the right to it records the detail of a node. -/
theorem record_gives {s : State} {held : Holding} {d : Detail}
    (hs : s.Accounts (frame.detailing node + held)) : ∃ details,
      record frame node d s = .ok ⟨⟩ { s with details } ∧
        State.Accounts { s with details } held := by
  have hopen : (s.waiting + (frame.detailing node + held)) ⟨⟨frame.id, node.id⟩, .detail⟩ ≠ 0 := by
    simp
  have hnone := State.Balanced.contains_eq_false hs hopen
  refine ⟨⟨s.details.entries.push (⟨frame.id, node.id⟩, d)⟩, ?_, hs.record⟩
  rw [record_eq, DetailTable.insert, hnone]
  rfl

theorem record_spends {d : Detail} : Spends (frame.detailing node) (record frame node d) := by
  intro s held hs
  obtain ⟨details, hrun, haccounts⟩ := record_gives hs
  rw [hrun]
  exact ⟨(zero_add held).symm ▸ haccounts, { State.Continues.refl s with }⟩

/-- What is declared stays so when another item is declared. -/
theorem continues_declare (s : State) (k : DetailKey) (item : ItemId) :
    s.Continues { s with declared := (k, item) :: s.declared } where
  size_le := Nat.le_refl _
  frames_le := Nat.le_refl _
  classes _ source h := ⟨source, h, rfl, rfl⟩
  unmade _ _ h := h
  declared k' h := by
    rw [List.lookup_cons]
    split
    · rfl
    · exact h
  templates _ h := h

theorem recordDeclared_spends {item : ItemId} :
    Spends (DetailKey.declaring ⟨frame.id, node.id⟩) (recordDeclared frame node item) := by
  refine Spends.of_run (g := fun s => (⟨⟩, { s with declared := (_, item) :: s.declared }))
    (fun _ => rfl) fun s held hs => ⟨?_, continues_declare s _ item⟩
  refine State.Accounts.declare_plain (hs.of_le (add_le_add ?_ (le_refl _)))
  intro p
  unfold DetailKey.declaring
  split <;> simp only [Pi.add_apply, Pi.zero_apply] <;> omega

end Analysis

end SemanticAnalysis
