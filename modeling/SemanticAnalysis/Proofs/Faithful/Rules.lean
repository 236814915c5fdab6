import Mathlib.Algebra.GroupWithZero.Nat
import SemanticAnalysis.Proofs.Course.Programs
import SemanticAnalysis.Proofs.Delegation.Statements
import SemanticAnalysis.Proofs.Faithful.Tables

/-!
# Faithful steps

A step of an analysis is faithful (`Faithful`) if the state behind it honours the state before it, also when the
step stops, and if every bitfield that came by its fields in a step that got through fits into its underlying type,
unless an error was noted on the way (`State.Vouched`).

Steps that only add to the table are faithful, and so is what is put together from faithful steps. An error may be
caught only if it is noted (`Faithful.tryCatch`). Where items are changed that are new since the work began, the
states on the way are compared with the one at the beginning (`Within`).
-/

namespace SemanticAnalysis

open Analysis (behind bind_ok bind_error)

/-- Callbacks honour what is settled and leave the fields of classes alone. -/
def AttributeTable.Honest (t : AttributeTable) : Prop :=
  ∀ r ∈ t.registrations, ∀ (i : Invocation) (u : SymbolTable), u.Spares (r.callback i u).2

/-! ## Bitfields -/

/-- The type is a number or truth value that is no reference and no pointer. -/
def Ty.IsIntegral (ty : Ty) : Prop := ty.isValue = true ∧ ∃ n, ty.native? = some n ∧ n.hasBits = true

namespace SymbolTable

variable {t u : SymbolTable}

/-- The width of a member of a bitfield. -/
def bitsOf (t : SymbolTable) (m : ItemId) : Nat := ((t.var? m).map (·.bits)).getD 0

theorem bitsOf_eq_of_width {m : ItemId} (h : (u.var? m).map Variable.width = (t.var? m).map Variable.width) :
    u.bitsOf m = t.bitsOf m := by
  have hread : ∀ w : SymbolTable, w.bitsOf m = (((w.var? m).map Variable.width).map Prod.snd).getD 0 := by
    intro w
    unfold bitsOf
    cases w.var? m <;> rfl
  rw [hread, hread, h]

theorem entry_of_width {m : ItemId} {b : Bool}
    (h : (u.var? m).map Variable.width = (t.var? m).map Variable.width)
    (hm : ∃ v, t.var? m = some v ∧ v.isBitfieldEntry = b) : ∃ v, u.var? m = some v ∧ v.isBitfieldEntry = b := by
  obtain ⟨v, hv, hentry⟩ := hm
  rw [hv] at h
  obtain ⟨w, hw, heq⟩ := Option.map_eq_some_iff.1 h
  exact ⟨w, hw, (congrArg Prod.fst heq).trans hentry⟩

/-- The members of a bitfield are entries of it, and together they fit into its underlying type. -/
structure Fits (t : SymbolTable) (c : Class) : Prop where
  entries : ∀ m ∈ c.members, ∃ v, t.var? m = some v ∧ v.isBitfieldEntry = true
  capacity : ∃ ty, c.underlying = some ty ∧ ty.IsIntegral ∧ (c.members.map t.bitsOf).sum ≤ ty.bitCapacity

theorem Fits.of_widths {c d : Class} (h : t.Fits c) (hhead : d.head = c.head)
    (hwidths : ∀ m ∈ c.members, (u.var? m).map Variable.width = (t.var? m).map Variable.width) : u.Fits d := by
  have hmembers : d.members = c.members := congrArg Prod.snd hhead
  have hunderlying : d.underlying = c.underlying := congrArg Prod.fst hhead
  constructor
  · intro m hm
    rw [hmembers] at hm
    exact entry_of_width (hwidths m hm) (h.entries m hm)
  · obtain ⟨ty, hty, hintegral, hsum⟩ := h.capacity
    refine ⟨ty, hunderlying.trans hty, hintegral, ?_⟩
    rw [hmembers, List.map_congr_left fun m hm => bitsOf_eq_of_width (hwidths m hm)]
    exact hsum

end SymbolTable

/-! ## States -/

namespace State

variable {s s' s'' : State} {c : ItemId}

/-- The fields of the class have been asked for. -/
def IsHeaded (s : State) (c : ItemId) : Prop :=
  ∃ source, s.classes.lookup c = some source ∧ Stage.signatures.rank ≤ source.stage.rank

/-- The number of errors that did not stop the analysis. -/
def noted (s : State) : Nat := s.errors.length + s.dropped.length

/-- If the class is a bitfield, it fits. -/
def FitsAt (s : State) (c : ItemId) : Prop :=
  ∀ cls, s.table.class? c = some cls → cls.flags.bitfield = true → s.table.Fits cls

/-- What holds between the steps of an analysis: constructors are filed, and the declarations that are kept belong
to classes, which have no fields before they are asked for. -/
structure Grounded (s : State) : Prop where
  honest : s.attributes.Honest
  filed : s.table.Filed
  sources : ∀ c source, s.classes.lookup c = some source → ∃ cls, s.table.class? c = some cls ∧
    cls.flags.bitfield = source.decl.flags.bitfield ∧
      (source.stage.rank < Stage.signatures.rank → cls.head = (none, []))

/-- What is settled in `s` is so in `s'`. -/
structure Honours (s s' : State) : Prop where
  table : s.table.Honours s'.table
  heads : ∀ c, c.index < s.table.items.size → s.IsHeaded c →
    s'.IsHeaded c ∧ (s'.table.class? c).map Class.head = (s.table.class? c).map Class.head
  unlisted : ∀ c, c.index < s.table.items.size → s.classes.lookup c = none → s'.classes.lookup c = none
  noted_le : s.noted ≤ s'.noted
  grounded : s.Grounded → s'.Grounded

/-- Unless an error was noted in between, bitfields that came by their fields fit. -/
def Vouched (s s' : State) : Prop :=
  s'.noted = s.noted → ∀ c, s'.IsHeaded c → ¬ s.IsHeaded c → s'.FitsAt c

theorem Grounded.lt_of_lookup (h : s.Grounded) {source : ClassSource} (hc : s.classes.lookup c = some source) :
    c.index < s.table.items.size := by
  obtain ⟨cls, hcls, -⟩ := h.sources c source hc
  exact SymbolTable.lt_of_class? hcls

theorem Grounded.lt_of_isHeaded (h : s.Grounded) (hc : s.IsHeaded c) : c.index < s.table.items.size := by
  obtain ⟨source, hsource, -⟩ := hc
  exact h.lt_of_lookup hsource

/-- A bitfield that fits goes on to fit. -/
theorem FitsAt.mono (h : s.FitsAt c) (hc : c.index < s.table.items.size) (hheaded : s.IsHeaded c)
    (hhonours : s.Honours s') : s'.FitsAt c := by
  intro cls hcls hbitfield
  have hhead := (hhonours.heads c hc hheaded).2
  rw [hcls] at hhead
  obtain ⟨old, hold, heq⟩ := Option.map_eq_some_iff.1 hhead.symm
  have hflag := hhonours.table.bitfields c hc
  rw [hcls, hold] at hflag
  have hfits := h old hold ((Option.some_inj.1 hflag).symm.trans hbitfield)
  refine hfits.of_widths heq.symm fun m hm => ?_
  obtain ⟨v, hv, -⟩ := hfits.entries m hm
  obtain ⟨item, hitem, -⟩ := Option.bind_eq_some_iff.1 hv
  exact hhonours.table.widths m (SymbolTable.lt_of_item? hitem)

namespace Honours

theorem refl (s : State) : s.Honours s where
  table := .refl _
  heads _ _ h := ⟨h, rfl⟩
  unlisted _ _ h := h
  noted_le := Nat.le_refl _
  grounded := id

theorem trans (h : s.Honours s') (h' : s'.Honours s'') : s.Honours s'' where
  table := h.table.trans h'.table
  heads c hc hheaded := by
    obtain ⟨hheaded', heq⟩ := h.heads c hc hheaded
    obtain ⟨hheaded'', heq'⟩ := h'.heads c (Nat.lt_of_lt_of_le hc h.table.size_le) hheaded'
    exact ⟨hheaded'', heq'.trans heq⟩
  unlisted c hc hnone := h'.unlisted c (Nat.lt_of_lt_of_le hc h.table.size_le) (h.unlisted c hc hnone)
  noted_le := Nat.le_trans h.noted_le h'.noted_le
  grounded hs := h'.grounded (h.grounded hs)

/-- A change of the table that leaves the fields of classes alone. -/
theorem of_spares (htable : s.table.Spares s'.table) (hclasses : s'.classes = s.classes)
    (hattributes : s'.attributes = s.attributes) (hnoted : s.noted ≤ s'.noted) : s.Honours s' where
  table := htable.toHonours
  heads c hc hheaded := ⟨by rwa [IsHeaded, hclasses], htable.heads c hc⟩
  unlisted c _ hnone := hclasses ▸ hnone
  noted_le := hnoted
  grounded hs :=
    { honest := hattributes ▸ hs.honest
      filed := htable.filed hs.filed
      sources := fun c source hsource => by
        rw [hclasses] at hsource
        obtain ⟨old, hold, hflag, hblank⟩ := hs.sources c source hsource
        have hlt := SymbolTable.lt_of_class? hold
        have hhead := htable.heads c hlt
        have hbitfield := htable.bitfields c hlt
        rw [hold] at hhead hbitfield
        obtain ⟨cls, hcls, heq⟩ := Option.map_eq_some_iff.1 hhead
        rw [hcls] at hbitfield
        exact ⟨cls, hcls, (Option.some_inj.1 hbitfield).trans hflag, fun hlow => heq.trans (hblank hlow)⟩ }

end Honours

namespace Vouched

theorem of_classes (h : s'.classes = s.classes) : s.Vouched s' := by
  intro _ c hheaded hnot
  rw [IsHeaded, h] at hheaded
  exact absurd hheaded hnot

theorem trans (hs : s.Grounded) (h : s.Vouched s') (hhonours : s.Honours s') (h' : s'.Vouched s'')
    (hhonours' : s'.Honours s'') : s.Vouched s'' := by
  intro hnoted c hheaded hnot
  have hfirst : s'.noted = s.noted := Nat.le_antisymm (hnoted ▸ hhonours'.noted_le) hhonours.noted_le
  by_cases hheaded' : s'.IsHeaded c
  · have hfits := h hfirst c hheaded' hnot
    exact hfits.mono ((hhonours.grounded hs).lt_of_isHeaded hheaded') hheaded' hhonours'
  · exact h' (hnoted.trans hfirst.symm) c hheaded hheaded'

end Vouched

/-- What most steps leave as it is. -/
@[grind =] def core (s : State) :
    SymbolTable × List (ItemId × ClassSource) × AttributeTable × List Diagnostic × List Diagnostic :=
  (s.table, s.classes, s.attributes, s.errors, s.dropped)

end State

/-! ## Rules -/

/-- What was settled stays so, and bitfields that came by their fields fit unless an error was noted. -/
structure Faithful {α : Type} (x : Analysis α) : Prop where
  honours : ∀ s : State, s.Grounded → s.Honours (behind x s)
  vouched : ∀ (s : State) (a : α) (s' : State), s.Grounded → x s = .ok a s' → s.Vouched s'

namespace Faithful

variable {α β γ : Type} {x : Analysis α} {f : α → Analysis β}

theorem honours_ok {s s' : State} {a : α} (hx : Faithful x) (hs : s.Grounded) (h : x s = .ok a s') :
    s.Honours s' := by
  have hrun := hx.honours s hs
  rwa [behind, h] at hrun

theorem honours_error {s s' : State} {e : Diagnostic} (hx : Faithful x) (hs : s.Grounded)
    (h : x s = .error e s') : s.Honours s' := by
  have hrun := hx.honours s hs
  rwa [behind, h] at hrun

theorem behind_of_ok {s s' : State} {a : α} (h : x s = .ok a s') : behind x s = s' := by
  rw [behind, h]

/-- A step that changes the table alone, and leaves the fields of classes alone. -/
theorem of_spares (hx : ∀ s : State, s.Grounded → s.table.Spares (behind x s).table)
    (hclasses : ∀ s, (behind x s).classes = s.classes) (hattributes : ∀ s, (behind x s).attributes = s.attributes)
    (hnoted : ∀ s, s.noted ≤ (behind x s).noted) : Faithful x where
  honours s hs := .of_spares (hx s hs) (hclasses s) (hattributes s) (hnoted s)
  vouched s _ _ _ h := .of_classes (behind_of_ok h ▸ hclasses s)

/-- A step that changes none of it. -/
theorem aside (hx : ∀ s, (behind x s).core = s.core) : Faithful x := by
  refine of_spares (fun s _ => ?_) (fun s => ?_) (fun s => ?_) fun s => ?_
  · have htable : (behind x s).table = s.table := congrArg (·.1) (hx s)
    exact htable ▸ .refl _
  · exact congrArg (·.2.1) (hx s)
  · exact congrArg (·.2.2.1) (hx s)
  · have herrors : (behind x s).errors = s.errors := congrArg (·.2.2.2.1) (hx s)
    have hdropped : (behind x s).dropped = s.dropped := congrArg (·.2.2.2.2) (hx s)
    rw [State.noted, State.noted, herrors, hdropped]

@[grind ←] theorem pure {a : α} : Faithful (Pure.pure a : Analysis α) := aside fun _ => rfl

@[grind ←] theorem throw {e : Diagnostic} : Faithful (MonadExcept.throw e : Analysis α) := aside fun _ => rfl

@[grind ←] theorem get : Faithful (MonadState.get : Analysis State) := aside fun _ => rfl

/-- A change of something else. -/
@[grind ←] theorem alter {f : State → State} (hf : ∀ s, (f s).core = s.core) :
    Faithful (modify f : Analysis PUnit) := aside hf

/-- A change of something else that gives something. -/
@[grind ←] theorem modifyGet {h : State → α × State} (hh : ∀ s, (h s).2.core = s.core) :
    Faithful (MonadStateOf.modifyGet h : Analysis α) := aside hh

@[grind ←] theorem bind (hx : Faithful x) (hf : ∀ a, Faithful (f a)) : Faithful (x >>= f) where
  honours s hs := by
    have hfirst := hx.honours s hs
    cases hxs : x s with
    | error e s' =>
      rw [behind, bind_error hxs]
      rwa [behind, hxs] at hfirst
    | ok a s' =>
      rw [behind, hxs] at hfirst
      have hrest := (hf a).honours s' (hfirst.grounded hs)
      have hrun : behind (x >>= f) s = behind (f a) s' := by rw [behind, bind_ok hxs, behind]
      rw [hrun]
      exact hfirst.trans hrest
  vouched s b s'' hs h := by
    obtain ⟨a, s', hxs, hfs⟩ := Analysis.of_bind_ok h
    have hfirst := hx.honours_ok hs hxs
    have hs' := hfirst.grounded hs
    exact (hx.vouched s a s' hs hxs).trans hs hfirst ((hf a).vouched s' b s'' hs' hfs)
      ((hf a).honours_ok hs' hfs)

/-- First read the state, which is in order. -/
theorem bind_get {f : State → Analysis β} (hf : ∀ s : State, s.Grounded → Faithful (f s)) :
    Faithful (MonadState.get >>= f) where
  honours s hs := (hf s hs).honours s hs
  vouched s b s' hs h := (hf s hs).vouched s b s' hs h

@[grind ←] theorem map {h : α → β} (hx : Faithful x) : Faithful (h <$> x) := by
  rw [← bind_pure_comp]
  exact hx.bind fun _ => .pure

@[grind ←] theorem discard (hx : Faithful x) : Faithful (discard x) := hx.map

/-- First do something under a condition. -/
theorem guard {c : Prop} [Decidable c] {x : Analysis PUnit} {f : PUnit → Analysis β}
    (hx : Faithful x) (hf : Faithful (f ⟨⟩)) : Faithful (if c then x >>= f else f ⟨⟩) := by
  split
  · exact hx.bind fun _ => hf
  · exact hf

/-- An error is caught and noted, or goes on. -/
theorem tryCatch {h : Diagnostic → Analysis α} (hx : Faithful x) (hh : ∀ e, Faithful (h e))
    (hnotes : ∀ (e : Diagnostic) (s : State) (a : α) (s' : State), h e s = .ok a s' → s.noted < s'.noted) :
    Faithful (MonadExcept.tryCatch x h) where
  honours s hs := by
    have hfirst := hx.honours s hs
    show s.Honours (behind (EStateM.tryCatch x h) s)
    unfold behind EStateM.tryCatch at *
    cases hxs : x s with
    | ok a s' =>
      rw [hxs] at hfirst
      exact hfirst
    | error e s' =>
      rw [hxs] at hfirst
      exact hfirst.trans ((hh e).honours s' (hfirst.grounded hs))
  vouched s a s'' hs hrun := by
    replace hrun : EStateM.tryCatch x h s = .ok a s'' := hrun
    unfold EStateM.tryCatch at hrun
    cases hxs : x s with
    | ok b s' =>
      rw [hxs] at hrun
      cases hrun
      exact hx.vouched s a s'' hs hxs
    | error e s' =>
      rw [hxs] at hrun
      have hle := (hx.honours_error hs hxs).noted_le
      have hlt := hnotes e s' a s'' hrun
      intro heq
      exact absurd heq (Nat.ne_of_gt (Nat.lt_of_le_of_lt hle hlt))

/-- An error goes on as another one. -/
theorem rethrow {h : Diagnostic → Analysis α} (hx : Faithful x)
    (hh : ∀ e, ∃ e', h e = MonadExcept.throw e') : Faithful (MonadExcept.tryCatch x h) := by
  refine hx.tryCatch (fun e => ?_) fun e s a s' hrun => ?_
  · obtain ⟨e', he⟩ := hh e
    exact he ▸ throw
  · obtain ⟨e', he⟩ := hh e
    rw [he] at hrun
    cases hrun

/-! ### Lists -/

@[grind ←] theorem forM {xs : List γ} {f : γ → Analysis PUnit} (h : ∀ a, Faithful (f a)) :
    Faithful (xs.forM f) := by
  induction xs with
  | nil => exact .pure
  | cons a rest ih => exact (h a).bind fun _ => ih

@[grind ←] theorem mapM {xs : List γ} {f : γ → Analysis β} (h : ∀ a, Faithful (f a)) :
    Faithful (xs.mapM f) := by
  induction xs with
  | nil => exact .pure
  | cons a rest ih =>
    rw [List.mapM_cons]
    exact (h a).bind fun b => ih.bind fun _ => .pure

@[grind ←] theorem foldlM {xs : List γ} {f : β → γ → Analysis β} {b : β} (h : ∀ b a, Faithful (f b a)) :
    Faithful (xs.foldlM f b) := by
  induction xs generalizing b with
  | nil => exact .pure
  | cons a rest ih =>
    rw [List.foldlM_cons]
    exact (h b a).bind fun _ => ih

@[grind ←] theorem filterMapM {xs : List γ} {f : γ → Analysis (Option β)} (h : ∀ a, Faithful (f a)) :
    Faithful (xs.filterMapM f) := by
  have hloop : ∀ (ys : List γ) (acc : List β), Faithful (List.filterMapM.loop f ys acc) := by
    intro ys
    induction ys with
    | nil => exact fun acc => .pure
    | cons a rest ih =>
      intro acc
      unfold List.filterMapM.loop
      refine (h a).bind fun o => ?_
      cases o with
      | none => exact ih acc
      | some b => exact ih (b :: acc)
  exact hloop xs []

@[grind ←] theorem optionMapM {o : Option γ} {f : γ → Analysis β} (h : ∀ a, Faithful (f a)) :
    Faithful (o.mapM f) := by
  cases o with
  | none => exact .pure
  | some a => exact (h a).map

end Faithful

/-! ## Work on new items -/

/-- From states with the property that honour the one at the beginning, the step comes to such states, and what it
gives has another property if it gets through. -/
def Within {α : Type} (s₀ : State) (F : State → Prop) (x : Analysis α) (G : α → State → Prop) : Prop :=
  ∀ s, s₀.Honours s → F s → s₀.Honours (behind x s) ∧ ∀ a s', x s = .ok a s' → G a s'

/-- Faithful steps keep the property. -/
def Lasts (s₀ : State) (F : State → Prop) : Prop :=
  ∀ s s' : State, s.Grounded → s₀.Honours s → s.Honours s' → s.Vouched s' → F s → F s'

namespace Lasts

variable {s₀ : State} {F G : State → Prop}

theorem and (hF : Lasts s₀ F) (hG : Lasts s₀ G) : Lasts s₀ fun s => F s ∧ G s :=
  fun s s' hs h₀ h hv hFG => ⟨hF s s' hs h₀ h hv hFG.1, hG s s' hs h₀ h hv hFG.2⟩

theorem vouched (hs₀ : s₀.Grounded) : Lasts s₀ s₀.Vouched :=
  fun _ _ _ h₀ h hv hF => hF.trans hs₀ h₀ hv h

end Lasts

namespace Within

variable {α β γ : Type} {s₀ : State} {F : State → Prop} {x : Analysis α} {f : α → Analysis β}
variable {G : α → State → Prop} {H : β → State → Prop}

theorem pure {a : α} (h : ∀ s, F s → G a s) : Within s₀ F (Pure.pure a : Analysis α) G := by
  refine fun s h₀ hF => ⟨h₀, ?_⟩
  rintro _ _ ⟨⟩
  exact h s hF

theorem throw {e : Diagnostic} : Within s₀ F (MonadExcept.throw e : Analysis α) G :=
  fun _ h₀ _ => ⟨h₀, nofun⟩

theorem bind (hx : Within s₀ F x G) (hf : ∀ a, Within s₀ (G a) (f a) H) : Within s₀ F (x >>= f) H := by
  intro s h₀ hF
  obtain ⟨hfirst, hG⟩ := hx s h₀ hF
  cases hxs : x s with
  | error e s' =>
    rw [behind, bind_error hxs]
    rw [behind, hxs] at hfirst
    refine ⟨hfirst, ?_⟩
    rintro _ _ ⟨⟩
  | ok a s' =>
    rw [behind, hxs] at hfirst
    have hrest := hf a s' hfirst (hG a s' hxs)
    rwa [behind, bind_ok hxs]

theorem imp {F' : State → Prop} {G' : α → State → Prop} (hx : Within s₀ F x G) (hF : ∀ s, F' s → F s)
    (hG : ∀ a s, G a s → G' a s) : Within s₀ F' x G' :=
  fun s h₀ hs => ⟨(hx s h₀ (hF s hs)).1, fun a s' h => hG a s' ((hx s h₀ (hF s hs)).2 a s' h)⟩

/-- What is known of the results of a step. -/
theorem also {P : α → State → Prop} (hx : Within s₀ F x G) (hP : ∀ s a s', x s = .ok a s' → P a s') :
    Within s₀ F x fun a s => G a s ∧ P a s :=
  fun s h₀ hF => ⟨(hx s h₀ hF).1, fun a s' h => ⟨(hx s h₀ hF).2 a s' h, hP s a s' h⟩⟩

/-- A faithful step. -/
theorem of_faithful (hs₀ : s₀.Grounded) (hx : Faithful x) (hF : Lasts s₀ F) : Within s₀ F x fun _ => F := by
  intro s h₀ hs
  have hgrounded := h₀.grounded hs₀
  refine ⟨h₀.trans (hx.honours s hgrounded), fun a s' h => ?_⟩
  exact hF s s' hgrounded h₀ (hx.honours_ok hgrounded h) (hx.vouched s a s' hgrounded h) hs

/-- First a faithful step. -/
theorem bind_faithful (hs₀ : s₀.Grounded) (hx : Faithful x) (hF : Lasts s₀ F)
    (hf : ∀ a, Within s₀ F (f a) H) : Within s₀ F (x >>= f) H :=
  (of_faithful hs₀ hx hF).bind hf

/-- First read what is kept of a declaration. -/
theorem bind_classSource {item : ItemId} {f : Option ClassSource → Analysis β}
    (hf : ∀ o, Within s₀ (fun s => F s ∧ s.classes.lookup item = o) (f o) H) :
    Within s₀ F (Analysis.classSource? item >>= f) H :=
  fun s h₀ hF => hf (s.classes.lookup item) s h₀ ⟨hF, rfl⟩

/-- First look at the table. -/
theorem bind_look {g : SymbolTable → α} (hf : ∀ a, Within s₀ (fun s => F s ∧ g s.table = a) (f a) H) :
    Within s₀ F (Analysis.look g >>= f) H :=
  fun s h₀ hF => hf (g s.table) s h₀ ⟨hF, rfl⟩

/-- Only what is there can be expected. -/
theorem bind_expect {what : String} {o : Option α} (hf : ∀ a, o = some a → Within s₀ F (f a) H) :
    Within s₀ F (Analysis.expect what o >>= f) H := by
  cases o with
  | none => exact fun _ h₀ _ => ⟨h₀, nofun⟩
  | some a => exact hf a rfl

/-- First a faithful step whose result is known to have a property. -/
theorem bind_known {P : α → Prop} (hs₀ : s₀.Grounded) (hx : Faithful x) (hF : Lasts s₀ F)
    (hP : Analysis.Returns x P) (hf : ∀ a, P a → Within s₀ F (f a) H) : Within s₀ F (x >>= f) H := by
  have hknown := (of_faithful hs₀ hx hF).also (P := fun a _ => P a) hP
  exact hknown.bind fun a s h₀ hs => hf a hs.2 s h₀ hs.1

/-- First do something under a condition. -/
theorem guard {c : Prop} [Decidable c] {x : Analysis PUnit} {f : PUnit → Analysis β}
    (hx : Within s₀ F x fun _ => F) (hf : Within s₀ F (f ⟨⟩) H) :
    Within s₀ F (if c then x >>= f else f ⟨⟩) H := by
  split
  · exact hx.bind fun _ => hf
  · exact hf

/-- First do something if the condition holds. -/
theorem branch {c : Prop} [Decidable c] {x : Analysis PUnit} {f : PUnit → Analysis β}
    (hx : c → Within s₀ F (x >>= f) H) (hf : ¬ c → Within s₀ F (f ⟨⟩) H) :
    Within s₀ F (if c then x >>= f else f ⟨⟩) H := by
  split
  · rename_i hc
    exact hx hc
  · rename_i hc
    exact hf hc

/-- The last thing is done whether or not the step stops. -/
theorem andFinally {f : State → State} {K : State → Prop} (hx : Within s₀ F x G)
    (hf : ∀ s, s₀.Honours s → s₀.Honours (f s)) (hG : ∀ a s, s₀.Honours s → G a s → K (f s)) :
    Within s₀ F (Analysis.andFinally x (modify f)) fun _ => K := by
  intro s h₀ hs
  obtain ⟨hfirst, hrun⟩ := hx s h₀ hs
  rw [behind, Analysis.andFinally_modify]
  cases hxs : x s with
  | ok a s' =>
    rw [behind, hxs] at hfirst
    refine ⟨hf s' hfirst, ?_⟩
    rintro _ _ ⟨⟩
    exact hG a s' hfirst (hrun a s' hxs)
  | error e s' =>
    rw [behind, hxs] at hfirst
    refine ⟨hf s' hfirst, ?_⟩
    rintro _ _ ⟨⟩

theorem forM {xs : List γ} {f : γ → Analysis PUnit} (h : ∀ a, Within s₀ F (f a) fun _ => F) :
    Within s₀ F (xs.forM f) fun _ => F := by
  induction xs with
  | nil => exact .pure fun _ hs => hs
  | cons a rest ih => exact (h a).bind fun _ => ih

theorem foldlM {xs : List γ} {K : β → State → Prop} {f : β → γ → Analysis β} {b : β}
    (h : ∀ b a, Within s₀ (K b) (f b a) K) : Within s₀ (K b) (xs.foldlM f b) K := by
  induction xs generalizing b with
  | nil => exact .pure fun _ hs => hs
  | cons a rest ih =>
    rw [List.foldlM_cons]
    exact (h b a).bind fun _ => ih

/-- A change of the table that may concern new items. -/
theorem change {g : SymbolTable → SymbolTable} {G : PUnit → State → Prop}
    (h : ∀ s, s₀.Honours s → F s →
      s₀.Honours { s with table := g s.table } ∧ G ⟨⟩ { s with table := g s.table }) :
    Within s₀ F (Analysis.change g) G := by
  refine fun s h₀ hF => ⟨(h s h₀ hF).1, ?_⟩
  rintro _ _ ⟨⟩
  exact (h s h₀ hF).2

/-- What is known where the work begins. -/
theorem start {P : State → Prop} (h : P s₀ → Within s₀ (· = s₀) x G) : Within s₀ (fun s => s = s₀ ∧ P s) x G := by
  rintro _ h₀ ⟨rfl, hP⟩
  exact h hP _ h₀ rfl

/-- Work that begins now. -/
theorem faithful (h : ∀ s₀ : State, s₀.Grounded → Within s₀ (· = s₀) x fun _ => s₀.Vouched) : Faithful x where
  honours s hs := (h s hs s (.refl s) rfl).1
  vouched s a s' hs hrun := (h s hs s (.refl s) rfl).2 a s' hrun

theorem faithful_of_vouched (h : ∀ s₀ : State, s₀.Grounded → Within s₀ s₀.Vouched x fun _ => s₀.Vouched) :
    Faithful x :=
  faithful fun s₀ hs₀ => (h s₀ hs₀).imp (fun _ hs => hs ▸ .of_classes rfl) fun _ _ hv => hv

end Within

namespace Analysis

variable {α β : Type} {frame : Frame} {node : Node} {scope : ScopeId}

/-! ## Small steps -/

@[grind ←] theorem fail_faithful {p : Position} {c : Cause} : Faithful (fail p c : Analysis α) := .throw

@[grind ←] theorem failOther_faithful {p : Position} {m : String} : Faithful (failOther p m : Analysis α) :=
  .throw

@[grind ←] theorem misplaced_faithful {c r : String} {p : Position} :
    Faithful (misplaced c r p : Analysis α) := .throw

@[grind ←] theorem expect_faithful {what : String} {o : Option α} : Faithful (expect what o) := by
  cases o with
  | none => exact .throw
  | some a => exact .pure

@[grind ←] theorem look_faithful {f : SymbolTable → α} : Faithful (look f) := .aside fun _ => rfl

@[grind ←] theorem typeText_faithful {ty : Ty} : Faithful (typeText ty) := .aside fun _ => rfl

@[grind ←] theorem itemName_faithful {i : ItemId} : Faithful (itemName i) := .aside fun _ => rfl

@[grind ←] theorem conversion_faithful {src dst : Ty} : Faithful (conversion src dst) := .aside fun _ => rfl

@[grind ←] theorem detail?_faithful : Faithful (detail? frame node) := .aside fun _ => rfl

@[grind ←] theorem declared?_faithful : Faithful (declared? frame node) := .aside fun _ => rfl

@[grind ←] theorem classSource?_faithful {cls : ItemId} : Faithful (classSource? cls) := .aside fun _ => rfl

@[grind ←] theorem template?_faithful {item : ItemId} : Faithful (template? item) := .aside fun _ => rfl

@[grind ←] theorem change_faithful {f : SymbolTable → SymbolTable} (h : ∀ t : SymbolTable, t.Spares (f t)) :
    Faithful (change f) :=
  .of_spares (fun s _ => h s.table) (fun _ => rfl) (fun _ => rfl) fun _ => Nat.le_refl _

@[grind ←] theorem make_faithful {f : SymbolTable → α × SymbolTable}
    (h : ∀ t : SymbolTable, t.Spares (f t).2) : Faithful (make f) :=
  .of_spares (fun s _ => h s.table) (fun _ => rfl) (fun _ => rfl) fun _ => Nat.le_refl _

@[grind ←] theorem newScope_faithful {parent : ScopeId} : Faithful (newScope parent) :=
  make_faithful fun _ => .newScope

/-- A new class has no constructors yet. -/
theorem addClass_faithful {item : Item} (h : ∀ c, item.entity = .cls c → c.filing = ([], none)) :
    Faithful (addItem item) := make_faithful fun _ => .addItem h

/-- Any other item. -/
@[grind ←] theorem addItem_faithful {item : Item} (h : ∀ c, item.entity ≠ .cls c) : Faithful (addItem item) :=
  addClass_faithful fun c hc => absurd hc (h c)

@[grind ←] theorem setOwner_faithful {s : ScopeId} {owner : ScopeOwner} : Faithful (setOwner s owner) :=
  change_faithful fun _ => .setOwner

@[grind ←] theorem openFrame_faithful {module : ModuleId} : Faithful (openFrame module) :=
  .aside fun _ => rfl

@[grind ←] theorem freshNode_faithful {p : Position} : Faithful (freshNode p) := .aside fun _ => rfl

@[grind ←] theorem record_faithful {d : Detail} : Faithful (record frame node d) := by
  refine .aside fun s => ?_
  have hread (f : State → Analysis Unit) : (MonadState.get >>= f) s = f s s := rfl
  rw [behind, record, hread]
  cases s.details.insert ⟨frame.id, node.id⟩ d node.position <;> rfl

@[grind ←] theorem narrow_faithful {item : ItemId} {ty : Ty} : Faithful (narrow frame node item ty) :=
  .alter fun _ => rfl

@[grind ←] theorem castImplicitly_faithful {cast : ImplicitCast} :
    Faithful (castImplicitly frame node cast) := .alter fun _ => rfl

@[grind ←] theorem recordDeclared_faithful {item : ItemId} : Faithful (recordDeclared frame node item) :=
  .alter fun _ => rfl

/-! ### Errors -/

/-- A note is a change of something else that makes the notes more. -/
theorem note_faithful {f : State → State} (htable : ∀ s, (f s).table = s.table)
    (hclasses : ∀ s, (f s).classes = s.classes) (hattributes : ∀ s, (f s).attributes = s.attributes)
    (hnoted : ∀ s, s.noted ≤ (f s).noted) : Faithful (modify f : Analysis PUnit) := by
  refine .of_spares (fun s _ => ?_) hclasses hattributes hnoted
  have hbehind : (behind (modify f : Analysis PUnit) s).table = s.table := htable s
  rw [hbehind]
  exact .refl _

theorem noted_giveUp_lt (e : Diagnostic) (s : State) :
    s.noted < State.noted { s with dropped := s.dropped ++ [e] } := by
  simp [State.noted]

theorem noted_collect_lt (e : Diagnostic) (s : State) :
    s.noted < State.noted { s with errors := s.errors ++ [e] } := by
  simp [State.noted]

@[grind ←] theorem giveUp_faithful {e : Diagnostic} : Faithful (giveUp e) :=
  note_faithful (fun _ => rfl) (fun _ => rfl) (fun _ => rfl) fun s => Nat.le_of_lt (noted_giveUp_lt e s)

@[grind ←] theorem recover_faithful {x : Analysis α} (hx : Faithful x) : Faithful (recover x) := by
  unfold recover
  refine .tryCatch hx.map (fun e => .bind .get fun s => ?_) fun e s a s' h => ?_
  · split
    · refine .bind (note_faithful (fun _ => rfl) (fun _ => rfl) (fun _ => rfl) fun s => ?_) fun _ => .pure
      exact Nat.le_of_lt (noted_collect_lt e s)
    · exact .throw
  · have hread (f : State → Analysis (Option α)) : (MonadState.get >>= f) s = f s s := rfl
    rw [hread] at h
    split at h
    · cases h
      exact noted_collect_lt e s
    · cases h

@[grind ←] theorem andFinally_faithful {x : Analysis α} {last : Analysis Unit} (hx : Faithful x)
    (hlast : Faithful last) : Faithful (andFinally x last) := by
  unfold andFinally
  refine .bind (.tryCatch hx (fun e => ?_) fun e s a s' h => ?_) fun a => ?_
  · exact hlast.bind fun _ => .throw
  · obtain ⟨_, _, -, hthrow⟩ := of_bind_ok h
    cases hthrow
  · exact hlast.bind fun _ => .pure

end Analysis

/-! ## Analysts -/

/-- The class has been asked for its fields, if it is one whose declaration is kept. -/
def State.Asked (s : State) (c : ItemId) : Prop :=
  ∀ source, s.classes.lookup c = some source → Stage.signatures.rank ≤ source.stage.rank

/-- What holds when a demand has been met. -/
def Demand.Met : {α : Type} → Demand α → State → Prop
  | _, .signatures c, s => s.Asked c
  | _, .synthesis c, s => s.Asked c
  | _, _, _ => True

/-- The analyst answers faithfully. -/
structure Analyst.Faithful (an : Analyst) : Prop where
  ask : ∀ {α : Type} (d : Demand α), SemanticAnalysis.Faithful (an.ask d)
  met : ∀ {α : Type} (d : Demand α) (s : State) (a : α) (s' : State), s.Grounded → an.ask d s = .ok a s' → d.Met s'

/-- Behind a demand it has been met. -/
theorem Within.ask {an : Analyst} (han : an.Faithful) {s₀ : State} (hs₀ : s₀.Grounded) {α : Type} (d : Demand α) :
    Within s₀ s₀.Vouched (an.ask d) fun _ s => s₀.Vouched s ∧ d.Met s := by
  intro s h₀ hv
  obtain ⟨hhonours, hrun⟩ := Within.of_faithful hs₀ (han.ask d) (Lasts.vouched hs₀) s h₀ hv
  exact ⟨hhonours, fun a s' h => ⟨hrun a s' h, han.met d s a s' (h₀.grounded hs₀) h⟩⟩

section

variable {an : Analyst} (han : an.Faithful) {frame : Frame} {scope : ScopeId}

include han

attribute [grind ←] Analyst.Faithful.ask

@[grind ←] theorem type_faithful {t : TypeExpr} : Faithful (an.type frame t scope) := han.ask _

@[grind ←] theorem expr_faithful {e : Expr} : Faithful (an.expr frame e scope) := han.ask _

@[grind ←] theorem stmt_faithful {stmt : Stmt} : Faithful (an.stmt frame stmt scope) := han.ask _

@[grind ←] theorem stmts_faithful {ss : List Stmt} : Faithful (an.stmts frame ss scope) :=
  .forM fun _ => stmt_faithful han

end

end SemanticAnalysis
