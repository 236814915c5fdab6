import SemanticAnalysis.Proofs.Analysis.Settled

/-!
# Steps that keep states sound

`Keeps n x y` compares two steps in the sound states with at least `n` items: they do the same, they
leave a sound state behind, also when they stop, and what they give names existing classes only. The
two steps are one step with two analysts, so a fact about a part of the analysis is of the form
`Keeps n (part an) (part an')`, from facts about what the analysts answer.

The number `n` is what the values at hand are known to stay below. It grows along a run: what a first
step gives is known from there on (`Keeps.bind`).
-/

namespace SemanticAnalysis

/-- How a step ends that began in `s`; `P` is about what it gives. -/
def Ends {α : Type} (P : State → α → Prop) (s : State) : EStateM.Result Diagnostic State α → Prop
  | .ok a s' => s'.Sound ∧ s.Onward s' ∧ P s' a
  | .error _ s' => s'.Sound ∧ s.Onward s'

/-- From `s` on, the steps do the same and end well, after what has been done since `start`. -/
def Runs {α : Type} (P : State → α → Prop) (start s : State) (x y : Analysis α) : Prop :=
  x s = y s ∧ Ends P start (x s)

/-- The steps do the same and keep states sound; what they give fits the number of items. -/
def Gives {α : Type} (n : Nat) (P : Nat → α → Prop) (x y : Analysis α) : Prop :=
  ∀ s : State, s.Sound → n ≤ s.bound → Runs (fun s' a => P s'.bound a) s s x y

/-- The steps do the same, keep states sound, and what they give names existing classes only. -/
def Keeps {α : Type} [NamesClasses α] (n : Nat) (x y : Analysis α) : Prop := Gives n Known x y

/-- The steps give an existing item. -/
def Makes (n : Nat) (x y : Analysis ItemId) : Prop := Gives n (fun m i => i.index < m) x y

section

variable {α β : Type} {n : Nat}

theorem Later.refl (n : Nat) : Later n n := Nat.le_refl n

@[grind →] theorem Later.le {m : Nat} (h : Later n m) : n ≤ m := h

@[grind ←] theorem Later.of_le {m : Nat} (h : n ≤ m) : Later n m := h

/-! ## Rules -/

namespace Runs

variable {P : State → α → Prop} {Q : State → β → Prop} {start s : State}
variable {x y : Analysis α} {f g : α → Analysis β}

theorem bind (hx : Runs P start s x y)
    (hf : ∀ a s', s'.Sound → start.Onward s' → P s' a → Runs Q start s' (f a) (g a)) :
    Runs Q start s (x >>= f) (y >>= g) := by
  obtain ⟨heq, hend⟩ := hx
  show EStateM.bind x f s = EStateM.bind y g s ∧ Ends _ start (EStateM.bind x f s)
  unfold EStateM.bind
  rw [← heq]
  cases hxs : x s with
  | error e s' =>
    rw [hxs] at hend
    exact ⟨rfl, hend⟩
  | ok a s' =>
    rw [hxs] at hend
    exact hf a s' hend.1 hend.2.1 hend.2.2

theorem tryCatch {h k : Diagnostic → Analysis α} (hx : Runs P start s x y)
    (hh : ∀ e s', s'.Sound → start.Onward s' → Runs P start s' (h e) (k e)) :
    Runs P start s (MonadExcept.tryCatch x h) (MonadExcept.tryCatch y k) := by
  obtain ⟨heq, hend⟩ := hx
  show EStateM.tryCatch x h s = EStateM.tryCatch y k s ∧ Ends _ start (EStateM.tryCatch x h s)
  unfold EStateM.tryCatch
  rw [← heq]
  cases hxs : x s with
  | ok a s' =>
    rw [hxs] at hend
    exact ⟨rfl, hend⟩
  | error e s' =>
    rw [hxs] at hend
    exact hh e s' hend.1 hend.2

theorem imp {R : State → α → Prop} (hx : Runs P start s x y) (h : ∀ a s', P s' a → R s' a) :
    Runs R start s x y := by
  obtain ⟨heq, hend⟩ := hx
  refine ⟨heq, ?_⟩
  cases hxs : x s with
  | error e s' =>
    rw [hxs] at hend
    exact hend
  | ok a s' =>
    rw [hxs] at hend
    exact ⟨hend.1, hend.2.1, h a s' hend.2.2⟩

theorem pure {a : α} (hs : s.Sound) (honward : start.Onward s) (h : P s a) :
    Runs P start s (Pure.pure a) (Pure.pure a) := ⟨rfl, hs, honward, h⟩

/-- First read the state. -/
theorem bind_read {h : State → α} (hf : Runs Q start s (f (h s)) (g (h s))) :
    Runs Q start s ((fun s => .ok (h s) s : Analysis α) >>= f)
      ((fun s => .ok (h s) s : Analysis α) >>= g) := hf

/-- First change the state. -/
theorem bind_change {u : State → State} {f g : PUnit → Analysis β}
    (hf : Runs Q start (u s) (f ⟨⟩) (g ⟨⟩)) :
    Runs Q start s (modify u >>= f) (modify u >>= g) := hf

/-- A run that comes after something else. -/
theorem after (hx : Runs P s s x y) (hs : start.Onward s) :
    Runs (fun s' a => s.Onward s' ∧ P s' a) start s x y := by
  obtain ⟨heq, hend⟩ := hx
  refine ⟨heq, ?_⟩
  cases hxs : x s with
  | error e s' =>
    rw [hxs] at hend
    exact ⟨hend.1, hs.trans hend.2⟩
  | ok a s' =>
    rw [hxs] at hend
    exact ⟨hend.1, hs.trans hend.2.1, hend.2⟩

end Runs

namespace Gives

variable {P : Nat → α → Prop} {Q : Nat → β → Prop} {x y : Analysis α} {f g : α → Analysis β}

theorem bind (hx : Gives n P x y)
    (hf : ∀ a m, Later n m → P m a → Gives m Q (f a) (g a)) : Gives n Q (x >>= f) (y >>= g) := by
  intro s hs hn
  refine (hx s hs hn).bind fun a s' hs' honward ha => ?_
  have hrest := hf a s'.bound (Nat.le_trans hn honward.bound_le) ha s' hs' (Nat.le_refl _)
  exact (hrest.after honward).imp fun _ _ h => h.2

theorem imp {R : Nat → α → Prop} (hx : Gives n P x y) (h : ∀ a m, P m a → R m a) :
    Gives n R x y := fun s hs hn => (hx s hs hn).imp fun a s' => h a s'.bound

theorem weaken {m : Nat} (hx : Gives n P x y) (h : Later n m) : Gives m P x y :=
  fun s hs hm => hx s hs (Nat.le_trans h hm)

/-- A step that only reads. -/
theorem read {h : State → α} (hh : ∀ s, Later n s.bound → Known s.bound s → P s.bound (h s)) :
    Gives n P (fun s => .ok (h s) s) (fun s => .ok (h s) s) :=
  fun s hs hn => ⟨rfl, hs, .refl s, hh s hn hs.known⟩

/-- An ordinary change of the state. -/
theorem grow {h : State → α × State} (hh : ∀ s : State, Later n s.bound → s.Grows (h s).2)
    (hP : ∀ s : State, Later n s.bound → Known s.bound s → P (h s).2.bound (h s).1) :
    Gives n P (modifyGet h) (modifyGet h) :=
  fun s hs hn => ⟨rfl, (hh s hn).sound hs, (hh s hn).onward, hP s hn hs.known⟩

theorem pure {a : α} (h : ∀ m, Later n m → P m a) : Gives n P (Pure.pure a) (Pure.pure a) :=
  read fun _ hm _ => h _ hm

theorem throw (e : Diagnostic) :
    Gives n P (MonadExcept.throw e : Analysis α) (MonadExcept.throw e) :=
  fun s hs _ => ⟨rfl, hs, .refl s⟩

theorem tryCatch {h k : Diagnostic → Analysis α} (hx : Gives n P x y)
    (hh : ∀ e, Gives n P (h e) (k e)) :
    Gives n P (MonadExcept.tryCatch x h) (MonadExcept.tryCatch y k) := by
  intro s hs hn
  refine (hx s hs hn).tryCatch fun e s' hs' honward => ?_
  have hrest := hh e s' hs' (Nat.le_trans hn honward.bound_le)
  exact (hrest.after honward).imp fun _ _ h => h.2

end Gives

namespace Keeps

variable [NamesClasses α] [NamesClasses β] {x y : Analysis α} {f g : α → Analysis β}

theorem weaken {m : Nat} (hx : Keeps n x y) (h : Later n m) : Keeps m x y := Gives.weaken hx h

@[grind ←] theorem pure {a : α} (h : Known n a) : Keeps n (Pure.pure a) (Pure.pure a) :=
  Gives.pure fun _ hm => h.mono hm

/-- Nothing that names classes is given. -/
theorem idle [NamesNone α] {a : α} : Keeps n (Pure.pure a) (Pure.pure a) :=
  .pure (known_of_namesNone n a)

@[grind ←] theorem throw (e : Diagnostic) :
    Keeps n (MonadExcept.throw e : Analysis α) (MonadExcept.throw e) := Gives.throw e

@[grind ←] theorem bind (hx : Keeps n x y)
    (hf : ∀ a m, Later n m → Known m a → Keeps m (f a) (g a)) : Keeps n (x >>= f) (y >>= g) :=
  Gives.bind hx hf

/-- First something that gives more than known classes. -/
theorem bind_gives {γ : Type} {P : Nat → γ → Prop} {x y : Analysis γ} {f g : γ → Analysis β}
    (hx : Gives n P x y) (hf : ∀ a m, Later n m → P m a → Keeps m (f a) (g a)) :
    Keeps n (x >>= f) (y >>= g) := Gives.bind hx hf

/-- First make an item. -/
theorem bind_makes {x y : Analysis ItemId} {f g : ItemId → Analysis β} (hx : Makes n x y)
    (hf : ∀ i m, Later n m → i.index < m → Keeps m (f i) (g i)) : Keeps n (x >>= f) (y >>= g) :=
  Gives.bind hx hf

/-- Nothing follows an error. -/
theorem stop {γ : Type} {e : Diagnostic} {f g : γ → Analysis β} :
    Keeps n ((MonadExcept.throw e : Analysis γ) >>= f) ((MonadExcept.throw e : Analysis γ) >>= g) :=
  Keeps.throw e

/-- First do something under a condition. -/
theorem guard {c : Prop} [Decidable c] {x y : Analysis PUnit} {f g : PUnit → Analysis β}
    (hx : Keeps n x y) (hf : ∀ m, Later n m → Keeps m (f ⟨⟩) (g ⟨⟩)) :
    Keeps n (if c then x >>= f else f ⟨⟩) (if c then y >>= g else g ⟨⟩) := by
  split
  · exact hx.bind fun _ m hm _ => hf m hm
  · exact hf n (.refl n)

@[grind ←] theorem map {h : α → β} (hx : Keeps n x y)
    (hh : ∀ a m, Later n m → Known m a → Known m (h a)) : Keeps n (h <$> x) (h <$> y) := by
  rw [← bind_pure_comp, ← bind_pure_comp]
  exact hx.bind fun a m hm ha => .pure (hh a m hm ha)

@[grind ←] theorem discard (hx : Keeps n x y) : Keeps n (discard x) (discard y) :=
  hx.map fun _ m _ _ => known_of_namesNone m _

@[grind ←] theorem tryCatch {h k : Diagnostic → Analysis α} (hx : Keeps n x y)
    (hh : ∀ e, Keeps n (h e) (k e)) :
    Keeps n (MonadExcept.tryCatch x h) (MonadExcept.tryCatch y k) := Gives.tryCatch hx hh

/-! ### Lists -/

@[grind ←] theorem forM {γ : Type} {xs : List γ} {f g : γ → Analysis PUnit}
    (h : ∀ a ∈ xs, ∀ m, Later n m → Keeps m (f a) (g a)) : Keeps n (xs.forM f) (xs.forM g) := by
  induction xs generalizing n with
  | nil => exact .pure (known_of_namesNone n _)
  | cons a rest ih =>
    refine (h a List.mem_cons_self n (.refl n)).bind fun _ m hm _ => ih fun b hb k hk => ?_
    exact h b (List.mem_cons_of_mem _ hb) k (Nat.le_trans hm hk)

@[grind ←] theorem mapM {γ : Type} {xs : List γ} {f g : γ → Analysis β}
    (h : ∀ a ∈ xs, ∀ m, Later n m → Keeps m (f a) (g a)) : Keeps n (xs.mapM f) (xs.mapM g) := by
  induction xs generalizing n with
  | nil => exact .pure known_nil
  | cons a rest ih =>
    rw [List.mapM_cons, List.mapM_cons]
    refine (h a List.mem_cons_self n (.refl n)).bind fun b m hm hb => ?_
    refine (ih fun c hc k hk => ?_).bind fun bs k hk hbs => .pure ?_
    · exact h c (List.mem_cons_of_mem _ hc) k (Nat.le_trans hm hk)
    · exact (known_cons _ _).2 ⟨hb.mono hk, hbs⟩

@[grind ←] theorem foldlM {γ : Type} {xs : List γ} {f g : β → γ → Analysis β} {b : β}
    (hb : Known n b)
    (h : ∀ a ∈ xs, ∀ b m, Later n m → Known m b → Keeps m (f b a) (g b a)) :
    Keeps n (xs.foldlM f b) (xs.foldlM g b) := by
  induction xs generalizing n b with
  | nil => exact .pure hb
  | cons a rest ih =>
    rw [List.foldlM_cons, List.foldlM_cons]
    refine (h a List.mem_cons_self b n (.refl n) hb).bind fun c m hm hc => ih hc ?_
    intro d hd e k hk he
    exact h d (List.mem_cons_of_mem _ hd) e k (Nat.le_trans hm hk) he

@[grind ←] theorem filterMapM {γ : Type} {xs : List γ} {f g : γ → Analysis (Option β)}
    (h : ∀ a ∈ xs, ∀ m, Later n m → Keeps m (f a) (g a)) :
    Keeps n (xs.filterMapM f) (xs.filterMapM g) := by
  have hloop : ∀ (ys : List γ) (acc : List β) (n : Nat), Known n acc →
      (∀ a ∈ ys, ∀ m, Later n m → Keeps m (f a) (g a)) →
      Keeps n (List.filterMapM.loop f ys acc) (List.filterMapM.loop g ys acc) := by
    intro ys
    induction ys with
    | nil => exact fun acc n hacc _ => .pure (hacc.sublist fun _ => List.mem_reverse.1)
    | cons a rest ih =>
      intro acc n hacc hys
      unfold List.filterMapM.loop
      refine (hys a List.mem_cons_self n (.refl n)).bind fun o m hm ho => ?_
      have hrest : ∀ b ∈ rest, ∀ k, Later m k → Keeps k (f b) (g b) := fun b hb k hk =>
        hys b (List.mem_cons_of_mem _ hb) k (Nat.le_trans hm hk)
      cases o with
      | none => exact ih acc m (hacc.mono hm) hrest
      | some b => exact ih (b :: acc) m ((known_cons _ _).2 ⟨ho, hacc.mono hm⟩) hrest
  exact hloop xs [] n known_nil h

@[grind ←] theorem optionMapM {γ : Type} {o : Option γ} {f g : γ → Analysis β}
    (h : ∀ a, o = some a → Keeps n (f a) (g a)) : Keeps n (o.mapM f) (o.mapM g) := by
  cases o with
  | none => exact .pure known_none
  | some a => exact (h a rfl).map fun b m _ hb => (known_some b).2 hb

end Keeps

namespace Makes

variable [NamesClasses α] {x y : Analysis α} {f g : α → Analysis ItemId} {i : ItemId}

theorem keeps {x y : Analysis ItemId} (h : Makes n x y) : Keeps n x y :=
  Gives.imp h fun _ m _ => known_of_namesNone m _

theorem pure (h : i.index < n) : Makes n (Pure.pure i) (Pure.pure i) :=
  Gives.pure fun _ hm => Nat.lt_of_lt_of_le h hm

theorem throw (e : Diagnostic) :
    Makes n (MonadExcept.throw e : Analysis ItemId) (MonadExcept.throw e) := Gives.throw e

theorem bind (hx : Keeps n x y)
    (hf : ∀ a m, Later n m → Known m a → Makes m (f a) (g a)) : Makes n (x >>= f) (y >>= g) :=
  Gives.bind hx hf

theorem bind_makes {x y : Analysis ItemId} {f g : ItemId → Analysis ItemId} (hx : Makes n x y)
    (hf : ∀ i m, Later n m → i.index < m → Makes m (f i) (g i)) : Makes n (x >>= f) (y >>= g) :=
  Gives.bind hx hf

theorem guard {c : Prop} [Decidable c] {x y : Analysis PUnit} {f g : PUnit → Analysis ItemId}
    (hx : Keeps n x y) (hf : ∀ m, Later n m → Makes m (f ⟨⟩) (g ⟨⟩)) :
    Makes n (if c then x >>= f else f ⟨⟩) (if c then y >>= g else g ⟨⟩) := by
  split
  · exact .bind hx fun _ m hm _ => hf m hm
  · exact hf n (.refl n)

end Makes

/-! ## The state -/

@[grind ←] theorem get_keeps : Keeps n (get : Analysis State) get :=
  Gives.read fun _ _ hs => hs

@[grind ←] theorem modify_keeps {f : State → State}
    (hf : ∀ s : State, Later n s.bound → s.Grows (f s)) :
    Keeps n (modify f : Analysis PUnit) (modify f) :=
  Gives.grow hf fun _ _ _ => known_of_namesNone _ _

/-- A change of something else. -/
@[grind ←] theorem aside_keeps {f : State → State} (hf : ∀ s : State, (f s).tracked = s.tracked) :
    Keeps n (modify f : Analysis PUnit) (modify f) := modify_keeps fun s _ => .of_eq (hf s)

attribute [grind ←] State.Grows.of_table

namespace Analysis

variable [NamesClasses α] {frame : Frame} {node : Node}

@[grind ←] theorem fail_keeps {p : Position} {c : Cause} :
    Keeps n (fail p c : Analysis α) (fail p c) := .throw _

@[grind ←] theorem failOther_keeps {p : Position} {m : String} :
    Keeps n (failOther p m : Analysis α) (failOther p m) := .throw _

@[grind ←] theorem misplaced_keeps {c r : String} {p : Position} :
    Keeps n (misplaced c r p : Analysis α) (misplaced c r p) := .throw _

@[grind ←] theorem expect_keeps {what : String} {o : Option α} (h : Known n o) :
    Keeps n (expect what o) (expect what o) := by
  cases o with
  | none => exact .throw _
  | some a => exact .pure h

omit [NamesClasses α] in
theorem look_gives {P : Nat → α → Prop} {f : SymbolTable → α}
    (h : ∀ t : SymbolTable, Known t.items.size t → P t.items.size (f t)) :
    Gives n P (look f) (look f) :=
  Gives.read fun s _ hs => h s.table (known_state.1 hs).1

@[grind ←] theorem look_keeps {f : SymbolTable → α}
    (h : ∀ t m, Later n m → Known m t → Known m (f t)) : Keeps n (look f) (look f) :=
  Gives.read fun s hn hs => h s.table s.bound hn (known_state.1 hs).1

theorem enclosingClass_gives {scope : ScopeId} :
    Gives n (fun m o => ∀ c, o = some c → c.index < m) (look (·.enclosingClass? scope))
      (look (·.enclosingClass? scope)) :=
  look_gives fun _ ht _ hc => SymbolTable.enclosingClass_lt ht hc

@[grind ←] theorem change_keeps {f : SymbolTable → SymbolTable}
    (h : ∀ t : SymbolTable, Later n t.items.size → t.Extends (f t)) :
    Keeps n (change f) (change f) :=
  modify_keeps fun s hn => .of_table (h s.table hn)

@[grind ←] theorem make_keeps {f : SymbolTable → α × SymbolTable}
    (h : ∀ t : SymbolTable, Later n t.items.size → t.Extends (f t).2)
    (hknown : ∀ t : SymbolTable, Later n t.items.size → Known (f t).2.items.size (f t).1) :
    Keeps n (make f) (make f) :=
  Gives.grow (fun s hn => .of_table (h s.table hn)) fun s hn _ => hknown s.table hn

@[grind ←] theorem typeText_keeps {ty : Ty} : Keeps n (typeText ty) (typeText ty) :=
  look_keeps fun _ m _ _ => known_of_namesNone m _

@[grind ←] theorem itemName_keeps {i : ItemId} : Keeps n (itemName i) (itemName i) :=
  look_keeps fun _ m _ _ => known_of_namesNone m _

@[grind ←] theorem newScope_keeps {parent : ScopeId} :
    Keeps n (newScope parent) (newScope parent) :=
  make_keeps (fun _ _ => .newScope) fun _ _ => known_of_namesNone _ _

/-- A new item exists. A class starts without parents. -/
theorem addItem_makes {item : Item} (hparents : item.parents = []) (hknown : Known n item) :
    Makes n (addItem item) (addItem item) := by
  refine Gives.grow (fun s hn => .of_table (.addItem hparents (hknown.mono hn))) fun s _ _ => ?_
  show s.table.items.size < (s.table.addItem item).2.items.size
  rw [SymbolTable.size_addItem]
  exact Nat.lt_succ_self _

@[grind ←] theorem addItem_keeps {item : Item} (hparents : item.parents = [])
    (hknown : Known n item) : Keeps n (addItem item) (addItem item) :=
  (addItem_makes hparents hknown).keeps

@[grind ←] theorem setOwner_keeps {s : ScopeId} {owner : ScopeOwner}
    (h : ∀ c, owner = .cls c → c.index < n) : Keeps n (setOwner s owner) (setOwner s owner) :=
  change_keeps fun _ hn => .setOwner fun c hc => Nat.lt_of_lt_of_le (h c hc) hn

@[grind ←] theorem openFrame_keeps {m : ModuleId} : Keeps n (openFrame m) (openFrame m) :=
  Gives.grow (fun _ _ => .of_eq rfl) fun _ _ _ => known_of_namesNone _ _

@[grind ←] theorem freshNode_keeps {p : Position} : Keeps n (freshNode p) (freshNode p) :=
  Gives.grow (fun _ _ => .of_eq rfl) fun _ _ _ => known_of_namesNone _ _

@[grind ←] theorem conversion_keeps {src dst : Ty} :
    Keeps n (conversion src dst) (conversion src dst) :=
  Gives.read fun _ _ _ => known_of_namesNone _ _

/-! ### Details -/

@[grind ←] theorem record_keeps {d : Detail} (h : Known n d) :
    Keeps n (record frame node d) (record frame node d) := by
  intro s hs hn
  unfold record
  refine .bind_read (h := fun s => s) ?_
  split
  · rename_i details hok
    have hgrows : s.Grows { s with details } :=
      .of_details fun hdetails => known_insert hdetails (h.mono hn) hok
    exact ⟨rfl, hgrows.sound hs, hgrows.onward, known_of_namesNone _ ()⟩
  · exact ⟨rfl, hs, .refl s⟩

/-- Most details are not about a name. -/
theorem recordUnnamed_keeps {d : Detail} (h : d.name? = none) :
    Keeps n (record frame node d) (record frame node d) :=
  record_keeps (known_detail.2 fun nd hnd => by rw [h] at hnd; cases hnd)

@[grind ←] theorem detail?_keeps : Keeps n (detail? frame node) (detail? frame node) := by
  refine Gives.read fun s _ hs => ?_
  cases hd : s.details.get? ⟨frame.id, node.id⟩ with
  | none => exact known_none
  | some d => exact (known_some d).2 ((known_state.1 hs).2.1.detail hd)

@[grind ←] theorem narrow_keeps {item : ItemId} {ty : Ty} :
    Keeps n (narrow frame node item ty) (narrow frame node item ty) :=
  modify_keeps fun _ _ => .of_details fun h => known_modifyDetail h fun _ => known_narrowTo

@[grind ←] theorem castImplicitly_keeps {cast : ImplicitCast} :
    Keeps n (castImplicitly frame node cast) (castImplicitly frame node cast) :=
  modify_keeps fun _ _ => .of_details fun h => known_modifyDetail h fun _ => known_mapInfo

/-! ### Declarations -/

@[grind ←] theorem declared?_keeps : Keeps n (declared? frame node) (declared? frame node) :=
  Gives.read fun _ _ _ => known_of_namesNone _ _

@[grind ←] theorem recordDeclared_keeps {item : ItemId} :
    Keeps n (recordDeclared frame node item) (recordDeclared frame node item) :=
  aside_keeps fun _ => rfl

@[grind ←] theorem classSource?_keeps {cls : ItemId} :
    Keeps n (classSource? cls) (classSource? cls) :=
  Gives.read fun _ _ _ => known_of_namesNone _ _

@[grind ←] theorem template?_keeps {item : ItemId} : Keeps n (template? item) (template? item) := by
  refine Gives.read fun s _ hs => ?_
  cases ht : s.templates.lookup item with
  | none => exact known_none
  | some t => exact (known_some t).2 ((known_state.1 hs).2.2.2.lookup ht)

@[grind ←] theorem setStage_keeps {cls : ItemId} {stage : Stage}
    (h : Stage.signatures.rank ≤ stage.rank) :
    Keeps n (setStage cls stage) (setStage cls stage) :=
  fun s hs _ => ⟨rfl, hs.withStage h, .withStage h, known_of_namesNone s.bound ()⟩

/-! ### Errors -/

variable {x y : Analysis α}

@[grind ←] theorem recover_keeps (hx : Keeps n x y) : Keeps n (recover x) (recover y) := by
  unfold recover
  refine .tryCatch (hx.map fun a m _ ha => (known_some a).2 ha) fun e => ?_
  refine get_keeps.bind fun s m _ _ => ?_
  split
  · exact .bind (aside_keeps fun _ => rfl) fun _ _ _ _ => .pure known_none
  · exact .throw e

@[grind ←] theorem giveUp_keeps {e : Diagnostic} : Keeps n (giveUp e) (giveUp e) :=
  aside_keeps fun _ => rfl

@[grind ←] theorem andFinally_keeps {last last' : Analysis Unit} (hx : Keeps n x y)
    (hlast : Keeps n last last') : Keeps n (andFinally x last) (andFinally y last') := by
  unfold andFinally
  refine (hx.tryCatch fun e => hlast.bind fun _ _ _ _ => .throw e).bind fun a m hm ha => ?_
  exact (hlast.weaken hm).bind fun _ k hk _ => .pure (ha.mono hk)

end Analysis

/-- An item that is found exists. -/
theorem Keeps.bind_item [NamesClasses β] {i : ItemId} {what : String} {f g : Item → Analysis β}
    (hf : ∀ item m, Later n m → Known m item → i.index < m → Keeps m (f item) (g item)) :
    Keeps n (Analysis.look (·.item? i) >>= fun o => Analysis.expect what o >>= f)
      (Analysis.look (·.item? i) >>= fun o => Analysis.expect what o >>= g) := by
  have hlook : Gives n (fun m o => Known m o ∧ ∀ item, o = some item → i.index < m)
      (Analysis.look (·.item? i)) (Analysis.look (·.item? i)) :=
    Analysis.look_gives fun _ ht =>
      ⟨SymbolTable.known_item? ht, fun _ hitem => SymbolTable.lt_of_item? hitem⟩
  refine .bind_gives hlook fun o m hm ⟨ho, hi⟩ => ?_
  cases o with
  | none => exact .throw _
  | some item => exact hf item m hm ho (hi item rfl)

/-- So does a class. -/
theorem Keeps.bind_class [NamesClasses β] {i : ItemId} {what : String} {f g : Class → Analysis β}
    (hf : ∀ c m, Later n m → Known m c → i.index < m → Keeps m (f c) (g c)) :
    Keeps n (Analysis.look (·.class? i) >>= fun o => Analysis.expect what o >>= f)
      (Analysis.look (·.class? i) >>= fun o => Analysis.expect what o >>= g) := by
  have hlook : Gives n (fun m o => Known m o ∧ ∀ c, o = some c → i.index < m)
      (Analysis.look (·.class? i)) (Analysis.look (·.class? i)) :=
    Analysis.look_gives fun _ ht =>
      ⟨SymbolTable.known_class? ht, fun _ hc => SymbolTable.lt_of_class? hc⟩
  refine .bind_gives hlook fun o m hm ⟨ho, hi⟩ => ?_
  cases o with
  | none => exact .throw _
  | some c => exact hf c m hm ho (hi c rfl)

/-! ## Analysts -/

/-- What the answer to a demand promises, from the states before and behind it. -/
def Demand.Promises : {α : Type} → Demand α → State → State → α → Prop
  | _, .type .., _, s', ty => Known s'.bound ty
  | _, .expr .., _, s', info => Known s'.bound info
  | _, .signatures cls, s, s', _ => cls.index < s.bound → s'.Settled cls
  | _, _, _, _, _ => True

/-- Two analysts answer alike, keep states sound and keep their promises. -/
def Analyst.Agrees (an an' : Analyst) : Prop :=
  ∀ (α : Type) (d : Demand α) (s : State), s.Sound →
    Runs (d.Promises s) s s (an.ask d) (an'.ask d)

section

variable {an an' : Analyst} (han : an.Agrees an') {frame : Frame} {scope : ScopeId}

include han

/-- Demands whose answers name no classes. -/
@[grind ←] theorem Analyst.Agrees.keeps [NamesClasses α] [NamesNone α] (d : Demand α) :
    Keeps n (an.ask d) (an'.ask d) :=
  fun s hs _ => (han α d s hs).imp fun a s' _ => known_of_namesNone s'.bound a

theorem Analyst.Agrees.signatures {s : State} {cls : ItemId} (hs : s.Sound)
    (hcls : cls.index < s.bound) :
    Runs (fun s' _ => s'.Settled cls) s s (an.ask (.signatures cls)) (an'.ask (.signatures cls)) :=
  (han _ (.signatures cls) s hs).imp fun _ _ hsettled => hsettled hcls

@[grind ←] theorem type_keeps {t : TypeExpr} :
    Keeps n (an.type frame t scope) (an'.type frame t scope) :=
  fun s hs _ => han _ (.type frame t scope) s hs

@[grind ←] theorem Analyst.Agrees.expr {e : Expr} {access : Access} :
    Keeps n (an.ask (.expr frame e scope access)) (an'.ask (.expr frame e scope access)) :=
  fun s hs _ => han _ (.expr frame e scope access) s hs

@[grind ←] theorem expr_keeps {e : Expr} :
    Keeps n (an.expr frame e scope) (an'.expr frame e scope) := han.expr

@[grind ←] theorem stmt_keeps {s : Stmt} :
    Keeps n (an.stmt frame s scope) (an'.stmt frame s scope) := han.keeps _

@[grind ←] theorem stmts_keeps {ss : List Stmt} :
    Keeps n (an.stmts frame ss scope) (an'.stmts frame ss scope) :=
  .forM fun _ _ _ _ => stmt_keeps han

end

end

end SemanticAnalysis
