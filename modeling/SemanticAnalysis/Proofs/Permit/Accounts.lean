import SemanticAnalysis.Proofs.Permit.Nodes
import SemanticAnalysis.Proofs.SymbolTable.Templates

/-!
# The accounts of an analysis

At any moment each permit is in one place at most: it has been used, it is kept for a class that is not
done, it waits with an instance, or somebody holds it who is at work. `State.Accounts s held` says so of a
state in which the work under way holds `held`. A class keeps the permits of its members until it resolves
its head, and those of its bodies as long as somebody has the right to open it.
-/

namespace SemanticAnalysis

/-- The declaration of a class, as a key. -/
def ClassSource.key (source : ClassSource) : DetailKey := ⟨source.frame.id, source.decl.node.id⟩

namespace State

variable (s : State)

/-! ## Where permits are -/

/-- The right to analyse the bodies of a class. -/
def opening (cls : ItemId) : Holding :=
  match s.classes.lookup cls with
  | some source => source.key.opening
  | none => 0

/-- What waits with the instances whose bodies are still to be analysed. -/
def waiting : Holding :=
  (s.pendingClasses.map s.opening).sum +
    (s.pendingFunctions.map fun f => f.decl.bodyCost f.frame.id).sum

/-- What the recorded details have used. -/
def recorded : Holding := (s.details.entries.toList.map fun e => e.1.permit .detail).sum

/-- What a declaration has used. -/
def declaredCost (k : DetailKey) (item : ItemId) : Holding :=
  k.permit .declare + if s.table.isGeneric item then 0 else k.permit .ordinary

/-- What the declarations have used. -/
def declarations : Holding := (s.declared.map fun e => s.declaredCost e.1 e.2).sum

/-- What the bodies of the member functions made for a class take. -/
def madeCost (cls : ItemId) (f : FrameId) : Holding :=
  (((s.synthesized.lookup cls).getD []).map (·.bodyCost f)).sum

/-- What the classes that were made have used. -/
def created : Holding := (s.classes.map fun e => e.2.key.permit .create).sum

/-- What has been used. -/
def used : Holding := s.recorded + s.declarations + s.created

/-- What a class keeps, when `out` is not kept by anybody. -/
def reserve (out : Holding) (cls : ItemId) (source : ClassSource) : Holding :=
  (if source.stage = .declared then source.decl.headCost source.frame.id else 0) +
    (if out ⟨source.key, .bodies⟩ = 0 then 0 else source.decl.bodyCost source.frame.id) +
    (if out ⟨source.key, .made⟩ = 0 then 0 else s.madeCost cls source.frame.id)

/-- What the classes keep. -/
def kept (out : Holding) : Holding := (s.classes.map fun e => s.reserve out e.1 e.2).sum

/-! ## What exists -/

/-- The node is written, or made already. -/
def HasNode (n : NodeId) : Prop := ∀ k, n = .synthetic k → k < s.nodesMade

/-- The permit is for a node and a frame that exist. -/
def Knows (p : Permit) : Prop := p.key.frame.index < s.nextFrame ∧ s.HasNode p.key.node

/-- The nodes of a tree that may be analysed in a new frame: they exist, each once. -/
def Admits (ids : List NodeId) : Prop := ids.Nodup ∧ ∀ n ∈ ids, s.HasNode n

end State

/-- The nodes of a template. -/
def Template.ids : Template → List NodeId
  | .cls decl .. => Stmt.classIds decl
  | .fn decl .. => Stmt.functionIds decl

/-- The modules that a resolver finds are trees as a reader makes them. -/
def Resolver.Distinct (r : Resolver) : Prop :=
  ∀ path m, r.parse path = .ok m → m.root.Distinct

/-! ## Accounts -/

/-- Nothing is used, kept or left twice, when `out` is left. -/
structure State.Balanced (s : State) (out : Holding) : Prop where
  once : ∀ p, s.used p + s.kept out p + out p ≤ 1
  known : ∀ p, s.used p + s.kept out p + out p ≠ 0 → s.Knows p
  /-- A class that may still be opened is declared under its own node. -/
  keyed : ∀ k cls, (k, cls) ∈ s.declared → out ⟨k, .bodies⟩ ≠ 0 →
    cls.index < s.table.items.size ∧ ∀ source, s.classes.lookup cls = some source → source.key = k
  classes_nodup : (s.classes.map (·.1)).Nodup
  classes_lt : ∀ e ∈ s.classes, e.1.index < s.table.items.size
  pending_lt : ∀ cls ∈ s.pendingClasses, cls.index < s.table.items.size
  synthesized_lt : ∀ e ∈ s.synthesized, e.1.index < s.table.items.size
  templates : ∀ e ∈ s.templates, s.Admits e.2.ids
  library : ∀ r, s.library = some r → r.Distinct
  attributes : s.attributes.KeepsTemplates
  errors : ∀ e ∈ s.errors, e.cause ≠ .alreadyDetailed
  dropped : ∀ e ∈ s.dropped, e.cause ≠ .alreadyDetailed

/-- Nothing is used, kept or held twice, when the work under way holds `held`. -/
def State.Accounts (s : State) (held : Holding) : Prop := s.Balanced (s.waiting + held)

/-- `s'` is a later state than `s`: what exists stays, classes keep their declarations and are made of new
items only, and what is declared or filed as a template stays so. -/
structure State.Continues (s s' : State) : Prop where
  size_le : s.table.items.size ≤ s'.table.items.size
  frames_le : s.nextFrame ≤ s'.nextFrame
  classes : ∀ cls source, s.classes.lookup cls = some source → ∃ source',
    s'.classes.lookup cls = some source' ∧ source'.decl = source.decl ∧
      source'.frame = source.frame
  unmade : ∀ cls : ItemId, cls.index < s.table.items.size → s.classes.lookup cls = none →
    s'.classes.lookup cls = none
  declared : ∀ k, (s.declared.lookup k).isSome → (s'.declared.lookup k).isSome
  templates : ∀ e ∈ s.templates, e ∈ s'.templates

theorem State.Continues.refl (s : State) : s.Continues s where
  size_le := Nat.le_refl _
  frames_le := Nat.le_refl _
  classes _ source h := ⟨source, h, rfl, rfl⟩
  unmade _ _ h := h
  declared _ h := h
  templates _ h := h

theorem State.Continues.trans {s s' s'' : State} (h : s.Continues s') (h' : s'.Continues s'') :
    s.Continues s'' where
  size_le := Nat.le_trans h.size_le h'.size_le
  frames_le := Nat.le_trans h.frames_le h'.frames_le
  classes cls source hs := by
    obtain ⟨source', hs', hdecl, hframe⟩ := h.classes cls source hs
    obtain ⟨source'', hs'', hdecl', hframe'⟩ := h'.classes cls source' hs'
    exact ⟨source'', hs'', hdecl'.trans hdecl, hframe'.trans hframe⟩
  unmade cls hlt hs := h'.unmade cls (Nat.lt_of_lt_of_le hlt h.size_le) (h.unmade cls hlt hs)
  declared k hk := h'.declared k (h.declared k hk)
  templates e he := h'.templates e (h.templates e he)

/-- The class is there, however far it has come. -/
structure State.HasClass (s : State) (cls : ItemId) (source : ClassSource) : Prop where
  lt : cls.index < s.table.items.size
  known : ∃ known, s.classes.lookup cls = some known ∧ known.decl = source.decl ∧
    known.frame = source.frame

theorem State.Continues.hasClass {s s' : State} {cls : ItemId} {source : ClassSource}
    (h : s.Continues s') (hcls : s.HasClass cls source) : s'.HasClass cls source := by
  obtain ⟨known, hknown, hdecl, hframe⟩ := hcls.known
  obtain ⟨known', hknown', hdecl', hframe'⟩ := h.classes cls known hknown
  exact ⟨Nat.lt_of_lt_of_le hcls.lt h.size_le, known', hknown', hdecl'.trans hdecl,
    hframe'.trans hframe⟩

theorem State.HasClass.key_eq {s : State} {cls : ItemId} {source known : ClassSource}
    (h : s.HasClass cls source) (hknown : s.classes.lookup cls = some known) :
    known.key = source.key := by
  obtain ⟨known', hknown', hdecl, hframe⟩ := h.known
  cases hknown.symm.trans hknown'
  rw [ClassSource.key, ClassSource.key, hdecl, hframe]

theorem State.HasClass.opening_eq {s : State} {cls : ItemId} {source : ClassSource}
    (h : s.HasClass cls source) : s.opening cls = source.key.opening := by
  obtain ⟨known, hknown, -⟩ := h.known
  rw [State.opening, hknown, ← h.key_eq hknown]

/-! ## Sums -/

/-- Two rows, the second one with something more at one place. -/
theorem sum_add_le_sum {α : Type} {xs : List α} {f g : α → Holding} {x : α} {h : Holding}
    (hx : x ∈ xs) (hle : ∀ y ∈ xs, f y ≤ g y) (hmore : f x + h ≤ g x) :
    (xs.map f).sum + h ≤ (xs.map g).sum := by
  induction xs with
  | nil => cases hx
  | cons y rest ih =>
    simp only [List.map_cons, List.sum_cons]
    rcases List.mem_cons.1 hx with rfl | hrest
    · calc f x + (rest.map f).sum + h = f x + h + (rest.map f).sum := by ac_rfl
        _ ≤ g x + (rest.map g).sum :=
          add_le_add hmore (List.sum_le_sum fun y hy => hle y (List.mem_cons_of_mem _ hy))
    · calc f y + (rest.map f).sum + h = f y + ((rest.map f).sum + h) := by ac_rfl
        _ ≤ g y + (rest.map g).sum :=
          add_le_add (hle y List.mem_cons_self)
            (ih hrest fun y hy => hle y (List.mem_cons_of_mem _ hy))

/-- Two rows of things with different keys, the first one with something more at one key. -/
theorem sum_le_sum_add {α β : Type} {xs : List α} {key : α → β} {c : β} {f g : α → Holding}
    {h : Holding} (hnodup : (xs.map key).Nodup) (hother : ∀ y ∈ xs, key y ≠ c → f y ≤ g y)
    (hmore : ∀ y ∈ xs, key y = c → f y ≤ g y + h) : (xs.map f).sum ≤ (xs.map g).sum + h := by
  induction xs with
  | nil => exact fun p => Nat.zero_le _
  | cons y rest ih =>
    obtain ⟨hy, hnodup⟩ := List.nodup_cons.1 hnodup
    simp only [List.map_cons, List.sum_cons]
    by_cases hkey : key y = c
    · have hrest : (rest.map f).sum ≤ (rest.map g).sum := by
        refine List.sum_le_sum fun z hz => hother z (List.mem_cons_of_mem _ hz) ?_
        rintro rfl
        exact hy (hkey ▸ List.mem_map_of_mem hz)
      calc f y + (rest.map f).sum ≤ g y + h + (rest.map g).sum :=
            add_le_add (hmore y List.mem_cons_self hkey) hrest
        _ = g y + (rest.map g).sum + h := by ac_rfl
    · calc f y + (rest.map f).sum ≤ g y + ((rest.map g).sum + h) :=
            add_le_add (hother y List.mem_cons_self hkey)
              (ih hnodup (fun z hz => hother z (List.mem_cons_of_mem _ hz))
                fun z hz => hmore z (List.mem_cons_of_mem _ hz))
        _ = g y + (rest.map g).sum + h := by ac_rfl

/-- What stands in a row is part of its sum. -/
theorem apply_le_sum {α : Type} {xs : List α} {f : α → Holding} {x : α} (hx : x ∈ xs) :
    f x ≤ (xs.map f).sum := by
  intro p
  have h := sum_add_le_sum (f := fun _ => 0) (g := f) hx (fun y _ q => Nat.zero_le _)
    (le_of_eq (zero_add (f x))) p
  exact Nat.le_trans (Nat.le_add_left _ _) h

/-- What a lookup finds is there. -/
theorem mem_of_lookup {α β : Type} [BEq α] [LawfulBEq α] {xs : List (α × β)} {a : α} {b : β}
    (h : xs.lookup a = some b) : (a, b) ∈ xs := by
  obtain ⟨before, after, heq, -⟩ := List.lookup_eq_some_iff.1 h
  rw [heq]
  exact List.mem_append_right _ List.mem_cons_self

@[simp] theorem DetailKey.permit_self (k : DetailKey) (e : Entry) : k.permit e ⟨k, e⟩ = 1 := if_pos rfl

/-! ## What the accounts say -/

namespace State

variable {s s' : State} {out out' : Holding}

theorem reserve_mono {cls : ItemId} {source : ClassSource}
    (hbodies : out' ⟨source.key, .bodies⟩ ≠ 0 → out ⟨source.key, .bodies⟩ ≠ 0)
    (hmade : out' ⟨source.key, .made⟩ ≠ 0 → out ⟨source.key, .made⟩ ≠ 0) :
    s.reserve out' cls source ≤ s.reserve out cls source := by
  unfold reserve
  refine add_le_add (add_le_add (le_refl _) ?_) ?_
  · by_cases h : out' ⟨source.key, .bodies⟩ = 0
    · rw [if_pos h]
      exact fun p => Nat.zero_le _
    · rw [if_neg h, if_neg (hbodies h)]
  · by_cases h : out' ⟨source.key, .made⟩ = 0
    · rw [if_pos h]
      exact fun p => Nat.zero_le _
    · rw [if_neg h, if_neg (hmade h)]

theorem kept_mono
    (h : ∀ e ∈ s.classes, (out' ⟨e.2.key, .bodies⟩ ≠ 0 → out ⟨e.2.key, .bodies⟩ ≠ 0) ∧
      (out' ⟨e.2.key, .made⟩ ≠ 0 → out ⟨e.2.key, .made⟩ ≠ 0)) : s.kept out' ≤ s.kept out :=
  List.sum_le_sum fun e he => reserve_mono (h e he).1 (h e he).2

theorem kept_mono_of_le (h : out' ≤ out) : s.kept out' ≤ s.kept out := by
  refine kept_mono fun e _ => ⟨fun hne => ?_, fun hne => ?_⟩
  · exact Nat.ne_of_gt (Nat.lt_of_lt_of_le (Nat.pos_of_ne_zero hne) (h _))
  · exact Nat.ne_of_gt (Nat.lt_of_lt_of_le (Nat.pos_of_ne_zero hne) (h _))

namespace Balanced

variable (h : s.Balanced out)

include h

/-- Who has the right to record a detail finds none. -/
theorem contains_eq_false {k : DetailKey} (hk : out ⟨k, .detail⟩ ≠ 0) :
    s.details.contains k = false := by
  by_contra hcontains
  rw [Bool.not_eq_false, DetailTable.contains, Array.any_eq_true'] at hcontains
  obtain ⟨e, he, hkey⟩ := hcontains
  have hpart : e.1.permit .detail ⟨k, .detail⟩ ≤ s.recorded ⟨k, .detail⟩ :=
    apply_le_sum (f := fun e : DetailKey × Detail => e.1.permit .detail)
      (Array.mem_toList_iff.2 he) ⟨k, .detail⟩
  rw [eq_of_beq hkey, DetailKey.permit_self] at hpart
  have honce := h.once ⟨k, .detail⟩
  simp only [used, Pi.add_apply] at honce
  omega

/-- Who keeps the right to declare an ordinary item at a node finds none but templates there. -/
theorem isGeneric {k : DetailKey} {item : ItemId} (hk : (k, item) ∈ s.declared)
    (hordinary : out ⟨k, .ordinary⟩ ≠ 0) : s.table.isGeneric item = true := by
  by_contra hgeneric
  have hpart : s.declaredCost k item ⟨k, .ordinary⟩ ≤ s.declarations ⟨k, .ordinary⟩ :=
    apply_le_sum (f := fun e : DetailKey × ItemId => s.declaredCost e.1 e.2) hk ⟨k, .ordinary⟩
  have honce := h.once ⟨k, .ordinary⟩
  simp only [used, declaredCost, if_neg hgeneric, Pi.add_apply, DetailKey.permit_self] at honce hpart
  omega

theorem knows {e : ItemId × ClassSource} (he : e ∈ s.classes) : s.Knows ⟨e.2.key, .create⟩ := by
  have hpart : e.2.key.permit .create ⟨e.2.key, .create⟩ ≤ s.created ⟨e.2.key, .create⟩ :=
    apply_le_sum (f := fun e : ItemId × ClassSource => e.2.key.permit .create) he ⟨e.2.key, .create⟩
  refine h.known _ ?_
  simp only [used, Pi.add_apply, DetailKey.permit_self] at hpart ⊢
  omega

/-- Permits that are nowhere yet may be handed out. Nothing is kept that hangs on them: what they allow
for a class, they allow only before it is made. -/
theorem gain {more : Holding} (hmore : more.Whole)
    (hroom : ∀ p, s.used p + s.kept out p + out p + more p ≤ 1)
    (hknown : ∀ p, more p ≠ 0 → s.Knows p) : s.Balanced (more + out) := by
  have hlive : ∀ e ∈ s.classes, more ⟨e.2.key, .bodies⟩ = 0 ∧ more ⟨e.2.key, .made⟩ = 0 := by
    intro e he
    have hpart : e.2.key.permit .create ⟨e.2.key, .create⟩ ≤ s.created ⟨e.2.key, .create⟩ :=
      apply_le_sum (f := fun e : ItemId × ClassSource => e.2.key.permit .create) he
        ⟨e.2.key, .create⟩
    have hspace := hroom ⟨e.2.key, .create⟩
    have hcreate := hmore.create e.2.key
    simp only [used, Pi.add_apply, DetailKey.permit_self] at hspace hpart
    omega
  have hkept : s.kept (more + out) = s.kept out := by
    refine le_antisymm (kept_mono fun e he => ?_) (kept_mono fun e he => ?_) <;>
      simp [hlive e he]
  refine { h with once := fun p => ?_, known := fun p hp => ?_, keyed := fun k cls hk hout => ?_ }
  · have hspace := hroom p
    rw [hkept, Pi.add_apply]
    omega
  · by_cases hnew : more p = 0
    · refine h.known p ?_
      rwa [hkept, Pi.add_apply, hnew, zero_add] at hp
    · exact hknown p hnew
  · refine h.keyed k cls hk ?_
    have hpart : s.declaredCost k cls ⟨k, .declare⟩ ≤ s.declarations ⟨k, .declare⟩ :=
      apply_le_sum (f := fun e : DetailKey × ItemId => s.declaredCost e.1 e.2) hk ⟨k, .declare⟩
    have hspace := hroom ⟨k, .declare⟩
    have hdeclare := hmore.declare k
    simp only [used, declaredCost, Pi.add_apply, DetailKey.permit_self] at hspace hpart hout
    omega

/-- Permits may be given up. -/
theorem of_le (hle : out' ≤ out) : s.Balanced out' :=
  { h with
    once := fun p => by
      have honce := h.once p
      have hkept : s.kept out' p ≤ s.kept out p := kept_mono_of_le hle p
      have hout : out' p ≤ out p := hle p
      omega
    known := fun p hp => by
      refine h.known p ?_
      have hkept : s.kept out' p ≤ s.kept out p := kept_mono_of_le hle p
      have hout : out' p ≤ out p := hle p
      omega
    keyed := fun k cls hk hbodies => by
      refine h.keyed k cls hk (Nat.ne_of_gt ?_)
      exact Nat.lt_of_lt_of_le (Nat.pos_of_ne_zero hbodies) (hle _) }

end Balanced

theorem Accounts.of_le {held held' : Holding} (h : s.Accounts held) (hle : held' ≤ held) :
    s.Accounts held' := Balanced.of_le h (add_le_add (le_refl _) hle)

end State

end SemanticAnalysis
