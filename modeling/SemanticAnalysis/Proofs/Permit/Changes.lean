import SemanticAnalysis.Proofs.Analysis.Settled
import SemanticAnalysis.Proofs.Permit.Accounts

/-!
# Changes of the accounts

One lemma for each way in which an analysis changes a state. Most changes leave the accounts alone
(`State.Steady`). The others turn permits that are held into something used or kept, or hand out again
what was kept.
-/

namespace SemanticAnalysis

namespace State

variable {s s' : State} {held : Holding}

/-! ## Steady changes -/

/-- The change touches nothing that the accounts are about, but for new items, frames and nodes. -/
structure Steady (s s' : State) : Prop where
  table : s.table.KeepsTemplates s'.table
  details : s'.details.entries.toList.map (·.1) = s.details.entries.toList.map (·.1)
  declared : s'.declared = s.declared
  classes : s'.classes = s.classes
  synthesized : s'.synthesized = s.synthesized
  pendingClasses : s'.pendingClasses = s.pendingClasses
  pendingFunctions : s'.pendingFunctions = s.pendingFunctions
  templates : s'.templates = s.templates
  library : s'.library = s.library
  attributes : s'.attributes = s.attributes
  errors : s'.errors = s.errors
  dropped : s'.dropped = s.dropped
  frames_le : s.nextFrame ≤ s'.nextFrame
  nodes_le : s.nodesMade ≤ s'.nodesMade

theorem Steady.refl (s : State) : s.Steady s where
  table := .refl _
  details := rfl
  declared := rfl
  classes := rfl
  synthesized := rfl
  pendingClasses := rfl
  pendingFunctions := rfl
  templates := rfl
  library := rfl
  attributes := rfl
  errors := rfl
  dropped := rfl
  frames_le := Nat.le_refl _
  nodes_le := Nat.le_refl _

theorem Steady.trans {s'' : State} (h : s.Steady s') (h' : s'.Steady s'') : s.Steady s'' where
  table := h.table.trans h'.table
  details := h'.details.trans h.details
  declared := h'.declared.trans h.declared
  classes := h'.classes.trans h.classes
  synthesized := h'.synthesized.trans h.synthesized
  pendingClasses := h'.pendingClasses.trans h.pendingClasses
  pendingFunctions := h'.pendingFunctions.trans h.pendingFunctions
  templates := h'.templates.trans h.templates
  library := h'.library.trans h.library
  attributes := h'.attributes.trans h.attributes
  errors := h'.errors.trans h.errors
  dropped := h'.dropped.trans h.dropped
  frames_le := Nat.le_trans h.frames_le h'.frames_le
  nodes_le := Nat.le_trans h.nodes_le h'.nodes_le

/-- A change of the table. -/
theorem Steady.of_table {t : SymbolTable} (h : s.table.KeepsTemplates t) :
    s.Steady { s with table := t } := { Steady.refl s with table := h }

namespace Steady

variable (h : s.Steady s')

include h

theorem continues : s.Continues s' where
  size_le := h.table.size_le
  frames_le := h.frames_le
  classes _ source hs := ⟨source, h.classes ▸ hs, rfl, rfl⟩
  unmade _ _ hs := h.classes ▸ hs
  declared _ hk := h.declared ▸ hk
  templates _ he := h.templates ▸ he

theorem hasNode {n : NodeId} (hn : s.HasNode n) : s'.HasNode n := fun k hk =>
  Nat.lt_of_lt_of_le (hn k hk) h.nodes_le

theorem knows {p : Permit} (hp : s.Knows p) : s'.Knows p :=
  ⟨Nat.lt_of_lt_of_le hp.1 h.frames_le, h.hasNode hp.2⟩

theorem waiting_eq : s'.waiting = s.waiting := by
  have hopening : s'.opening = s.opening := by
    funext cls
    rw [State.opening, State.opening, h.classes]
  rw [waiting, waiting, h.pendingClasses, h.pendingFunctions, hopening]

theorem kept_eq (out : Holding) : s'.kept out = s.kept out := by
  have hreserve : s'.reserve out = s.reserve out := by
    funext cls source
    rw [State.reserve, State.reserve, madeCost, madeCost, h.synthesized]
  rw [kept, kept, h.classes, hreserve]

theorem used_le : s'.used ≤ s.used := by
  have hrecorded : s'.recorded = s.recorded := by
    have hmap : ∀ w : State, w.recorded =
        ((w.details.entries.toList.map (·.1)).map fun k => k.permit .detail).sum := by
      intro w
      rw [recorded, List.map_map]
      rfl
    rw [hmap, hmap, h.details]
  have hdeclarations : s'.declarations ≤ s.declarations := by
    rw [declarations, declarations, h.declared]
    refine List.sum_le_sum fun e _ => add_le_add (le_refl _) ?_
    by_cases hgeneric : s.table.isGeneric e.2 = true
    · rw [if_pos hgeneric, if_pos (h.table.isGeneric _ hgeneric)]
    · rw [if_neg hgeneric]
      split
      · exact fun p => Nat.zero_le _
      · exact le_refl _
  have hcreated : s'.created = s.created := by rw [created, created, h.classes]
  rw [used, used, hrecorded, hcreated]
  exact add_le_add (add_le_add (le_refl _) hdeclarations) (le_refl _)

theorem balanced {out : Holding} (hs : s.Balanced out) : s'.Balanced out where
  once p := by
    have hused : s'.used p ≤ s.used p := h.used_le p
    have honce := hs.once p
    rw [h.kept_eq]
    omega
  known p hp := by
    have hused : s'.used p ≤ s.used p := h.used_le p
    rw [h.kept_eq] at hp
    exact h.knows (hs.known p (by omega))
  keyed k cls hk hout := by
    rw [h.declared] at hk
    rw [h.classes]
    obtain ⟨hlt, hkey⟩ := hs.keyed k cls hk hout
    exact ⟨Nat.lt_of_lt_of_le hlt h.table.size_le, hkey⟩
  classes_nodup := h.classes ▸ hs.classes_nodup
  classes_lt e he := Nat.lt_of_lt_of_le (hs.classes_lt e (h.classes ▸ he)) h.table.size_le
  pending_lt cls hcls :=
    Nat.lt_of_lt_of_le (hs.pending_lt cls (h.pendingClasses ▸ hcls)) h.table.size_le
  synthesized_lt e he :=
    Nat.lt_of_lt_of_le (hs.synthesized_lt e (h.synthesized ▸ he)) h.table.size_le
  templates e he := by
    obtain ⟨hnodup, hknown⟩ := hs.templates e (h.templates ▸ he)
    exact ⟨hnodup, fun n hn => h.hasNode (hknown n hn)⟩
  library l hl := hs.library l (h.library ▸ hl)
  attributes := h.attributes ▸ hs.attributes
  errors e he := hs.errors e (h.errors ▸ he)
  dropped e he := hs.dropped e (h.dropped ▸ he)

theorem accounts (hs : s.Accounts held) : s'.Accounts held := by
  unfold Accounts
  rw [h.waiting_eq]
  exact h.balanced hs

end Steady

/-! ## New frames and nodes -/

/-- Nodes that did not exist in a frame come with all their permits. -/
theorem Accounts.fresh {f : FrameId} {ids : List NodeId} (hs : s.Accounts held) (h : s.Steady s')
    (hids : s'.Admits ids) (hf : f.index < s'.nextFrame)
    (hnew : ∀ n ∈ ids, ∀ e, ¬ s.Knows ⟨⟨f, n⟩, e⟩) : s'.Accounts (permits f ids + held) := by
  have hunknown : ∀ p, permits f ids p ≠ 0 → ¬ s.Knows p := by
    rintro ⟨⟨f', n⟩, e⟩ hp
    obtain ⟨rfl, hn⟩ := permits_ne_zero_iff.1 hp
    exact hnew n hn e
  unfold Accounts at *
  rw [show s'.waiting + (permits f ids + held) = permits f ids + (s'.waiting + held) by ac_rfl]
  refine (h.accounts hs).gain (permits_whole f ids) (fun p => ?_) fun p hp => ?_
  · have hused : s'.used p ≤ s.used p := h.used_le p
    have honce := hs.once p
    rw [h.kept_eq, h.waiting_eq]
    by_cases hp : permits f ids p = 0
    · omega
    · have hone : permits f ids p ≤ 1 := by
        unfold permits
        split
        · exact List.nodup_iff_count_le_one.1 hids.1 _
        · exact Nat.zero_le 1
      have hnone : s.used p + s.kept (s.waiting + held) p + (s.waiting + held) p = 0 := by
        by_contra hne
        exact hunknown p hp (hs.known p hne)
      omega
  · obtain ⟨⟨f', n⟩, e⟩ := p
    obtain ⟨rfl, hn⟩ := permits_ne_zero_iff.1 hp
    exact ⟨hf, hids.2 n hn⟩

/-! ## Using permits -/

/-- What is used more was left before. -/
theorem Balanced.spend {cost out : Holding} (h : s.Balanced (cost + out))
    (hspent : s'.used + s'.kept out ≤ s.used + s.kept out + cost) :
    (∀ p, s'.used p + s'.kept out p + out p ≤ 1) ∧
      ∀ p, s'.used p + s'.kept out p + out p ≠ 0 → s.Knows p := by
  have hle : ∀ p, s'.used p + s'.kept out p + out p ≤
      s.used p + s.kept (cost + out) p + (cost + out) p := by
    intro p
    have hspace : s'.used p + s'.kept out p ≤ s.used p + s.kept out p + cost p := hspent p
    have hkept : s.kept out p ≤ s.kept (cost + out) p :=
      kept_mono_of_le (fun q => Nat.le_add_left _ _) p
    rw [Pi.add_apply]
    omega
  refine ⟨fun p => Nat.le_trans (hle p) (h.once p), fun p hp => h.known p fun hzero => hp ?_⟩
  exact Nat.le_zero.1 (hzero ▸ hle p)

theorem Accounts.cost_left {cost : Holding} (hs : s.Accounts (cost + held)) :
    s.Balanced (cost + (s.waiting + held)) := by
  rw [show cost + (s.waiting + held) = s.waiting + (cost + held) by ac_rfl]
  exact hs

theorem Accounts.rest {cost : Holding} (hs : s.Accounts (cost + held)) : s.Accounts held :=
  hs.of_le fun _ => Nat.le_add_left _ _

/-- A detail is recorded. -/
theorem Accounts.record {k : DetailKey} {d : Detail}
    (hs : s.Accounts (k.permit .detail + held)) :
    State.Accounts { s with details := ⟨s.details.entries.push (k, d)⟩ } held := by
  let s' : State := { s with details := ⟨s.details.entries.push (k, d)⟩ }
  have hrecorded : s'.recorded = s.recorded + k.permit .detail := by
    simp [s', recorded]
  have hspent : s'.used + s'.kept (s.waiting + held) ≤
      s.used + s.kept (s.waiting + held) + k.permit .detail := by
    refine le_of_eq ?_
    show s'.recorded + s.declarations + s.created + s.kept (s.waiting + held) = _
    rw [hrecorded, used]
    ac_rfl
  obtain ⟨honce, hknown⟩ := hs.cost_left.spend hspent
  have hrest : s.Balanced (s.waiting + held) := hs.rest
  exact { hrest with once := honce, known := hknown }

/-- An item is declared. If the bodies of a class may still be opened there, it is that class. -/
theorem Accounts.declare {k : DetailKey} {item : ItemId}
    (hs : s.Accounts (s.declaredCost k item + held))
    (hkeyed : (s.waiting + held) ⟨k, .bodies⟩ ≠ 0 → item.index < s.table.items.size ∧
      ∀ source, s.classes.lookup item = some source → source.key = k) :
    State.Accounts { s with declared := (k, item) :: s.declared } held := by
  let s' : State := { s with declared := (k, item) :: s.declared }
  have hspent : s'.used + s'.kept (s.waiting + held) ≤
      s.used + s.kept (s.waiting + held) + s.declaredCost k item := by
    refine le_of_eq ?_
    show s.recorded + (s.declaredCost k item + s.declarations) + s.created +
      s.kept (s.waiting + held) = _
    rw [used]
    ac_rfl
  obtain ⟨honce, hknown⟩ := hs.cost_left.spend hspent
  have hrest : s.Balanced (s.waiting + held) := hs.rest
  refine { hrest with
    once := honce
    known := hknown
    keyed := fun k' cls hk hout => ?_ }
  rcases List.mem_cons.1 hk with heq | hold
  · cases heq
    exact hkeyed hout
  · exact hrest.keyed k' cls hold hout

/-- An ordinary item, or a template, is declared at a node that no class is made for. -/
theorem Accounts.declare_plain {k : DetailKey} {item : ItemId}
    (hs : s.Accounts (k.permit .declare + k.permit .bodies +
      (if s.table.isGeneric item then 0 else k.permit .ordinary) + held)) :
    State.Accounts { s with declared := (k, item) :: s.declared } held := by
  have hpaid : s.Accounts (s.declaredCost k item + (k.permit .bodies + held)) := by
    refine hs.of_le (le_of_eq ?_)
    unfold declaredCost
    ac_rfl
  refine State.Accounts.declare (hpaid.of_le ?_) fun hbodies => ?_
  · exact add_le_add (le_refl _) fun p => Nat.le_add_left _ _
  · -- the right to open such a class would be there twice
    have honce := hpaid.once ⟨k, .bodies⟩
    simp only [Pi.add_apply, DetailKey.permit_self] at honce hbodies
    omega

/-! ## Classes -/

/-- A class is made. It keeps what its members take. -/
theorem Accounts.create {s₀ : State} {cls : ItemId} {source : ClassSource}
    (hs₀ : s₀.Accounts (source.key.permit .create +
      (source.decl.headCost source.frame.id + source.decl.bodyCost source.frame.id) + held))
    (h : s₀.Steady s) (hnew : s₀.table.items.size ≤ cls.index)
    (hlt : cls.index < s.table.items.size) :
    State.Accounts { s with classes := (cls, source) :: s.classes } held := by
  let s' : State := { s with classes := (cls, source) :: s.classes }
  have hs := h.accounts hs₀
  have hother : ∀ c : ItemId, c.index < s₀.table.items.size → (c == cls) = false := by
    intro c hc
    rw [beq_eq_false_iff_ne]
    rintro rfl
    omega
  have hlookup : ∀ c : ItemId, c.index < s₀.table.items.size →
      s'.classes.lookup c = s.classes.lookup c := by
    intro c hc
    rw [List.lookup_cons, hother c hc]
  have hwaiting : s'.waiting = s.waiting := by
    have hopening : s'.pendingClasses.map s'.opening = s.pendingClasses.map s.opening := by
      refine List.map_congr_left fun c hc => ?_
      have hold := hs₀.pending_lt c (h.pendingClasses ▸ hc)
      rw [opening, opening, hlookup c hold]
    rw [waiting, waiting, hopening]
  have hmade : s.madeCost cls source.frame.id = 0 := by
    have hnone : s.synthesized.lookup cls = none := by
      refine List.lookup_eq_none_iff.2 fun e he => ?_
      have hold := hs₀.synthesized_lt e (h.synthesized ▸ he)
      rw [bne_iff_ne]
      rintro rfl
      omega
    rw [madeCost, hnone]
    rfl
  have hreserve : ∀ out, s.reserve out cls source ≤
      source.decl.headCost source.frame.id + source.decl.bodyCost source.frame.id := by
    intro out p
    have hmadeAt : s.madeCost cls source.frame.id p = 0 := by rw [hmade, Pi.zero_apply]
    simp only [reserve, Pi.add_apply]
    split <;> split <;> split <;> simp only [Pi.zero_apply, hmadeAt] <;> omega
  have hspent : s'.used + s'.kept (s.waiting + held) ≤ s.used + s.kept (s.waiting + held) +
      (source.key.permit .create +
        (source.decl.headCost source.frame.id + source.decl.bodyCost source.frame.id)) := by
    calc s'.used + s'.kept (s.waiting + held)
        = s.used + s.kept (s.waiting + held) +
            (source.key.permit .create + s.reserve (s.waiting + held) cls source) := by
          show s.recorded + s.declarations + (source.key.permit .create + s.created) +
            (s.reserve (s.waiting + held) cls source + s.kept (s.waiting + held)) = _
          rw [used]
          ac_rfl
      _ ≤ _ := add_le_add (le_refl _) (add_le_add (le_refl _) (hreserve _))
  obtain ⟨honce, hknown⟩ := hs.cost_left.spend hspent
  have hrest : s.Balanced (s.waiting + held) := hs.rest
  show s'.Balanced (s'.waiting + held)
  rw [hwaiting]
  refine { hrest with
    once := honce
    known := hknown
    keyed := fun k c hk hout => ?_
    classes_nodup := ?_
    classes_lt := fun e he => ?_ }
  · have hrest₀ : s₀.Balanced (s₀.waiting + held) := hs₀.rest
    rw [h.waiting_eq] at hout
    have hk₀ : (k, c) ∈ s₀.declared := h.declared ▸ hk
    obtain ⟨hold, hkey⟩ := hrest₀.keyed k c hk₀ hout
    refine ⟨Nat.lt_of_lt_of_le hold h.table.size_le, fun source hsource => hkey source ?_⟩
    rw [← h.classes, ← hlookup c hold]
    exact hsource
  · refine List.nodup_cons.2 ⟨fun hmem => ?_, hrest.classes_nodup⟩
    obtain ⟨e, he, rfl⟩ := List.mem_map.1 hmem
    have hold := hs₀.classes_lt e (h.classes ▸ he)
    omega
  · rcases List.mem_cons.1 he with rfl | hold
    · exact hlt
    · exact hrest.classes_lt e hold

/-! ### Stages -/

section Stages

variable {cls : ItemId} {source : ClassSource} {stage : Stage}

/-- A class is made of a new item. -/
theorem Continues.create {out : Holding} (hs : s.Balanced out) (h : s.Steady s')
    (hnew : s.table.items.size ≤ cls.index) :
    s.Continues { s' with classes := (cls, source) :: s'.classes } := by
  have hother : ∀ c : ItemId, c.index < s.table.items.size →
      ((cls, source) :: s'.classes).lookup c = s.classes.lookup c := by
    intro c hc
    have hne : (c == cls) = false := by
      rw [beq_eq_false_iff_ne]
      rintro rfl
      omega
    rw [List.lookup_cons, hne, h.classes]
  exact
    { h.continues with
      classes := fun c old hold =>
        ⟨old, (hother c (hs.classes_lt _ (mem_of_lookup hold))).trans hold, rfl, rfl⟩
      unmade := fun c hc hnone => (hother c hc).trans hnone }

/-- A class of a later stage keeps no more than before. -/
theorem reserve_withStage_le (hstage : stage ≠ .declared) (out : Holding) (c : ItemId)
    (source : ClassSource) :
    s.reserve out c { source with stage } ≤ s.reserve out c source := by
  unfold reserve
  rw [if_neg hstage]
  exact add_le_add (add_le_add (fun p => Nat.zero_le _) (le_refl _)) (le_refl _)

theorem kept_withStage (s : State) (cls : ItemId) (stage : Stage) (out : Holding) :
    (s.withStage cls stage).kept out = (s.classes.map fun e =>
      s.reserve out e.1 (if e.1 == cls then { e.2 with stage } else e.2)).sum := by
  unfold kept withStage
  rw [List.map_map]
  congr 1
  refine List.map_congr_left fun e _ => ?_
  dsimp only [Function.comp]
  split <;> rfl

theorem kept_withStage_le (hstage : stage ≠ .declared) (out : Holding) :
    (s.withStage cls stage).kept out ≤ s.kept out := by
  rw [kept_withStage]
  refine List.sum_le_sum fun e _ => ?_
  split
  · exact reserve_withStage_le hstage out e.1 e.2
  · exact le_refl _

/-- A class that leaves the first stage hands out what it kept for its members. -/
theorem kept_withStage_add_le (hstage : stage ≠ .declared)
    (hsource : s.classes.lookup cls = some source) (hfirst : source.stage = .declared)
    (out : Holding) :
    (s.withStage cls stage).kept out + source.decl.headCost source.frame.id ≤ s.kept out := by
  rw [kept_withStage]
  refine sum_add_le_sum (mem_of_lookup hsource) (fun e _ => ?_) ?_
  · split
    · exact reserve_withStage_le hstage out e.1 e.2
    · exact le_refl _
  · rw [if_pos (beq_self_eq_true cls)]
    unfold reserve
    rw [if_neg hstage, if_pos hfirst]
    exact le_of_eq (by simp only [zero_add]; ac_rfl)

theorem created_withStage (s : State) (cls : ItemId) (stage : Stage) :
    (s.withStage cls stage).created = s.created := by
  unfold created withStage
  rw [List.map_map]
  congr 1
  refine List.map_congr_left fun e _ => ?_
  dsimp only [Function.comp]
  split <;> rfl

theorem waiting_withStage (s : State) (cls : ItemId) (stage : Stage) :
    (s.withStage cls stage).waiting = s.waiting := by
  have hopening : (s.withStage cls stage).opening = s.opening := by
    funext c
    rw [opening, opening, lookup_withStage]
    cases s.classes.lookup c with
    | none => rfl
    | some source =>
      dsimp only [Option.map_some]
      split <;> rfl
  unfold waiting
  rw [hopening]
  rfl

theorem Continues.withStage (s : State) (cls : ItemId) (stage : Stage) :
    s.Continues (s.withStage cls stage) where
  size_le := Nat.le_refl _
  frames_le := Nat.le_refl _
  classes c source hc := by
    rw [lookup_withStage, hc]
    refine ⟨_, rfl, ?_, ?_⟩ <;> split <;> rfl
  unmade c _ hc := by
    rw [lookup_withStage, hc]
    rfl
  declared _ hk := hk
  templates _ he := he

theorem Balanced.withStage {out : Holding} (hs : s.Balanced out) (hstage : stage ≠ .declared) :
    (s.withStage cls stage).Balanced out := by
  have hused : (s.withStage cls stage).used = s.used := by
    unfold used
    rw [created_withStage]
    rfl
  refine { hs with
    once := fun p => ?_
    known := fun p hp => ?_
    keyed := fun k c hk hout => ?_
    classes_nodup := ?_
    classes_lt := fun e he => ?_ }
  · have hkept : (s.withStage cls stage).kept out p ≤ s.kept out p := kept_withStage_le hstage out p
    have honce := hs.once p
    rw [hused]
    omega
  · have hkept : (s.withStage cls stage).kept out p ≤ s.kept out p := kept_withStage_le hstage out p
    rw [hused] at hp
    exact hs.known p (by omega)
  · obtain ⟨hlt, hkey⟩ := hs.keyed k c hk hout
    refine ⟨hlt, fun source hsource => ?_⟩
    rw [lookup_withStage] at hsource
    obtain ⟨old, hold, rfl⟩ := Option.map_eq_some_iff.1 hsource
    have hkeyOld := hkey old hold
    split <;> exact hkeyOld
  · have hids : (s.withStage cls stage).classes.map (·.1) = s.classes.map (·.1) := by
      unfold State.withStage
      rw [List.map_map]
      refine List.map_congr_left fun e _ => ?_
      dsimp only [Function.comp]
      split <;> rfl
    exact hids ▸ hs.classes_nodup
  · obtain ⟨old, hold, rfl⟩ := List.mem_map.1 he
    have hlt := hs.classes_lt old hold
    dsimp only
    split <;> exact hlt

theorem Accounts.withStage (hs : s.Accounts held) (hstage : stage ≠ .declared) :
    (s.withStage cls stage).Accounts held := by
  unfold Accounts
  rw [waiting_withStage]
  exact Balanced.withStage hs hstage

/-- The head of a class is resolved, which pays for its members. -/
theorem Accounts.resolve (hs : s.Accounts held) (hstage : stage ≠ .declared)
    (hsource : s.classes.lookup cls = some source) (hfirst : source.stage = .declared) :
    (s.withStage cls stage).Accounts (source.decl.headCost source.frame.id + held) := by
  have hused : (s.withStage cls stage).used = s.used := by
    unfold used
    rw [created_withStage]
    rfl
  have hkept (p : Permit) : (s.withStage cls stage).kept (s.waiting + held) p +
      source.decl.headCost source.frame.id p ≤ s.kept (s.waiting + held) p :=
    kept_withStage_add_le hstage hsource hfirst _ p
  unfold Accounts
  rw [waiting_withStage, show s.waiting + (source.decl.headCost source.frame.id + held) =
    source.decl.headCost source.frame.id + (s.waiting + held) by ac_rfl]
  refine (Balanced.withStage hs hstage).gain (source.decl.headCost_whole _) (fun p => ?_) fun p hp => ?_
  · have honce := hs.once p
    have hp := hkept p
    rw [hused]
    omega
  · refine hs.known p ?_
    have hp := hkept p
    omega

/-- A permit that a class waits for makes it hand out a part of what it keeps. -/
theorem Accounts.handOut {e : Entry} {part : Holding}
    (hs : s.Accounts (source.key.permit e + held)) (hsource : s.classes.lookup cls = some source)
    (hwhole : part.Whole)
    (hpart : (s.waiting + held) ⟨source.key, e⟩ = 0 →
      s.reserve (s.waiting + held) cls source + part ≤
        s.reserve (source.key.permit e + (s.waiting + held)) cls source) :
    s.Accounts (part + held) := by
  have hleft := hs.cost_left
  have hclosed : (s.waiting + held) ⟨source.key, e⟩ = 0 := by
    have honce := hleft.once ⟨source.key, e⟩
    simp only [Pi.add_apply, DetailKey.permit_self] at honce ⊢
    omega
  have hkept (p : Permit) : s.kept (s.waiting + held) p + part p ≤
      s.kept (source.key.permit e + (s.waiting + held)) p := by
    refine sum_add_le_sum (mem_of_lookup hsource) (fun e _ => ?_) (hpart hclosed) p
    refine reserve_mono (fun h => ?_) fun h => ?_ <;>
      exact Nat.ne_of_gt (Nat.lt_of_lt_of_le (Nat.pos_of_ne_zero h) (Nat.le_add_left _ _))
  unfold Accounts
  rw [show s.waiting + (part + held) = part + (s.waiting + held) by ac_rfl]
  refine Balanced.gain hs.rest hwhole (fun p => ?_) fun p hp => ?_
  · have honce := hleft.once p
    have hp := hkept p
    simp only [Pi.add_apply] at honce ⊢
    omega
  · refine hleft.known p ?_
    have hp := hkept p
    omega

/-- Whoever has the right to open a class gets what its bodies take. -/
theorem Accounts.openBodies (hs : s.Accounts (source.key.permit .bodies + held))
    (hsource : s.classes.lookup cls = some source) :
    s.Accounts (source.decl.bodyCost source.frame.id + held) := by
  refine hs.handOut hsource (source.decl.bodyCost_whole _) fun hclosed => ?_
  have hopen : (source.key.permit .bodies + (s.waiting + held)) ⟨source.key, .bodies⟩ ≠ 0 := by
    simp [DetailKey.permit]
  have hmade : (source.key.permit .bodies + (s.waiting + held)) ⟨source.key, .made⟩ =
      (s.waiting + held) ⟨source.key, .made⟩ := by simp [DetailKey.permit]
  unfold reserve
  rw [if_pos hclosed, if_neg hopen, hmade]
  exact le_of_eq (by simp only [add_zero]; ac_rfl)

/-- Whoever has the right to it gets what the member functions made for a class take. -/
theorem Accounts.openMade (hs : s.Accounts (source.key.permit .made + held))
    (hsource : s.classes.lookup cls = some source) :
    s.Accounts (s.madeCost cls source.frame.id + held) := by
  refine hs.handOut hsource (.sum fun fn _ => fn.bodyCost_whole _) fun hclosed => ?_
  have hopen : (source.key.permit .made + (s.waiting + held)) ⟨source.key, .made⟩ ≠ 0 := by
    simp [DetailKey.permit]
  have hbodies : (source.key.permit .made + (s.waiting + held)) ⟨source.key, .bodies⟩ =
      (s.waiting + held) ⟨source.key, .bodies⟩ := by simp [DetailKey.permit]
  unfold reserve
  rw [if_pos hclosed, if_neg hopen, hbodies]
  exact le_of_eq (by rw [add_zero])

end Stages

/-! ### Made members -/

/-- Member functions were made for a class, and are kept until its bodies are analysed. -/
theorem Accounts.synthesized {cls : ItemId} {source : ClassSource} {made : List FunctionDef}
    (hs : s.Accounts ((made.map (·.bodyCost source.frame.id)).sum + held))
    (hsource : ∀ e ∈ s.classes, e.1 = cls → e.2.frame = source.frame)
    (hlt : cls.index < s.table.items.size) :
    State.Accounts { s with synthesized := (cls, made) :: s.synthesized } held := by
  let s' : State := { s with synthesized := (cls, made) :: s.synthesized }
  have hmade : ∀ c f, c ≠ cls → s'.madeCost c f = s.madeCost c f := by
    intro c f hc
    unfold madeCost
    rw [List.lookup_cons, beq_eq_false_iff_ne.2 hc]
  have hown : ∀ f, s'.madeCost cls f = (made.map (·.bodyCost f)).sum := by
    intro f
    unfold madeCost
    rw [List.lookup_cons, beq_self_eq_true]
    rfl
  have hkept (out : Holding) :
      s'.kept out ≤ s.kept out + (made.map (·.bodyCost source.frame.id)).sum := by
    refine sum_le_sum_add (c := cls) hs.classes_nodup (fun e _ hne => ?_) fun e he heq => ?_
    · unfold reserve
      rw [hmade e.1 _ hne]
    · unfold reserve
      rw [heq, hown, hsource e he heq]
      refine le_trans ?_ (add_le_add (le_add_of_nonneg_right ?_) (le_refl _))
      · exact add_le_add (le_refl _) (by split <;> simp)
      · exact fun p => Nat.zero_le _
  have hspent : s'.used + s'.kept (s.waiting + held) ≤
      s.used + s.kept (s.waiting + held) + (made.map (·.bodyCost source.frame.id)).sum := by
    calc s'.used + s'.kept (s.waiting + held)
        ≤ s.used + (s.kept (s.waiting + held) + (made.map (·.bodyCost source.frame.id)).sum) :=
          add_le_add (le_refl _) (hkept _)
      _ = _ := by ac_rfl
  obtain ⟨honce, hknown⟩ := hs.cost_left.spend hspent
  have hrest : s.Balanced (s.waiting + held) := hs.rest
  refine { hrest with once := honce, known := hknown, synthesized_lt := fun e he => ?_ }
  rcases List.mem_cons.1 he with rfl | hold
  · exact hlt
  · exact hrest.synthesized_lt e hold

/-! ## Waiting instances -/

/-- A class waits for its bodies to be analysed. -/
theorem Accounts.postponeClass {cls : ItemId} (hs : s.Accounts (s.opening cls + held))
    (hlt : cls.index < s.table.items.size) :
    State.Accounts { s with pendingClasses := cls :: s.pendingClasses } held := by
  have hout : s.waiting + (s.opening cls + held) =
      State.waiting { s with pendingClasses := cls :: s.pendingClasses } + held := by
    show _ = s.opening cls + (s.pendingClasses.map s.opening).sum +
      (s.pendingFunctions.map fun f => f.decl.bodyCost f.frame.id).sum + held
    rw [waiting]
    ac_rfl
  unfold Accounts at *
  rw [hout] at hs
  refine { hs with pending_lt := fun c hc => ?_ }
  rcases List.mem_cons.1 hc with rfl | hold
  · exact hlt
  · exact hs.pending_lt c hold

/-- A function waits for its body to be analysed. -/
theorem Accounts.postponeFunction {f : PendingFunction}
    (hs : s.Accounts (f.decl.bodyCost f.frame.id + held)) :
    State.Accounts { s with pendingFunctions := f :: s.pendingFunctions } held := by
  have hout : s.waiting + (f.decl.bodyCost f.frame.id + held) =
      State.waiting { s with pendingFunctions := f :: s.pendingFunctions } + held := by
    show _ = (s.pendingClasses.map s.opening).sum + (f.decl.bodyCost f.frame.id +
      (s.pendingFunctions.map fun f => f.decl.bodyCost f.frame.id).sum) + held
    rw [waiting]
    ac_rfl
  unfold Accounts at *
  rw [hout] at hs
  exact { hs with }

/-- The turn of a class has come. -/
theorem Accounts.nextClass {cls : ItemId} {others : List ItemId} (hs : s.Accounts held)
    (hpending : s.pendingClasses = cls :: others) :
    State.Accounts { s with pendingClasses := others } (s.opening cls + held) := by
  have hout : s.waiting + held =
      State.waiting { s with pendingClasses := others } + (s.opening cls + held) := by
    show _ = (others.map s.opening).sum +
      (s.pendingFunctions.map fun f => f.decl.bodyCost f.frame.id).sum + (s.opening cls + held)
    rw [waiting, hpending, List.map_cons, List.sum_cons]
    ac_rfl
  unfold Accounts at *
  rw [hout] at hs
  refine { hs with pending_lt := fun c hc => hs.pending_lt c ?_ }
  rw [hpending]
  exact List.mem_cons_of_mem _ hc

/-- The turn of a function has come. -/
theorem Accounts.nextFunction {f : PendingFunction} {others : List PendingFunction}
    (hs : s.Accounts held) (hpending : s.pendingFunctions = f :: others) :
    State.Accounts { s with pendingFunctions := others } (f.decl.bodyCost f.frame.id + held) := by
  have hout : s.waiting + held =
      State.waiting { s with pendingFunctions := others } +
        (f.decl.bodyCost f.frame.id + held) := by
    show _ = (s.pendingClasses.map s.opening).sum +
      (others.map fun f => f.decl.bodyCost f.frame.id).sum + (f.decl.bodyCost f.frame.id + held)
    rw [waiting, hpending, List.map_cons, List.sum_cons]
    ac_rfl
  unfold Accounts at *
  rw [hout] at hs
  exact { hs with }

/-! ## Templates and errors -/

/-- A tree is filed as a template by somebody who holds its nodes. -/
theorem Accounts.fileTemplate {item : ItemId} {t : Template} {f : FrameId}
    (hs : s.Accounts held) (ht : ∀ n, permits f t.ids ⟨⟨f, n⟩, .detail⟩ ≤ held ⟨⟨f, n⟩, .detail⟩) :
    State.Accounts { s with templates := (item, t) :: s.templates } held := by
  refine { hs with templates := fun e he => ?_ }
  rcases List.mem_cons.1 he with rfl | hold
  · refine ⟨nodup_of_permits_le fun n => Nat.le_trans (ht n) ?_, fun n hn => ?_⟩
    · have honce := hs.once ⟨⟨f, n⟩, .detail⟩
      rw [Pi.add_apply] at honce
      omega
    · have hhas : permits f t.ids ⟨⟨f, n⟩, .detail⟩ ≠ 0 := permits_ne_zero_iff.2 ⟨rfl, hn⟩
      have hheld := ht n
      refine (hs.known ⟨⟨f, n⟩, .detail⟩ ?_).2
      rw [Pi.add_apply]
      omega
  · exact hs.templates e hold

/-- An error is reported. -/
theorem Accounts.report {e : Diagnostic} (hs : s.Accounts held) (he : e.cause ≠ .alreadyDetailed) :
    State.Accounts { s with errors := s.errors ++ [e] } held := by
  refine { hs with errors := fun e' he' => ?_ }
  rcases List.mem_append.1 he' with hold | hnew
  · exact hs.errors e' hold
  · rw [List.mem_singleton.1 hnew]
    exact he

/-- An error is dropped. -/
theorem Accounts.drop {e : Diagnostic} (hs : s.Accounts held) (he : e.cause ≠ .alreadyDetailed) :
    State.Accounts { s with dropped := s.dropped ++ [e] } held := by
  refine { hs with dropped := fun e' he' => ?_ }
  rcases List.mem_append.1 he' with hold | hnew
  · exact hs.dropped e' hold
  · rw [List.mem_singleton.1 hnew]
    exact he

end State

end SemanticAnalysis
