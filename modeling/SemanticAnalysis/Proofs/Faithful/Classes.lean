import SemanticAnalysis.Proofs.Faithful.Expressions

/-!
# Class heads are faithful

A class comes by its fields in one go (`State.Heads`): it moves on to the next stage, and then it is given its
parents, its underlying type and its members. The running total of their widths is the sum, capped at a number that
is beyond every capacity, so a bitfield that passes its check fits (`Fits.of_measures`), and one that fails it does
not (`checkCapacity_eq`).

Whoever has asked for the fields of a class may move it to any later stage (`setStage_asked`).
-/

namespace SemanticAnalysis

/-! ## Widths -/

namespace SymbolTable

variable {t u : SymbolTable} {c d : Class} {b : Bool} {total : Nat}

/-- All members of the class, or none of them, are entries of a bitfield, and the capped sum of their widths is the
total. -/
structure Measures (t : SymbolTable) (c : Class) (b : Bool) (total : Nat) : Prop where
  entries : ∀ m ∈ c.members, ∃ v, t.var? m = some v ∧ v.isBitfieldEntry = b
  total_eq : total = min (c.members.map t.bitsOf).sum maxTotalBits

theorem Measures.of_widths (h : t.Measures c b total) (hmembers : d.members = c.members)
    (hwidths : ∀ m ∈ c.members, (u.var? m).map Variable.width = (t.var? m).map Variable.width) :
    u.Measures d b total where
  entries m hm := by
    rw [hmembers] at hm
    exact entry_of_width (hwidths m hm) (h.entries m hm)
  total_eq := by
    rw [hmembers, List.map_congr_left fun m hm => bitsOf_eq_of_width (hwidths m hm)]
    exact h.total_eq

/-- One more member. -/
theorem Measures.append {m : ItemId} {v : Variable} (h : t.Measures c b total)
    (hmembers : d.members = c.members ++ [m]) (hv : t.var? m = some v) (hentry : v.isBitfieldEntry = b) :
    t.Measures d b (min (total + v.bits) maxTotalBits) where
  entries k hk := by
    rw [hmembers] at hk
    rcases List.mem_append.1 hk with hk | hk
    · exact h.entries k hk
    · rw [List.mem_singleton.1 hk]
      exact ⟨v, hv, hentry⟩
  total_eq := by
    have hbits : t.bitsOf m = v.bits := by rw [bitsOf, hv, Option.map_some, Option.getD_some]
    rw [hmembers, List.map_append, List.sum_append, List.map_singleton, List.sum_singleton, hbits, h.total_eq]
    omega

end SymbolTable

theorem Ty.bitCapacity_lt (ty : Ty) : ty.bitCapacity < maxTotalBits := by
  unfold Ty.bitCapacity maxTotalBits
  split
  · omega
  · omega
  · split
    · omega
    · split <;> omega
  · omega

/-- The capped total exceeds a capacity exactly if the sum does. -/
theorem SymbolTable.Measures.lt_iff {t : SymbolTable} {c : Class} {b : Bool} {total : Nat} (h : t.Measures c b total)
    (ty : Ty) : ty.bitCapacity < total ↔ ty.bitCapacity < (c.members.map t.bitsOf).sum := by
  have hcapacity := ty.bitCapacity_lt
  rw [h.total_eq]
  omega

theorem SymbolTable.Fits.of_measures {t : SymbolTable} {c : Class} {total : Nat} {ty : Ty}
    (h : t.Measures c true total) (hty : c.underlying = some ty) (hintegral : ty.IsIntegral)
    (hpassed : ¬ ty.bitCapacity < total) : t.Fits c where
  entries := h.entries
  capacity := ⟨ty, hty, hintegral, Nat.not_lt.1 fun hsum => hpassed ((h.lt_iff ty).2 hsum)⟩

/-! ## Stages -/

namespace State

variable {s₀ s : State} {item : ItemId} {stage : Stage}

theorem isHeaded_withStage {c : ItemId} (h : (s.withStage item stage).IsHeaded c) (hc : c ≠ item) : s.IsHeaded c := by
  obtain ⟨source, hsource, hrank⟩ := h
  rw [lookup_withStage] at hsource
  obtain ⟨old, hold, heq⟩ := Option.map_eq_some_iff.1 hsource
  rw [if_neg hc] at heq
  exact ⟨old, hold, heq ▸ hrank⟩

theorem IsHeaded.withStage {c : ItemId} (h : s.IsHeaded c) (hstage : Stage.signatures.rank ≤ stage.rank) :
    (s.withStage item stage).IsHeaded c := by
  obtain ⟨source, hsource, hrank⟩ := h
  refine ⟨if c = item then { source with stage } else source, ?_, ?_⟩
  · rw [lookup_withStage, hsource, Option.map_some]
  · split
    · exact hstage
    · exact hrank

theorem honours_withStage (hstage : Stage.signatures.rank ≤ stage.rank) : s.Honours (s.withStage item stage) where
  table := .refl _
  heads _ _ hheaded := ⟨hheaded.withStage hstage, rfl⟩
  unlisted c _ hnone := by rw [lookup_withStage, hnone, Option.map_none]
  noted_le := Nat.le_refl _
  grounded hs :=
    { honest := hs.honest
      filed := hs.filed
      sources := fun c source hsource => by
        rw [lookup_withStage] at hsource
        obtain ⟨old, hold, heq⟩ := Option.map_eq_some_iff.1 hsource
        obtain ⟨cls, hcls, hflag, hblank⟩ := hs.sources c old hold
        refine ⟨cls, hcls, ?_, fun hlow => ?_⟩
        · rw [hflag, ← heq]
          split <;> rfl
        · split at heq
          · rw [← heq] at hlow
            exact absurd hstage (Nat.not_le.2 hlow)
          · exact hblank (heq ▸ hlow) }

theorem Vouched.withStage (h : s₀.Vouched s) (hs₀ : s₀.Grounded) (h₀ : s₀.Honours s) (hheaded : s.IsHeaded item)
    (hstage : Stage.signatures.rank ≤ stage.rank) : s₀.Vouched (s.withStage item stage) := by
  refine h.trans hs₀ h₀ (fun _ c hc hnot => ?_) (honours_withStage hstage)
  by_cases heq : c = item
  · exact absurd (heq ▸ hheaded) hnot
  · exact absurd (isHeaded_withStage hc heq) hnot

/-- The class of the item is coming by its fields, which it had not been asked for at `s₀`. -/
structure Heads (s₀ : State) (item : ItemId) (b : Bool) (underlying : Option Ty) (total : Nat) (s : State) : Prop where
  others : s.noted = s₀.noted → ∀ c, c ≠ item → s.IsHeaded c → ¬ s₀.IsHeaded c → s.FitsAt c
  unheaded : ¬ s₀.IsHeaded item
  headed : s.IsHeaded item
  fields : ∃ cls, s.table.class? item = some cls ∧ cls.flags.bitfield = b ∧ cls.underlying = underlying ∧
    s.table.Measures cls b total

theorem IsHeaded.asked (h : s.IsHeaded item) : s.Asked item := by
  obtain ⟨source, hsource, hrank⟩ := h
  intro kept hkept
  cases hsource.symm.trans hkept
  exact hrank

theorem lasts_isHeaded : Lasts s₀ fun s => s.IsHeaded item :=
  fun _ _ hs _ h _ hF => (h.heads item (hs.lt_of_isHeaded hF) hF).1

theorem lasts_heads {b : Bool} {underlying : Option Ty} {total : Nat} :
    Lasts s₀ (s₀.Heads item b underlying total) := by
  intro s s' hs h₀ h hv hF
  have hlt := hs.lt_of_isHeaded hF.headed
  refine ⟨fun hnoted c hne hheaded hnot => ?_, hF.unheaded, lasts_isHeaded s s' hs h₀ h hv hF.headed, ?_⟩
  · have hfirst : s.noted = s₀.noted := Nat.le_antisymm (hnoted ▸ h.noted_le) h₀.noted_le
    by_cases hbefore : s.IsHeaded c
    · exact (hF.others hfirst c hne hbefore hnot).mono (hs.lt_of_isHeaded hbefore) hbefore h
    · exact hv (hnoted.trans hfirst.symm) c hheaded hbefore
  · obtain ⟨cls, hcls, hflag, hunderlying, hmeasures⟩ := hF.fields
    have hhead := (h.heads item hlt hF.headed).2
    have hbitfield := h.table.bitfields item hlt
    rw [hcls] at hhead hbitfield
    obtain ⟨new, hnew, heq⟩ := Option.map_eq_some_iff.1 hhead
    rw [hnew] at hbitfield
    refine ⟨new, hnew, (Option.some_inj.1 hbitfield).trans hflag, (congrArg Prod.fst heq).trans hunderlying, ?_⟩
    refine hmeasures.of_widths (congrArg Prod.snd heq) fun m hm => ?_
    obtain ⟨v, hv, -⟩ := hmeasures.entries m hm
    obtain ⟨entry, hentry, -⟩ := Option.bind_eq_some_iff.1 hv
    exact h.table.widths m (SymbolTable.lt_of_item? hentry)

/-- The class is given a field. -/
theorem Heads.modifyClass {b : Bool} {underlying u' : Option Ty} {total total' : Nat} {g : Class → Class}
    (h : s₀.Heads item b underlying total s) (h₀ : s₀.Honours s)
    (hg : ∀ c, (g c).flags.bitfield = c.flags.bitfield ∧ (g c).filing = c.filing)
    (hunderlying : ∀ c, c.underlying = underlying → (g c).underlying = u')
    (hmeasures : ∀ c, s.table.Measures c b total → s.table.Measures (g c) b total') :
    s₀.Honours { s with table := s.table.modifyClass item g } ∧
      s₀.Heads item b u' total' { s with table := s.table.modifyClass item g } := by
  have htable : s.table.Honours (s.table.modifyClass item g) := .modifyClass hg
  have hother : ∀ c, c ≠ item → (s.table.modifyClass item g).class? c = s.table.class? c := by
    intro c hc
    rw [SymbolTable.class?_modifyClass, if_neg hc]
  have hvar : (s.table.modifyClass item g).var? = s.table.var? := funext fun j => s.table.var?_modifyClass item j g
  refine ⟨⟨h₀.table.trans htable, fun c hc hheaded => ?_, h₀.unlisted, h₀.noted_le, fun hs₀ => ?_⟩,
    fun hnoted c hne hheaded hnot => ?_, h.unheaded, h.headed, ?_⟩
  · -- the class had not been asked for its fields
    have hne : c ≠ item := by
      rintro rfl
      exact h.unheaded hheaded
    obtain ⟨hheaded', heq⟩ := h₀.heads c hc hheaded
    exact ⟨hheaded', (congrArg (Option.map Class.head) (hother c hne)).trans heq⟩
  · have hs := h₀.grounded hs₀
    refine ⟨hs.honest, htable.filed hs.filed, fun c source hsource => ?_⟩
    obtain ⟨cls, hcls, hflag, hblank⟩ := hs.sources c source hsource
    by_cases hc : c = item
    · subst hc
      obtain ⟨kept, hkept, hrank⟩ := h.headed
      cases hsource.symm.trans hkept
      refine ⟨g cls, ?_, (hg cls).1.trans hflag, fun hlow => absurd hrank (Nat.not_le.2 hlow)⟩
      show (s.table.modifyClass c g).class? c = some (g cls)
      rw [SymbolTable.class?_modifyClass, if_pos rfl, hcls, Option.map_some]
    · exact ⟨cls, (hother c hc).trans hcls, hflag, hblank⟩
  · intro cls hcls hbitfield
    refine (h.others hnoted c hne hheaded hnot cls ((hother c hne).symm.trans hcls) hbitfield).of_widths rfl
      fun m _ => ?_
    show ((s.table.modifyClass item g).var? m).map Variable.width = _
    rw [hvar]
  · obtain ⟨cls, hcls, hflag, hold, hmeasured⟩ := h.fields
    refine ⟨g cls, ?_, (hg cls).1.trans hflag, hunderlying cls hold, (hmeasures cls hmeasured).of_widths rfl fun m _ => ?_⟩
    · show (s.table.modifyClass item g).class? item = some (g cls)
      rw [SymbolTable.class?_modifyClass, if_pos rfl, hcls, Option.map_some]
    · show ((s.table.modifyClass item g).var? m).map Variable.width = _
      rw [hvar]

/-- Behind its fields the class is vouched for if it fits. -/
theorem Heads.vouched {b : Bool} {underlying : Option Ty} {total : Nat} (h : s₀.Heads item b underlying total s)
    (hfits : b = true → ∃ ty, underlying = some ty ∧ ty.IsIntegral ∧ ¬ ty.bitCapacity < total) : s₀.Vouched s := by
  intro hnoted c hheaded hnot
  by_cases hc : c = item
  · subst hc
    intro cls hcls hbitfield
    obtain ⟨cls', hcls', hflag, hunderlying, hmeasures⟩ := h.fields
    cases hcls.symm.trans hcls'
    obtain ⟨ty, hty, hintegral, hpassed⟩ := hfits (hflag.symm.trans hbitfield)
    exact .of_measures ((hflag.symm.trans hbitfield) ▸ hmeasures) (hunderlying.trans hty) hintegral hpassed
  · exact h.others hnoted c hc hheaded hnot

end State

namespace Analysis

variable {α : Type} {frame : Frame} {node : Node} {scope : ScopeId}
variable {position : Position} {an : Analyst}

/-! ## Class heads -/

section ClassHeads

variable {decl : ClassDef} {item : ItemId}

@[grind ←] theorem declareClassTemplate_faithful :
    Faithful (declareClassTemplate frame decl scope) := by
  unfold declareClassTemplate
  refine .bind newScope_faithful fun own => .bind (addClass_faithful (by rintro c ⟨⟩; rfl)) fun item => ?_
  refine .bind setOwner_faithful fun _ => .bind (.alter fun _ => rfl) fun _ => ?_
  exact record_faithful.bind fun _ => .pure

@[grind ←] theorem declareClass_faithful : Faithful (declareClass frame decl scope) := by
  unfold declareClass
  grind

@[grind ←] theorem classScope_faithful : Faithful (classScope item) := by
  unfold classScope
  grind

@[grind ←] theorem resolveParent_faithful (han : an.Faithful) {earlier : List ItemId} {written : TypeExpr} :
    Faithful (resolveParent an frame item scope earlier written) := by
  unfold resolveParent
  refine .bind (type_faithful han) fun ty => ?_
  split
  · exact .bind typeText_faithful fun _ => failOther_faithful
  · refine .bind (han.ask _) fun _ => .bind look_faithful fun _ => ?_
    grind

@[grind ←] theorem resolveParents_faithful (han : an.Faithful) :
    Faithful (resolveParents an frame decl item scope) := by
  unfold resolveParents
  grind

/-- The class is given its underlying type. -/
theorem resolveUnderlying_heads (han : an.Faithful) {s₀ : State} (hs₀ : s₀.Grounded) {total : Nat} :
    Within s₀ (s₀.Heads item true none total) (resolveUnderlying an frame decl item scope) fun _ s =>
      ∃ ty, ty.IsIntegral ∧ s₀.Heads item true (some ty) total s := by
  have hrest : ∀ ty, Within s₀ (s₀.Heads item true none total) (do
      if !(ty.isValue && ty.native?.any (·.hasBits)) then
        failOther decl.node.position
          ("bitfield type " ++ Cause.quoted (← typeText ty) ++ " is not integral")
      change (·.modifyClass item fun c => { c with underlying := some ty })) fun _ s =>
        ∃ ty, ty.IsIntegral ∧ s₀.Heads item true (some ty) total s := by
    intro ty
    split
    · refine .bind_faithful hs₀ typeText_faithful State.lasts_heads fun _ => ?_
      exact .bind (G := fun _ _ => False) .throw fun _ _ _ hs => hs.elim
    · rename_i hnative
      have hintegral : ty.IsIntegral := by simpa [Ty.IsIntegral, Option.any_eq_true] using hnative
      refine .change fun s h₀ hs => ?_
      have hgiven := hs.modifyClass h₀ (g := fun c => { c with underlying := some ty }) (fun _ => ⟨rfl, rfl⟩)
        (fun _ _ => (rfl : _ = some ty)) fun c hc => hc.of_widths rfl fun _ _ => rfl
      exact ⟨hgiven.1, ty, hintegral, hgiven.2⟩
  unfold resolveUnderlying
  dsimp only
  split
  · exact .bind_faithful hs₀ (type_faithful han) State.lasts_heads hrest
  · exact .bind (G := fun _ => s₀.Heads item true none total) (.pure fun _ hs => hs) hrest

/-- A bitfield is refused exactly if the sum of the widths exceeds the capacity. -/
theorem checkCapacity_eq (decl : ClassDef) {bits : Nat} {s : State} {cls : Class} {ty : Ty} (hcls : s.table.class? item = some cls)
    (hty : cls.underlying = some ty) :
    (¬ ty.bitCapacity < bits ∧ checkCapacity decl item bits s = .ok ⟨⟩ s) ∨
      (ty.bitCapacity < bits ∧ checkCapacity decl item bits s = .error
        ⟨.bitfieldOverflow decl.name.name (s.table.typeText ty) bits ty.bitCapacity, decl.node.position⟩ s) := by
  have hread (f : Option Class → Analysis Unit) :
    (look (·.class? item) >>= f) s = f (s.table.class? item) s := rfl
  unfold checkCapacity
  rw [hread, hcls, Option.bind_some, hty]
  dsimp only
  by_cases hlt : ty.bitCapacity < bits
  · rw [if_pos hlt]
    exact .inr ⟨hlt, rfl⟩
  · rw [if_neg hlt]
    exact .inl ⟨hlt, rfl⟩

@[grind ←] theorem fieldType_faithful (han : an.Faithful) {field : FieldDecl Expr} :
    Faithful (fieldType an frame field scope) := by
  unfold fieldType
  grind

@[grind ←] theorem fieldVariable_faithful {field : FieldDecl Expr} {ty : Ty} {isBitfield : Bool} :
    Faithful (fieldVariable field ty isBitfield) := by
  unfold fieldVariable
  grind

theorem fieldVariable_entry {field : FieldDecl Expr} {ty : Ty} {b : Bool} {s s' : State} {v : Variable}
    (h : fieldVariable field ty b s = .ok v s') : v.isBitfieldEntry = b := by
  unfold fieldVariable at h
  cases hbits : field.bits <;> rw [hbits] at h <;> cases b <;> cases h <;> rfl

/-- The class is given a member. -/
theorem declareField_heads (han : an.Faithful) {s₀ : State} (hs₀ : s₀.Grounded) {b : Bool} {underlying : Option Ty}
    {total : Nat} {field : FieldDecl Expr} :
    Within s₀ (s₀.Heads item b underlying total) (declareField an frame item scope b field) fun bits s =>
      s₀.Heads item b underlying (min (total + bits) maxTotalBits) s := by
  unfold declareField
  refine .bind_faithful hs₀ checkRedeclaration_faithful State.lasts_heads fun _ => ?_
  refine .bind_faithful hs₀ (fieldType_faithful han) State.lasts_heads fun ty => ?_
  refine .bind_known hs₀ fieldVariable_faithful State.lasts_heads (fun _ _ _ => fieldVariable_entry) fun v hentry => ?_
  refine .bind (((Within.of_faithful hs₀ (addItem_faithful (by simp)) State.lasts_heads).also
    (P := fun m s => s.table.var? m = some v)) ?_) fun m => ?_
  · rintro s _ _ ⟨⟩
    show ((s.table.addItem _).2.item? ⟨s.table.items.size⟩).bind Item.var? = some v
    rw [SymbolTable.item?_addItem, if_pos rfl]
    rfl
  refine .bind (G := fun _ s => s₀.Heads item b underlying (min (total + v.bits) maxTotalBits) s)
    (.change fun s h₀ hs => ?_) fun _ => ?_
  · exact hs.1.modifyClass h₀ (fun _ => ⟨rfl, rfl⟩) (fun _ hc => hc) fun c hc => hc.append rfl hs.2 hentry
  · exact .bind_faithful hs₀ recordDeclared_faithful State.lasts_heads fun _ => .pure fun _ hs => hs

theorem declareFields_heads (han : an.Faithful) {s₀ : State} (hs₀ : s₀.Grounded) {underlying : Option Ty} :
    Within s₀ (s₀.Heads item decl.flags.bitfield underlying 0) (declareFields an frame decl item scope) fun bits s =>
      s₀.Heads item decl.flags.bitfield underlying bits s := by
  unfold declareFields
  refine .foldlM (K := fun total => s₀.Heads item decl.flags.bitfield underlying total) fun total field => ?_
  exact (declareField_heads han hs₀).bind fun bits => .pure fun _ hs => hs

@[grind ←] theorem declareMemberFunctions_faithful (han : an.Faithful) :
    Faithful (declareMemberFunctions an frame decl item scope) := by
  unfold declareMemberFunctions
  grind

/-- Whoever has asked for the fields of a class may move it to another stage. -/
theorem setStage_asked {s₀ : State} (hs₀ : s₀.Grounded) {stage : Stage} {source : ClassSource}
    (hstage : Stage.signatures.rank ≤ stage.rank) :
    Within s₀ (fun s => (s₀.Vouched s ∧ s.Asked item) ∧ s.classes.lookup item = some source) (setStage item stage)
      fun _ s => s₀.Vouched s ∧ s.IsHeaded item := by
  rintro s h₀ ⟨⟨hv, hasked⟩, hsource⟩
  have hheaded : s.IsHeaded item := ⟨source, hsource, hasked source hsource⟩
  refine ⟨h₀.trans (State.honours_withStage hstage), ?_⟩
  rintro _ _ ⟨⟩
  exact ⟨hv.withStage hs₀ h₀ hheaded hstage, hheaded.withStage hstage⟩

/-- The class moves on when it is asked for its fields. -/
theorem setStage_heads {s₀ : State} (hs₀ : s₀.Grounded) {source : ClassSource}
    (hsource : s₀.classes.lookup item = some source) (hlow : ¬ Stage.signatures.rank ≤ source.stage.rank) :
    Within s₀ (· = s₀) (setStage item .signatures) fun _ s =>
      s₀.Heads item source.decl.flags.bitfield none 0 s := by
  rintro s h₀ rfl
  refine ⟨State.honours_withStage (Nat.le_refl _), ?_⟩
  rintro _ _ ⟨⟩
  obtain ⟨cls, hcls, hflag, hblank⟩ := hs₀.sources item source hsource
  have hhead := hblank (Nat.not_le.1 hlow)
  have hmembers : cls.members = [] := congrArg Prod.snd hhead
  refine ⟨fun _ c hne hheaded hnot => absurd (State.isHeaded_withStage hheaded hne) hnot, ?_, ?_, cls, hcls, hflag,
    congrArg Prod.fst hhead, ?_, ?_⟩
  · rintro ⟨kept, hkept, hrank⟩
    cases hsource.symm.trans hkept
    exact hlow hrank
  · refine ⟨{ source with stage := .signatures }, ?_, Nat.le_refl _⟩
    show (s.withStage item .signatures).classes.lookup item = _
    rw [State.lookup_withStage, hsource, Option.map_some, if_pos rfl]
  · rw [hmembers]
    exact nofun
  · rw [hmembers]
    rfl

/-- Move a class on and give it its parents, its underlying type and its members. Gives its scope, and the total
width of the members. -/
def layOut (an : Analyst) (frame : Frame) (decl : ClassDef) (item : ItemId) : Analysis (ScopeId × Nat) := do
  setStage item .signatures
  let scope ← classScope item
  let parents ← resolveParents an frame decl item scope
  change (·.modifyClass item fun c => { c with parents })
  if decl.flags.bitfield then resolveUnderlying an frame decl item scope
  let bits ← declareFields an frame decl item scope
  return (scope, bits)

/-- The head of a class is laid out and checked before its member functions are declared. -/
theorem classSignatures_eq (an : Analyst) (item : ItemId) : classSignatures an item = (do
    match ← classSource? item with
    | none => return
    | some ⟨decl, frame, stage⟩ =>
      if Stage.signatures.rank ≤ stage.rank then return
      let (scope, bits) ← layOut an frame decl item
      if decl.flags.bitfield then checkCapacity decl item bits
      declareMemberFunctions an frame decl item scope) := by
  unfold classSignatures layOut
  refine bind_congr fun known => ?_
  cases known with
  | none => rfl
  | some source =>
    obtain ⟨decl, frame, stage⟩ := source
    by_cases hdone : Stage.signatures.rank ≤ stage.rank
    · simp [hdone]
    · by_cases hbitfield : decl.flags.bitfield = true <;> simp [hdone, hbitfield, bind_assoc]

/-- Behind its layout a class has its fields, and a bitfield an underlying type. -/
theorem layOut_heads (han : an.Faithful) {s₀ : State} (hs₀ : s₀.Grounded) {stage : Stage}
    (hsource : s₀.classes.lookup item = some ⟨decl, frame, stage⟩) (hlow : ¬ Stage.signatures.rank ≤ stage.rank) :
    Within s₀ (· = s₀) (layOut an frame decl item) fun laid s => ∃ underlying,
      (decl.flags.bitfield = true → ∃ ty, underlying = some ty ∧ ty.IsIntegral) ∧
        s₀.Heads item decl.flags.bitfield underlying laid.2 s := by
  unfold layOut
  refine .bind (setStage_heads hs₀ hsource hlow) fun _ => ?_
  refine .bind_faithful hs₀ classScope_faithful State.lasts_heads fun scope => ?_
  refine .bind_faithful hs₀ (resolveParents_faithful han) State.lasts_heads fun parents => ?_
  refine .bind_faithful hs₀ (change_faithful fun _ => .modifyClass fun _ => ⟨rfl, rfl, rfl⟩) State.lasts_heads
    fun _ => ?_
  have hrest : ∀ underlying, (decl.flags.bitfield = true → ∃ ty, underlying = some ty ∧ ty.IsIntegral) →
      Within s₀ (s₀.Heads item decl.flags.bitfield underlying 0) (do
        let bits ← declareFields an frame decl item scope
        return (scope, bits)) fun laid s => ∃ underlying,
          (decl.flags.bitfield = true → ∃ ty, underlying = some ty ∧ ty.IsIntegral) ∧
            s₀.Heads item decl.flags.bitfield underlying laid.2 s := fun underlying hunderlying =>
    (declareFields_heads han hs₀).bind fun bits => .pure fun _ hs => ⟨underlying, hunderlying, hs⟩
  refine .branch (fun hbitfield => ?_) fun hplain => hrest none fun hb => absurd hb hplain
  refine .bind ((resolveUnderlying_heads han hs₀).imp (fun s hs => hbitfield ▸ hs) fun _ _ hs => hs) fun _ => ?_
  rintro s h₀ ⟨ty, hintegral, hs⟩
  exact hrest (some ty) (fun _ => ⟨ty, rfl, hintegral⟩) s h₀ (hbitfield ▸ hs)

/-- Behind its head a class has been asked for its fields. -/
theorem classSignatures_asked (han : an.Faithful) {s₀ : State} (hs₀ : s₀.Grounded) :
    Within s₀ (· = s₀) (classSignatures an item) fun _ s => s₀.Vouched s ∧ s.Asked item := by
  rw [classSignatures_eq]
  refine .bind_classSource fun source => ?_
  split
  · refine .pure ?_
    rintro s ⟨rfl, hnone⟩
    exact ⟨.of_classes rfl, fun _ hsource => nomatch hnone.symm.trans hsource⟩
  rename_i decl frame stage
  split
  · rename_i hdone
    refine .pure ?_
    rintro s ⟨rfl, hsome⟩
    refine ⟨.of_classes rfl, fun source hsource => ?_⟩
    cases hsome.symm.trans hsource
    exact hdone
  rename_i hlow
  refine .start (P := fun s => s.classes.lookup item = some ⟨decl, frame, stage⟩) fun hsource => ?_
  refine .bind (layOut_heads han hs₀ hsource hlow) fun ⟨scope, bits⟩ => ?_
  have hmembers : Within s₀ (fun s => s₀.Vouched s ∧ s.IsHeaded item)
      (declareMemberFunctions an frame decl item scope) fun _ s => s₀.Vouched s ∧ s.Asked item :=
    (Within.of_faithful hs₀ (declareMemberFunctions_faithful han)
      (.and (.vouched hs₀) State.lasts_isHeaded)).imp (fun _ hs => hs) fun _ s hs => ⟨hs.1, hs.2.asked⟩
  refine .branch (fun hbitfield => ?_) fun hplain => hmembers.imp (fun s hs => ?_) fun _ _ hs => hs
  · refine .bind (G := fun _ s => s₀.Vouched s ∧ s.IsHeaded item) (fun s h₀ hs => ?_) fun _ => hmembers
    obtain ⟨_, hunderlying, hs⟩ := hs
    obtain ⟨ty, rfl, hintegral⟩ := hunderlying hbitfield
    obtain ⟨cls, hcls, -, hty, -⟩ := hs.fields
    rcases checkCapacity_eq decl hcls hty with ⟨hpassed, hcheck⟩ | ⟨-, hcheck⟩
    · rw [behind, hcheck]
      refine ⟨h₀, ?_⟩
      rintro _ _ ⟨⟩
      exact ⟨hs.vouched fun _ => ⟨ty, rfl, hintegral, hpassed⟩, hs.headed⟩
    · rw [behind, hcheck]
      refine ⟨h₀, ?_⟩
      rintro _ _ ⟨⟩
  · obtain ⟨_, -, hs⟩ := hs
    exact ⟨hs.vouched fun hb => absurd hb hplain, hs.headed⟩

@[grind ←] theorem classSignatures_faithful (han : an.Faithful) : Faithful (classSignatures an item) :=
  Within.faithful fun _ hs₀ => (classSignatures_asked han hs₀).imp (fun _ hs => hs) fun _ _ hs => hs.1

end ClassHeads

/-! ## Synthesis -/

section Synthesis

variable {item : ItemId}

@[grind ←] theorem isDefaultConstructible_faithful (han : an.Faithful) {ty : Ty} :
    Faithful (isDefaultConstructible an ty) := by
  unfold isDefaultConstructible isDefaultConstructibleClass
  grind

@[grind ←] theorem typeNeedsCleanup_faithful (han : an.Faithful) {ty : Ty} :
    Faithful (typeNeedsCleanup an ty) := by
  unfold typeNeedsCleanup
  grind

@[grind ←] theorem classNeedsCleanup_faithful (han : an.Faithful) {c : Class} :
    Faithful (classNeedsCleanup an c) := by
  unfold classNeedsCleanup
  grind

@[grind ←] theorem checkFieldConstructible_faithful (han : an.Faithful) {name : String} {field : FieldDecl Expr} :
    Faithful (checkFieldConstructible an item name field) := by
  unfold checkFieldConstructible
  grind

@[grind ←] theorem checkParentConstructible_faithful (han : an.Faithful) {name : String} {parent : ItemId} :
    Faithful (checkParentConstructible an name position parent) := by
  unfold checkParentConstructible
  grind

@[grind ←] theorem checkConstructible_faithful (han : an.Faithful) {decl : ClassDef} :
    Faithful (checkConstructible an item decl) := by
  unfold checkConstructible
  grind

@[grind ←] theorem makeMember_faithful {role : Role} {params : List (Param Expr)}
    {body : List Stmt} :
    Faithful (makeMember role params body position) := by
  unfold makeMember
  grind

@[grind ←] theorem makeDefaultConstructor_faithful {hasParents : Bool} :
    Faithful (makeDefaultConstructor hasParents position) := by
  unfold makeDefaultConstructor
  grind

@[grind ←] theorem makeCopyConstructor_faithful : Faithful (makeCopyConstructor position) := by
  unfold makeCopyConstructor
  grind

@[grind ←] theorem declareSynthesized_faithful (han : an.Faithful) {decl : FunctionDef} :
    Faithful (declareSynthesized an frame decl item scope) := by
  unfold declareSynthesized
  grind

@[grind ←] theorem synthesizeCopy_faithful (han : an.Faithful) :
    Faithful (synthesizeCopy an frame item scope position) := by
  unfold synthesizeCopy
  grind

@[grind ←] theorem synthesizeMembers_faithful (han : an.Faithful) {source : ClassSource} :
    Faithful (synthesizeMembers an item source) := by
  unfold synthesizeMembers
  refine .bind look_faithful fun known => .bind expect_faithful fun c => ?_
  refine .bind (.forM fun _ => han.ask _) fun _ => .bind (classNeedsCleanup_faithful han) fun needsCleanup => ?_
  refine .bind (change_faithful fun _ => .modifyClass fun _ => ⟨rfl, rfl, rfl⟩) fun _ => ?_
  -- the default constructor, the destructor and the copy constructor, where they are not written
  dsimp only
  split
  on_goal 1 =>
    refine .bind (checkConstructible_faithful han) fun _ => .bind makeDefaultConstructor_faithful fun ctor => ?_
    refine .bind (.discard (declareSynthesized_faithful han)) fun _ => ?_
  all_goals
    split
    on_goal 1 =>
      refine .bind makeMember_faithful fun dtor => ?_
      refine .bind (.discard (declareSynthesized_faithful han)) fun _ => ?_
    all_goals
      refine .bind look_faithful fun hasCopy => .bind .get fun s => ?_
      split
      on_goal 1 => refine .bind (synthesizeCopy_faithful han) fun _ => ?_
      all_goals exact .alter fun _ => rfl

/-- Behind its synthesis a class has been asked for its fields. -/
theorem synthesize_asked (han : an.Faithful) {s₀ : State} (hs₀ : s₀.Grounded) :
    Within s₀ s₀.Vouched (synthesize an item) fun _ s => s₀.Vouched s ∧ s.Asked item := by
  unfold synthesize
  refine .bind (Within.ask han hs₀ (.signatures item)) fun _ => .bind_classSource fun known => ?_
  split
  · exact .pure fun _ hs => hs.1
  · split
    · exact .pure fun _ hs => hs.1
    · have hheaded : Lasts s₀ fun s => s₀.Vouched s ∧ s.IsHeaded item := .and (.vouched hs₀) State.lasts_isHeaded
      refine .bind (setStage_asked hs₀ (by decide)) fun _ => ?_
      refine .andFinally (.of_faithful hs₀ (synthesizeMembers_faithful han) hheaded) (fun s h₀ => ?_) fun _ s h₀ hs => ?_
      · exact h₀.trans (State.honours_withStage (by decide))
      · exact ⟨hs.1.withStage hs₀ h₀ hs.2 (by decide), (hs.2.withStage (by decide)).asked⟩

@[grind ←] theorem synthesize_faithful (han : an.Faithful) : Faithful (synthesize an item) :=
  Within.faithful_of_vouched fun _ hs₀ => (synthesize_asked han hs₀).imp (fun _ hs => hs) fun _ _ hs => hs.1

end Synthesis

end Analysis

end SemanticAnalysis
