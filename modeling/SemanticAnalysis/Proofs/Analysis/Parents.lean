import SemanticAnalysis.Proofs.Analysis.Control

/-!
# Parents are resolved without cycles

A class under way has moved on to its next stage but has no parents yet, so whoever meets it there
inherits from a class without ancestors. What keeps that from closing a cycle is the order of events.

1. A written parent is settled when its check is made, and so is all it inherits from. Neither changes
   until the list is stored (`State.MayInherit.onward`), however many classes are resolved in between:
   only a class that was not settled can get parents.
2. So the check of each written parent still stands when the last one has passed
   (`resolveParents_runs`), and the list closes no cycle (`State.Sound.withParents`).
3. The class itself was not settled when all this began; its new parents are news to nobody
   (`classSignatures_runs`).
-/

namespace SemanticAnalysis

/-! ## Fitting parents -/

/-- A settled class that does not inherit from `cls`, and is not `cls`. -/
structure State.MayInherit (s : State) (cls p : ItemId) : Prop where
  settled : s.Settled p
  apart : ¬ s.table.Climbs p cls

theorem State.MayInherit.onward {s s' : State} {cls p : ItemId} (h : s.MayInherit cls p)
    (hs : s.Sound) (honward : s.Onward s') : s'.MayInherit cls p where
  settled := honward.settled p h.settled
  apart hclimbs := h.apart (honward.climbs hs h.settled hclimbs)

namespace Analysis

variable {frame : Frame} {scope : ScopeId} {an an' : Analyst} {item : ItemId} {s : State}

/-! ## One class -/

theorem resolveParent_runs (han : an.Agrees an') (hs : s.Sound) {earlier : List ItemId}
    {written : TypeExpr} :
    Runs (fun s' p => s'.MayInherit item p) s s (resolveParent an frame item scope earlier written)
      (resolveParent an' frame item scope earlier written) := by
  unfold resolveParent
  refine (type_keeps han s hs (Nat.zero_le _)).bind fun ty s₁ hs₁ h₁ hty => ?_
  split
  · exact ⟨rfl, hs₁, h₁⟩
  rename_i parent hparent
  have hasked := han.signatures hs₁ (hty.valueClass hparent)
  refine (hasked.after h₁).bind fun _ s₂ hs₂ h₂ ⟨_, hsettled⟩ => ?_
  refine .bind_read (h := fun s => s.table.hasParent parent item) ?_
  dsimp only
  split
  · exact ⟨rfl, hs₂, h₂⟩
  rename_i hcheck
  split
  · exact ⟨rfl, hs₂, h₂⟩
  refine .pure hs₂ h₂ ⟨hsettled, fun hclimbs => hcheck ?_⟩
  by_cases heq : parent = item
  · simp [heq]
  · simp [SymbolTable.hasParent_of_climbs hclimbs heq]

theorem resolveParents_runs (han : an.Agrees an') (hs : s.Sound) {decl : ClassDef} :
    Runs (fun s' parents => ∀ p ∈ parents, s'.MayInherit item p) s s
      (resolveParents an frame decl item scope) (resolveParents an' frame decl item scope) := by
  have hloop : ∀ (rest : List TypeExpr) (earlier : List ItemId) (s : State), s.Sound →
      (∀ p ∈ earlier, s.MayInherit item p) →
      Runs (fun s' parents => ∀ p ∈ parents, s'.MayInherit item p) s s
        (rest.foldlM (fun parents written => do
          return parents ++ [← resolveParent an frame item scope parents written]) earlier)
        (rest.foldlM (fun parents written => do
          return parents ++ [← resolveParent an' frame item scope parents written]) earlier) := by
    intro rest
    induction rest with
    | nil => exact fun earlier s hs hearlier => .pure hs (.refl s) hearlier
    | cons written rest ih =>
      intro earlier s hs hearlier
      rw [List.foldlM_cons, List.foldlM_cons, bind_assoc, bind_assoc]
      refine (resolveParent_runs han hs).bind fun p s' hs' h' hp => ?_
      rw [pure_bind, pure_bind]
      refine ((ih _ s' hs' fun q hq => ?_).after h').imp fun _ _ h => h.2
      rcases List.mem_append.1 hq with hq | hq
      · exact (hearlier q hq).onward hs h'
      · rw [List.mem_singleton.1 hq]
        exact hp
  exact hloop decl.parents [] s hs (by simp)

/-- Only an existing class has a scope. -/
theorem classScope_gives {n : Nat} :
    Gives n (fun m _ => item.index < m) (classScope item) (classScope item) := by
  intro s hs _
  unfold classScope
  refine .bind_read (h := fun s => s.table.class? item) ?_
  cases hclass : s.table.class? item with
  | none => exact ⟨rfl, hs, .refl s⟩
  | some c => exact .pure hs (.refl s) (SymbolTable.lt_of_class? hclass)

/-- **Resolving a head.** Once its head was asked for, a class is settled. -/
theorem classSignatures_runs (han : an.Agrees an') (hs : s.Sound) :
    Runs (fun s' _ => item.index < s.bound → s'.Settled item) s s (classSignatures an item)
      (classSignatures an' item) := by
  unfold classSignatures
  refine .bind_read (h := fun s => s.classes.lookup item) ?_
  split
  · rename_i hsource
    refine .pure hs (.refl s) fun hitem => ⟨hitem, fun source h => ?_⟩
    rw [hsource] at h
    cases h
  rename_i decl frame stage hsource
  split
  · rename_i hstage
    refine .pure hs (.refl s) fun hitem => ⟨hitem, fun source h => ?_⟩
    rw [hsource] at h
    cases h
    exact hstage
  rename_i hstage
  have hunsettled : ¬ s.Settled item := fun h => hstage (h.begun _ hsource)
  -- from here on whoever asks for the class finds it settled
  refine .bind_change (u := (·.withStage item .signatures)) ?_
  have hs₁ : (s.withStage item .signatures).Sound := hs.withStage (Nat.le_refl _)
  have h₁ : s.Onward (s.withStage item .signatures) := .withStage (Nat.le_refl _)
  have hscope : Gives 0 _ (classScope item) (classScope item) := classScope_gives
  refine ((hscope _ hs₁ (Nat.zero_le _)).after h₁).bind fun scope s₂ hs₂ h₂ ⟨h₁₂, hitem⟩ => ?_
  refine ((resolveParents_runs han hs₂).after h₂).bind fun parents s₃ hs₃ h₃ ⟨h₂₃, hparents⟩ => ?_
  refine .bind_change (u := (·.withParents item parents)) ?_
  have hs₄ : (s₃.withParents item parents).Sound :=
    hs₃.withParents (fun p hp => (hparents p hp).settled) fun p hp => (hparents p hp).apart
  have h₄ : s.Onward (s₃.withParents item parents) := h₃.withParents hunsettled
  have hrest : Keeps s₂.bound (do
      if decl.flags.bitfield then resolveUnderlying an frame decl item scope
      let bits ← declareFields an frame decl item scope
      if decl.flags.bitfield then checkCapacity decl item bits
      declareMemberFunctions an frame decl item scope) (do
      if decl.flags.bitfield then resolveUnderlying an' frame decl item scope
      let bits ← declareFields an' frame decl item scope
      if decl.flags.bitfield then checkCapacity decl item bits
      declareMemberFunctions an' frame decl item scope) := by
    refine .guard (resolveUnderlying_keeps han) fun m hm => ?_
    refine .bind (declareFields_keeps han) fun bits k hk _ => ?_
    refine .guard checkCapacity_keeps fun k₁ hk₁ => ?_
    exact declareMemberFunctions_keeps han (by grind)
  have hbound : s₂.bound ≤ (s₃.withParents item parents).bound := by
    rw [State.bound_withParents]
    exact h₂₃.bound_le
  refine ((hrest _ hs₄ hbound).after h₄).imp fun _ s₅ ⟨h₄₅, _⟩ hlt => ?_
  have hsettled := State.settled_withStage (s := s) (Nat.le_refl _) hlt (.inl rfl)
  exact h₄₅.settled _ (State.settled_withParents (h₂₃.settled _ (h₁₂.settled _ hsettled)))

end Analysis

end SemanticAnalysis
