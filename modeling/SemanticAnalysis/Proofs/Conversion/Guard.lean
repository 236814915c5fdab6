import SemanticAnalysis.Proofs.Conversion.Derivation

/-!
# The re-entry guard loses no conversion

`Conversion.search` stops in two ways: at its depth bound, and at a pair of types that it is already
searching. `Conversion.bounded` is the same search with the depth bound alone, and the two agree on
which types convert (`converts_iff_bounded`).

1. Deeper searches find more (`bounded_covers`), and so do searches with fewer pairs to avoid
   (`search_covers`).
2. What the guarded search finds, the bounded one finds too (`search_covers_bounded`).
3. A derivation of least depth never meets a pair twice: if a pair that is being searched were
   needed below itself, it would have a shallower derivation (`search_of_bounded`).

So the depth bound alone decides what converts, and raising it only adds conversions
(`converts_of_depth_le`).
-/

namespace SemanticAnalysis

namespace Conversion

variable (table : SymbolTable)

/-- Search for a conversion at most `depth` rules deep, with no other limit. -/
def bounded : (depth : Nat) → Ty → Ty → Conversion
  | depth, src, dst =>
    if src == dst then ofScore exactScore
    else
      match depth with
      | 0 => impossible
      | depth + 1 => rules table (bounded depth) src dst

/-! ## One step of each search -/

section Steps

variable {table}

/-- A pair of types is in a list, up to the names in it. -/
def Listed (active : List (Ty × Ty)) (src dst : Ty) : Prop :=
  ∃ pair ∈ active, pair.1.erase = src.erase ∧ pair.2.erase = dst.erase

theorem any_iff_listed {active : List (Ty × Ty)} {src dst : Ty} :
    (active.any fun (s, d) => s == src && d == dst) = true ↔ Listed active src dst := by
  simp [Listed, Ty.beq_iff]

theorem finds_bounded_zero {src dst : Ty} :
    Finds (bounded table 0) src dst ↔ src.erase = dst.erase := by
  unfold Finds
  rw [bounded, ← Ty.beq_iff]
  by_cases h : (src == dst) = true <;> simp [h, exactScore]

theorem finds_bounded_succ {depth : Nat} {src dst : Ty} :
    Finds (bounded table (depth + 1)) src dst ↔
      src.erase = dst.erase ∨ Derives table (Finds (bounded table depth)) src dst := by
  rw [← rules_isPossible_iff, ← Ty.beq_iff]
  unfold Finds
  rw [bounded]
  by_cases h : (src == dst) = true <;> simp [h, exactScore]

theorem finds_search_zero {active : List (Ty × Ty)} {src dst : Ty} :
    Finds (search table 0 active) src dst ↔ src.erase = dst.erase := by
  unfold Finds
  rw [search, ← Ty.beq_iff]
  by_cases h : (src == dst) = true <;> simp [h, exactScore]

theorem finds_search_succ {depth : Nat} {active : List (Ty × Ty)} {src dst : Ty} :
    Finds (search table (depth + 1) active) src dst ↔
      src.erase = dst.erase ∨ ¬ Listed active src dst ∧
        Derives table (Finds (search table depth ((src, dst) :: active))) src dst := by
  rw [← rules_isPossible_iff, ← Ty.beq_iff, ← any_iff_listed]
  unfold Finds
  rw [search]
  by_cases h : (src == dst) = true
  · simp [h, exactScore]
  · by_cases ha : (active.any fun (s, d) => s == src && d == dst) = true <;> simp [h, ha]

end Steps

/-! ## More depth and fewer pairs to avoid -/

theorem bounded_covers {n m : Nat} (h : n ≤ m) :
    Covers (Finds (bounded table n)) (Finds (bounded table m)) := by
  intro src src' dst dst' hs hd hfinds
  induction n generalizing m src src' dst dst' with
  | zero =>
    have heq : src'.erase = dst'.erase := by rw [← hs, ← hd, finds_bounded_zero.1 hfinds]
    cases m with
    | zero => exact finds_bounded_zero.2 heq
    | succ m => exact finds_bounded_succ.2 (.inl heq)
  | succ n ih =>
    obtain ⟨m, rfl⟩ : ∃ k, m = k + 1 := ⟨m - 1, by omega⟩
    rw [finds_bounded_succ] at hfinds ⊢
    rcases hfinds with heq | hstep
    · exact .inl (by rw [← hs, ← hd, heq])
    · exact .inr (hstep.mono (fun _ _ _ _ hs hd hf => ih (by omega) hs hd hf) hs hd)

/-- **Monotonicity of the search.** A deeper search with fewer pairs to avoid finds more. -/
theorem search_covers {n m : Nat} (h : n ≤ m) {active active' : List (Ty × Ty)}
    (hsub : ∀ src dst, Listed active' src dst → Listed active src dst) :
    Covers (Finds (search table n active)) (Finds (search table m active')) := by
  intro src src' dst dst' hs hd hfinds
  induction n generalizing m active active' src src' dst dst' with
  | zero =>
    have heq : src'.erase = dst'.erase := by rw [← hs, ← hd, finds_search_zero.1 hfinds]
    cases m with
    | zero => exact finds_search_zero.2 heq
    | succ m => exact finds_search_succ.2 (.inl heq)
  | succ n ih =>
    obtain ⟨m, rfl⟩ : ∃ k, m = k + 1 := ⟨m - 1, by omega⟩
    rw [finds_search_succ] at hfinds ⊢
    rcases hfinds with heq | ⟨hfresh, hstep⟩
    · exact .inl (by rw [← hs, ← hd, heq])
    · refine .inr ⟨?_, hstep.mono (fun _ _ _ _ hs' hd' hf => ih (by omega) ?_ hs' hd' hf) hs hd⟩
      · intro hlisted
        obtain ⟨pair, hmem, hp⟩ := hsub _ _ hlisted
        exact hfresh ⟨pair, hmem, by rw [hp.1, hs], by rw [hp.2, hd]⟩
      · rintro x y ⟨pair, hmem, hx, hy⟩
        rcases List.mem_cons.1 hmem with rfl | hmem
        · exact ⟨(src, dst), List.mem_cons_self, by rw [← hx, hs], by rw [← hy, hd]⟩
        · obtain ⟨pair', hmem', hp⟩ := hsub _ _ ⟨pair, hmem, hx, hy⟩
          exact ⟨pair', List.mem_cons_of_mem _ hmem', hp⟩

theorem search_covers_bounded (n : Nat) (active : List (Ty × Ty)) :
    Covers (Finds (search table n active)) (Finds (bounded table n)) := by
  intro src src' dst dst' hs hd hfinds
  induction n generalizing active src src' dst dst' with
  | zero => exact finds_bounded_zero.2 (by rw [← hs, ← hd, finds_search_zero.1 hfinds])
  | succ n ih =>
    rw [finds_search_succ] at hfinds
    rw [finds_bounded_succ]
    rcases hfinds with heq | ⟨-, hstep⟩
    · exact .inl (by rw [← hs, ← hd, heq])
    · exact .inr (hstep.mono (fun _ _ _ _ hs' hd' hf => ih _ hs' hd' hf) hs hd)

/-! ## A derivation of least depth meets no pair twice -/

/-- **Completeness of the guard.** A conversion of bounded depth is found, as long as none of the
pairs being searched has one. -/
theorem search_of_bounded (n : Nat) (active : List (Ty × Ty)) {src dst : Ty}
    (hactive : ∀ pair ∈ active, ¬ Finds (bounded table n) pair.1 pair.2)
    (h : Finds (bounded table n) src dst) : Finds (search table n active) src dst := by
  induction n generalizing active src dst with
  | zero => exact finds_search_zero.2 (finds_bounded_zero.1 h)
  | succ n ih =>
    have hbelow : ∀ pair ∈ active, ¬ Finds (bounded table n) pair.1 pair.2 :=
      fun pair hmem hf => hactive pair hmem (bounded_covers table (Nat.le_succ n) rfl rfl hf)
    by_cases hn : Finds (bounded table n) src dst
    · -- a shallower derivation serves
      exact search_covers table (Nat.le_succ n) (fun _ _ h => h) rfl rfl (ih active hbelow hn)
    · -- there is none, so the pair joins those that have none at the depth below
      rw [finds_search_succ]
      rcases finds_bounded_succ.1 h with heq | hstep
      · exact .inl heq
      · refine .inr ⟨?_, hstep.mono ?_ rfl rfl⟩
        · rintro ⟨pair, hmem, hs, hd⟩
          exact hactive pair hmem (bounded_covers table (Nat.le_refl _) hs.symm hd.symm h)
        · intro x x' y y' hx hy hf
          refine ih _ (fun pair hmem => ?_) (bounded_covers table (Nat.le_refl _) hx hy hf)
          rcases List.mem_cons.1 hmem with rfl | hmem
          · exact hn
          · exact hbelow pair hmem

variable {table} in
/-- A value fits iff the search with the depth bound alone finds that it does. -/
theorem finds_bounded_iff_converts {options : Options} {src dst : Ty} :
    Finds (bounded table options.conversionDepth) src dst ↔ converts table options src dst = true :=
  ⟨search_of_bounded table _ [] (by simp), search_covers_bounded table _ [] rfl rfl⟩

end Conversion

/-- **The guard is harmless.** For every table, depth bound and pair of types, a value fits iff the
search with the depth bound alone gives it a positive score. -/
theorem converts_iff_bounded (table : SymbolTable) (options : Options) (src dst : Ty) :
    converts table options src dst = true ↔
      0 < (Conversion.bounded table options.conversionDepth src dst).score := by
  rw [← Conversion.isPossible_iff]
  exact Conversion.finds_bounded_iff_converts.symm

/-- **Raising the depth bound loses no conversion.** What fits under one bound fits under every larger
one, whatever else the options say. -/
theorem converts_of_depth_le (table : SymbolTable) {options deeper : Options}
    (hdepth : options.conversionDepth ≤ deeper.conversionDepth) {src dst : Ty}
    (h : converts table options src dst = true) : converts table deeper src dst = true :=
  Conversion.search_covers table hdepth (fun _ _ hlisted => hlisted) rfl rfl h

/-- Only the score can fall. A deeper search reads an `int&` before it looks for it among the members of
`int& | bool`, and binds what it has read. -/
theorem converts_of_depth_le_member :
    let src : Ty := Ty.int.reference
    let dst : Ty := .bare (.union [src, .bool])
    let shallow : Options := { conversionDepth := 1 }
    shallow.conversionDepth ≤ ({} : Options).conversionDepth ∧
      convert {} shallow src dst = ⟨10, none⟩ ∧ convert {} {} src dst = ⟨9, none⟩ ∧
      converts {} {} src dst = true := by
  intro src dst shallow
  have hscore : convert {} shallow src dst = ⟨10, none⟩ := by decide +kernel
  have hfits : converts {} shallow src dst = true := by
    unfold converts
    rw [hscore]
    rfl
  have hdepth : shallow.conversionDepth ≤ ({} : Options).conversionDepth := by decide
  exact ⟨hdepth, hscore, by decide +kernel, converts_of_depth_le {} hdepth hfits⟩

end SemanticAnalysis
