import SemanticAnalysis.Module.Loading

/-!
# Load states after a change

Setting or forgetting the state of a path does so for the paths that have its entry (`SameEntry`) and for no
other. So a path is done only because it was finished: claiming or forgetting paths makes no other path done.
-/

namespace SemanticAnalysis.LoadStates

variable {s : LoadStates} {path p : Path} {state : LoadState} {m : ModuleId}

theorem same_iff {p q : Path} : p.same q = true ↔ p.components = q.components := beq_iff_eq

/-! ## Buckets -/

theorem getD_lookup_update (k k' : UInt64) (make : Bool)
    {f : List (Path × LoadState) → List (Path × LoadState)} (hf : make = true ∨ f [] = [])
    (buckets : List (UInt64 × List (Path × LoadState))) :
    ((update k make f buckets).lookup k').getD [] =
      if k' = k then f ((buckets.lookup k').getD []) else (buckets.lookup k').getD [] := by
  induction buckets with
  | nil =>
    unfold update
    by_cases hk : k' = k
    · cases make <;> simp_all
    · have hne : (k' == k) = false := beq_eq_false_iff_ne.2 hk
      cases make <;> simp [List.lookup_cons, hk, hne]
  | cons b rest ih =>
    obtain ⟨held, bucket⟩ := b
    unfold update
    by_cases hheld : held = k
    · by_cases hk : k' = k
      · simp [hheld, hk]
      · have hne : (k' == k) = false := beq_eq_false_iff_ne.2 hk
        simp [List.lookup_cons, hheld, hk, hne]
    · by_cases hk : k' = held
      · simp [hk, hheld]
      · have hne : (k' == held) = false := beq_eq_false_iff_ne.2 hk
        simpa [List.lookup_cons, hheld, hne] using ih

theorem bucket_set :
    (s.set path state).bucket p =
      if key p = key path then put path state (s.bucket p) else s.bucket p :=
  getD_lookup_update (key path) (key p) true (.inl rfl) s.buckets

theorem bucket_abandon :
    (s.abandon path).bucket p =
      if key p = key path then (s.bucket p).filter fun e => !e.1.same path else s.bucket p :=
  getD_lookup_update (key path) (key p) false (.inr rfl) s.buckets

/-! ## States -/

/-- The paths have one entry: they are in one bucket and have the same components. -/
def SameEntry (p q : Path) : Prop := key p = key q ∧ p.same q = true

instance (p q : Path) : Decidable (SameEntry p q) := inferInstanceAs (Decidable (_ ∧ _))

theorem SameEntry.refl (p : Path) : SameEntry p p := ⟨rfl, same_iff.2 rfl⟩

theorem state?_congr {q : Path} (h : SameEntry p q) : s.state? p = s.state? q := by
  unfold state? bucket Path.same
  rw [h.1, same_iff.1 h.2]

/-- What is found by path where the entry of a path is replaced, or one is appended. -/
theorem find?_of_replacing {α : Type} {path : Path} {new : α} (put : List (Path × α) → List (Path × α))
    (hnil : put [] = [(path, new)])
    (hcons : ∀ q old rest, put ((q, old) :: rest) =
      if q.same path then (q, new) :: rest else (q, old) :: put rest)
    (p : Path) (held : List (Path × α)) :
    ((put held).find? (·.1.same p)).map (·.2) =
      if p.same path then some new else (held.find? (·.1.same p)).map (·.2) := by
  induction held with
  | nil =>
    have hcomm : path.same p = p.same path := Bool.beq_comm
    by_cases h : p.same path <;> simp [hnil, hcomm, h]
  | cons first rest ih =>
    obtain ⟨q, old⟩ := first
    have hsame : q.same p = true → p.same path = q.same path := fun hp => by
      rw [Path.same, Path.same, same_iff.1 hp]
    have hother : q.same path = true → q.same p = false → p.same path = false := by
      intro hpath hp
      rw [← Bool.not_eq_true, same_iff] at hp ⊢
      exact fun heq => hp ((same_iff.1 hpath).trans heq.symm)
    rw [hcons]
    cases hpath : q.same path <;> cases hp : q.same p <;> simp_all

theorem find?_put (path p : Path) (state : LoadState) (held : List (Path × LoadState)) :
    ((put path state held).find? (·.1.same p)).map (·.2) =
      if p.same path then some state else (held.find? (·.1.same p)).map (·.2) :=
  find?_of_replacing (put path state) rfl (fun _ _ _ => rfl) p held

/-- Setting the state of a path sets it for all paths with its entry. -/
theorem state?_set_eq :
    (s.set path state).state? p = if SameEntry p path then some state else s.state? p := by
  unfold state?
  rw [bucket_set]
  by_cases hkey : key p = key path
  · rw [if_pos hkey, find?_put]
    simp [SameEntry, hkey]
  · rw [if_neg hkey, if_neg fun h => hkey h.1]

/-- A path is forgotten together with all paths that have its entry. -/
theorem state?_abandon_eq :
    (s.abandon path).state? p = if SameEntry p path then none else s.state? p := by
  unfold state?
  rw [bucket_abandon]
  by_cases hkey : key p = key path
  · rw [if_pos hkey, List.find?_filter]
    have hsame : ∀ e : Path × LoadState, e.1.same p = true → e.1.same path = p.same path :=
      fun e he => by rw [Path.same, Path.same, same_iff.1 he]
    by_cases hp : p.same path = true
    · rw [if_pos ⟨hkey, hp⟩, Option.map_eq_none_iff, List.find?_eq_none]
      intro e _
      cases he : e.1.same p <;> simp [hsame e, he, hp]
    · rw [if_neg fun h => hp h.2]
      congr 2
      funext e
      cases he : e.1.same p <;> simp [hsame e, he, hp]
  · rw [if_neg hkey, if_neg fun h => hkey h.1]

theorem state?_set (h : (s.set path state).state? p = some (.done m)) :
    s.state? p = some (.done m) ∨ state = .done m := by
  rw [state?_set_eq] at h
  split at h
  · exact .inr (Option.some.inj h)
  · exact .inl h

/-- What is left after a path is forgotten was there before. -/
theorem state?_abandon (h : (s.abandon path).state? p = some state) : s.state? p = some state := by
  rw [state?_abandon_eq] at h
  split at h
  · cases h
  · exact h

end SemanticAnalysis.LoadStates
