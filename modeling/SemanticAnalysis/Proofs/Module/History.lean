import Mathlib.Data.List.Induction
import SemanticAnalysis.Proofs.Module.Loading

/-!
# Histories of load states

Loading is claimed, finished and given up path by path. Every such step concerns the paths that have the
entry of its own path, and what it leaves there hangs on what was there (`LoadStep.state?_next`); so what is
known of a path in the end is what the last steps on its entry left. Entries are looked up by a digest of
the spelling, and the components are compared only behind that. Hence paths with the same components need
not have one entry (`spelling_splits_path`), and the laws of a memo hold among paths whose digests agree
with their components (`Path.Agree`), as those of folded paths do (`Path.agree_normalized`).
-/

namespace SemanticAnalysis

open LoadStates (SameEntry key same_iff)

/-! ## Paths with one spelling -/

namespace Path

variable {p q : Path}

/-- Among these paths, those with the same components have one digest. -/
def Agree (these : Path → Prop) : Prop := ∀ p q, these p → these q → p.same q = true → key p = key q

/-- Dots are folded, and each component is spelled in the plainest way. -/
def IsNormalized (p : Path) : Prop := p.normalize = p

instance (p : Path) : Decidable p.IsNormalized := inferInstanceAs (Decidable (_ = _))

theorem agree_normalized : Agree IsNormalized := by
  intro p q hp hq hsame
  have heq : p.normalize = q.normalize := by rw [normalize, normalize, same_iff.1 hsame]
  rw [← hp, ← hq, heq]

theorem same_comm : p.same q = q.same p := Bool.beq_comm

theorem same_trans {r : Path} (h : p.same q = true) (h' : q.same r = true) : p.same r = true :=
  same_iff.2 ((same_iff.1 h).trans (same_iff.1 h'))

theorem Agree.sameEntry_iff {these : Path → Prop} (h : Agree these) (hp : these p) (hq : these q) :
    SameEntry p q ↔ p.same q = true :=
  ⟨fun hentry => hentry.2, fun hsame => ⟨h p q hp hq hsame, hsame⟩⟩

end Path

/-! ## Entries -/

namespace LoadStates

variable {s : LoadStates} {path p q : Path} {k : UInt64} {make : Bool}
  {f : List (Path × LoadState) → List (Path × LoadState)}

theorem SameEntry.symm (h : SameEntry p q) : SameEntry q p := ⟨h.1.symm, Path.same_comm ▸ h.2⟩

theorem SameEntry.trans {r : Path} (h : SameEntry p q) (h' : SameEntry q r) : SameEntry p r :=
  ⟨h.1.trans h'.1, Path.same_trans h.2 h'.2⟩

/-- The paths that have a state, as they were first spelled. -/
def paths (s : LoadStates) : List Path := (s.buckets.flatMap (·.2)).map (·.1)

/-- Every path lies in the bucket of its digest, once. -/
structure Tidy (s : LoadStates) : Prop where
  keys : (s.buckets.map (·.1)).Nodup
  placed : ∀ b ∈ s.buckets, ∀ e ∈ b.2, key e.1 = b.1
  distinct : ∀ b ∈ s.buckets, b.2.Pairwise fun e e' => e.1.same e'.1 = false

theorem mem_update {b : UInt64 × List (Path × LoadState)} {buckets} (h : b ∈ update k make f buckets) :
    b ∈ buckets ∨ ∃ held, b = (k, f held) ∧ (held = [] ∨ (k, held) ∈ buckets) := by
  induction buckets with
  | nil =>
    unfold update at h
    split at h
    · exact .inr ⟨[], List.mem_singleton.1 h, .inl rfl⟩
    · cases h
  | cons first rest ih =>
    obtain ⟨k', held⟩ := first
    unfold update at h
    split at h
    · rename_i hk
      rw [eq_of_beq hk] at h ⊢
      rcases List.mem_cons.1 h with rfl | h
      · exact .inr ⟨held, rfl, .inr List.mem_cons_self⟩
      · exact .inl (List.mem_cons_of_mem _ h)
    · rcases List.mem_cons.1 h with rfl | h
      · exact .inl List.mem_cons_self
      · rcases ih h with hrest | ⟨held', rfl, hrest⟩
        · exact .inl (List.mem_cons_of_mem _ hrest)
        · exact .inr ⟨held', rfl, hrest.imp_right (List.mem_cons_of_mem _)⟩

theorem mem_put {state : LoadState} {held : List (Path × LoadState)} {e : Path × LoadState}
    (h : e ∈ put path state held) : e.1 = path ∨ ∃ e' ∈ held, e'.1 = e.1 := by
  induction held with
  | nil => exact .inl (by rw [List.mem_singleton.1 h])
  | cons first rest ih =>
    unfold put at h
    split at h
    · rcases List.mem_cons.1 h with rfl | h
      · exact .inr ⟨first, List.mem_cons_self, rfl⟩
      · exact .inr ⟨e, List.mem_cons_of_mem _ h, rfl⟩
    · rcases List.mem_cons.1 h with rfl | h
      · exact .inr ⟨_, List.mem_cons_self, rfl⟩
      · rcases ih h with hpath | ⟨e', he', heq⟩
        · exact .inl hpath
        · exact .inr ⟨e', List.mem_cons_of_mem _ he', heq⟩

theorem mem_paths {b : UInt64 × List (Path × LoadState)} {e : Path × LoadState} (hb : b ∈ s.buckets)
    (he : e ∈ b.2) : e.1 ∈ s.paths :=
  List.mem_map_of_mem (List.mem_flatMap.2 ⟨b, hb, he⟩)

/-- A change of one bucket brings in the paths that it brings into a bucket. -/
theorem mem_paths_update (new : Path → Prop)
    (hf : ∀ held, ∀ e ∈ f held, new e.1 ∨ ∃ e' ∈ held, e'.1 = e.1)
    (h : q ∈ paths ⟨update k make f s.buckets⟩) : new q ∨ q ∈ s.paths := by
  obtain ⟨e, he, rfl⟩ := List.mem_map.1 h
  obtain ⟨b, hb, he⟩ := List.mem_flatMap.1 he
  rcases mem_update hb with hold | ⟨held, rfl, hold⟩
  · exact .inr (mem_paths hold he)
  · rcases hf held e he with hnew | ⟨e', he', heq⟩
    · exact .inl hnew
    · rcases hold with rfl | hold
      · cases he'
      · exact .inr (heq ▸ mem_paths hold he')

theorem mem_paths_set {state : LoadState} (h : q ∈ (s.set path state).paths) : q = path ∨ q ∈ s.paths :=
  mem_paths_update (· = path) (fun _ _ => mem_put) h

theorem mem_paths_abandon (h : q ∈ (s.abandon path).paths) : q ∈ s.paths :=
  (mem_paths_update (fun _ => False) (fun _ e he => .inr ⟨e, (List.mem_filter.1 he).1, rfl⟩) h).resolve_left id

theorem nodup_keys_update {buckets : List (UInt64 × List (Path × LoadState))}
    (h : (buckets.map (·.1)).Nodup) : ((update k make f buckets).map (·.1)).Nodup := by
  induction buckets with
  | nil => unfold update; split <;> simp
  | cons first rest ih =>
    obtain ⟨k', held⟩ := first
    obtain ⟨hfirst, hrest⟩ := List.nodup_cons.1 h
    unfold update
    split
    · exact h
    · rename_i hk
      refine List.nodup_cons.2 ⟨fun hmem => ?_, ih hrest⟩
      obtain ⟨b, hb, hkey⟩ := List.mem_map.1 hmem
      rcases mem_update hb with hold | ⟨_, rfl, -⟩
      · exact hfirst (List.mem_map.2 ⟨b, hold, hkey⟩)
      · exact hk (beq_iff_eq.2 hkey.symm)

namespace Tidy

theorem empty : Tidy {} where
  keys := .nil
  placed _ h := nomatch h
  distinct _ h := nomatch h

/-- A change of one bucket that is tidy there. -/
theorem update (hs : s.Tidy)
    (hplaced : ∀ held, (∀ e ∈ held, key e.1 = k) → ∀ e ∈ f held, key e.1 = k)
    (hdistinct : ∀ held : List (Path × LoadState), held.Pairwise (fun e e' => e.1.same e'.1 = false) →
      (f held).Pairwise fun e e' => e.1.same e'.1 = false) :
    Tidy ⟨LoadStates.update k make f s.buckets⟩ where
  keys := nodup_keys_update hs.keys
  placed b hb := by
    rcases mem_update hb with hold | ⟨held, rfl, rfl | hold⟩
    · exact hs.placed b hold
    · exact hplaced [] nofun
    · exact hplaced held (hs.placed _ hold)
  distinct b hb := by
    rcases mem_update hb with hold | ⟨held, rfl, rfl | hold⟩
    · exact hs.distinct b hold
    · exact hdistinct [] .nil
    · exact hdistinct held (hs.distinct _ hold)

theorem pairwise_put {state : LoadState} {held : List (Path × LoadState)}
    (h : held.Pairwise fun e e' => e.1.same e'.1 = false) :
    (put path state held).Pairwise fun e e' => e.1.same e'.1 = false := by
  induction held with
  | nil => exact List.pairwise_singleton _ _
  | cons first rest ih =>
    obtain ⟨hfirst, hrest⟩ := List.pairwise_cons.1 h
    unfold put
    split
    · exact List.pairwise_cons.2 ⟨hfirst, hrest⟩
    · rename_i hne
      refine List.pairwise_cons.2 ⟨fun e he => ?_, ih hrest⟩
      rcases mem_put he with heq | ⟨e', he', heq⟩
      · rw [heq]
        exact Bool.eq_false_iff.2 hne
      · exact heq ▸ hfirst e' he'

theorem set (hs : s.Tidy) (path : Path) (state : LoadState) : (s.set path state).Tidy :=
  hs.update
    (fun held hheld e he => by
      rcases mem_put he with heq | ⟨e', he', heq⟩
      · rw [heq]
      · rw [← heq]; exact hheld e' he')
    fun _ => pairwise_put

theorem abandon (hs : s.Tidy) (path : Path) : (s.abandon path).Tidy :=
  hs.update (fun _ hheld e he => hheld e (List.mem_filter.1 he |>.1)) fun _ => List.Pairwise.filter _

/-- No path is held twice. -/
theorem pairwise_paths (hs : s.Tidy) : s.paths.Pairwise fun p q => ¬ SameEntry p q := by
  obtain ⟨buckets⟩ := s
  obtain ⟨hkeys, hplaced, hdistinct⟩ := hs
  refine List.pairwise_map.2 (List.pairwise_flatMap.2 ⟨fun b hb => ?_, ?_⟩)
  · exact (hdistinct b hb).imp fun hne hentry => by rw [hentry.2] at hne; cases hne
  · refine (List.pairwise_map.1 hkeys).imp_of_mem fun hb hb' hne e he e' he' hentry => hne ?_
    rw [← hplaced _ hb e he, ← hplaced _ hb' e' he', hentry.1]

theorem bucket_eq_of_mem (hs : s.Tidy) {b : UInt64 × List (Path × LoadState)} (hb : b ∈ s.buckets)
    (hk : key p = b.1) : s.bucket p = b.2 := by
  obtain ⟨buckets⟩ := s
  have hkeys := hs.keys
  unfold bucket
  clear hs
  induction buckets with
  | nil => cases hb
  | cons first rest ih =>
    obtain ⟨hfirst, hrest⟩ := List.nodup_cons.1 hkeys
    rw [List.lookup_cons]
    rcases List.mem_cons.1 hb with rfl | hb
    · simp [hk]
    · have hne : (key p == first.1) = false :=
        beq_eq_false_iff_ne.2 fun heq => hfirst (List.mem_map.2 ⟨b, hb, hk.symm.trans heq⟩)
      rw [hne]
      exact ih hb hrest

theorem exists_mem_of_mem_bucket {e : Path × LoadState} (h : e ∈ s.bucket p) :
    ∃ b ∈ s.buckets, b.1 = key p ∧ e ∈ b.2 := by
  unfold bucket at h
  cases hlookup : s.buckets.lookup (key p) with
  | none => rw [hlookup] at h; cases h
  | some held =>
    rw [hlookup] at h
    obtain ⟨before, behind, hsplit, -⟩ := List.lookup_eq_some_iff.1 hlookup
    exact ⟨(key p, held), by rw [hsplit]; simp, rfl, h⟩

/-- The paths that have a state are those with the entry of a path that is held. -/
theorem isSome_state?_iff (hs : s.Tidy) : (s.state? p).isSome = true ↔ ∃ q ∈ s.paths, SameEntry p q := by
  unfold state? paths
  rw [Option.isSome_map, List.find?_isSome]
  constructor
  · rintro ⟨e, he, hsame⟩
    obtain ⟨b, hb, hk, he⟩ := exists_mem_of_mem_bucket he
    exact ⟨e.1, mem_paths hb he, hk.symm.trans (hs.placed b hb e he).symm, Path.same_comm ▸ hsame⟩
  · rintro ⟨q, hq, hentry⟩
    obtain ⟨e, he, rfl⟩ := List.mem_map.1 hq
    obtain ⟨b, hb, he⟩ := List.mem_flatMap.1 he
    refine ⟨e, ?_, Path.same_comm ▸ hentry.2⟩
    rwa [bucket_eq_of_mem hs hb (hentry.1.trans (hs.placed b hb e he))]

end Tidy

/-- Loading is granted exactly for the paths without a state. -/
theorem grants_iff {position : Position} :
    (s.begin p position).toOption.map (·.1) = some none ↔ s.state? p = none := by
  rw [LoadStates.begin]
  rcases s.state? p with _ | _ | _ <;> simp [Except.toOption]

theorem size_eq_length_paths (s : LoadStates) : s.size = s.paths.length := (List.length_map _).symm

end LoadStates

/-! ## Steps -/

/-- A step of loading. -/
inductive LoadStep where
  | begin (path : Path) (position : Position)
  | finish (path : Path) (module : ModuleId)
  | abandon (path : Path)

namespace LoadStep

variable {s : LoadStates} {p q : Path} {step : LoadStep} {steps : List LoadStep}

def path : LoadStep → Path
  | begin path _ | finish path _ | abandon path => path

/-- What a step leaves for its path. A path that has a state already keeps it when it is claimed. -/
def leaves (old : Option LoadState) : LoadStep → Option LoadState
  | begin _ _ => some (old.getD .loading)
  | finish _ m => some (.done m)
  | abandon _ => none

/-- The states behind a step; a claim that is refused changes nothing. -/
def next (s : LoadStates) : LoadStep → LoadStates
  | begin path position => ((s.begin path position).toOption.map (·.2)).getD s
  | finish path m => s.finish path m
  | abandon path => s.abandon path

/-- The states behind some steps, from the start. -/
def runAll (steps : List LoadStep) : LoadStates := steps.foldl next {}

/-- What the last steps on a path left, where paths with the same components are one path. -/
def last (p : Path) (steps : List LoadStep) : Option LoadState :=
  steps.foldl (fun old step => if p.same step.path then step.leaves old else old) none

theorem last_congr (h : p.same q = true) : last p steps = last q steps := by
  unfold last
  have hsame : ∀ step : LoadStep, p.same step.path = q.same step.path := fun step => by
    rw [Path.same, Path.same, same_iff.1 h]
  simp only [hsame]

theorem next_begin (path : Path) (position : Position) :
    (begin path position).next s = if s.state? path = none then s.set path .loading else s := by
  rw [next, LoadStates.begin]
  rcases s.state? path with _ | _ | _ <;> rfl

/-- A step concerns the paths with the entry of its own path, and no other. -/
theorem state?_next : (step.next s).state? p =
    if SameEntry p step.path then step.leaves (s.state? p) else s.state? p := by
  cases step with
  | begin path position =>
    rw [next_begin]
    by_cases hentry : SameEntry p path
    · rw [LoadStep.path, if_pos hentry, leaves]
      cases hstate : s.state? path with
      | none =>
        rw [if_pos rfl, LoadStates.state?_set_eq, if_pos hentry, LoadStates.state?_congr hentry, hstate]
        rfl
      | some state =>
        rw [if_neg nofun, LoadStates.state?_congr hentry, hstate]
        rfl
    · rw [LoadStep.path, if_neg hentry]
      split
      · rw [LoadStates.state?_set_eq, if_neg hentry]
      · rfl
  | finish path m => exact LoadStates.state?_set_eq
  | abandon path => exact LoadStates.state?_abandon_eq

theorem mem_paths_next (h : q ∈ (step.next s).paths) : q = step.path ∨ q ∈ s.paths := by
  cases step with
  | begin path position =>
    rw [next_begin] at h
    split at h
    · exact LoadStates.mem_paths_set h
    · exact .inr h
  | finish path m => exact LoadStates.mem_paths_set h
  | abandon path => exact .inr (LoadStates.mem_paths_abandon h)

theorem tidy_next (hs : s.Tidy) : (step.next s).Tidy := by
  cases step with
  | begin path position =>
    rw [next_begin]
    split
    · exact hs.set path .loading
    · exact hs
  | finish path m => exact hs.set path (.done m)
  | abandon path => exact hs.abandon path

/-- Only the paths of the steps have a state. -/
theorem exists_mem_of_mem_paths (h : q ∈ (runAll steps).paths) : ∃ step ∈ steps, q = step.path := by
  induction steps using List.reverseRecOn with
  | nil => cases h
  | append_singleton steps step ih =>
    rw [runAll, List.foldl_append] at h
    have hstep : q = step.path ∨ q ∈ (runAll steps).paths := mem_paths_next h
    rcases hstep with heq | hold
    · exact ⟨step, List.mem_concat_self, heq⟩
    · obtain ⟨other, hother, heq⟩ := ih hold
      exact ⟨other, List.mem_append_left _ hother, heq⟩

theorem tidy_runAll (steps : List LoadStep) : (runAll steps).Tidy := by
  induction steps using List.reverseRecOn with
  | nil => exact .empty
  | append_singleton steps step ih =>
    rw [runAll, List.foldl_append]
    exact tidy_next ih

/-- Among paths whose digests agree with their components, a path has the state that was left last. -/
theorem state?_runAll {these : Path → Prop} (hthese : Path.Agree these)
    (hsteps : ∀ step ∈ steps, these step.path) (hp : these p) : (runAll steps).state? p = last p steps := by
  induction steps using List.reverseRecOn with
  | nil => rfl
  | append_singleton steps step ih =>
    have hstep := hsteps step List.mem_concat_self
    specialize ih fun other hother => hsteps other (List.mem_append_left _ hother)
    rw [runAll, last, List.foldl_append, List.foldl_append]
    calc (step.next (runAll steps)).state? p
      _ = if SameEntry p step.path then step.leaves ((runAll steps).state? p)
          else (runAll steps).state? p := state?_next
      _ = if p.same step.path then step.leaves (last p steps) else last p steps := by
          simp only [hthese.sameEntry_iff hp hstep, ih]

end LoadStep

open LoadStep

/-- **Memo of paths.** Among paths whose digests agree with their components, whatever is done in whatever
order: paths with the same components have one state, the one that was left last on either of them; loading
is granted for a path exactly when it has none; and each path with a state is counted once. -/
theorem path_has_last_state (these : Path → Prop) (hthese : Path.Agree these) (steps : List LoadStep)
    (hsteps : ∀ step ∈ steps, these step.path) :
    let s := runAll steps
    (∀ p q, these p → these q → p.same q = true → s.state? p = last q steps) ∧
      (∀ p position, these p →
        ((s.begin p position).toOption.map (·.1) = some none ↔ last p steps = none)) ∧
      ∃ ps : List Path, s.size = ps.length ∧ ps.Pairwise (fun p q => p.same q = false) ∧
        ∀ p, these p → ((last p steps).isSome = true ↔ ∃ q ∈ ps, p.same q = true) := by
  have htidy := tidy_runAll steps
  have hstate := fun p => state?_runAll (p := p) hthese hsteps
  have hpaths : ∀ q ∈ (runAll steps).paths, these q := fun q hq => by
    obtain ⟨step, hstep, rfl⟩ := exists_mem_of_mem_paths hq
    exact hsteps step hstep
  refine ⟨fun p q hp _ hsame => ?_, fun p position hp => ?_, (runAll steps).paths,
    LoadStates.size_eq_length_paths _, ?_, fun p hp => ?_⟩
  · rw [hstate p hp, last_congr hsame]
  · rw [LoadStates.grants_iff, hstate p hp]
  · refine htidy.pairwise_paths.imp_of_mem fun hp hq hne => ?_
    rwa [hthese.sameEntry_iff (hpaths _ hp) (hpaths _ hq), Bool.not_eq_true] at hne
  · rw [← hstate p hp, htidy.isSome_state?_iff]
    exact exists_congr fun q => and_congr_right fun hq => hthese.sameEntry_iff hp (hpaths q hq)

/-- Two folded paths, of which one is claimed and the other given up. -/
theorem path_has_last_state_folded :
    let steps : List LoadStep := [.begin ⟨"a/b"⟩ default, .begin ⟨"c"⟩ default, .abandon ⟨"a/b"⟩]
    Path.Agree Path.IsNormalized ∧ (∀ step ∈ steps, step.path.IsNormalized) ∧
      (runAll steps).state? ⟨"c"⟩ = some .loading :=
  ⟨Path.agree_normalized, by decide +kernel,
    ((path_has_last_state _ Path.agree_normalized _ (by decide +kernel)).1 ⟨"c"⟩ ⟨"c"⟩ (by decide +kernel)
      (by decide +kernel) (by decide +kernel)).trans (by decide +kernel)⟩

/-- Where a path is spelled in two ways, one spelling is being loaded, the other is not known, and the path
is claimed again and counted twice. -/
theorem spelling_splits_path :
    let s := runAll [.begin ⟨"a/b"⟩ default]
    (⟨"a//b"⟩ : Path).same ⟨"a/b"⟩ = true ∧ s.state? ⟨"a/b"⟩ = some .loading ∧ s.state? ⟨"a//b"⟩ = none ∧
      (s.begin ⟨"a//b"⟩ default).toOption.map (·.1) = some none ∧
      (runAll [.begin ⟨"a/b"⟩ default, .begin ⟨"a//b"⟩ default]).size = 2 := by
  decide +kernel

end SemanticAnalysis
