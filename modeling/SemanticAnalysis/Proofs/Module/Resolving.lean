import Mathlib.Data.List.Induction
import SemanticAnalysis.Proofs.Module.Loading
import SemanticAnalysis.Proofs.Module.Location

/-!
# Resolving requests

A library keeps its modules under normalised paths. A request is normalised and then given an extension,
and what it means is normalised once more when it is parsed. All these are spellings of folded locations,
and such a spelling stays as it is when it is normalised (`Location.IsFolded.normalize_spelled`). So each
path that is resolved is a key of the library, and parsing it gives the module that was added there last.
-/

namespace SemanticAnalysis

/-! ## Spellings of folded locations -/

/-- At most one level up, and names below it. -/
structure Location.IsFolded (l : Location) : Prop where
  ups_lt : l.ups < 2
  isPlain : l.IsPlain

/-- Normalising leaves the spelling of a folded location alone. -/
theorem Location.IsFolded.normalize_spelled {l : Location} (h : l.IsFolded) :
    l.spelled.normalize = l.spelled := by
  rw [Path.normalize_eq, location_spelled h.isPlain, folded_eq_iff.2 h.ups_lt]

theorem Location.IsPlain.isFolded_folded {l : Location} (h : l.IsPlain) : l.folded.IsFolded :=
  ⟨Nat.mod_lt _ Nat.zero_lt_two, h.folded⟩

theorem Path.normalize_normalize (p : Path) : p.normalize.normalize = p.normalize := by
  rw [p.normalize_eq]
  exact p.isPlain_location.isFolded_folded.normalize_spelled

namespace Library

variable {l : Library} {request : String} {origin p path : Path} {m : ParsedModule}

theorem normalize_target : (target request origin).normalize = target request origin := by
  rw [target_eq]
  refine Location.IsFolded.normalize_spelled ⟨?_, isPlain_requested.folded.withDefaultExtension⟩
  rw [Location.ups_withDefaultExtension]
  exact isPlain_requested.isFolded_folded.ups_lt

/-! ## What a library keeps -/

/-- A library with modules added one after another. -/
def addAll (adds : List (Path × ParsedModule)) : Library := adds.foldl (fun l a => l.add a.1 a.2) {}

/-- The module that was added last at a path. -/
def lastAdded? (p : Path) (adds : List (Path × ParsedModule)) : Option ParsedModule :=
  ((adds.filter (·.1.normalize.same p)).getLast?).map (·.2)

theorem lookup?_add : (l.add path m).lookup? p = if p.same path.normalize then some m else l.lookup? p :=
  LoadStates.find?_of_replacing (put path.normalize m) rfl (fun _ _ _ => rfl) p l.entries

theorem lastAdded?_concat (adds : List (Path × ParsedModule)) :
    lastAdded? p (adds ++ [(path, m)]) = if p.same path.normalize then some m else lastAdded? p adds := by
  have hcomm : path.normalize.same p = p.same path.normalize := Bool.beq_comm
  unfold lastAdded?
  rw [List.filter_append]
  by_cases h : p.same path.normalize <;> simp [hcomm, h]

/-- **A library has at each path what was added there last.** -/
theorem lookup?_addAll (adds : List (Path × ParsedModule)) (p : Path) :
    (addAll adds).lookup? p = lastAdded? p adds := by
  induction adds using List.reverseRecOn with
  | nil => rfl
  | append_singleton adds a ih =>
    have hadd : addAll (adds ++ [a]) = (addAll adds).add a.1 a.2 := List.foldl_concat ..
    rw [hadd, lookup?_add, lastAdded?_concat, ih]

theorem isSome_lastAdded?_iff {adds : List (Path × ParsedModule)} :
    (lastAdded? p adds).isSome = true ↔ ∃ a ∈ adds, a.1.normalize.same p = true := by
  simp [lastAdded?]

/-! ## What a request means -/

theorem resolve_eq_ok_iff :
    l.resolve request origin = .ok p ↔
      request ≠ "" ∧ p = target request origin ∧ (l.lookup? p).isSome = true := by
  unfold resolve
  by_cases hempty : request = ""
  · simp [hempty]
  · rw [if_neg (mt String.isEmpty_iff.1 hempty)]
    constructor
    · intro h
      dsimp only at h
      split at h
      · rename_i hhas
        obtain rfl := Except.ok.inj h
        exact ⟨hempty, rfl, hhas⟩
      · cases h
    · rintro ⟨-, rfl, hhas⟩
      exact if_pos hhas

theorem parse_eq_ok_iff : l.parse p = .ok m ↔ l.lookup? p.normalize = some m := by
  unfold parse
  cases l.lookup? p.normalize <;> simp

end Library

/-- **Resolving and parsing agree.** A request resolves exactly to its target, if something was added there.
What it resolves to is normalised already, and parses to the module that was added there last. -/
theorem resolved_paths_parse (adds : List (Path × ParsedModule)) (request : String) (origin p : Path) :
    (∀ q : Path, q.normalize.normalize = q.normalize) ∧
    ((Library.addAll adds).resolve request origin = .ok p ↔
      request ≠ "" ∧ p = Library.target request origin ∧ ∃ a ∈ adds, a.1.normalize.same p = true) ∧
    ((Library.addAll adds).resolve request origin = .ok p →
      p.normalize = p ∧ (Library.addAll adds).contains p = true ∧
        ∃ m, Library.lastAdded? p adds = some m ∧ (Library.addAll adds).parse p = .ok m) := by
  have hok : (Library.addAll adds).resolve request origin = .ok p ↔
      request ≠ "" ∧ p = Library.target request origin ∧ ∃ a ∈ adds, a.1.normalize.same p = true := by
    rw [Library.resolve_eq_ok_iff, Library.lookup?_addAll, Library.isSome_lastAdded?_iff]
  refine ⟨Path.normalize_normalize, hok, fun hresolve => ?_⟩
  obtain ⟨-, htarget, hadded⟩ := hok.1 hresolve
  obtain ⟨m, hm⟩ := Option.isSome_iff_exists.1 (Library.isSome_lastAdded?_iff.2 hadded)
  have hnormal : p.normalize = p := htarget ▸ Library.normalize_target
  have hlookup : (Library.addAll adds).lookup? p.normalize = some m := by
    rw [hnormal, Library.lookup?_addAll, hm]
  refine ⟨hnormal, ?_, m, hm, Library.parse_eq_ok_iff.2 hlookup⟩
  rw [Library.contains, hlookup]
  rfl

/-- A module is added a second time under another spelling, and asked for from a directory below. -/
theorem resolved_paths_parse_readded :
    let adds : List (Path × ParsedModule) :=
      [(⟨"lib/math.tsr"⟩, ⟨default, "draft", ""⟩), (⟨"lib/./math.tsr"⟩, ⟨default, "math", "app"⟩)]
    let p : Path := ⟨"lib/math.tsr"⟩
    (Library.addAll adds).resolve "../math" ⟨"lib/sub/x.tsr"⟩ = .ok p ∧ p.normalize = p ∧
      (Library.addAll adds).contains p = true ∧
      ∃ m, Library.lastAdded? p adds = some m ∧ (Library.addAll adds).parse p = .ok m ∧ m.name = "math" := by
  intro adds p
  obtain ⟨-, hiff, hspec⟩ := resolved_paths_parse adds "../math" ⟨"lib/sub/x.tsr"⟩ p
  have hok := hiff.2 ⟨by decide, by decide +kernel, _, List.mem_cons_self, by decide +kernel⟩
  obtain ⟨hnormal, hcontains, m, hlast, hparse⟩ := hspec hok
  have hname : (Library.lastAdded? p adds).map (·.name) = some "math" := by decide +kernel
  rw [hlast] at hname
  exact ⟨hok, hnormal, hcontains, m, hlast, hparse, Option.some.inj hname⟩

end SemanticAnalysis
