import Mathlib.Data.List.Basic
import SemanticAnalysis.Module.Library

/-!
# Where paths lead

Read from left to right, and without a look at any file, a path leads some levels up and from there down
along names (`Location`): a double dot takes back the name before it, and goes one level further up where
there is none. Folding the components of a path follows its location but for one thing: a double dot takes
back a double dot before it, too (`Location.foldl_fold`). So a path that is normalised leads where it led as
long as this is at most one level up, and of more levels up the pairs are lost (`Path.location_normalize`,
`Library.location_target`).
-/

namespace SemanticAnalysis

/-- Where a path leads: from the root or from where one stands, some levels up and then down along names. -/
structure Location where
  rooted : Bool := false
  ups : Nat := 0
  names : List String := []
deriving DecidableEq, Repr

namespace Location

/-- Back from the last name, and one level further up where there is none. -/
def up (l : Location) : Location :=
  if l.names = [] then { l with ups := l.ups + 1 } else { l with names := l.names.dropLast }

def down (l : Location) (s : String) : Location := { l with names := l.names ++ [s] }

/-- The location that one more segment of a path leads to. -/
def enter (l : Location) (segment : String) : Location :=
  if segment = "" ∨ segment = "." then l
  else if segment = ".." then l.up
  else l.down segment

/-- The location that one more component leads to. -/
def pass (l : Location) : Component → Location
  | .root => { rooted := true }
  | .here => l
  | .up => l.up
  | .name s => l.down s

/-- The location that components lead to. -/
def along (cs : List Component) : Location := cs.foldl pass {}

/-- What is left of a location when every second level up takes the one before it back. -/
def folded (l : Location) : Location := { l with ups := l.ups % 2 }

/-- The last name gets the extension `ext` when it has none. -/
def withDefaultExtension (l : Location) (ext : String) : Location :=
  match l.names.getLast? with
  | some s => if Path.hasExtension s then l else { l with names := l.names.dropLast ++ [s ++ "." ++ ext] }
  | none => l

/-- The levels up and the names of a location, as they are written. -/
def segments (l : Location) : List String := List.replicate l.ups ".." ++ l.names

/-- The shortest way to a location. -/
def components (l : Location) : List Component :=
  (bif l.rooted then [.root] else []) ++ (List.replicate l.ups .up ++ l.names.map .name)

def spelled (l : Location) : Path := .ofComponents l.components

end Location

namespace Path

/-- The spelling starts with a slash. -/
def IsAbsolute (p : Path) : Prop := p.spelling.toList.head? = some '/'

instance (p : Path) : Decidable p.IsAbsolute := inferInstanceAs (Decidable (_ = _))

/-- Where a path leads from a location: segment by segment, and from the root when it is absolute. -/
def locationFrom (l : Location) (p : Path) : Location :=
  p.parts.foldl Location.enter (if p.IsAbsolute then { rooted := true } else l)

/-- Where a path leads. -/
def location (p : Path) : Location := p.locationFrom {}

end Path

/-- A segment that names a file or a directory. -/
structure IsName (s : String) : Prop where
  ne_empty : s ≠ ""
  ne_dot : s ≠ "."
  ne_dots : s ≠ ".."
  no_slash : '/' ∉ s.toList

/-! ## Segments and components -/

namespace Path

variable {p : Path} {s : String}

theorem innerComponent_of_isName (h : IsName s) : innerComponent s = some (.name s) := by
  simp [innerComponent, h.ne_empty, h.ne_dot, h.ne_dots]

theorem eq_of_innerComponent {part : String} (h : innerComponent part = some (.name s)) :
    part = s ∧ s ≠ "" ∧ s ≠ "." ∧ s ≠ ".." := by
  unfold innerComponent at h
  split at h
  · cases h
  · rename_i hnone
    split at h
    · cases h
    · rename_i hup
      obtain rfl : part = s := by simpa using h
      simp only [beq_iff_eq, Bool.or_eq_true, not_or] at hnone hup
      exact ⟨rfl, hnone.1, hnone.2, hup⟩

theorem parts_ne_nil : p.parts ≠ [] := by simp [parts]

@[simp] theorem parts_empty : (⟨""⟩ : Path).parts = [""] := by simp [parts]

theorem parts_slash (t : String) : (⟨"/" ++ t⟩ : Path).parts = "" :: (⟨t⟩ : Path).parts := by
  simp [parts, List.splitOn_cons_eq_if_modifyHead]

theorem isAbsolute_iff : p.IsAbsolute ↔ ∃ t : String, p = ⟨"/" ++ t⟩ := by
  constructor
  · intro h
    obtain ⟨cs, hcs⟩ := List.head?_eq_some_iff.1 h
    exact ⟨String.ofList cs, congrArg Path.mk (String.toList_inj.1 (by simp [hcs]))⟩
  · rintro ⟨t, rfl⟩
    simp [IsAbsolute]

theorem not_mem_of_mem_splitOn (x : Char) (cs : List Char) : ∀ part ∈ cs.splitOn x, x ∉ part := by
  induction cs with
  | nil => simp
  | cons c cs ih =>
    rw [List.splitOn_cons_eq_if_modifyHead]
    obtain ⟨first, rest, hsplit⟩ := List.exists_cons_of_ne_nil (List.splitOn_ne_nil x cs)
    rw [hsplit] at ih ⊢
    rw [List.modifyHead_cons]
    intro part hpart
    split at hpart
    · obtain rfl | hrest := List.mem_cons.1 hpart
      · exact List.not_mem_nil
      · exact ih part hrest
    · rename_i hc
      obtain rfl | hrest := List.mem_cons.1 hpart
      · have hx : x ≠ c := fun heq => hc (beq_iff_eq.2 heq.symm)
        simpa [hx] using ih first List.mem_cons_self
      · exact ih part (.tail _ hrest)

theorem no_slash_of_mem_parts (h : s ∈ p.parts) : '/' ∉ s.toList := by
  obtain ⟨part, hpart, rfl⟩ := List.mem_map.1 h
  rw [String.toList_ofList]
  exact not_mem_of_mem_splitOn '/' _ part hpart

/-- Segments without slashes are the parts of the path that they are written as. -/
theorem parts_intercalate {ss : List String} (hne : ss ≠ []) (hss : ∀ s ∈ ss, '/' ∉ s.toList) :
    (⟨"/".intercalate ss⟩ : Path).parts = ss := by
  have hchars : ∀ cs ∈ ss.map String.toList, '/' ∉ cs := by simpa using hss
  rw [parts, String.toList_intercalate]
  change ((['/'].intercalate (ss.map String.toList)).splitOn '/').map String.ofList = ss
  rw [List.splitOn_intercalate '/' hchars (by simpa using hne)]
  simp

theorem components_of_isAbsolute (h : p.IsAbsolute) :
    p.components = .root :: p.parts.filterMap innerComponent := by
  obtain ⟨t, rfl⟩ := isAbsolute_iff.1 h
  simp [components, parts_slash, parts_ne_nil, innerComponent]

theorem parts_of_not_isAbsolute (h : ¬p.IsAbsolute) :
    p = ⟨""⟩ ∨ ∃ first rest, p.parts = first :: rest ∧ first ≠ "" := by
  unfold IsAbsolute at h
  cases hp : p.spelling.toList with
  | nil => exact .inl (congrArg Path.mk (String.toList_eq_nil_iff.1 hp))
  | cons c cs =>
    obtain ⟨first, rest, hsplit⟩ := List.exists_cons_of_ne_nil (List.splitOn_ne_nil '/' cs)
    refine .inr ⟨String.ofList (c :: first), rest.map String.ofList, ?_, by simp⟩
    have hc : c ≠ '/' := by simpa [hp] using h
    simp [parts, hp, List.splitOn_cons_eq_if_modifyHead, hc, hsplit]

theorem components_of_not_isAbsolute (h : ¬p.IsAbsolute) :
    p.components = (if p.parts.head? = some "." then [.here] else []) ++ p.parts.filterMap innerComponent := by
  obtain rfl | ⟨first, rest, hparts, hfirst⟩ := parts_of_not_isAbsolute h
  · simp [components, innerComponent]
  · unfold components
    rw [hparts]
    by_cases hdot : first = "."
    · simp [hdot, innerComponent]
    · cases hinner : innerComponent first <;> simp [hfirst, hdot, hinner]

/-- The names among the components of a path. -/
theorem isName_of_mem_components (h : .name s ∈ p.components) : IsName s := by
  have hmem : .name s ∈ p.parts.filterMap innerComponent := by
    by_cases habs : p.IsAbsolute
    · simpa [components_of_isAbsolute habs] using h
    · rw [components_of_not_isAbsolute habs] at h
      refine (List.mem_append.1 h).resolve_left fun hhere => ?_
      split at hhere <;> simp at hhere
  obtain ⟨part, hpart, hinner⟩ := List.mem_filterMap.1 hmem
  obtain ⟨rfl, hempty, hdot, hdots⟩ := eq_of_innerComponent hinner
  exact ⟨hempty, hdot, hdots, no_slash_of_mem_parts hpart⟩

end Path

/-! ## Locations along components -/

namespace Location

variable {l : Location} {s : String} {cs : List Component}

@[simp] theorem pass_root : l.pass .root = { rooted := true } := rfl
@[simp] theorem pass_here : l.pass .here = l := rfl
@[simp] theorem pass_name : l.pass (.name s) = { l with names := l.names ++ [s] } := rfl
@[simp] theorem pass_up_nil {rooted : Bool} {ups : Nat} :
    pass ⟨rooted, ups, []⟩ .up = ⟨rooted, ups + 1, []⟩ := rfl
@[simp] theorem pass_up_concat {rooted : Bool} {ups : Nat} {names : List String} :
    pass ⟨rooted, ups, names ++ [s]⟩ .up = ⟨rooted, ups, names⟩ := by
  simp [pass, up]

theorem foldl_pass_filterMap (segments : List String) (l : Location) :
    (segments.filterMap Path.innerComponent).foldl pass l = segments.foldl enter l := by
  rw [List.foldl_filterMap]
  congr 1
  funext l segment
  unfold Path.innerComponent enter
  by_cases hnone : segment = "" ∨ segment = "."
  · simp [hnone]
  · by_cases hup : segment = ".." <;> simp [hnone, hup, pass]

theorem locationFrom_eq (p : Path) : p.locationFrom l = p.components.foldl pass l := by
  unfold Path.locationFrom
  by_cases h : p.IsAbsolute
  · rw [if_pos h, Path.components_of_isAbsolute h, List.foldl_cons, foldl_pass_filterMap, pass_root]
  · rw [if_neg h, Path.components_of_not_isAbsolute h, List.foldl_append, foldl_pass_filterMap]
    split <;> rfl

/-- A request leads where its components lead behind those of the directory that it is made in. -/
theorem along_from_ (request : Path) : along (Path.from_ cs request) = request.locationFrom (along cs) := by
  rw [locationFrom_eq, along]
  unfold Path.from_
  split
  · rename_i h
    rw [h]
    rfl
  · rw [List.foldl_append]
    rfl

theorem mem_names_foldl_pass (h : s ∈ (cs.foldl pass l).names) : s ∈ l.names ∨ .name s ∈ cs := by
  induction cs generalizing l with
  | nil => exact .inl h
  | cons c cs ih =>
    obtain hmem | hmem := ih h
    · cases c with
      | root => cases hmem
      | here => exact .inl hmem
      | up =>
        have hsubset : (l.pass .up).names ⊆ l.names := by
          show l.up.names ⊆ l.names
          unfold up
          split
          · exact List.Subset.refl _
          · exact List.dropLast_subset _
        exact .inl (hsubset hmem)
      | name last =>
        obtain hmem | hlast := List.mem_append.1 hmem
        · exact .inl hmem
        · exact .inr (List.mem_singleton.1 hlast ▸ List.mem_cons_self)
    · exact .inr (.tail _ hmem)

/-! ## Folding -/

/-- Folding in one component follows the location, up to pairs of levels up. -/
theorem fold_components (c : Component) :
    Path.fold l.folded.components c = (l.pass c).folded.components := by
  obtain ⟨rooted, ups, names⟩ := l
  cases c with
  | root => rfl
  | here => rfl
  | name s => simp only [Path.fold, folded, components, pass_name, List.map_append, List.map_singleton,
      List.append_assoc]
  | up =>
    obtain rfl | ⟨names, last, rfl⟩ := names.eq_nil_or_concat
    -- Without names, a double dot that stands last is taken back like a name.
    · obtain h | h := Nat.mod_two_eq_zero_or_one ups <;> cases rooted <;>
        simp [folded, components, Nat.add_mod, h] <;> rfl
    · rw [List.concat_eq_append, pass_up_concat, Path.fold]
      simp only [folded, components, List.map_append, List.map_singleton, ← List.append_assoc]
      simp [Path.parentComponents, Component.isRoot]

theorem foldl_fold (cs : List Component) (l : Location) :
    cs.foldl Path.fold l.folded.components = (cs.foldl pass l).folded.components := by
  induction cs generalizing l with
  | nil => rfl
  | cons c cs ih => rw [List.foldl_cons, List.foldl_cons, fold_components, ih]

/-! ## Spelling -/

/-- The names of a location are names. -/
def IsPlain (l : Location) : Prop := ∀ s ∈ l.names, IsName s

theorem isPlain_along (h : ∀ s, .name s ∈ cs → IsName s) : (along cs).IsPlain := fun s hs =>
  (mem_names_foldl_pass hs).elim nofun (h s)

theorem foldl_pass_up (rooted : Bool) (n ups : Nat) :
    (List.replicate n Component.up).foldl pass ⟨rooted, ups, []⟩ = ⟨rooted, ups + n, []⟩ := by
  induction n generalizing ups with
  | zero => rfl
  | succ n ih => rw [List.replicate_succ, List.foldl_cons, pass_up_nil, ih, Nat.add_right_comm, Nat.add_assoc]

theorem foldl_pass_name (names : List String) (l : Location) :
    (names.map Component.name).foldl pass l = { l with names := l.names ++ names } := by
  induction names generalizing l with
  | nil => simp
  | cons s names ih => simp [ih]

/-- The shortest way to a location leads there. -/
theorem along_components (l : Location) : along l.components = l := by
  obtain ⟨rooted, ups, names⟩ := l
  cases rooted <;> simp [along, components, List.foldl_append, foldl_pass_up, foldl_pass_name]

theorem spelled_eq (l : Location) :
    l.spelled = ⟨(bif l.rooted then "/" else "") ++ "/".intercalate l.segments⟩ := by
  obtain ⟨rooted, ups, names⟩ := l
  cases rooted <;> cases ups <;> cases names <;>
    simp [spelled, components, segments, Path.ofComponents, Component.text, List.replicate_succ,
      Function.comp_def]

theorem isName_of_mem_segments (h : l.IsPlain) (hs : s ∈ l.segments) : s = ".." ∨ IsName s :=
  (List.mem_append.1 hs).imp List.eq_of_mem_replicate (h s)

theorem filterMap_segments (h : l.IsPlain) :
    l.segments.filterMap Path.innerComponent = List.replicate l.ups .up ++ l.names.map .name := by
  have hnames : l.names.filterMap Path.innerComponent = l.names.map .name :=
    List.filterMap_eq_map_iff_forall_eq_some.2 fun s hs => Path.innerComponent_of_isName (h s hs)
  have hups : Path.innerComponent ".." = some .up := by decide
  rw [segments, List.filterMap_append, hnames, List.filterMap_replicate_of_some hups]

theorem parts_segments (h : l.IsPlain) :
    (⟨"/".intercalate l.segments⟩ : Path).parts = if l.segments = [] then [""] else l.segments := by
  split
  · rename_i hnil
    rw [hnil, String.intercalate_nil, Path.parts_empty]
  · rename_i hne
    refine Path.parts_intercalate hne fun s hs => ?_
    obtain rfl | hname := isName_of_mem_segments h hs
    · decide
    · exact hname.no_slash

theorem not_isAbsolute_segments (h : l.IsPlain) : ¬(⟨"/".intercalate l.segments⟩ : Path).IsAbsolute := by
  intro habs
  obtain ⟨t, ht⟩ := Path.isAbsolute_iff.1 habs
  have hparts := parts_segments h
  rw [ht, Path.parts_slash] at hparts
  split at hparts
  · exact Path.parts_ne_nil (List.cons.inj hparts).2
  · have hempty : "" ∈ l.segments := hparts ▸ List.mem_cons_self
    obtain hdots | hname := isName_of_mem_segments h hempty
    · exact absurd hdots (by decide)
    · exact hname.ne_empty rfl

/-- **A location is read back from its spelling.** -/
theorem components_spelled (h : l.IsPlain) : l.spelled.components = l.components := by
  have hinner : (⟨"/".intercalate l.segments⟩ : Path).parts.filterMap Path.innerComponent =
      List.replicate l.ups .up ++ l.names.map .name := by
    rw [← filterMap_segments h, parts_segments h]
    split <;> simp_all [Path.innerComponent]
  rw [spelled_eq, components, ← hinner]
  cases l.rooted with
  | true =>
    rw [cond_true, cond_true, Path.components_of_isAbsolute (Path.isAbsolute_iff.2 ⟨_, rfl⟩), Path.parts_slash]
    rfl
  | false =>
    have hhead : (⟨"/".intercalate l.segments⟩ : Path).parts.head? ≠ some "." := by
      rw [parts_segments h]
      split
      · decide
      · intro hhead
        obtain hdots | hname := isName_of_mem_segments h (List.mem_of_head? hhead)
        · exact absurd hdots (by decide)
        · exact hname.ne_dot rfl
    rw [cond_false, cond_false, String.empty_append, Path.components_of_not_isAbsolute (not_isAbsolute_segments h),
      if_neg hhead]

theorem location_spelled (h : l.IsPlain) : l.spelled.location = l := by
  rw [Path.location, locationFrom_eq, components_spelled h]
  exact along_components l

end Location

/-! ## Normalising -/

theorem Location.folded_eq_iff {l : Location} : l.folded = l ↔ l.ups < 2 := by
  obtain ⟨rooted, ups, names⟩ := l
  simp [Location.folded]

theorem Location.IsPlain.folded {l : Location} (h : l.IsPlain) : l.folded.IsPlain := h

namespace Path

variable {p : Path}

theorem location_eq (p : Path) : p.location = .along p.components := Location.locationFrom_eq p

theorem isPlain_location (p : Path) : p.location.IsPlain := by
  rw [location_eq]
  exact Location.isPlain_along fun _ => isName_of_mem_components

/-- **Normalising spells the folded location.** -/
theorem normalize_eq (p : Path) : p.normalize = p.location.folded.spelled := by
  rw [location_eq, Location.along, Location.spelled, ← Location.foldl_fold]
  rfl

theorem location_normalize (p : Path) : p.normalize.location = p.location.folded := by
  rw [normalize_eq, Location.location_spelled p.isPlain_location.folded]

end Path

/-! ## The default extension -/

theorem IsName.withSourceExtension {s : String} (h : IsName s) : IsName (s ++ "." ++ Library.sourceExtension) := by
  have hlength : (s ++ "." ++ Library.sourceExtension).length = s.length + 1 + 3 := by
    rw [String.length_append, String.length_append]
    rfl
  have hne : ∀ t : String, t.length < 4 → s ++ "." ++ Library.sourceExtension ≠ t := by
    rintro t ht rfl
    omega
  have hslash := h.no_slash
  exact ⟨hne _ (by decide), hne _ (by decide), hne _ (by decide), by simp_all [Library.sourceExtension]⟩

namespace Location

variable {l : Location} {ext : String}

theorem fileName?_components (l : Location) : Path.fileName? l.components = l.names.getLast? := by
  obtain ⟨rooted, ups, names⟩ := l
  obtain rfl | ⟨names, last, rfl⟩ := names.eq_nil_or_concat
  · have hlast : ∀ s, (components ⟨rooted, ups, []⟩).getLast? ≠ some (.name s) := by
      intro s hs
      have hmem := List.mem_of_getLast? hs
      cases rooted <;> simp [components] at hmem
    unfold Path.fileName?
    split
    · exact absurd ‹_› (hlast _)
    · rfl
  · simp [Path.fileName?, components, ← List.append_assoc]

theorem withDefaultExtension_components (l : Location) (ext : String) :
    Path.withDefaultExtension l.components ext = (l.withDefaultExtension ext).components := by
  unfold Path.withDefaultExtension withDefaultExtension
  rw [fileName?_components]
  obtain ⟨rooted, ups, names⟩ := l
  obtain rfl | ⟨names, last, rfl⟩ := names.eq_nil_or_concat
  · rfl
  · simp only [List.concat_eq_append, List.getLast?_concat]
    split
    · rfl
    · simp [components, ← List.append_assoc]

theorem ups_withDefaultExtension : (l.withDefaultExtension ext).ups = l.ups := by
  unfold withDefaultExtension
  split
  · split <;> rfl
  · rfl

theorem withDefaultExtension_folded :
    l.folded.withDefaultExtension ext = (l.withDefaultExtension ext).folded := by
  unfold withDefaultExtension folded
  cases l.names.getLast? with
  | none => rfl
  | some s => by_cases h : Path.hasExtension s <;> simp [h]

theorem IsPlain.withDefaultExtension (h : l.IsPlain) :
    (l.withDefaultExtension Library.sourceExtension).IsPlain := by
  unfold Location.withDefaultExtension
  split
  · rename_i s hs
    split
    · exact h
    · intro t ht
      obtain hmem | hmem := List.mem_append.1 ht
      · exact h t (List.dropLast_subset _ hmem)
      · exact List.mem_singleton.1 hmem ▸ (h s (List.mem_of_getLast? hs)).withSourceExtension
  · exact h

end Location

/-! ## Requests -/

namespace Library

variable {request : String} {origin : Path}

/-- Where a request leads that is made in the module at a path: from the directory that the module lies in. -/
def requested (request : String) (origin : Path) : Location :=
  (⟨request⟩ : Path).locationFrom (.along origin.directory)

theorem directory_subset : origin.directory ⊆ origin.components := by
  unfold Path.directory Path.parentComponents
  split
  · exact List.nil_subset _
  · split
    · exact List.nil_subset _
    · exact List.dropLast_subset _

theorem isPlain_requested : (requested request origin).IsPlain := by
  rw [requested, ← Location.along_from_]
  refine Location.isPlain_along fun s hs => ?_
  have hmem : .name s ∈ (⟨request⟩ : Path).components ∨ .name s ∈ origin.directory := by
    unfold Path.from_ at hs
    split at hs
    · rename_i h
      exact .inl (h ▸ hs)
    · exact (List.mem_append.1 hs).symm
  exact hmem.elim Path.isName_of_mem_components fun h => Path.isName_of_mem_components (directory_subset h)

theorem target_eq :
    target request origin = ((requested request origin).folded.withDefaultExtension sourceExtension).spelled := by
  rw [requested, ← Location.along_from_, Location.spelled, ← Location.withDefaultExtension_components,
    Location.along, ← Location.foldl_fold]
  rfl

theorem location_target :
    (target request origin).location =
      (requested request origin).folded.withDefaultExtension sourceExtension := by
  rw [target_eq, Location.location_spelled isPlain_requested.folded.withDefaultExtension]

end Library

/-- **Where a normalised path leads.** A path keeps its names and, of its levels up, the remainder modulo
two: it leads where it led exactly if this is at most one level up. So it is with the path that a library
looks up for a request. -/
theorem normalize_folds_location (p : Path) (request : String) (origin : Path) :
    p.normalize.location = p.location.folded ∧
    (p.normalize.location = p.location ↔ p.location.ups < 2) ∧
    (Library.target request origin).location =
      (Library.requested request origin).folded.withDefaultExtension Library.sourceExtension ∧
    ((Library.target request origin).location =
        (Library.requested request origin).withDefaultExtension Library.sourceExtension ↔
      (Library.requested request origin).ups < 2) := by
  refine ⟨p.location_normalize, ?_, Library.location_target, ?_⟩
  · rw [p.location_normalize, Location.folded_eq_iff]
  · rw [Library.location_target, Location.withDefaultExtension_folded, Location.folded_eq_iff,
      Location.ups_withDefaultExtension]

/-- Two levels up are lost. -/
theorem two_levels_up_lost :
    let p : Path := ⟨"../../x"⟩
    ¬p.IsAbsolute ∧ p.location = { ups := 2, names := ["x"] } ∧ p.normalize = ⟨"x"⟩ ∧
      p.normalize.location ≠ p.location ∧
      Library.requested "../../m" ⟨"a.tsr"⟩ = { ups := 2, names := ["m"] } ∧
      Library.target "../../m" ⟨"a.tsr"⟩ = ⟨"m.tsr"⟩ := by
  decide +kernel

end SemanticAnalysis
