import SemanticAnalysis.Proofs.Course.Basic

/-!
# Histories of an instance cache

What a cache of instances answers hangs on what was added to it since it was last cleared, and on nothing
else: the digests may be any functions (`Hashing`). A table stands for a list of entries, one for each
template and argument list (`InstanceTable.StandsFor`): the entries that were added first. Adding an
instance extends that list by one, or leaves the table as it is (`StandsFor.insert`); a whole history of
additions and clearings is then followed step by step (`CacheStep.standsFor_runAll`).
-/

namespace SemanticAnalysis

/-! ## Entries -/

/-- An instance with its template. -/
abbrev CacheEntry := ItemId × Instance

namespace CacheEntry

/-- The entry is for a template and an argument list. -/
def isFor (template : ItemId) (arguments : List Ty) (e : CacheEntry) : Bool :=
  e.1 == template && e.2.arguments == arguments

/-- Append an entry, unless there is one for its template and arguments. -/
def extend (es : List CacheEntry) (e : CacheEntry) : List CacheEntry :=
  if es.any (isFor e.1 e.2.arguments) then es else es ++ [e]

/-- The first entry for every template and argument list. -/
def firsts (es : List CacheEntry) : List CacheEntry := es.foldl extend []

variable {template : ItemId} {arguments : List Ty} {e : CacheEntry} {es : List CacheEntry}

theorem isFor_iff : isFor template arguments e = true ↔
    e.1 = template ∧ e.2.arguments.map Ty.erase = arguments.map Ty.erase := by
  rw [isFor, Bool.and_eq_true, beq_iff_eq, Ty.beq_list_iff]

/-- Two entries for the same are for the same things. -/
theorem isFor_congr (h : isFor template arguments e = true) :
    isFor e.1 e.2.arguments = isFor template arguments := by
  obtain ⟨htemplate, harguments⟩ := isFor_iff.1 h
  funext d
  rw [Bool.eq_iff_iff, isFor_iff, isFor_iff, htemplate, harguments]

theorem firsts_append (es : List CacheEntry) (e : CacheEntry) :
    firsts (es ++ [e]) = extend (firsts es) e := by
  rw [firsts, List.foldl_append]
  rfl

/-- Leaving out later entries changes no search. -/
theorem find?_firsts (es : List CacheEntry) :
    (firsts es).find? (isFor template arguments) = es.find? (isFor template arguments) := by
  induction es using List.reverseRecOn with
  | nil => rfl
  | append_singleton es e ih =>
    rw [firsts_append, extend, List.find?_append, ← ih]
    split
    · rename_i hany
      cases hfor : isFor template arguments e with
      | false => simp [hfor]
      | true =>
        -- the entry that made `e` superfluous is found first
        rw [isFor_congr hfor, List.any_eq_true, ← List.find?_isSome] at hany
        rw [Option.or_of_isSome hany]
    · rw [List.find?_append]

theorem any_firsts (es : List CacheEntry) :
    (firsts es).any (isFor template arguments) = es.any (isFor template arguments) := by
  rw [← List.isSome_find?, ← List.isSome_find?, find?_firsts]

end CacheEntry

/-! ## One table -/

namespace InstanceTable

open CacheEntry

/-- What a table holds, bucket by bucket. -/
def entries (t : InstanceTable) : List CacheEntry :=
  t.buckets.flatMap fun b => b.2.map fun inst => (b.1.1, inst)

theorem entries_push (key : ItemId × UInt64) (inst : Instance)
    (buckets : List ((ItemId × UInt64) × List Instance)) (size : Nat) :
    (⟨push key inst buckets, size⟩ : InstanceTable).entries.Perm
      ((⟨buckets, size⟩ : InstanceTable).entries ++ [(key.1, inst)]) := by
  unfold entries
  induction buckets with
  | nil => exact .refl _
  | cons b rest ih =>
    obtain ⟨k, held⟩ := b
    unfold push
    split
    · rename_i hkey
      rw [eq_of_beq hkey]
      simp only [List.flatMap_cons, List.map_append, List.map_cons, List.map_nil, List.append_assoc]
      exact List.perm_append_comm.append_left _
    · simp only [List.flatMap_cons, List.append_assoc]
      exact ih.append_left _

theorem ofTemplate_eq (t : InstanceTable) (template : ItemId) :
    t.ofTemplate template = (t.entries.filter (·.1 == template)).map (·.2) := by
  unfold ofTemplate entries
  induction t.buckets with
  | nil => rfl
  | cons b rest ih =>
    simp only [List.flatMap_cons, List.filter_append, List.map_append, ← ih]
    cases h : b.1.1 == template <;> simp [h, List.filter_map, Function.comp_def]

/-- The table stands for some entries: it finds what a search of the list finds, holds them all, each
once, and counts them. -/
structure StandsFor (digest : List Ty → UInt64) (t : InstanceTable) (es : List CacheEntry) : Prop where
  find? : ∀ template arguments,
    t.find? digest template arguments = (es.find? (isFor template arguments)).map (·.2)
  entries : t.entries.Perm es
  size : t.size = es.length

namespace StandsFor

variable {digest : List Ty → UInt64} {t : InstanceTable} {es : List CacheEntry}

theorem empty : StandsFor digest {} [] where
  find? _ _ := rfl
  entries := .refl _
  size := rfl

variable (hdigest : ∀ as bs : List Ty, as.map Ty.erase = bs.map Ty.erase → digest as = digest bs)
variable (h : StandsFor digest t es)

include h

theorem isSome_find? (template : ItemId) (arguments : List Ty) :
    (t.find? digest template arguments).isSome = es.any (isFor template arguments) := by
  rw [h.find?, Option.isSome_map, List.isSome_find?]

theorem fst_insert (template : ItemId) (inst : Instance) :
    (t.insert digest template inst).1 = !es.any (isFor template inst.arguments) := by
  rw [← h.isSome_find?]
  unfold InstanceTable.insert
  cases (t.find? digest template inst.arguments).isSome <;> rfl

theorem insert_of_any {template : ItemId} {inst : Instance}
    (hany : es.any (isFor template inst.arguments) = true) : (t.insert digest template inst).2 = t := by
  rw [← h.isSome_find?] at hany
  rw [InstanceTable.insert, if_pos hany]

include hdigest

/-- Adding an instance is adding an entry. -/
theorem insert (template : ItemId) (inst : Instance) :
    StandsFor digest (t.insert digest template inst).2 (extend es (template, inst)) := by
  unfold extend
  split
  · rename_i hany
    rwa [h.insert_of_any hany]
  · rename_i hany
    have hnew : t.find? digest template inst.arguments = none := by
      rw [← h.isSome_find?, Option.not_isSome_iff_eq_none] at hany
      exact hany
    refine ⟨fun other arguments => ?_, ?_, ?_⟩
    · rw [List.find?_append, List.find?_singleton]
      cases hfor : isFor other arguments (template, inst) with
      | true =>
        obtain ⟨rfl, hsame⟩ := isFor_iff.1 hfor
        have hnone : es.find? (isFor template arguments) = none := by
          simpa [isFor_congr hfor] using hany
        rw [find?_insert_of_same hdigest hnew hsame.symm, hnone]
        rfl
      | false =>
        have hne : ¬ (other = template ∧ arguments.map Ty.erase = inst.arguments.map Ty.erase) := by
          rintro ⟨rfl, hsame⟩
          cases hfor.symm.trans (isFor_iff.2 ⟨rfl, hsame.symm⟩)
        rw [find?_insert_of_ne hnew hne, h.find?]
        simp
    · rw [insert_eq_push hnew]
      exact (entries_push _ _ _ _).trans (h.entries.append_right _)
    · rw [insert_eq_push hnew, List.length_append, ← h.size]
      rfl

end StandsFor

end InstanceTable

/-! ## The cache -/

namespace Instances

/-- Add an instance of a kind, whatever the digests are. -/
def insertBy (h : Hashing) (s : Instances) (template : ItemId) (inst : Instance) :
    InstanceKind → Bool × Instances
  | .cls =>
    let (added, classes) := s.classes.insert h.key template inst
    (added, { s with classes })
  | .fn =>
    let (added, functions) := s.functions.insert h.key template inst
    (added, { s with functions })

/-- With the digests in use this is how the instances of classes are added. -/
example (s : Instances) (template : ItemId) (inst : Instance) :
    s.insertBy .xxHash template inst .cls = s.insertClass template inst := rfl

variable {h : Hashing} {s : Instances} {template : ItemId} {inst : Instance} {kind other : InstanceKind}

theorem fst_insertBy :
    (s.insertBy h template inst kind).1 = ((s.table kind).insert h.key template inst).1 := by
  cases kind <;> rfl

theorem table_insertBy_self :
    (s.insertBy h template inst kind).2.table kind = ((s.table kind).insert h.key template inst).2 := by
  cases kind <;> rfl

theorem table_insertBy_of_ne (hne : other ≠ kind) :
    (s.insertBy h template inst kind).2.table other = s.table other := by
  cases kind <;> cases other <;> first | rfl | exact absurd rfl hne

theorem insertBy_eq_self (hsame : ((s.table kind).insert h.key template inst).2 = s.table kind) :
    (s.insertBy h template inst kind).2 = s := by
  obtain ⟨classes, functions⟩ := s
  cases kind with
  | cls => exact congrArg (Instances.mk · functions) hsame
  | fn => exact congrArg (Instances.mk classes) hsame

end Instances

/-- A change of a cache. -/
inductive CacheStep where
  | add (kind : InstanceKind) (template : ItemId) (inst : Instance)
  | clear

namespace CacheStep

open CacheEntry

/-- The cache behind a change. -/
def next (h : Hashing) (s : Instances) : CacheStep → Instances
  | add kind template inst => (s.insertBy h template inst kind).2
  | clear => s.clear

/-- An empty cache behind some changes. -/
def runAll (h : Hashing) (steps : List CacheStep) : Instances := steps.foldl (next h) {}

/-- One more change, for the instances of a kind that were added since the cache was last cleared. -/
def note (kind : InstanceKind) (es : List CacheEntry) : CacheStep → List CacheEntry
  | add k template inst => if k = kind then es ++ [(template, inst)] else es
  | clear => []

/-- The instances of a kind that were added since the cache was last cleared, in order. Some may have been
there already. -/
def added (kind : InstanceKind) (steps : List CacheStep) : List CacheEntry := steps.foldl (note kind) []

theorem standsFor_next {h : Hashing} {s : Instances} {kind : InstanceKind} {es : List CacheEntry}
    (hs : (s.table kind).StandsFor h.key (firsts es)) (step : CacheStep) :
    ((step.next h s).table kind).StandsFor h.key (firsts (step.note kind es)) := by
  cases step with
  | clear => cases kind <;> exact .empty
  | add k template inst =>
    rw [next, note]
    by_cases hkind : k = kind
    · rw [if_pos hkind, hkind, Instances.table_insertBy_self, firsts_append]
      exact hs.insert (fun _ _ => h.key_congr) template inst
    · rwa [if_neg hkind, Instances.table_insertBy_of_ne (Ne.symm hkind)]

/-- After any history, a table stands for the entries of its kind that were added first. -/
theorem standsFor_runAll (h : Hashing) (steps : List CacheStep) (kind : InstanceKind) :
    ((runAll h steps).table kind).StandsFor h.key (firsts (added kind steps)) := by
  induction steps using List.reverseRecOn with
  | nil => cases kind <;> exact .empty
  | append_singleton steps step ih =>
    rw [runAll, added, List.foldl_append, List.foldl_append]
    exact standsFor_next ih step

end CacheStep

open CacheEntry CacheStep

/-- **Finite map.** Whatever the digests are, after any changes the cache finds for a template and an
argument list the first instance that was added for them since it was last cleared. Another instance for
them is refused and changes nothing, any other one is taken. The cache counts the different entries of each
kind, and lists all those of a template, each once. -/
theorem cache_is_finite_map (h : Hashing) (steps : List CacheStep) :
    let s := runAll h steps
    (∀ kind template arguments, (s.table kind).find? h.key template arguments =
        ((added kind steps).find? (isFor template arguments)).map (·.2)) ∧
      (∀ kind template inst,
        (s.insertBy h template inst kind).1 = !(added kind steps).any (isFor template inst.arguments) ∧
          ((s.insertBy h template inst kind).1 = false → (s.insertBy h template inst kind).2 = s)) ∧
      (∀ kind, (s.table kind).size = (firsts (added kind steps)).length) ∧
      ∀ template, (s.ofTemplate template).Perm
        (((firsts (added .cls steps) ++ firsts (added .fn steps)).filter (·.1 == template)).map (·.2)) := by
  have hstands := standsFor_runAll h steps
  refine ⟨fun kind template arguments => ?_, fun kind template inst => ?_, fun kind => ?_, fun template => ?_⟩
  · rw [(hstands kind).find?, find?_firsts]
  · have hadded : ((runAll h steps).insertBy h template inst kind).1 =
        !(added kind steps).any (isFor template inst.arguments) := by
      rw [Instances.fst_insertBy, (hstands kind).fst_insert, any_firsts]
    refine ⟨hadded, fun hfalse => Instances.insertBy_eq_self ((hstands kind).insert_of_any ?_)⟩
    rwa [hadded, Bool.not_eq_false', ← any_firsts] at hfalse
  · exact (hstands kind).size
  · have hclasses := InstanceTable.ofTemplate_eq (runAll h steps).classes template
    have hfunctions := InstanceTable.ofTemplate_eq (runAll h steps).functions template
    rw [Instances.ofTemplate, hclasses, hfunctions, List.filter_append, List.map_append]
    exact (((hstands .cls).entries.filter _).map _).append (((hstands .fn).entries.filter _).map _)

end SemanticAnalysis
