import SemanticAnalysis.Analysis.Program
import SemanticAnalysis.Proofs.SymbolTable.Extension
import SemanticAnalysis.Proofs.SymbolTable.Hierarchy

/-!
# Settled classes

A class is settled once its stage has left `declared`: nobody will resolve its head again. Two facts
hold between the steps of an analysis, and together they keep the hierarchy free of cycles
(`State.Sound`):

* every class that is named anywhere exists, so that no class gets a number that is already in use;
* every class in a list of parents is settled.

A state only moves on (`State.Onward`): settled classes stay settled and keep their parents. What an
ordinary step does to a state is `State.Grows`; the two steps that touch the stages of classes are
`State.withStage` and `State.withClass`, and the one that touches parents is `State.withParents`.
-/

namespace SemanticAnalysis

/-! ## What a state names -/

instance : NamesClasses ExprInfo := ⟨fun i => classIds i.ty⟩

instance : NamesClasses NameMeaning where
  classIds
    | .type ty => classIds ty
    | .value | .space _ | .property .. => []

instance : NamesClasses NameDetail := ⟨fun d => classIds (d.info, d.meaning)⟩

/-- Of what is recorded, only the meanings of names are ever read as types. -/
instance : NamesClasses Detail := ⟨fun d => classIds (d.name?.map (·.meaning))⟩

instance : NamesClasses DetailTable := ⟨fun t => classIds t.entries.toList⟩

instance : NamesClasses Instance := ⟨fun i => [i.item]⟩

instance : NamesClasses InstanceTable := ⟨fun t => classIds t.buckets⟩

/-- The instances of functions are no classes. -/
instance : NamesClasses Instances := ⟨fun s => classIds s.classes⟩

instance : NamesClasses Template where
  classIds
    | .fn _ _ _ cls => cls.toList
    | .cls .. => []

instance : NamesClasses State := ⟨fun s => classIds (s.table, s.details, s.instances, s.templates)⟩

instance : NamesClasses AttributeValue where
  classIds
    | .type ty => classIds ty
    | _ => []

instance : NamesClasses Invocation := ⟨fun i => classIds i.arguments⟩

section

variable {n : Nat}

theorem known_state {s : State} : Known n s ↔
    Known n s.table ∧ Known n s.details ∧ Known n s.instances ∧ Known n s.templates := by
  show Known n (s.table, s.details, s.instances, s.templates) ↔ _
  simp only [known_pair]

@[grind =] theorem known_exprInfo (i : ExprInfo) : Known n i ↔ Known n i.ty := .rfl

@[grind =] theorem known_typeMeaning (ty : Ty) : Known n (NameMeaning.type ty) ↔ Known n ty := .rfl

theorem known_nameDetail {d : NameDetail} : Known n d ↔ Known n d.info ∧ Known n d.meaning := by
  show Known n (d.info, d.meaning) ↔ _
  rw [known_pair]

theorem known_detail {d : Detail} : Known n d ↔ ∀ nd, d.name? = some nd → Known n nd.meaning := by
  show Known n (d.name?.map (·.meaning)) ↔ _
  cases d.name? with
  | none => exact iff_of_true known_none (by simp)
  | some nd =>
    rw [Option.map_some, known_some]
    exact ⟨fun h _ hnd => by cases hnd; exact h, fun h => h nd rfl⟩

@[grind =] theorem known_instance (i : Instance) : Known n i ↔ i.item.index < n := by
  show (∀ c ∈ [i.item], c.index < n) ↔ _
  simp

@[grind =] theorem known_typeValue (ty : Ty) : Known n (AttributeValue.type ty) ↔ Known n ty := .rfl

theorem known_invocation {i : Invocation} : Known n i ↔ Known n i.arguments := .rfl

@[grind =] theorem known_fnTemplate (decl : FunctionDef) (scope : ScopeId) (module : ModuleId)
    (cls : Option ItemId) :
    Known n (Template.fn decl scope module cls) ↔ ∀ c, cls = some c → c.index < n := by
  show (∀ c ∈ cls.toList, c.index < n) ↔ _
  simp [Option.mem_toList]

@[grind ←] theorem known_clsTemplate (decl : ClassDef) (scope : ScopeId) (module : ModuleId) :
    Known n (Template.cls decl scope module) := known_of_nil rfl

/-! ### Details -/

theorem known_details {t : DetailTable} :
    Known n t ↔ ∀ e ∈ t.entries, Known n e.2 := by
  show Known n t.entries.toList ↔ _
  rw [known_list]
  refine ⟨fun h e he => (h e (Array.mem_toList_iff.2 he)).snd, fun h e he => ?_⟩
  exact (known_pair _ _).2 ⟨known_of_namesNone n _, h e (Array.mem_toList_iff.1 he)⟩

@[grind →] theorem Known.detail {t : DetailTable} (h : Known n t) {k : DetailKey} {d : Detail}
    (hd : t.get? k = some d) : Known n d := by
  obtain ⟨e, he, rfl⟩ := Option.map_eq_some_iff.1 hd
  exact known_details.1 h e (Array.mem_of_find?_eq_some he)

theorem known_insert {t t' : DetailTable} {k : DetailKey} {d : Detail} {position : Position}
    (h : Known n t) (hd : Known n d) (hok : t.insert k d position = .ok t') : Known n t' := by
  unfold DetailTable.insert at hok
  split at hok
  · cases hok
  · cases hok
    refine known_details.2 fun e he => ?_
    rcases Array.mem_push.1 he with he | rfl
    · exact known_details.1 h e he
    · exact hd

theorem known_modifyDetail {t : DetailTable} {k : DetailKey} {f : Detail → Detail} (h : Known n t)
    (hf : ∀ d, Known n d → Known n (f d)) : Known n (t.modify k f) := by
  refine known_details.2 fun e he => ?_
  obtain ⟨old, hold, rfl⟩ := Array.mem_map.1 he
  have hknown := known_details.1 h old hold
  split
  · exact hf _ hknown
  · exact hknown

theorem known_narrowTo {d : Detail} {item : ItemId} {ty : Ty} (h : Known n d) :
    Known n (d.narrowTo item ty) := by
  cases d <;> exact h

theorem known_mapInfo {d : Detail} {f : ExprInfo → ExprInfo} (h : Known n d) :
    Known n (d.mapInfo f) := by
  cases d <;> exact h

/-! ### Instances -/

theorem known_instances {s : Instances} : Known n s ↔ Known n s.classes := .rfl

theorem known_instanceTable {t : InstanceTable} :
    Known n t ↔ ∀ b ∈ t.buckets, Known n b.2 := by
  show Known n t.buckets ↔ _
  rw [known_list]
  refine ⟨fun h b hb => (h b hb).snd, fun h b hb => ?_⟩
  exact (known_pair _ _).2 ⟨known_of_namesNone n _, h b hb⟩

theorem known_push {key : ItemId × UInt64} {inst : Instance}
    {buckets : List ((ItemId × UInt64) × List Instance)} (hinst : Known n inst)
    (h : ∀ b ∈ buckets, Known n b.2) : ∀ b ∈ InstanceTable.push key inst buckets, Known n b.2 := by
  induction buckets with
  | nil =>
    intro b hb
    rw [List.mem_singleton.1 hb]
    exact (known_cons _ _).2 ⟨hinst, known_nil⟩
  | cons first rest ih =>
    obtain ⟨k, held⟩ := first
    obtain ⟨hfirst, hrest⟩ := List.forall_mem_cons.1 h
    unfold InstanceTable.push
    split
    · refine List.forall_mem_cons.2 ⟨?_, hrest⟩
      exact (known_append _ _).2 ⟨hfirst, (known_cons _ _).2 ⟨hinst, known_nil⟩⟩
    · exact List.forall_mem_cons.2 ⟨hfirst, ih hrest⟩

theorem known_insertClass {s : Instances} {template : ItemId} {inst : Instance} (h : Known n s)
    (hinst : inst.item.index < n) : Known n (s.insertClass template inst).2 := by
  show Known n (s.classes.insert Instances.argumentsKey template inst).2
  unfold InstanceTable.insert
  split
  · exact h
  · exact known_instanceTable.2
      (known_push ((known_instance _).2 hinst) (known_instanceTable.1 h))

theorem Known.findClass {s : Instances} (h : Known n s) {template : ItemId} {arguments : List Ty}
    {inst : Instance} (hinst : s.findClass? template arguments = some inst) :
    inst.item.index < n := by
  have hmem := List.mem_of_find?_eq_some hinst
  unfold InstanceTable.bucket at hmem
  cases hb : s.classes.buckets.lookup (template, Instances.argumentsKey arguments) with
  | none =>
    rw [hb] at hmem
    cases hmem
  | some held =>
    rw [hb] at hmem
    have hbuckets : Known n s.classes.buckets := h
    exact (known_instance _).1 ((hbuckets.lookup hb).mem hmem)

end

/-! ## States -/

/-- A callback that edits no parents and leaves the table in order: no item goes away, and a class is
named only if it exists, provided that was so for what the callback was given. -/
def Callback.Tidy (callback : Callback) : Prop :=
  ∀ (invocation : Invocation) (t : SymbolTable), Known t.items.size invocation →
    t.Extends (callback invocation t).2

/-- All callbacks are tidy. -/
def AttributeTable.Tidy (t : AttributeTable) : Prop := ∀ r ∈ t.registrations, r.callback.Tidy

/-- A registration that applies is one of the table. -/
theorem AttributeTable.mem_of_find? {t : AttributeTable} {path : String} {target : Target}
    {module : ModuleId} {r : Registration} {index : Nat}
    (hr : t.find? path target module = some (r, index)) : r ∈ t.registrations := by
  unfold AttributeTable.find? at hr
  have hmem : (r, index) ∈ t.registrations.zipIdx := by
    rw [Option.orElse_eq_or] at hr
    rcases Option.or_eq_some_iff.1 hr with hfound | ⟨-, hfound⟩
    · exact List.mem_of_mem_filter (List.mem_of_find?_eq_some hfound)
    · exact List.mem_of_mem_filter (List.mem_of_find?_eq_some hfound)
  exact (List.mem_zipIdx' hmem).2 ▸ List.getElem_mem _

theorem AttributeTable.Tidy.find {t : AttributeTable} (h : t.Tidy) {path : String} {target : Target}
    {module : ModuleId} {r : Registration} {index : Nat}
    (hr : t.find? path target module = some (r, index)) : r.callback.Tidy := h r (mem_of_find? hr)

namespace State

variable {s s' s'' : State}

/-- The number of items. -/
abbrev bound (s : State) : Nat := s.table.items.size

/-- The class exists, and nobody will resolve its head again. -/
structure Settled (s : State) (c : ItemId) : Prop where
  lt_bound : c.index < s.bound
  begun : ∀ source, s.classes.lookup c = some source → Stage.signatures.rank ≤ source.stage.rank

/-- What holds between the steps of an analysis. -/
structure Sound (s : State) : Prop where
  known : Known s.bound s
  settled : ∀ c p, s.table.IsParent c p → s.Settled p
  acyclic : s.table.IsAcyclic
  tidy : s.attributes.Tidy

/-- What no step takes back. -/
structure Onward (s s' : State) : Prop where
  bound_le : s.bound ≤ s'.bound
  settled : ∀ c, s.Settled c → s'.Settled c
  parents_eq : ∀ c, s.Settled c → s'.table.parentsOf c = s.table.parentsOf c

theorem Onward.refl (s : State) : s.Onward s where
  bound_le := Nat.le_refl _
  settled _ := id
  parents_eq _ _ := rfl

theorem Onward.trans (h : s.Onward s') (h' : s'.Onward s'') : s.Onward s'' where
  bound_le := Nat.le_trans h.bound_le h'.bound_le
  settled c hc := h'.settled c (h.settled c hc)
  parents_eq c hc := (h'.parents_eq c (h.settled c hc)).trans (h.parents_eq c hc)

/-- All that a settled class inherits from is settled. -/
theorem Sound.settled_of_climbs (h : s.Sound) {c p : ItemId} (hc : s.Settled c)
    (hp : s.table.Climbs c p) : s.Settled p := by
  induction hp with
  | refl => exact hc
  | tail _ hstep => exact h.settled _ _ hstep

/-- What a settled class inherits from stays the same. -/
theorem Onward.climbs (h : s.Onward s') (hs : s.Sound) {c p : ItemId} (hc : s.Settled c)
    (hp : s'.table.Climbs c p) : s.table.Climbs c p :=
  SymbolTable.climbs_of_agree hp fun k hk => h.parents_eq k (hs.settled_of_climbs hc hk)

/-! ### Ordinary steps -/

/-- The table grows, and the stages of classes stay as they are. -/
structure Grows (s s' : State) : Prop where
  table : s.table.Extends s'.table
  details : Known s.bound s → Known s'.bound s'.details
  instances : Known s.bound s → Known s'.bound s'.instances
  templates : Known s.bound s → Known s'.bound s'.templates
  classes : s'.classes = s.classes
  attributes : s'.attributes = s.attributes

theorem Grows.onward (h : s.Grows s') : s.Onward s' where
  bound_le := h.table.size_le
  settled _ hc := ⟨Nat.lt_of_lt_of_le hc.lt_bound h.table.size_le, h.classes ▸ hc.begun⟩
  parents_eq c _ := h.table.parents_eq c

theorem Grows.sound (h : s.Grows s') (hs : s.Sound) : s'.Sound where
  known := by
    have htable := (known_state.1 hs.known).1
    exact known_state.2 ⟨h.table.known htable, h.details hs.known, h.instances hs.known,
      h.templates hs.known⟩
  settled c p hp := by
    rw [SymbolTable.IsParent, h.table.parents_eq] at hp
    exact h.onward.settled p (hs.settled c p hp)
  acyclic := hs.acyclic.of_eq h.table.parents_eq
  tidy := h.attributes ▸ hs.tidy

/-- Only the table grows. -/
theorem Grows.of_table {t : SymbolTable} (h : s.table.Extends t) :
    s.Grows { s with table := t } where
  table := h
  details hs := (known_state.1 hs).2.1.mono h.size_le
  instances hs := (known_state.1 hs).2.2.1.mono h.size_le
  templates hs := (known_state.1 hs).2.2.2.mono h.size_le
  classes := rfl
  attributes := rfl

/-- Only the details change. -/
theorem Grows.of_details {details : DetailTable}
    (h : Known s.bound s.details → Known s.bound details) : s.Grows { s with details } where
  table := .refl _
  details hs := h (known_state.1 hs).2.1
  instances hs := (known_state.1 hs).2.2.1
  templates hs := (known_state.1 hs).2.2.2
  classes := rfl
  attributes := rfl

/-- Only the templates change. -/
theorem Grows.of_templates {templates : List (ItemId × Template)}
    (h : Known s.bound s.templates → Known s.bound templates) : s.Grows { s with templates } where
  table := .refl _
  details hs := (known_state.1 hs).2.1
  instances hs := (known_state.1 hs).2.2.1
  templates hs := h (known_state.1 hs).2.2.2
  classes := rfl
  attributes := rfl

/-- Only the instances change. -/
theorem Grows.of_instances {instances : Instances}
    (h : Known s.bound s.instances → Known s.bound instances) : s.Grows { s with instances } where
  table := .refl _
  details hs := (known_state.1 hs).2.1
  instances hs := h (known_state.1 hs).2.2.1
  templates hs := (known_state.1 hs).2.2.2
  classes := rfl
  attributes := rfl

/-- What `Sound` is about. -/
def tracked (s : State) : SymbolTable × DetailTable × InstanceTable × List (ItemId × Template) ×
    List (ItemId × ClassSource) × AttributeTable :=
  (s.table, s.details, s.instances.classes, s.templates, s.classes, s.attributes)

/-- Nothing of that changes. -/
theorem Grows.of_eq (h : s'.tracked = s.tracked) : s.Grows s' := by
  simp only [tracked, Prod.mk.injEq] at h
  obtain ⟨htable, hdetails, hinstances, htemplates, hclasses, hattributes⟩ := h
  have hbound : s'.bound = s.bound := by rw [bound, htable]
  refine ⟨htable ▸ .refl _, fun hs => ?_, fun hs => ?_, fun hs => ?_, hclasses, hattributes⟩
  · rw [hbound, hdetails]
    exact (known_state.1 hs).2.1
  · rw [known_instances, hbound, hinstances]
    exact (known_state.1 hs).2.2.1
  · rw [hbound, htemplates]
    exact (known_state.1 hs).2.2.2

/-! ### Stages -/

/-- A class at another stage. -/
def withStage (s : State) (cls : ItemId) (stage : Stage) : State :=
  { s with classes := s.classes.map fun (i, source) =>
      if i == cls then (i, { source with stage }) else (i, source) }

theorem lookup_withStage (s : State) (cls : ItemId) (stage : Stage) (c : ItemId) :
    (s.withStage cls stage).classes.lookup c = (s.classes.lookup c).map fun source =>
      if c = cls then { source with stage } else source := by
  unfold withStage
  dsimp only
  induction s.classes with
  | nil => rfl
  | cons entry rest ih =>
    obtain ⟨i, source⟩ := entry
    by_cases hc : c = i
    · subst hc
      by_cases hcls : c = cls <;> simp [hcls]
    · have hne : (c == i) = false := beq_eq_false_iff_ne.2 hc
      by_cases hi : i = cls
      · subst hi
        simpa [List.lookup_cons, hne] using ih
      · simpa [List.lookup_cons, hne, hi] using ih

section Stages

variable {cls : ItemId} {stage : Stage}

theorem settled_withStage (hstage : Stage.signatures.rank ≤ stage.rank) {c : ItemId}
    (hc : c.index < s.bound) (h : c = cls ∨ s.Settled c) : (s.withStage cls stage).Settled c := by
  refine ⟨hc, fun source hsource => ?_⟩
  rw [lookup_withStage] at hsource
  obtain ⟨old, hold, rfl⟩ := Option.map_eq_some_iff.1 hsource
  split
  · exact hstage
  · rename_i hne
    exact (h.resolve_left hne).begun old hold

theorem Onward.withStage (hstage : Stage.signatures.rank ≤ stage.rank) :
    s.Onward (s.withStage cls stage) where
  bound_le := Nat.le_refl _
  settled _ hc := settled_withStage hstage hc.lt_bound (.inr hc)
  parents_eq _ _ := rfl

theorem Sound.withStage (hs : s.Sound) (hstage : Stage.signatures.rank ≤ stage.rank) :
    (s.withStage cls stage).Sound where
  known := hs.known
  settled c p hp := (Onward.withStage hstage).settled p (hs.settled c p hp)
  acyclic := hs.acyclic
  tidy := hs.tidy

end Stages

/-! ### New classes -/

/-- A class that is declared, with its source. -/
def withClass (s : State) (cls : ItemId) (source : ClassSource) : State :=
  { s with classes := (cls, source) :: s.classes }

section NewClass

variable {cls : ItemId} {source : ClassSource}

/-- Nobody can have settled a class that did not exist. -/
theorem Grows.onward_withClass (h : s.Grows s') (hcls : s.bound ≤ cls.index) :
    s.Onward (s'.withClass cls source) where
  bound_le := h.table.size_le
  settled c hc := by
    have hne : (c == cls) = false :=
      beq_eq_false_iff_ne.2 fun heq => Nat.not_lt.2 hcls (heq ▸ hc.lt_bound)
    refine ⟨Nat.lt_of_lt_of_le hc.lt_bound h.table.size_le, fun found hfound => ?_⟩
    rw [withClass, List.lookup_cons, hne] at hfound
    exact (h.onward.settled c hc).begun found hfound
  parents_eq c _ := h.table.parents_eq c

theorem Grows.sound_withClass (h : s.Grows s') (hs : s.Sound) (hcls : s.bound ≤ cls.index) :
    (s'.withClass cls source).Sound where
  known := (h.sound hs).known
  settled c p hp := by
    have hp : p ∈ s'.table.parentsOf c := hp
    rw [h.table.parents_eq] at hp
    exact (h.onward_withClass hcls).settled p (hs.settled c p hp)
  acyclic := (h.sound hs).acyclic
  tidy := (h.sound hs).tidy

end NewClass

/-! ### New parents -/

/-- A class with other parents. -/
def withParents (s : State) (cls : ItemId) (parents : List ItemId) : State :=
  { s with table := s.table.modifyClass cls fun c => { c with parents } }

section NewParents

variable {cls : ItemId} {parents : List ItemId}

theorem bound_withParents : (s.withParents cls parents).bound = s.bound := Array.size_modify

theorem settled_withParents {c : ItemId} (h : s.Settled c) :
    (s.withParents cls parents).Settled c where
  lt_bound := by
    rw [bound_withParents]
    exact h.lt_bound
  begun := h.begun

theorem parentsOf_withParents_of_ne {c : ItemId} (h : c ≠ cls) :
    (s.withParents cls parents).table.parentsOf c = s.table.parentsOf c := by
  rw [SymbolTable.parentsOf_eq, SymbolTable.parentsOf_eq, withParents, SymbolTable.modifyClass,
    SymbolTable.item?_modifyItem, if_neg h]

theorem mem_parentsOf_withParents {p : ItemId}
    (hp : p ∈ (s.withParents cls parents).table.parentsOf cls) :
    p ∈ s.table.parentsOf cls ∨ p ∈ parents := by
  rw [SymbolTable.parentsOf_eq, withParents, SymbolTable.modifyClass, SymbolTable.item?_modifyItem,
    if_pos rfl] at hp
  rw [SymbolTable.parentsOf_eq]
  cases hitem : s.table.item? cls with
  | none =>
    rw [hitem] at hp
    cases hp
  | some item =>
    rw [hitem] at hp
    cases hentity : item.entity with
    | cls c =>
      simp only [Option.map_some, hentity, Option.elim, Item.parents] at hp
      exact .inr hp
    | _ =>
      simp only [Option.map_some, hentity, Option.elim] at hp
      exact .inl hp

/-- **New parents.** A class that no settled class of a list inherits from may get the list as its
parents. -/
theorem Sound.withParents (hs : s.Sound) (hsettled : ∀ p ∈ parents, s.Settled p)
    (hparents : ∀ p ∈ parents, ¬ s.table.Climbs p cls) : (s.withParents cls parents).Sound where
  known := by
    obtain ⟨htable, hrest⟩ := known_state.1 hs.known
    obtain ⟨hitems, hscopes⟩ := known_table.1 htable
    rw [bound_withParents]
    refine known_state.2 ⟨known_table.2 ⟨fun i item hi => ?_, hscopes⟩, hrest⟩
    rw [State.withParents, SymbolTable.modifyClass, SymbolTable.item?_modifyItem] at hi
    split at hi
    · obtain ⟨old, hold, rfl⟩ := Option.map_eq_some_iff.1 hi
      cases hentity : old.entity with
      | cls c => exact known_class.2 fun p hp => (hsettled p hp).lt_bound
      | _ => exact hitems i old hold
    · exact hitems i item hi
  settled c p hp := by
    refine settled_withParents ?_
    by_cases hc : c = cls
    · subst hc
      exact (mem_parentsOf_withParents hp).elim (hs.settled c p) (hsettled p)
    · rw [SymbolTable.IsParent, parentsOf_withParents_of_ne hc] at hp
      exact hs.settled c p hp
  acyclic := hs.acyclic.of_parents (fun _ hc => parentsOf_withParents_of_ne hc)
    (fun _ hp => mem_parentsOf_withParents hp) hparents
  tidy := hs.tidy

/-- As long as a class is not settled, its parents may change. -/
theorem Onward.withParents (h : s.Onward s') (hcls : ¬ s.Settled cls) :
    s.Onward (s'.withParents cls parents) where
  bound_le := by
    rw [bound_withParents]
    exact h.bound_le
  settled c hc := settled_withParents (h.settled c hc)
  parents_eq c hc := by
    have hne : c ≠ cls := fun heq => hcls (heq ▸ hc)
    rw [parentsOf_withParents_of_ne hne]
    exact h.parents_eq c hc

end NewParents

end State

end SemanticAnalysis
