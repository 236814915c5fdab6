import SemanticAnalysis.Proofs.Course.Requests

/-!
# Instances are made once

Whenever two calls for instances return, they return the same item if and only if they ask for the same.

1. `History session log s` follows a session step by step to a moment `s`. Its log names every call for
   an instance with the item that the call returns, if it returns: a new one, logged when it is
   remembered, or one that is there.
2. What is remembered is remembered for good, and every new item is new: `Remembers`, kept by each step
   of a history (`History.remembers`).
3. Histories reach everything that happens: calls extend them, and so do requests (`History.call`,
   `History.request`).

An instance is remembered before its members are looked at, so a call on the way to itself finds what
the outer call is about to return. Errors change nothing: an instance with a broken member stays.
-/

namespace SemanticAnalysis

/-! ## Histories -/

/-- A call for an instance and the item that it returns. -/
structure Answered where
  call : Instantiation
  item : ItemId

/-- A step that has nothing to do with instances: it takes back no item and no template. -/
structure State.Aside (s s' : State) : Prop where
  items_le : s.table.items.size ≤ s'.table.items.size := by exact Nat.le_refl _
  templates : ∀ i t, s.templates.lookup i = some t → s'.templates.lookup i = some t := by
    exact fun _ _ h => h
  instances : s'.instances = s.instances := by rfl
  proper : s.Proper → s'.Proper

/-- The moments of a session, each with the calls up to then. -/
inductive History (session : Session) : List Answered → State → Prop where
  | start : History session [] session.start
  | aside {log : List Answered} {s s' : State} (h : History session log s) (hstep : s.Aside s') :
      History session log s'
  /-- A call finds nothing and makes an instance. Its members follow. -/
  | made {log : List Answered} {s s' : State} {c : Instantiation} {item : ItemId}
      (h : History session log s) (hopens : s.Opens c item s') :
      History session (log ++ [⟨c, item⟩]) s'
  /-- A call finds an instance. -/
  | found {log : List Answered} {s : State} {c : Instantiation} {item : ItemId}
      (h : History session log s) (hoffers : s.Offers c) (hfound : s.instance? c = some item) :
      History session (log ++ [⟨c, item⟩]) s

/-! ## What is remembered -/

namespace State

variable {s s' : State} {c d : Instantiation} {item : ItemId}

theorem Offers.congr (h : s.Offers c) (hsame : d.Same c) : s.Offers d := by
  obtain ⟨t, ht, htakes⟩ := h
  have hlength : d.arguments.length = c.arguments.length := by
    simpa using congrArg List.length hsame.arguments
  exact ⟨t, hsame.template ▸ ht, by rw [hsame.kind, hlength]; exact htakes⟩

theorem Offers.mono (h : s.Offers c)
    (ht : ∀ i t, s.templates.lookup i = some t → s'.templates.lookup i = some t) : s'.Offers c := by
  obtain ⟨t, hlookup, htakes⟩ := h
  exact ⟨t, ht _ _ hlookup, htakes⟩

theorem instance?_of_instances (h : s'.instances = s.instances) : s'.instance? c = s.instance? c := by
  rw [instance?, instance?, h]

namespace Opens

theorem instance?_of_same (h : s.Opens c item s') (hsame : d.Same c) : s'.instance? d = some item := by
  obtain ⟨frame, hinstances⟩ := h.remembered
  have hmissing := Option.map_eq_none_iff.1 h.missing
  rw [instance?, hinstances, hsame.kind, Instances.table_remember_self, hsame.template,
    InstanceTable.find?_insert_of_same (fun _ _ => Instances.argumentsKey_congr) hmissing
      hsame.arguments]
  rfl

theorem instance?_of_not_same (h : s.Opens c item s') (hother : ¬ d.Same c) :
    s'.instance? d = s.instance? d := by
  obtain ⟨frame, hinstances⟩ := h.remembered
  rw [instance?, instance?, hinstances]
  by_cases hkind : d.kind = c.kind
  · have hmissing := Option.map_eq_none_iff.1 h.missing
    rw [hkind, Instances.table_remember_self, InstanceTable.find?_insert_of_ne hmissing]
    exact fun hsame => hother ⟨hkind, hsame.1, hsame.2⟩
  · rw [Instances.table_remember_of_ne _ _ _ hkind]

end Opens

end State

/-- The instances that are remembered have items of their own, and are those in the log. -/
structure Remembers (log : List Answered) (s : State) : Prop where
  proper : s.Proper
  below : ∀ c i, s.instance? c = some i → i.index < s.table.items.size
  injective : ∀ c d i, s.instance? c = some i → s.instance? d = some i → c.Same d
  logged : ∀ x ∈ log, s.Offers x.call ∧ s.instance? x.call = some x.item
  noted : ∀ c i, s.instance? c = some i → ∃ x ∈ log, x.item = i ∧ x.call.Same c

namespace Remembers

variable {log : List Answered} {s s' : State} {c : Instantiation} {item : ItemId}

theorem aside (h : Remembers log s) (hstep : s.Aside s') : Remembers log s' where
  proper := hstep.proper h.proper
  below c i hi := by
    rw [State.instance?_of_instances hstep.instances] at hi
    exact Nat.lt_of_lt_of_le (h.below c i hi) hstep.items_le
  injective c d i hc hd := by
    rw [State.instance?_of_instances hstep.instances] at hc hd
    exact h.injective c d i hc hd
  logged x hx := by
    rw [State.instance?_of_instances hstep.instances]
    exact (h.logged x hx).imp_left fun hoffers => hoffers.mono hstep.templates
  noted c i hi := by
    rw [State.instance?_of_instances hstep.instances] at hi
    exact h.noted c i hi

theorem made (h : Remembers log s) (hopens : s.Opens c item s') :
    Remembers (log ++ [⟨c, item⟩]) s' := by
  have hitems : s.table.items.size ≤ s'.table.items.size := hopens.ordinary.items_le
  -- what was remembered has an older item than the new one
  have hold : ∀ d i, s.instance? d = some i → i ≠ item := by
    rintro d i hi rfl
    exact absurd (h.below d i hi) (Nat.not_lt.2 hopens.fresh)
  constructor
  · exact hopens.proper h.proper
  · intro d i hi
    by_cases hsame : d.Same c
    · cases (hopens.instance?_of_same hsame).symm.trans hi
      exact hopens.made
    · rw [hopens.instance?_of_not_same hsame] at hi
      exact Nat.lt_of_lt_of_le (h.below d i hi) hitems
  · intro d e i hd he
    by_cases hsame : d.Same c <;> by_cases hsame' : e.Same c
    · exact hsame.trans hsame'.symm
    · cases (hopens.instance?_of_same hsame).symm.trans hd
      rw [hopens.instance?_of_not_same hsame'] at he
      exact absurd rfl (hold e _ he)
    · cases (hopens.instance?_of_same hsame').symm.trans he
      rw [hopens.instance?_of_not_same hsame] at hd
      exact absurd rfl (hold d _ hd)
    · rw [hopens.instance?_of_not_same hsame] at hd
      rw [hopens.instance?_of_not_same hsame'] at he
      exact h.injective d e i hd he
  · intro x hx
    rcases List.mem_append.1 hx with hx | hx
    · obtain ⟨hoffers, hi⟩ := h.logged x hx
      refine ⟨hoffers.mono hopens.ordinary.templates, ?_⟩
      -- a call in the log found its instance, so it does not ask for the new one
      have hother : ¬ x.call.Same c := by
        intro hsame
        rw [State.instance?_congr s hsame, hopens.missing] at hi
        cases hi
      rw [hopens.instance?_of_not_same hother]
      exact hi
    · rw [List.mem_singleton.1 hx]
      exact ⟨hopens.offers.mono hopens.ordinary.templates, hopens.instance?_of_same (.refl c)⟩
  · intro d i hi
    by_cases hsame : d.Same c
    · cases (hopens.instance?_of_same hsame).symm.trans hi
      exact ⟨⟨c, item⟩, List.mem_append_right _ List.mem_cons_self, rfl, hsame.symm⟩
    · rw [hopens.instance?_of_not_same hsame] at hi
      obtain ⟨x, hx, hitem⟩ := h.noted d i hi
      exact ⟨x, List.mem_append_left _ hx, hitem⟩

theorem found (h : Remembers log s) (hoffers : s.Offers c) (hfound : s.instance? c = some item) :
    Remembers (log ++ [⟨c, item⟩]) s where
  proper := h.proper
  below := h.below
  injective := h.injective
  logged x hx := by
    rcases List.mem_append.1 hx with hx | hx
    · exact h.logged x hx
    · rw [List.mem_singleton.1 hx]
      exact ⟨hoffers, hfound⟩
  noted d i hi := by
    obtain ⟨x, hx, hitem⟩ := h.noted d i hi
    exact ⟨x, List.mem_append_left _ hx, hitem⟩

end Remembers

/-- **One step at a time.** -/
theorem History.remembers {session : Session} (hgrowing : session.attributes.Growing)
    {log : List Answered} {s : State} (h : History session log s) : Remembers log s := by
  induction h with
  | start =>
    have hnone : ∀ c, session.start.instance? c = none := by
      rintro ⟨kind, template, arguments⟩
      cases kind <;> rfl
    exact
      { proper := Session.proper_start hgrowing
        below := fun c i hi => by cases (hnone c).symm.trans hi
        injective := fun c d i hi => by cases (hnone c).symm.trans hi
        logged := fun x hx => nomatch hx
        noted := fun c i hi => by cases (hnone c).symm.trans hi }
  | aside _ hstep ih => exact ih.aside hstep
  | made _ hopens ih => exact ih.made hopens
  | found _ hoffers hfound ih => exact ih.found hoffers hfound

/-! ## Everything has a history -/

namespace State.Aside

variable {s s' : State}

theorem of_ordinary (h : s.Ordinary s') : s.Aside s' where
  items_le := h.items_le
  templates := h.templates
  instances := h.instances
  proper := (Course.ordinary h).proper

theorem of_proper (h : s.Proper → s'.Proper) (htable : s'.table.items = s.table.items)
    (htemplates : s'.templates = s.templates) (hinstances : s'.instances = s.instances) :
    s.Aside s' where
  items_le := htable ▸ Nat.le_refl _
  templates := htemplates ▸ fun _ _ h => h
  instances := hinstances
  proper := h

end State.Aside

namespace History

variable {session : Session} {log : List Answered} {s s' : State}

/-- A course adds to a history the calls that are made on the way. -/
theorem course (hcourse : Course s s') (h : History session log s) :
    ∃ later, History session (log ++ later) s' := by
  induction hcourse generalizing log with
  | ordinary hstep => exact ⟨[], by simpa using h.aside (.of_ordinary hstep)⟩
  | trans _ _ ih ih' =>
    obtain ⟨later, h'⟩ := ih h
    obtain ⟨later', h''⟩ := ih' h'
    exact ⟨later ++ later', by simpa using h''⟩
  | @call _ _ _ c item _ _ hopens _ _ ih =>
    obtain ⟨later, h'⟩ := ih (h.made hopens)
    exact ⟨⟨c, item⟩ :: later, by simpa using h'⟩
  | link hlink => exact ⟨[], by simpa using h.aside (.of_proper (Course.link hlink).proper rfl rfl rfl)⟩
  | loads hloads =>
    exact ⟨[], by simpa using h.aside (.of_proper (Course.loads hloads).proper rfl rfl rfl)⟩
  | abandoned _ ih =>
    obtain ⟨later, h'⟩ := ih (h.aside (.of_proper (fun hs => (hs.made ..).within _) rfl rfl rfl))
    exact ⟨later, h'.aside (.of_proper (·.left) rfl rfl rfl)⟩
  | analysed _ hleft ih =>
    obtain ⟨later, h'⟩ := ih (h.aside (.of_proper (fun hs => (hs.made ..).within _) rfl rfl rfl))
    have hend := (h'.aside (.of_proper (·.left) rfl rfl rfl)).aside (.of_ordinary hleft)
    exact ⟨later, hend.aside (.of_proper (·.filed _) rfl rfl rfl)⟩

/-- A call that returns is in the log with what it returns, before the calls that it makes. -/
theorem call (hgrowing : session.attributes.Growing) (h : History session log s)
    {c : Instantiation} {an : Analyst} (han : an.Orderly) {position : Position} {item : ItemId}
    (hrun : c.run an position s = .ok item s') :
    ∃ later, History session (log ++ ⟨c, item⟩ :: later) s' := by
  have hproper := (h.remembers hgrowing).proper
  have hmeets := Analysis.meets an position s c
  by_cases hoffers : s.Offers c
  · cases hi : s.instance? c with
    | some i =>
      cases (hmeets.found hoffers i hi).symm.trans hrun
      exact ⟨[], h.found hoffers hi⟩
    | none =>
      have hmakes := hmeets.makes hoffers hi han hproper
      rw [hrun] at hmakes
      cases hmakes with
      | returned hopens hmembers =>
        obtain ⟨later, h'⟩ := (h.made hopens).course hmembers
        exact ⟨later, by simpa using h'⟩
  · obtain ⟨e, herror⟩ := hmeets.refused hoffers
    cases herror.symm.trans hrun

/-- A request adds to a history the calls that it leads to. -/
theorem request (hgrowing : session.attributes.Growing) (h : History session log s) (r : Request) :
    ∃ later, History session (log ++ later) (r.next s) := by
  have hwithin : ∀ m, History session log (s.within m) := fun m => h.aside (.of_proper (·.within m) rfl rfl rfl)
  have hhandles := r.handles (h.remembers hgrowing).proper
  generalize r.next s = s' at hhandles
  cases hhandles with
  | course hcourse => exact h.course hcourse
  | missing m => exact ⟨[], by simpa using hwithin m⟩
  | failed hcourse =>
    obtain ⟨later, h'⟩ := (hwithin _).course hcourse
    exact ⟨later, h'.aside (.of_proper (·.left) rfl rfl rfl)⟩
  | ended hcourse hleft =>
    obtain ⟨later, h'⟩ := (hwithin _).course hcourse
    have hend := (h'.aside (.of_proper (·.left) rfl rfl rfl)).aside (.of_ordinary hleft)
    exact ⟨later, hend.aside (.of_proper (·.filed _) rfl rfl rfl)⟩

end History

/-! ## Memoisation -/

/-- **A memoised injection.** At any moment of any session whose callbacks take no items away:

* two calls, at whatever moments up to now, return the same item exactly when they ask for the same
  template with the same types;
* a call for something that was called for before returns what was returned then, and nothing changes;
* a call to come is in a history to come, together with the item that it returns;
* so is every instance that some request comes to make, for whatever is remembered then is in the log. -/
theorem instances_memoised {session : Session} (hgrowing : session.attributes.Growing)
    {log : List Answered} {s : State} (h : History session log s) :
    (∀ x ∈ log, ∀ y ∈ log, x.item = y.item ↔ x.call.Same y.call) ∧
    (∀ x ∈ log, ∀ (c : Instantiation) (an : Analyst) (position : Position),
      c.Same x.call → c.run an position s = .ok x.item s) ∧
    (∀ (c : Instantiation) (depth : Nat) (position : Position) (item : ItemId) (s' : State),
      c.run (analyst depth) position s = .ok item s' →
        ∃ later, History session (log ++ ⟨c, item⟩ :: later) s') ∧
    ∀ r : Request, ∃ later, History session (log ++ later) (r.next s) ∧
      ∀ c i, (r.next s).instance? c = some i → ∃ x ∈ log ++ later, x.item = i ∧ x.call.Same c := by
  have hremembers := h.remembers hgrowing
  refine ⟨fun x hx y hy => ?_, fun x hx c an position hsame => ?_, fun c depth position item s' => ?_,
    fun r => ?_⟩
  · have hi := (hremembers.logged x hx).2
    have hj := (hremembers.logged y hy).2
    constructor
    · intro heq
      exact hremembers.injective _ _ _ hi (heq ▸ hj)
    · intro hsame
      rw [State.instance?_congr s hsame] at hi
      exact Option.some.inj (hi.symm.trans hj)
  · obtain ⟨hoffers, hi⟩ := hremembers.logged x hx
    refine (Analysis.meets an position s c).found (hoffers.congr hsame) x.item ?_
    rw [State.instance?_congr s hsame]
    exact hi
  · exact h.call hgrowing (analyst_orderly depth)
  · obtain ⟨later, hlater⟩ := h.request hgrowing r
    exact ⟨later, hlater, (hlater.remembers hgrowing).noted⟩

/-- `class Box<T> {}` and `fn same<T>(x: T) {}`. -/
def boxRequest : Request :=
  .tree
    { statements :=
        [.cls { node := ⟨.written 1, {}⟩, name := ⟨"Box", {}⟩, generics := [⟨"T", {}⟩] },
          .function
            { node := ⟨.written 2, {}⟩, name := ⟨"same", {}⟩, generics := [⟨"T", {}⟩]
              params := [{ node := ⟨.written 3, {}⟩, name := ⟨"x", {}⟩, ty := { form := .named [⟨"T", {}⟩] [] } }]
              body := some ⟨⟨.written 4, {}⟩, []⟩ }] }
    Session.rootName Session.rootPath ""

/-- A call for an instance of the class. -/
def boxOf (ty : Ty) : Instantiation := ⟨.cls, ⟨0⟩, [ty]⟩

/-- A call for an instance of the function. -/
def sameOf (ty : Ty) : Instantiation := ⟨.fn, ⟨1⟩, [ty]⟩

/-- First a box for numbers, then the function for numbers. -/
def boxThenSame : Analysis (ItemId × ItemId) := do
  let box ← (boxOf .int).run (analyst 8) {}
  let same ← (sameOf .int).run (analyst 8) {}
  return (box, same)

/-- Both are new items. Asked for again, they are the same ones, and nothing else happens. -/
theorem instances_memoised_box :
    ∃ box same s s', box ≠ same ∧
      (boxOf .int).run (analyst 8) {} (boxRequest.next ({} : Session).start) = .ok box s ∧
      (sameOf .int).run (analyst 8) {} s = .ok same s' ∧
      (boxOf .int).run (analyst 8) {} s' = .ok box s' ∧ (sameOf .int).run (analyst 8) {} s' = .ok same s' := by
  have hgrowing : ({} : Session).attributes.Growing := fun r hr => nomatch hr
  obtain ⟨earlier, hrequest, -⟩ := (instances_memoised hgrowing .start).2.2.2 boxRequest
  have hgiven : boxThenSame.run' (boxRequest.next ({} : Session).start) = some (⟨2⟩, ⟨5⟩) := by decide +kernel
  delta EStateM.run' EStateM.run at hgiven
  cases hrun : boxThenSame (boxRequest.next ({} : Session).start) with
  | error e s =>
    rw [hrun] at hgiven
    cases hgiven
  | ok p s =>
    rw [hrun] at hgiven
    cases hgiven
    obtain ⟨box, s₁, hbox, hrun⟩ := Analysis.of_bind_ok hrun
    obtain ⟨same, s₂, hsame, hpure⟩ := Analysis.of_bind_ok hrun
    cases hpure
    obtain ⟨later, h₁⟩ := (instances_memoised hgrowing hrequest).2.2.1 (boxOf .int) 8 {} _ _ hbox
    obtain ⟨later', h₂⟩ := (instances_memoised hgrowing h₁).2.2.1 (sameOf .int) 8 {} _ _ hsame
    refine ⟨_, _, s₁, s, by decide, hbox, hsame, ?_, ?_⟩
    · exact (instances_memoised hgrowing h₂).2.1 ⟨boxOf .int, _⟩ (by simp) _ _ _ (.refl _)
    · exact (instances_memoised hgrowing h₂).2.1 ⟨sameOf .int, _⟩ (by simp) _ _ _ (.refl _)

end SemanticAnalysis
