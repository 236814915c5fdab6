import SemanticAnalysis.Proofs.Analysis.Naming
import SemanticAnalysis.Proofs.Course.Requests
import SemanticAnalysis.Proofs.SymbolTable.Frame

/-!
# What lambdas capture

A use of a variable is noted from inside out, on every lambda up to the function that owns the variable or to
the first other function that is no lambda (`SymbolTable.capturers`).

1. Noting some uses puts exactly the variables used through a function into its list, each one once
   (`noteAll_ok`).
2. Sealing copies the list, and makes a holder with a member for each variable in it (`sealCaptures_ok`).
3. Nothing else in an analysis touches what a function refers to. So behind every request only lambdas refer to
   variables, to those of other functions and to each one once, and have copied those that they referred to first
   (`captures_inOrder`).

So a lambda captures what was noted on it before it is sealed. Two kinds of use are missed: those in a function
that is declared inside the lambda, and those that are noted later, in the fields of a generic class whose
instance waits until the function around the lambda is done.
-/

namespace SemanticAnalysis

/-- A use of a variable in a scope. -/
structure Use where
  item : ItemId
  scope : ScopeId

/-- Let a function refer to a variable. -/
def Function.refer (v : ItemId) (f : Function) : Function := { f with referenced := insertNew f.referenced v }

namespace SymbolTable

variable {t u w : SymbolTable} {i v owner : ItemId} {chain : List ScopeId} {uses : List Use}

/-! ## Who captures -/

def isLambda (t : SymbolTable) (i : ItemId) : Bool := (t.function? i).any (·.flags.lambda)

/-- The functions from inside out, up to the owner of a variable and as long as they are lambdas. -/
def capturers (t : SymbolTable) (owner : ItemId) (chain : List ScopeId) : List ItemId :=
  (chain.filterMap t.functionOwner?).takeWhile fun f => f != owner && t.isLambda f

/-- The lambdas that a use is noted on. -/
def capturersOf (t : SymbolTable) (use : Use) : List ItemId :=
  match (t.var? use.item).bind (·.owner) with
  | none => []
  | some owner => t.capturers owner (t.chain use.scope)

/-- The variables of the uses that are noted on a function. -/
def usedThrough (t : SymbolTable) (i : ItemId) (uses : List Use) : List ItemId :=
  (uses.filter fun use => (t.capturersOf use).contains i).map (·.item)

theorem mem_usedThrough :
    v ∈ t.usedThrough i uses ↔ ∃ use ∈ uses, use.item = v ∧ i ∈ t.capturersOf use := by
  simp only [usedThrough, List.mem_map, List.mem_filter, List.contains_iff_mem]
  refine exists_congr fun use => ?_
  rw [and_assoc, and_comm (a := i ∈ t.capturersOf use)]

theorem captureAlong_cons_of_none {s : ScopeId} (hs : t.functionOwner? s = none) :
    t.captureAlong v owner (s :: chain) = t.captureAlong v owner chain := by
  rw [captureAlong, hs]

theorem captureAlong_cons_of_some {s : ScopeId} {f : ItemId} (hs : t.functionOwner? s = some f) :
    t.captureAlong v owner (s :: chain) =
      if (f != owner && t.isLambda f) = true then
        (t.modifyFunction f (Function.refer v)).captureAlong v owner chain
      else t := by
  rw [captureAlong, hs]
  dsimp only
  by_cases howner : f = owner
  · simp [howner]
  · rw [if_neg (by simpa using howner)]
    cases hf : t.function? f with
    | none => simp [isLambda, hf]
    | some fn =>
      have hcaptures : (f != owner && t.isLambda f) = fn.flags.lambda := by simp [isLambda, hf, howner]
      rw [hcaptures]
      rfl

theorem capturers_cons_of_none {s : ScopeId} (hs : t.functionOwner? s = none) :
    t.capturers owner (s :: chain) = t.capturers owner chain := by
  rw [capturers, List.filterMap_cons_none hs, capturers]

theorem capturers_cons_of_some {s : ScopeId} {f : ItemId} (hs : t.functionOwner? s = some f) :
    t.capturers owner (s :: chain) =
      if (f != owner && t.isLambda f) = true then f :: t.capturers owner chain else [] := by
  rw [capturers, List.filterMap_cons_some hs, List.takeWhile_cons, capturers]

/-- The nesting, the variables and which functions are lambdas are as they were. -/
structure SameNesting (t u : SymbolTable) : Prop where
  scopes : u.scopes = t.scopes
  vars : ∀ i, u.var? i = t.var? i
  lambdas : ∀ i, u.isLambda i = t.isLambda i

namespace SameNesting

theorem refl (t : SymbolTable) : t.SameNesting t := ⟨rfl, fun _ => rfl, fun _ => rfl⟩

theorem trans (h : t.SameNesting u) (h' : u.SameNesting w) : t.SameNesting w where
  scopes := h'.scopes.trans h.scopes
  vars i := (h'.vars i).trans (h.vars i)
  lambdas i := (h'.lambdas i).trans (h.lambdas i)

theorem refer {f : ItemId} : t.SameNesting (t.modifyFunction f (Function.refer v)) where
  scopes := rfl
  vars i := t.var?_modifyFunction f i _
  lambdas j := by
    unfold isLambda
    rw [function?_modifyFunction]
    split
    · cases t.function? j <;> simp [Function.refer]
    · rfl

theorem captureAlong : t.SameNesting (t.captureAlong v owner chain) := by
  induction chain generalizing t with
  | nil => exact refl t
  | cons s outer ih =>
    cases hs : t.functionOwner? s with
    | none =>
      rw [captureAlong_cons_of_none hs]
      exact ih
    | some f =>
      rw [captureAlong_cons_of_some hs]
      split
      · exact refer.trans ih
      · exact refl t

theorem functionOwner?_eq (h : t.SameNesting u) : u.functionOwner? = t.functionOwner? := by
  funext s
  rw [functionOwner?, functionOwner?, scope?, scope?, h.scopes]

theorem capturers_eq (h : t.SameNesting u) : u.capturers owner chain = t.capturers owner chain := by
  unfold capturers
  rw [h.functionOwner?_eq, funext h.lambdas]

theorem capturersOf_eq (h : t.SameNesting u) (use : Use) : u.capturersOf use = t.capturersOf use := by
  have hchain : u.chain use.scope = t.chain use.scope :=
    chain_congr (fun s => by rw [scope?, scope?, h.scopes]) use.scope
  unfold capturersOf
  rw [h.vars]
  split
  · rfl
  · rw [h.capturers_eq, hchain]

theorem usedThrough_eq (h : t.SameNesting u) : u.usedThrough i uses = t.usedThrough i uses := by
  unfold usedThrough
  rw [funext h.capturersOf_eq]

end SameNesting

theorem refer_refer (v : ItemId) (f : Function) : (f.refer v).refer v = f.refer v := by
  have hmem : v ∈ insertNew f.referenced v := mem_insertNew.2 (.inr rfl)
  unfold Function.refer
  dsimp only
  generalize insertNew f.referenced v = vs at hmem
  unfold insertNew
  rw [if_pos (by simpa using hmem)]

/-- A use is noted on its capturers and nowhere else. -/
theorem function?_captureAlong : (t.captureAlong v owner chain).function? i =
    (t.function? i).map fun f => if i ∈ t.capturers owner chain then f.refer v else f := by
  induction chain generalizing t with
  | nil => simp [SymbolTable.captureAlong, capturers]
  | cons s outer ih =>
    cases hs : t.functionOwner? s with
    | none => rw [captureAlong_cons_of_none hs, ih, capturers_cons_of_none hs]
    | some f =>
      rw [captureAlong_cons_of_some hs, capturers_cons_of_some hs]
      split
      · have hrefer : t.SameNesting (t.modifyFunction f (Function.refer v)) := .refer
        rw [ih, hrefer.capturers_eq, function?_modifyFunction]
        by_cases hif : i = f
        · subst hif
          rw [if_pos rfl, Option.map_map]
          congr 1
          funext g
          by_cases hmem : i ∈ t.capturers owner outer <;> simp [hmem, refer_refer]
        · simp [hif]
      · simp

/-- What a variable is called and its type. -/
def labelled? (t : SymbolTable) (i : ItemId) : Option (String × Ty) :=
  (t.item? i).bind fun item => item.var?.map fun v => (item.name, v.ty)

theorem labelled?_modifyFunction (t : SymbolTable) (f : ItemId) (g : Function → Function) (i : ItemId) :
    (t.modifyFunction f g).labelled? i = t.labelled? i :=
  t.bind_modifyItem (fun item => by cases h : item.entity <;> simp [Item.var?, h]) f i

/-- All items are there, and are as they were. -/
def KeepsItems (t u : SymbolTable) : Prop := ∀ i item, t.item? i = some item → u.item? i = some item

theorem KeepsItems.addItem {item : Item} : t.KeepsItems (t.addItem item).2 := fun i old hi => by
  rw [item?_addItem, if_neg (Nat.ne_of_lt (lt_of_item? hi))]
  exact hi

theorem KeepsItems.bind_eq {α : Type} {q : Item → Option α} {a : α} (h : t.KeepsItems u)
    (hi : (t.item? i).bind q = some a) : (u.item? i).bind q = some a := by
  obtain ⟨item, hitem, hq⟩ := Option.bind_eq_some_iff.1 hi
  rw [h i item hitem, Option.bind_some, hq]

theorem KeepsItems.labelled?_eq (h : t.KeepsItems u) {label : String × Ty} (hi : t.labelled? i = some label) :
    u.labelled? i = some label := h.bind_eq hi

section Holder

variable {lambda holder : ItemId} {members : List ItemId} {m : ModuleId}

/-- Make a class that is the holder of a lambda; gives its scope too. -/
def openHolder (t : SymbolTable) (entry : Item) (own : ScopeId) : (ScopeId × ItemId) × SymbolTable :=
  let (inner, t) := t.newScope own .block
  let (holder, t) := t.addItem
    { name := entry.name ++ "$captures"
      scope := own
      module := entry.module
      visibility := .scopeOnly
      position := entry.position
      entity := .cls { scope := inner, flags := { structural := true } } }
  ((inner, holder), t.setOwner inner (.cls holder))

theorem keepsItems_openHolder (t : SymbolTable) (entry : Item) (own : ScopeId) :
    t.KeepsItems (t.openHolder entry own).2 := by
  intro j old hj
  have hitems : (t.newScope own .block).2.items = t.items := items_newScope ..
  have hold : (t.newScope own .block).2.item? j = some old := by rw [item?, hitems]; exact hj
  exact KeepsItems.addItem j old hold

theorem class?_openHolder (t : SymbolTable) (entry : Item) (own : ScopeId) :
    ∃ c, (t.openHolder entry own).2.class? (t.openHolder entry own).1.2 = some c := by
  exact ⟨_, congrArg (Option.bind · Item.class?) (item?_addItem_self ..)⟩

/-- List a holder with its lambda and in the module. -/
def hoistHolder (t : SymbolTable) (lambda holder : ItemId) (m : ModuleId) : SymbolTable :=
  (t.modifyItem lambda fun i => { i with privateHoisted := i.privateHoisted ++ [holder] }).modifyModule m fun m =>
    { m with hoisted := m.hoisted ++ [holder] }

/-- Give a holder its members, and give it to its lambda. -/
def fillHolder (t : SymbolTable) (lambda holder : ItemId) (members : List ItemId) : SymbolTable :=
  (t.modifyClass holder fun c => { c with members, isDetailed := true }).modifyFunction lambda fun f =>
    { f with captureHolder := some holder }

theorem bind_hoistHolder {α : Type} {q : Item → Option α}
    (hq : ∀ item hoisted, q { item with privateHoisted := hoisted } = q item) (t : SymbolTable) :
    ((t.hoistHolder lambda holder m).item? i).bind q = (t.item? i).bind q :=
  t.bind_modifyItem (fun item => hq item _) lambda i

theorem labelled?_fillHolder : (t.fillHolder lambda holder members).labelled? i = t.labelled? i := by
  have hcls : ∀ g, (t.modifyClass holder g).labelled? i = t.labelled? i := fun g =>
    t.bind_modifyItem (fun item => by cases h : item.entity <;> simp [Item.var?, h]) holder i
  rw [fillHolder, labelled?_modifyFunction, hcls]

theorem function?_fillHolder {f : Function} (hf : t.function? lambda = some f) :
    (t.fillHolder lambda holder members).function? lambda = some { f with captureHolder := some holder } := by
  rw [fillHolder, function?_modifyFunction, if_pos rfl, function?_modifyClass, hf]
  rfl

theorem class?_fillHolder {c : Class} (hc : t.class? holder = some c) :
    (t.fillHolder lambda holder members).class? holder = some { c with members, isDetailed := true } := by
  rw [fillHolder, class?_modifyFunction, class?_modifyClass, if_pos rfl, hc]
  rfl

end Holder

/-- The captures of a function are sealed: the variables that it refers to are copied, into the members of a
holder if there are any. -/
structure Sealed (t : SymbolTable) (f : Function) : Prop where
  copied : f.copied = f.referenced
  none_iff : f.captureHolder = none ↔ f.copied = []
  holder : ∀ h, f.captureHolder = some h →
    ∃ c, t.class? h = some c ∧ c.members.map t.labelled? = f.copied.map t.labelled?

end SymbolTable

namespace Analysis

open SymbolTable

variable {s : State} {lambda : ItemId} {f : Function} {entry : Item}

/-! ## Noting uses -/

/-- Note a use. -/
def note (use : Use) : Analysis Unit := noteCapture use.item use.scope

theorem note_ok (s : State) (use : Use) : ∃ t, note use s = .ok ⟨⟩ { s with table := t } ∧
    s.table.SameNesting t ∧ ∀ i, t.function? i =
      (s.table.function? i).map fun f => if i ∈ s.table.capturersOf use then f.refer use.item else f := by
  have hlook : look (·.var? use.item) s = .ok (s.table.var? use.item) s := rfl
  unfold note noteCapture
  rw [bind_ok hlook]
  cases howner : (s.table.var? use.item).bind (·.owner) with
  | none => exact ⟨s.table, rfl, .refl _, fun i => by simp [SymbolTable.capturersOf, howner]⟩
  | some owner =>
    refine ⟨_, rfl, .captureAlong, fun i => ?_⟩
    rw [SymbolTable.function?_captureAlong, SymbolTable.capturersOf, howner]

/-- Noting some uses lets each function refer to the variables of those that are noted on it, in order. -/
theorem noteAll_ok (uses : List Use) (s : State) : ∃ t, uses.forM note s = .ok ⟨⟩ { s with table := t } ∧
    s.table.SameNesting t ∧ ∀ i, t.function? i = (s.table.function? i).map fun f =>
      { f with referenced := (s.table.usedThrough i uses).foldl insertNew f.referenced } := by
  induction uses generalizing s with
  | nil => exact ⟨s.table, rfl, .refl _, fun i => by simp [SymbolTable.usedThrough]⟩
  | cons use rest ih =>
    obtain ⟨t, hnote, hsame, hfirst⟩ := note_ok s use
    obtain ⟨u, hrest, hsame', hothers⟩ := ih { s with table := t }
    refine ⟨u, (bind_ok hnote).trans hrest, hsame.trans hsame', fun i => ?_⟩
    rw [hothers, hfirst, hsame.usedThrough_eq, Option.map_map]
    congr 1
    funext f
    by_cases hmem : i ∈ s.table.capturersOf use <;>
      simp [SymbolTable.usedThrough, hmem, Function.refer]

/-! ## Sealing -/

section Members

variable {own : ScopeId} {m : ModuleId} {position : Position} {vs : List ItemId}

/-- A captured variable gets a member of its name and type. -/
theorem addCapturedMember_ok {v : ItemId} {label : String × Ty} (hv : s.table.labelled? v = some label) :
    ∃ i t, addCapturedMember own m position v s = .ok (some i) { s with table := t } ∧
      s.table.KeepsItems t ∧ t.labelled? i = some label := by
  obtain ⟨entry, hentry, hlabel⟩ := Option.bind_eq_some_iff.1 hv
  obtain ⟨x, hx, rfl⟩ := Option.map_eq_some_iff.1 hlabel
  have hitem : look (·.item? v) s = .ok (some entry) s := congrArg (EStateM.Result.ok · s) hentry
  have hvar : look (·.var? v) s = .ok (some x) s := by
    show EStateM.Result.ok (s.table.var? v) s = _
    rw [SymbolTable.var?, hentry, Option.bind_some, hx]
  unfold addCapturedMember
  rw [bind_ok hitem, bind_ok hvar]
  let made : Item := { name := entry.name, scope := own, module := m, position, entity := .var (.member x.ty) }
  refine ⟨(s.table.addItem made).1, (s.table.addItem made).2, rfl, .addItem, ?_⟩
  rw [SymbolTable.labelled?, item?_addItem_self]
  rfl

theorem addCapturedMembers_ok (hvs : ∀ v ∈ vs, ∃ label, s.table.labelled? v = some label) :
    ∃ members t, vs.filterMapM (addCapturedMember own m position) s = .ok members { s with table := t } ∧
      s.table.KeepsItems t ∧ members.map t.labelled? = vs.map s.table.labelled? := by
  induction vs generalizing s with
  | nil => exact ⟨[], s.table, rfl, fun _ _ h => h, rfl⟩
  | cons v rest ih =>
    obtain ⟨label, hlabel⟩ := hvs v List.mem_cons_self
    obtain ⟨i, t, hadd, hkept, hi⟩ : ∃ i t, addCapturedMember own m position v s =
        .ok (some i) { s with table := t } ∧ s.table.KeepsItems t ∧ t.labelled? i = some label :=
      addCapturedMember_ok hlabel
    have hrest : ∀ w ∈ rest, ∃ label, s.table.labelled? w = some label := fun w hw =>
      hvs w (List.mem_cons_of_mem _ hw)
    obtain ⟨members, u, hmembers, hkept', hlabels⟩ := ih (s := { s with table := t }) fun w hw => by
      obtain ⟨label, hw⟩ := hrest w hw
      exact ⟨label, hkept.labelled?_eq hw⟩
    refine ⟨i :: members, u, ?_, fun j item hj => hkept' j item (hkept j item hj), ?_⟩
    · rw [List.filterMapM_cons, bind_ok hadd]
      dsimp only
      rw [bind_ok hmembers]
      rfl
    · have hsame : rest.map t.labelled? = rest.map s.table.labelled? := List.map_congr_left fun w hw => by
        obtain ⟨label, hw⟩ := hrest w hw
        rw [hkept.labelled?_eq hw, hw]
      rw [List.map_cons, List.map_cons, hlabels, hsame, hkept'.labelled?_eq hi, hlabel]

end Members

theorem makeCaptureHolder_eq (s : State) (lambda : ItemId) (entry : Item) (own : ScopeId) (captured : List ItemId) :
    makeCaptureHolder lambda entry own captured s = (do
      let ((inner, holder), _) := s.table.openHolder entry own
      let members ← captured.filterMapM (addCapturedMember inner entry.module entry.position)
      change fun t => (t.fillHolder lambda holder members).hoistHolder lambda holder entry.module)
        { s with table := (s.table.openHolder entry own).2 } := rfl

theorem makeCaptureHolder_ok {captured : List ItemId} (entry : Item) (own : ScopeId)
    (hf : s.table.function? lambda = some f)
    (hcaptured : ∀ v ∈ captured, ∃ label, s.table.labelled? v = some label) :
    ∃ t holder c, makeCaptureHolder lambda entry own captured s = .ok ⟨⟩ { s with table := t } ∧
      t.function? lambda = some { f with captureHolder := some holder } ∧ t.class? holder = some c ∧
      c.members.map t.labelled? = captured.map t.labelled? := by
  have hkept := keepsItems_openHolder s.table entry own
  obtain ⟨c, hholder⟩ := class?_openHolder s.table entry own
  rw [makeCaptureHolder_eq]
  generalize s.table.openHolder entry own = opened at *
  obtain ⟨⟨inner, holder⟩, t₁⟩ := opened
  dsimp only at *
  obtain ⟨members, t₂, hmembers, hkept', hcopies⟩ : ∃ members t₂,
      captured.filterMapM (addCapturedMember inner entry.module entry.position) { s with table := t₁ } =
        .ok members { s with table := t₂ } ∧
      t₁.KeepsItems t₂ ∧ members.map t₂.labelled? = captured.map t₁.labelled? :=
    addCapturedMembers_ok fun v hv => by
      obtain ⟨label, hlabel⟩ := hcaptured v hv
      exact ⟨label, hkept.labelled?_eq hlabel⟩
  have hlabels : captured.map t₂.labelled? = captured.map t₁.labelled? := List.map_congr_left fun v hv => by
    obtain ⟨label, hlabel⟩ := hcaptured v hv
    rw [hkept'.labelled?_eq (hkept.labelled?_eq hlabel), hkept.labelled?_eq hlabel]
  have hfilled : ∀ i, ((t₂.fillHolder lambda holder members).hoistHolder lambda holder entry.module).labelled? i =
      t₂.labelled? i := fun i => (bind_hoistHolder (fun _ _ => rfl) _).trans labelled?_fillHolder
  have hlambda : t₂.function? lambda = some f := hkept'.bind_eq (hkept.bind_eq hf)
  rw [bind_ok hmembers]
  refine ⟨_, holder, _, rfl, (bind_hoistHolder (fun _ _ => rfl) _).trans (function?_fillHolder hlambda),
    (bind_hoistHolder (fun _ _ => rfl) _).trans (class?_fillHolder (hkept'.bind_eq hholder)), ?_⟩
  dsimp only
  rw [funext hfilled, hcopies, hlabels]

/-- Sealing a lambda copies what it refers to. -/
theorem sealCaptures_ok (hf : s.table.function? lambda = some f) (hopen : f.captureHolder = none)
    (hvars : ∀ v ∈ f.referenced, ∃ label, s.table.labelled? v = some label) :
    ∃ t f', sealCaptures lambda s = .ok ⟨⟩ { s with table := t } ∧ t.function? lambda = some f' ∧
      f'.referenced = f.referenced ∧ t.Sealed f' := by
  obtain ⟨entry, hentry, hfn⟩ := Option.bind_eq_some_iff.1 hf
  have hitem : look (·.item? lambda) s = .ok (some entry) s := congrArg (EStateM.Result.ok · s) hentry
  have hfunction : look (·.function? lambda) s = .ok (some f) s := congrArg (EStateM.Result.ok · s) hf
  have hcopy : change (·.modifyFunction lambda fun f => { f with copied := f.referenced }) s = .ok ⟨⟩
      { s with table := s.table.modifyFunction lambda fun f => { f with copied := f.referenced } } := rfl
  have hcopied : (s.table.modifyFunction lambda fun f => { f with copied := f.referenced }).function? lambda =
      some { f with copied := f.referenced } := by
    rw [function?_modifyFunction, if_pos rfl, hf]
    rfl
  have hlabels : ∀ v ∈ f.referenced, ∃ label,
      (s.table.modifyFunction lambda fun f => { f with copied := f.referenced }).labelled? v = some label := by
    intro v hv
    obtain ⟨label, hlabel⟩ := hvars v hv
    exact ⟨label, (labelled?_modifyFunction ..).trans hlabel⟩
  unfold sealCaptures
  rw [bind_ok hitem, bind_ok hfunction]
  dsimp only
  rw [if_neg (by simp [hopen]), bind_ok hcopy]
  generalize s.table.modifyFunction lambda (fun f => { f with copied := f.referenced }) = t at *
  by_cases hempty : f.referenced = []
  · refine ⟨t, _, by rw [if_pos (by simp [hempty])]; rfl, hcopied, rfl, rfl, ?_, ?_⟩
    · exact ⟨fun _ => hempty, fun _ => hopen⟩
    · intro holder hholder
      cases hopen.symm.trans hholder
  · rw [if_neg (by simpa using hempty)]
    obtain ⟨u, holder, c, hmake, hsealed, hc, hmembers⟩ :=
      makeCaptureHolder_ok (s := { s with table := t }) entry f.scope hcopied hlabels
    refine ⟨u, _, hmake, hsealed, rfl, rfl, ⟨nofun, fun h => absurd h hempty⟩, ?_⟩
    rintro _ ⟨⟩
    exact ⟨c, hc, hmembers⟩

/-! ## What is captured -/

/-- What is noted on a function is a variable. -/
theorem exists_labelled?_of_capturersOf {t : SymbolTable} {use : Use} {i : ItemId} (h : i ∈ t.capturersOf use) :
    ∃ label, t.labelled? use.item = some label := by
  unfold capturersOf at h
  cases hvar : t.var? use.item with
  | none => simp [hvar] at h
  | some x =>
    obtain ⟨item, hitem, hx⟩ := Option.bind_eq_some_iff.1 hvar
    exact ⟨(item.name, x.ty), by rw [labelled?, hitem, Option.bind_some, hx]; rfl⟩

/-- **Captures.** Whatever variables are used and wherever, a lambda that is sealed then refers to those whose
use is noted on it, to each one once, and has captured just these. -/
theorem captures_exact (uses : List Use) (hf : s.table.function? lambda = some f) (hfresh : f.referenced = [])
    (hopen : f.captureHolder = none) :
    ∃ t f', (do
        uses.forM note
        sealCaptures lambda) s = .ok ⟨⟩ { s with table := t } ∧ t.function? lambda = some f' ∧
      f'.referenced.Nodup ∧
      (∀ v, v ∈ f'.referenced ↔ ∃ use ∈ uses, use.item = v ∧ lambda ∈ s.table.capturersOf use) ∧
      t.Sealed f' := by
  obtain ⟨t₁, hnotes, hsame, hfunctions⟩ := noteAll_ok uses s
  let captured := (s.table.usedThrough lambda uses).foldl insertNew []
  have hnoted : t₁.function? lambda = some { f with referenced := captured } := by
    rw [hfunctions, hf, Option.map_some, hfresh]
  have hmem : ∀ v, v ∈ captured ↔ ∃ use ∈ uses, use.item = v ∧ lambda ∈ s.table.capturersOf use := by
    intro v
    rw [mem_foldl_insertNew, mem_usedThrough]
    simp
  have hlabels : ∀ v ∈ captured, ∃ label, t₁.labelled? v = some label := by
    intro v hv
    obtain ⟨use, -, rfl, hcaptures⟩ := (hmem v).1 hv
    exact exists_labelled?_of_capturersOf (hsame.capturersOf_eq use ▸ hcaptures)
  obtain ⟨t, f', hseal, hf', hreferenced, hsealed⟩ :=
    sealCaptures_ok (s := { s with table := t₁ }) hnoted hopen hlabels
  refine ⟨t, f', (bind_ok hnotes).trans hseal, hf', ?_, ?_, hsealed⟩
  · rw [hreferenced]
    exact nodup_foldl_insertNew List.nodup_nil _
  · rw [hreferenced]
    exact hmem

end Analysis

/-! ## A lambda and its uses -/

/-- `fn outer() { var n: int = 1; lambda () { .. } }`. -/
def aroundLambda (inside : List Stmt) : Root :=
  { statements := [.function
      { node := ⟨.written 1, {}⟩, name := ⟨"outer", {}⟩
        body := some ⟨⟨.written 2, {}⟩,
          [.declare
            { node := ⟨.written 3, {}⟩, name := ⟨"n", {}⟩, ty := some { form := .native .int }
              initializer := some (.literal ⟨.written 4, {}⟩ (.int 1)) },
           .expr ⟨.written 5, {}⟩ (.lambda ⟨.written 6, {}⟩ [] none ⟨⟨.written 7, {}⟩, inside⟩)]⟩ }] }

/-- The state behind the analysis of `fn outer() { var n: int = 1; lambda () {} }`. -/
def lambdaState : State := (({} : Session).analyseTree (aroundLambda [])).state

/-- The variable is used twice in the lambda, and captured once. -/
theorem captures_exact_twice : ∃ t f, (do
      ([⟨⟨1⟩, ⟨3⟩⟩, ⟨⟨1⟩, ⟨3⟩⟩] : List Use).forM Analysis.note
      Analysis.sealCaptures ⟨2⟩) lambdaState = .ok ⟨⟩ { lambdaState with table := t } ∧
    t.function? ⟨2⟩ = some f ∧ f.referenced.Nodup ∧ ⟨1⟩ ∈ f.referenced ∧ t.Sealed f := by
  have hopen : (lambdaState.table.function? ⟨2⟩).map (fun f => (f.referenced, f.captureHolder)) = some ([], none) := by
    decide +kernel
  have hnoted : ⟨2⟩ ∈ lambdaState.table.capturersOf ⟨⟨1⟩, ⟨3⟩⟩ := by decide +kernel
  obtain ⟨g, hlambda, hg⟩ := Option.map_eq_some_iff.1 hopen
  obtain ⟨hempty, hnone⟩ := Prod.mk.inj hg
  obtain ⟨t, f, hrun, hf, hnodup, hmem, hsealed⟩ :=
    Analysis.captures_exact [⟨⟨1⟩, ⟨3⟩⟩, ⟨⟨1⟩, ⟨3⟩⟩] hlambda hempty hnone
  exact ⟨t, f, hrun, hf, hnodup, (hmem _).2 ⟨_, List.mem_cons_self, rfl, hnoted⟩, hsealed⟩

/-! ## Over a session -/

theorem capturesInOrder_start (session : Session) : session.start.table.CapturesInOrder := by
  intro i f hf
  obtain ⟨item, hitem, -⟩ := Option.bind_eq_some_iff.1 hf
  exact absurd (SymbolTable.lt_of_item? hitem) (Nat.not_lt_zero _)

/-- **Captures in order.** Whatever is asked of a session whose callbacks are loyal, only lambdas refer to variables,
to those of other functions and to each one once, and what they have copied is what they referred to first. -/
theorem captures_inOrder {session : Session} (hgrowing : session.attributes.Growing)
    (hloyal : session.attributes.Loyal) (requests : List Request) :
    (session.after requests).table.CapturesInOrder := by
  refine Session.after_induction (P := fun s => s.table.CapturesInOrder) hgrowing (capturesInOrder_start session)
    (fun s s' hattributes _ hhandles hs => ?_) requests
  exact (hhandles.conserves (hattributes ▸ hloyal)).captures hs

/-! ## Uses that are missed -/

/-- `n`. -/
def captiveUse : Expr := .name ⟨.written 20, {}⟩ ⟨"n", {}⟩ []

/-- `class L { f: int = n; }  var x: L;`, where the class may have generic parameters. -/
def fieldUse (generics : List Ident) (arguments : List TypeExpr) : List Stmt :=
  [.cls
    { node := ⟨.written 8, {}⟩, name := ⟨"L", {}⟩, generics
      members := [.field
        { node := ⟨.written 9, {}⟩, name := ⟨"f", {}⟩, ty := some { form := .native .int }
          initializer := some captiveUse }] },
   .declare
    { node := ⟨.written 10, {}⟩, name := ⟨"x", {}⟩, ty := some { form := .named [⟨"L", {}⟩] arguments } }]

/-- `fn inner() { n; }`. -/
def functionUse : List Stmt :=
  [.function
    { node := ⟨.written 8, {}⟩, name := ⟨"inner", {}⟩
      body := some ⟨⟨.written 9, {}⟩, [.expr ⟨.written 10, {}⟩ captiveUse]⟩ }]

/-- What comes of a use in a lambda: what it refers to, and what the lambda refers to and has captured. -/
structure CaptureReport where
  target : Option ItemId
  referenced : List ItemId
  copied : List ItemId
deriving DecidableEq

/-- The report on an analysis that ends without an error. -/
def captureReport (inside : List Stmt) : Option CaptureReport :=
  let outcome := ({} : Session).analyseTree (aroundLambda inside)
  match outcome.root, outcome.state.table.function? ⟨2⟩ with
  | .ok _, some f => some
    { target := outcome.state.details.entries.findSome? fun (key, detail) =>
        match detail with
        | .name d => if key.node = .written 20 then d.target else none
        | _ => none
      referenced := f.referenced
      copied := f.copied }
  | _, _ => none

/-- The field of a generic class is seen too late, and the function not at all. In the statement itself, and as
the field of a class that is not generic, the same use is captured. -/
theorem captures_missed :
    captureReport [.expr ⟨.written 8, {}⟩ captiveUse] = some ⟨some ⟨1⟩, [⟨1⟩], [⟨1⟩]⟩ ∧
      captureReport (fieldUse [] []) = some ⟨some ⟨1⟩, [⟨1⟩], [⟨1⟩]⟩ ∧
      captureReport (fieldUse [⟨"T", {}⟩] [{ form := .native .int }]) = some ⟨some ⟨1⟩, [⟨1⟩], []⟩ ∧
      captureReport functionUse = some ⟨some ⟨1⟩, [], []⟩ := by
  decide +kernel

end SemanticAnalysis
