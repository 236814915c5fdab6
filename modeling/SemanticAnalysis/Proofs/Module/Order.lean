import Mathlib.Logic.Relation
import Mathlib.Tactic.SplitIfs
import SemanticAnalysis.Proofs.Course.Programs
import SemanticAnalysis.Proofs.SymbolTable.Lookup

/-!
# Dependencies come before their dependents

A module is filed as analysed when the analysis of its code is over. Until then it is on the stack, and
everything it is linked to has been filed. From this the modules of a program are in topological order:

1. `State.Ordered` says what holds of links, filed modules and the stack at all times.
2. Every step of a course keeps it (`Course.ordered`): a link goes from a module on the stack to a filed
   one, and a module is filed behind all that it is linked to.
3. A session starts with nothing, so the modules it files are in order (`ordered_start`).

A circular import is an error before any link is made, so none of this depends on whether errors are
collected.
-/

namespace SemanticAnalysis

/-! ## Links -/

namespace SymbolTable

variable {t u : SymbolTable}

/-- The modules that a module is linked to. -/
def dependencies (t : SymbolTable) (m : ModuleId) : List ModuleId := (t.links m).1

/-- The modules that are linked to a module. -/
def dependents (t : SymbolTable) (m : ModuleId) : List ModuleId := (t.links m).2

/-- A new module comes without links. -/
theorem links_newModule (t : SymbolTable) (name path package : String) :
    (t.newModule name path package).2.links = t.links := by
  funext m
  unfold links
  rw [module?_newModule]
  split
  · rename_i hm
    have hnone : t.module? m = none := Array.getElem?_eq_none (Nat.le_of_eq hm.symm)
    rw [hnone]
    rfl
  · rfl

end SymbolTable

/-- A link is noted at both ends. -/
theorem State.links_linked {s : State} {m d : ModuleId} (hm : (s.table.module? m).isSome = true)
    (hd : (s.table.module? d).isSome = true) (x : ModuleId) :
    (s.linked m d).table.links x =
      (if x = m then insertNew (s.table.dependencies x) d else s.table.dependencies x,
        if x = d then insertNew (s.table.dependents x) m else s.table.dependents x) := by
  show ((s.table.modifyModule m _).modifyModule d _).links x = _
  unfold SymbolTable.dependencies SymbolTable.dependents SymbolTable.links
  rw [SymbolTable.module?_modifyModule, SymbolTable.module?_modifyModule]
  cases hx : s.table.module? x with
  | none =>
    have hxm : x ≠ m := by
      rintro rfl
      rw [hx] at hm
      cases hm
    have hxd : x ≠ d := by
      rintro rfl
      rw [hx] at hd
      cases hd
    simp [hxm, hxd]
  | some md =>
    split_ifs <;> rfl

/-! ## Order -/

/-- At all times, modules are filed or on the stack but not both, links go to filed modules and are
noted at both ends, and no filed module is linked to itself or to one that was filed later. -/
structure State.Ordered (s : State) : Prop where
  distinct : (s.analysed ++ s.moduleStack).Nodup
  present : ∀ m ∈ s.analysed ++ s.moduleStack, (s.table.module? m).isSome = true
  filed : ∀ m, ∀ d ∈ s.table.dependencies m, d ∈ s.analysed
  irreflexive : ∀ m, m ∉ s.table.dependencies m
  backward : s.analysed.Pairwise fun m d => d ∉ s.table.dependencies m
  both : ∀ m d, d ∈ s.table.dependencies m ↔ m ∈ s.table.dependents d
  nodup : ∀ m, (s.table.dependencies m).Nodup ∧ (s.table.dependents m).Nodup

namespace State.Ordered

variable {s s' : State}

/-- A step that keeps the links and the filed modules. -/
theorem of_links (h : s.Ordered) (hlinks : s'.table.links = s.table.links)
    (hanalysed : s'.analysed = s.analysed) (hdistinct : (s.analysed ++ s'.moduleStack).Nodup)
    (hpresent : ∀ m ∈ s.analysed ++ s'.moduleStack, (s'.table.module? m).isSome = true) :
    s'.Ordered := by
  have hdependencies : s'.table.dependencies = s.table.dependencies := by
    funext m
    exact congrArg Prod.fst (congrFun hlinks m)
  have hdependents : s'.table.dependents = s.table.dependents := by
    funext m
    exact congrArg Prod.snd (congrFun hlinks m)
  constructor
  · rwa [hanalysed]
  · rwa [hanalysed]
  · rw [hdependencies, hanalysed]
    exact h.filed
  · rw [hdependencies]
    exact h.irreflexive
  · rw [hdependencies, hanalysed]
    exact h.backward
  · rw [hdependencies, hdependents]
    exact h.both
  · rw [hdependencies, hdependents]
    exact h.nodup

theorem ordinary (h : s.Ordered) (hstep : s.Ordinary s') (hd : s.attributes.Steady) : s'.Ordered := by
  have hanchors := hstep.anchors hd
  refine h.of_links hanchors.links hstep.analysed_eq ?_ fun m hm => ?_
  · rw [hstep.moduleStack]
    exact h.distinct
  · rw [hstep.moduleStack] at hm
    exact hanchors.modules m (h.present m hm)

theorem leaving (h : s.Ordered) : s.left.Ordered := by
  have hsub : (s.analysed ++ s.left.moduleStack).Sublist (s.analysed ++ s.moduleStack) :=
    (List.drop_sublist 1 s.moduleStack).append_left _
  exact h.of_links rfl rfl (h.distinct.sublist hsub) fun m hm => h.present m (hsub.subset hm)

/-- A new module has no links and goes on the stack. -/
theorem entering (h : s.Ordered) (name path package : String) :
    (s.entered name path package).Ordered := by
  have hnew : s.nextModule ∉ s.analysed ++ s.moduleStack := by
    intro hmem
    have hsome := h.present s.nextModule hmem
    have hnone : s.table.module? s.nextModule = none := Array.getElem?_eq_none (Nat.le_refl _)
    rw [hnone] at hsome
    cases hsome
  have hperm : (s.analysed ++ s.nextModule :: s.moduleStack).Perm
      (s.nextModule :: (s.analysed ++ s.moduleStack)) := List.perm_middle
  refine h.of_links (SymbolTable.links_newModule ..) rfl ?_ fun m hm => ?_
  · exact hperm.nodup_iff.2 (List.nodup_cons.2 ⟨hnew, h.distinct⟩)
  · show ((s.table.newModule name path package).2.module? m).isSome = true
    rcases List.mem_cons.1 (hperm.mem_iff.1 hm) with rfl | hold
    · rw [SymbolTable.module?_newModule, if_pos (by rfl)]
      rfl
    · exact SymbolTable.Persists.newModule.shelters.modules m (h.present m hold)

theorem linked (h : s.Ordered) {m d : ModuleId} (hm : m ∈ s.moduleStack) (hd : d ∈ s.analysed) :
    (s.linked m d).Ordered := by
  have hlinks := State.links_linked (h.present m (List.mem_append_right _ hm))
    (h.present d (List.mem_append_left _ hd))
  have hne : ∀ x ∈ s.analysed, x ≠ m := fun x hx =>
    (List.nodup_append.1 h.distinct).2.2 x hx m hm
  have hdependencies : ∀ x y, y ∈ (s.linked m d).table.dependencies x ↔
      y ∈ s.table.dependencies x ∨ x = m ∧ y = d := by
    intro x y
    rw [SymbolTable.dependencies, hlinks]
    by_cases hx : x = m <;> simp [hx, mem_insertNew]
  have hdependents : ∀ x y, x ∈ (s.linked m d).table.dependents y ↔
      x ∈ s.table.dependents y ∨ x = m ∧ y = d := by
    intro x y
    rw [SymbolTable.dependents, hlinks]
    by_cases hy : y = d <;> simp [hy, mem_insertNew]
  constructor
  · exact h.distinct
  · exact fun x hx => (s.persists_linked m d).shelters.modules x (h.present x hx)
  · intro x y hy
    rcases (hdependencies x y).1 hy with hold | ⟨-, rfl⟩
    · exact h.filed x y hold
    · exact hd
  · intro x hx
    rcases (hdependencies x x).1 hx with hold | ⟨rfl, hxd⟩
    · exact h.irreflexive x hold
    · exact hne d hd hxd.symm
  · refine List.Pairwise.imp_of_mem ?_ h.backward
    intro x y hx _ hold hnew
    rcases (hdependencies x y).1 hnew with hlink | ⟨rfl, -⟩
    · exact hold hlink
    · exact hne x hx rfl
  · intro x y
    rw [hdependencies, hdependents, h.both x y]
  · intro x
    rw [SymbolTable.dependencies, SymbolTable.dependents, hlinks]
    constructor
    · dsimp only
      split
      · exact nodup_insertNew (h.nodup x).1 d
      · exact (h.nodup x).1
    · dsimp only
      split
      · exact nodup_insertNew (h.nodup x).2 m
      · exact (h.nodup x).2

/-- A module is filed behind everything it is linked to. -/
theorem filing (h : s.Ordered) {root : AnalysedRoot}
    (hpresent : (s.table.module? root.module).isSome = true)
    (hnew : root.module ∉ s.analysed ++ s.moduleStack) : (s.filed root).Ordered := by
  have hanalysed := State.analysed_filed s root
  have hperm : ((s.filed root).analysed ++ s.moduleStack).Perm
      (root.module :: (s.analysed ++ s.moduleStack)) := by
    rw [hanalysed, List.append_assoc]
    exact List.perm_middle
  constructor
  · exact hperm.nodup_iff.2 (List.nodup_cons.2 ⟨hnew, h.distinct⟩)
  · intro m hm
    rcases List.mem_cons.1 (hperm.mem_iff.1 hm) with rfl | hold
    · exact hpresent
    · exact h.present m hold
  · intro m d hd
    rw [hanalysed]
    exact List.mem_append_left _ (h.filed m d hd)
  · exact h.irreflexive
  · rw [hanalysed, List.pairwise_append]
    refine ⟨h.backward, List.pairwise_singleton _ _, fun m _ d hd hlink => ?_⟩
    rw [List.mem_singleton.1 hd] at hlink
    exact hnew (List.mem_append_left _ (h.filed m _ hlink))
  · exact h.both
  · exact h.nodup

end State.Ordered

/-- **Every course keeps the order.** -/
theorem Course.ordered {s s' : State} (h : Course s s') (hd : s.attributes.Steady)
    (hs : s.Ordered) : s'.Ordered := by
  induction h with
  | ordinary h => exact hs.ordinary h hd
  | trans h _ ih ih' => exact ih' (h.attributes_eq ▸ hd) (ih hd hs)
  | @call s opened _ _ _ _ _ hopens _ _ ih =>
    have hopened := hs.ordinary hopens.ordinary hd
    have hattributes : opened.attributes = s.attributes := hopens.ordinary.attributes
    exact ih (hattributes ▸ hd) (hopened.of_links rfl rfl hopened.distinct hopened.present)
  | link h => exact hs.linked (h hd).1 (h hd).2
  | loads _ => exact hs.of_links rfl rfl hs.distinct hs.present
  | abandoned _ ih => exact (ih hd (hs.entering ..)).leaving
  | @analysed s s' s'' name path package frame root h hleft ih =>
    have hend := ih hd (hs.entering ..)
    have hstack : s'.moduleStack = s.nextModule :: s.moduleStack := h.moduleStack_eq
    have hattributes : s'.left.attributes = s.attributes := h.attributes_eq
    have hordered := hend.leaving.ordinary hleft (hattributes ▸ hd)
    refine hordered.filing ?_ ?_
    · have hpresent : (s'.left.table.module? s.nextModule).isSome = true := by
        refine hend.present s.nextModule (List.mem_append_right _ ?_)
        rw [hstack]
        exact List.mem_cons_self
      exact (hleft.anchors (hattributes ▸ hd)).modules _ hpresent
    · have hperm : (s'.analysed ++ s'.moduleStack).Perm
          (s.nextModule :: (s'.analysed ++ s.moduleStack)) := by
        rw [hstack]
        exact List.perm_middle
      rw [hleft.analysed_eq, hleft.moduleStack]
      show s.nextModule ∉ s'.analysed ++ s'.moduleStack.drop 1
      rw [hstack]
      exact (List.nodup_cons.1 (hperm.nodup_iff.1 hend.distinct)).1

/-! ## Programs -/

/-- The modules of a program are listed in topological order: none twice, the root last, and each one
behind its dependencies. Links are noted at both ends, once, and never lead back. -/
structure Outcome.Topological (o : Outcome) (root : ModuleId) : Prop where
  nodup : o.modules.Nodup
  last : o.modules.getLast? = some root
  present : ∀ m ∈ o.modules, (o.state.table.module? m).isSome = true
  before : ∀ m ∈ o.modules, ∀ d ∈ o.state.table.dependencies m,
    ∃ earlier later, o.modules = earlier ++ m :: later ∧ d ∈ earlier
  both : ∀ m d, d ∈ o.state.table.dependencies m ↔ m ∈ o.state.table.dependents d
  once : ∀ m, (o.state.table.dependencies m).Nodup ∧ (o.state.table.dependents m).Nodup
  acyclic : ∀ m, ¬ Relation.TransGen (fun m d => d ∈ o.state.table.dependencies m) m m

namespace State.Ordered

variable {s : State}

theorem exists_earlier (h : s.Ordered) {m d : ModuleId} (hm : m ∈ s.analysed)
    (hd : d ∈ s.table.dependencies m) :
    ∃ earlier later, s.analysed = earlier ++ m :: later ∧ d ∈ earlier := by
  obtain ⟨earlier, later, hsplit⟩ := List.append_of_mem hm
  have hfiled := h.filed m d hd
  have hbackward := h.backward
  rw [hsplit, List.mem_append, List.mem_cons] at hfiled
  rw [hsplit, List.pairwise_append, List.pairwise_cons] at hbackward
  refine ⟨earlier, later, hsplit, hfiled.resolve_right ?_⟩
  rintro (rfl | hlater)
  · exact h.irreflexive d hd
  · exact hbackward.2.1.1 d hlater hd

theorem idxOf_lt (h : s.Ordered) {m d : ModuleId} (hm : m ∈ s.analysed)
    (hd : d ∈ s.table.dependencies m) : s.analysed.idxOf d < s.analysed.idxOf m := by
  obtain ⟨earlier, later, hsplit, hearlier⟩ := h.exists_earlier hm hd
  have hdistinct := (List.nodup_append.1 h.distinct).1
  have hnot : m ∉ earlier := by
    rw [hsplit] at hdistinct
    exact fun hmem => (List.nodup_append.1 hdistinct).2.2 m hmem m List.mem_cons_self rfl
  rw [hsplit, List.idxOf_append_of_mem hearlier, List.idxOf_append_of_notMem hnot]
  exact Nat.lt_of_lt_of_le (List.idxOf_lt_length_iff.2 hearlier) (Nat.le_add_right _ _)

/-- Along links, modules were filed earlier and earlier. -/
theorem acyclic (h : s.Ordered) (m : ModuleId) :
    ¬ Relation.TransGen (fun m d => d ∈ s.table.dependencies m) m m := by
  have hpath : ∀ {m d : ModuleId}, m ∈ s.analysed →
      Relation.TransGen (fun m d => d ∈ s.table.dependencies m) m d →
      d ∈ s.analysed ∧ s.analysed.idxOf d < s.analysed.idxOf m := by
    intro m d hm hpath
    induction hpath with
    | single hd => exact ⟨h.filed _ _ hd, h.idxOf_lt hm hd⟩
    | tail _ hd ih => exact ⟨h.filed _ _ hd, Nat.lt_trans (h.idxOf_lt ih.1 hd) ih.2⟩
  intro hcycle
  obtain ⟨d, -, hd⟩ := Relation.TransGen.tail'_iff.1 hcycle
  exact Nat.lt_irrefl _ (hpath (h.filed d m hd) hcycle).2

theorem topological {o : Outcome} {root : ModuleId} (h : o.state.Ordered)
    (hlast : o.state.analysed.getLast? = some root) : o.Topological root where
  nodup := (List.nodup_append.1 h.distinct).1
  last := hlast
  present m hm := h.present m (List.mem_append_left _ hm)
  before _ hm _ hd := h.exists_earlier hm hd
  both := h.both
  once := h.nodup
  acyclic := h.acyclic

end State.Ordered

namespace Session

open Analysis (behind)

variable {session : Session} {root : ModuleId}

theorem ordered_start (session : Session) : session.start.Ordered where
  distinct := List.nodup_nil
  present _ hm := by cases hm
  filed _ _ hd := by cases hd
  irreflexive _ hm := by cases hm
  backward := .nil
  both _ _ := ⟨fun hd => (by cases hd), fun hm => (by cases hm)⟩
  nodup _ := ⟨List.nodup_nil, List.nodup_nil⟩

/-- An analysis from the start that follows a course and gives the module that was filed last. -/
theorem run_topological {step : Analysis ModuleId} (hd : session.attributes.Steady)
    (horderly : Orderly session.start step)
    (hresult : ∀ m s', step session.start = .ok m s' → s'.analysed.getLast? = some m)
    (hroot : (session.run step).root = .ok root) : (session.run step).Topological root := by
  have hcourse := horderly session.start (proper_start hd.growing) (.refl _)
  unfold run EStateM.run at *
  rw [behind] at hcourse
  cases hstep : step session.start with
  | error e s' =>
    rw [hstep] at hroot
    cases hroot
  | ok m s' =>
    rw [hstep] at hroot hcourse
    cases hroot
    have hordered : s'.Ordered := hcourse.ordered hd session.ordered_start
    exact hordered.topological (hresult root s' hstep)

theorem analyse_topological {path : Path} (hd : session.attributes.Steady)
    (hroot : (session.analyse path).root = .ok root) : (session.analyse path).Topological root := by
  refine run_topological hd ?_ (fun m s' hrun => ?_) hroot
  · exact Analysis.withAnalyst_orderly fun an han => Analysis.loadModule_orderly han
  · rw [Analysis.analysePath, Analysis.withAnalyst_run] at hrun
    have hresult := Analysis.loadModule_result (analyst_orderly _) (proper_start hd.growing) hrun
    exact hresult.resolve_left fun hdone => nomatch hdone.1

theorem analyseTree_topological {tree : Root} (hd : session.attributes.Steady)
    (hroot : (session.analyseTree tree).root = .ok root) :
    (session.analyseTree tree).Topological root := by
  refine run_topological hd ?_ (fun m s' hrun => ?_) hroot
  · exact Analysis.withAnalyst_orderly fun an han => Analysis.detailRoot_orderly han
  · rw [Analysis.analyseRoot, Analysis.withAnalyst_run] at hrun
    have hresult := Analysis.detailRoot_result (analyst_orderly _) (proper_start hd.growing) hrun
    exact hresult.resolve_left fun hdone => nomatch hdone.1

/-- A check that succeeds gives what the analysis gave. -/
theorem check_eq_analyse {path : Path} (hroot : (session.check path).root = .ok root) :
    session.check path = session.analyse path := by
  unfold check at *
  dsimp only at *
  split at hroot
  · rfl
  · cases hroot
  · split at hroot
    · rfl
    · cases hroot

end Session

/-- **Topological order.** Whichever way a session is given its root, and whether or not errors were
collected on the way, its program lists modules in topological order. Callbacks must not link
modules, nor take anything inside out. -/
theorem modules_topological {session : Session} (hd : session.attributes.Steady) {o : Outcome}
    (ho : (∃ path, o = session.analyse path ∨ o = session.check path) ∨
      ∃ tree, o = session.analyseTree tree)
    {root : ModuleId} (hroot : o.root = .ok root) : o.Topological root := by
  rcases ho with ⟨path, rfl | rfl⟩ | ⟨tree, rfl⟩
  · exact Session.analyse_topological hd hroot
  · have heq := Session.check_eq_analyse hroot
    rw [heq] at hroot ⊢
    exact Session.analyse_topological hd hroot
  · exact Session.analyseTree_topological hd hroot

/-- A session that collects errors and finds one module under every path, which imports the root. Its callback
leaves the table as it is. -/
def loopingSession : Session :=
  { Session.editing id with
    options := { collectErrors := true }
    library := some
      ⟨fun request _ => .ok ⟨request⟩,
        fun _ => .ok
          { root := { statements := [.importing ⟨.written 2, {}⟩ { request := Session.rootPath.spelling }] }
            name := "part"
            package := "" }⟩ }

/-- A root that imports the module. -/
def loopingTree : Root := { statements := [.importing ⟨.written 1, {}⟩ { request := "part" }] }

/-- The import of the root is an error, and leaves no link. The other one does. -/
theorem modules_topological_looping :
    (loopingSession.analyseTree loopingTree).isClean = false ∧
      (loopingSession.analyseTree loopingTree).modules = [⟨1⟩, ⟨0⟩] ∧
      (loopingSession.analyseTree loopingTree).state.table.dependencies ⟨0⟩ = [⟨1⟩] ∧
      (loopingSession.analyseTree loopingTree).Topological ⟨0⟩ := by
  have hd : loopingSession.attributes.Steady := by
    intro r hr i u
    cases List.mem_singleton.1 hr
    exact ⟨Nat.le_refl _, .refl u⟩
  refine ⟨?_, ?_, ?_, modules_topological hd (.inr ⟨loopingTree, rfl⟩) ?_⟩ <;> decide +kernel

/-! ## Callbacks that are not steady -/

/-- Two modules. The first one has `fn g<T>(x: T) { export * from "late"; }` and exports `g`. -/
def earlyAndLate : Resolver where
  resolve request _ := .ok ⟨request⟩
  parse path := .ok
    { root :=
        { statements :=
            if path.spelling == "late" then []
            else
              [.function
                { node := ⟨.written 2, {}⟩
                  name := ⟨"g", {}⟩
                  generics := [⟨"T", {}⟩]
                  params :=
                    [{ node := ⟨.written 3, {}⟩, name := ⟨"x", {}⟩
                       ty := { form := .named [⟨"T", {}⟩] [] } }]
                  body := some
                    ⟨⟨.written 4, {}⟩,
                      [.exporting ⟨.written 5, {}⟩ { source := some "late", wildcard := true }]⟩ },
              .exporting ⟨.written 6, {}⟩ { items := [{ name := ⟨"g", {}⟩ }] }] }
      name := "part"
      package := "" }

/-- `import "early"; fn h() { g<int>; } @edit class A {}`. -/
def instanceTree : Root where
  statements :=
    [.importing ⟨.written 7, {}⟩ { request := "early" },
    .function
      { node := ⟨.written 8, {}⟩
        name := ⟨"h", {}⟩
        body := some
          ⟨⟨.written 9, {}⟩,
            [.expr ⟨.written 10, {}⟩
              (.name ⟨.written 11, {}⟩ ⟨"g", {}⟩ [{ form := .native .int }])]⟩ },
    editedClass]

/-- A callback links the module to itself. -/
def linkingOutcome : Outcome :=
  (Session.editing (·.modifyModule ⟨0⟩ (·.addDependency ⟨0⟩))).analyseTree { statements := [editedClass] }

/-- A callback moves the instance of `g` into the scope of its module. -/
def movingOutcome : Outcome :=
  Session.analyseTree { Session.editing (·.modifyFunction ⟨6⟩ fun f => { f with scope := ⟨2⟩ }) with
    library := some earlyAndLate } instanceTree

/-- **Callbacks can break the order.** A module that a callback links to itself does not come behind its
dependencies. Nor does one whose function a callback moves: the export in the body of `g` becomes one of the module,
which has been filed by then, and `late` comes behind it. -/
theorem modules_not_topological :
    (linkingOutcome.root = .ok ⟨0⟩ ∧ ¬ linkingOutcome.Topological ⟨0⟩) ∧
      movingOutcome.root = .ok ⟨0⟩ ∧ ¬ movingOutcome.Topological ⟨0⟩ := by
  have hself : ⟨0⟩ ∈ linkingOutcome.state.table.dependencies ⟨0⟩ := by decide +kernel
  have hmodules : movingOutcome.modules = [⟨1⟩, ⟨2⟩, ⟨0⟩] := by decide +kernel
  have hlate : ⟨2⟩ ∈ movingOutcome.state.table.dependencies ⟨1⟩ := by decide +kernel
  refine ⟨⟨by decide +kernel, fun h => h.acyclic ⟨0⟩ (.single hself)⟩, by decide +kernel, fun h => ?_⟩
  obtain ⟨earlier, later, hsplit, hearlier⟩ := h.before ⟨1⟩ (by simp [hmodules]) ⟨2⟩ hlate
  rw [hmodules] at hsplit
  cases earlier with
  | nil => cases hearlier
  | cons m rest =>
    have hagain : ⟨1⟩ ∈ ([⟨2⟩, ⟨0⟩] : List ModuleId) := by
      rw [(List.cons.inj hsplit).2]
      simp
    exact absurd hagain (by decide)

end SemanticAnalysis
