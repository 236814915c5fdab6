import SemanticAnalysis.Proofs.Module.Loading
import SemanticAnalysis.Proofs.Permit.Accounts
import SemanticAnalysis.Proofs.Safety.Declarations
import SemanticAnalysis.Proofs.SymbolTable.Kinds

/-!
# Worlds

A `World` is a state of an analysis together with what its nodes are known to declare, which no state
records: a tree settles this for the frame that it is analysed in when the frame is opened, and the analysis
settles it for a node of its own when it makes one. As an analysis goes on, a world leads to others
(`World.Leads`): items keep their kinds, and what was settled stays so.

In a `World.Sound` everything that the analysis keeps for later is in order. What is filed under the node of a
function is a function; classes, templates and pending bodies belong to modules that are there, and their
declarations agree with what is settled.
-/

namespace SemanticAnalysis

/-- The error reports that the analysis contradicts itself. -/
@[grind] def Cause.isInternal : Cause → Bool
  | .internal _ => true
  | .noTarget _ | .notVisible _ | .noMatchingCall .. | .ambiguousCall .. | .typeMismatch ..
  | .invalidCast .. | .noOperator .. | .genericArity .. | .cannotInfer .. | .noDefaultConstructor ..
  | .missingIterator _ | .invalidContext .. | .duplicateDefinition _ | .bitfieldOverflow ..
  | .circularImport _ | .moduleNotFound .. | .alreadyDetailed | .attributeFailed .. | .other _
  | .tooDeep => false

/-- A state, with the nodes that declare functions: those of the source in each frame, and those that the
analysis made. -/
structure World where
  state : State
  written : FrameId → Nat → Bool
  made : Nat → Bool

namespace World

variable (w : World)

abbrev table : SymbolTable := w.state.table

/-- The same nodes, in another state. -/
def on (s : State) : World := { w with state := s }

/-- A node declares a function. -/
def declares (f : FrameId) : NodeId → Bool
  | .written n => w.written f n
  | .synthetic n => w.made n

/-- What the node declares is settled. -/
def Settles (f : FrameId) : NodeId → Prop
  | .written _ => f.index < w.state.nextFrame
  | .synthetic n => n < w.state.nodesMade

/-! ## Facts that last -/

def HasKind (i : ItemId) (kind : EntityKind) : Prop := w.table.kind? i = some kind

def HasItem (i : ItemId) : Prop := i.index < w.table.items.size

def HasModule (m : ModuleId) : Prop := m.index < w.table.modules.size

/-- An item that is there, and is no alias. -/
def HasTarget (i : ItemId) : Prop := ∃ kind, kind ≠ .aliasOf ∧ w.HasKind i kind

/-- Code with these declarations may be analysed in the frame. -/
structure Hosts (frame : Frame) (ds : List Declaring) : Prop where
  opened : frame.id.index < w.state.nextFrame
  module : w.HasModule frame.module
  settles : ∀ d ∈ ds, w.Settles frame.id d.node
  agrees : ∀ d ∈ ds, w.declares frame.id d.node = d.isFunction

/-- Code with these declarations may be given a frame of its own: no node declares two things, and nodes that
the analysis made declare what they were made for. -/
structure Admits (ds : List Declaring) : Prop where
  unique : ∀ d ∈ ds, ∀ d' ∈ ds, d.node = d'.node → d = d'
  made : ∀ d ∈ ds, ∀ n, d.node = .synthetic n → n < w.state.nodesMade ∧ w.made n = d.isFunction

/-- The analysis made the nodes of these declarations. -/
def Made (ds : List Declaring) : Prop :=
  ∀ d ∈ ds, ∃ n, d.node = .synthetic n ∧ n < w.state.nodesMade ∧ w.made n = d.isFunction

/-- A declared item suits the node that it is filed under. -/
structure Files (e : DetailKey × ItemId) : Prop where
  settles : w.Settles e.1.frame e.1.node
  isFunction : w.declares e.1.frame e.1.node = true → w.HasKind e.2 .fn

/-- A class whose declaration may be analysed in its frame. -/
structure HoldsClass (cls : ItemId) (source : ClassSource) : Prop where
  isClass : w.HasKind cls .cls
  hosts : w.Hosts source.frame (Stmt.classDecls source.decl)

end World

/-- The declarations of a template. -/
def Template.decls : Template → List Declaring
  | .cls decl .. => Stmt.classDecls decl
  | .fn decl .. => Stmt.functionDecls decl

/-- The module that declares a template. -/
def Template.module : Template → ModuleId
  | .cls _ _ module | .fn _ _ module _ => module

namespace World

variable (w : World)

/-- A template of a module that is there, whose instances can be given frames of their own. -/
structure HoldsTemplate (t : Template) : Prop where
  module : w.HasModule t.module
  admits : w.Admits t.decls

/-- A function whose body may be analysed in its frame. -/
structure Awaits (f : PendingFunction) : Prop where
  isFunction : w.HasKind f.item .fn
  hosts : w.Hosts f.frame (Stmt.functionDecls f.decl)

/-- What is kept for later is in order, and nothing has gone wrong inside. -/
structure Sound : Prop where
  coherent : w.table.Coherent
  declared : ∀ e ∈ w.state.declared, w.Files e
  classes : ∀ e ∈ w.state.classes, w.HoldsClass e.1 e.2
  templates : ∀ e ∈ w.state.templates, w.HoldsTemplate e.2
  pending : ∀ f ∈ w.state.pendingFunctions, w.Awaits f
  synthesized : ∀ e ∈ w.state.synthesized, ∀ d ∈ e.2, w.Made (Stmt.functionDecls d)
  loaded : ∀ path m, w.state.loads.state? path = some (.done m) → w.HasModule m
  roots : ∀ r ∈ w.state.roots, w.Hosts ⟨r.frame, r.module⟩ r.root.decls
  attributes : w.state.attributes.KeepsKinds
  library : ∀ r, w.state.library = some r → r.Distinct
  errors : ∀ e ∈ w.state.errors, e.cause.isInternal = false
  dropped : ∀ e ∈ w.state.dropped, e.cause.isInternal = false

/-- `w'` is a later world than `w`. -/
structure Leads (w w' : World) : Prop where
  kinds : ∀ i kind, w.table.kind? i = some kind → w'.table.kind? i = some kind
  modules_le : w.table.modules.size ≤ w'.table.modules.size
  frames_le : w.state.nextFrame ≤ w'.state.nextFrame
  nodes_le : w.state.nodesMade ≤ w'.state.nodesMade
  declares_eq : ∀ f n, w.Settles f n → w'.declares f n = w.declares f n

variable {w} {w' w'' : World}

namespace Leads

theorem refl (w : World) : w.Leads w where
  kinds _ _ h := h
  modules_le := Nat.le_refl _
  frames_le := Nat.le_refl _
  nodes_le := Nat.le_refl _
  declares_eq _ _ _ := rfl

theorem settles (h : w.Leads w') {f : FrameId} {n : NodeId} (hn : w.Settles f n) :
    w'.Settles f n := by
  cases n with
  | written n => exact Nat.lt_of_lt_of_le hn h.frames_le
  | synthetic n => exact Nat.lt_of_lt_of_le hn h.nodes_le

theorem trans (h : w.Leads w') (h' : w'.Leads w'') : w.Leads w'' where
  kinds i kind hi := h'.kinds i kind (h.kinds i kind hi)
  modules_le := Nat.le_trans h.modules_le h'.modules_le
  frames_le := Nat.le_trans h.frames_le h'.frames_le
  nodes_le := Nat.le_trans h.nodes_le h'.nodes_le
  declares_eq f n hn := (h'.declares_eq f n (h.settles hn)).trans (h.declares_eq f n hn)

variable {frame : Frame} {ds : List Declaring} {i : ItemId} {kind : EntityKind}

theorem hasKind (h : w.Leads w') (hi : w.HasKind i kind) : w'.HasKind i kind := h.kinds i kind hi

theorem hasItem (h : w.Leads w') (hi : w.HasItem i) : w'.HasItem i :=
  SymbolTable.Develops.lt_of_kinds h.kinds hi

theorem hasTarget (h : w.Leads w') (hi : w.HasTarget i) : w'.HasTarget i := by
  obtain ⟨kind, hne, hkind⟩ := hi
  exact ⟨kind, hne, h.hasKind hkind⟩

theorem hasModule (h : w.Leads w') {m : ModuleId} (hm : w.HasModule m) : w'.HasModule m :=
  Nat.lt_of_lt_of_le hm h.modules_le

theorem hosts (h : w.Leads w') (hf : w.Hosts frame ds) : w'.Hosts frame ds where
  opened := Nat.lt_of_lt_of_le hf.opened h.frames_le
  module := h.hasModule hf.module
  settles d hd := h.settles (hf.settles d hd)
  agrees d hd := (h.declares_eq _ _ (hf.settles d hd)).trans (hf.agrees d hd)

theorem isMade (h : w.Leads w') (hds : w.Made ds) : w'.Made ds := by
  intro d hd
  obtain ⟨n, hn, hlt, hrole⟩ := hds d hd
  exact ⟨n, hn, Nat.lt_of_lt_of_le hlt h.nodes_le, (h.declares_eq ⟨0⟩ (.synthetic n) hlt).trans hrole⟩

theorem admits (h : w.Leads w') (hds : w.Admits ds) : w'.Admits ds where
  unique := hds.unique
  made d hd n hn := by
    obtain ⟨hlt, hrole⟩ := hds.made d hd n hn
    exact ⟨Nat.lt_of_lt_of_le hlt h.nodes_le, (h.declares_eq ⟨0⟩ (.synthetic n) hlt).trans hrole⟩

theorem files (h : w.Leads w') {e : DetailKey × ItemId} (he : w.Files e) : w'.Files e where
  settles := h.settles he.settles
  isFunction hrole := h.hasKind (he.isFunction ((h.declares_eq _ _ he.settles).symm.trans hrole))

theorem holdsClass (h : w.Leads w') {cls : ItemId} {source : ClassSource}
    (hcls : w.HoldsClass cls source) : w'.HoldsClass cls source :=
  ⟨h.hasKind hcls.isClass, h.hosts hcls.hosts⟩

theorem holdsTemplate (h : w.Leads w') {t : Template} (ht : w.HoldsTemplate t) :
    w'.HoldsTemplate t := ⟨h.hasModule ht.module, h.admits ht.admits⟩

theorem awaits (h : w.Leads w') {f : PendingFunction} (hf : w.Awaits f) : w'.Awaits f :=
  ⟨h.hasKind hf.isFunction, h.hosts hf.hosts⟩

end Leads

/-! ## Hosted code -/

namespace Hosts

variable {frame : Frame} {ds ds' : List Declaring}

theorem subset (h : w.Hosts frame ds) (hsub : ds' ⊆ ds) : w.Hosts frame ds' where
  opened := h.opened
  module := h.module
  settles d hd := h.settles d (hsub hd)
  agrees d hd := h.agrees d (hsub hd)

/-- Code without declarations. -/
theorem bare (h : w.Hosts frame ds) : w.Hosts frame [] := h.subset (List.nil_subset _)

theorem append_iff : w.Hosts frame (ds ++ ds') ↔ w.Hosts frame ds ∧ w.Hosts frame ds' := by
  refine ⟨fun h => ⟨h.subset (List.subset_append_left ..), h.subset (List.subset_append_right ..)⟩, ?_⟩
  rintro ⟨h, h'⟩
  refine ⟨h.opened, h.module, fun d hd => ?_, fun d hd => ?_⟩
  · exact (List.mem_append.1 hd).elim (h.settles d) (h'.settles d)
  · exact (List.mem_append.1 hd).elim (h.agrees d) (h'.agrees d)

theorem cons_iff {d : Declaring} :
    w.Hosts frame (d :: ds) ↔ w.Hosts frame [d] ∧ w.Hosts frame ds := by
  rw [← List.singleton_append, append_iff]

/-- What a frame hosts could be given a frame of its own. -/
theorem admits (h : w.Hosts frame ds) : w.Admits ds where
  unique := by
    rintro ⟨node, isFunction⟩ hd ⟨node', isFunction'⟩ hd' rfl
    have hagrees : isFunction = isFunction' := (h.agrees _ hd).symm.trans (h.agrees _ hd')
    rw [hagrees]
  made d hd n hn := by
    have hsettles := h.settles d hd
    have hagrees := h.agrees d hd
    rw [hn] at hsettles hagrees
    exact ⟨hsettles, hagrees⟩

/-- Nodes of its own the analysis may declare in every frame. -/
theorem of_made (h : w.Hosts frame []) (hds : w.Made ds) : w.Hosts frame ds where
  opened := h.opened
  module := h.module
  settles d hd := by
    obtain ⟨n, hn, hlt, -⟩ := hds d hd
    exact hn ▸ hlt
  agrees d hd := by
    obtain ⟨n, hn, -, hrole⟩ := hds d hd
    exact hn ▸ hrole

/-- What may be filed under the node of a function is a function. -/
theorem files {node : Node} {item : ItemId} (h : w.Hosts frame [node.ofFunction])
    (hitem : w.HasKind item .fn) : w.Files (⟨frame.id, node.id⟩, item) :=
  ⟨h.settles _ List.mem_cons_self, fun _ => hitem⟩

/-- Under another node anything may be filed. -/
theorem files_other {node : Node} {item : ItemId} (h : w.Hosts frame [node.ofOther]) :
    w.Files (⟨frame.id, node.id⟩, item) := by
  refine ⟨h.settles _ List.mem_cons_self, fun hrole => ?_⟩
  cases (h.agrees _ List.mem_cons_self).symm.trans hrole

end Hosts

/-- Trees whose nodes are distinct may be given a frame in any world. -/
theorem admits_root {r : Root} (hr : r.Distinct) : w.Admits r.decls where
  unique := (Root.decls_fit hr).unique
  made d hd n hn := by
    have hwritten := (Root.decls_fit hr).written d hd
    rw [hn] at hwritten
    cases hwritten

/-! ## Changes -/

/-- `w'` comes from `w` by one change: what the state keeps it had before, or it is in order. -/
structure Change (w w' : World) : Prop where
  develops : w.table.Develops w'.table
  frames_le : w.state.nextFrame ≤ w'.state.nextFrame
  nodes_le : w.state.nodesMade ≤ w'.state.nodesMade
  declares_eq : ∀ f n, w.Settles f n → w'.declares f n = w.declares f n
  declared : ∀ e ∈ w'.state.declared, e ∈ w.state.declared ∨ w.Files e
  classes : ∀ e ∈ w'.state.classes,
    (∃ source, (e.1, source) ∈ w.state.classes ∧ source.decl = e.2.decl ∧
      source.frame = e.2.frame) ∨ w.HoldsClass e.1 e.2
  templates : ∀ e ∈ w'.state.templates, e ∈ w.state.templates ∨ w.HoldsTemplate e.2
  pending : ∀ f ∈ w'.state.pendingFunctions, f ∈ w.state.pendingFunctions ∨ w.Awaits f
  synthesized : ∀ e ∈ w'.state.synthesized,
    e ∈ w.state.synthesized ∨ ∀ d ∈ e.2, w.Made (Stmt.functionDecls d)
  loaded : ∀ path m, w'.state.loads.state? path = some (.done m) →
    w.state.loads.state? path = some (.done m) ∨ w.HasModule m
  roots : ∀ r ∈ w'.state.roots, r ∈ w.state.roots ∨ w.Hosts ⟨r.frame, r.module⟩ r.root.decls
  attributes : w'.state.attributes = w.state.attributes
  library : w'.state.library = w.state.library
  errors : ∀ e ∈ w'.state.errors, e ∈ w.state.errors ∨ e.cause.isInternal = false
  dropped : ∀ e ∈ w'.state.dropped, e ∈ w.state.dropped ∨ e.cause.isInternal = false

namespace Change

/-- Nothing changes. What a change leaves alone is put together from this. -/
theorem refl (w : World) : w.Change w where
  develops := .refl _
  frames_le := Nat.le_refl _
  nodes_le := Nat.le_refl _
  declares_eq _ _ _ := rfl
  declared _ := .inl
  classes e he := .inl ⟨e.2, he, rfl, rfl⟩
  templates _ := .inl
  pending _ := .inl
  synthesized _ := .inl
  loaded _ _ := .inl
  roots _ := .inl
  attributes := rfl
  library := rfl
  errors _ := .inl
  dropped _ := .inl

theorem leads (h : w.Change w') : w.Leads w' where
  kinds := h.develops.kinds
  modules_le := h.develops.modules_le
  frames_le := h.frames_le
  nodes_le := h.nodes_le
  declares_eq := h.declares_eq

theorem sound (h : w.Change w') (hw : w.Sound) : w'.Sound where
  coherent := h.develops.coherent hw.coherent
  declared e he := h.leads.files ((h.declared e he).elim (hw.declared e) id)
  classes e he := by
    refine h.leads.holdsClass ?_
    rcases h.classes e he with ⟨source, hold, hdecl, hframe⟩ | hnew
    · have hcls := hw.classes _ hold
      exact ⟨hcls.isClass, hdecl ▸ hframe ▸ hcls.hosts⟩
    · exact hnew
  templates e he := h.leads.holdsTemplate ((h.templates e he).elim (hw.templates e) id)
  pending f hf := h.leads.awaits ((h.pending f hf).elim (hw.pending f) id)
  synthesized e he d hd :=
    h.leads.isMade ((h.synthesized e he).elim (fun hold => hw.synthesized e hold d hd) fun hnew => hnew d hd)
  loaded path m hm := h.leads.hasModule ((h.loaded path m hm).elim (hw.loaded path m) id)
  roots r hr := h.leads.hosts ((h.roots r hr).elim (hw.roots r) id)
  attributes := h.attributes ▸ hw.attributes
  library := h.library ▸ hw.library
  errors e he := (h.errors e he).elim (hw.errors e) id
  dropped e he := (h.dropped e he).elim (hw.dropped e) id

/-- A change of the table alone. -/
theorem of_table {t : SymbolTable} (h : w.table.Develops t) :
    w.Change (w.on { w.state with table := t }) :=
  { refl w with develops := h }

end Change

/-! ## New frames and nodes -/

/-- A frame is opened for some declarations. -/
def opening (w : World) (ds : List Declaring) : World where
  state := { w.state with nextFrame := w.state.nextFrame + 1 }
  written f n := if f = ⟨w.state.nextFrame⟩ then decide (⟨.written n, true⟩ ∈ ds) else w.written f n
  made := w.made

theorem change_opening (w : World) (ds : List Declaring) : w.Change (w.opening ds) :=
  { Change.refl w with
    frames_le := Nat.le_succ _
    declares_eq := fun f n hn => by
      cases n with
      | written n =>
        have hne : f ≠ ⟨w.state.nextFrame⟩ := by
          rintro rfl
          exact Nat.lt_irrefl _ hn
        exact if_neg hne
      | synthetic n => rfl }

/-- The new frame hosts what it was opened for. -/
theorem hosts_opening {m : ModuleId} {ds : List Declaring} (hm : w.HasModule m) (hds : w.Admits ds) :
    (w.opening ds).Hosts ⟨⟨w.state.nextFrame⟩, m⟩ ds where
  opened := Nat.lt_succ_self _
  module := hm
  settles d hd := by
    cases hnode : d.node with
    | written n => exact Nat.lt_succ_self _
    | synthetic n => exact (hds.made d hd n hnode).1
  agrees d hd := by
    obtain ⟨node, isFunction⟩ := d
    cases node with
    | synthetic n => exact (hds.made _ hd n rfl).2
    | written n =>
      have hrole : (w.opening ds).declares ⟨w.state.nextFrame⟩ (.written n) =
          decide (⟨.written n, true⟩ ∈ ds) := if_pos rfl
      rw [hrole]
      cases isFunction with
      | true => exact decide_eq_true hd
      | false =>
        refine decide_eq_false fun htrue => ?_
        cases hds.unique _ htrue _ hd rfl

/-- The analysis makes a node for a declaration. -/
def making (w : World) (isFunction : Bool) : World where
  state := { w.state with nodesMade := w.state.nodesMade + 1 }
  written := w.written
  made n := if n = w.state.nodesMade then isFunction else w.made n

theorem change_making (w : World) (isFunction : Bool) : w.Change (w.making isFunction) :=
  { Change.refl w with
    nodes_le := Nat.le_succ _
    declares_eq := fun f n hn => by
      cases n with
      | written n => rfl
      | synthetic n => exact if_neg (Nat.ne_of_lt hn) }

theorem made_making (w : World) (isFunction : Bool) :
    (w.making isFunction).Made [⟨.synthetic w.state.nodesMade, isFunction⟩] := by
  intro d hd
  cases List.mem_singleton.1 hd
  exact ⟨_, rfl, Nat.lt_succ_self _, if_pos rfl⟩

end World

end SemanticAnalysis
