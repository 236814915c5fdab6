import SemanticAnalysis.Analysis.Program
import SemanticAnalysis.Proofs.Permit.Rules

/-!
# What demands take

Each demand has a price (`Demand.cost`), and an analyst that keeps to it is sparing (`Analyst.Sparing`).
Types, signatures and synthesized members take nothing: a class keeps by itself what its members need. A
pass over aliases gives back what the aliases take that it could not bind.

Frames and nodes that are opened or made on the way bring permits of their own.
-/

namespace SemanticAnalysis

/-! ## Aliases that are not bound -/

namespace State

/-- What it still takes to bind an alias. -/
def unbound (s : State) (f : FrameId) : Stmt → Holding
  | .aliasing n _ => if (s.declared.lookup ⟨f, n.id⟩).isSome then 0 else permits f [n.id]
  | _ => 0

/-- What it still takes to bind the aliases in some statements. -/
def unboundCost (s : State) (f : FrameId) (row : List Stmt) : Holding :=
  ((Stmt.levels row).map (s.unbound f)).sum

variable {s s' : State}

/-- A bound alias stays bound. -/
theorem Continues.unbound_le (h : s.Continues s') (f : FrameId) (stmt : Stmt) :
    s'.unbound f stmt ≤ s.unbound f stmt := by
  cases stmt with
  | aliasing n decl =>
    by_cases hbound : (s'.declared.lookup ⟨f, n.id⟩).isSome = true
    · rw [unbound, if_pos hbound]
      exact fun p => Nat.zero_le _
    · rw [unbound, unbound, if_neg hbound, if_neg fun hold => hbound (h.declared _ hold)]
  | _ => exact le_refl _

theorem Continues.unboundCost_le (h : s.Continues s') (f : FrameId) (row : List Stmt) :
    s'.unboundCost f row ≤ s.unboundCost f row :=
  List.sum_le_sum fun stmt _ => h.unbound_le f stmt

theorem unboundCost_le (s : State) (f : FrameId) (row : List Stmt) (last : Bool) :
    s.unboundCost f row ≤ (Pass.aliases last).cost f row := by
  refine List.sum_le_sum fun stmt _ => ?_
  cases stmt with
  | aliasing n decl =>
    by_cases hbound : (s.declared.lookup ⟨f, n.id⟩).isSome = true
    · rw [unbound, if_pos hbound]
      exact fun p => Nat.zero_le _
    · rw [unbound, if_neg hbound]
      exact le_refl _
  | _ => exact le_refl _

end State

/-- What some statements take, one statement with those inside it after the other. -/
theorem Stmt.sum_levels (g : Stmt → Holding) (row : List Stmt) :
    ((levels row).map g).sum = (row.map fun s => (s.level.map g).sum).sum := by
  induction row with
  | nil => rw [levels, List.map_nil, List.map_nil]
  | cons s rest ih => rw [levels, List.map_append, List.sum_append, ih, List.map_cons, List.sum_cons]

/-! ## Demands -/

/-- What it takes to answer a demand. -/
def Demand.cost {α : Type} : Demand α → State → Holding
  | .expr frame e _ _, _ => permits frame.id e.ids
  | .stmt frame s _, _ => s.cost frame.id
  | .classBodies cls, s => s.opening cls
  | .functionBody frame decl item, s =>
    if s.table.isGeneric item then 0 else decl.bodyCost frame.id
  | .pass (.aliases _) frame row _, s => s.unboundCost frame.id row
  | .pass p frame row _, _ => p.cost frame.id row
  | _, _ => 0

/-- What is given back. -/
def Demand.change {α : Type} : Demand α → State → Holding
  | .pass (.aliases last) frame row _, s => if last then 0 else s.unboundCost frame.id row
  | _, _ => 0

/-- The class whose bodies are asked for is there. -/
def Demand.Fits {α : Type} : Demand α → State → Prop
  | .classBodies cls, s => cls.index < s.table.items.size
  | _, _ => True

/-- The analyst keeps the accounts, whatever it is asked. -/
def Analyst.Sparing (an : Analyst) : Prop :=
  ∀ {α : Type} (d : Demand α) (s : State) (held : Holding), d.Fits s →
    s.Accounts (d.cost s + held) → Leaves s (fun _ => d.change) held (an.ask d s)

namespace Analysis

variable {an : Analyst} {frame : Frame} {scope : ScopeId} {position : Position}

section Asking

variable (han : an.Sparing)

include han

@[grind ←] theorem type_quiet {t : TypeExpr} : Quiet (an.type frame t scope) :=
  fun s held hs => han (.type frame t scope) s held trivial hs

theorem ask_expr_spends {e : Expr} {access : Access} :
    Spends (permits frame.id e.ids) (an.ask (.expr frame e scope access)) :=
  fun s held hs => han (.expr frame e scope access) s held trivial hs

theorem expr_spends {e : Expr} : Spends (permits frame.id e.ids) (an.expr frame e scope) :=
  ask_expr_spends han

theorem stmt_spends {stmt : Stmt} : Spends (stmt.cost frame.id) (an.stmt frame stmt scope) :=
  fun s held hs => han (.stmt frame stmt scope) s held trivial hs

/-- Statements that stand in one row. -/
theorem stmts_spends {row : List Stmt} :
    Spends (permits frame.id (Stmt.rowIds row)) (an.stmts frame row scope) := by
  rw [permits_rowIds]
  exact .forM fun stmt _ => (stmt_spends han).of_le (stmt.cost_le frame.id)

@[grind ←] theorem signatures_quiet {cls : ItemId} : Quiet (an.ask (.signatures cls)) :=
  fun s held hs => han (.signatures cls) s held trivial hs

@[grind ←] theorem synthesis_quiet {cls : ItemId} : Quiet (an.ask (.synthesis cls)) :=
  fun s held hs => han (.synthesis cls) s held trivial hs

@[grind ←] theorem module_quiet {path : Path} {request : String} :
    Quiet (an.ask (.module path request position)) :=
  fun s held hs => han (.module path request position) s held trivial hs

@[grind ←] theorem pending_quiet : Quiet (an.ask .pending) :=
  fun s held hs => han .pending s held trivial hs

theorem classBodies_leaves {s : State} {held : Holding} {cls : ItemId}
    (hlt : cls.index < s.table.items.size) (hs : s.Accounts (s.opening cls + held)) :
    Leaves s (fun _ _ => 0) held (an.ask (.classBodies cls) s) :=
  han (.classBodies cls) s held hlt hs

theorem functionBody_affords {decl : FunctionDef} {item : ItemId} :
    Affords (fun s => if s.table.isGeneric item then 0 else decl.bodyCost frame.id)
      (an.ask (.functionBody frame decl item)) fun _ _ => 0 :=
  fun s held hs => han (.functionBody frame decl item) s held trivial hs

theorem functionBody_spends {decl : FunctionDef} {item : ItemId} :
    Spends (decl.bodyCost frame.id) (an.ask (.functionBody frame decl item)) := by
  refine (functionBody_affords han).imp (fun s => ?_) fun _ _ => le_refl _
  split
  · exact fun p => Nat.zero_le _
  · exact le_refl _

end Asking

/-! ## New frames and nodes -/

/-- Trees may be analysed in a new frame. -/
theorem openFrame_gives {s : State} {held : Holding} {ids : List NodeId} (module : ModuleId)
    (hs : s.Accounts held) (hids : s.Admits ids) : ∃ frame s',
      openFrame module s = .ok frame s' ∧ s.Steady s' ∧ s'.Accounts (permits frame.id ids + held) := by
  have hsteady : s.Steady { s with nextFrame := s.nextFrame + 1 } :=
    { State.Steady.refl s with frames_le := Nat.le_succ _ }
  refine ⟨⟨⟨s.nextFrame⟩, module⟩, _, rfl, hsteady, ?_⟩
  refine hs.fresh hsteady hids (Nat.lt_succ_self _) fun n _ e hknows => ?_
  exact Nat.lt_irrefl _ hknows.1

/-- A node that is made is new in every frame. -/
theorem freshNode_gives {s : State} {held : Holding} {f : FrameId} (position : Position)
    (hs : s.Accounts held) (hf : f.index < s.nextFrame) : ∃ node s',
      freshNode position s = .ok node s' ∧ s.Continues s' ∧
        s'.Accounts (permits f [node.id] + held) := by
  have hsteady : s.Steady { s with nodesMade := s.nodesMade + 1 } :=
    { State.Steady.refl s with nodes_le := Nat.le_succ _ }
  refine ⟨⟨.synthetic s.nodesMade, position⟩, _, rfl, hsteady.continues, ?_⟩
  refine hs.fresh hsteady ⟨List.nodup_singleton _, fun n hn => ?_⟩ hf fun n hn e hknows => ?_
  · rw [List.mem_singleton.1 hn]
    rintro k hk
    cases hk
    exact Nat.lt_succ_self _
  · rw [List.mem_singleton.1 hn] at hknows
    exact Nat.lt_irrefl _ (hknows.2 _ rfl)

end Analysis

end SemanticAnalysis
