import SemanticAnalysis.Analysis.WrittenType
import SemanticAnalysis.Proofs.Course.Rules
import SemanticAnalysis.Proofs.SymbolTable.Bindings
import SemanticAnalysis.Proofs.Ty.Layers

/-!
# Written types

A written type stands for what its form stands for, with the written layers around it.

1. A name that is bound to a type stands for that type (`NamesType`, `resolveNamedType_of_namesType`). The
   parameters of a generic declaration are bound so in the scope of each instance (`bindGenerics_names`).
2. **`written_layers_compose`**: layers written around a name compose with those that its type was written
   with, so a parameter behaves like the type that it is bound to.
-/

namespace SemanticAnalysis.Analysis

variable {an : Analyst} {frame : Frame} {scope own : ScopeId} {position : Position} {s s' : State}
variable {t : TypeExpr} {path : List Ident} {base ty : Ty} {i : ItemId}

/-! ## Names -/

/-- In a state, the path means an item that is bound to the type. -/
structure NamesType (s : State) (path : List Ident) (scope : ScopeId) (position : Position) (ty : Ty) :
    Prop where
  /-- It is no name of a native type. -/
  keyword : ∀ name, path = [name] → Native.ofKeyword? name.name = none
  bound : ∃ i item, resolvePath path scope EntityKind.values position s = .ok i s ∧
    s.table.item? i = some item ∧ item.entity = .bound ty

theorem resolveNamedType_of_namesType (h : NamesType s path scope position ty) :
    resolveNamedType an frame path [] scope position s = .ok ty s := by
  obtain ⟨hkeyword, i, item, hpath, hitem, hbound⟩ := h
  have hlook : look (·.item? i) s = .ok (some item) s := by
    rw [← hitem]
    rfl
  have hread (f : ItemId → Item → Analysis Ty) :
      (do
        let i ← resolvePath path scope EntityKind.values position
        let item ← expect "item missing" (← look (·.item? i))
        f i item) s = f i item s := by
    rw [bind_ok hpath, bind_ok hlook]
    rfl
  unfold resolveNamedType
  rcases path with _ | ⟨name, _ | ⟨second, rest⟩⟩ <;> dsimp only [List.isEmpty_nil]
  · rw [hread, hbound]
    rfl
  · rw [hkeyword name rfl]
    dsimp only
    rw [hread, hbound]
    rfl
  · rw [hread, hbound]
    rfl

/-- A single name means what is found first. -/
theorem resolvePath_single {name : Ident} {exclude : List EntityKind} {rest : List ItemId}
    (h : s.table.findAll name.name scope exclude (some scope) = i :: rest) :
    resolvePath [name] scope exclude position s = .ok i s := by
  have hlook : look (·.findAll name.name scope exclude (some scope)) s = .ok (i :: rest) s := by
    rw [← h]
    rfl
  unfold resolvePath
  dsimp only
  rw [bind_ok hlook]
  rfl

theorem namesType_of_bindsType {name : Ident} (h : s.table.BindsType own name.name ty i)
    (howner : s.table.OwnedRightly own) (hkeyword : Native.ofKeyword? name.name = none) :
    NamesType s [name] own position ty where
  keyword other hother := List.head_eq_of_cons_eq hother ▸ hkeyword
  bound := by
    obtain ⟨item, hitem, -, -, -, hbound⟩ := h.there
    exact ⟨i, item, resolvePath_single (h.findAll howner), hitem, hbound⟩

/-! ## Generic parameters -/

/-- The table with a generic parameter bound to a type. -/
def bindType (frame : Frame) (own : ScopeId) (table : SymbolTable) (p : Ident × Ty) : SymbolTable :=
  (table.addItem
    { name := p.1.name
      scope := own
      module := frame.module
      visibility := .scopeOnly
      position := p.1.position
      entity := .bound p.2 }).2

theorem bindGenerics_eq (frame : Frame) (generics : List Ident) (arguments : List Ty) (own : ScopeId)
    (s : State) :
    bindGenerics frame generics arguments own s =
      .ok ⟨⟩ { s with table := (generics.zip arguments).foldl (bindType frame own) s.table } := by
  unfold bindGenerics
  generalize generics.zip arguments = pairs
  induction pairs generalizing s with
  | nil => rfl
  | cons p rest ih => exact ih { s with table := bindType frame own s.table p }

section Pairs

variable {table : SymbolTable} {sc : Scope} {pairs : List (Ident × Ty)}

/-- A name that no parameter has stays bound as it was. -/
theorem bindsType_foldl_of_ne {name : String} (hlists : table.ListsItems own)
    (hne : ∀ p ∈ pairs, p.1.name ≠ name) (h : table.BindsType own name ty i) :
    (pairs.foldl (bindType frame own) table).BindsType own name ty i := by
  induction pairs generalizing table with
  | nil => exact h
  | cons p rest ih =>
    have hp : p.1.name ≠ name := hne p List.mem_cons_self
    exact ih hlists.addItem (fun q hq => hne q (List.mem_cons_of_mem p hq)) (h.addItem hlists rfl hp)

theorem bindsType_foldl (hlists : table.ListsItems own) (hscope : table.scope? own = some sc)
    (hnodup : (pairs.map (·.1.name)).Nodup) (hfree : ∀ p ∈ pairs, table.named own p.1.name = []) :
    ∀ p ∈ pairs, ∃ i, (pairs.foldl (bindType frame own) table).BindsType own p.1.name p.2 i := by
  induction pairs generalizing table sc with
  | nil => exact fun p hp => nomatch hp
  | cons p rest ih =>
    obtain ⟨hhead, hrest⟩ := List.nodup_cons.1 hnodup
    have hother : ∀ q ∈ rest, q.1.name ≠ p.1.name := fun q hq heq =>
      hhead (List.mem_map.2 ⟨q, hq, heq⟩)
    have hbound : (bindType frame own table p).BindsType own p.1.name p.2 ⟨table.items.size⟩ :=
      .addItem_self hlists hscope (hfree p List.mem_cons_self) rfl rfl rfl
    have hlists' : (bindType frame own table p).ListsItems own := hlists.addItem
    have hkept : (rest.foldl (bindType frame own) (bindType frame own table p)).BindsType own p.1.name p.2
        ⟨table.items.size⟩ := bindsType_foldl_of_ne hlists' hother hbound
    obtain ⟨sc', hscope'⟩ := hbound.exists_scope
    intro q hq
    rcases List.mem_cons.1 hq with rfl | hq
    · exact ⟨_, hkept⟩
    · refine ih hlists' hscope' hrest (fun r hr => ?_) q hq
      unfold bindType
      rw [SymbolTable.named_addItem hlists hscope rfl, hfree r (List.mem_cons_of_mem p hr),
        beq_eq_false_iff_ne.2 (hother r hr).symm]
      rfl

theorem ownedRightly_foldl (h : table.OwnedRightly own) :
    (pairs.foldl (bindType frame own) table).OwnedRightly own := by
  induction pairs generalizing table with
  | nil => exact h
  | cons p rest ih => exact ih h.addItem

end Pairs

/-- In the scope of an instance, the parameters name the types that it was made for. -/
theorem bindGenerics_names {generics : List Ident} {arguments : List Ty} {sc : Scope}
    (hlength : generics.length = arguments.length) (hnodup : (generics.map (·.name)).Nodup)
    (hlists : s.table.ListsItems own) (howner : s.table.OwnedRightly own)
    (hscope : s.table.scope? own = some sc) (hfree : ∀ g ∈ generics, s.table.named own g.name = []) :
    ∃ s', bindGenerics frame generics arguments own s = .ok ⟨⟩ s' ∧
      ∀ p ∈ generics.zip arguments, Native.ofKeyword? p.1.name = none →
        ∀ position, NamesType s' [p.1] own position p.2 := by
  have hfst : (generics.zip arguments).map Prod.fst = generics := List.map_fst_zip (Nat.le_of_eq hlength)
  have hnodup' : ((generics.zip arguments).map (·.1.name)).Nodup := by
    rw [← hfst, List.map_map] at hnodup
    exact hnodup
  refine ⟨_, bindGenerics_eq frame generics arguments own s, fun p hp hkeyword position => ?_⟩
  have hfree' : ∀ q ∈ generics.zip arguments, s.table.named own q.1.name = [] := fun q hq =>
    hfree q.1 (List.of_mem_zip hq).1
  obtain ⟨i, hbinds⟩ := bindsType_foldl hlists hscope hnodup' hfree' p hp
  exact namesType_of_bindsType hbinds (ownedRightly_foldl howner) hkeyword

/-! ## Layers -/

theorem resolveType_of_form (h : resolveForm an frame t scope s = .ok base s') :
    resolveType an frame t scope s = .ok (base.qualified t.layers) s' := by
  unfold resolveType
  rw [bind_ok h]
  rfl

/-- A name stands for the type that it is bound to, with the layers written around the name. -/
theorem resolveType_of_namesType (hform : t.form = .named path [])
    (h : NamesType s path scope t.position ty) :
    resolveType an frame t scope s = .ok (ty.qualified t.layers) s := by
  refine resolveType_of_form ?_
  unfold resolveForm
  rw [hform]
  exact resolveNamedType_of_namesType h

/-- **Written layers compose.** Layers `b` written around layers `a` are `a.b` around what is inside, for
every type. So a name with layers `b` that is bound to a type, which was written with layers `a` around
`base` and resolved wherever it stands, is resolved to `base` with `a.b`, and nothing else changes. -/
theorem written_layers_compose {a b : List Modifier} (ha : ∀ m ∈ a, m.isEmpty = false)
    (hb : ∀ m ∈ b, m.isEmpty = false) :
    (∀ t : Ty, (t.qualified a).qualified b = t.qualified (Ty.composeLayers a b)) ∧
      ∀ (an an' : Analyst) (frame frame' : Frame) (scope scope' : ScopeId) (s s₀ s₁ : State)
        (written use : TypeExpr) (path : List Ident) (base ty : Ty),
        written.layers = a → resolveForm an frame written scope s₀ = .ok base s₁ →
        resolveType an frame written scope s₀ = .ok ty s₁ →
        use.layers = b → use.form = .named path [] → NamesType s path scope' use.position ty →
        resolveType an' frame' use scope' s = .ok (base.qualified (Ty.composeLayers a b)) s := by
  refine ⟨fun t => t.qualified_qualified ha hb, ?_⟩
  intro an an' frame frame' scope scope' s s₀ s₁ written use path base ty hwritten hbase hty huse hform hnames
  have hbound : ty = base.qualified a := by
    rw [resolveType_of_form hbase, hwritten] at hty
    cases hty
    rfl
  rw [resolveType_of_namesType hform hnames, huse, hbound, Ty.qualified_qualified base ha hb]

/-- A module with a scope for an instance. -/
def instanceState : State :=
  { table := ((SymbolTable.newModule {} "main" "main" "").2.newScope ⟨0⟩ .block).2 }

/-- With `T` bound to `const int*`, the type `const T*` is a pointer to a `const` pointer to `const int`. -/
theorem written_layers_compose_parameter :
    let frame : Frame := ⟨⟨0⟩, ⟨0⟩⟩
    let layers : List Modifier := [{ constant := true }, { pointer := true }]
    let written : TypeExpr := { form := .native .int, layers }
    let use : TypeExpr := { form := .named [{ name := "T" }] [], layers }
    ∀ an : Analyst, ∃ argument s,
      resolveType an frame written ⟨0⟩ instanceState = .ok argument instanceState ∧
      bindGenerics frame [{ name := "T" }] [argument] ⟨2⟩ instanceState = .ok ⟨⟩ s ∧
      resolveType an frame use ⟨2⟩ s =
        .ok ⟨.native .int,
          [{ constant := true }, { pointer := true, constant := true }, { pointer := true }]⟩ s := by
  intro frame layers written use an
  have hlayers : ∀ m ∈ layers, m.isEmpty = false := by decide
  have hbase : resolveForm an frame written ⟨0⟩ instanceState = .ok .int instanceState := rfl
  have hargument : resolveType an frame written ⟨0⟩ instanceState = .ok (Ty.int.qualified layers) _ :=
    resolveType_of_form hbase
  have hlists : instanceState.table.ListsItems ⟨2⟩ := by
    intro sc hsc
    cases hsc
    exact fun j hj => nomatch hj
  have howner : instanceState.table.OwnedRightly ⟨2⟩ := by
    intro c hc
    cases hc
  have hbinds : ∃ s, bindGenerics frame [{ name := "T" }] [Ty.int.qualified layers] ⟨2⟩ instanceState =
      .ok ⟨⟩ s ∧ ∀ p ∈ [({ name := "T" }, Ty.int.qualified layers)], Native.ofKeyword? p.1.name = none →
        ∀ position, NamesType s [p.1] ⟨2⟩ position p.2 :=
    bindGenerics_names rfl (by decide) hlists howner rfl (by decide)
  obtain ⟨s, hrun, hnames⟩ := hbinds
  have hname : NamesType s [{ name := "T" }] ⟨2⟩ use.position (Ty.int.qualified layers) :=
    hnames _ List.mem_cons_self (by decide) _
  have hcompose := (written_layers_compose hlayers hlayers).2 an an frame frame ⟨0⟩ ⟨2⟩ s
  exact ⟨_, s, hargument, hrun, hcompose _ _ written use _ _ _ rfl hbase hargument rfl rfl hname⟩

end SemanticAnalysis.Analysis
