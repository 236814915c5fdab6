import SemanticAnalysis.Proofs.Analysis.Naming
import SemanticAnalysis.Proofs.SymbolTable.Kinds

/-!
# Which members stand side by side

Once its signature is resolved, a member function is refused for one reason only: its name means something else
than functions in the scope of the class, or another function of the name has the same parameters
(`SymbolTable.IsOverload`).

1. The check fails exactly then (`checkDuplicateFunction_eq`).
2. Behind the check every step gets through as long as the class is there (`Passes`, `file_ok`).

What a function is for, which operator it is, on which side its class stands and what it results in are not
compared. So members that differ in nothing else exclude each other (`alikeMembers`).
-/

namespace SemanticAnalysis

open SymbolTable

section

variable {α β γ : Type} {Q : State → Prop} {x : Analysis α} {f : α → Analysis β}

/-- A step that gets through from every state with the property, and keeps it. -/
def Passes (Q : State → Prop) (x : Analysis α) : Prop := ∀ s, Q s → ∃ a s', x s = .ok a s' ∧ Q s'

namespace Passes

theorem pure {a : α} : Passes Q (Pure.pure a : Analysis α) := fun s hs => ⟨a, s, rfl, hs⟩

theorem bind (hx : Passes Q x) (hf : ∀ a, Passes Q (f a)) : Passes Q (x >>= f) := by
  intro s hs
  obtain ⟨a, s₁, hxs, hs₁⟩ := hx s hs
  obtain ⟨b, s₂, hfs, hs₂⟩ := hf a s₁ hs₁
  exact ⟨b, s₂, (Analysis.bind_ok hxs).trans hfs, hs₂⟩

theorem forM {xs : List γ} {f : γ → Analysis PUnit} (h : ∀ a, Passes Q (f a)) : Passes Q (xs.forM f) := by
  induction xs with
  | nil => exact pure
  | cons a rest ih => exact bind (h a) fun _ => ih

end Passes

end

namespace SymbolTable

/-- The function is the only one of its name and scope with its parameters, and the name means nothing but
functions there. Variants and generic functions do not count, and neither do the names of parameters. -/
def IsOverload (t : SymbolTable) (i : ItemId) (entry : Item) (f : Function) : Prop :=
  ∀ j ∈ t.findLocal entry.name entry.scope [] none, j ≠ i → ∀ other, t.item? j = some other →
    ∃ g, other.entity = .fn g ∧ (g.variantOf.isSome = true ∨ other.isGeneric = true ∨
      Ty.eraseParams g.params ≠ Ty.eraseParams f.params)

end SymbolTable

namespace Analysis

variable {t : SymbolTable} {s s₁ : State} {frame : Frame} {an : Analyst} {scope : ScopeId}
variable {item cls : ItemId} {decl : FunctionDef} {entry : Item} {f : Function}

/-! ## The check -/

theorem isDuplicateOf_eq_false_iff {j : ItemId} :
    isDuplicateOf t f j = false ↔ ∀ other, t.item? j = some other →
      ∃ g, other.entity = .fn g ∧ (g.variantOf.isSome = true ∨ other.isGeneric = true ∨
        Ty.eraseParams g.params ≠ Ty.eraseParams f.params) := by
  unfold isDuplicateOf
  cases hother : t.item? j with
  | none => simp
  | some other =>
    cases hentity : other.entity with
    | fn g =>
      have hparams : (g.params == f.params) = false ↔ Ty.eraseParams g.params ≠ Ty.eraseParams f.params := by
        rw [← Bool.not_eq_true, Ty.params_beq_iff]
      cases hvariant : g.variantOf <;> cases hgeneric : other.isGeneric <;>
        simp [hentity, hvariant, hgeneric, hparams]
    | var | cls | space | aliasOf | bound => simp [hentity]

theorem isOverload_iff : t.IsOverload item entry f ↔
    ∀ j ∈ t.findLocal entry.name entry.scope [] none, j ≠ item → isDuplicateOf t f j = false :=
  forall₃_congr fun _ _ _ => isDuplicateOf_eq_false_iff.symm

/-- The check fails exactly if the function is no overload. -/
theorem checkDuplicateFunction_eq (position : Position) (hentry : s.table.item? item = some entry)
    (hf : entry.entity = .fn f) :
    (s.table.IsOverload item entry f ∧ checkDuplicateFunction item position s = .ok ⟨⟩ s) ∨
      (¬ s.table.IsOverload item entry f ∧
        checkDuplicateFunction item position s = .error ⟨.duplicateDefinition entry.name, position⟩ s) := by
  have hlook : look id s = .ok s.table s := rfl
  have hfunction : s.table.function? item = some f := by
    rw [SymbolTable.function?, hentry, Option.bind_some, Item.function?, hf]
  unfold checkDuplicateFunction
  rw [bind_ok hlook, isOverload_iff]
  simp only [hentry, hfunction]
  split
  · rename_i hany
    refine .inr ⟨fun hall => ?_, rfl⟩
    obtain ⟨j, hj, hduplicate⟩ := List.any_eq_true.1 hany
    obtain ⟨hfound, hne⟩ := List.mem_filter.1 hj
    exact absurd (hall j hfound (by simpa using hne)) (by simpa using hduplicate)
  · rename_i hnone
    refine .inl ⟨fun j hfound hne => ?_, rfl⟩
    by_contra hduplicate
    have hj : j ∈ (s.table.findLocal entry.name entry.scope [] none).filter (· != item) :=
      List.mem_filter.2 ⟨hfound, by simpa using hne⟩
    exact hnone (List.any_eq_true.2 ⟨j, hj, by simpa using hduplicate⟩)

/-! ## Behind the check -/

/-- The class is there. -/
abbrev HasClass (cls : ItemId) (s : State) : Prop := s.table.kind? cls = some .cls

theorem change_passes {g : SymbolTable → SymbolTable} (hg : ∀ t : SymbolTable, t.Develops (g t)) :
    Passes (HasClass cls) (change g) :=
  fun s hs => ⟨⟨⟩, _, rfl, (hg s.table).kinds cls _ hs⟩

theorem look_passes {α : Type} {g : SymbolTable → α} : Passes (HasClass cls) (look g) :=
  fun s hs => ⟨_, s, rfl, hs⟩

/-- All but a second destructor can be filed with a class. -/
theorem registerMember_passes (hrole : decl.role ≠ .destruct) :
    Passes (HasClass cls) (registerMember cls item decl) := by
  intro s hs
  obtain ⟨c, hc⟩ := exists_class?_of_kind? hs
  have hfunction : look (·.function? item) s = .ok (s.table.function? item) s := rfl
  have hclass : look (·.class? cls) s = .ok (s.table.class? cls) s := rfl
  have hfound : expect "member of a non-class" (some c) s = .ok c s := rfl
  have hmodify : ∀ g : Class → Class, Passes (HasClass cls) (change (·.modifyClass cls g)) :=
    fun g => change_passes fun _ => .modifyClass
  unfold registerMember
  rw [bind_ok hfunction, bind_ok hclass, hc, bind_ok hfound]
  cases hdecl : decl.role with
  | construct =>
    dsimp only
    split
    · exact hmodify _ s hs
    · split
      · exact (hmodify _).bind (fun _ => change_passes fun _ => .modifyFunction) s hs
      · exact hmodify _ s hs
  | destruct => exact absurd hdecl hrole
  | cast direction => cases direction <;> exact hmodify _ s hs
  | operator | plain | accessor => exact hmodify _ s hs

theorem registerMember_destructor {c : Class} (hrole : decl.role = .destruct) (hc : s.table.class? cls = some c)
    (hnone : c.destructor = none) : ∃ s', registerMember cls item decl s = .ok ⟨⟩ s' := by
  have hfunction : look (·.function? item) s = .ok (s.table.function? item) s := rfl
  have hclass : look (·.class? cls) s = .ok (s.table.class? cls) s := rfl
  have hfound : expect "member of a non-class" (some c) s = .ok c s := rfl
  unfold registerMember
  rw [bind_ok hfunction, bind_ok hclass, hc, bind_ok hfound, hrole]
  simp only [hnone]
  exact ⟨_, rfl⟩

theorem declareVariant_passes {canonical : ItemId} {kept : Nat} (hrole : decl.role ≠ .destruct) :
    Passes (HasClass cls) (declareVariant decl canonical entry f (some cls) kept) := by
  unfold declareVariant
  refine .bind (fun s hs => ⟨_, _, rfl, Develops.newScope.kinds cls _ hs⟩) fun own => ?_
  refine .bind (fun s hs => ⟨_, _, rfl, (Develops.addItem (by simp)).kinds cls _ hs⟩) fun item => ?_
  refine .bind (fun s hs => ⟨_, _, rfl, hs⟩) fun _ => ?_
  refine .bind (change_passes fun _ => .modifyFunction) fun _ => ?_
  refine .bind (change_passes fun _ => .modifyItem (fun _ => rfl) fun _ => rfl) fun _ => ?_
  exact .bind (change_passes fun _ => .modifyModule) fun _ => registerMember_passes hrole

theorem declareVariants_passes {canonical : ItemId} (hrole : decl.role ≠ .destruct) :
    Passes (HasClass cls) (declareVariants decl canonical (some cls)) := by
  unfold declareVariants
  refine .bind look_passes fun _ => .bind look_passes fun _ => ?_
  split
  · exact .forM fun _ => declareVariant_passes hrole
  · exact .pure

/-- Without optional parameters there are no variants. -/
theorem declareVariants_none {canonical : ItemId} {owner : Option ItemId} (hcount : decl.optionalCount = 0) :
    declareVariants decl canonical owner s = .ok ⟨⟩ s := by
  have hitem : look (·.item? canonical) s = .ok (s.table.item? canonical) s := rfl
  have hfunction : look (·.function? canonical) s = .ok (s.table.function? canonical) s := rfl
  unfold declareVariants
  rw [bind_ok hitem, bind_ok hfunction, hcount]
  cases s.table.item? canonical <;> cases s.table.function? canonical <;> rfl

/-! ## Member functions -/

/-- Make the item of a member function and resolve its signature. -/
def signMember (an : Analyst) (frame : Frame) (decl : FunctionDef) (scope : ScopeId) (cls : ItemId) :
    Analysis ItemId := do
  let item ← createFunction frame decl scope decl.itemName (some cls) 0
  resolveSignature an frame decl item (some cls)
  return item

/-- The function is no second destructor of the class, nor one with optional parameters. -/
structure LeavesDestructor (decl : FunctionDef) (cls : ItemId) (t : SymbolTable) : Prop where
  single : decl.role = .destruct → ∀ c, t.class? cls = some c → c.destructor = none
  plain : decl.role = .destruct → decl.optionalCount = 0

/-- A member function that passes its check is filed with its class, with its variants. -/
theorem file_ok (hcls : HasClass cls s) (hdestructor : LeavesDestructor decl cls s.table) :
    ∃ s', (do
      registerMember cls item decl
      declareVariants decl item (some cls)) s = .ok ⟨⟩ s' := by
  by_cases hrole : decl.role = .destruct
  · obtain ⟨c, hc⟩ := exists_class?_of_kind? hcls
    obtain ⟨s', hregister⟩ : ∃ s', registerMember cls item decl s = .ok ⟨⟩ s' :=
      registerMember_destructor hrole hc (hdestructor.single hrole c hc)
    exact ⟨s', (bind_ok hregister).trans (declareVariants_none (hdestructor.plain hrole))⟩
  · have hregister : Passes (HasClass cls) (registerMember cls item decl) := registerMember_passes hrole
    obtain ⟨_, s', hfile, -⟩ := hregister.bind (fun _ => declareVariants_passes hrole) s hcls
    exact ⟨s', hfile⟩

/-- **What members exclude each other.** A member function with a resolved signature is declared exactly if it
is an overload. Else it is a duplicate: its role, its operator with its side, and its result do not matter. -/
theorem member_declared_iff (hnew : s.declared.lookup ⟨frame.id, decl.node.id⟩ = none)
    (hplain : decl.isGeneric = false) (hinternal : decl.keywords.exported = false)
    (hsigned : signMember an frame decl scope cls s = .ok item s₁)
    (hentry : s₁.table.item? item = some entry) (hf : entry.entity = .fn f) (hcls : HasClass cls s₁)
    (hdestructor : LeavesDestructor decl cls s₁.table) :
    ((∃ s', declareFunction an frame decl scope (some cls) s = .ok item s') ↔
        s₁.table.IsOverload item entry f) ∧
      (declareFunction an frame decl scope (some cls) s =
          .error ⟨.duplicateDefinition entry.name, decl.node.position⟩ s₁ ↔
        ¬ s₁.table.IsOverload item entry f) := by
  have hundeclared : declared? frame decl.node s = .ok none s := by
    rw [← hnew]
    rfl
  obtain ⟨made, s₀, hcreate, hrest⟩ := of_bind_ok hsigned
  obtain ⟨_, s₂, hsignature, hpure⟩ := of_bind_ok hrest
  cases hpure
  have hrun : declareFunction an frame decl scope (some cls) s = (do
      checkDuplicateFunction item decl.node.position
      registerMember cls item decl
      declareVariants decl item (some cls)
      recordDeclared frame decl.node item
      return item) s₁ := by
    unfold declareFunction
    rw [bind_ok hundeclared]
    dsimp only
    rw [if_neg (by simp [hplain]), bind_ok hcreate, bind_ok hsignature, if_neg (by simp [hinternal])]
  rw [hrun]
  rcases checkDuplicateFunction_eq decl.node.position hentry hf with ⟨hoverload, hcheck⟩ | ⟨hclash, hcheck⟩
  · obtain ⟨s₂, hfile⟩ : ∃ s₂, (do
        registerMember cls item decl
        declareVariants decl item (some cls)) s₁ = .ok ⟨⟩ s₂ := file_ok hcls hdestructor
    obtain ⟨_, s₃, hregister, hvariants⟩ := of_bind_ok hfile
    rw [bind_ok hcheck, bind_ok hregister, bind_ok hvariants]
    exact ⟨⟨fun _ => hoverload, fun _ => ⟨_, rfl⟩⟩, nofun, fun hclash => absurd hoverload hclash⟩
  · rw [bind_error hcheck]
    simp [hclash]

end Analysis

/-! ## Members that differ otherwise -/

/-- A member function that is only declared. -/
def declaredMember (id : Nat) (role : Role) (result : Native) (params : List (Param Expr)) : FunctionDef :=
  { node := ⟨.written id, {}⟩, name := ⟨role.defaultName, {}⟩, role, params
    returnType := some { form := .native result } }

/-- `class A` with these member functions. -/
def classOf (members : List FunctionDef) : ClassDef :=
  { node := ⟨.written 1, {}⟩, name := ⟨"A", {}⟩, members := members.map .function }

/-- `x: int`. -/
def factor (id : Nat) : Param Expr :=
  { node := ⟨.written id, {}⟩, name := ⟨"x", {}⟩, ty := { form := .native .int } }

/-- A class without members. -/
def bareClassState : State :=
  Analysis.behind (Analysis.createClass bareFrame (classOf []) ⟨0⟩ "A") bareModuleState

/-- The class with a cast to `int`. -/
def castClassState : State :=
  Analysis.behind (Analysis.declareFunction (analyst 1) bareFrame (declaredMember 2 (.cast .outward) .int []) ⟨2⟩
    (some ⟨0⟩)) bareClassState

/-- The first cast is declared, and the second one, to another type, is refused. -/
theorem member_declared_iff_casts :
    (∃ s, Analysis.declareFunction (analyst 1) bareFrame (declaredMember 2 (.cast .outward) .int []) ⟨2⟩
        (some ⟨0⟩) bareClassState = .ok ⟨2⟩ s) ∧
      ∃ s, Analysis.declareFunction (analyst 1) bareFrame (declaredMember 3 (.cast .outward) .bool []) ⟨2⟩
        (some ⟨0⟩) castClassState = .error ⟨.duplicateDefinition "to", {}⟩ s := by
  have hdestructor : ∀ id ty t, Analysis.LeavesDestructor (declaredMember id (.cast .outward) ty []) ⟨0⟩ t :=
    fun _ _ _ => ⟨nofun, nofun⟩
  have hfirst : Analysis.signMember (analyst 1) bareFrame (declaredMember 2 (.cast .outward) .int [])
      ⟨2⟩ ⟨0⟩ bareClassState = .ok ⟨2⟩ _ := rfl
  have hsecond : Analysis.signMember (analyst 1) bareFrame (declaredMember 3 (.cast .outward) .bool [])
      ⟨2⟩ ⟨0⟩ castClassState = .ok ⟨3⟩ _ := rfl
  constructor
  · exact (Analysis.member_declared_iff rfl rfl rfl hfirst rfl rfl rfl (hdestructor ..)).1.2
      (Analysis.isOverload_iff.2 (by decide +kernel))
  · exact ⟨_, (Analysis.member_declared_iff rfl rfl rfl hsecond rfl rfl rfl (hdestructor ..)).2.2 fun h =>
      absurd (Analysis.isOverload_iff.1 h) (by decide +kernel)⟩

/-- Casts to two types, the two increments, and a product for either side. -/
def alikeMembers : List (FunctionDef × FunctionDef) :=
  [(declaredMember 2 (.cast .outward) .int [], declaredMember 3 (.cast .outward) .bool []),
   (declaredMember 2 (.operator (.unary .preIncrement) .left) .int [],
    declaredMember 3 (.operator (.unary .postIncrement) .left) .int []),
   (declaredMember 2 (.operator (.binary .mul) .left) .int [factor 4],
    declaredMember 3 (.operator (.binary .mul) .right) .int [factor 5])]

/-- The answer to a module that is nothing but a class of these members. -/
def classRoot (members : List FunctionDef) : Except Failure ModuleId :=
  (({} : Session).analyseTree { statements := [.cls (classOf members)] }).root

/-- A class may have each of the two members, but not both. -/
theorem alike_members_refused :
    alikeMembers.map (fun p => (classRoot [p.1], classRoot [p.2], classRoot [p.1, p.2])) =
      ["to", "operator++", "operator*"].map fun name =>
        (.ok ⟨0⟩, .ok ⟨0⟩, .error (.analysis ⟨.duplicateDefinition name, {}⟩)) := by
  decide +kernel

end SemanticAnalysis
