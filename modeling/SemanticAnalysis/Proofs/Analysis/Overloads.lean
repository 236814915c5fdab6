import SemanticAnalysis.Proofs.Analysis.Variants

/-!
# Functions of one name

The functions that are declared in a scope under one name differ in their parameters. Generic functions are left
out: they are declared without a check.

1. A declared function stands in its scope from then on (`Receives.stands`), and keeps its parameters.
2. The check compares a new function with all that stand under its name (`declareFunction_apart`).
3. So a run of declarations leaves its functions apart, by induction (`declareFunctions_apart`), and so do the member
   functions of a class (`members_apart`).

Casts and operators are named by their roles. Which of them have one name does not depend on a side or on the type of
a result, and some operators share their symbols (`Role.defaultName_eq_iff`).
-/

namespace SemanticAnalysis

open Analysis (bind_ok of_bind_ok)

/-! ## Standing functions -/

namespace SymbolTable

variable {t u : SymbolTable} {scope : ScopeId} {name : String} {i j : ItemId}

/-- A scope has a function under a name. It is neither generic nor a variant. -/
structure Stands (t : SymbolTable) (scope : ScopeId) (name : String) (i : ItemId) : Prop
    extends t.Lists scope name i where
  declared : ∃ item f, t.item? i = some item ∧ item.entity = .fn f ∧ item.name = name ∧ item.scope = scope ∧
    item.generics = 0 ∧ f.variantOf = none

theorem Stands.later (h : t.Stands scope name i) (hpersists : t.Persists u) (hconserves : t.Conserves u) :
    u.Stands scope name i where
  toLists := hpersists.lists h.toLists
  declared := by
    obtain ⟨item, f, hitem, hf, rfl, rfl, hgenerics, hvariant⟩ := h.declared
    obtain ⟨item', g, hitem', hg, hname, hscope, hgenerics', hvariant'⟩ :=
      hconserves.natures.exists_function hitem hf
    exact ⟨item', g, hitem', hg, hname, hscope, hgenerics'.trans hgenerics, hvariant'.trans hvariant⟩

/-- Two functions differ in their parameters, other than by names. -/
def Differ (t : SymbolTable) (i j : ItemId) : Prop :=
  ∃ f g, t.function? i = some f ∧ t.function? j = some g ∧ Ty.eraseParams f.params ≠ Ty.eraseParams g.params

theorem Differ.later (h : t.Differ i j) (hhonours : t.Honours u) : u.Differ i j := by
  obtain ⟨f, g, hf, hg, hne⟩ := h
  obtain ⟨f', hf', hparams, -⟩ := hhonours.exists_function? hf
  obtain ⟨g', hg', hparams', -⟩ := hhonours.exists_function? hg
  exact ⟨f', g', hf', hg', by rwa [hparams, hparams']⟩

/-- Declared functions stand in a scope under their names, and those of one name differ. -/
structure Apart (t : SymbolTable) (scope : ScopeId) (declared : List (FunctionDef × ItemId)) : Prop where
  stand : ∀ d ∈ declared, t.Stands scope d.1.itemName d.2
  differ : declared.Pairwise fun d e => d.1.itemName = e.1.itemName → t.Differ d.2 e.2

theorem Apart.later {declared : List (FunctionDef × ItemId)} (h : t.Apart scope declared) (hpersists : t.Persists u)
    (hconserves : t.Conserves u) (hhonours : t.Honours u) : u.Apart scope declared where
  stand d hd := (h.stand d hd).later hpersists hconserves
  differ := h.differ.imp fun hdiffer hname => (hdiffer hname).later hhonours

end SymbolTable

/-! ## Later states -/

namespace State

variable {s s' s'' : State} {scope : ScopeId}

/-- The state comes about later in an analysis. -/
structure Precedes (s s' : State) : Prop where
  course : Course s s'
  honours : s.Honours s'

/-- The scope is there to declare functions in, and callbacks leave alone what is there. -/
structure Receives (s : State) (scope : ScopeId) : Prop where
  proper : s.Proper
  grounded : s.Grounded
  discreet : s.attributes.Discreet
  loyal : s.attributes.Loyal
  scope : s.HasScope scope

namespace Precedes

theorem refl (s : State) : s.Precedes s := ⟨.refl s, .refl s⟩

theorem trans (h : s.Precedes s') (h' : s'.Precedes s'') : s.Precedes s'' :=
  ⟨h.course.trans h'.course, h.honours.trans h'.honours⟩

theorem receives (h : s.Precedes s') (hs : s.Receives scope) : s'.Receives scope where
  proper := h.course.proper hs.proper
  grounded := h.honours.grounded hs.grounded
  discreet := h.course.discreet hs.discreet
  loyal := h.course.attributes_eq ▸ hs.loyal
  scope := h.course.hasScope hs.discreet hs.scope

theorem apart {declared : List (FunctionDef × ItemId)} (h : s.Precedes s') (hs : s.Receives scope)
    (hapart : s.table.Apart scope declared) : s'.table.Apart scope declared :=
  hapart.later (h.course.persists hs.discreet) (h.course.conserves hs.loyal) h.honours.table

end Precedes

theorem Receives.stands {name : String} {i : ItemId} (hs : s.Receives scope) (hi : s.table.Stands scope name i)
    (h : Course s s') : s'.table.Stands scope name i :=
  hi.later (h.persists hs.discreet) (h.conserves hs.loyal)

end State

/-! ## One declaration -/

namespace Analysis

variable {an : Analyst} {frame : Frame} {decl : FunctionDef} {scope : ScopeId} {cls : Option ItemId}
variable {s s₁ s' : State} {i j : ItemId}

/-- A function with a signature stands in its scope, and is new. -/
theorem signFunction_stands (hcourses : an.Orderly) (hfaithful : an.Faithful) (hs : s.Receives scope)
    (hrun : signFunction an frame decl scope cls s = .ok i s₁) :
    s.Precedes s₁ ∧ s₁.table.Stands scope decl.itemName i ∧ s.table.items.size ≤ i.index := by
  have hbuilds : Within s s.Vouched (signFunction an frame decl scope cls) fun i s' =>
      s.Builds i s' ∧ s.Signs i s' :=
    (createFunction_builds hs.grounded).bind fun _ =>
      (resolveSignature_builds hfaithful hs.grounded).bind fun _ => .pure fun _ hs' => hs'
  obtain ⟨hhonours, hnew⟩ := hbuilds s (.refl s) (.of_classes rfl)
  rw [behind, hrun] at hhonours
  obtain ⟨made, s₂, hcreate, hrest⟩ := of_bind_ok hrun
  obtain ⟨_, s₃, hsignature, hpure⟩ := of_bind_ok hrest
  cases hpure
  have hcreated : Course s s₂ := createFunction_orderly.course hs.proper hcreate
  have hsigned : Course s₂ s₁ := (resolveSignature_orderly hcourses).course (hcreated.proper hs.proper) hsignature
  have hstands : s₂.table.Stands scope decl.itemName i :=
    { toLists := createFunction_lists hs.discreet hs.scope s i s₂ hs.proper (.refl s) hcreate
      declared := createFunction_ok hcreate }
  have hloyal : s₂.attributes.Loyal := hcreated.attributes_eq ▸ hs.loyal
  refine ⟨⟨hcreated.trans hsigned, hhonours⟩, ?_, (hnew i s₁ hrun).1.fresh⟩
  exact hstands.later (hsigned.persists (hcreated.discreet hs.discreet)) (hsigned.conserves hloyal)

/-- A function that passes its check differs from those that stood under its name. -/
theorem checkDuplicateFunction_differs {position : Position} (hi : s.table.Stands scope decl.itemName i)
    (hj : s.table.Stands scope decl.itemName j) (hne : j ≠ i)
    (hcheck : checkDuplicateFunction i position s = .ok ⟨⟩ s') : s.table.Differ j i := by
  obtain ⟨entry, f, hentry, hf, hname, hscope, -⟩ := hi.declared
  obtain ⟨other, g, hother, hg, -, -, hplain, hvariant⟩ := hj.declared
  have hoverload : s.table.IsOverload i entry f := by
    rcases checkDuplicateFunction_eq position hentry hf with ⟨hoverload, -⟩ | ⟨-, hclash⟩
    · exact hoverload
    · cases hclash.symm.trans hcheck
  have hfound : j ∈ s.table.findLocal entry.name entry.scope [] none := by
    rw [hname, hscope]
    exact hj.found
  obtain ⟨g', hg', hparams⟩ := hoverload j hfound hne other hother
  cases hg.symm.trans hg'
  refine ⟨g, f, ?_, ?_, ?_⟩
  · rw [SymbolTable.function?, hother, Option.bind_some, Item.function?, hg]
  · rw [SymbolTable.function?, hentry, Option.bind_some, Item.function?, hf]
  · rcases hparams with hisVariant | hisGeneric | hne
    · simp [hvariant] at hisVariant
    · simp [Item.isGeneric, hplain] at hisGeneric
    · exact hne

/-- What is done for a function with a signature. -/
def settleFunction (frame : Frame) (decl : FunctionDef) (cls : Option ItemId) (item : ItemId) : Analysis ItemId := do
  checkDuplicateFunction item decl.node.position
  fileFunction decl item cls
  declareVariants decl item cls
  publish frame decl item

theorem settleFunction_orderly {s₀ : State} : Orderly s₀ (settleFunction frame decl cls i) := by
  have hfile : Orderly s₀ (fileFunction decl i cls) := by
    cases cls with
    | none => exact .pure
    | some c => exact registerMember_orderly
  have hpublish : Orderly s₀ (publish frame decl i) := by
    unfold publish
    exact .guard (.discard exportItem_orderly) (.bind recordDeclared_orderly fun _ => .pure)
  exact .bind checkDuplicateFunction_orderly fun _ => .bind hfile fun _ =>
    .bind declareVariants_orderly fun _ => hpublish

/-- The function keeps the parameters of its signature, although it is given variants. -/
theorem settleFunction_params {f : Function} (hf : s₁.table.function? i = some f) (hvariants : f.variants = [])
    (hrun : settleFunction frame decl cls i s₁ = .ok j s') :
    j = i ∧ ∃ g, s'.table.function? i = some g ∧ g.params = f.params := by
  obtain ⟨_, s₂, hcheck, hrun⟩ := of_bind_ok hrun
  obtain ⟨_, s₃, hfile, hrun⟩ := of_bind_ok hrun
  obtain ⟨_, s₄, hloop, hpublish⟩ := of_bind_ok hrun
  have hkeeps := (checkDuplicateFunction_keeping _ _ _ hcheck).trans (fileFunction_keeping _ _ _ hfile)
  obtain ⟨source, hsource, hface, hnone⟩ := hkeeps i f hf
  have hmade := declareVariants_made hsource (hnone.trans hvariants) hloop
  obtain ⟨g, hg, hface', -⟩ := hmade.mono (publish_keeping _ _ _ hpublish)
  exact ⟨publish_returns _ _ _ hpublish, g, hg, congrArg Prod.fst (hface'.trans hface)⟩

theorem declareFunction_precedes (hcourses : an.Orderly) (hfaithful : an.Faithful) (hs : s.Receives scope)
    (hrun : declareFunction an frame decl scope cls s = .ok i s') : s.Precedes s' where
  course := (declareFunction_orderly hcourses).course hs.proper hrun
  honours := (declareFunction_faithful hfaithful).honours_ok hs.grounded hrun

/-- **One declaration.** A new function stands in its scope, and differs from those that stood under its name. -/
theorem declareFunction_apart (hcourses : an.Orderly) (hfaithful : an.Faithful) (hs : s.Receives scope)
    (hnew : s.declared.lookup ⟨frame.id, decl.node.id⟩ = none) (hplain : decl.isGeneric = false)
    (hrun : declareFunction an frame decl scope cls s = .ok i s') :
    s'.table.Stands scope decl.itemName i ∧
      ∀ j, s.table.Stands scope decl.itemName j → s'.table.Differ j i := by
  have hwhole := declareFunction_precedes hcourses hfaithful hs hrun
  rw [declareFunction_eq hnew hplain] at hrun
  obtain ⟨made, s₁, hsign, hsettle⟩ := of_bind_ok hrun
  obtain ⟨hsigned, hstands, hfresh⟩ := signFunction_stands hcourses hfaithful hs hsign
  obtain ⟨f, hf, hheading⟩ := signFunction_signed hfaithful hs.grounded hsign
  obtain ⟨rfl, f', hf', hparams⟩ := settleFunction_params hf hheading.variants hsettle
  have hs₁ := hsigned.receives hs
  refine ⟨hs₁.stands hstands (settleFunction_orderly.course hs₁.proper hsettle), fun j hj => ?_⟩
  -- the other function has the same parameters before the declaration, at the check, and behind it
  obtain ⟨item, g, hitem, hg, -⟩ := hj.declared
  have hg : s.table.function? j = some g := by
    rw [SymbolTable.function?, hitem, Option.bind_some, Item.function?, hg]
  obtain ⟨g₁, hg₁, hsame, -⟩ := hsigned.honours.table.exists_function? hg
  obtain ⟨g', hg', hsame', -⟩ := hwhole.honours.table.exists_function? hg
  have hne : j ≠ i := by
    rintro rfl
    exact absurd (SymbolTable.lt_of_item? hitem) (Nat.not_lt.2 hfresh)
  obtain ⟨_, s₂, hcheck, -⟩ := of_bind_ok hsettle
  obtain ⟨h₁, k₁, hh₁, hk₁, hdiffer⟩ :=
    checkDuplicateFunction_differs hstands (hs.stands hj hsigned.course) hne hcheck
  cases hg₁.symm.trans hh₁
  cases hf.symm.trans hk₁
  exact ⟨g', f', hg', hf', by rwa [hparams, hsame', ← hsame]⟩

/-! ## Runs of declarations -/

/-- Declare functions from left to right. -/
def declareFunctions (an : Analyst) (frame : Frame) (scope : ScopeId) (cls : Option ItemId)
    (decls : List FunctionDef) : Analysis (List ItemId) :=
  decls.mapM fun decl => declareFunction an frame decl scope cls

/-- Each of the functions is new when its turn comes. -/
def NewInTurn (an : Analyst) (frame : Frame) (scope : ScopeId) (cls : Option ItemId) :
    List FunctionDef → State → Prop
  | [], _ => True
  | decl :: rest, s => s.declared.lookup ⟨frame.id, decl.node.id⟩ = none ∧
      ∀ i s', declareFunction an frame decl scope cls s = .ok i s' → NewInTurn an frame scope cls rest s'

/-- The functions that are not generic, with their items. -/
def plainFunctions (decls : List FunctionDef) (items : List ItemId) : List (FunctionDef × ItemId) :=
  (decls.zip items).filter (!·.1.isGeneric)

theorem plainFunctions_cons (decl : FunctionDef) (decls : List FunctionDef) (i : ItemId) (items : List ItemId) :
    plainFunctions (decl :: decls) (i :: items) = plainFunctions [decl] [i] ++ plainFunctions decls items :=
  List.filter_append [(decl, i)] (decls.zip items)

/-- The run goes on with one more function. -/
theorem declareFunction_extends (hcourses : an.Orderly) (hfaithful : an.Faithful) (hs : s.Receives scope)
    (hnew : s.declared.lookup ⟨frame.id, decl.node.id⟩ = none) {earlier : List (FunctionDef × ItemId)}
    (hapart : s.table.Apart scope earlier) (hrun : declareFunction an frame decl scope cls s = .ok i s') :
    s'.table.Apart scope (earlier ++ plainFunctions [decl] [i]) := by
  have hwhole := declareFunction_precedes hcourses hfaithful hs hrun
  have hearlier := hwhole.apart hs hapart
  cases hgeneric : decl.isGeneric with
  | true => simpa [plainFunctions, hgeneric] using hearlier
  | false =>
    obtain ⟨hstands, hdiffers⟩ := declareFunction_apart hcourses hfaithful hs hnew hgeneric hrun
    have hlast : plainFunctions [decl] [i] = [(decl, i)] := by simp [plainFunctions, hgeneric]
    rw [hlast]
    refine ⟨fun d hd => ?_, List.pairwise_append.2 ⟨hearlier.differ, List.pairwise_singleton .., ?_⟩⟩
    · rcases List.mem_append.1 hd with hd | hd
      · exact hearlier.stand d hd
      · cases List.mem_singleton.1 hd
        exact hstands
    · intro d hd e he hname
      cases List.mem_singleton.1 he
      exact hdiffers d.2 (hname ▸ hapart.stand d hd)

theorem declareFunctions_extends (hcourses : an.Orderly) (hfaithful : an.Faithful) {decls : List FunctionDef}
    {items : List ItemId} {earlier : List (FunctionDef × ItemId)} (hs : s.Receives scope)
    (hnew : NewInTurn an frame scope cls decls s) (hapart : s.table.Apart scope earlier)
    (hrun : declareFunctions an frame scope cls decls s = .ok items s') :
    s.Precedes s' ∧ s'.table.Apart scope (earlier ++ plainFunctions decls items) := by
  induction decls generalizing s earlier items with
  | nil =>
    cases hrun
    exact ⟨.refl _, by simpa [plainFunctions] using hapart⟩
  | cons decl rest ih =>
    rw [declareFunctions, List.mapM_cons] at hrun
    obtain ⟨i, s₁, hfirst, hrun⟩ := of_bind_ok hrun
    obtain ⟨later, s₂, hrest, hpure⟩ := of_bind_ok hrun
    cases hpure
    have hstep := declareFunction_precedes hcourses hfaithful hs hfirst
    have hfirst' := declareFunction_extends hcourses hfaithful hs hnew.1 hapart hfirst
    obtain ⟨hlater, hall⟩ := ih (hstep.receives hs) (hnew.2 i s₁ hfirst) hfirst' hrest
    refine ⟨hstep.trans hlater, ?_⟩
    rwa [plainFunctions_cons, ← List.append_assoc]

/-- **Overloads differ.** In all later states, the functions of a run of declarations stand in their scope, and those
of one name differ in their parameters. Generic functions are excepted. -/
theorem declareFunctions_apart (depth : Nat) {decls : List FunctionDef} {items : List ItemId} {later : State}
    (hs : s.Receives scope) (hnew : NewInTurn (analyst depth) frame scope cls decls s)
    (hrun : declareFunctions (analyst depth) frame scope cls decls s = .ok items s') (hlater : s'.Precedes later) :
    later.table.Apart scope (plainFunctions decls items) := by
  have hnone : s.table.Apart scope [] := ⟨fun _ hd => absurd hd List.not_mem_nil, .nil⟩
  obtain ⟨hwhole, hapart⟩ :=
    declareFunctions_extends (analyst_orderly depth) (analyst_faithful depth) hs hnew hnone hrun
  exact hlater.apart (hwhole.receives hs) hapart

/-- A loop that keeps no results has gone the way of one that does. -/
theorem exists_mapM_of_forM {α β : Type} {f : α → Analysis β} {xs : List α}
    (hrun : xs.forM (fun a => discard (f a)) s = .ok ⟨⟩ s') : ∃ bs, xs.mapM f s = .ok bs s' := by
  induction xs generalizing s with
  | nil =>
    cases hrun
    exact ⟨[], rfl⟩
  | cons a rest ih =>
    obtain ⟨_, s₁, hfirst, hrest⟩ := of_bind_ok hrun
    obtain ⟨b, hb⟩ := of_discard_ok hfirst
    obtain ⟨bs, hbs⟩ := ih hrest
    refine ⟨b :: bs, ?_⟩
    rw [List.mapM_cons, bind_ok hb, bind_ok hbs]
    rfl

/-- **Members differ.** In all states behind the declaration of its members, the member functions of a class stand in
its scope, and those of one name differ in their parameters. Generic functions are excepted. -/
theorem members_apart (depth : Nat) {decl : ClassDef} {item : ItemId} (hs : s.Receives scope)
    (hnew : NewInTurn (analyst depth) frame scope (some item) decl.functions s)
    (hrun : declareMemberFunctions (analyst depth) frame decl item scope s = .ok ⟨⟩ s') :
    ∃ items, declareFunctions (analyst depth) frame scope (some item) decl.functions s = .ok items s' ∧
      ∀ later, s'.Precedes later → later.table.Apart scope (plainFunctions decl.functions items) := by
  obtain ⟨items, hitems⟩ : ∃ items,
      declareFunctions (analyst depth) frame scope (some item) decl.functions s = .ok items s' := by
    refine exists_mapM_of_forM ?_
    unfold declareMemberFunctions at hrun
    generalize (decl.flags.structural, decl.functions) = known at hrun
    split at hrun
    · cases hrun
    · exact hrun
  exact ⟨items, hitems, fun later => declareFunctions_apart depth hs hnew hitems⟩

end Analysis

/-! ## Names of members -/

namespace Operator

/-- The first operator with the symbol. -/
def twin : Operator → Operator
  | unary .negate => binary .sub
  | unary .plus => binary .add
  | unary .addressOf => binary .bitAnd
  | unary .dereference => binary .mul
  | unary .postIncrement => unary .preIncrement
  | unary .postDecrement => unary .preDecrement
  | op => op

theorem mem_all (op : Operator) : op ∈ all := by
  rcases op with op | op | _ | _ | _
  on_goal 1 => cases op
  on_goal 20 => cases op
  all_goals decide

theorem symbol_twin (op : Operator) : op.twin.symbol = op.symbol := by
  rcases op with _ | op | _ | _ | _
  on_goal 2 => cases op
  all_goals rfl

theorem symbol_eq_iff {a b : Operator} : a.symbol = b.symbol ↔ a.twin = b.twin := by
  constructor
  · have hall : ∀ a ∈ all, ∀ b ∈ all, a.symbol = b.symbol → a.twin = b.twin := by decide +kernel
    exact hall a (mem_all a) b (mem_all b)
  · intro h
    rw [← symbol_twin a, h, symbol_twin]

end Operator

namespace Role

/-- Roles that name functions alike have one twin. -/
def twin : Role → Role
  | operator op _ => operator op.twin .left
  | role => role

/-- Functions of the role are named by it. -/
def isNaming : Role → Bool
  | plain | accessor _ => false
  | _ => true

/-- A role that is named by no operator has a name of its own. -/
theorem naming_cases {role : Role} (h : role.isNaming = true) : (∃ op side, role = operator op side) ∨
    role.twin = role ∧ ∃ name, role.fixedName? = some name ∧ role.defaultName = name := by
  cases role with
  | plain | accessor => cases h
  | construct | destruct => exact .inr ⟨rfl, _, rfl, rfl⟩
  | cast direction => cases direction <;> exact .inr ⟨rfl, _, rfl, rfl⟩
  | operator op side => exact .inl ⟨op, side, rfl⟩

theorem eq_of_fixedName? {a b : Role} {name : String} (ha : a.fixedName? = some name) (hb : b.fixedName? = some name) :
    a = b := by
  rcases a with _ | _ | _ | (_ | _) | _ | _ <;> cases ha <;> rcases b with _ | _ | _ | (_ | _) | _ | _ <;>
    first | rfl | simp [fixedName?] at hb

theorem operator_ne_fixedName {op : Operator} {role : Role} {name : String} (h : role.fixedName? = some name) :
    "operator" ++ op.symbol ≠ name := by
  have hall : ∀ op ∈ Operator.all, ∀ name ∈ ["constructor", "destructor", "from", "to"],
      "operator" ++ op.symbol ≠ name := by decide +kernel
  refine hall op (Operator.mem_all op) name ?_
  rcases role with _ | _ | _ | (_ | _) | _ | _
  all_goals cases h
  all_goals decide

theorem defaultName_eq_iff {a b : Role} (ha : a.isNaming = true) (hb : b.isNaming = true) :
    a.defaultName = b.defaultName ↔ a.twin = b.twin := by
  rcases naming_cases ha with ⟨op, side, rfl⟩ | ⟨htwin, name, hname, hdefault⟩ <;>
    rcases naming_cases hb with ⟨op', side', rfl⟩ | ⟨htwin', name', hname', hdefault'⟩
  · have htwins : (operator op side).twin = (operator op' side').twin ↔ op.twin = op'.twin := by simp [twin]
    rw [htwins, ← Operator.symbol_eq_iff]
    exact String.append_right_inj _
  · rw [hdefault', htwin']
    refine iff_of_false (operator_ne_fixedName hname') ?_
    rintro rfl
    cases hname'
  · rw [hdefault, htwin]
    refine iff_of_false (operator_ne_fixedName hname).symm ?_
    rintro rfl
    cases hname
  · rw [hdefault, hdefault', htwin, htwin']
    refine ⟨?_, ?_⟩
    · rintro rfl
      exact eq_of_fixedName? hname hname'
    · rintro rfl
      exact Option.some_inj.1 (hname.symm.trans hname')

end Role

namespace FunctionDecl

variable {ε σ : Type} {f g : FunctionDecl ε σ}

/-- The function has the name that its role gives it. -/
structure IsNamedByRole (f : FunctionDecl ε σ) : Prop where
  naming : f.role.isNaming = true
  name : f.name.name = f.role.defaultName

theorem IsNamedByRole.itemName_eq (h : f.IsNamedByRole) : f.itemName = f.role.defaultName := by
  rcases Role.naming_cases h.naming with ⟨op, side, hrole⟩ | ⟨-, name, hname, hdefault⟩
  · have hnone : f.role.fixedName? = none := by rw [hrole]; rfl
    rw [itemName, hnone, Option.getD_none, h.name]
  · rw [itemName, hname, Option.getD_some, hdefault]

/-- Two functions that are named by their roles have one name exactly if the roles have one twin. -/
theorem IsNamedByRole.itemName_eq_iff (hf : f.IsNamedByRole) (hg : g.IsNamedByRole) :
    f.itemName = g.itemName ↔ f.role.twin = g.role.twin := by
  rw [hf.itemName_eq, hg.itemName_eq, Role.defaultName_eq_iff hf.naming hg.naming]

end FunctionDecl

/-- In a class, members whose roles name them alike differ. -/
theorem SymbolTable.Apart.twins_differ {t : SymbolTable} {scope : ScopeId} {declared : List (FunctionDef × ItemId)}
    (h : t.Apart scope declared) : declared.Pairwise fun d e => d.1.IsNamedByRole → e.1.IsNamedByRole →
      d.1.role.twin = e.1.role.twin → t.Differ d.2 e.2 :=
  h.differ.imp fun hdiffer hd he htwins => hdiffer ((hd.itemName_eq_iff he).2 htwins)

/-! ## Two operators of one name -/

/-- `operator*(x: int): int` and `operator*(): int`, a product and what the value points to. -/
def starMembers : List FunctionDef :=
  [declaredMember 2 (.operator (.binary .mul) .left) .int [factor 4],
   declaredMember 3 (.operator (.unary .dereference) .left) .int []]

theorem bareClassState_receives : bareClassState.Receives ⟨2⟩ := by
  have hmodule : ({} : Session).start.Honours bareModuleState := .of_spares .newModule rfl rfl (Nat.le_refl _)
  have hgrounded : bareModuleState.Grounded := hmodule.grounded (Session.grounded_start Session.honest_default)
  have hgrowing : ({} : Session).attributes.Growing := fun r hr => nomatch hr
  have hproper : bareModuleState.Proper := (Session.proper_start hgrowing).made ..
  have hcourse : Course bareModuleState bareClassState :=
    Analysis.createClass_orderly bareModuleState hproper (.refl _)
  exact
    { proper := hcourse.proper hproper
      grounded := (Analysis.createClass_faithful.honours bareModuleState hgrounded).grounded hgrounded
      discreet := fun r hr => nomatch hr
      loyal := fun r hr => nomatch hr
      scope := ⟨_, rfl⟩ }

/-- Both are declared, since they differ in their parameters. -/
theorem members_apart_stars : ∃ items s',
    Analysis.declareMemberFunctions (analyst 1) bareFrame (classOf starMembers) ⟨0⟩ ⟨2⟩ bareClassState = .ok ⟨⟩ s' ∧
      s'.table.Apart ⟨2⟩ (Analysis.plainFunctions starMembers items) := by
  have hsecond : Analysis.passes (fun _ s => (s.declared.lookup ⟨⟨0⟩, .written 3⟩).isNone)
      (Analysis.declareFunction (analyst 1) bareFrame starMembers[0] ⟨2⟩ (some ⟨0⟩) bareClassState) = true := by
    decide +kernel
  obtain ⟨i, s₁, hfirst, hnone⟩ := Analysis.passes_iff.1 hsecond
  have hnew : Analysis.NewInTurn (analyst 1) bareFrame ⟨2⟩ (some ⟨0⟩) starMembers bareClassState := by
    refine ⟨rfl, fun j s hrun => ?_⟩
    cases hfirst.symm.trans hrun
    exact ⟨Option.isNone_iff_eq_none.1 hnone, fun _ _ _ => trivial⟩
  have hruns : Analysis.passes (fun _ _ => true) (Analysis.declareMemberFunctions (analyst 1) bareFrame
      (classOf starMembers) ⟨0⟩ ⟨2⟩ bareClassState) = true := by
    decide +kernel
  obtain ⟨_, s', hrun, -⟩ := Analysis.passes_iff.1 hruns
  obtain ⟨items, -, hapart⟩ := Analysis.members_apart 1 bareClassState_receives hnew hrun
  exact ⟨items, s', hrun, hapart s' (.refl s')⟩

end SemanticAnalysis
