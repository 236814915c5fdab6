import SemanticAnalysis.Proofs.Analysis.Members
import SemanticAnalysis.Proofs.Faithful.Programs
import SemanticAnalysis.Proofs.Generics.Inference
import SemanticAnalysis.Proofs.Overload.Binding

/-!
# Variants of a function

A function whose last parameters have defaults gets one variant for each number of them that a call may leave out
(`variants_cover`): for each number of positional arguments that the function can do with there is exactly one of
the function and its variants that takes them, and for any other number there is none.

1. Filing a member and exporting a name leave alone what functions are called with (`Keeps`).
2. One round of the loop adds one variant, and the whole loop one for each count (`Made`).
3. The parameters of a resolved signature are the written ones, and there are no variants yet
   (`resolveSignature_signed`).
4. So the function and its variants take `n`, `n - 1`, ..., `n - d` arguments (`Made.covers`).

Each variant is filed with the class of the function. That is one destructor too many for a destructor with optional
parameters, which is refused for this reason (`optional_destructor_refused`).
-/

namespace SemanticAnalysis

open Analysis (bind_ok of_bind_ok)

/-! ## What is kept -/

/-- What a call goes by, and how a variant refers to the function it is of. -/
def Function.face (f : Function) : List (Parameter Ty) × Ty × Option ItemId × List (Nat × NodeId) :=
  (f.params, f.returnType, f.variantOf, f.suppliedDefaults)

namespace SymbolTable

variable {t u v : SymbolTable} {i : ItemId}

/-- Functions keep their faces and their variants. -/
def Keeps (t u : SymbolTable) : Prop :=
  ∀ i f, t.function? i = some f → ∃ g, u.function? i = some g ∧ g.face = f.face ∧ g.variants = f.variants

namespace Keeps

theorem refl (t : SymbolTable) : t.Keeps t := fun _ f hf => ⟨f, hf, rfl, rfl⟩

theorem trans (h : t.Keeps u) (h' : u.Keeps v) : t.Keeps v := by
  intro i f hf
  obtain ⟨g, hg, hface, hvariants⟩ := h i f hf
  obtain ⟨k, hk, hface', hvariants'⟩ := h' i g hg
  exact ⟨k, hk, hface'.trans hface, hvariants'.trans hvariants⟩

theorem of_function? (h : ∀ i, u.function? i = t.function? i) : t.Keeps u :=
  fun i f hf => ⟨f, (h i).trans hf, rfl, rfl⟩

theorem of_items (h : u.items = t.items) : t.Keeps u :=
  of_function? fun i => by rw [function?, function?, item?, item?, h]

theorem modifyFunction {g : Function → Function} (hface : ∀ f, (g f).face = f.face)
    (hvariants : ∀ f, (g f).variants = f.variants) : t.Keeps (t.modifyFunction i g) := by
  intro k f hf
  rw [function?_modifyFunction]
  split
  · rw [hf]
    exact ⟨g f, rfl, hface f, hvariants f⟩
  · exact ⟨f, hf, rfl, rfl⟩

theorem modifyClass {g : Class → Class} : t.Keeps (t.modifyClass i g) :=
  of_function? fun k => t.function?_modifyClass i k g

theorem modifyItem {g : Item → Item} (hg : ∀ item, (g item).entity = item.entity) : t.Keeps (t.modifyItem i g) :=
  of_function? fun k => t.bind_modifyItem (fun item => by rw [Item.function?, Item.function?, hg]) i k

theorem addItem {item : Item} : t.Keeps (t.addItem item).2 := by
  intro k f hf
  refine ⟨f, ?_, rfl, rfl⟩
  rw [function?, item?_addItem_of_ne (Nat.ne_of_lt (lt_of_function? hf))]
  exact hf

end Keeps

end SymbolTable

/-- If the step gets through, functions keep their faces and their variants. -/
def Keeping {α : Type} (x : Analysis α) : Prop := ∀ s a s', x s = .ok a s' → s.table.Keeps s'.table

namespace Keeping

variable {α β : Type} {x : Analysis α} {f : α → Analysis β}

theorem pure {a : α} : Keeping (Pure.pure a : Analysis α) := by
  rintro s _ _ ⟨⟩
  exact .refl _

theorem bind (hx : Keeping x) (hf : ∀ a, Keeping (f a)) : Keeping (x >>= f) := by
  intro s b s'' h
  obtain ⟨a, s', hxs, hfs⟩ := of_bind_ok h
  exact (hx s a s' hxs).trans (hf a s' b s'' hfs)

theorem throw {e : Diagnostic} : Keeping (MonadExcept.throw e : Analysis α) := by
  intro s a s' h
  cases h

theorem fail {position : Position} {cause : Cause} : Keeping (Analysis.fail position cause : Analysis α) := throw

theorem look {g : SymbolTable → α} : Keeping (Analysis.look g) := by
  rintro s _ _ ⟨⟩
  exact .refl _

theorem expect {what : String} {o : Option α} : Keeping (Analysis.expect what o) := by
  cases o with
  | none => exact throw
  | some a => exact pure

theorem change {g : SymbolTable → SymbolTable} (hg : ∀ t : SymbolTable, t.Keeps (g t)) :
    Keeping (Analysis.change g) := by
  rintro s _ _ ⟨⟩
  exact hg s.table

theorem newScope {parent : ScopeId} : Keeping (Analysis.newScope parent) := by
  rintro s _ _ ⟨⟩
  refine .of_items ?_
  show (s.table.newScope parent .block).2.items = s.table.items
  unfold SymbolTable.newScope
  split <;> rfl

theorem addItem {item : Item} : Keeping (Analysis.addItem item) := by
  rintro s _ _ ⟨⟩
  exact .addItem

theorem setOwner {scope : ScopeId} {owner : ScopeOwner} : Keeping (Analysis.setOwner scope owner) :=
  change fun _ => .of_items rfl

end Keeping

namespace Analysis

variable {an : Analyst} {frame : Frame} {decl : FunctionDef} {scope : ScopeId} {s s' : State}
variable {item canonical : ItemId} {cls : Option ItemId} {source : Function} {entry : Item}

theorem registerMember_keeping {c : ItemId} : Keeping (registerMember c item decl) := by
  have hclass : ∀ g : Class → Class, Keeping (change (·.modifyClass c g)) := fun _ => .change fun _ => .modifyClass
  unfold registerMember
  refine .bind .look fun _ => .bind .look fun _ => .bind .expect fun entity => ?_
  cases decl.role with
  | construct =>
    dsimp only
    split
    · exact hclass _
    · split
      · exact (hclass _).bind fun _ => .change fun _ => .modifyFunction (fun _ => rfl) fun _ => rfl
      · exact hclass _
  | destruct =>
    dsimp only
    split
    · exact .bind .fail fun _ => hclass _
    · exact hclass _
  | cast direction => cases direction <;> exact hclass _
  | operator | plain | accessor => exact hclass _

theorem exportItem_keeping {module : ModuleId} {name : String} {position : Position} :
    Keeping (exportItem module name item position) := by
  unfold exportItem bindAlias
  refine .bind .look fun _ => .bind .expect fun _ => .bind .look fun table => ?_
  dsimp only
  split
  · exact .pure
  · split
    · exact .bind .fail fun _ => .addItem
    · exact .addItem

end Analysis

/-! ## The loop -/

/-- What a variant with the first `kept` parameters is called with. -/
def variantFace (decl : FunctionDef) (canonical : ItemId) (source : Function) (kept : Nat) :
    List (Parameter Ty) × Ty × Option ItemId × List (Nat × NodeId) :=
  (source.params.take kept, source.returnType, some canonical, Analysis.suppliedDefaults decl kept)

namespace SymbolTable

variable {t u : SymbolTable} {decl : FunctionDef} {canonical : ItemId} {source : Function} {counts : List Nat}

/-- The variants of a function take the first so many of its parameters. -/
def Made (t : SymbolTable) (decl : FunctionDef) (canonical : ItemId) (source : Function) (counts : List Nat) : Prop :=
  ∃ f, t.function? canonical = some f ∧ f.face = source.face ∧ List.Forall₂
    (fun i kept => ∃ g, t.function? i = some g ∧ g.face = variantFace decl canonical source kept) f.variants counts

theorem made_nil (hsource : t.function? canonical = some source) (hvariants : source.variants = []) :
    t.Made decl canonical source [] :=
  ⟨source, hsource, rfl, hvariants ▸ .nil⟩

theorem Made.mono (h : t.Made decl canonical source counts) (hkeeps : t.Keeps u) :
    u.Made decl canonical source counts := by
  obtain ⟨f, hf, hface, hall⟩ := h
  obtain ⟨f', hf', hface', hvariants⟩ := hkeeps canonical f hf
  refine ⟨f', hf', hface'.trans hface, hvariants ▸ hall.imp ?_⟩
  rintro i kept ⟨g, hg, hvariant⟩
  obtain ⟨g', hg', hsame, -⟩ := hkeeps i g hg
  exact ⟨g', hg', hsame.trans hvariant⟩

/-- One more variant is noted at the function. -/
theorem Made.append {kept : Nat} {i : ItemId} {g : Function} (h : t.Made decl canonical source counts)
    (hg : t.function? i = some g) (hface : g.face = variantFace decl canonical source kept) :
    (t.modifyFunction canonical fun f => { f with variants := f.variants ++ [i] }).Made decl canonical source
      (counts ++ [kept]) := by
  obtain ⟨f, hf, hsource, hall⟩ := h
  -- the face of a function does not show its variants
  have hfaces : ∀ k fn, t.function? k = some fn → ∃ fn',
      (t.modifyFunction canonical fun f => { f with variants := f.variants ++ [i] }).function? k = some fn' ∧
        fn'.face = fn.face := by
    intro k fn hfn
    rw [function?_modifyFunction, hfn]
    split
    · exact ⟨_, rfl, rfl⟩
    · exact ⟨fn, rfl, rfl⟩
  have hnew : ∀ k kept, (∃ fn, t.function? k = some fn ∧ fn.face = variantFace decl canonical source kept) →
      ∃ fn, (t.modifyFunction canonical fun f => { f with variants := f.variants ++ [i] }).function? k = some fn ∧
        fn.face = variantFace decl canonical source kept := by
    rintro k kept ⟨fn, hfn, hvariant⟩
    obtain ⟨fn', hfn', hsame⟩ := hfaces k fn hfn
    exact ⟨fn', hfn', hsame.trans hvariant⟩
  refine ⟨{ f with variants := f.variants ++ [i] }, ?_, hsource, ?_⟩
  · rw [function?_modifyFunction, if_pos rfl, hf]
    rfl
  · exact List.rel_append (hall.imp hnew) (.cons (hnew i kept ⟨g, hg, hface⟩) .nil)

end SymbolTable

namespace Analysis

variable {an : Analyst} {frame : Frame} {decl : FunctionDef} {scope : ScopeId} {s s' : State}
variable {item canonical : ItemId} {cls : Option ItemId} {source : Function} {entry : Item} {counts : List Nat}

theorem function?_of_addItem {i : ItemId} {made : Item} {f : Function} (hf : made.entity = .fn f)
    (hadd : addItem made s = .ok i s') : s'.table.function? i = some f := by
  cases hadd
  show (SymbolTable.item? (s.table.addItem made).2 (s.table.addItem made).1).bind Item.function? = some f
  rw [SymbolTable.item?_addItem_self, Option.bind_some, Item.function?, hf]

/-- A round of the loop adds one variant. -/
theorem declareVariant_made {kept : Nat} (hmade : s.table.Made decl canonical source counts)
    (hrun : declareVariant decl canonical entry source cls kept s = .ok ⟨⟩ s') :
    s'.table.Made decl canonical source (counts ++ [kept]) := by
  unfold declareVariant at hrun
  obtain ⟨own, s₁, hscope, hrun⟩ := of_bind_ok hrun
  obtain ⟨i, s₂, hadd, hrun⟩ := of_bind_ok hrun
  obtain ⟨_, s₃, howner, hrun⟩ := of_bind_ok hrun
  obtain ⟨_, s₄, hnote, hrun⟩ := of_bind_ok hrun
  obtain ⟨_, s₅, hhoist, hrun⟩ := of_bind_ok hrun
  obtain ⟨_, s₆, hmodule, hrun⟩ := of_bind_ok hrun
  have hmade₂ := (hmade.mono (Keeping.newScope _ _ _ hscope)).mono (Keeping.addItem _ _ _ hadd)
  have howned : s₂.table.Keeps s₃.table := Keeping.setOwner _ _ _ howner
  have hmade₃ := hmade₂.mono howned
  obtain ⟨g, hg, hface, -⟩ := howned i _ (function?_of_addItem rfl hadd)
  have hmade₄ : s₄.table.Made decl canonical source (counts ++ [kept]) := by
    cases hnote
    exact hmade₃.append hg hface
  have hhoisted : s₄.table.Keeps s₅.table := by
    cases hhoist
    exact .modifyItem fun _ => rfl
  have hlisted : s₅.table.Keeps s₆.table := by
    cases hmodule
    exact .of_items rfl
  have hmade₆ := hmade₄.mono (hhoisted.trans hlisted)
  cases cls with
  | none =>
    cases hrun
    exact hmade₆
  | some c => exact hmade₆.mono (registerMember_keeping _ _ _ hrun)

/-- The loop adds one variant for each count. -/
theorem forM_declareVariant_made {kept : Nat → Nat} {rounds : List Nat}
    (hmade : s.table.Made decl canonical source counts)
    (hrun : rounds.forM (fun omitted => declareVariant decl canonical entry source cls (kept omitted)) s =
      .ok ⟨⟩ s') :
    s'.table.Made decl canonical source (counts ++ rounds.map kept) := by
  induction rounds generalizing s counts with
  | nil =>
    cases hrun
    rwa [List.map_nil, List.append_nil]
  | cons omitted rest ih =>
    obtain ⟨_, s₁, hfirst, hrest⟩ := of_bind_ok hrun
    have hmade₁ := ih (declareVariant_made hmade hfirst) hrest
    rwa [List.append_assoc] at hmade₁

/-- A function gets its variants. -/
theorem declareVariants_made (hsource : s.table.function? canonical = some source) (hvariants : source.variants = [])
    (hrun : declareVariants decl canonical cls s = .ok ⟨⟩ s') :
    s'.table.Made decl canonical source
      ((List.range decl.optionalCount).map fun omitted => source.params.length - (omitted + 1)) := by
  have hitem : look (·.item? canonical) s = .ok (s.table.item? canonical) s := rfl
  have hfunction : look (·.function? canonical) s = .ok (s.table.function? canonical) s := rfl
  obtain ⟨entry, hentry, -⟩ := Option.bind_eq_some_iff.1 hsource
  unfold declareVariants at hrun
  rw [bind_ok hitem, bind_ok hfunction, hentry, hsource] at hrun
  exact forM_declareVariant_made (SymbolTable.made_nil hsource hvariants) hrun

end Analysis

/-! ## The signature -/

/-- The function takes the written parameters, and has no variants. -/
structure Function.Signed (decl : FunctionDef) (f : Function) : Prop where
  marks : f.params.map (fun p => (p.name, p.variadic)) =
    decl.params.zipIdx.map fun x => (x.1.name.name, x.1.variadic && x.2 + 1 == decl.params.length)
  variants : f.variants = []

namespace Function.Signed

variable {decl : FunctionDef} {f g : Function}

theorem congr (h : f.Signed decl) (hface : g.face = f.face) (hvariants : g.variants = f.variants) : g.Signed decl where
  marks := by
    have hparams : g.params = f.params := congrArg Prod.fst hface
    rw [hparams]
    exact h.marks
  variants := hvariants.trans h.variants

theorem length_params (h : f.Signed decl) : f.params.length = decl.params.length := by
  have hlength := congrArg List.length h.marks
  rwa [List.length_map, List.length_map, List.length_zipIdx] at hlength

theorem fixed (h : f.Signed decl) (hfixed : ∀ p ∈ decl.params, p.variadic = false) :
    ∀ p ∈ f.params, p.variadic = false := by
  intro p hp
  have hmark : (p.name, p.variadic) ∈ f.params.map fun p => (p.name, p.variadic) := List.mem_map_of_mem hp
  rw [h.marks] at hmark
  obtain ⟨⟨written, index⟩, hwritten, heq⟩ := List.mem_map.1 hmark
  have hvariadic : (written.variadic && index + 1 == decl.params.length) = p.variadic := congrArg Prod.snd heq
  rw [← hvariadic, hfixed written (List.fst_mem_of_mem_zipIdx hwritten), Bool.false_and]

end Function.Signed

namespace Analysis

variable {an : Analyst} {frame : Frame} {decl : FunctionDef} {scope : ScopeId} {s s' : State}
variable {item : ItemId} {cls : Option ItemId} {f : Function}

/-- Make the item of a function and resolve its signature. -/
def signFunction (an : Analyst) (frame : Frame) (decl : FunctionDef) (scope : ScopeId) (cls : Option ItemId) :
    Analysis ItemId := do
  let item ← createFunction frame decl scope decl.itemName cls 0
  resolveSignature an frame decl item cls
  return item

theorem createFunction_function? {name : String} {generics : Nat}
    (hrun : createFunction frame decl scope name cls generics s = .ok item s') :
    ∃ f, s'.table.function? item = some f ∧ f.variants = [] := by
  unfold createFunction at hrun
  obtain ⟨own, s₁, -, hrun⟩ := of_bind_ok hrun
  obtain ⟨i, s₂, hadd, hrun⟩ := of_bind_ok hrun
  obtain ⟨_, s₃, howner, hpure⟩ := of_bind_ok hrun
  cases hpure
  obtain ⟨f, hf, -, hvariants⟩ := Keeping.setOwner _ _ _ howner _ _ (function?_of_addItem rfl hadd)
  exact ⟨f, hf, hvariants⟩

/-- What comes about while the types of the parameters are resolved leaves the function alone. -/
theorem resolveSignature_signed (han : an.Faithful) (hs : s.Grounded) (hf : s.table.function? item = some f)
    (hvariants : f.variants = []) (hrun : resolveSignature an frame decl item cls s = .ok ⟨⟩ s') :
    ∃ g, s'.table.function? item = some g ∧ g.Signed decl := by
  have hlook : look (·.function? item) s = .ok (some f) s := by
    rw [← hf]
    rfl
  have hexpect : expect "signature of a non-function" (some f) s = .ok f s := rfl
  unfold resolveSignature at hrun
  rw [bind_ok hlook, bind_ok hexpect] at hrun
  obtain ⟨bound, s₁, hbound, hrun⟩ := of_bind_ok hrun
  obtain ⟨result, s₂, hresult, hrun⟩ := of_bind_ok hrun
  obtain ⟨sent, s₃, hsent, hrun⟩ := of_bind_ok hrun
  have h₁ := (bindParameters_faithful han).honours_ok hs hbound
  have h₂ := h₁.trans ((resultType_faithful han).honours_ok (h₁.grounded hs) hresult)
  have h₃ := h₂.trans ((generatorParameter_faithful han).honours_ok (h₂.grounded hs) hsent)
  obtain ⟨f₃, hf₃, -, hsame⟩ := h₃.table.exists_function? hf
  have hlook' : look (·.function? item) s₃ = .ok (some f₃) s₃ := by
    rw [← hf₃]
    rfl
  have hexpect' : expect "signature of a non-function" (some f₃) s₃ = .ok f₃ s₃ := rfl
  have hchange := (bind_ok hexpect').symm.trans ((bind_ok hlook').symm.trans hrun)
  cases hchange
  refine ⟨_, (SymbolTable.function?_modifyFunction ..).trans (by rw [if_pos rfl, hf₃]; rfl), ?_, ?_⟩
  · exact bindParameters_marks _ _ _ hbound
  · exact hsame.trans hvariants

theorem signFunction_signed (han : an.Faithful) (hs : s.Grounded)
    (hrun : signFunction an frame decl scope cls s = .ok item s') :
    ∃ f, s'.table.function? item = some f ∧ f.Signed decl := by
  obtain ⟨made, s₁, hcreate, hrun⟩ := of_bind_ok hrun
  obtain ⟨_, s₂, hsignature, hpure⟩ := of_bind_ok hrun
  cases hpure
  obtain ⟨f, hf, hvariants⟩ := createFunction_function? hcreate
  have hs₁ := (createFunction_faithful.honours_ok hs hcreate).grounded hs
  exact resolveSignature_signed han hs₁ hf hvariants hsignature

end Analysis

/-! ## Covering -/

namespace SymbolTable

/-- The item is a function that the arguments of a call can be bound to. -/
def takes (t : SymbolTable) (arguments : List CallArgument) (i : ItemId) : Bool :=
  (t.function? i).any fun f => (bindArguments f.signature arguments).isSome

/-- The function has `n` parameters and `d` variants. For each `k` from `n - d` to `n - 1` there is the variant that
takes the first `k` parameters, gives what the function gives, refers to it, and supplies the defaults of the other
parameters in their order. For each number of positional arguments from `n - d` to `n` exactly one of the function
and its variants takes them, and for other numbers none does. -/
structure Covers (t : SymbolTable) (decl : FunctionDef) (d : Nat) (item : ItemId) (f : Function) : Prop where
  function : t.function? item = some f
  arity : f.params.length = decl.params.length
  count : f.variants.length = d
  variant : ∀ k, decl.params.length - d ≤ k → k < decl.params.length →
    ∃ i g, f.variants[decl.params.length - (k + 1)]? = some i ∧ t.function? i = some g ∧
      g.params = f.params.take k ∧ g.returnType = f.returnType ∧ g.variantOf = some item ∧
      g.suppliedDefaults.map (fun x => (x.1, some x.2)) =
        (decl.params.zipIdx.drop k).map fun x => (x.2, x.1.defaultValue.map (·.node.id))
  once : ∀ arguments : List CallArgument, (∀ a ∈ arguments, a.name = none) →
    (item :: f.variants).countP (t.takes arguments) =
      if decl.params.length - d ≤ arguments.length ∧ arguments.length ≤ decl.params.length then 1 else 0

end SymbolTable

section Covering

variable {t : SymbolTable} {decl : FunctionDef} {item : ItemId} {source : Function}
variable {required optional : List (Param Expr)}

/-- The last parameters with defaults are those behind the last one without. -/
theorem FunctionDecl.optionalCount_eq (hparams : decl.params = required ++ optional)
    (hdefaults : ∀ p ∈ optional, p.defaultValue.isSome = true)
    (hmaximal : ∀ p, required.getLast? = some p → p.defaultValue = none)
    (hfixed : ∀ p ∈ decl.params, p.variadic = false) : decl.optionalCount = optional.length := by
  have hall : ∀ p ∈ optional.reverse, (p.defaultValue.isSome && !p.variadic) = true := by
    intro p hp
    have hp := List.mem_reverse.1 hp
    have hmem : p ∈ decl.params := hparams ▸ List.mem_append_right required hp
    rw [hdefaults p hp, hfixed p hmem]
    rfl
  have hstop : required.reverse.takeWhile (fun p => p.defaultValue.isSome && !p.variadic) = [] := by
    cases hlast : required.reverse with
    | nil => rfl
    | cons p rest =>
      have hp : required.getLast? = some p := by rw [List.getLast?_eq_head?_reverse, hlast, List.head?_cons]
      rw [List.takeWhile_cons, hmaximal p hp]
      rfl
  rw [FunctionDecl.optionalCount, hparams, List.reverse_append, List.takeWhile_append_of_pos hall, hstop,
    List.append_nil, List.length_reverse]

/-- Every parameter that is left out has its default. -/
theorem Analysis.suppliedDefaults_map {k : Nat} (h : ∀ p ∈ decl.params.drop k, p.defaultValue.isSome = true) :
    (Analysis.suppliedDefaults decl k).map (fun x => (x.1, some x.2)) =
      (decl.params.zipIdx.drop k).map fun x => (x.2, x.1.defaultValue.map (·.node.id)) := by
  rw [Analysis.suppliedDefaults, List.map_filterMap, ← List.filterMap_eq_map]
  refine List.filterMap_congr fun ⟨p, index⟩ hx => ?_
  have hmem : p ∈ decl.params.drop k := by
    have hfst : p ∈ (decl.params.zipIdx.drop k).map Prod.fst := List.mem_map_of_mem hx
    rwa [List.map_drop, List.zipIdx_map_fst] at hfst
  obtain ⟨e, he⟩ := Option.isSome_iff_exists.1 (h p hmem)
  simp only [he, Option.map_some, Function.comp_apply]

/-- Functions without variadic parameters take the numbers of arguments that they have parameters. -/
theorem SymbolTable.countP_takes {arguments : List CallArgument} (hnames : ∀ a ∈ arguments, a.name = none)
    {items : List ItemId} {counts : List Nat}
    (h : List.Forall₂ (fun i k => ∃ g, t.function? i = some g ∧ g.params.length = k ∧
      ∀ p ∈ g.params, p.variadic = false) items counts) :
    items.countP (t.takes arguments) = counts.count arguments.length := by
  induction h with
  | nil => rfl
  | @cons i k items counts hhead _ ih =>
    obtain ⟨g, hg, rfl, hfixed⟩ := hhead
    have htakes : t.takes arguments i = (g.params.length == arguments.length) := by
      rw [takes, hg, Option.any_some, bindArguments_positional hnames, Signature.accepts_of_fixed hfixed,
        Bool.eq_iff_iff, beq_iff_eq, beq_iff_eq]
      exact eq_comm
    rw [List.countP_cons, List.count_cons, ih, htakes]

/-- The numbers from `n` down to `n - d`, one each. -/
theorem count_countdown {n d m : Nat} (h : d ≤ n) :
    (n :: (List.range d).map fun omitted => n - (omitted + 1)).count m = if n - d ≤ m ∧ m ≤ n then 1 else 0 := by
  have hlist : (n :: (List.range d).map fun omitted => n - (omitted + 1)) = (List.range (d + 1)).map (n - ·) := by
    rw [List.range_succ_eq_map, List.map_cons, List.map_map]
    rfl
  have hnodup : ((List.range (d + 1)).map (n - ·)).Nodup := by
    refine List.Nodup.map_on (fun a ha b hb heq => ?_) List.nodup_range
    have ha := List.mem_range.1 ha
    have hb := List.mem_range.1 hb
    omega
  rw [hlist, hnodup.count]
  refine if_congr ?_ rfl rfl
  rw [List.mem_map]
  constructor
  · rintro ⟨a, ha, rfl⟩
    have ha := List.mem_range.1 ha
    omega
  · exact fun hm => ⟨n - m, List.mem_range.2 (by omega), by omega⟩

theorem SymbolTable.Made.covers (hsigned : source.Signed decl) (hparams : decl.params = required ++ optional)
    (hdefaults : ∀ p ∈ optional, p.defaultValue.isSome = true) (hfixed : ∀ p ∈ decl.params, p.variadic = false)
    (hmade : t.Made decl item source
      ((List.range optional.length).map fun omitted => source.params.length - (omitted + 1))) :
    ∃ f, t.Covers decl optional.length item f := by
  obtain ⟨f, hf, hface, hall⟩ := hmade
  have hsame : f.params = source.params := congrArg Prod.fst hface
  have hresult : f.returnType = source.returnType := congrArg (·.2.1) hface
  have harity := hsigned.length_params
  have hle : optional.length ≤ decl.params.length := by
    rw [hparams, List.length_append]
    exact Nat.le_add_left ..
  have hplain := hsigned.fixed hfixed
  refine ⟨f, hf, (congrArg List.length hsame).trans harity, ?_, fun k hlow hhigh => ?_, fun arguments hnames => ?_⟩
  · rw [hall.length_eq, List.length_map, List.length_range]
  · -- the variants stand in the order of the loop
    have hround : decl.params.length - (k + 1) < optional.length := by omega
    obtain ⟨hlength, hget⟩ := List.forall₂_iff_get.1 hall
    rw [List.length_map, List.length_range] at hlength
    have hindex : decl.params.length - (k + 1) < f.variants.length := hlength ▸ hround
    obtain ⟨g, hg, hvariant⟩ := hget _ hindex (by rwa [List.length_map, List.length_range])
    have hkept : source.params.length - (decl.params.length - (k + 1) + 1) = k := by omega
    rw [List.get_eq_getElem, List.getElem_map, List.getElem_range, hkept] at hvariant
    refine ⟨_, g, List.getElem?_eq_getElem hindex, hg, hsame ▸ congrArg Prod.fst hvariant,
      hresult ▸ congrArg (·.2.1) hvariant, congrArg (·.2.2.1) hvariant, ?_⟩
    have hsupplied : g.suppliedDefaults = Analysis.suppliedDefaults decl k := congrArg (·.2.2.2) hvariant
    rw [hsupplied]
    refine Analysis.suppliedDefaults_map fun p hp => hdefaults p ?_
    have hdrop : k = required.length + (k - required.length) := by
      rw [hparams, List.length_append] at hlow
      omega
    rw [hparams, hdrop, List.drop_append, List.drop_eq_nil_of_le (Nat.le_add_right ..), List.nil_append] at hp
    exact List.mem_of_mem_drop hp
  · have hcounts : List.Forall₂ (fun i k => ∃ g, t.function? i = some g ∧ g.params.length = k ∧
        ∀ p ∈ g.params, p.variadic = false) (item :: f.variants)
        (decl.params.length :: (List.range optional.length).map fun omitted => decl.params.length - (omitted + 1)) := by
      refine .cons ⟨f, hf, (congrArg List.length hsame).trans harity, hsame ▸ hplain⟩ ?_
      rw [harity] at hall
      rw [List.forall₂_map_right_iff] at hall ⊢
      refine hall.imp ?_
      rintro i omitted ⟨g, hg, hvariant⟩
      have hkept : g.params = source.params.take (decl.params.length - (omitted + 1)) := congrArg Prod.fst hvariant
      refine ⟨g, hg, ?_, fun p hp => hplain p (List.mem_of_mem_take (hkept ▸ hp))⟩
      rw [hkept, List.length_take, harity]
      omega
    rw [SymbolTable.countP_takes hnames hcounts, count_countdown hle]

end Covering

/-! ## Declarations -/

namespace Analysis

variable {an : Analyst} {frame : Frame} {decl : FunctionDef} {scope : ScopeId} {s s₁ s' : State}
variable {item : ItemId} {cls : Option ItemId} {entry : Item} {f : Function}

/-- File a function with its class, if it has one. -/
def fileFunction (decl : FunctionDef) (item : ItemId) : Option ItemId → Analysis Unit
  | none => return
  | some c => registerMember c item decl

/-- Export a declared function if it is to be, and note that it is declared. -/
def publish (frame : Frame) (decl : FunctionDef) (item : ItemId) : Analysis ItemId := do
  if decl.keywords.exported then discard <| exportItem frame.module decl.itemName item decl.node.position
  recordDeclared frame decl.node item
  return item

/-- The steps of a declaration that is new. -/
theorem declareFunction_eq (hnew : s.declared.lookup ⟨frame.id, decl.node.id⟩ = none)
    (hplain : decl.isGeneric = false) : declareFunction an frame decl scope cls s = (do
      let item ← signFunction an frame decl scope cls
      checkDuplicateFunction item decl.node.position
      fileFunction decl item cls
      declareVariants decl item cls
      publish frame decl item) s := by
  have hundeclared : declared? frame decl.node s = .ok none s := by
    rw [← hnew]
    rfl
  unfold declareFunction
  rw [bind_ok hundeclared]
  dsimp only
  rw [if_neg (by simp [hplain])]
  cases cls <;> simp only [signFunction, fileFunction, publish, bind_assoc, pure_bind]

theorem checkDuplicateFunction_keeping {position : Position} : Keeping (checkDuplicateFunction item position) := by
  unfold checkDuplicateFunction
  refine .bind .look fun table => ?_
  dsimp only
  split
  · split
    · exact .fail
    · exact .pure
  · exact .pure

theorem fileFunction_keeping : Keeping (fileFunction decl item cls) := by
  cases cls with
  | none => exact .pure
  | some c => exact registerMember_keeping

theorem publish_keeping : Keeping (publish frame decl item) := by
  have hrecord : Keeping (recordDeclared frame decl.node item) := by
    rintro s _ _ ⟨⟩
    exact .refl _
  unfold publish
  split
  · exact .bind (.bind exportItem_keeping fun _ => .pure) fun _ => hrecord.bind fun _ => .pure
  · exact hrecord.bind fun _ => .pure

theorem publish_returns : Returns (publish frame decl item) (· = item) := by
  unfold publish
  split
  · exact .bind fun _ => .bind fun _ => .pure rfl
  · exact .bind fun _ => .pure rfl

/-- A function without a class can be given its variants. -/
theorem declareVariants_free_passes (decl : FunctionDef) (canonical : ItemId) :
    Passes (fun _ => True) (declareVariants decl canonical none) := by
  have hstep : ∀ {entry : Item} {source : Function} {kept : Nat},
      Passes (fun _ => True) (declareVariant decl canonical entry source none kept) := fun s _ => ⟨_, _, rfl, trivial⟩
  unfold declareVariants
  refine .bind (fun s _ => ⟨_, s, rfl, trivial⟩) fun _ => .bind (fun s _ => ⟨_, s, rfl, trivial⟩) fun _ => ?_
  split
  · exact .forM fun _ => hstep
  · exact .pure

/-- A function that passes its check gets its variants, with its class or without. -/
theorem fileFunction_ok (item : ItemId) (hcls : ∀ c, cls = some c → HasClass c s ∧ LeavesDestructor decl c s.table) :
    ∃ s₁ s', fileFunction decl item cls s = .ok ⟨⟩ s₁ ∧ declareVariants decl item cls s₁ = .ok ⟨⟩ s' := by
  cases cls with
  | none =>
    obtain ⟨_, s', hvariants, -⟩ := declareVariants_free_passes decl item s trivial
    exact ⟨s, s', rfl, hvariants⟩
  | some c =>
    obtain ⟨hclass, hdestructor⟩ := hcls c rfl
    obtain ⟨s', hfile⟩ : ∃ s', (do
        registerMember c item decl
        declareVariants decl item (some c)) s = .ok ⟨⟩ s' := file_ok hclass hdestructor
    obtain ⟨_, s₁, hregister, hvariants⟩ := of_bind_ok hfile
    exact ⟨s₁, s', hregister, hvariants⟩

/-- **Variants cover each number of arguments once.** The parameters `optional` are the last ones of a function that
have defaults, up to the last one that has none, and no parameter is variadic.

Once the function is declared, it and its variants cover the numbers of arguments. And it is declared as soon as its
signature is resolved and it is an overload: then it has its variants, and only its export can fail. A destructor
is excepted if it has optional parameters. -/
theorem variants_cover (han : an.Faithful) (hs : s.Grounded) (frame : Frame) (decl : FunctionDef) (scope : ScopeId)
    (cls : Option ItemId) (hnew : s.declared.lookup ⟨frame.id, decl.node.id⟩ = none) (hplain : decl.isGeneric = false)
    {required optional : List (Param Expr)} (hparams : decl.params = required ++ optional)
    (hdefaults : ∀ p ∈ optional, p.defaultValue.isSome = true)
    (hmaximal : ∀ p, required.getLast? = some p → p.defaultValue = none)
    (hfixed : ∀ p ∈ decl.params, p.variadic = false) :
    (∀ item s', declareFunction an frame decl scope cls s = .ok item s' →
      ∃ f, s'.table.Covers decl optional.length item f) ∧
    ∀ item s₁ entry f, signFunction an frame decl scope cls s = .ok item s₁ → s₁.table.item? item = some entry →
      entry.entity = .fn f → s₁.table.IsOverload item entry f →
      (∀ c, cls = some c → HasClass c s₁ ∧ LeavesDestructor decl c s₁.table) →
      ∃ s₂ g, s₂.table.Covers decl optional.length item g ∧
        declareFunction an frame decl scope cls s = publish frame decl item s₂ ∧
        (decl.keywords.exported = false → ∃ s', publish frame decl item s₂ = .ok item s') := by
  have hcount := decl.optionalCount_eq hparams hdefaults hmaximal hfixed
  -- both halves come to the loop, with a function that is signed and has no variants yet
  have hloop : ∀ item s₁ s₂ s₃, signFunction an frame decl scope cls s = .ok item s₁ →
      s₁.table.Keeps s₂.table → declareVariants decl item cls s₂ = .ok ⟨⟩ s₃ → ∃ source, source.Signed decl ∧
        s₃.table.Made decl item source
          ((List.range optional.length).map fun omitted => source.params.length - (omitted + 1)) := by
    intro item s₁ s₂ s₃ hsign hkeeps hvariants
    obtain ⟨f, hf, hsigned⟩ := signFunction_signed han hs hsign
    obtain ⟨source, hsource, hface, hnone⟩ := hkeeps item f hf
    have hsigned := hsigned.congr hface hnone
    exact ⟨source, hsigned, hcount ▸ declareVariants_made hsource hsigned.variants hvariants⟩
  rw [declareFunction_eq hnew hplain]
  constructor
  · intro item s' hrun
    obtain ⟨made, s₁, hsign, hrun⟩ := of_bind_ok hrun
    obtain ⟨_, s₂, hcheck, hrun⟩ := of_bind_ok hrun
    obtain ⟨_, s₃, hfile, hrun⟩ := of_bind_ok hrun
    obtain ⟨_, s₄, hvariants, hpublish⟩ := of_bind_ok hrun
    have hkeeps := (checkDuplicateFunction_keeping _ _ _ hcheck).trans (fileFunction_keeping _ _ _ hfile)
    obtain ⟨source, hsigned, hmade⟩ := hloop made s₁ s₃ s₄ hsign hkeeps hvariants
    have hitem : item = made := publish_returns _ _ _ hpublish
    subst hitem
    exact (hmade.mono (publish_keeping _ _ _ hpublish)).covers hsigned hparams hdefaults hfixed
  · intro item s₁ entry f hsign hentry hf hoverload hcls
    have hcheck : checkDuplicateFunction item decl.node.position s₁ = .ok ⟨⟩ s₁ := by
      rcases checkDuplicateFunction_eq decl.node.position hentry hf with ⟨-, hcheck⟩ | ⟨hclash, -⟩
      · exact hcheck
      · exact absurd hoverload hclash
    obtain ⟨s₂, s₃, hfile, hvariants⟩ := fileFunction_ok item hcls
    obtain ⟨source, hsigned, hmade⟩ := hloop item s₁ s₂ s₃ hsign (fileFunction_keeping _ _ _ hfile) hvariants
    obtain ⟨g, hcovers⟩ := hmade.covers hsigned hparams hdefaults hfixed
    refine ⟨s₃, g, hcovers, ?_, fun hinternal => ?_⟩
    · rw [bind_ok hsign, bind_ok hcheck, bind_ok hfile, bind_ok hvariants]
    · unfold publish
      rw [hinternal]
      exact ⟨_, rfl⟩

end Analysis

/-! ## One and two optional parameters -/

/-- `name: int = value`. -/
def optionalInt (id : Nat) (name : String) (value : Int) : Param Expr :=
  { node := ⟨.written id, {}⟩, name := ⟨name, {}⟩, ty := { form := .native .int }
    defaultValue := some (.literal ⟨.written (id + 1), {}⟩ (.int value)) }

/-- `fn f(x: int, y: int = 1, z: int = 2)`. -/
def optionalFunction : FunctionDef :=
  { node := ⟨.written 2, {}⟩, name := ⟨"f", {}⟩
    params := [factor 3, optionalInt 4 "y" 1, optionalInt 6 "z" 2] }

/-- The function has two variants, and none of the three takes four arguments. -/
theorem variants_cover_two : ∃ (s : State) (f : Function), s.table.Covers optionalFunction 2 ⟨0⟩ f ∧
    f.variants.length = 2 ∧
      (⟨0⟩ :: f.variants).countP (s.table.takes (List.replicate 4 (.typed .int))) = 0 := by
  have hmodule : ({} : Session).start.Honours bareModuleState := .of_spares .newModule rfl rfl (Nat.le_refl _)
  have hs : bareModuleState.Grounded := hmodule.grounded (Session.grounded_start Session.honest_default)
  have hparams : optionalFunction.params = [factor 3] ++ [optionalInt 4 "y" 1, optionalInt 6 "z" 2] := rfl
  have hrequired : ∀ p, [factor 3].getLast? = some p → p.defaultValue = none := by
    rintro p ⟨⟩
    rfl
  have hcover := Analysis.variants_cover (analyst_faithful 1) hs bareFrame optionalFunction ⟨0⟩ none rfl rfl hparams
    (by decide) hrequired (by decide)
  have hruns : Analysis.passes (fun i s => i == ⟨0⟩ && (s.table.item? ⟨0⟩).any fun entry =>
      entry.function?.isSome && (s.table.findLocal entry.name entry.scope [] none).all (· == ⟨0⟩))
      (Analysis.signFunction (analyst 1) bareFrame optionalFunction ⟨0⟩ none bareModuleState) = true := by
    decide +kernel
  obtain ⟨i, s₁, hsign, htest⟩ := Analysis.passes_iff.1 hruns
  simp only [Bool.and_eq_true, beq_iff_eq, Option.any_eq_true, Option.isSome_iff_exists, List.all_eq_true] at htest
  obtain ⟨rfl, entry, hentry, ⟨f, hf⟩, halone⟩ := htest
  obtain ⟨s, g, hcovers, -⟩ := hcover.2 ⟨0⟩ s₁ entry f hsign hentry (Item.entity_of_function? hf)
    (fun j hj hne => absurd (halone j hj) hne) (by rintro _ ⟨⟩)
  refine ⟨s, g, hcovers, hcovers.count, ?_⟩
  rw [hcovers.once _ (by decide)]
  rfl

/-- The two ways to declare a destructor `~(x: int)` and `~(x: int = 1)`. The second one is refused, as if the class
had two. -/
theorem optional_destructor_refused :
    classRoot [declaredMember 2 .destruct .void [factor 4]] = .ok ⟨0⟩ ∧
      classRoot [declaredMember 2 .destruct .void [optionalInt 4 "x" 1]] =
        .error (.analysis ⟨.duplicateDefinition "destructor", {}⟩) := by
  decide +kernel

end SemanticAnalysis
