import Mathlib.Data.List.Find
import SemanticAnalysis.Proofs.SymbolTable.Kinds
import SemanticAnalysis.Proofs.SymbolTable.Names
import SemanticAnalysis.Proofs.SymbolTable.Retention

/-!
# What later tables keep

A later table honours an earlier one (`SymbolTable.Honours`): functions keep their parameters and their variants,
variables their width, and classes are given new constructors only. Besides, the default constructor of a class is
the first of its constructors without parameters, if it was so before (`SymbolTable.Filed`).

Most changes leave the fields of classes alone as well (`SymbolTable.Spares`). They follow from one lemma about the
imprints of items (`Honours.of_imprints`). The others concern items that the earlier table does not have yet: a new
function is given its parameters and variants (`Honours.modifyNew`) and is filed with a class
(`Honours.fileConstructor`).
-/

namespace SemanticAnalysis

/-! ## Imprints -/

/-- What of a function is settled with its signature. -/
@[grind =] def Function.heading (f : Function) : List (Parameter Ty) × List ItemId := (f.params, f.variants)

/-- Whether a variable is an entry of a bitfield, and how wide it is. -/
@[grind =] def Variable.width (v : Variable) : Bool × Nat := (v.isBitfieldEntry, v.bits)

/-- What the fields of a class come to. -/
@[grind =] def Class.head (c : Class) : Option Ty × List ItemId := (c.underlying, c.members)

/-- The constructors of a class. -/
@[grind =] def Class.filing (c : Class) : List ItemId × Option ItemId := (c.constructors, c.defaultConstructor)

/-- What most changes leave of an item as it is. -/
structure Imprint where
  heading : Option (List (Parameter Ty) × List ItemId)
  width : Option (Bool × Nat)
  isBitfield : Option Bool
  filing : Option (List ItemId × Option ItemId)

def Item.imprint (i : Item) : Imprint where
  heading := i.function?.map Function.heading
  width := i.var?.map Variable.width
  isBitfield := i.class?.map (·.flags.bitfield)
  filing := i.class?.map Class.filing

theorem Item.imprint_shape (i : Item) : i.shape.imprint = i.imprint := by
  cases h : i.entity <;> simp [Item.shape, Item.imprint, Item.function?, Item.var?, Item.class?, h]
  rfl

namespace SymbolTable

variable {t u v : SymbolTable} {i k : ItemId}

def imprint? (t : SymbolTable) (i : ItemId) : Option Imprint := (t.item? i).map Item.imprint

theorem heading_eq (h : u.imprint? i = t.imprint? i) :
    (u.function? i).map Function.heading = (t.function? i).map Function.heading := by
  have hread : ∀ w : SymbolTable, (w.function? i).map Function.heading = (w.imprint? i).bind (·.heading) := by
    intro w
    unfold function? imprint?
    cases w.item? i <;> rfl
  rw [hread, hread, h]

theorem width_eq (h : u.imprint? i = t.imprint? i) :
    (u.var? i).map Variable.width = (t.var? i).map Variable.width := by
  have hread : ∀ w : SymbolTable, (w.var? i).map Variable.width = (w.imprint? i).bind (·.width) := by
    intro w
    unfold var? imprint?
    cases w.item? i <;> rfl
  rw [hread, hread, h]

theorem isBitfield_eq (h : u.imprint? i = t.imprint? i) :
    (u.class? i).map (·.flags.bitfield) = (t.class? i).map (·.flags.bitfield) := by
  have hread : ∀ w : SymbolTable, (w.class? i).map (·.flags.bitfield) = (w.imprint? i).bind (·.isBitfield) := by
    intro w
    unfold class? imprint?
    cases w.item? i <;> rfl
  rw [hread, hread, h]

theorem filing_eq (h : u.imprint? i = t.imprint? i) :
    (u.class? i).map Class.filing = (t.class? i).map Class.filing := by
  have hread : ∀ w : SymbolTable, (w.class? i).map Class.filing = (w.imprint? i).bind (·.filing) := by
    intro w
    unfold class? imprint?
    cases w.item? i <;> rfl
  rw [hread, hread, h]

/-! ## Constructors -/

/-- The constructors of a class; other items have none. -/
def constructorsOf (t : SymbolTable) (c : ItemId) : List ItemId := ((t.class? c).map (·.constructors)).getD []

/-- The item is a function without parameters. -/
def takesNothing (t : SymbolTable) (k : ItemId) : Bool := (t.function? k).any (·.params.isEmpty)

/-- Constructors are functions, and the default constructor of a class is the first one without parameters. -/
structure Filed (t : SymbolTable) : Prop where
  functions : ∀ c, ∀ k ∈ t.constructorsOf c, ∃ f, t.function? k = some f
  first : ∀ c cls, t.class? c = some cls → cls.defaultConstructor = cls.constructors.find? t.takesNothing

theorem filed_empty : Filed {} where
  functions _ _ hk := by cases hk
  first _ _ hc := by cases hc

theorem mem_constructorsOf_iff {c : ItemId} :
    k ∈ t.constructorsOf c ↔ ∃ cls, t.class? c = some cls ∧ k ∈ cls.constructors := by
  unfold constructorsOf
  cases t.class? c <;> simp

theorem params_eq_of_heading (h : (u.function? k).map Function.heading = (t.function? k).map Function.heading) :
    (u.function? k).map (·.params) = (t.function? k).map (·.params) := by
  have hfst := congrArg (Option.map Prod.fst) h
  rwa [Option.map_map, Option.map_map] at hfst

/-- Classes are filed as before if their constructors take the same parameters as before. -/
theorem Filed.of_filings (hf : t.Filed)
    (hclasses : ∀ c cls, u.class? c = some cls →
      cls.filing = ([], none) ∨ ∃ old, t.class? c = some old ∧ cls.filing = old.filing)
    (hparams : ∀ c, ∀ k ∈ t.constructorsOf c,
      (u.function? k).map (·.params) = (t.function? k).map (·.params)) : u.Filed where
  functions c k hk := by
    obtain ⟨cls, hcls, hk⟩ := mem_constructorsOf_iff.1 hk
    rcases hclasses c cls hcls with hnone | ⟨old, hold, heq⟩
    · have hnil : cls.constructors = [] := congrArg Prod.fst hnone
      rw [hnil] at hk
      cases hk
    · have hsame : cls.constructors = old.constructors := congrArg Prod.fst heq
      have hmem : k ∈ t.constructorsOf c := mem_constructorsOf_iff.2 ⟨old, hold, hsame ▸ hk⟩
      obtain ⟨f, hk⟩ := hf.functions c k hmem
      have hmap := hparams c k hmem
      rw [hk] at hmap
      obtain ⟨g, hg, -⟩ := Option.map_eq_some_iff.1 hmap
      exact ⟨g, hg⟩
  first c cls hcls := by
    rcases hclasses c cls hcls with hnone | ⟨old, hold, heq⟩
    · have hnil : cls.constructors = [] := congrArg Prod.fst hnone
      have hdefault : cls.defaultConstructor = none := congrArg Prod.snd hnone
      rw [hnil, hdefault, List.find?_nil]
    · have hsame : cls.constructors = old.constructors := congrArg Prod.fst heq
      have hdefault : cls.defaultConstructor = old.defaultConstructor := congrArg Prod.snd heq
      rw [hdefault, hsame, hf.first c old hold]
      refine List.find?_congr fun k hk => ?_
      have hread : ∀ w : SymbolTable, w.takesNothing k = ((w.function? k).map (·.params)).any (·.isEmpty) := by
        intro w
        unfold takesNothing
        cases w.function? k <;> rfl
      rw [hread, hread, hparams c k (mem_constructorsOf_iff.2 ⟨old, hold, hk⟩)]

/-! ## Honouring -/

/-- What is settled in `t` is so in `u`. -/
structure Honours (t u : SymbolTable) : Prop where
  size_le : t.items.size ≤ u.items.size
  headings : ∀ i, i.index < t.items.size →
    (u.function? i).map Function.heading = (t.function? i).map Function.heading
  widths : ∀ i, i.index < t.items.size → (u.var? i).map Variable.width = (t.var? i).map Variable.width
  bitfields : ∀ i, i.index < t.items.size →
    (u.class? i).map (·.flags.bitfield) = (t.class? i).map (·.flags.bitfield)
  constructors : ∀ c, ∀ k ∈ u.constructorsOf c, k ∈ t.constructorsOf c ∨ t.items.size ≤ k.index
  filed : t.Filed → u.Filed

/-- The constructors of a class of a later table are those it had, or none. -/
theorem filing_cases {c : ItemId} {cls : Class} (hold : ∀ i, i.index < t.items.size → u.imprint? i = t.imprint? i)
    (hnew : ∀ i c, t.items.size ≤ i.index → u.class? i = some c → c.filing = ([], none))
    (hcls : u.class? c = some cls) :
    cls.filing = ([], none) ∨ ∃ old, t.class? c = some old ∧ cls.filing = old.filing := by
  by_cases hc : c.index < t.items.size
  · have heq := filing_eq (hold c hc)
    rw [hcls] at heq
    obtain ⟨old, hold, hfiling⟩ := Option.map_eq_some_iff.1 heq.symm
    exact .inr ⟨old, hold, hfiling.symm⟩
  · exact .inl (hnew c cls (Nat.not_lt.1 hc) hcls)

namespace Honours

@[grind ←] theorem refl (t : SymbolTable) : t.Honours t :=
  ⟨Nat.le_refl _, fun _ _ => rfl, fun _ _ => rfl, fun _ _ => rfl, fun _ _ hk => .inl hk, id⟩

theorem trans (h : t.Honours u) (h' : u.Honours v) : t.Honours v where
  size_le := Nat.le_trans h.size_le h'.size_le
  headings i hi := (h'.headings i (Nat.lt_of_lt_of_le hi h.size_le)).trans (h.headings i hi)
  widths i hi := (h'.widths i (Nat.lt_of_lt_of_le hi h.size_le)).trans (h.widths i hi)
  bitfields i hi := (h'.bitfields i (Nat.lt_of_lt_of_le hi h.size_le)).trans (h.bitfields i hi)
  constructors c k hk := by
    rcases h'.constructors c k hk with hold | hnew
    · exact h.constructors c k hold
    · exact .inr (Nat.le_trans h.size_le hnew)
  filed hf := h'.filed (h.filed hf)

/-- A function is still there, with its parameters and variants. -/
theorem exists_function? {f : Function} (h : t.Honours u) (hf : t.function? i = some f) :
    ∃ g, u.function? i = some g ∧ g.params = f.params ∧ g.variants = f.variants := by
  have heq := h.headings i (lt_of_function? hf)
  rw [hf] at heq
  obtain ⟨g, hg, hheading⟩ := Option.map_eq_some_iff.1 heq
  exact ⟨g, hg, congrArg Prod.fst hheading, congrArg Prod.snd hheading⟩

/-- What is no constructor yet is none later. -/
theorem not_mem_constructorsOf (h : t.Honours u) (hk : k.index < t.items.size)
    (hnot : ∀ c, k ∉ t.constructorsOf c) (c : ItemId) : k ∉ u.constructorsOf c := by
  intro hmem
  rcases h.constructors c k hmem with hold | hnew
  · exact hnot c hold
  · exact absurd hk (Nat.not_lt.2 hnew)

/-- Items keep their imprints, and new classes have no constructors yet. -/
theorem of_imprints (hsize : t.items.size ≤ u.items.size)
    (hold : ∀ i, i.index < t.items.size → u.imprint? i = t.imprint? i)
    (hnew : ∀ i c, t.items.size ≤ i.index → u.class? i = some c → c.filing = ([], none)) : t.Honours u where
  size_le := hsize
  headings i hi := heading_eq (hold i hi)
  widths i hi := width_eq (hold i hi)
  bitfields i hi := isBitfield_eq (hold i hi)
  constructors c k hk := by
    obtain ⟨cls, hcls, hk⟩ := mem_constructorsOf_iff.1 hk
    rcases filing_cases hold hnew hcls with hnone | ⟨old, hcls', heq⟩
    · have hnil : cls.constructors = [] := congrArg Prod.fst hnone
      rw [hnil] at hk
      cases hk
    · have hsame : cls.constructors = old.constructors := congrArg Prod.fst heq
      exact .inl (mem_constructorsOf_iff.2 ⟨old, hcls', hsame ▸ hk⟩)
  filed hf := by
    refine hf.of_filings (fun c cls => filing_cases hold hnew) fun c k hk => ?_
    obtain ⟨f, hk⟩ := hf.functions c k hk
    exact params_eq_of_heading (heading_eq (hold k (lt_of_function? hk)))

theorem modifyItem {g : Item → Item} (hg : ∀ item, (g item).imprint = item.imprint) :
    t.Honours (t.modifyItem i g) := by
  refine of_imprints (Nat.le_of_eq (t.size_modifyItem i g).symm) (fun j _ => ?_) fun j c hj hc => ?_
  · unfold imprint?
    rw [item?_modifyItem]
    split
    · rw [Option.map_map]
      exact Option.map_congr fun item _ => hg item
    · rfl
  · exact absurd (lt_of_class? hc) (Nat.not_lt.2 (t.size_modifyItem i g ▸ hj))

/-- A class is given fields. -/
theorem modifyClass {g : Class → Class}
    (hg : ∀ c, (g c).flags.bitfield = c.flags.bitfield ∧ (g c).filing = c.filing) :
    t.Honours (t.modifyClass i g) := by
  refine modifyItem fun item => ?_
  cases h : item.entity <;> simp [Item.imprint, Item.function?, Item.var?, Item.class?, h, hg]

/-! ### New functions -/

/-- A function that is new since `t` may be changed, its parameters only as long as it is no constructor. -/
theorem modifyNew {g : Function → Function} (h : t.Honours u) (hi : t.items.size ≤ i.index)
    (hg : (∀ f, (g f).params = f.params) ∨ ∀ c, i ∉ u.constructorsOf c) :
    t.Honours (u.modifyFunction i g) := by
  have hclass : (u.modifyFunction i g).class? = u.class? := funext (u.class?_modifyFunction i · g)
  have hconstructors : (u.modifyFunction i g).constructorsOf = u.constructorsOf := by
    funext c
    rw [constructorsOf, hclass, constructorsOf]
  refine ⟨u.size_modifyFunction i g ▸ h.size_le, fun j hj => ?_, fun j hj => ?_, hclass ▸ h.bitfields,
    hconstructors ▸ h.constructors, fun hf => ?_⟩
  · have hne : j ≠ i := by
      rintro rfl
      exact absurd hj (Nat.not_lt.2 hi)
    rw [function?_modifyFunction, if_neg hne]
    exact h.headings j hj
  · rw [var?_modifyFunction]
    exact h.widths j hj
  · refine (h.filed hf).of_filings (fun c cls hc => .inr ⟨cls, hclass ▸ hc, rfl⟩) fun c k hk => ?_
    rw [function?_modifyFunction]
    split
    · rename_i heq
      rcases hg with hsame | hnot
      · rw [Option.map_map]
        exact Option.map_congr fun f _ => hsame f
      · exact absurd hk (heq ▸ hnot c)
    · rfl

/-- A function that is new since `t` is filed with a class as a constructor. It becomes the default constructor if
there is none and it takes nothing. -/
theorem fileConstructor {c : ItemId} {f : Function} {g : Class → Class} (h : t.Honours u)
    (hi : t.items.size ≤ i.index) (hf : u.function? i = some f)
    (hbitfield : ∀ cls, (g cls).flags.bitfield = cls.flags.bitfield)
    (hconstructors : ∀ cls, (g cls).constructors = cls.constructors ++ [i])
    (hdefault : ∀ cls, u.class? c = some cls → (g cls).defaultConstructor =
      cls.defaultConstructor.or (if f.params.isEmpty then some i else none)) :
    t.Honours (u.modifyClass c g) := by
  have hfunction : (u.modifyClass c g).function? = u.function? := funext (u.function?_modifyClass c · g)
  have hmem : ∀ d k, k ∈ (u.modifyClass c g).constructorsOf d → k ∈ u.constructorsOf d ∨ k = i := by
    intro d k hk
    obtain ⟨cls, hcls, hk⟩ := mem_constructorsOf_iff.1 hk
    rw [class?_modifyClass] at hcls
    split at hcls
    · obtain ⟨old, hold, rfl⟩ := Option.map_eq_some_iff.1 hcls
      rw [hconstructors] at hk
      rcases List.mem_append.1 hk with hk | hk
      · exact .inl (mem_constructorsOf_iff.2 ⟨old, hold, hk⟩)
      · exact .inr (List.mem_singleton.1 hk)
    · exact .inl (mem_constructorsOf_iff.2 ⟨cls, hcls, hk⟩)
  refine ⟨u.size_modifyClass c g ▸ h.size_le, hfunction ▸ h.headings, fun j hj => ?_, fun j hj => ?_,
    fun d k hk => ?_, fun hfiled => ⟨fun d k hk => ?_, fun d cls hcls => ?_⟩⟩
  · rw [var?_modifyClass]
    exact h.widths j hj
  · rw [class?_modifyClass]
    refine Eq.trans ?_ (h.bitfields j hj)
    split
    · rw [Option.map_map]
      exact Option.map_congr fun cls _ => hbitfield cls
    · rfl
  · rcases hmem d k hk with hold | rfl
    · exact h.constructors d k hold
    · exact .inr hi
  · rw [hfunction]
    rcases hmem d k hk with hold | rfl
    · exact (h.filed hfiled).functions d k hold
    · exact ⟨f, hf⟩
  · have htakes : (u.modifyClass c g).takesNothing = u.takesNothing := by
      funext k
      rw [takesNothing, hfunction, takesNothing]
    rw [htakes]
    rw [class?_modifyClass] at hcls
    split at hcls
    · obtain ⟨old, hold, rfl⟩ := Option.map_eq_some_iff.1 hcls
      rename_i heq
      subst heq
      rw [hconstructors, hdefault old hold, List.find?_append, (h.filed hfiled).first d old hold]
      simp [takesNothing, hf]
    · exact (h.filed hfiled).first d cls hcls

end Honours

/-! ## Sparing fields -/

/-- What is settled in `t` is so in `u`, and the fields of classes are left alone. -/
structure Spares (t u : SymbolTable) : Prop extends t.Honours u where
  heads : ∀ i, i.index < t.items.size → (u.class? i).map Class.head = (t.class? i).map Class.head

namespace Spares

@[grind ←] theorem refl (t : SymbolTable) : t.Spares t := ⟨.refl t, fun _ _ => rfl⟩

theorem trans (h : t.Spares u) (h' : u.Spares v) : t.Spares v where
  toHonours := h.toHonours.trans h'.toHonours
  heads i hi := (h'.heads i (Nat.lt_of_lt_of_le hi h.size_le)).trans (h.heads i hi)

/-! ### Items -/

theorem modifyItem {g : Item → Item} (hg : ∀ item, (g item).imprint = item.imprint)
    (hhead : ∀ item, (g item).class?.map Class.head = item.class?.map Class.head) :
    t.Spares (t.modifyItem i g) where
  toHonours := .modifyItem hg
  heads j _ := by
    have hread : ∀ w : SymbolTable,
        (w.class? j).map Class.head = (w.item? j).bind fun item => item.class?.map Class.head := by
      intro w
      unfold class?
      cases w.item? j <;> rfl
    rw [hread, hread]
    exact t.bind_modifyItem hhead i j

@[grind ←] theorem modifyFunction {g : Function → Function} (hg : ∀ f, (g f).heading = f.heading) :
    t.Spares (t.modifyFunction i g) := by
  refine modifyItem (fun item => ?_) fun item => ?_ <;>
    cases h : item.entity <;> simp [Item.imprint, Item.function?, Item.var?, Item.class?, h, hg]

@[grind ←] theorem modifyClass {g : Class → Class}
    (hg : ∀ c, (g c).flags.bitfield = c.flags.bitfield ∧ (g c).head = c.head ∧ (g c).filing = c.filing) :
    t.Spares (t.modifyClass i g) := by
  refine modifyItem (fun item => ?_) fun item => ?_ <;>
    cases h : item.entity <;> simp [Item.imprint, Item.function?, Item.var?, Item.class?, h, hg]

@[grind ←] theorem modifyVariable {g : Variable → Variable} (hg : ∀ v, (g v).width = v.width) :
    t.Spares (t.modifyVariable i g) := by
  refine modifyItem (fun item => ?_) fun item => ?_ <;>
    cases h : item.entity <;> simp [Item.imprint, Item.function?, Item.var?, Item.class?, h, hg]

/-- Lists of hoisted items do not matter. -/
@[grind ←] theorem modifyHoisted {g : Item → Item} (hg : ∀ item, (g item).entity = item.entity) :
    t.Spares (t.modifyItem i g) := by
  refine modifyItem (fun item => ?_) fun item => ?_ <;>
    simp [Item.imprint, Item.function?, Item.var?, Item.class?, hg]

/-- A new class has no constructors yet. -/
@[grind ←] theorem addItem {item : Item} (h : ∀ c, item.entity = .cls c → c.filing = ([], none)) :
    t.Spares (t.addItem item).2 := by
  have hold : ∀ j, j.index < t.items.size → (t.addItem item).2.item? j = t.item? j := by
    intro j hj
    rw [item?_addItem, if_neg (Nat.ne_of_lt hj)]
  refine ⟨.of_imprints (by simp) (fun j hj => ?_) fun j c hj hc => ?_, fun j hj => ?_⟩
  · rw [imprint?, hold j hj, imprint?]
  · have hclass : item.class? = some c := by
      rw [class?, item?_addItem] at hc
      split at hc
      · exact hc
      · have hnone : t.item? j = none := Array.getElem?_eq_none hj
        rw [hnone] at hc
        cases hc
    refine h c ?_
    unfold Item.class? at hclass
    cases hentity : item.entity <;> simp_all
  · rw [class?, hold j hj, class?]

/-! ### Scopes and modules -/

/-- A change of scopes and modules. -/
theorem of_items (h : u.items = t.items) : t.Spares u := by
  have hitem : u.item? = t.item? := funext fun j => by rw [item?, item?, h]
  refine ⟨.of_imprints (Nat.le_of_eq (congrArg Array.size h.symm)) (fun j _ => ?_) fun j c hj hc => ?_, fun j _ => ?_⟩
  · rw [imprint?, imprint?, hitem]
  · exact absurd (lt_of_class? hc) (Nat.not_lt.2 (h ▸ hj))
  · rw [class?, class?, hitem]

@[grind ←] theorem modifyScope {s : ScopeId} {g : Scope → Scope} : t.Spares (t.modifyScope s g) := of_items rfl

@[grind ←] theorem setOwner {s : ScopeId} {owner : ScopeOwner} : t.Spares (t.setOwner s owner) := of_items rfl

@[grind ←] theorem newScope {parent : ScopeId} : t.Spares (t.newScope parent .block).2 :=
  of_items (items_newScope ..)

@[grind ←] theorem modifyModule {m : ModuleId} {g : Module → Module} : t.Spares (t.modifyModule m g) :=
  of_items rfl

@[grind ←] theorem newModule {name path package : String} : t.Spares (t.newModule name path package).2 :=
  of_items rfl

/-! ### Errors and captures -/

theorem of_sameShape (h : t.SameShape u) : t.Spares u := by
  have hsize := h.size_items_eq
  refine ⟨.of_imprints (Nat.le_of_eq hsize) (fun j _ => ?_) fun j c hj hc => ?_, fun j _ => ?_⟩
  · have hread : ∀ w : SymbolTable, w.imprint? j = ((w.item? j).map Item.shape).map Item.imprint := by
      intro w
      rw [Option.map_map]
      exact Option.map_congr fun item _ => item.imprint_shape.symm
    rw [hread, hread, h.items j]
  · exact absurd (lt_of_class? hc) (Nat.not_lt.2 (hsize ▸ hj))
  · rw [h.class?_eq j]

@[grind ←] theorem raise {s : ScopeId} {flow : ErrorFlow} {ty : Ty} : t.Spares (flow.raise s ty t) :=
  of_sameShape (sameShape_settle flow _ _ t)

@[grind ←] theorem run {flow : ErrorFlow} {tasks : List ErrorFlow.Task} : t.Spares (flow.run tasks t) :=
  of_sameShape (sameShape_settle flow _ tasks t)

@[grind ←] theorem link {s : ScopeId} {flow : ErrorFlow} {callee : ItemId} :
    t.Spares (flow.link callee s t).2 :=
  of_sameShape (sameShape_link flow callee s t)

@[grind ←] theorem captureAlong {used owner : ItemId} {chain : List ScopeId} :
    t.Spares (t.captureAlong used owner chain) := by
  induction chain generalizing t with
  | nil => exact refl t
  | cons s outer ih =>
    unfold SymbolTable.captureAlong
    split
    · exact ih
    · split
      · exact refl t
      · split
        · split
          · refine trans ?_ ih
            exact modifyFunction fun _ => rfl
          · exact refl t
        · exact refl t

end Spares

end SymbolTable

end SemanticAnalysis
