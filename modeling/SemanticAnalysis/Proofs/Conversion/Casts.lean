import SemanticAnalysis.Proofs.Conversion.Origin
import SemanticAnalysis.Proofs.SymbolTable.Shape
import SemanticAnalysis.Proofs.Ty.Known

/-!
# What the reported cast says

A conversion reports one function, and whoever carries it out applies that function or, if none is
reported, no function at all.

1. The steps of a conversion name no class that its types do not name (`Unwraps.classIds_subset`), so
   between types whose classes have no casts no cast is ever reported (`via_search_of_castless`).
2. **`convert_via_applies`**: the reported cast applies where the steps lead to. What it leaves to convert
   may take another cast (`second_cast_unreported`), but not where no cast follows another.
3. `SymbolTable.withoutCasts` takes the casts of every class away, which no other rule notices
   (`Derives.withoutCasts`).
4. **`converts_withoutCasts`**: a conversion that reports no cast needs none, unless it steps out of a
   union: that reports none whatever its members need (`union_cast_unreported`).
-/

namespace SemanticAnalysis

namespace Conversion

variable {table : SymbolTable}

/-! ## The classes that a search meets -/

section Classes

variable {t u : Ty}

theorem classIds_of_kind (h : u.kind = t.kind) : classIds u = classIds t := by
  cases t
  cases u
  cases h
  rfl

theorem classIds_of_inner? (h : t.inner? = some u) : classIds u = classIds t := by
  unfold Ty.inner? at h
  split at h
  · rename_i held hkind
    cases h
    exact (classIds_of_kind (t := Ty.optional u) hkind).symm
  · cases h

theorem classIds_subset_of_members? {members : List Ty} (h : t.members? = some members)
    (hu : u ∈ members) : classIds u ⊆ classIds t := by
  unfold Ty.members? at h
  split at h
  · rename_i ts hkind
    cases h
    have hunion : classIds t = NamesClasses.classIds members :=
      (classIds_of_kind (t := Ty.bare (.union members)) hkind).trans (Ty.listClassIds_eq members)
    rw [hunion]
    exact fun c hc => List.mem_flatMap.2 ⟨u, hu, hc⟩
  · cases h

theorem mem_classIds_of_valueClass? {cls : ItemId}
    (h : t.withoutOuterReferences.valueClass? = some cls) : cls ∈ classIds t := by
  unfold Ty.valueClass? Ty.classId? at h
  split at h
  · split at h
    · rename_i i hkind
      cases h
      rw [classIds_of_kind (t := Ty.cls cls) (u := t) hkind]
      exact List.mem_singleton_self cls
    · cases h
  · cases h

end Classes

variable {src dst src' dst' : Ty}

theorem Enters.classIds_subset (h : Enters src dst src' dst') :
    classIds src' ⊆ classIds src ∧ classIds dst' ⊆ classIds dst := by
  cases h with
  | bind hl hd =>
    have hsame : classIds src.reference = classIds src := classIds_of_kind (src.kind_withLayer _)
    rw [hsame]
    exact ⟨List.Subset.refl _, List.Subset.refl _⟩
  | read hl hv =>
    have hsame : classIds src' = classIds src := by
      unfold Ty.dereference? at hv
      split at hv
      · cases hv
        exact classIds_of_kind rfl
      · cases hv
    rw [hsame]
    exact ⟨List.Subset.refl _, List.Subset.refl _⟩
  | inside hsv hs hdv hd =>
    rw [classIds_of_inner? hs, classIds_of_inner? hd]
    exact ⟨List.Subset.refl _, List.Subset.refl _⟩
  | wrap hs hdv hd =>
    rw [classIds_of_inner? hd]
    exact ⟨List.Subset.refl _, List.Subset.refl _⟩
  | intoUnion hdv hd hm => exact ⟨List.Subset.refl _, classIds_subset_of_members? hd hm⟩

theorem Unwraps.classIds_subset {steps : Nat} (h : Unwraps steps src dst src' dst') :
    classIds src' ⊆ classIds src ∧ classIds dst' ⊆ classIds dst := by
  induction h with
  | here => exact ⟨List.Subset.refl _, List.Subset.refl _⟩
  | step henters _ ih =>
    have hfirst := henters.classIds_subset
    exact ⟨List.Subset.trans ih.1 hfirst.1, List.Subset.trans ih.2 hfirst.2⟩

/-! ## Types without casts -/

/-- No class that the type names has casts, and no ancestor of one has. -/
def Castless (table : SymbolTable) (t : Ty) : Prop :=
  ∀ cls ∈ classIds t, ∀ owner ∈ table.withAncestors cls, ∀ c ∈ table.class? owner,
    c.toCasts = [] ∧ c.fromCasts = []

instance (table : SymbolTable) (t : Ty) : Decidable (Castless table t) :=
  inferInstanceAs (Decidable (∀ cls ∈ classIds t, ∀ owner ∈ table.withAncestors cls,
    ∀ c ∈ table.class? owner, c.toCasts = [] ∧ c.fromCasts = []))

/-- What the casts of a class return and take names no class with casts. -/
def CastsOfEnd (table : SymbolTable) (c : Class) : Prop :=
  (∀ cast ∈ c.toCasts, ∀ f ∈ table.function? cast, Castless table f.returnType) ∧
    ∀ cast ∈ c.fromCasts, ∀ f ∈ table.function? cast, ∀ p ∈ f.params.head?, Castless table p.ty

instance (table : SymbolTable) (c : Class) : Decidable (CastsOfEnd table c) :=
  inferInstanceAs (Decidable (_ ∧ _))

/-- So it is with all classes: no cast follows another. -/
def CastsEnd (table : SymbolTable) : Prop :=
  ∀ item ∈ table.items.toList, ∀ c ∈ item.class?, CastsOfEnd table c

instance (table : SymbolTable) : Decidable (CastsEnd table) :=
  inferInstanceAs (Decidable (∀ item ∈ table.items.toList, ∀ c ∈ item.class?, CastsOfEnd table c))

theorem CastsEnd.of_class? (h : CastsEnd table) {i : ItemId} {c : Class}
    (hc : table.class? i = some c) : CastsOfEnd table c := by
  obtain ⟨item, hitem, hcls⟩ := Option.bind_eq_some_iff.1 hc
  exact h item (Array.mem_toList_iff.2 (Array.mem_of_getElem? hitem)) c hcls

theorem Castless.mono {t u : Ty} (h : Castless table t) (hsub : classIds u ⊆ classIds t) :
    Castless table u := fun cls hcls => h cls (hsub hcls)

theorem Castless.not_outward {t : Ty} {cls owner cast : ItemId} {c : Class} (h : Castless table t)
    (hcls : t.withoutOuterReferences.valueClass? = some cls) (ho : owner ∈ table.withAncestors cls)
    (hc : table.class? owner = some c) : cast ∉ c.toCasts := by
  rw [(h cls (mem_classIds_of_valueClass? hcls) owner ho c hc).1]
  exact List.not_mem_nil

theorem Castless.not_inward {t : Ty} {cls cast : ItemId} {c : Class} (h : Castless table t)
    (hcls : t.withoutOuterReferences.valueClass? = some cls) (hc : table.class? cls = some c) :
    cast ∉ c.fromCasts := by
  rw [(h cls (mem_classIds_of_valueClass? hcls) cls List.mem_cons_self c hc).2]
  exact List.not_mem_nil

theorem via_search_of_castless {depth : Nat} {active : List (Ty × Ty)} (hs : Castless table src)
    (hd : Castless table dst) : (search table depth active src dst).via = none := by
  cases hvia : (search table depth active src dst).via with
  | none => rfl
  | some cast =>
    obtain ⟨steps, rest, active', src', dst', -, hunwraps, happlies⟩ := exists_applies_of_search hvia
    obtain ⟨hsub, hsub'⟩ := hunwraps.classIds_subset
    cases happlies with
    | outward hcls ho hc hcast hf h =>
      exact absurd hcast ((hs.mono hsub).not_outward hcls ho hc)
    | inward hcls hc hcast hf hp h =>
      exact absurd hcast ((hd.mono hsub').not_inward hcls hc)

/-- What the search finds at any depth below the bound, the whole search finds. -/
theorem converts_of_finds_search {options : Options} {depth : Nat} {active : List (Ty × Ty)}
    (hdepth : depth ≤ options.conversionDepth) (h : Finds (search table depth active) src dst) :
    converts table options src dst = true :=
  search_covers table hdepth (by simp [Listed]) rfl rfl h

theorem direct_of_castless {options : Options} (h : converts table options src dst = true)
    (hs : Castless table src) (hd : Castless table dst) : (convert table options src dst).Direct :=
  ⟨h, via_search_of_castless hs hd⟩

/-- Where no cast follows another and one of the two types has none, a cast that applies completes the
conversion. -/
theorem Applies.direct {options : Options} {cast : ItemId}
    (h : Applies table (fun x y => converts table options x y = true) cast src dst)
    (hend : CastsEnd table) (hless : Castless table src ∨ Castless table dst) :
    Applies table (fun x y => (convert table options x y).Direct) cast src dst := by
  cases h with
  | outward hs ho hc hcast hf h =>
    rcases hless with hless | hless
    · exact absurd hcast (hless.not_outward hs ho hc)
    · have hreturn := (hend.of_class? hc).1 cast hcast _ hf
      exact .outward hs ho hc hcast hf (direct_of_castless h hreturn hless)
  | inward hd hc hcast hf hp h =>
    rcases hless with hless | hless
    · have htaken := (hend.of_class? hc).2 cast hcast _ hf _ hp
      exact .inward hd hc hcast hf hp (direct_of_castless h hless htaken)
    · exact absurd hcast (hless.not_inward hd hc)

end Conversion

open Conversion

/-- **The reported cast.** It applies to the types that the steps of the conversion lead to, and what
it leaves to convert does convert, within the same depth; without a further cast where no cast follows
another and one of the two types has none. -/
theorem convert_via_applies (table : SymbolTable) (options : Options) {src dst : Ty} {cast : ItemId}
    (h : (convert table options src dst).via = some cast) :
    ∃ steps src' dst', Unwraps steps src dst src' dst' ∧
      Applies table (fun x y => converts table options x y = true) cast src' dst' ∧
      (CastsEnd table → Castless table src ∨ Castless table dst →
        Applies table (fun x y => (convert table options x y).Direct) cast src' dst') := by
  obtain ⟨steps, rest, active, src', dst', hdepth, hunwraps, happlies⟩ := exists_applies_of_search h
  have hfits : Applies table (fun x y => converts table options x y = true) cast src' dst' :=
    happlies.imp fun _ _ hfinds => converts_of_finds_search (by omega) hfinds
  refine ⟨steps, src', dst', hunwraps, hfits, fun hend hless => hfits.direct hend ?_⟩
  obtain ⟨hsub, hsub'⟩ := hunwraps.classIds_subset
  exact hless.imp (·.mono hsub) (·.mono hsub')

/-- A class `Meter` with a cast to `double`. -/
def meterTable : SymbolTable where
  items := #[
    { name := "Meter", scope := ⟨0⟩, module := ⟨0⟩, entity := .cls { scope := ⟨1⟩, toCasts := [⟨1⟩] } },
    { name := "to", scope := ⟨1⟩, module := ⟨0⟩,
      entity := .fn { scope := ⟨2⟩, returnType := .native .double } }]

/-- An optional `Meter` becomes an optional `double` by the cast of what it holds. -/
theorem convert_via_applies_optional :
    (convert meterTable {} (.optional (.cls ⟨0⟩)) (.optional (.native .double))).via = some ⟨1⟩ ∧
      CastsEnd meterTable ∧ Castless meterTable (.optional (.native .double)) ∧
      ∃ steps src' dst',
        Unwraps steps (.optional (.cls ⟨0⟩)) (.optional (.native .double)) src' dst' ∧
          Applies meterTable (fun x y => (convert meterTable {} x y).Direct) ⟨1⟩ src' dst' := by
  have hvia : (convert meterTable {} (.optional (.cls ⟨0⟩)) (.optional (.native .double))).via =
      some ⟨1⟩ := by decide +kernel
  have hend : CastsEnd meterTable := by decide +kernel
  have hless : Castless meterTable (.optional (.native .double)) := by decide +kernel
  obtain ⟨steps, src', dst', hunwraps, -, hdirect⟩ := convert_via_applies meterTable {} hvia
  exact ⟨hvia, hend, hless, steps, src', dst', hunwraps, hdirect hend (.inr hless)⟩

/-- A class `Track` with casts to a class `Meter` and to `int | bool`, where `Meter` has one to `int`. -/
def trackTable : SymbolTable where
  items := #[
    { name := "Track", scope := ⟨0⟩, module := ⟨0⟩,
      entity := .cls { scope := ⟨1⟩, toCasts := [⟨2⟩, ⟨3⟩] } },
    { name := "Meter", scope := ⟨0⟩, module := ⟨0⟩, entity := .cls { scope := ⟨2⟩, toCasts := [⟨4⟩] } },
    { name := "to", scope := ⟨1⟩, module := ⟨0⟩,
      entity := .fn { scope := ⟨3⟩, returnType := .cls ⟨1⟩ } },
    { name := "to", scope := ⟨1⟩, module := ⟨0⟩,
      entity := .fn { scope := ⟨4⟩, returnType := .bare (.union [.int, .bool]) } },
    { name := "to", scope := ⟨2⟩, module := ⟨0⟩, entity := .fn { scope := ⟨5⟩, returnType := .int } }]

/-- One reported cast is not always enough: from `Track` to `int` the cast to `Meter` is reported, which
takes another one to get to `int`, although the cast to `int | bool` takes none. -/
theorem second_cast_unreported :
    (convert trackTable {} (.cls ⟨0⟩) .int).via = some ⟨2⟩ ∧
      ¬ Applies trackTable (fun x y => (convert trackTable {} x y).Direct) ⟨2⟩ (.cls ⟨0⟩) .int ∧
      Applies trackTable (fun x y => (convert trackTable {} x y).Direct) ⟨3⟩ (.cls ⟨0⟩) .int := by
  refine ⟨by decide +kernel, fun h => ?_, ?_⟩
  · cases h with
    | outward hs ho hc hcast hf h =>
      cases hf
      have hvia : (convert trackTable {} (.cls ⟨1⟩) .int).via = some ⟨4⟩ := by decide +kernel
      cases hvia.symm.trans h.2
    | inward hd hc hcast hf hp h => cases hd
  · have hdirect : (convert trackTable {} (.bare (.union [.int, .bool])) .int).Direct :=
      ⟨by decide +kernel, by decide +kernel⟩
    exact .outward rfl List.mem_cons_self rfl (.tail _ List.mem_cons_self) rfl hdirect

/-! ## Tables without casts -/

def Class.withoutCasts (c : Class) : Class := { c with fromCasts := [], toCasts := [] }

def Item.withoutCasts (i : Item) : Item :=
  match i.entity with
  | .cls c => { i with entity := .cls c.withoutCasts }
  | _ => i

theorem Item.class?_withoutCasts (i : Item) : i.withoutCasts.class? = i.class?.map Class.withoutCasts := by
  unfold withoutCasts class?
  cases h : i.entity <;> simp [h]

namespace SymbolTable

variable (t : SymbolTable)

/-- The table with no cast in any class. -/
def withoutCasts : SymbolTable := { t with items := t.items.map Item.withoutCasts }

theorem class?_withoutCasts (i : ItemId) :
    t.withoutCasts.class? i = (t.class? i).map Class.withoutCasts := by
  unfold class? item? withoutCasts
  rw [Array.getElem?_map]
  cases t.items[i.index]? with
  | none => rfl
  | some item => exact item.class?_withoutCasts

theorem parentsOf_withoutCasts : t.withoutCasts.parentsOf = t.parentsOf := by
  funext i
  unfold parentsOf
  rw [class?_withoutCasts]
  cases t.class? i <;> rfl

theorem distance?_withoutCasts (i ancestor : ItemId) :
    t.withoutCasts.distance? i ancestor = t.distance? i ancestor := by
  unfold distance?
  rw [ancestorLayers_congr (Array.size_map ..) t.parentsOf_withoutCasts]

end SymbolTable

namespace Conversion

variable {table : SymbolTable} {src dst : Ty}

theorem upcastRule_withoutCasts (table : SymbolTable) (src dst : Ty) :
    upcastRule table.withoutCasts src dst = upcastRule table src dst := by
  unfold upcastRule
  simp only [SymbolTable.distance?_withoutCasts]

/-- A rule that asks for no other conversion reads no cast. -/
theorem Derives.withoutCasts {fits : Ty → Ty → Prop} (h : Derives table (fun _ _ => False) src dst) :
    Derives table.withoutCasts fits src dst := by
  cases h with
  | wildcard h => exact .wildcard h
  | constant h => exact .constant h
  | null h hd => exact .null h hd
  | native h => exact .native h
  | upcast h => exact .upcast ((upcastRule_withoutCasts table src dst).trans h)
  | anything hd hs hl => exact .anything hd hs hl
  | outOfUnion hsv hs h => exact .outOfUnion hsv hs fun m hm => (h m hm).elim
  | _ => contradiction

/-- Within the depth bound, a conversion steps out of a union of which each member converts, but one by
casts only. -/
def LosesCast (table : SymbolTable) (depth : Nat) (src dst : Ty) : Prop :=
  ∃ steps rest src' dst' members, steps + rest + 1 = depth ∧ Unwraps steps src dst src' dst' ∧
    src'.isValue = true ∧ src'.members? = some members ∧
    (∀ m ∈ members, converts table { conversionDepth := rest } m dst' = true) ∧
    ∃ m ∈ members, converts table.withoutCasts { conversionDepth := rest } m dst' = false

theorem LosesCast.step {depth : Nat} {src' dst' : Ty} (h : LosesCast table depth src' dst')
    (henters : Enters src dst src' dst') : LosesCast table (depth + 1) src dst := by
  obtain ⟨steps, rest, src'', dst'', members, rfl, hunwraps, hunion⟩ := h
  exact ⟨steps + 1, rest, src'', dst'', members, by omega, .step henters hunwraps, hunion⟩

/-- A search that reports no cast finds what there is without casts, or loses one. -/
theorem bounded_withoutCasts_of_search {depth : Nat} {active : List (Ty × Ty)}
    (h : (search table depth active src dst).Direct) :
    Finds (bounded table.withoutCasts depth) src dst ∨ LosesCast table depth src dst := by
  obtain ⟨hfinds, hvia⟩ := h
  induction depth generalizing active src dst with
  | zero => exact .inl (finds_bounded_zero.2 (finds_search_zero.1 hfinds))
  | succ depth ih =>
    rcases origin_search hfinds with ⟨hsame, -⟩ | ⟨rest, active', hrest, horigin⟩
    · exact .inl (finds_bounded_succ.2 (.inl hsame))
    cases hrest
    rw [hvia] at horigin
    generalize hnone : none = reported at horigin
    cases horigin with
    | rule h => exact .inl (finds_bounded_succ.2 (.inr h.withoutCasts))
    | step henters hfinds' =>
      rcases ih hfinds' hnone.symm with hinner | hloses
      · exact .inl (finds_bounded_succ.2 (.inr (henters.derives hinner)))
      · exact .inr (hloses.step henters)
    | @outOfUnion members hsv hs hall =>
      by_cases hbare : ∀ m ∈ members, Finds (bounded table.withoutCasts depth) m dst
      · exact .inl (finds_bounded_succ.2 (.inr (.outOfUnion hsv hs hbare)))
      · -- the cast of the member that has no other conversion is the one that is lost
        simp only [not_forall, exists_prop] at hbare
        obtain ⟨m, hm, hnot⟩ := hbare
        refine .inr ⟨0, depth, src, dst, members, by omega, .here, hsv, hs, fun m hm => ?_, m, hm, ?_⟩
        · exact finds_bounded_iff_converts.1
            (search_covers_bounded table depth active' rfl rfl (hall m hm))
        · exact Bool.eq_false_iff.2 (mt finds_bounded_iff_converts.2 hnot)
    | cast happlies => cases hnone

end Conversion

/-- **What is not reported is not needed**, except in a union: a conversion that reports no cast is there
with all casts taken away, or steps out of a union of which it loses the cast of a member. -/
theorem converts_withoutCasts (table : SymbolTable) (options : Options) {src dst : Ty}
    (hpos : 0 < (convert table options src dst).score)
    (hvia : (convert table options src dst).via = none) :
    converts table.withoutCasts options src dst = true ∨
      LosesCast table options.conversionDepth src dst :=
  (bounded_withoutCasts_of_search ⟨isPossible_iff.2 hpos, hvia⟩).imp_left finds_bounded_iff_converts.1

/-- Out of `Meter | int` the cast of `Meter` is lost. -/
theorem converts_withoutCasts_union :
    let src : Ty := .bare (.union [.cls ⟨0⟩, .int])
    0 < (convert meterTable {} src .int).score ∧ (convert meterTable {} src .int).via = none ∧
      converts meterTable.withoutCasts {} src .int = false ∧ LosesCast meterTable 16 src .int := by
  intro src
  have hpos : 0 < (convert meterTable {} src .int).score := by decide +kernel
  have hvia : (convert meterTable {} src .int).via = none := by decide +kernel
  have hbare : converts meterTable.withoutCasts {} src .int = false := by decide +kernel
  rcases converts_withoutCasts meterTable {} hpos hvia with hconv | hloses
  · cases hbare.symm.trans hconv
  · exact ⟨hpos, hvia, hbare, hloses⟩

/-- A union converts with a cast that is not reported. -/
theorem union_cast_unreported :
    convert meterTable {} (.bare (.union [.cls ⟨0⟩, .int])) .int = ⟨10, none⟩ ∧
      (convert meterTable {} (.cls ⟨0⟩) .int).via = some ⟨1⟩ ∧
      converts meterTable.withoutCasts {} (.bare (.union [.cls ⟨0⟩, .int])) .int = false := by
  refine ⟨?_, ?_, ?_⟩ <;> decide +kernel

end SemanticAnalysis
