import Mathlib.Data.List.Induction
import Mathlib.Data.List.Pairwise
import SemanticAnalysis.Proofs.SymbolTable.Aliases
import SemanticAnalysis.Proofs.SymbolTable.Distance
import SemanticAnalysis.Proofs.SymbolTable.WellFormed

/-!
# What a name means

The rules of lookup, apart from the search that carries them out:

1. A declaration offers the item that its aliases lead to, if the name is right, the declaration can be seen
   and the item is of a kind that is asked for (`Offers`).
2. A list of declarations offers its items in the order in which they are first offered (`Gathers`).
3. In a class the declarations of the first class with an offer count, and as long as these are functions,
   those of the ancestors that offer functions only (`Counts`).
4. The nearest scope with an offer decides (`Means`).

Each rule determines its result, and the search follows the rules (`findAll_eq_iff_means`).
-/

namespace SemanticAnalysis.SymbolTable

/-- What is looked for: a name, the kinds of items that do not count, and the scope that has to see the
declaration. -/
structure Query where
  name : String
  exclude : List EntityKind := []
  origin : Option ScopeId := none

variable {t : SymbolTable} {q : Query} {i j : ItemId}

/-! ## Declarations -/

/-- The declaration `i` offers the item `j`. -/
structure Offers (t : SymbolTable) (q : Query) (i j : ItemId) : Prop where
  named : ∃ item, t.item? i = some item ∧ item.name = q.name
  seen : ∀ o, q.origin = some o → t.canSee i o = true
  leads : t.LeadsTo i j
  wanted : ∀ kind, t.kind? j = some kind → kind ∉ q.exclude

theorem offers_iff_offered? : t.Offers q i j ↔ t.offered? q.name q.exclude q.origin i = some j := by
  unfold offered?
  constructor
  · rintro ⟨⟨item, hitem, hname⟩, hseen, hleads, hwanted⟩
    have horigin : (q.origin.any fun o => !t.canSee i o) = false := by
      cases ho : q.origin with
      | none => rfl
      | some o => simp [hseen o ho]
    have hkind : (t.kind? j).any q.exclude.contains = false := by
      cases hk : t.kind? j with
      | none => rfl
      | some kind => simpa using hwanted kind hk
    simp [hitem, hname, horigin, resolveAlias_eq_ok_iff.2 hleads, hkind]
  · intro h
    split at h
    · cases h
    rename_i item hitem
    split at h
    · cases h
    rename_i hname
    split at h
    · cases h
    rename_i hseen
    split at h
    · cases h
    rename_i target hleads
    split at h
    · cases h
    rename_i hkind
    cases h
    refine ⟨⟨item, hitem, by simpa using hname⟩, ?_, resolveAlias_eq_ok_iff.1 hleads, ?_⟩
    · intro o ho
      simpa [ho] using hseen
    · intro kind hk
      simpa [hk] using hkind

instance : Decidable (t.Offers q i j) := decidable_of_iff' _ offers_iff_offered?

/-- `found` lists what the declarations offer, in the order in which they are first offered. -/
structure Gathers (t : SymbolTable) (q : Query) (declared found : List ItemId) : Prop where
  mem : ∀ j, j ∈ found ↔ ∃ i ∈ declared, t.Offers q i j
  ordered : found.Pairwise fun a b => ∃ before, before <+: declared ∧
    (∃ i ∈ before, t.Offers q i a) ∧ ∀ i ∈ before, ¬ t.Offers q i b

namespace Gathers

variable {declared found found' : List ItemId}

theorem nodup (h : t.Gathers q declared found) : found.Nodup := by
  refine h.ordered.imp ?_
  rintro a _ ⟨before, -, ⟨i, hi, hoffers⟩, hnone⟩ rfl
  exact hnone i hi hoffers

theorem not_alias (h : t.Gathers q declared found) (hj : j ∈ found) : t.aliasTarget? j = none := by
  obtain ⟨i, -, hoffers⟩ := (h.mem j).1 hj
  exact hoffers.leads.ends

/-- The declarations determine the list. -/
theorem unique (h : t.Gathers q declared found) (h' : t.Gathers q declared found') : found = found' := by
  have hperm : found.Perm found' :=
    (List.perm_ext_iff_of_nodup h.nodup h'.nodup).2 fun j => (h.mem j).trans (h'.mem j).symm
  refine hperm.eq_of_pairwise ?_ h.ordered h'.ordered
  rintro a b - - ⟨before, hbefore, ha, hb⟩ ⟨before', hbefore', hb', ha'⟩
  exfalso
  rcases List.prefix_or_prefix_of_prefix hbefore hbefore' with hle | hle
  · obtain ⟨i, hi, hoffers⟩ := ha
    exact ha' i (hle.subset hi) hoffers
  · obtain ⟨i, hi, hoffers⟩ := hb'
    exact hb i (hle.subset hi) hoffers

end Gathers

/-- What a list of declarations offers, as it is found. -/
def gathered (t : SymbolTable) (q : Query) (declared : List ItemId) : List ItemId :=
  (declared.filterMap (t.offered? q.name q.exclude q.origin)).foldl insertNew []

theorem mem_gathered {declared : List ItemId} :
    j ∈ t.gathered q declared ↔ ∃ i ∈ declared, t.Offers q i j := by
  simp [gathered, mem_foldl_insertNew, offers_iff_offered?]

theorem gathered_append_singleton (declared : List ItemId) (i : ItemId) :
    t.gathered q (declared ++ [i]) =
      ((t.offered? q.name q.exclude q.origin i).elim (t.gathered q declared)
        (insertNew (t.gathered q declared))) := by
  unfold gathered
  cases h : t.offered? q.name q.exclude q.origin i <;> simp [h]

theorem gathers_gathered (t : SymbolTable) (q : Query) (declared : List ItemId) :
    t.Gathers q declared (t.gathered q declared) := by
  refine ⟨fun _ => mem_gathered, ?_⟩
  induction declared using List.reverseRecOn with
  | nil => exact List.Pairwise.nil
  | append_singleton declared i ih =>
    have hold := ih.imp fun {a b} ⟨before, hbefore, h⟩ =>
      (⟨before, hbefore.trans (List.prefix_append _ _), h⟩ : ∃ before, before <+: declared ++ [i] ∧
        (∃ i ∈ before, t.Offers q i a) ∧ ∀ i ∈ before, ¬ t.Offers q i b)
    rw [gathered_append_singleton]
    cases t.offered? q.name q.exclude q.origin i with
    | none => exact hold
    | some j =>
      show (insertNew _ j).Pairwise _
      unfold insertNew
      split
      · exact hold
      · -- `j` is new: all that was offered before was offered without it
        rename_i hnew
        have hnew : ¬ ∃ i ∈ declared, t.Offers q i j := by
          rw [← mem_gathered]
          simpa using hnew
        refine List.pairwise_append.2 ⟨hold, List.pairwise_singleton _ _, fun a ha b hb => ?_⟩
        obtain rfl := List.mem_singleton.1 hb
        refine ⟨declared, List.prefix_append _ _, mem_gathered.1 ha, fun i hi hoffers => ?_⟩
        exact hnew ⟨i, hi, hoffers⟩

theorem gathers_iff {declared found : List ItemId} :
    t.Gathers q declared found ↔ t.gathered q declared = found :=
  ⟨fun h => (t.gathers_gathered q declared).unique h, fun h => h ▸ t.gathers_gathered q declared⟩

/-! ## Classes -/

/-- The declarations of a scope. -/
def declaredIn (t : SymbolTable) (s : ScopeId) : List ItemId := (t.scope? s).elim [] (·.items)

/-- The declarations of a class. -/
def declaredBy (t : SymbolTable) (c : ItemId) : List ItemId :=
  (t.class? c).elim [] fun cls => t.declaredIn cls.scope

/-- Some declaration offers something. -/
def HasOffer (t : SymbolTable) (q : Query) (declared : List ItemId) : Prop :=
  ∃ i ∈ declared, ∃ j, t.Offers q i j

/-- The declarations offer nothing but functions. -/
def OnlyFunctions (t : SymbolTable) (q : Query) (declared : List ItemId) : Prop :=
  ∀ i ∈ declared, ∀ j, t.Offers q i j → t.isFunction j = true

section Offered

variable {declared : List ItemId}

theorem hasOffer_iff : t.HasOffer q declared ↔ t.gathered q declared ≠ [] := by
  rw [ne_eq, List.eq_nil_iff_forall_not_mem, not_forall_not]
  simp only [mem_gathered]
  constructor
  · rintro ⟨i, hi, j, hj⟩
    exact ⟨j, i, hi, hj⟩
  · rintro ⟨j, i, hi, hj⟩
    exact ⟨i, hi, j, hj⟩

theorem gathered_eq_nil (h : ¬ t.HasOffer q declared) : t.gathered q declared = [] :=
  not_not.1 (mt hasOffer_iff.2 h)

theorem onlyFunctions_iff :
    t.OnlyFunctions q declared ↔ (t.gathered q declared).all t.isFunction = true := by
  rw [List.all_eq_true]
  simp only [mem_gathered]
  constructor
  · rintro h j ⟨i, hi, hj⟩
    exact h i hi j hj
  · intro h i hi j hj
    exact h j ⟨i, hi, hj⟩

instance : Decidable (t.HasOffer q declared) := decidable_of_iff' _ hasOffer_iff

instance : Decidable (t.OnlyFunctions q declared) := decidable_of_iff' _ onlyFunctions_iff

end Offered

/-- The declarations that count when one looks through classes in a given order. -/
inductive Counts (t : SymbolTable) (q : Query) : (classes declared : List ItemId) → Prop
  | none {classes : List ItemId} (hnone : ∀ c ∈ classes, ¬ t.HasOffer q (t.declaredBy c)) :
      Counts t q classes []
  | sole {before rest : List ItemId} {c : ItemId}
      (hbefore : ∀ b ∈ before, ¬ t.HasOffer q (t.declaredBy b))
      (hfirst : t.HasOffer q (t.declaredBy c)) (hother : ¬ t.OnlyFunctions q (t.declaredBy c)) :
      Counts t q (before ++ c :: rest) (t.declaredBy c)
  | joined {before rest : List ItemId} {c : ItemId}
      (hbefore : ∀ b ∈ before, ¬ t.HasOffer q (t.declaredBy b))
      (hfirst : t.HasOffer q (t.declaredBy c)) (hfunctions : t.OnlyFunctions q (t.declaredBy c)) :
      Counts t q (before ++ c :: rest)
        (t.declaredBy c ++
          (rest.filter fun a => t.OnlyFunctions q (t.declaredBy a)).flatMap t.declaredBy)

theorem exists_counts (t : SymbolTable) (q : Query) (classes : List ItemId) :
    ∃ declared, t.Counts q classes declared := by
  cases hfind : classes.find? fun c => t.HasOffer q (t.declaredBy c) with
  | none =>
    refine ⟨[], .none fun c hc => ?_⟩
    simpa using List.find?_eq_none.1 hfind c hc
  | some c =>
    obtain ⟨hfirst, before, rest, rfl, hbefore⟩ := List.find?_eq_some_iff_append.1 hfind
    have hfirst : t.HasOffer q (t.declaredBy c) := by simpa using hfirst
    have hbefore : ∀ b ∈ before, ¬ t.HasOffer q (t.declaredBy b) := by simpa using hbefore
    by_cases hfunctions : t.OnlyFunctions q (t.declaredBy c)
    · exact ⟨_, .joined hbefore hfirst hfunctions⟩
    · exact ⟨_, .sole hbefore hfirst hfunctions⟩

/-! ### The walk through the classes -/

theorem insertNew_of_mem {as : List ItemId} (h : i ∈ as) : insertNew as i = as :=
  if_pos (by simpa using h)

/-- It does not matter whether duplicates are left out before or after. -/
theorem foldl_insertNew_foldl (as bs cs : List ItemId) :
    (cs.foldl insertNew bs).foldl insertNew as = (bs ++ cs).foldl insertNew as := by
  induction cs generalizing bs with
  | nil => rw [List.foldl_nil, List.append_nil]
  | cons c rest ih =>
    rw [List.foldl_cons, ih]
    by_cases hc : c ∈ bs
    · have hc' : c ∈ bs.foldl insertNew as := mem_foldl_insertNew.2 (.inr hc)
      rw [insertNew_of_mem hc, List.foldl_append, List.foldl_append, List.foldl_cons,
        insertNew_of_mem hc']
    · have hnew : insertNew bs c = bs ++ [c] := if_neg (by simpa using hc)
      rw [hnew, List.append_assoc, List.singleton_append]

theorem gathered_append (declared more : List ItemId) :
    t.gathered q (declared ++ more) =
      (t.gathered q more).foldl insertNew (t.gathered q declared) := by
  unfold gathered
  rw [foldl_insertNew_foldl, List.filterMap_append, List.foldl_append, List.nil_append]

theorem findLocal_eq (t : SymbolTable) (q : Query) (s : ScopeId) :
    t.findLocal q.name s q.exclude q.origin = t.gathered q (t.declaredIn s) := by
  unfold findLocal declaredIn gathered
  cases t.scope? s <;> rfl

section Walk

variable {c : ItemId} {found declared rest : List ItemId}

/-- One class of the walk, by what it offers. -/
theorem gatherMembers_cons :
    t.gatherMembers q.name q.exclude q.origin found (c :: rest) =
      match t.gathered q (t.declaredBy c) with
      | [] => t.gatherMembers q.name q.exclude q.origin found rest
      | own =>
        if found.isEmpty || (own.all t.isFunction && found.all t.isFunction) then
          if own.all t.isFunction then
            t.gatherMembers q.name q.exclude q.origin (own.foldl insertNew found) rest
          else own.foldl insertNew found
        else t.gatherMembers q.name q.exclude q.origin found rest := by
  rw [gatherMembers, declaredBy]
  cases t.class? c with
  | none => rfl
  | some cls =>
    have hlocal := findLocal_eq t q cls.scope
    cases hown : t.gathered q (t.declaredIn cls.scope) with
    | nil => simp only [hlocal, hown, Option.elim_some]
    | cons j own => simp only [hlocal, hown, Option.elim_some]

/-- A class that offers nothing is passed over. -/
theorem gatherMembers_none (hnone : ¬ t.HasOffer q (t.declaredBy c)) :
    t.gatherMembers q.name q.exclude q.origin found (c :: rest) =
      t.gatherMembers q.name q.exclude q.origin found rest := by
  rw [gatherMembers_cons, gathered_eq_nil hnone]

/-- Functions join functions. -/
theorem gatherMembers_functions (hfound : t.OnlyFunctions q declared)
    (hfunctions : t.OnlyFunctions q (t.declaredBy c)) :
    t.gatherMembers q.name q.exclude q.origin (t.gathered q declared) (c :: rest) =
      t.gatherMembers q.name q.exclude q.origin (t.gathered q (declared ++ t.declaredBy c)) rest := by
  rw [gatherMembers_cons, gathered_append]
  rw [onlyFunctions_iff] at hfound hfunctions
  split
  · rename_i hnil
    rw [hnil, List.foldl_nil]
  · rw [hfound, hfunctions, Bool.and_true, Bool.or_true, if_pos rfl, if_pos rfl]

/-- Anything else joins nothing. -/
theorem gatherMembers_other (hfound : t.HasOffer q declared)
    (hother : ¬ t.OnlyFunctions q (t.declaredBy c)) :
    t.gatherMembers q.name q.exclude q.origin (t.gathered q declared) (c :: rest) =
      t.gatherMembers q.name q.exclude q.origin (t.gathered q declared) rest := by
  rw [gatherMembers_cons]
  rw [onlyFunctions_iff, Bool.not_eq_true] at hother
  have hfound : (t.gathered q declared).isEmpty = false := by simpa using hasOffer_iff.1 hfound
  split
  · rfl
  · rw [hfound, hother, Bool.false_and, Bool.false_or, if_neg Bool.false_ne_true]

/-- The first class with an offer that is not only of functions ends the walk. -/
theorem gatherMembers_sole (hfirst : t.HasOffer q (t.declaredBy c))
    (hother : ¬ t.OnlyFunctions q (t.declaredBy c)) :
    t.gatherMembers q.name q.exclude q.origin [] (c :: rest) = t.gathered q (t.declaredBy c) := by
  have hown : (t.gathered q (t.declaredBy c)).foldl insertNew [] = t.gathered q (t.declaredBy c) :=
    (gathered_append [] (t.declaredBy c)).symm
  rw [gatherMembers_cons]
  rw [onlyFunctions_iff, Bool.not_eq_true] at hother
  split
  · rename_i hnil
    exact absurd hnil (hasOffer_iff.1 hfirst)
  · rw [hother, hown]
    rfl

theorem gatherMembers_before {before : List ItemId}
    (hbefore : ∀ b ∈ before, ¬ t.HasOffer q (t.declaredBy b)) :
    t.gatherMembers q.name q.exclude q.origin found (before ++ rest) =
      t.gatherMembers q.name q.exclude q.origin found rest := by
  induction before with
  | nil => rfl
  | cons b before ih =>
    rw [List.cons_append, gatherMembers_none (hbefore b List.mem_cons_self)]
    exact ih fun b' hb' => hbefore b' (List.mem_cons_of_mem b hb')

/-- After functions the walk goes through all further classes. -/
theorem gatherMembers_joined (hfound : t.HasOffer q declared)
    (hfunctions : t.OnlyFunctions q declared) :
    t.gatherMembers q.name q.exclude q.origin (t.gathered q declared) rest =
      t.gathered q (declared ++
        (rest.filter fun a => t.OnlyFunctions q (t.declaredBy a)).flatMap t.declaredBy) := by
  induction rest generalizing declared with
  | nil => rw [List.filter_nil, List.flatMap_nil, List.append_nil, gatherMembers]
  | cons c rest ih =>
    by_cases hc : t.OnlyFunctions q (t.declaredBy c)
    · have hfound' : t.HasOffer q (declared ++ t.declaredBy c) := by
        obtain ⟨i, hi, hoffers⟩ := hfound
        exact ⟨i, List.mem_append_left _ hi, hoffers⟩
      have hfunctions' : t.OnlyFunctions q (declared ++ t.declaredBy c) := fun i hi =>
        (List.mem_append.1 hi).elim (hfunctions i) (hc i)
      rw [gatherMembers_functions hfunctions hc, ih hfound' hfunctions',
        List.filter_cons_of_pos (by simpa using hc), List.flatMap_cons, List.append_assoc]
    · rw [gatherMembers_other hfound hc, ih hfound hfunctions,
        List.filter_cons_of_neg (by simpa using hc)]

/-- The walk gathers what counts. -/
theorem Counts.gatherMembers_eq {classes : List ItemId} (h : t.Counts q classes declared) :
    t.gatherMembers q.name q.exclude q.origin [] classes = t.gathered q declared := by
  cases h with
  | none hnone =>
    rw [← List.append_nil classes, gatherMembers_before hnone]
    rfl
  | sole hbefore hfirst hother => rw [gatherMembers_before hbefore, gatherMembers_sole hfirst hother]
  | @joined before rest c hbefore hfirst hfunctions =>
    have hstart : t.OnlyFunctions q [] := nofun
    calc t.gatherMembers q.name q.exclude q.origin [] (before ++ c :: rest)
      _ = t.gatherMembers q.name q.exclude q.origin (t.gathered q []) (c :: rest) :=
          gatherMembers_before hbefore
      _ = t.gatherMembers q.name q.exclude q.origin (t.gathered q (t.declaredBy c)) rest :=
          gatherMembers_functions hstart hfunctions
      _ = _ := gatherMembers_joined hfirst hfunctions

end Walk

/-! ## Scopes -/

/-- `found` is what a scope offers: what it declares or, in a class, what counts of the declarations of the
class and its ancestors. -/
inductive OfferedAt (t : SymbolTable) (q : Query) (s : ScopeId) (found : List ItemId) : Prop
  | plain (howner : t.classOwner? s = none) (hgathers : t.Gathers q (t.declaredIn s) found)
  | ofClass {c : ItemId} {declared : List ItemId} (howner : t.classOwner? s = some c)
      (hcounts : t.Counts q (t.withAncestors c) declared) (hgathers : t.Gathers q declared found)

/-- `found` is what a name means in a scope: what the nearest scope with an offer offers. -/
inductive Means (t : SymbolTable) (q : Query) : (s : ScopeId) → (found : List ItemId) → Prop
  | here {s : ScopeId} {found : List ItemId} (hfound : t.OfferedAt q s found) (hne : found ≠ []) :
      Means t q s found
  | outward {s p : ScopeId} {found : List ItemId} (hnone : t.OfferedAt q s [])
      (hparent : (t.scope? s).bind (·.parent) = some p) (hp : Means t q p found) : Means t q s found
  | nothing {s : ScopeId} (hnone : t.OfferedAt q s [])
      (hparent : (t.scope? s).bind (·.parent) = none) : Means t q s []

section Means

variable {s : ScopeId} {found : List ItemId}

theorem offeredAt_iff : t.OfferedAt q s found ↔ t.findAt q.name q.exclude q.origin s = found := by
  unfold findAt
  constructor
  · rintro (⟨howner, hgathers⟩ | ⟨howner, hcounts, hgathers⟩)
    · rw [howner]
      exact (findLocal_eq t q s).trans (gathers_iff.1 hgathers)
    · rw [howner]
      exact hcounts.gatherMembers_eq.trans (gathers_iff.1 hgathers)
  · rintro rfl
    cases howner : t.classOwner? s with
    | none => exact .plain howner (gathers_iff.2 (findLocal_eq t q s).symm)
    | some c =>
      obtain ⟨declared, hcounts⟩ := t.exists_counts q (t.withAncestors c)
      exact .ofClass howner hcounts (gathers_iff.2 hcounts.gatherMembers_eq.symm)

theorem OfferedAt.gathers (h : t.OfferedAt q s found) : ∃ declared, t.Gathers q declared found := by
  rcases h with ⟨-, hgathers⟩ | ⟨-, -, hgathers⟩
  · exact ⟨_, hgathers⟩
  · exact ⟨_, hgathers⟩

theorem Means.gathers (h : t.Means q s found) : ∃ declared, t.Gathers q declared found := by
  induction h with
  | here hfound _ => exact hfound.gathers
  | outward _ _ _ ih => exact ih
  | nothing hnone _ => exact hnone.gathers

/-- One scope of the search. -/
theorem ScopesNest.findAll_eq (h : t.ScopesNest) (q : Query) (s : ScopeId) :
    t.findAll q.name s q.exclude q.origin =
      match t.findAt q.name q.exclude q.origin s with
      | [] => ((t.scope? s).bind (·.parent)).elim [] fun p => t.findAll q.name p q.exclude q.origin
      | found => found := by
  have hchain : t.chain s = s :: ((t.scope? s).bind (·.parent)).elim [] t.chain := by
    cases hs : t.scope? s with
    | none => simp [chain, hs]
    | some scope => exact h.chain_eq hs
  unfold findAll
  rw [hchain, firstNonempty]
  cases t.findAt q.name q.exclude q.origin s <;> cases (t.scope? s).bind (·.parent) <;> rfl

theorem ScopesNest.findAll_of_means (h : t.ScopesNest) (hmeans : t.Means q s found) :
    t.findAll q.name s q.exclude q.origin = found := by
  induction hmeans with
  | here hfound hne =>
    rw [h.findAll_eq, offeredAt_iff.1 hfound]
    split
    · contradiction
    · rfl
  | outward hnone hparent _ ih =>
    rw [h.findAll_eq, offeredAt_iff.1 hnone, hparent]
    exact ih
  | nothing hnone hparent => rw [h.findAll_eq, offeredAt_iff.1 hnone, hparent]; rfl

theorem ScopesNest.means_findAll (h : t.ScopesNest) (q : Query) (s : ScopeId) :
    t.Means q s (t.findAll q.name s q.exclude q.origin) := by
  induction hn : s.index using Nat.strongRecOn generalizing s with
  | ind n ih =>
    rw [h.findAll_eq]
    split
    · rename_i hnone
      cases hparent : (t.scope? s).bind (·.parent) with
      | none => exact .nothing (offeredAt_iff.2 hnone) hparent
      | some p =>
        obtain ⟨scope, hs, hp⟩ := Option.bind_eq_some_iff.1 hparent
        have hlt := (h.parent s scope p hs hp).1
        exact .outward (offeredAt_iff.2 hnone) hparent (ih p.index (hn ▸ hlt) p rfl)
    · rename_i hne
      exact .here (offeredAt_iff.2 rfl) hne

end Means

/-- **A name means what the nearest scope offers.** Where scopes nest, lookup finds the items that the name
means, each once and no alias among them; the classes that it walks through are the class and its ancestors,
nearest first. -/
theorem findAll_eq_iff_means (h : t.ScopesNest) (q : Query) (s : ScopeId) :
    (∀ found, t.findAll q.name s q.exclude q.origin = found ↔ t.Means q s found) ∧
      (t.findAll q.name s q.exclude q.origin).Nodup ∧
      (∀ i ∈ t.findAll q.name s q.exclude q.origin, t.aliasTarget? i = none) ∧
      ∀ c, t.NearestFirst c (t.withAncestors c) := by
  have hmeans := h.means_findAll q s
  obtain ⟨declared, hgathers⟩ := hmeans.gathers
  refine ⟨fun found => ⟨?_, h.findAll_of_means⟩, hgathers.nodup, fun i => hgathers.not_alias,
    t.nearestFirst_withAncestors⟩
  rintro rfl
  exact hmeans

/-- Two classes, one the parent of the other, with a function of the same name each, and an alias of the
name outside. -/
def overloadSteps : List Construction :=
  [.newModule "m" "m.tsr" "", .newScope ⟨0⟩ .block, .newScope ⟨0⟩ .block,
    .addItem { name := "A", scope := ⟨0⟩, module := ⟨0⟩, entity := .cls { scope := ⟨2⟩ } },
    .addItem { name := "B", scope := ⟨0⟩, module := ⟨0⟩,
               entity := .cls { scope := ⟨3⟩, parents := [⟨0⟩] } },
    .setOwner ⟨2⟩ (.cls ⟨0⟩), .setOwner ⟨3⟩ (.cls ⟨1⟩),
    .addItem { name := "f", scope := ⟨2⟩, module := ⟨0⟩,
               entity := .fn { scope := ⟨4⟩, returnType := .void } },
    .addItem { name := "f", scope := ⟨3⟩, module := ⟨0⟩,
               entity := .fn { scope := ⟨5⟩, returnType := .void } },
    .addItem { name := "f", scope := ⟨0⟩, module := ⟨0⟩, entity := .aliasOf ⟨0⟩ },
    .newScope ⟨2⟩ (.fn ⟨2⟩), .newScope ⟨3⟩ (.fn ⟨3⟩)]

theorem findAll_eq_iff_means_overload :
    ∃ t, build overloadSteps = some t ∧ t.Means { name := "f" } ⟨5⟩ [⟨3⟩, ⟨2⟩] ∧
      t.Means { name := "f" } ⟨0⟩ [⟨0⟩] := by
  obtain ⟨t, ht⟩ : ∃ t, build overloadSteps = some t := ⟨_, rfl⟩
  have hnest : t.ScopesNest := (wellFormed_empty.runAll ht).scopes
  have hinside : (build overloadSteps).map (·.findAll "f" ⟨5⟩ [] none) = some [⟨3⟩, ⟨2⟩] := by
    decide +kernel
  have houtside : (build overloadSteps).map (·.findAll "f" ⟨0⟩ [] none) = some [⟨0⟩] := by
    decide +kernel
  rw [ht] at hinside houtside
  exact ⟨t, ht, ((findAll_eq_iff_means hnest _ _).1 _).1 (Option.some.inj hinside),
    ((findAll_eq_iff_means hnest _ _).1 _).1 (Option.some.inj houtside)⟩

end SemanticAnalysis.SymbolTable
