import Mathlib.Data.Nat.Find
import Mathlib.Logic.Function.Iterate
import SemanticAnalysis.Proofs.SymbolTable.Distance

/-!
# The search for ancestors finds the shortest paths

The layers of the search for ancestors are the distances (`mem_ancestorLayer`), so `distance?` is the length
of a shortest path (`distance?_eq_some_iff`) and there is none only without a path
(`distance?_eq_none_iff`).

The same search can be told round by round: a queue holds the items to look at with their depth, a round
takes the first of them and puts its parents that are new at the end (`Search.next`).

1. After any number of rounds the queue holds a part of one layer and what that layer has led to so far
   (`Search.Stands`); a round keeps this (`Search.exists_stands`).
2. The queue becomes empty, with the ancestors found in the order of the layers (`Search.exists_after_eq`).
3. Left as soon as an item is met among the parents, the search has its distance
   (`Search.distance?_eq_some_iff_meets`).
-/

namespace SemanticAnalysis.SymbolTable

variable {t : SymbolTable} {i j k : ItemId} {d e n : Nat}

/-! ## Layers are distances -/

theorem IsDistance.unique (h : t.IsDistance i j d) (h' : t.IsDistance i j e) : d = e :=
  Nat.le_antisymm (h.shortest e h'.path) (h'.shortest d h.path)

theorem isDistance_refl (t : SymbolTable) (i : ItemId) : t.IsDistance i i 0 :=
  ⟨.refl, fun n _ => Nat.zero_le n⟩

/-- Each layer beyond the frontier is one step further away than the one before. -/
theorem Searched.mem_layer {frontier seen layer : List ItemId} (h : t.Searched i d frontier seen)
    {bound : Nat} (hlayer : (t.layersFrom bound frontier seen)[n]? = some layer) :
    j ∈ layer ↔ t.IsDistance i j (d + n + 1) := by
  induction bound generalizing d frontier seen n with
  | zero => cases hlayer
  | succ bound ih =>
    unfold SymbolTable.layersFrom at hlayer
    split at hlayer
    · cases hlayer
    · cases n with
      | zero =>
        cases hlayer
        exact h.mem_next
      | succ n =>
        rw [ih h.next hlayer, Nat.add_right_comm d 1 n, Nat.add_assoc d n 1]

theorem mem_ancestorLayer {layer : List ItemId} (h : (t.ancestorLayers i)[n]? = some layer) :
    j ∈ layer ↔ t.IsDistance i j (n + 1) := by
  rw [(t.searched_start i).mem_layer h, Nat.zero_add]

theorem exists_isDistance (h : t.Climbs i j) : ∃ d, t.IsDistance i j d := by
  have hpath : ∃ n, t.ClimbsIn i n j := by
    induction h with
    | refl => exact ⟨0, .refl⟩
    | tail _ hparent ih =>
      obtain ⟨n, hn⟩ := ih
      exact ⟨n + 1, hn.tail hparent⟩
  classical
  exact ⟨Nat.find hpath, Nat.find_spec hpath, fun n hn => Nat.find_min' hpath hn⟩

theorem isDistance_of_distance? (h : t.distance? i j = some d) : t.IsDistance i j d := by
  unfold distance? at h
  split at h
  · rename_i heq
    cases h
    exact heq ▸ t.isDistance_refl i
  · obtain ⟨n, hn, rfl⟩ := Option.map_eq_some_iff.1 h
    obtain ⟨hlt, hmem, -⟩ := List.findIdx?_eq_some_iff_getElem.1 hn
    exact (mem_ancestorLayer (List.getElem?_eq_getElem hlt)).1 (List.contains_iff_mem.1 hmem)

/-- **Distance.** The search finds the length of a shortest path. -/
theorem distance?_eq_some_iff : t.distance? i j = some d ↔ t.IsDistance i j d := by
  refine ⟨isDistance_of_distance?, fun h => ?_⟩
  by_cases heq : i = j
  · subst heq
    rw [h.unique (t.isDistance_refl i), distance?, if_pos rfl]
  · have hfound := hasParent_of_climbs h.path.climbs heq
    unfold hasParent at hfound
    cases he : t.distance? i j with
    | none =>
      rw [he] at hfound
      cases hfound
    | some e => rw [h.unique (isDistance_of_distance? he)]

theorem distance?_eq_none_iff : t.distance? i j = none ↔ ¬ t.Climbs i j := by
  constructor
  · intro hnone hclimbs
    obtain ⟨d, hd⟩ := exists_isDistance hclimbs
    rw [distance?_eq_some_iff.2 hd] at hnone
    cases hnone
  · intro hnot
    rw [Option.eq_none_iff_forall_ne_some]
    exact fun d hd => hnot (isDistance_of_distance? hd).path.climbs

theorem distance?_eq_zero_iff : t.distance? i j = some 0 ↔ i = j := by
  rw [distance?_eq_some_iff]
  constructor
  · intro h
    cases h.path
    rfl
  · rintro rfl
    exact t.isDistance_refl i

theorem mem_ancestors : j ∈ t.ancestors i ↔ j ≠ i ∧ t.Climbs i j := by
  have hwalk := t.nearestFirst_withAncestors i
  obtain ⟨hnew, -⟩ := List.nodup_cons.1 hwalk.nodup
  rw [← hwalk.mem j, withAncestors, List.mem_cons]
  constructor
  · intro hj
    exact ⟨fun heq => hnew (heq ▸ hj), .inr hj⟩
  · rintro ⟨hne, hj⟩
    exact hj.resolve_left hne

/-! ## The search with a queue -/

theorem firstSeen_cons_of_mem {seen : List ItemId} (h : k ∈ seen) (is : List ItemId) :
    firstSeen seen (k :: is) = firstSeen seen is := if_pos (List.contains_iff_mem.2 h)

theorem firstSeen_cons_of_not_mem {seen : List ItemId} (h : k ∉ seen) (is : List ItemId) :
    firstSeen seen (k :: is) = k :: firstSeen (k :: seen) is :=
  if_neg fun hcontains => h (List.contains_iff_mem.1 hcontains)

theorem firstSeen_congr {seen seen' : List ItemId} (h : ∀ x, x ∈ seen ↔ x ∈ seen')
    (is : List ItemId) : firstSeen seen is = firstSeen seen' is := by
  induction is generalizing seen seen' with
  | nil => rfl
  | cons a rest ih =>
    by_cases ha : a ∈ seen
    · rw [firstSeen_cons_of_mem ha, firstSeen_cons_of_mem ((h a).1 ha), ih h]
    · have hboth : ∀ x, x ∈ a :: seen ↔ x ∈ a :: seen' := fun x => by
        rw [List.mem_cons, List.mem_cons, h]
      rw [firstSeen_cons_of_not_mem ha, firstSeen_cons_of_not_mem (mt (h a).2 ha), ih hboth]

theorem firstSeen_append (seen is js : List ItemId) :
    firstSeen seen (is ++ js) = firstSeen seen is ++ firstSeen (seen ++ firstSeen seen is) js := by
  induction is generalizing seen with
  | nil => simp [firstSeen]
  | cons a rest ih =>
    rw [List.cons_append]
    by_cases ha : a ∈ seen
    · rw [firstSeen_cons_of_mem ha, firstSeen_cons_of_mem ha, ih]
    · rw [firstSeen_cons_of_not_mem ha, firstSeen_cons_of_not_mem ha, ih, List.cons_append]
      congr 2
      exact firstSeen_congr (fun x => by simp [or_left_comm]) js

/-- A search for ancestors between two rounds: the items to look at with their depth, and all items found. -/
structure Search where
  queue : List (ItemId × Nat)
  seen : List ItemId

namespace Search

/-- The class alone, at depth zero. -/
def start (i : ItemId) : Search := ⟨[(i, 0)], [i]⟩

/-- A round takes the first item of the queue and puts its parents that are new at the end. -/
def next (t : SymbolTable) (s : Search) : Search :=
  match s.queue with
  | [] => s
  | (k, depth) :: rest =>
    let found := firstSeen s.seen (t.parentsOf k)
    ⟨rest ++ found.map (·, depth + 1), s.seen ++ found⟩

/-- The depth at which a round meets an item among the parents that it goes through. -/
def meets? (t : SymbolTable) (j : ItemId) (s : Search) : Option Nat :=
  match s.queue with
  | [] => none
  | (k, depth) :: _ => if j ∈ t.parentsOf k then some (depth + 1) else none

/-- The search behind some rounds. -/
def after (t : SymbolTable) (i : ItemId) (n : Nat) : Search := (next t)^[n] (start i)

/-- Where the search stands in the layers: it is going through the frontier at depth `d`, of which it is
done with a part. -/
structure Stands (t : SymbolTable) (i : ItemId) (n d : Nat) (done todo seen : List ItemId) : Prop where
  searched : t.Searched i d (done ++ todo) seen
  queue : (after t i n).queue =
    todo.map (·, d) ++ (firstSeen seen (done.flatMap t.parentsOf)).map (·, d + 1)
  found : (after t i n).seen = seen ++ firstSeen seen (done.flatMap t.parentsOf)
  /-- What is no longer in the queue was taken in an earlier round. -/
  taken : ∀ k ∈ seen, k ∉ todo → ∃ m < n, ∃ e, (after t i m).queue.head? = some (k, e)

theorem after_succ (t : SymbolTable) (i : ItemId) (n : Nat) : after t i (n + 1) = (after t i n).next t :=
  Function.iterate_succ_apply' _ _ _

theorem stands_start (t : SymbolTable) (i : ItemId) : Stands t i 0 0 [] [i] [i] where
  searched := t.searched_start i
  queue := rfl
  found := rfl
  taken _ hk hnot := absurd hk hnot

namespace Stands

variable {done todo seen : List ItemId}

/-- Once the frontier is done, what was found is the next one. -/
theorem turn (h : Stands t i n d done [] seen) :
    Stands t i n (d + 1) [] (firstSeen seen (done.flatMap t.parentsOf))
      (seen ++ firstSeen seen (done.flatMap t.parentsOf)) where
  searched := by
    have hnext := h.searched.next
    rwa [List.append_nil] at hnext
  queue := by simpa [firstSeen] using h.queue
  found := by simpa [firstSeen] using h.found
  taken k hk hnot := h.taken k ((List.mem_append.1 hk).resolve_right hnot) List.not_mem_nil

/-- A round goes one item further in the frontier. -/
theorem step (h : Stands t i n d done (k :: todo) seen) :
    Stands t i (n + 1) d (done ++ [k]) todo seen where
  searched := by simpa using h.searched
  queue := by
    have hqueue := h.queue
    rw [List.map_cons, List.cons_append] at hqueue
    rw [after_succ, next, hqueue]
    show _ ++ _ = _
    rw [h.found, List.flatMap_append, firstSeen_append, List.map_append, List.append_assoc]
    simp
  found := by
    have hqueue := h.queue
    rw [List.map_cons, List.cons_append] at hqueue
    rw [after_succ, next, hqueue]
    show (after t i n).seen ++ _ = _
    rw [h.found, List.flatMap_append, firstSeen_append, List.append_assoc]
    simp
  taken k' hk' hnot := by
    by_cases heq : k' = k
    · subst heq
      refine ⟨n, Nat.lt_succ_self n, d, ?_⟩
      rw [h.queue]
      rfl
    · obtain ⟨m, hm, e, hhead⟩ := h.taken k' hk' (by simp [heq, hnot])
      exact ⟨m, Nat.lt_succ_of_lt hm, e, hhead⟩

/-- Nothing happens any more once the queue is empty. -/
theorem rest (h : Stands t i n d done [] seen) (hdone : firstSeen seen (done.flatMap t.parentsOf) = []) :
    Stands t i (n + 1) d done [] seen := by
  have hsame : after t i (n + 1) = after t i n := by
    rw [after_succ, next, h.queue, hdone]
    rfl
  refine ⟨h.searched, hsame ▸ h.queue, hsame ▸ h.found, fun k hk hnot => ?_⟩
  obtain ⟨m, hm, hhead⟩ := h.taken k hk hnot
  exact ⟨m, Nat.lt_succ_of_lt hm, hhead⟩

end Stands

theorem exists_stands (t : SymbolTable) (i : ItemId) (n : Nat) :
    ∃ d done todo seen, Stands t i n d done todo seen := by
  induction n with
  | zero => exact ⟨0, [], [i], [i], stands_start t i⟩
  | succ n ih =>
    obtain ⟨d, done, todo, seen, h⟩ := ih
    cases todo with
    | cons k todo => exact ⟨d, done ++ [k], todo, seen, h.step⟩
    | nil =>
      cases hfound : firstSeen seen (done.flatMap t.parentsOf) with
      | nil => exact ⟨d, done, [], seen, h.rest hfound⟩
      | cons k todo =>
        have hturn := h.turn
        rw [hfound] at hturn
        exact ⟨d + 1, [k], todo, _, hturn.step⟩

/-! ### The end of the search -/

variable {done todo seen frontier : List ItemId}

/-- As many rounds as there are items left go through the frontier. -/
theorem Stands.through (h : Stands t i n d done todo seen) :
    Stands t i (n + todo.length) d (done ++ todo) [] seen := by
  induction todo generalizing n done with
  | nil => simpa using h
  | cons k todo ih =>
    have hrest := ih h.step
    rwa [List.append_assoc, Nat.add_right_comm] at hrest

theorem Stands.layers (h : Stands t i n d [] frontier seen) (bound : Nat) :
    ∃ n' d' frontier', Stands t i n' d' [] frontier' (seen ++ (t.layersFrom bound frontier seen).flatten) := by
  induction bound generalizing n d frontier seen with
  | zero => exact ⟨n, d, frontier, by simpa [layersFrom] using h⟩
  | succ bound ih =>
    unfold layersFrom
    split
    · exact ⟨n, d, frontier, by simpa using h⟩
    · rw [List.flatten_cons, ← List.append_assoc]
      exact ih h.through.turn

/-- **Termination.** After finitely many rounds the queue is empty, and the class and its ancestors have been
found in the order in which the layers list them. -/
theorem exists_after_eq (t : SymbolTable) (i : ItemId) : ∃ n, after t i n = ⟨[], t.withAncestors i⟩ := by
  obtain ⟨n, d, frontier, h⟩ := (stands_start t i).layers t.items.size
  change Stands t i n d [] frontier (t.withAncestors i) at h
  have hfrontier : ∀ k ∈ frontier, k ∈ t.withAncestors i := fun k hk =>
    (h.searched.within k).2 ⟨d, Nat.le_refl d, ((h.searched.outmost k).1 hk).path⟩
  have hnothing : firstSeen (t.withAncestors i) (frontier.flatMap t.parentsOf) = [] := by
    refine List.eq_nil_iff_forall_not_mem.2 fun j hj => ?_
    obtain ⟨hparent, hnew⟩ := mem_firstSeen.1 hj
    obtain ⟨k, hk, hparent⟩ := List.mem_flatMap.1 hparent
    exact hnew (t.withAncestors_closed i k (hfrontier k hk) hparent)
  have hend := h.through
  refine ⟨n + frontier.length, ?_⟩
  have hqueue := hend.queue
  have hfound := hend.found
  rw [List.nil_append, hnothing] at hqueue hfound
  rw [List.append_nil] at hfound
  calc after t i (n + frontier.length)
    _ = ⟨(after t i (n + frontier.length)).queue, (after t i (n + frontier.length)).seen⟩ := rfl
    _ = ⟨[], t.withAncestors i⟩ := by rw [hqueue, hfound]; rfl

/-! ### The first meeting -/

/-- What is at the front of the queue is in the frontier, or it is the first of the next one. -/
theorem exists_stands_of_queue {rest : List (ItemId × Nat)} (h : (after t i n).queue = (k, e) :: rest) :
    ∃ done todo seen, Stands t i n e done (k :: todo) seen := by
  obtain ⟨d, done, todo, seen, hstands⟩ := exists_stands t i n
  have hqueue := hstands.queue
  rw [h] at hqueue
  cases todo with
  | cons k' todo =>
    obtain ⟨hfront, -⟩ := List.cons.inj hqueue
    obtain ⟨rfl, rfl⟩ := Prod.mk.inj hfront
    exact ⟨done, todo, seen, hstands⟩
  | nil =>
    have hturn := hstands.turn
    cases hfound : firstSeen seen (done.flatMap t.parentsOf) with
    | nil =>
      rw [hfound] at hqueue
      cases hqueue
    | cons k' todo =>
      rw [hfound] at hqueue hturn
      obtain ⟨hfront, -⟩ := List.cons.inj hqueue
      obtain ⟨rfl, rfl⟩ := Prod.mk.inj hfront
      exact ⟨[], todo, _, hturn⟩

theorem meets?_of_head {s : Search} (h : s.queue.head? = some (k, e)) (hparent : t.IsParent k j) :
    s.meets? t j = some (e + 1) := by
  obtain ⟨rest, hqueue⟩ := List.head?_eq_some_iff.1 h
  unfold meets?
  rw [hqueue]
  exact if_pos hparent

/-- An item is first met at its distance. -/
theorem isDistance_of_meets (hne : i ≠ j) (hmeets : (after t i n).meets? t j = some d)
    (hfirst : ∀ m < n, (after t i m).meets? t j = none) : t.IsDistance i j d := by
  unfold meets? at hmeets
  split at hmeets
  · cases hmeets
  · rename_i k e rest hqueue
    split at hmeets
    · rename_i hparent
      cases hmeets
      obtain ⟨done, todo, seen, h⟩ := exists_stands_of_queue hqueue
      have hk : t.IsDistance i k e := (h.searched.outmost k).1 (by simp)
      refine ⟨hk.path.tail hparent, fun m hm => ?_⟩
      by_contra hlt
      cases hm with
      | refl => exact hne rfl
      | @tail m k' _ hpath hparent' =>
        -- a class on a shorter path was taken in an earlier round, which would have met `j`
        have hseen : k' ∈ seen := (h.searched.within k').2 ⟨m, by omega, hpath⟩
        have hdone : k' ∉ k :: todo := fun hmem => by
          have := ((h.searched.outmost k').1 (List.mem_append_right _ hmem)).shortest m hpath
          omega
        obtain ⟨m', hm', e', hhead⟩ := h.taken k' hseen hdone
        have hmet := meets?_of_head hhead hparent'
        rw [hfirst m' hm'] at hmet
        cases hmet
    · cases hmeets

/-- **The way out.** The rounds first meet another class at the depth that is its distance. -/
theorem distance?_eq_some_iff_meets (hne : i ≠ j) :
    t.distance? i j = some d ↔
      ∃ n, (after t i n).meets? t j = some d ∧ ∀ m < n, (after t i m).meets? t j = none := by
  rw [distance?_eq_some_iff]
  constructor
  · intro hdistance
    have hmet : ∃ n, (after t i n).meets? t j ≠ none := by
      cases hdistance.path with
      | refl => exact absurd rfl hne
      | @tail _ k _ hpath hparent =>
        obtain ⟨n, hend⟩ := exists_after_eq t i
        obtain ⟨e, done, todo, seen, h⟩ := exists_stands t i n
        have hqueue := h.queue
        have hfound := h.found
        rw [hend] at hqueue hfound
        obtain ⟨htodo, hnothing⟩ := List.append_eq_nil_iff.1 hqueue.symm
        rw [List.map_eq_nil_iff] at htodo hnothing
        rw [hnothing, List.append_nil] at hfound
        have hk : k ∈ seen := hfound ▸ mem_withAncestors_of_climbs hpath.climbs
        obtain ⟨m, -, e', hhead⟩ := h.taken k hk (by simp [htodo])
        exact ⟨m, by rw [meets?_of_head hhead hparent]; simp⟩
    have hfirst : ∀ m < Nat.find hmet, (after t i m).meets? t j = none := fun m hm =>
      not_not.1 (Nat.find_min hmet hm)
    obtain ⟨d', hd'⟩ := Option.ne_none_iff_exists'.1 (Nat.find_spec hmet)
    refine ⟨Nat.find hmet, ?_, hfirst⟩
    rw [hd', hdistance.unique (isDistance_of_meets hne hd' hfirst)]
  · rintro ⟨n, hmeets, hfirst⟩
    exact isDistance_of_meets hne hmeets hfirst

end Search

/-! ## Exact answers -/

/-- What is asked about the ancestors of a class is answered exactly. -/
structure ExactAncestry (t : SymbolTable) (i : ItemId) : Prop where
  /-- The distance is the length of a shortest path. -/
  distance : ∀ j d, t.distance? i j = some d ↔ t.IsDistance i j d
  self : ∀ j, t.distance? i j = some 0 ↔ i = j
  unrelated : ∀ j, t.distance? i j = none ↔ ¬ t.Climbs i j
  ancestors : ∀ j, j ∈ t.ancestors i ↔ j ≠ i ∧ t.Climbs i j
  once : (t.ancestors i).Nodup
  nearestFirst : (t.ancestors i).Pairwise fun a b =>
    ∃ m n, t.distance? i a = some m ∧ t.distance? i b = some n ∧ m ≤ n
  /-- The search with a queue ends, with the same list. -/
  ends : ∃ n, Search.after t i n = ⟨[], i :: t.ancestors i⟩
  /-- The search that is left on the first meeting gives the same distance. -/
  meets : ∀ j d, i ≠ j → (t.distance? i j = some d ↔ ∃ n,
    (Search.after t i n).meets? t j = some d ∧ ∀ m < n, (Search.after t i m).meets? t j = none)

theorem exactAncestry (t : SymbolTable) (i : ItemId) : t.ExactAncestry i where
  distance _ _ := distance?_eq_some_iff
  self _ := distance?_eq_zero_iff
  unrelated _ := distance?_eq_none_iff
  ancestors _ := mem_ancestors
  once := (List.nodup_cons.1 (t.nearestFirst_withAncestors i).nodup).2
  nearestFirst := by
    have hordered := (List.pairwise_cons.1 (t.nearestFirst_withAncestors i).ordered).2
    refine hordered.imp_of_mem fun {a b} ha hb hnear => ?_
    obtain ⟨m, hm⟩ := exists_isDistance (mem_ancestors.1 ha).2
    obtain ⟨n, hn⟩ := exists_isDistance (mem_ancestors.1 hb).2
    obtain ⟨m', hle, hpath⟩ := hnear n hn.path
    exact ⟨m, n, distance?_eq_some_iff.2 hm, distance?_eq_some_iff.2 hn,
      Nat.le_trans (hm.shortest m' hpath) hle⟩
  ends := Search.exists_after_eq t i
  meets _ _ := Search.distance?_eq_some_iff_meets

end SemanticAnalysis.SymbolTable
