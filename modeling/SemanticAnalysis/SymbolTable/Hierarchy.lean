import SemanticAnalysis.SymbolTable.Basic

/-!
# Class hierarchy

Classes list their direct parents, and a class may have several. The ancestors of a class are found
layer by layer: layer `d` holds the items whose shortest path of parents from the class has length
`d`. No table makes the search run forever, since no item occurs in two layers.
-/

namespace SemanticAnalysis.SymbolTable

/-- The direct parents of an item; only classes have any. -/
def parentsOf (t : SymbolTable) (i : ItemId) : List ItemId :=
  match t.class? i with
  | some c => c.parents
  | none => []

/-- The elements of a list that are not in `seen`, each at its first occurrence. -/
def firstSeen (seen : List ItemId) : List ItemId → List ItemId
  | [] => []
  | i :: is => if seen.contains i then firstSeen seen is else i :: firstSeen (i :: seen) is

/-- The layers beyond `frontier`, none with an item of `seen`; at most `bound` of them. -/
def layersFrom (t : SymbolTable) : (bound : Nat) → (frontier seen : List ItemId) → List (List ItemId)
  | 0, _, _ => []
  | bound + 1, frontier, seen =>
    match firstSeen seen (frontier.flatMap t.parentsOf) with
    | [] => []
    | next => next :: layersFrom t bound next (seen ++ next)

/-- The ancestors of a class, by distance. Every layer but the last holds a class of the table that
no other layer holds, so there are at most as many layers as items. -/
def ancestorLayers (t : SymbolTable) (i : ItemId) : List (List ItemId) :=
  t.layersFrom t.items.size [i] [i]

/-- Every ancestor of a class once, nearest first. -/
def ancestors (t : SymbolTable) (i : ItemId) : List ItemId := (t.ancestorLayers i).flatten

/-- A class and its ancestors, nearest first. -/
def withAncestors (t : SymbolTable) (i : ItemId) : List ItemId := i :: t.ancestors i

/-- The length of the shortest path of parents from `i` to `ancestor`. -/
def distance? (t : SymbolTable) (i ancestor : ItemId) : Option Nat :=
  if i = ancestor then some 0
  else ((t.ancestorLayers i).findIdx? (·.contains ancestor)).map (· + 1)

/-- `ancestor` is a parent of `i`, or a parent of a parent, and so on. -/
def hasParent (t : SymbolTable) (i ancestor : ItemId) : Bool := (t.distance? i ancestor).any (0 < ·)

end SemanticAnalysis.SymbolTable
