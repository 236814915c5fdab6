import SemanticAnalysis.SymbolTable.Hierarchy
import SemanticAnalysis.Diagnostic

/-!
# Lookup

Names are looked up outward from a scope; the nearest scope with a match ends the search. The scope
of a class also offers what its ancestors declare, and functions of one name gather along the
hierarchy. Aliases are followed to the item they name. Whether the looking scope may see a
declaration is judged on the declaration itself, not on what an alias leads to.
-/

namespace SemanticAnalysis

/-- Why the table cannot answer. -/
inductive TableFault where
  | aliasCycle (name : String)
  | inheritanceCycle (name : String)
deriving DecidableEq, Repr, Inhabited

namespace TableFault

def text : TableFault → String
  | aliasCycle name => "alias cycle through " ++ Cause.quoted name
  | inheritanceCycle name => "class " ++ Cause.quoted name ++ " inherits from itself"

/-- The fault as an error in the source. -/
def placed (f : TableFault) (p : Position) : Diagnostic := .other p f.text

/-- The fault as an inconsistency of the analysis. -/
def unplaced (f : TableFault) : Diagnostic := .internal f.text

end TableFault

namespace SymbolTable

/-! ## Aliases -/

/-- What an alias stands for. -/
def aliasTarget? (t : SymbolTable) (i : ItemId) : Option ItemId :=
  match t.item? i with
  | some item =>
    match item.entity with
    | .aliasOf target => some target
    | _ => none
  | none => none

/-- Follow at most `bound` aliases. -/
def followAliases (t : SymbolTable) : (bound : Nat) → ItemId → Option ItemId
  | 0, i => if (t.aliasTarget? i).isSome then none else some i
  | bound + 1, i =>
    match t.aliasTarget? i with
    | some target => followAliases t bound target
    | none => some i

/-- The item that a chain of aliases ends in. A chain longer than the table is a cycle. -/
def resolveAlias (t : SymbolTable) (i : ItemId) : Except TableFault ItemId :=
  match t.followAliases t.items.size i with
  | some target => .ok target
  | none => .error (.aliasCycle (t.itemName i))

/-! ## Visibility -/

/-- Code in `origin` may refer to the item. -/
def canSee (t : SymbolTable) (i : ItemId) (origin : ScopeId) : Bool :=
  match t.item? i, t.scope? origin with
  | some item, some from_ =>
    match item.visibility with
    | .everyone => true
    | .scopeOnly => t.isWithin origin item.scope
    | .derived =>
      t.isWithin origin item.scope ||
        match t.classOwner? item.scope with
        | none => false
        | some declaring =>
          ((t.chain origin).filterMap t.classOwner?).any fun c =>
            c == declaring || t.hasParent c declaring
    | .sameModule => from_.module == item.module
    | .samePackage =>
      match t.module? from_.module, t.module? item.module with
      | some asking, some owner =>
        asking.id == owner.id || (!owner.package.isEmpty && asking.package == owner.package)
      | _, _ => false
  | _, _ => false

/-! ## Names -/

/-- The item a declaration offers under `name`, aliases followed, if it is visible from `origin` and
of a kind that is not excluded. -/
def offered? (t : SymbolTable) (name : String) (exclude : List EntityKind) (origin : Option ScopeId)
    (i : ItemId) : Option ItemId :=
  match t.item? i with
  | none => none
  | some item =>
    if item.name != name then none
    else if origin.any fun o => !t.canSee i o then none
    else
      match t.resolveAlias i with
      | .error _ => none
      | .ok target =>
        if (t.kind? target).any exclude.contains then none else some target

/-- The items declared in one scope under `name`. -/
def findLocal (t : SymbolTable) (name : String) (s : ScopeId) (exclude : List EntityKind)
    (origin : Option ScopeId) : List ItemId :=
  match t.scope? s with
  | none => []
  | some scope => (scope.items.filterMap (t.offered? name exclude origin)).foldl insertNew []

/-- Gather what a class and its ancestors declare. The first declaring class counts; as long as
only functions were found, the functions of further ancestors join. -/
def gatherMembers (t : SymbolTable) (name : String) (exclude : List EntityKind)
    (origin : Option ScopeId) (found : List ItemId) : List ItemId → List ItemId
  | [] => found
  | c :: rest =>
    match t.class? c with
    | none => gatherMembers t name exclude origin found rest
    | some cls =>
      match t.findLocal name cls.scope exclude origin with
      | [] => gatherMembers t name exclude origin found rest
      | own =>
        let onlyFunctions := own.all t.isFunction
        if found.isEmpty || (onlyFunctions && found.all t.isFunction) then
          let joined := own.foldl insertNew found
          if onlyFunctions then gatherMembers t name exclude origin joined rest else joined
        else gatherMembers t name exclude origin found rest

/-- The members of a class under `name`, with those it inherits. -/
def findInClass (t : SymbolTable) (c : ItemId) (name : String) (exclude : List EntityKind)
    (origin : Option ScopeId) : List ItemId :=
  t.gatherMembers name exclude origin [] (t.withAncestors c)

/-- What one scope of a chain offers under `name`. -/
def findAt (t : SymbolTable) (name : String) (exclude : List EntityKind) (origin : Option ScopeId)
    (s : ScopeId) : List ItemId :=
  match t.classOwner? s with
  | some c => t.findInClass c name exclude origin
  | none => t.findLocal name s exclude origin

/-- The first list that is not empty, of those that `f` gives along a list. -/
def firstNonempty {α β : Type} (f : α → List β) : List α → List β
  | [] => []
  | a :: rest =>
    match f a with
    | [] => firstNonempty f rest
    | found => found

/-- The items that `name` means in `s`: those of the nearest scope that offers any. -/
def findAll (t : SymbolTable) (name : String) (s : ScopeId) (exclude : List EntityKind)
    (origin : Option ScopeId) : List ItemId :=
  firstNonempty (t.findAt name exclude origin) (t.chain s)

end SymbolTable

end SemanticAnalysis
