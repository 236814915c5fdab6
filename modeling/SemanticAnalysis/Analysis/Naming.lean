import SemanticAnalysis.Analysis.State

/-!
# Names of items

Dotted paths, the errors for names that mean nothing, and the aliases that imports and exports bind.
-/

namespace SemanticAnalysis.Analysis

/-- Stop because nothing visible has this name; says so when something hidden has it. -/
def missingName {α : Type} (name : String) (scope : ScopeId) (exclude : List EntityKind)
    (position : Position) : Analysis α := do
  let hidden ← look (·.findAll name scope exclude none)
  if hidden.isEmpty then fail position (.noTarget name) else fail position (.notVisible name)

/-- The members of a namespace or class under a name. -/
def membersOf (table : SymbolTable) (item : ItemId) (name : String) (exclude : List EntityKind)
    (origin : ScopeId) : List ItemId :=
  match table.item? item with
  | some i =>
    match i.entity with
    | .space s => table.findLocal name s exclude (some origin)
    | .cls _ => table.findInClass item name exclude (some origin)
    | _ => []
  | none => []

/-- Follow the rest of a path from an item; `walked` is the path so far. -/
def followPath (scope : ScopeId) (exclude : List EntityKind) (position : Position)
    (current : ItemId) (walked : List Ident) : List Ident → Analysis ItemId
  | [] => return current
  | segment :: rest => do
    match ← look (membersOf · current segment.name exclude scope) with
    | next :: _ => followPath scope exclude position next (walked ++ [segment]) rest
    | [] => fail position (.noTarget (pathText (walked ++ [segment])))

/-- The item that a dotted path means in a scope. -/
def resolvePath (path : List Ident) (scope : ScopeId) (exclude : List EntityKind)
    (position : Position) : Analysis ItemId := do
  match path with
  | [] => failOther position "empty name path"
  | first :: rest =>
    match ← look (·.findAll first.name scope exclude (some scope)) with
    | [] => missingName first.name scope exclude position
    | head :: _ => followPath scope exclude position head [first] rest

/-- A scope declares a name once, functions apart. -/
def checkRedeclaration (name : String) (scope : ScopeId) (position : Position) : Analysis Unit := do
  let existing ← look (·.findLocal name scope [] none)
  if !existing.isEmpty then fail position (.duplicateDefinition name)

/-- Bind a name in a scope to an item. Functions may share a name; nothing else may. -/
def bindAlias (module : ModuleId) (scope : ScopeId) (name : String) (target : ItemId)
    (visibility : Visibility) (position : Position) : Analysis ItemId := do
  let table ← look id
  let existing := table.findLocal name scope [] none
  if existing.contains target then return target
  if !existing.isEmpty && !(table.isFunction target && existing.all table.isFunction) then
    fail position (.duplicateDefinition name)
  addItem { name, scope, module, visibility, position, entity := .aliasOf target }

/-- Make an item visible to importers of its module. -/
def exportItem (module : ModuleId) (name : String) (target : ItemId) (position : Position) :
    Analysis ItemId := do
  let m ← expect "module missing" (← look (·.module? module))
  bindAlias module m.exports name target .everyone position

end SemanticAnalysis.Analysis
