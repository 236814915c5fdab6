import SemanticAnalysis.Analysis.Naming

/-!
# Imports and exports

The exports scope of a module holds aliases of what it exports. An import binds aliases of the same
items in the importing scope: the selected ones, all under a namespace, or all.
-/

namespace SemanticAnalysis.Analysis

variable (an : Analyst)

/-- Stop because there is nowhere to load modules from. -/
def noLibrary {α : Type} (request : String) (position : Position) : Analysis α :=
  fail position (.moduleNotFound request "no module resolver configured")

/-! ## Modules -/

/-- The path that a request made in a module means. -/
def resolveRequest (request : String) (module : ModuleId) (position : Position) :
    Analysis Path := do
  match (← get).library with
  | none => noLibrary request position
  | some library =>
    let origin := ((← look (·.module? module)).map (·.path)).getD ""
    match library.resolve request ⟨origin⟩ with
    | .ok path => return path
    | .error fault => throw (fault.placed request position)

/-- Mark a path as being loaded; gives its module when it was loaded before. -/
def beginLoad (path : Path) (position : Position) : Analysis (Option ModuleId) := do
  let s ← get
  match s.loads.begin path position with
  | .error e => throw e
  | .ok (known, loads) =>
    set { s with loads }
    return known

/-- Analyse a module tree in an existing module, in a frame of its own. -/
def detailModule (root : Root) (module : ModuleId) : Analysis FrameId := do
  let frame ← openFrame module
  modify fun s => { s with moduleStack := module :: s.moduleStack }
  let m ← expect "module missing" (← look (·.module? module))
  let passes := [Pass.types, .aliases false, .signatures, .aliases true, .bodies]
  let body := do
    passes.forM fun p => an.ask (.pass p frame root.statements m.scope)
    an.ask .pending
  andFinally body (modify fun s => { s with moduleStack := s.moduleStack.drop 1 })
  let rootItems ← look fun t => (t.scope? m.scope).elim 0 (·.items.length)
  change (·.modifyModule module fun m => { m with rootItems })
  modify fun s => { s with roots := s.roots ++ [⟨module, frame.id, root⟩] }
  return frame.id

/-- Make a module and analyse its tree. The path counts as loaded only if that succeeds. -/
def loadTree (root : Root) (name : String) (path : Path) (package : String) :
    Analysis ModuleId := do
  let module ← make (·.newModule name path.spelling package)
  let step := do
    discard <| detailModule an root module
    modify fun s => { s with loads := s.loads.finish path module }
  tryCatch step fun e => do
    modify fun s => { s with loads := s.loads.abandon path }
    throw e
  return module

/-- Analyse a tree as the module at a path, unless that path is loaded. -/
def detailRoot (root : Root) (name : String) (path : Path) (package : String) :
    Analysis ModuleId := do
  match ← beginLoad path root.position with
  | some module => return module
  | none => loadTree an root name path package

/-- The module at a path of the library, loaded when it is first asked for. -/
def loadModule (path : Path) (request : String) (position : Position) : Analysis ModuleId := do
  if let some module ← beginLoad path position then return module
  let abandon : Analysis Unit := modify fun s => { s with loads := s.loads.abandon path }
  match (← get).library with
  | none =>
    abandon
    noLibrary request position
  | some library =>
    match library.parse path with
    | .error fault =>
      abandon
      throw (fault.placed request position)
    | .ok m => loadTree an m.root m.name path m.package

/-- The module that a request means, as a dependency of the module that makes it. -/
def openDependency (frame : Frame) (request : String) (position : Position) : Analysis Module := do
  let path ← resolveRequest request frame.module position
  let id ← an.ask (.module path request position)
  change (·.modifyModule frame.module (·.addDependency id))
  change (·.modifyModule id (·.addDependent frame.module))
  expect "module missing" (← look (·.module? id))

/-! ## Binding exported items -/

/-- Bind selected items of an exports scope. -/
def bindSelected (module : ModuleId) (items : List ImportItem) (exports scope : ScopeId)
    (visibility : Visibility) : Analysis (List ItemId) := do
  let bound ← items.mapM fun item => do
    match ← look (·.findLocal item.name.name exports [] none) with
    | [] => fail item.name.position (.noTarget item.name.name)
    | targets =>
      targets.mapM fun target =>
        bindAlias module scope item.localName target visibility item.name.position
  return bound.flatten

/-- The names of an exports scope with the items they lead to. -/
def exportedItems (table : SymbolTable) (exports : ScopeId) : List (String × ItemId) :=
  ((table.scope? exports).elim [] (·.items)).filterMap fun i =>
    match table.resolveAlias i with
    | .ok target => some (table.itemName i, target)
    | .error _ => none

/-- Bind all items of an exports scope. -/
def bindAll (module : ModuleId) (exports scope : ScopeId) (visibility : Visibility)
    (position : Position) : Analysis (List ItemId) := do
  (← look (exportedItems · exports)).mapM fun (name, target) =>
    bindAlias module scope name target visibility position

/-- Bind all items of an exports scope under a new namespace. -/
def bindSpace (module : ModuleId) (ident : Ident) (exports scope : ScopeId)
    (position : Position) : Analysis ItemId := do
  let own ← newScope scope
  checkRedeclaration ident.name scope ident.position
  let item ← addItem
    { name := ident.name
      scope
      module
      visibility := .scopeOnly
      position := ident.position
      entity := .space own }
  setOwner own (.space item)
  discard <| bindAll module exports own .everyone position
  return item

/-! ## Statements -/

/-- An import. -/
def detailImport (frame : Frame) (node : Node) (decl : ImportDecl) (scope : ScopeId) :
    Analysis Unit := do
  let source ← openDependency an frame decl.request node.position
  let bound ←
    match decl.items, decl.space with
    | some items, _ => bindSelected frame.module items source.exports scope .scopeOnly
    | none, some ident =>
      List.singleton <$> bindSpace frame.module ident source.exports scope node.position
    | none, none => bindAll frame.module source.exports scope .scopeOnly node.position
  record frame node (.importing source.id bound)

/-- Export own items under their local names. -/
def exportOwn (frame : Frame) (items : List ImportItem) (scope : ScopeId) :
    Analysis (List ItemId) := do
  let bound ← items.mapM fun item => do
    match ← look (·.findLocal item.name.name scope [] (some scope)) with
    | [] => missingName item.name.name scope [] item.name.position
    | targets =>
      targets.mapM fun target =>
        exportItem frame.module item.localName target item.name.position
  return bound.flatten

/-- An export of own items or of items of another module. -/
def detailExport (frame : Frame) (node : Node) (decl : ExportDecl) (scope : ScopeId) :
    Analysis Unit := do
  let own ← expect "module missing" (← look (·.module? frame.module))
  if own.scope != scope then misplaced "export" "at module level" node.position
  let aliases ←
    match decl.source with
    | none => exportOwn frame decl.items scope
    | some request =>
      let source ← openDependency an frame request node.position
      if decl.wildcard then
        bindAll frame.module source.exports own.exports .everyone node.position
      else bindSelected frame.module decl.items source.exports own.exports .everyone
  record frame node (.exporting aliases)

end SemanticAnalysis.Analysis
