import SemanticAnalysis.Analysis.State

/-!
# Errors and captures

What an expression does besides having a value: it may let errors through to the scope around it, and
a lambda may refer to variables of the functions around it. Captured variables are copied into a
holder class of the lambda once the function around it is done.
-/

namespace SemanticAnalysis

/-- Note a variable on every lambda between its use and the function that owns it. -/
def SymbolTable.captureAlong (used owner : ItemId) (table : SymbolTable) :
    List ScopeId → SymbolTable
  | [] => table
  | s :: outer =>
    match table.functionOwner? s with
    | none => table.captureAlong used owner outer
    | some f =>
      if f == owner then table
      else
        match table.function? f with
        | some fn =>
          if fn.flags.lambda then
            SymbolTable.captureAlong used owner
              (table.modifyFunction f fun fn => { fn with referenced := insertNew fn.referenced used })
              outer
          else table
        | none => table

namespace Analysis

/-! ## Errors -/

/-- Record that a type may be thrown in a scope. -/
def raise (scope : ScopeId) (ty : Ty) : Analysis Unit :=
  modify fun s => { s with table := s.flow.raise scope ty s.table }

/-- Let the errors of a function come to light in a scope that runs it. -/
def linkThrows (callee : ItemId) (scope : ScopeId) : Analysis Unit :=
  modify fun s =>
    let (flow, table) := s.flow.link callee scope s.table
    { s with flow, table }

/-! ## Captures -/

/-- Note a use of a variable in a scope. -/
def noteCapture (item : ItemId) (scope : ScopeId) : Analysis Unit := do
  match (← look (·.var? item)).bind (·.owner) with
  | none => return
  | some owner => change fun t => t.captureAlong item owner (t.chain scope)

/-- The member of a capture holder for a captured variable. -/
def addCapturedMember (holderScope : ScopeId) (module : ModuleId) (position : Position)
    (item : ItemId) : Analysis (Option ItemId) := do
  match ← look (·.item? item), ← look (·.var? item) with
  | some entry, some v =>
    some <$> addItem
      { name := entry.name, scope := holderScope, module, position, entity := .var (.member v.ty) }
  | _, _ => return none

/-- Make the holder of some captured variables. -/
def makeCaptureHolder (lambda : ItemId) (entry : Item) (own : ScopeId) (captured : List ItemId) :
    Analysis Unit := do
  let holderScope ← newScope own
  let holder ← addItem
    { name := entry.name ++ "$captures"
      scope := own
      module := entry.module
      visibility := .scopeOnly
      position := entry.position
      entity := .cls { scope := holderScope, flags := { structural := true } } }
  setOwner holderScope (.cls holder)
  let members ← captured.filterMapM (addCapturedMember holderScope entry.module entry.position)
  change (·.modifyClass holder fun c => { c with members, isDetailed := true })
  change (·.modifyFunction lambda fun f => { f with captureHolder := some holder })
  change (·.modifyItem lambda fun i => { i with privateHoisted := i.privateHoisted ++ [holder] })
  change (·.modifyModule entry.module fun m => { m with hoisted := m.hoisted ++ [holder] })

/-- Copy the variables a lambda refers to into its capture holder, once. -/
def sealCaptures (lambda : ItemId) : Analysis Unit := do
  match ← look (·.item? lambda), ← look (·.function? lambda) with
  | some entry, some f =>
    if f.captureHolder.isSome then return
    change (·.modifyFunction lambda fun f => { f with copied := f.referenced })
    if f.referenced.isEmpty then return
    makeCaptureHolder lambda entry f.scope f.referenced
  | _, _ => return

/-! ## Deferred work -/

/-- Do work that has waited for a function. -/
def runDeferred : Deferred → Analysis Unit
  | .surfaceErrors callee site =>
    modify fun s => { s with table := s.flow.run [.surface callee site] s.table }
  | .sealCaptures lambda => sealCaptures lambda

/-- Mark a function as analysed and do the work that has waited for it. -/
def finishFunction (item : ItemId) : Analysis Unit := do
  match ← look (·.function? item) with
  | none => return
  | some f =>
    let (actions, done) := f.done.release
    change (·.modifyFunction item fun f => { f with isDetailed := true, done })
    actions.forM runDeferred

/-- Seal the captures of a lambda once the function around it is done; at once when there is none. -/
def sealWhenDone (lambda : ItemId) (scope : ScopeId) : Analysis Unit := do
  let table ← look id
  match (table.enclosingFunction? scope).bind fun f => (table.function? f).map (f, ·) with
  | none => sealCaptures lambda
  | some (outer, f) =>
    let (ready, done) := f.done.subscribe (.sealCaptures lambda)
    change (·.modifyFunction outer fun f => { f with done })
    ready.toList.forM runDeferred

end Analysis

end SemanticAnalysis
