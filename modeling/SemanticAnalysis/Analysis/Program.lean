import SemanticAnalysis.Analysis.Call
import SemanticAnalysis.Analysis.Control
import SemanticAnalysis.Analysis.Operation
import SemanticAnalysis.Analysis.Value

/-!
# Programs

The statements of a module are analysed in passes: first what declares types, then aliases, then
signatures, then aliases again, then bodies. `analyst` answers demands by the parts of the analysis,
each of which asks in turn; how deep that may go is bounded by the options.
-/

namespace SemanticAnalysis

namespace Analysis

variable (an : Analyst)

/-! ## Expressions -/

/-- An expression. -/
def detailExpr (frame : Frame) (e : Expr) (scope : ScopeId) (access : Access) :
    Analysis ExprInfo :=
  match e with
  | .literal node value => detailLiteral frame node value
  | .name node ident typeArgs => detailName an frame node ident typeArgs scope access
  | .member node object ident typeArgs =>
    detailMember an frame node object ident typeArgs scope access
  | .call node callee args => detailCall an frame node callee args scope
  | .new node ty args persistent => detailNew an frame node ty args persistent scope
  | .binary node op left right => detailBinary an frame node op left right scope
  | .unary node op operand => detailUnary an frame node op operand scope
  | .assign node op target value => detailAssign an frame node op target value scope
  | .conditional node condition yes no => detailConditional an frame node condition yes no scope
  | .cast node value ty => detailCast an frame node value ty scope
  | .index node object index => detailIndex an frame node object index scope
  | .lambda node params returnType body => detailLambda an frame node params returnType body scope
  | .thisRef node => detailThis frame node scope
  | .superRef node => detailSuper frame node scope
  | .await node value => detailAwait an frame node value scope
  | .yield node value => detailYield an frame node value scope
  | .sizeOfType node ty => detailSizeOf an frame node ty scope

/-! ## Passes -/

/-- Run a step and keep its error, if errors are collected. -/
def attempt (step : Analysis Unit) : Analysis Unit := discard <| recover step

/-- Run a pass over the statements inside a namespace that was declared. -/
def passInside (p : Pass) (frame : Frame) (node : Node) (body : List Stmt) : Analysis Unit := do
  match ← spaceScope? frame node with
  | none => return
  | some inner => an.ask (.pass p frame body inner)

/-- Import what a statement imports. -/
def importPass (frame : Frame) (scope : ScopeId) : Stmt → Analysis Unit
  | .importing node decl => attempt (detailImport an frame node decl scope)
  | _ => return

/-- Declare the class or namespace of a statement. -/
def typePass (frame : Frame) (scope : ScopeId) : Stmt → Analysis Unit
  | .cls decl => attempt (discard <| declareClass frame decl scope)
  | .space node ident visibility body => do
    match ← recover (declareSpace frame node ident.name visibility scope) with
    | some inner => an.ask (.pass .types frame body inner)
    | none => return
  | _ => return

/-- Bind the alias of a statement, if it is not bound. -/
def aliasPass (last : Bool) (frame : Frame) (scope : ScopeId) : Stmt → Analysis Unit
  | .aliasing node decl => do
    if (← declared? frame node).isSome then return
    let bind := bindAliasDecl frame node decl scope
    if last then attempt bind else tryCatch bind giveUp
  | .space node _ _ body => passInside an (.aliases last) frame node body
  | _ => return

/-- Resolve the signatures that a statement declares. -/
def signaturePass (frame : Frame) (scope : ScopeId) : Stmt → Analysis Unit
  | .cls decl => do
    match ← declared? frame decl.node with
    | some cls => an.ask (.signatures cls)
    | none => return
  | .function decl => discard <| declareFunction an frame decl scope none
  | .declare decl => predeclareVariable an frame decl scope
  | .space node _ _ body => passInside an .signatures frame node body
  | _ => return

/-- Analyse the bodies of a statement. -/
def bodyPass (frame : Frame) (scope : ScopeId) (stmt : Stmt) : Analysis Unit := do
  match stmt with
  | .cls decl =>
    match ← declared? frame decl.node with
    | some cls => if (← classSource? cls).isSome then an.ask (.classBodies cls)
    | none => return
  | .function decl =>
    match ← declared? frame decl.node with
    | some function => an.ask (.functionBody frame decl function)
    | none => return
  | .space node _ _ body => passInside an .bodies frame node body
  | .importing .. | .aliasing .. => return
  | _ => an.stmt frame stmt scope

/-- One pass over the statements of a module or namespace. -/
def runPass (p : Pass) (frame : Frame) (statements : List Stmt) (scope : ScopeId) :
    Analysis Unit := do
  match p with
  | .types =>
    statements.forM (importPass an frame scope)
    statements.forM (typePass an frame scope)
  | .aliases last => statements.forM (aliasPass an last frame scope)
  | .signatures => statements.forM fun s => attempt (signaturePass an frame scope s)
  | .bodies => statements.forM fun s => attempt (bodyPass an frame scope s)

/-! ## Pending instances -/

/-- The next instance whose bodies are to be analysed: classes first, the last one made first. -/
def nextPending : Analysis (Option (ItemId ⊕ PendingFunction)) :=
  modifyGet fun s =>
    match s.pendingClasses, s.pendingFunctions with
    | c :: rest, _ => (some (.inl c), { s with pendingClasses := rest })
    | [], f :: rest => (some (.inr f), { s with pendingFunctions := rest })
    | [], [] => (none, s)

/-- Analyse the bodies of instances until none is left. -/
def drainPending : Analysis Unit := do
  match ← nextPending with
  | none => return
  | some (.inl cls) =>
    attempt (an.ask (.classBodies cls))
    an.ask .pending
  | some (.inr f) =>
    attempt (an.ask (.functionBody f.frame f.decl f.item))
    an.ask .pending

/-! ## Demands -/

/-- Answer a demand, asking the analyst for what that takes. -/
def answer {α : Type} : Demand α → Analysis α
  | .type frame t scope => resolveType an frame t scope
  | .expr frame e scope access => detailExpr an frame e scope access
  | .stmt frame s scope => detailStmt an frame s scope
  | .signatures cls => classSignatures an cls
  | .synthesis cls => synthesize an cls
  | .classBodies cls => detailClassBodies an cls
  | .functionBody frame decl item => detailFunctionBody an frame decl item
  | .pass p frame statements scope => runPass an p frame statements scope
  | .module path request position => loadModule an path request position
  | .pending => drainPending an

end Analysis

/-- The analyst that answers demands nested up to a depth. -/
def analyst : (depth : Nat) → Analyst
  | 0 => ⟨fun _ => throw ⟨.tooDeep, {}⟩⟩
  | depth + 1 => ⟨fun d => Analysis.answer (analyst depth) d⟩

namespace Analysis

/-- Run a step with the analyst that the options allow. -/
def withAnalyst {α : Type} (step : Analyst → Analysis α) : Analysis α := do
  step (analyst (← get).options.nesting)

/-! ## Entry points -/

/-- Analyse a tree as the module at a path; gives the module, an earlier one if the path is loaded. -/
def analyseRoot (root : Root) (name : String) (path : Path) (package : String) :
    Analysis ModuleId :=
  withAnalyst fun an => detailRoot an root name path package

/-- Analyse a tree as the body of an existing module. -/
def analyseModule (root : Root) (module : ModuleId) : Analysis FrameId :=
  withAnalyst fun an => detailModule an root module

/-- Load the module at a path of the library. -/
def analysePath (path : Path) : Analysis ModuleId :=
  withAnalyst fun an => loadModule an path path.spelling {}

/-- The instance of a generic class for some types. Its bodies wait for the next module. -/
def analyseClassInstance (template : ItemId) (arguments : List Ty) (position : Position) :
    Analysis ItemId :=
  withAnalyst fun an => instantiateClass an template arguments position

/-- The instance of a generic function for some types. Its body waits for the next module. -/
def analyseFunctionInstance (template : ItemId) (arguments : List Ty) (position : Position) :
    Analysis ItemId :=
  withAnalyst fun an => instantiateFunction an template arguments position

/-- Take the errors collected so far. -/
def takeErrors : Analysis (List Diagnostic) :=
  modifyGet fun s => (s.errors, { s with errors := [] })

end Analysis

end SemanticAnalysis
