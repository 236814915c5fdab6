import SemanticAnalysis.Analysis.State
import SemanticAnalysis.NativeOperation

/-!
# Validation

Structural rules of an analysed tree, checked on the tree and its details: every node has a detail, a
function with a result leaves by `return` or `throw` on every path, conditions are truth values,
assignments write fitting values to places, and some statements stand only where they make sense. A
generic declaration is checked once per instance. Nothing is changed, and the first broken rule is the
answer.
-/

namespace SemanticAnalysis

/-! ## Paths -/

mutual

/-- Control never comes out at the end of the statement. -/
def Stmt.exits : Stmt → Bool
  | .ret .. | .raise .. => true
  | .block b => blockExits b
  | .ifElse _ _ yes no => optionExits no && yes.exits
  | .loop _ _ body tail => tail && body.exits
  | .tryCatch _ body catches => blockExits body && allExit catches
  | _ => false

/-- Some statement of a row lets nothing through. -/
def Stmt.anyExits : List Stmt → Bool
  | [] => false
  | s :: rest => s.exits || anyExits rest

def Stmt.blockExits : Block Stmt → Bool
  | ⟨_, statements⟩ => anyExits statements

def Stmt.optionExits : Option Stmt → Bool
  | none => false
  | some s => s.exits

/-- Every clause lets nothing through. -/
def Stmt.allExit : List (CatchClause Stmt) → Bool
  | [] => true
  | c :: rest => clauseExits c && allExit rest

def Stmt.clauseExits : CatchClause Stmt → Bool
  | ⟨_, _, _, body⟩ => blockExits body

end

namespace Validation

/-! ## What is looked at -/

/-- What an analysis found, as far as validation looks at it. -/
structure Findings where
  table : SymbolTable
  details : DetailTable
  instanceFrames : List (NodeId × List FrameId)

/-- Where validation is: the frame of the details, the declarations around, and whether a loop of the
same function is around. -/
structure Site where
  frame : FrameId
  context : List String := []
  inLoop : Bool := false

/-- A check passes or stops at a broken rule. -/
abbrev Check := Except Violation Unit

/-- The site inside a declaration. -/
def Site.inside (site : Site) (label : String) : Site :=
  { site with context := site.context ++ [label] }

/-- A broken rule at a site. -/
def broken {α : Type} (site : Site) (rule : Rule) (position : Position) (detail : String) :
    Except Violation α :=
  throw ⟨rule, position, detail, site.context⟩

namespace Findings

variable (f : Findings)

/-- The detail of a node, which must have one. -/
def detail (site : Site) (node : Node) (what : String) : Except Violation Detail :=
  match f.details.get? ⟨site.frame, node.id⟩ with
  | some d => return d
  | none => broken site .missingNode node.position (what ++ " was not detailed")

/-- The detail of a function declaration. -/
def functionDetail (site : Site) (node : Node) : Except Violation FunctionDetail := do
  match (← f.detail site node "function").function? with
  | some d => return d
  | none => broken site .missingNode node.position "function has no function handle"

/-- The detail of a class declaration. -/
def classDetail (site : Site) (node : Node) : Except Violation ClassDetail := do
  match (← f.detail site node "class").class? with
  | some d => return d
  | none => broken site .missingNode node.position "class has no class handle"

/-- The sites at which a declaration is checked: those of its instances when it is a template. -/
def sites (site : Site) (node : Node) (isTemplate : Bool) : List Site :=
  if isTemplate then
    ((f.instanceFrames.lookup node.id).getD []).map fun frame => { site with frame }
  else [site]

/-- A condition has to be a truth value. -/
def checkTruth (site : Site) (condition : Expr) : Check :=
  match f.details.info? ⟨site.frame, condition.node.id⟩ with
  | none => broken site .missingNode condition.node.position "condition has no type"
  | some info =>
    if info.effectiveType.isTruthy then return
    else
      broken site .conditionNotBool condition.node.position
        ("condition of type " ++ Cause.quoted (f.table.typeText info.effectiveType) ++
          " is not convertible to 'bool'")

/-- The expression names a place that may be changed. -/
def isAssignable (site : Site) (target : Expr) : Bool :=
  (f.details.info? ⟨site.frame, target.node.id⟩).any fun info =>
    info.isLvalue && !info.ty.isConstantValue

/-- An assignment writes a fitting value to a place or through a setter. -/
def checkAssignment (site : Site) (node : Node) (target value : Expr) (d : Detail) : Check :=
  match d with
  | .assign a => do
    if a.setter.isNone && !f.isAssignable site target then
      broken site .notAssignable target.node.position "assignment target is not a mutable lvalue"
    if !a.compatible then
      broken site .typeMismatch value.node.position
        ("cannot assign " ++ Cause.quoted (f.table.typeText a.valueType) ++ " to " ++
          Cause.quoted (f.table.typeText a.info.ty))
  | _ => broken site .missingNode node.position "assignment has no handle"

/-- Only a pointer can be deleted for good. -/
def checkDelete (site : Site) (node : Node) (persistent : Bool) (d : Detail) : Check :=
  match d with
  | .delete ty _ =>
    if persistent && !ty.withoutOuterReferences.isPointer then
      broken site .persistentDelete node.position
        ("'delete persistent' needs a pointer, found " ++ Cause.quoted (f.table.typeText ty))
    else return
  | _ => return

/-- Calls of the function give a value to their caller. -/
def givesValue (item : ItemId) (role : Role) : Bool :=
  ((f.table.function? item).any fun fn =>
    !fn.returnType.isVoid && !fn.flags.construct && !fn.flags.generator) &&
    !(role matches .construct | .destruct)

/-- Calls of the lambda give a value to their caller. -/
def lambdaGivesValue (item : ItemId) : Bool :=
  (f.table.function? item).any fun fn => !fn.returnType.isVoid

end Findings

/-- The function of a lambda. -/
def lambdaFunction (site : Site) (node : Node) (d : Detail) : Except Violation ItemId :=
  match d with
  | .lambda _ function => return function
  | _ => broken site .missingNode node.position "lambda has no handle"

/-- A variadic parameter is the last one. -/
def checkVariadic (site : Site) (params : List (Param Expr)) : Check :=
  match params.dropLast.find? (·.variadic) with
  | none => return
  | some p =>
    broken site .variadicPosition p.node.position
      ("variadic parameter " ++ Cause.quoted p.name.name ++ " must be last")

/-- Jumps out of a loop stand in one. -/
def checkJump (site : Site) (node : Node) (what : String) : Check :=
  if site.inLoop then return
  else broken site .outsideLoop node.position (Cause.quoted what ++ " outside a loop")

/-- A body that gives a value leaves by `return` or `throw`. -/
def checkExits (site : Site) (position : Position) (needed exits : Bool) (what : String) : Check :=
  if needed && !exits then
    broken site .missingReturn position ("not all paths of " ++ what ++ " return a value")
  else return

/-! ## The walk -/

section

variable (f : Findings)

mutual

/-- Check a statement. -/
def stmt (site : Site) : Stmt → Check
  | .function d => function site d
  | .cls d => cls site d
  | .block b => block site b
  | .expr node e => do
    discard <| f.detail site node "expression statement"
    expr site e
  | .declare d => declare site d
  | .ret node value => do
    discard <| f.detail site node "return"
    optionalExpr site value
  | .ifElse node c yes no => do
    discard <| f.detail site node "if"
    expr site c
    f.checkTruth site c
    stmt site yes
    optionalStmt site no
  | .loop node c body tail => do
    discard <| f.detail site node (if tail then "do-while" else "while")
    expr site c
    f.checkTruth site c
    stmt { site with inLoop := true } body
  | .forLoop node init c update body => do
    discard <| f.detail site node "for"
    optionalStmt site init
    optionalCondition site c
    optionalExpr site update
    stmt { site with inLoop := true } body
  | .forEach node _ _ iterable body => do
    discard <| f.detail site node "ranged for"
    expr site iterable
    stmt { site with inLoop := true } body
  | .leave node => do
    discard <| f.detail site node "break"
    checkJump site node "break"
  | .next node => do
    discard <| f.detail site node "continue"
    checkJump site node "continue"
  | .raise node value => do
    discard <| f.detail site node "throw"
    expr site value
  | .tryCatch node body catches => do
    discard <| f.detail site node "try"
    if catches.isEmpty then
      broken site .emptyTryCatch node.position "try block has no catch clause"
    block site body
    clauses site catches
  | .delete node value persistent => do
    let d ← f.detail site node "delete"
    expr site value
    f.checkDelete site node persistent d
  | .space node name _ body => do
    discard <| f.detail site node "namespace"
    stmts (site.inside ("namespace " ++ name.name)) body
  | .importing node _ => discard <| f.detail site node "import"
  | .exporting node _ => discard <| f.detail site node "export"
  | .aliasing node _ => discard <| f.detail site node "using"

def stmts (site : Site) : List Stmt → Check
  | [] => return
  | s :: rest => do
    stmt site s
    stmts site rest

def optionalStmt (site : Site) : Option Stmt → Check
  | none => return
  | some s => stmt site s

def block (site : Site) : Block Stmt → Check
  | ⟨node, statements⟩ => do
    discard <| f.detail site node "block"
    stmts site statements

def optionalBlock (site : Site) : Option (Block Stmt) → Check
  | none => return
  | some b => block site b

def clauses (site : Site) : List (CatchClause Stmt) → Check
  | [] => return
  | c :: rest => do
    clause site c
    clauses site rest

def clause (site : Site) : CatchClause Stmt → Check
  | ⟨_, _, _, body⟩ => block site body

def declare (site : Site) : VariableDecl Expr → Check
  | ⟨node, _, _, initializer, _, _, _, _⟩ => do
    discard <| f.detail site node "variable declaration"
    optionalExpr site initializer

/-- Check a function at each of its sites. -/
def function (site : Site) : FunctionDecl Expr Stmt → Check
  | ⟨node, name, role, _, params, _, _, body, _, _, _⟩ => do
    let d ← f.functionDetail site node
    (f.sites site node d.isTemplate).forM fun site => do
      let item := (← f.functionDetail site node).function
      let inner := site.inside ("function " ++ name.name)
      checkVariadic inner params
      defaults inner params
      optionalBlock { inner with inLoop := false } body
      let exits := body.all Stmt.blockExits
      checkExits inner node.position (f.givesValue item role) exits (Cause.quoted name.name)

/-- Check the default values of parameters. -/
def defaults (site : Site) : List (Param Expr) → Check
  | [] => return
  | p :: rest => do
    defaultOf site p
    defaults site rest

def defaultOf (site : Site) : Param Expr → Check
  | ⟨_, _, _, value, _⟩ => optionalExpr site value

/-- Check a class at each of its sites. -/
def cls (site : Site) : ClassDecl Expr Stmt → Check
  | ⟨node, name, _, _, members', _, _, _, _⟩ => do
    let d ← f.classDetail site node
    (f.sites site node d.isTemplate).forM fun site => do
      discard <| f.classDetail site node
      members (site.inside ("class " ++ name.name)) members'

def members (site : Site) : List (Member Expr Stmt) → Check
  | [] => return
  | m :: rest => do
    member site m
    members site rest

def member (site : Site) : Member Expr Stmt → Check
  | .field d => field site d
  | .function d => function site d

def field (site : Site) : FieldDecl Expr → Check
  | ⟨node, _, _, initializer, _, _, _, _⟩ => do
    discard <| f.detail site node "field"
    optionalExpr site initializer

/-- Check an expression. -/
def expr (site : Site) : Expr → Check
  | .literal node _ => discard <| f.detail site node "literal"
  | .name node _ _ => discard <| f.detail site node "name"
  | .thisRef node => discard <| f.detail site node "this"
  | .superRef node => discard <| f.detail site node "super"
  | .sizeOfType node _ => discard <| f.detail site node "sizeof"
  | .member node object _ _ => do
    discard <| f.detail site node "member access"
    expr site object
  | .call node callee args => do
    discard <| f.detail site node "call"
    expr site callee
    arguments site args
  | .new node _ args _ => do
    discard <| f.detail site node "new"
    arguments site args
  | .binary node _ left right => do
    discard <| f.detail site node "binary expression"
    expr site left
    expr site right
  | .unary node _ operand => do
    discard <| f.detail site node "unary expression"
    expr site operand
  | .assign node _ target value => do
    let d ← f.detail site node "assignment"
    expr site target
    expr site value
    f.checkAssignment site node target value d
  | .conditional node c yes no => do
    discard <| f.detail site node "conditional"
    expr site c
    f.checkTruth site c
    expr site yes
    expr site no
  | .cast node value _ => do
    discard <| f.detail site node "cast"
    expr site value
  | .index node object i => do
    discard <| f.detail site node "index"
    expr site object
    expr site i
  | .lambda node params _ body => do
    let item ← lambdaFunction site node (← f.detail site node "lambda")
    let inner := site.inside "lambda"
    checkVariadic inner params
    block { inner with inLoop := false } body
    checkExits inner node.position (f.lambdaGivesValue item) (Stmt.blockExits body) "the lambda"
  | .await node value => do
    discard <| f.detail site node "await"
    expr site value
  | .yield node value => do
    discard <| f.detail site node "yield"
    optionalExpr site value

def optionalExpr (site : Site) : Option Expr → Check
  | none => return
  | some e => expr site e

def optionalCondition (site : Site) : Option Expr → Check
  | none => return
  | some c => do
    expr site c
    f.checkTruth site c

def arguments (site : Site) : List (Argument Expr) → Check
  | [] => return
  | a :: rest => do
    argument site a
    arguments site rest

def argument (site : Site) : Argument Expr → Check
  | ⟨_, value⟩ => expr site value

end

/-- Check an analysed module. -/
def checkRoot (root : AnalysedRoot) : Check :=
  stmts f { frame := root.frame } root.root.statements

end

end Validation

/-- What validation looks at. -/
def State.findings (s : State) : Validation.Findings := ⟨s.table, s.details, s.instanceFrames⟩

end SemanticAnalysis
