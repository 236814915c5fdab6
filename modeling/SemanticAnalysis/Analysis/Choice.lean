import SemanticAnalysis.Analysis.Effect

/-!
# Choosing functions

Calls, constructions and overloaded operators all choose one of several functions for some
arguments. The choice is then applied: overloaded arguments are narrowed, user casts are recorded on
the arguments that need one, and the errors of the chosen function come to light at the call.
-/

namespace SemanticAnalysis.Analysis

variable (an : Analyst)

/-! ## Arguments -/

/-- The options of a name that still stands for several functions. Templates are none. -/
def overloadOptions (table : SymbolTable) (d : NameDetail) : Option (List ArgumentOption) :=
  if d.target.isNone && d.meaning.isValue && 1 < d.candidates.length then
    some <| (d.candidates.filter fun c => !table.isGeneric c).filterMap fun c =>
      (table.function? c).map fun f => ⟨f.ty, some c⟩
  else none

/-- Analyse the arguments of a call. -/
def detailArguments (frame : Frame) (arguments : List (Argument Expr)) (scope : ScopeId) :
    Analysis (List CallArgument) :=
  arguments.mapM fun a => do
    let info ← an.expr frame a.value scope
    let d := (← detail? frame a.value.node).bind (·.name?)
    let options ← look fun t => d.bind (overloadOptions t)
    return { name := a.name.map (·.name), options := options.getD [{ ty := info.ty }] }

/-! ## Choice and its consequences -/

/-- Choose the candidate that takes the arguments best. -/
def chooseCandidate (name : String) (arguments : List CallArgument) (candidates : List Candidate)
    (position : Position) : Analysis Resolution := do
  let s ← get
  match resolveCall s.table s.options arguments candidates with
  | .ok resolution => return resolution
  | .error .noMatch => throw (noMatchingCall s.table name arguments candidates position)
  | .error (.ambiguous tied) =>
    throw (ambiguousCall s.table name arguments candidates tied position)

/-- Narrow one argument and record the cast it needs. -/
def settleArgument (frame : Frame) (resolution : Resolution) (signature : Signature Ty)
    (value : Expr) (index : Nat) : Analysis Unit := do
  if let some (some item) := resolution.narrowed[index]? then
    if let some f ← look (·.function? item) then narrow frame value.node item f.ty
  if let some (some function) := resolution.casts[index]? then
    let parameter := (resolution.argumentMap[index]?).bind (signature.params[·]?)
    if let some p := parameter then castImplicitly frame value.node ⟨function, p.ty⟩

/-- Narrow the arguments of a call and record the casts they need. -/
def settleArguments (frame : Frame) (arguments : List (Argument Expr)) (resolution : Resolution)
    (signature : Signature Ty) : Analysis Unit :=
  arguments.zipIdx.forM fun (a, index) => settleArgument frame resolution signature a.value index

/-- The signature of the candidate a resolution chose. -/
def chosenSignature (resolution : Resolution) (candidates : List Candidate) :
    Analysis (Signature Ty) := do
  let c ← expect "resolved call without a candidate" candidates[resolution.candidate]?
  return c.signature

/-! ## Constructors -/

/-- The constructors of a class as candidates. -/
def constructorCandidates (table : SymbolTable) (cls : ItemId) : List Candidate :=
  (((table.class? cls).map (·.constructors)).getD []).filterMap (Candidate.ofFunction? table)

/-- The constructor of a class for some arguments. A class without constructors takes none. -/
def chooseConstructor (frame : Frame) (cls : ItemId) (arguments : List CallArgument)
    (written : List (Argument Expr)) (scope : ScopeId) (position : Position) :
    Analysis (Option ItemId × Option Resolution) := do
  an.ask (.synthesis cls)
  let name ← itemName cls
  match ← look (constructorCandidates · cls) with
  | [] =>
    if arguments.isEmpty then return (none, none)
    throw (noMatchingCall (← look id) name arguments [] position)
  | candidates =>
    let resolution ← chooseCandidate name arguments candidates position
    settleArguments frame written resolution (← chosenSignature resolution candidates)
    if let some function := resolution.item then linkThrows function scope
    return (resolution.item, some resolution)

/-! ## Operators -/

/-- The function a class offers for an operator. -/
structure OperatorChoice where
  function : ItemId
  resolution : Resolution
  signature : Signature Ty

/-- The function of a class for an operator, if it has one that takes the other operands. -/
def chooseOperator? (cls : ItemId) (operator : Operator) (side : Side)
    (arguments : List CallArgument) (scope : ScopeId) (position : Position) :
    Analysis (Option OperatorChoice) := do
  an.ask (.signatures cls)
  let s ← get
  match resolveOperatorCall s.table s.options cls operator side arguments with
  | .error .noMatch => return none
  | .error (.ambiguous tied) =>
    throw (ambiguousCall s.table ("operator" ++ operator.symbol) arguments
      (operatorCandidates s.table cls operator side) tied position)
  | .ok resolution =>
    match resolution.item.bind fun i => (s.table.function? i).map (i, ·) with
    | none => return none
    | some (function, f) =>
      linkThrows function scope
      return some ⟨function, resolution, f.signature⟩

/-- Record the cast that an operator needs on its other operand. -/
def castOperand (frame : Frame) (operand : Expr) (choice : OperatorChoice) : Analysis Unit := do
  if let (some (some function), some p) :=
      (choice.resolution.casts.head?, choice.signature.params.head?) then
    castImplicitly frame operand.node ⟨function, p.ty⟩

end SemanticAnalysis.Analysis
