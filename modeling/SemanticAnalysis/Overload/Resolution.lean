import SemanticAnalysis.Conversion
import SemanticAnalysis.Diagnostic
import SemanticAnalysis.Overload.Binding
import SemanticAnalysis.Overload.Ranking

/-!
# Overload resolution

`resolveCall` picks the candidate that takes the arguments of a call best. A candidate is viable when
its parameters can be bound and every argument converts to its parameter; viable candidates are
ranked by their scores. Operators of a class are resolved in the same way.
-/

namespace SemanticAnalysis

/-- The chosen candidate and how the call maps onto it. Lists run along the arguments, `bindings`
along the parameters. -/
structure Resolution where
  candidate : Nat
  item : Option ItemId
  argumentMap : List Nat
  bindings : List Binding
  scores : List Nat
  /-- The option each argument was narrowed to. -/
  narrowed : List (Option ItemId)
  /-- The user cast each argument goes through. -/
  casts : List (Option ItemId)
deriving DecidableEq, Repr, Inhabited

/-- The arguments bound to a parameter. -/
def Resolution.argumentsOf (r : Resolution) (parameter : Nat) : List Nat :=
  match r.bindings[parameter]? with
  | some b => b.arguments
  | none => []

/-- Why no candidate was chosen. -/
inductive CallFailure where
  | noMatch
  /-- The candidates that no other one beats. -/
  | ambiguous (tied : List Nat)
deriving DecidableEq, Repr, Inhabited

/-- How one argument fits its parameter. -/
structure Fit where
  score : Nat
  item : Option ItemId
  cast : Option ItemId
deriving DecidableEq, Repr, Inhabited

/-- The option of an argument that converts best, the first of those that score alike. -/
def bestOption (convert : Ty → Ty → Conversion) (dst : Ty) (options : List ArgumentOption) :
    Option Fit :=
  options.foldl (fun best option =>
    let c := convert option.ty dst
    let fit : Fit := ⟨c.score, option.item, c.via⟩
    match best with
    | none => if c.isPossible then some fit else none
    | some top => if top.score < c.score then some fit else best) none

/-- Fit every argument to the parameter it is bound to. -/
def fitArguments (convert : Ty → Ty → Conversion) (s : Signature Ty) (bindings : List Binding)
    (arguments : List CallArgument) : Option (List Fit) :=
  arguments.zipIdx.mapM fun (argument, index) =>
    (s.params[parameterOf bindings index]?).bind fun p => bestOption convert p.ty argument.options

/-- Bind and score one candidate. -/
def matchCandidate (convert : Ty → Ty → Conversion) (arguments : List CallArgument)
    (candidate : Candidate) (index : Nat) : Option Resolution :=
  (bindArguments candidate.signature arguments).bind fun bindings =>
    (fitArguments convert candidate.signature bindings arguments).map fun fits =>
      { candidate := index
        item := candidate.item
        argumentMap := (List.range arguments.length).map (parameterOf bindings)
        bindings
        scores := fits.map (·.score)
        narrowed := fits.map (·.item)
        casts := fits.map (·.cast) }

section

variable (table : SymbolTable) (options : Options)

/-- The candidates that can take the arguments, with how they do. -/
def viable (arguments : List CallArgument) (candidates : List Candidate) : List Resolution :=
  candidates.zipIdx.filterMap fun (c, index) =>
    matchCandidate (convert table options) arguments c index

/-- The standing of a viable candidate. -/
def standingOf (candidates : List Candidate) (r : Resolution) : Standing :=
  ⟨r.scores, (candidates[r.candidate]?).any (·.signature.isVariadic)⟩

/-- Choose the candidate that takes the arguments best. -/
def resolveCall (arguments : List CallArgument) (candidates : List Candidate) :
    Except CallFailure Resolution :=
  match viable table options arguments candidates with
  | [] => .error .noMatch
  | found =>
    match Standing.selectBest options.ambiguity (found.map (standingOf candidates)) with
    | .ok index =>
      match found[index]? with
      | some r => .ok r
      | none => .error .noMatch
    | .error tied =>
      .error (.ambiguous (tied.filterMap fun i => (found[i]?).map (·.candidate)))

/-! ## Operators -/

/-- The function of a class that implements an operator on a side, if item `i` is one. -/
def operatorCandidate? (operator : Operator) (side : Side) (i : ItemId) : Option Candidate :=
  (table.function? i).bind fun f =>
    if f.operator == some operator && (!operator.isBinary || f.side == side) then
      some ⟨some i, f.signature⟩
    else none

/-- The functions of a class and its ancestors that implement an operator, nearest first. One with
the same parameters as a nearer one is hidden by it. -/
def operatorCandidates (cls : ItemId) (operator : Operator) (side : Side) : List Candidate :=
  let declared := (table.withAncestors cls).flatMap fun owner =>
    ((table.class? owner).map (·.operators)).getD []
  (declared.filterMap (operatorCandidate? table operator side)).foldl (fun kept c =>
    if kept.any fun k => k.signature.params == c.signature.params then kept else kept ++ [c]) []

/-- Resolve an operator on a value of `cls`; `arguments` are the other operands. -/
def resolveOperatorCall (cls : ItemId) (operator : Operator) (side : Side)
    (arguments : List CallArgument) : Except CallFailure Resolution :=
  match operatorCandidates table cls operator side with
  | [] => .error .noMatch
  | candidates => resolveCall table options arguments candidates

end

/-! ## Reports -/

section

variable (table : SymbolTable)

/-- An argument as its possible types, behind its name if it has one. -/
def describeArgument (argument : CallArgument) : String :=
  let types := " | ".intercalate (argument.options.map fun o => table.typeText o.ty)
  match argument.name with
  | some name => name ++ ": " ++ types
  | none => types

def describeArguments (arguments : List CallArgument) : String :=
  ", ".intercalate (arguments.map (describeArgument table))

/-- One signature a line. -/
def describeCandidates (candidates : List Candidate) : String :=
  if candidates.isEmpty then "**none**"
  else "\n".intercalate (candidates.map fun c => table.signatureText c.signature)

/-- The error for a call that no candidate takes. -/
def noMatchingCall (name : String) (arguments : List CallArgument) (candidates : List Candidate)
    (position : Position) : Diagnostic :=
  ⟨.noMatchingCall name (describeArguments table arguments) (describeCandidates table candidates),
    position⟩

/-- The error for a call that several candidates take equally well. -/
def ambiguousCall (name : String) (arguments : List CallArgument) (candidates : List Candidate)
    (tied : List Nat) (position : Position) : Diagnostic :=
  let best := tied.filterMap fun i => candidates[i]?
  ⟨.ambiguousCall name (describeArguments table arguments) (describeCandidates table best), position⟩

end

end SemanticAnalysis
