import SemanticAnalysis.Position

/-!
# Diagnostics

What can go wrong, by phase: reading characters, reading sentences, the analysis, and validation.
Each error is a cause with its data; the wording of every message stands in this module.
-/

namespace SemanticAnalysis

/-- Why the analysis rejected a program. -/
inductive Cause where
  | noTarget (name : String)
  | notVisible (name : String)
  | noMatchingCall (name arguments candidates : String)
  | ambiguousCall (name arguments candidates : String)
  | typeMismatch (expected found : String)
  | invalidCast (source target : String)
  | noOperator (operator operands : String)
  | genericArity (name : String) (expected got : Nat)
  | cannotInfer (name parameter : String)
  | noDefaultConstructor (cls reason : String)
  | missingIterator (ty : String)
  | invalidContext (construct requirement : String)
  | duplicateDefinition (name : String)
  | bitfieldOverflow (cls underlying : String) (bits capacity : Nat)
  | circularImport (path : String)
  | moduleNotFound (request reason : String)
  | alreadyDetailed
  | attributeFailed (name message : String)
  | other (message : String)
  /-- The parts of the analysis called for each other too often. -/
  | tooDeep
  /-- The analysis found its own data inconsistent. -/
  | internal (message : String)
deriving DecidableEq, Repr, Inhabited

/-- An error of the analysis: a cause and the place it is reported at. -/
structure Diagnostic where
  cause : Cause
  position : Position
deriving DecidableEq, Repr, Inhabited

namespace Diagnostic

/-- An inconsistency has no place in the source. -/
def internal (message : String) : Diagnostic := ⟨.internal message, {}⟩

def other (position : Position) (message : String) : Diagnostic := ⟨.other message, position⟩

end Diagnostic

namespace Cause

/-- A name in single quotes. -/
def quoted (s : String) : String := "'" ++ s ++ "'"

/-- The wording of a cause, without its place. -/
def text : Cause → String
  | noTarget name => "no target found for " ++ quoted name
  | notVisible name => quoted name ++ " is not visible from here"
  | noMatchingCall name arguments candidates =>
    "no matching call to " ++ quoted name ++ " for arguments (" ++ arguments ++ ")\ncandidates:\n" ++
    candidates
  | ambiguousCall name arguments candidates =>
    "ambiguous call to " ++ quoted name ++ " for arguments (" ++ arguments ++ ")\ncandidates:\n" ++
    candidates
  | typeMismatch expected found => "expected " ++ quoted expected ++ ", found " ++ quoted found
  | invalidCast source target => "cannot cast " ++ quoted source ++ " to " ++ quoted target
  | noOperator operator operands => "no operator " ++ quoted operator ++ " for " ++ operands
  | genericArity name expected got =>
    quoted name ++ " expects " ++ toString expected ++ " type argument(s), got " ++ toString got
  | cannotInfer name parameter =>
    "cannot infer type argument " ++ quoted parameter ++ " of " ++ quoted name
  | noDefaultConstructor cls reason =>
    "class " ++ quoted cls ++ " has no default constructor: " ++ reason
  | missingIterator ty => quoted ty ++ " is not iterable: no 'next()' returning an optional"
  | invalidContext construct requirement => quoted construct ++ " is only valid " ++ requirement
  | duplicateDefinition name => "duplicate definition " ++ quoted name
  | bitfieldOverflow cls underlying bits capacity =>
    "bitfield " ++ quoted cls ++ " needs " ++ toString bits ++ " bits but " ++ quoted underlying ++
    " holds " ++ toString capacity
  | circularImport path => "circular import of " ++ quoted path
  | moduleNotFound request reason => "cannot resolve module " ++ quoted request ++ ": " ++ reason
  | alreadyDetailed => "node already detailed"
  | attributeFailed name message => "attribute " ++ quoted name ++ ": " ++ message
  | other message => message
  | tooDeep => "the analysis nests too deep"
  | internal message => message

end Cause

/-- An inconsistency says what it is; every other error starts with its place. -/
def Diagnostic.message (d : Diagnostic) : String :=
  match d.cause with
  | .internal message => "internal detailing error: " ++ message
  | cause => "at " ++ d.position.text ++ ": " ++ cause.text

/-! ## Validation -/

/-- The structural rules that validation checks. -/
inductive Rule where
  | missingNode
  | missingReturn
  | conditionNotBool
  | notAssignable
  | typeMismatch
  | emptyTryCatch
  | outsideLoop
  | persistentDelete
  | variadicPosition
deriving DecidableEq, Repr, Inhabited

/-- The words for a broken rule. -/
def Rule.text : Rule → String
  | missingNode => "missing node"
  | missingReturn => "missing return"
  | conditionNotBool => "non-boolean condition"
  | notAssignable => "not assignable"
  | typeMismatch => "type mismatch"
  | emptyTryCatch => "try without catch"
  | outsideLoop => "outside loop"
  | persistentDelete => "invalid persistent delete"
  | variadicPosition => "misplaced variadic parameter"

/-- A broken rule: where, what, and the declarations around it, outermost first. -/
structure Violation where
  rule : Rule
  position : Position
  detail : String
  context : List String := []
deriving DecidableEq, Repr, Inhabited

def Violation.message (v : Violation) : String :=
  v.rule.text ++ " at " ++ v.position.text ++ ": " ++ v.detail ++
  (if v.context.isEmpty then "" else " (in " ++ " > ".intercalate v.context ++ ")")

/-! ## Every phase -/

/-- Why a text is not a sequence of tokens. -/
inductive LexicalCause where
  | unexpectedChar (c : Char)
  | unterminatedString
  | invalidNumber (detail : String)
deriving DecidableEq, Repr, Inhabited

def LexicalCause.text : LexicalCause → String
  | unexpectedChar c => "unexpected character " ++ Cause.quoted (String.singleton c)
  | unterminatedString => "unterminated string"
  | invalidNumber detail => "invalid number: " ++ detail

/-- An error of any phase. -/
inductive Failure where
  | lexical (cause : LexicalCause) (position : Position)
  | grammar (message : String) (position : Position)
  | analysis (diagnostic : Diagnostic)
  | validation (violation : Violation)
deriving DecidableEq, Repr, Inhabited

namespace Failure

def position : Failure → Position
  | lexical _ p => p
  | grammar _ p => p
  | analysis d => d.position
  | validation v => v.position

def message : Failure → String
  | lexical cause p => "at " ++ p.text ++ ": " ++ cause.text
  | grammar message p => "at " ++ p.text ++ ": " ++ message
  | analysis d => d.message
  | validation v => v.message

def isAnalysis : Failure → Bool
  | analysis _ => true
  | _ => false

def isValidation : Failure → Bool
  | validation _ => true
  | _ => false

end Failure

end SemanticAnalysis
