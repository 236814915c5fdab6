/-!
# Options

The settings of one analysis.
-/

namespace SemanticAnalysis

/-- What to do when no candidate of a call is better than all others. -/
inductive AmbiguityPolicy where
  | reject
  /-- Take the first declared of the candidates that no other beats. -/
  | firstDeclared
deriving DecidableEq, Repr, Inhabited

/-- Settings of an analysis. -/
structure Options where
  /-- How deep the search for a conversion may go through wrappers and casts. -/
  conversionDepth : Nat := 16
  ambiguity : AmbiguityPolicy := .reject
  /-- Go on with independent statements after an error. -/
  collectErrors : Bool := false
  /-- Give classes a copy constructor when they have none. -/
  copyConstructors : Bool := true
  /-- How deep the parts of an analysis may call for each other. -/
  nesting : Nat := 10000
deriving DecidableEq, Repr, Inhabited

end SemanticAnalysis
