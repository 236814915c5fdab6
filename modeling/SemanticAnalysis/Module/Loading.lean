import SemanticAnalysis.Diagnostic
import SemanticAnalysis.Digest
import SemanticAnalysis.Ids
import SemanticAnalysis.Module.Path

/-!
# Load states

Which modules are being loaded and which are done. Paths are put into buckets by a digest of their
spelling and compared by components inside a bucket. Asking for a module that is being loaded is a
circular import.
-/

namespace SemanticAnalysis

/-- How far a module is. -/
inductive LoadState where
  | loading
  | done (module : ModuleId)
deriving DecidableEq, Repr, Inhabited

/-- The load states of module paths. -/
structure LoadStates where
  buckets : List (UInt64 × List (Path × LoadState)) := []
deriving Inhabited

namespace LoadStates

/-- The bucket of a path. -/
def key (path : Path) : UInt64 := Digest.hash 0 path.spelling.toUTF8.toList

def bucket (s : LoadStates) (path : Path) : List (Path × LoadState) :=
  (s.buckets.lookup (key path)).getD []

def state? (s : LoadStates) (path : Path) : Option LoadState :=
  ((s.bucket path).find? (·.1.same path)).map (·.2)

/-- Replace the state of a path inside a bucket, or append it. -/
def put (path : Path) (state : LoadState) : List (Path × LoadState) → List (Path × LoadState)
  | [] => [(path, state)]
  | (p, old) :: rest => if p.same path then (p, state) :: rest else (p, old) :: put path state rest

/-- Change the bucket with a key; `make` says whether a missing one is made. -/
def update (k : UInt64) (make : Bool) (f : List (Path × LoadState) → List (Path × LoadState)) :
    List (UInt64 × List (Path × LoadState)) → List (UInt64 × List (Path × LoadState))
  | [] => if make then [(k, f [])] else []
  | (k', held) :: rest => if k' == k then (k', f held) :: rest else (k', held) :: update k make f rest

def set (s : LoadStates) (path : Path) (state : LoadState) : LoadStates :=
  ⟨update (key path) true (put path state) s.buckets⟩

/-- Claim a path for loading. Gives the module when it is done, nothing when the caller is to load
it now, and an error when it is being loaded. -/
def begin (s : LoadStates) (path : Path) (position : Position) :
    Except Diagnostic (Option ModuleId × LoadStates) :=
  match s.state? path with
  | some (.done m) => .ok (some m, s)
  | some .loading => .error ⟨.circularImport path.spelling, position⟩
  | none => .ok (none, s.set path .loading)

def finish (s : LoadStates) (path : Path) (module : ModuleId) : LoadStates :=
  s.set path (.done module)

/-- Forget a path whose loading failed. -/
def abandon (s : LoadStates) (path : Path) : LoadStates :=
  ⟨update (key path) false (·.filter fun e => !e.1.same path) s.buckets⟩

def size (s : LoadStates) : Nat := (s.buckets.flatMap (·.2)).length

end LoadStates

end SemanticAnalysis
