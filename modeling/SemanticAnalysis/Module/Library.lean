import SemanticAnalysis.Diagnostic
import SemanticAnalysis.Module.Path
import SemanticAnalysis.Syntax.Tree

/-!
# Resolvers

An analysis asks a resolver for the modules that it imports: first for the path that a request means, then
for the module at that path. A library is a resolver over parsed modules, by normalised path. There a
request is looked up relative to the directory of the importing module and gets the source extension when
it has none.
-/

namespace SemanticAnalysis

/-- Why a request names no module. -/
inductive RequestFault where
  | notFound (path : String)
  | invalid (message : String)
deriving DecidableEq, Repr, Inhabited

namespace RequestFault

def text : RequestFault → String
  | notFound path => "no module at " ++ Cause.quoted path
  | invalid message => message

/-- The fault as an error at the place of the request. -/
def placed (f : RequestFault) (request : String) (position : Position) : Diagnostic :=
  ⟨.moduleNotFound request f.text, position⟩

end RequestFault

/-- A module tree with the names it goes by. -/
structure ParsedModule where
  root : Root
  name : String
  package : String

/-- Whoever finds the modules that are imported. A host is taken to answer in the same way throughout a session:
what it keeps to itself between two requests is not seen here. -/
structure Resolver where
  /-- The path that a request means which is made in the module at another path. -/
  resolve : (request : String) → (origin : Path) → Except RequestFault Path
  /-- The module at a path. -/
  parse : Path → Except RequestFault ParsedModule

/-- Parsed modules by normalised path. -/
structure Library where
  entries : List (Path × ParsedModule) := []

namespace Library

/-- The extension of source files. -/
def sourceExtension : String := "tsr"

/-- The entry under a path that is already normalised. -/
def lookup? (l : Library) (path : Path) : Option ParsedModule :=
  (l.entries.find? (·.1.same path)).map (·.2)

/-- Replace the entry under a path, or append one. -/
def put (path : Path) (m : ParsedModule) : List (Path × ParsedModule) → List (Path × ParsedModule)
  | [] => [(path, m)]
  | (p, old) :: rest => if p.same path then (p, m) :: rest else (p, old) :: put path m rest

/-- Add a module; a later one under the same path takes its place. -/
def add (l : Library) (path : Path) (m : ParsedModule) : Library :=
  ⟨put path.normalize m l.entries⟩

def contains (l : Library) (path : Path) : Bool := (l.lookup? path.normalize).isSome

def size (l : Library) : Nat := l.entries.length

/-- The path that `request`, written in the module at `origin`, stands for. -/
def target (request : String) (origin : Path) : Path :=
  let folded := (Path.from_ origin.directory ⟨request⟩).foldl Path.fold []
  .ofComponents (Path.withDefaultExtension folded sourceExtension)

/-- The path of a requested module that the library has. -/
def resolve (l : Library) (request : String) (origin : Path) : Except RequestFault Path :=
  if request.isEmpty then .error (.invalid "empty module request")
  else
    let path := target request origin
    if (l.lookup? path).isSome then .ok path else .error (.notFound path.spelling)

/-- The module at a path. -/
def parse (l : Library) (path : Path) : Except RequestFault ParsedModule :=
  match l.lookup? path.normalize with
  | some m => .ok m
  | none => .error (.notFound path.spelling)

/-- The library as a resolver. -/
def resolver (l : Library) : Resolver := ⟨l.resolve, l.parse⟩

end Library

end SemanticAnalysis
