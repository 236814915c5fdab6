import SemanticAnalysis.Analysis.Program
import SemanticAnalysis.Validation

/-!
# Sessions

A session analyses one program: a root module and everything it imports. What came of it can then be
validated.
-/

namespace SemanticAnalysis

/-- The settings of a session. -/
structure Session where
  options : Options := {}
  attributes : AttributeTable := {}
  library : Option Resolver := none
  /-- The package of a root that is given as a tree. -/
  package : String := ""

/-- What came of a session: the root module, or why there is none, and all that is known. -/
structure Outcome where
  root : Except Failure ModuleId
  state : State

namespace Outcome

/-- Every analysed module, dependencies before their dependents. -/
def modules (o : Outcome) : List ModuleId := o.state.roots.map (·.module)

/-- The frame of the tree of a module. -/
def frameOf? (o : Outcome) (m : ModuleId) : Option FrameId :=
  (o.state.roots.find? (·.module == m)).map (·.frame)

/-- Nothing went wrong on the way. -/
def isClean (o : Outcome) : Bool := o.state.errors.isEmpty

/-- Check every module; the first broken rule is the answer. -/
def validate (o : Outcome) : Validation.Check :=
  o.state.roots.forM (Validation.checkRoot o.state.findings)

end Outcome

namespace Session

/-- The name of a root that is given as a tree. -/
def rootName : String := "main"

/-- The path of a root that is given as a tree. -/
def rootPath : Path := ⟨"main.tsr"⟩

/-- The state that a session starts with. -/
def start (s : Session) : State :=
  { options := s.options, attributes := s.attributes, library := s.library }

/-- Carry out an analysis from the start. -/
def run (s : Session) (step : Analysis ModuleId) : Outcome :=
  match step.run s.start with
  | .ok root state => ⟨.ok root, state⟩
  | .error e state => ⟨.error (.analysis e), state⟩

/-- Analyse the module at a path of the library, with its imports. -/
def analyse (s : Session) (path : Path) : Outcome := s.run (Analysis.analysePath path)

/-- Analyse a tree as the root module. -/
def analyseTree (s : Session) (root : Root) : Outcome :=
  s.run (Analysis.analyseRoot root rootName rootPath s.package)

/-- Analyse the module at a path and validate it. Collected errors count as failures. -/
def check (s : Session) (path : Path) : Outcome :=
  let o := s.analyse path
  match o.root, o.state.errors with
  | .error _, _ => o
  | .ok _, e :: _ => { o with root := .error (.analysis e) }
  | .ok _, [] =>
    match o.validate with
    | .ok () => o
    | .error v => { o with root := .error (.validation v) }

end Session

end SemanticAnalysis
