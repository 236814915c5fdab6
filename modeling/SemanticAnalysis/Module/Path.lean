/-!
# Module paths

A path is text with parts between slashes. Two spellings are the same path when they have the same
components: repeated slashes, a trailing slash and dots inside the path do not count, a leading dot
does. `Path.normalize` folds dots and double dots without looking at any file.
-/

namespace SemanticAnalysis

/-- One component of a path. -/
inductive Component where
  /-- The slash at the front of an absolute path. -/
  | root
  /-- A dot at the front of a relative path. -/
  | here
  /-- A double dot. -/
  | up
  | name (s : String)
deriving DecidableEq, Repr, Inhabited

namespace Component

def text : Component → String
  | root => "/"
  | here => "."
  | up => ".."
  | name s => s

/-- A component below the root can be taken away again. -/
def isRoot : Component → Bool
  | root => true
  | _ => false

end Component

/-- A path, as it is spelled. -/
structure Path where
  spelling : String
deriving DecidableEq, Repr, Inhabited

namespace Path

/-- A part between slashes that is not at the front; empty parts and dots vanish. -/
def innerComponent (part : String) : Option Component :=
  if part == "" || part == "." then none
  else if part == ".." then some .up
  else some (.name part)

/-- The parts of the spelling between slashes. -/
def parts (p : Path) : List String := (p.spelling.toList.splitOn '/').map String.ofList

/-- The components of a path. -/
def components (p : Path) : List Component :=
  match p.parts with
  | [] => []
  | first :: rest =>
    let inner := rest.filterMap innerComponent
    if first == "" then
      if rest.isEmpty then [] else .root :: inner
    else if first == "." then .here :: inner
    else (innerComponent first).toList ++ inner

/-- The plainest spelling of some components. -/
def ofComponents : List Component → Path
  | .root :: rest => ⟨"/" ++ "/".intercalate (rest.map (·.text))⟩
  | cs => ⟨"/".intercalate (cs.map (·.text))⟩

/-- Same components, whatever the spelling. -/
def same (p q : Path) : Bool := p.components == q.components

/-- Without the last component; nothing for the empty path and the root. -/
def parentComponents (cs : List Component) : Option (List Component) :=
  match cs.getLast? with
  | none => none
  | some c => if c.isRoot then none else some cs.dropLast

/-- Add one component to a folded path: a double dot takes the last component away, and stays when
there is none to take. -/
def fold (folded : List Component) (c : Component) : List Component :=
  match c with
  | .here => folded
  | .up => (parentComponents folded).getD (folded ++ [.up])
  | .root => [.root]
  | .name _ => folded ++ [c]

/-- The path with dots and double dots folded. -/
def normalize (p : Path) : Path := ofComponents (p.components.foldl fold [])

/-- The components of the directory a path lies in. -/
def directory (p : Path) : List Component := (parentComponents p.components).getD []

/-- `request` as seen from a directory; an absolute one stands for itself. -/
def from_ (directory : List Component) (request : Path) : List Component :=
  match request.components with
  | .root :: rest => .root :: rest
  | cs => directory ++ cs

/-- The last component, if it is a name. -/
def fileName? (cs : List Component) : Option String :=
  match cs.getLast? with
  | some (.name s) => some s
  | _ => none

/-- A file name has an extension when a dot stands in it somewhere behind its first character. -/
def hasExtension (fileName : String) : Bool := (fileName.toList.drop 1).contains '.'

/-- Give a file name without extension the extension `ext`. -/
def withDefaultExtension (cs : List Component) (ext : String) : List Component :=
  match fileName? cs with
  | some name => if hasExtension name then cs else cs.dropLast ++ [.name (name ++ "." ++ ext)]
  | none => cs

end Path

end SemanticAnalysis
