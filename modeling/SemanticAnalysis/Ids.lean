/-!
# Identities

Items, scopes, modules and frames are numbered in the order in which they are made. A node of a
syntax tree is either written in the source or made by the analysis itself; the two never clash.
-/

namespace SemanticAnalysis

/-- The number of an item of the symbol table. -/
structure ItemId where
  index : Nat
deriving DecidableEq, Repr, Inhabited

/-- The number of a scope of the symbol table. -/
structure ScopeId where
  index : Nat
deriving DecidableEq, Repr, Inhabited

/-- The number of a module of the symbol table. -/
structure ModuleId where
  index : Nat
deriving DecidableEq, Repr, Inhabited

/-- The number of a frame: one module body or one generic instance under analysis. -/
structure FrameId where
  index : Nat
deriving DecidableEq, Repr, Inhabited

/-- The identity of a syntax tree node. -/
inductive NodeId where
  /-- A node of the source, by its number. -/
  | written (n : Nat)
  /-- A node the analysis made, by order of making. -/
  | synthetic (n : Nat)
deriving DecidableEq, Repr, Inhabited

def ItemId.text (i : ItemId) : String := s!"item_{i.index}"

def ScopeId.text (s : ScopeId) : String := s!"scope_{s.index}"

def ModuleId.text (m : ModuleId) : String := s!"module_{m.index}"

def FrameId.text (f : FrameId) : String := s!"frame_{f.index}"

end SemanticAnalysis
