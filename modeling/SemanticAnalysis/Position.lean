/-!
# Source positions

A `Position` is a place in a source file: line, column, offset and file number. Line 0, column 0
marks a place that no source text has. `Position.earlier` picks the first of two places of one file.
-/

namespace SemanticAnalysis

/-- The number of a source file. -/
structure FileId where
  index : Nat := 0
deriving DecidableEq, Repr, Inhabited

/-- The text of a file number. -/
def FileId.text (f : FileId) : String := s!"file_{f.index}"

/-- A place in a source file. -/
structure Position where
  line : Nat := 0
  column : Nat := 0
  offset : Nat := 0
  file : FileId := {}
deriving DecidableEq, Repr, Inhabited

namespace Position

/-- A position is written as line and column. -/
def text (p : Position) : String := s!"{p.line}:{p.column}"

/-- No source text stands at line 0, column 0. -/
def isSynthetic (p : Position) : Bool := p.line == 0 && p.column == 0

/-- Line and column of `p` come strictly before those of `q`. -/
def before (p q : Position) : Bool :=
  p.line < q.line || (p.line == q.line && p.column < q.column)

/-- The earlier of two positions; `p` when they are level or in different files. -/
def earlier (p q : Position) : Position :=
  if p.file == q.file && q.before p then q else p

end Position

end SemanticAnalysis
