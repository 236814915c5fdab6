import SemanticAnalysis.Entity
import SemanticAnalysis.Syntax.Literal

/-!
# Syntax trees

The trees of programs: written types, expressions, statements and declarations. Every node carries
its identity and its position. Records that hold expressions or statements take them as parameters,
so that `Expr` and `Stmt` can be defined together.
-/

namespace SemanticAnalysis

/-- Identity and place of a node. -/
structure Node where
  id : NodeId
  position : Position := {}
deriving DecidableEq, Repr, Inhabited

/-- A name with its place. -/
structure Ident where
  name : String
  position : Position := {}
deriving DecidableEq, Repr, Inhabited

/-- A dotted path as it is written. -/
def pathText (path : List Ident) : String := ".".intercalate (path.map (·.name))

/-! ## Types as written -/

/-- A parameter of a written function type. -/
structure TypeParam (τ : Type) where
  name : Option Ident
  ty : τ
  variadic : Bool := false
deriving Repr

/-- The forms of written types. -/
inductive TypeForm (τ : Type) where
  | native (n : Native)
  | any
  /-- The class around the type. -/
  | self
  | named (path : List Ident) (arguments : List τ)
  | function (params : List (TypeParam τ)) (result : τ)
  | union (members : List τ)
  | optional (inner : τ)
deriving Repr

/-- A written type: a form with the layers written around it, innermost first. -/
structure TypeExpr where
  form : TypeForm TypeExpr
  layers : List Modifier := []
  position : Position := {}
deriving Repr

instance : Inhabited TypeExpr := ⟨{ form := .any }⟩

namespace TypeExpr

/-- The name of a type that is written as one name and nothing else. -/
def simpleName? (t : TypeExpr) : Option String :=
  match t.form with
  | .named [ident] [] => some ident.name
  | _ => none

/-- Write one more layer around a type. -/
def pushLayer (t : TypeExpr) (m : Modifier) : TypeExpr := { t with layers := t.layers ++ [m] }

def pointer (t : TypeExpr) : TypeExpr := t.pushLayer { pointer := true }

def reference (t : TypeExpr) : TypeExpr := t.pushLayer { reference := true }

/-- Write `const` on the base of a type. -/
def const (t : TypeExpr) : TypeExpr :=
  match t.layers with
  | m :: rest =>
    if m.isIndirection then { t with layers := { constant := true } :: t.layers }
    else { t with layers := m.withConstant :: rest }
  | [] => { t with layers := [{ constant := true }] }

end TypeExpr

/-! ## Parts of expressions and statements -/

/-- An argument of a call. -/
structure Argument (ε : Type) where
  name : Option Ident := none
  value : ε
deriving Repr

/-- An argument of an attribute. -/
inductive AttributeArgument (ε : Type) where
  | expr (e : ε)
  | type (t : TypeExpr)
deriving Repr

/-- An attribute written on a declaration. -/
structure Attribute (ε : Type) where
  path : List Ident
  arguments : List (AttributeArgument ε) := []
  position : Position := {}
deriving Repr

/-- A parameter of a function. -/
structure Param (ε : Type) where
  node : Node
  name : Ident
  ty : TypeExpr
  defaultValue : Option ε := none
  variadic : Bool := false
deriving Repr

/-- Statements between braces. -/
structure Block (σ : Type) where
  node : Node
  statements : List σ
deriving Repr

/-- A variable declaration. -/
structure VariableDecl (ε : Type) where
  node : Node
  name : Ident
  ty : Option TypeExpr := none
  initializer : Option ε := none
  isConstant : Bool := false
  isExport : Bool := false
  visibility : Visibility := .everyone
  attributes : List (Attribute ε) := []
deriving Repr

/-- One clause of a `try`; without a type it catches everything. -/
structure CatchClause (σ : Type) where
  node : Node
  name : Option Ident
  ty : Option TypeExpr
  body : Block σ
deriving Repr

/-! ## Declarations -/

/-- The direction of a user cast, as seen from the class that declares it. -/
inductive CastDirection where
  /-- Makes a value of the class. -/
  | inward
  /-- Takes a value of the class to another type. -/
  | outward
deriving DecidableEq, Repr, Inhabited

/-- What a function is declared for. -/
inductive Role where
  | plain
  | construct
  | destruct
  | cast (direction : CastDirection)
  | operator (op : Operator) (side : Side)
  | accessor (kind : AccessorKind)
deriving DecidableEq, Repr, Inhabited

/-- The keywords written on a function. -/
structure FunctionKeywords where
  async : Bool := false
  generator : Bool := false
  dispatched : Bool := false
  external : Bool := false
  exported : Bool := false
deriving DecidableEq, Repr, Inhabited

/-- A function declaration. -/
structure FunctionDecl (ε σ : Type) where
  node : Node
  name : Ident
  role : Role := .plain
  generics : List Ident := []
  params : List (Param ε) := []
  returnType : Option TypeExpr := none
  /-- What a generator receives each time it goes on. -/
  generatorParameter : Option TypeExpr := none
  body : Option (Block σ) := none
  keywords : FunctionKeywords := {}
  visibility : Visibility := .everyone
  attributes : List (Attribute ε) := []
deriving Repr

/-- A field of a class. -/
structure FieldDecl (ε : Type) where
  node : Node
  name : Ident
  ty : Option TypeExpr := none
  initializer : Option ε := none
  /-- The width of a bitfield entry. -/
  bits : Option Nat := none
  isConstant : Bool := false
  visibility : Visibility := .everyone
  attributes : List (Attribute ε) := []
deriving Repr

/-- A member of a class. -/
inductive Member (ε σ : Type) where
  | field (f : FieldDecl ε)
  | function (f : FunctionDecl ε σ)
deriving Repr

def Member.node {ε σ : Type} : Member ε σ → Node
  | field f => f.node
  | function f => f.node

/-- A class declaration. -/
structure ClassDecl (ε σ : Type) where
  node : Node
  name : Ident
  generics : List Ident := []
  parents : List TypeExpr := []
  members : List (Member ε σ) := []
  flags : ClassFlags := {}
  /-- The type that the entries of a bitfield share. -/
  underlying : Option TypeExpr := none
  visibility : Visibility := .everyone
  attributes : List (Attribute ε) := []
deriving Repr

/-- A name in an import or export list, with the name it gets. -/
structure ImportItem where
  name : Ident
  rename : Option Ident := none
deriving DecidableEq, Repr, Inhabited

/-- The name an item is bound to. -/
def ImportItem.localName (i : ImportItem) : String := (i.rename.getD i.name).name

/-- An import: selected items, everything under one namespace, or everything. -/
structure ImportDecl where
  request : String
  items : Option (List ImportItem) := none
  space : Option Ident := none
deriving DecidableEq, Repr, Inhabited

/-- An export of own items, or of items of another module. -/
structure ExportDecl where
  items : List ImportItem := []
  source : Option String := none
  wildcard : Bool := false
deriving DecidableEq, Repr, Inhabited

/-- Another name for an item. -/
structure AliasDecl where
  path : List Ident
  rename : Option Ident := none
deriving DecidableEq, Repr, Inhabited

/-- The new name: the one given, else the last of the path. -/
def AliasDecl.localName? (a : AliasDecl) : Option String :=
  (a.rename.orElse fun _ => a.path.getLast?).map (·.name)

/-! ## Expressions and statements -/

mutual

/-- An expression. -/
inductive Expr where
  | literal (node : Node) (value : Literal)
  | name (node : Node) (name : Ident) (typeArgs : List TypeExpr)
  | member (node : Node) (object : Expr) (member : Ident) (typeArgs : List TypeExpr)
  | call (node : Node) (callee : Expr) (args : List (Argument Expr))
  | new (node : Node) (ty : TypeExpr) (args : List (Argument Expr)) (persistent : Bool)
  | binary (node : Node) (op : BinaryOp) (left right : Expr)
  | unary (node : Node) (op : UnaryOp) (operand : Expr)
  /-- An assignment, compound when it has an operator. -/
  | assign (node : Node) (op : Option BinaryOp) (target value : Expr)
  | conditional (node : Node) (condition yes no : Expr)
  | cast (node : Node) (value : Expr) (ty : TypeExpr)
  | index (node : Node) (object index : Expr)
  | lambda (node : Node) (params : List (Param Expr)) (returnType : Option TypeExpr)
      (body : Block Stmt)
  | thisRef (node : Node)
  | superRef (node : Node)
  | await (node : Node) (value : Expr)
  | yield (node : Node) (value : Option Expr)
  | sizeOfType (node : Node) (ty : TypeExpr)

/-- A statement. Declarations are statements. -/
inductive Stmt where
  | expr (node : Node) (e : Expr)
  | declare (decl : VariableDecl Expr)
  | block (b : Block Stmt)
  | ret (node : Node) (value : Option Expr)
  | ifElse (node : Node) (condition : Expr) (yes : Stmt) (no : Option Stmt)
  /-- A loop that tests before its body, or behind it when `tail` is set. -/
  | loop (node : Node) (condition : Expr) (body : Stmt) (tail : Bool)
  | forLoop (node : Node) (init : Option Stmt) (condition update : Option Expr) (body : Stmt)
  | forEach (node : Node) (name : Ident) (ty : Option TypeExpr) (iterable : Expr) (body : Stmt)
  | leave (node : Node)
  | next (node : Node)
  | raise (node : Node) (value : Expr)
  | tryCatch (node : Node) (body : Block Stmt) (catches : List (CatchClause Stmt))
  | delete (node : Node) (value : Expr) (persistent : Bool)
  | function (decl : FunctionDecl Expr Stmt)
  | cls (decl : ClassDecl Expr Stmt)
  | space (node : Node) (name : Ident) (visibility : Visibility) (body : List Stmt)
  | importing (node : Node) (decl : ImportDecl)
  | exporting (node : Node) (decl : ExportDecl)
  | aliasing (node : Node) (decl : AliasDecl)

end

abbrev FunctionDef := FunctionDecl Expr Stmt

abbrev ClassDef := ClassDecl Expr Stmt

/-- The tree of a module. -/
structure Root where
  statements : List Stmt
  position : Position := {}

instance : Inhabited Expr := ⟨.literal default .null⟩

instance : Inhabited Stmt := ⟨.leave default⟩

instance : Inhabited Root := ⟨{ statements := [] }⟩

namespace Expr

def node : Expr → Node
  | literal n .. | name n .. | member n .. | call n .. | new n .. | binary n .. | unary n ..
  | assign n .. | conditional n .. | cast n .. | index n .. | lambda n .. | thisRef n | superRef n
  | await n .. | yield n .. | sizeOfType n .. => n

/-- What kind of expression it is, for people. -/
def describe : Expr → String
  | literal .. => "literal"
  | name .. => "name"
  | member .. => "member access"
  | call .. => "call"
  | new .. => "new"
  | binary .. => "binary expression"
  | unary .. => "unary expression"
  | assign .. => "assignment"
  | conditional .. => "conditional"
  | cast .. => "cast"
  | index .. => "index"
  | lambda .. => "lambda"
  | thisRef .. => "this"
  | superRef .. => "super"
  | await .. => "await"
  | yield .. => "yield"
  | sizeOfType .. => "sizeof"

end Expr

namespace Stmt

def node : Stmt → Node
  | expr n .. | ret n .. | ifElse n .. | loop n .. | forLoop n .. | forEach n .. | leave n | next n
  | raise n .. | tryCatch n .. | delete n .. | space n .. | importing n .. | exporting n ..
  | aliasing n .. => n
  | declare d => d.node
  | block b => b.node
  | function d => d.node
  | cls d => d.node

/-- What kind of statement it is, for people. -/
def describe : Stmt → String
  | expr .. => "expression statement"
  | declare .. => "variable declaration"
  | block .. => "block"
  | ret .. => "return"
  | ifElse .. => "if"
  | loop _ _ _ tail => if tail then "do-while" else "while"
  | forLoop .. => "for"
  | forEach .. => "ranged for"
  | leave .. => "break"
  | next .. => "continue"
  | raise .. => "throw"
  | tryCatch .. => "try"
  | delete .. => "delete"
  | function .. => "function"
  | cls .. => "class"
  | space .. => "namespace"
  | importing .. => "import"
  | exporting .. => "export"
  | aliasing .. => "using"

end Stmt

namespace FunctionDecl

variable {ε σ : Type}

def isGeneric (f : FunctionDecl ε σ) : Bool := !f.generics.isEmpty

/-- The number of parameters at the end that have a default and take one argument. -/
def optionalCount (f : FunctionDecl ε σ) : Nat :=
  (f.params.reverse.takeWhile fun p => p.defaultValue.isSome && !p.variadic).length

end FunctionDecl

/-- The name that each role gives a function by itself. -/
def Role.fixedName? : Role → Option String
  | construct => some "constructor"
  | destruct => some "destructor"
  | cast .inward => some "from"
  | cast .outward => some "to"
  | _ => none

/-- The name a function is declared under when the source gives it none. -/
def Role.defaultName : Role → String
  | operator op _ => "operator" ++ op.symbol
  | role => role.fixedName?.getD ""

namespace ClassDecl

variable {ε σ : Type}

def isGeneric (c : ClassDecl ε σ) : Bool := !c.generics.isEmpty

def fields (c : ClassDecl ε σ) : List (FieldDecl ε) :=
  c.members.filterMap fun
    | .field f => some f
    | .function _ => none

def functions (c : ClassDecl ε σ) : List (FunctionDecl ε σ) :=
  c.members.filterMap fun
    | .function f => some f
    | .field _ => none

end ClassDecl

end SemanticAnalysis
