import SemanticAnalysis.Interchange.Type
import SemanticAnalysis.Module.Library
import SemanticAnalysis.Syntax.Tree

/-!
# Syntax trees in documents

A node is a record with its kind under `k`, its number under `n` and perhaps its position under `p`.
A node of kind `ref` stands for the very same node as another one, so a tree may share its parts. No
way through the nodes comes to a value of the document twice, which bounds how deep a tree nests.
-/

namespace SemanticAnalysis

/-- The nodes of a document by number. -/
abbrev NodeIndex := List (Nat × Document)

namespace Document

/-! ## Nodes -/

/-- A node that a document itself is. -/
def ownNode (d : Document) : NodeIndex :=
  match d.field? "n", d.field? "k" with
  | some (int (.ofNat n)), some (text _) => [(n, d)]
  | _, _ => []

mutual

/-- All nodes of a document. -/
def nodes : Document → NodeIndex
  | list items => nodesOfItems items
  | record fields => ownNode (record fields) ++ nodesOfFields fields
  | _ => []

def nodesOfItems : List Document → NodeIndex
  | [] => []
  | d :: rest => d.nodes ++ nodesOfItems rest

def nodesOfFields : List (String × Document) → NodeIndex
  | [] => []
  | f :: rest => nodesOfField f ++ nodesOfFields rest

def nodesOfField : String × Document → NodeIndex
  | (_, d) => d.nodes

end

/-- The position of a node: the one given, else the first line at its number. -/
def place (d : Document) : Reading Position := do
  match d.field? "p", ← d.word? "n" with
  | some p, _ => p.asPosition
  | none, some column => return { line := 1, column }
  | none, none => return {}

def node (d : Document) : Reading Node := return ⟨.written (← d.nat "n"), ← d.place⟩

/-- The position of the name that a node declares. -/
def namePlace (d : Document) : Reading Position :=
  match d.field? "np" with
  | some p => p.asPosition
  | none => d.place

def ident? (d : Document) (name : String) (place : Position) : Reading (Option Ident) :=
  return (← d.str? name).map (⟨·, place⟩)

/-- The name that a node has. -/
def ident (d : Document) : Reading Ident := return ⟨← d.str "name", ← d.place⟩

def idents (d : Document) (name : String) : Reading (List Ident) := do
  let place ← d.place
  return (← d.strs name).map (⟨·, place⟩)

/-! ## Parts without expressions -/

/-- The bits of a number written in hexadecimal. -/
def hexBits (s : String) : UInt64 :=
  let digit (c : Char) : Nat :=
    if c.isDigit then c.toNat - '0'.toNat else c.toLower.toNat - 'a'.toNat + 10
  (s.toList.foldl (fun n c => n * 16 + digit c) 0).toUInt64

/-- A floating literal, by its bits or its value. -/
def double (d : Document) : Reading Binary64 := do
  match ← d.str? "bits", d.field? "v" with
  | some s, _ => return ⟨hexBits s⟩
  | none, some (int i) => return .ofInt i
  | none, some (real x) => return x
  | none, _ => throw "not a number"

def role (d : Document) : Reading Role := do
  match ← d.str "role" with
  | "" | "plain" => return .plain
  | "ctor" => return .construct
  | "dtor" => return .destruct
  | "from" => return .cast .inward
  | "to" => return .cast .outward
  | "get" => return .accessor .get
  | "set" => return .accessor .set
  | "op" => return .operator (← operator (← d.str "op")) d.side
  | word => throw ("unknown role " ++ word)

def functionKeywords (words : List String) : FunctionKeywords where
  async := words.contains "async"
  generator := words.contains "generator"
  dispatched := words.contains "virtual"
  external := words.contains "external"
  exported := words.contains "export"

def classKeywords (words : List String) : ClassFlags where
  structural := words.contains "structure"
  external := words.contains "external"
  typed := words.contains "typed"
  literal := words.contains "literal"
  exported := words.contains "export"
  bitfield := words.contains "bitfield"

def importItem (d : Document) : Reading ImportItem := do
  return { name := ← d.ident, rename := ← d.ident? "as" (← d.place) }

/-- An import; a list of items, even an empty one, makes it selective. -/
def importDecl (d : Document) : Reading ImportDecl := do
  let chosen ← (d.field? "items").mapM fun v => do (← v.asList).mapM importItem
  return { request := ← d.str "req", items := chosen, space := ← d.ident? "ns" (← d.namePlace) }

def exportDecl (d : Document) : Reading ExportDecl := do
  return { items := ← d.each "items" importItem, source := ← d.str? "from",
           wildcard := d.flag "all" }

def aliasDecl (d : Document) : Reading AliasDecl := do
  return { path := ← d.idents "path", rename := ← d.ident? "alias" (← d.place) }

end Document

/-! ## Types, expressions and statements -/

/-- Readers for the sorts of nodes that contain each other. -/
structure TreeReader where
  /-- The node that a reference stands for; other nodes stand for themselves. -/
  resolve : Document → Reading Document
  type : Document → Reading TypeExpr
  expr : Document → Reading Expr
  stmt : Document → Reading Stmt

namespace TreeReader

variable (r : TreeReader)

def type? (d : Document) (name : String) : Reading (Option TypeExpr) := (d.field? name).mapM r.type

def expr? (d : Document) (name : String) : Reading (Option Expr) := (d.field? name).mapM r.expr

def requireExpr (d : Document) (name : String) : Reading Expr := do r.expr (← d.require name)

def requireStmt (d : Document) (name : String) : Reading Stmt := do r.stmt (← d.require name)

def requireType (d : Document) (name : String) : Reading TypeExpr := do r.type (← d.require name)

/-! ### Types -/

def typeParam (place : Position) (d : Document) : Reading (TypeParam TypeExpr) := do
  return { name := ← d.ident? "name" place, ty := ← r.requireType d "ty", variadic := d.flag "var" }

def typeForm (d : Document) : Reading (TypeForm TypeExpr) := do
  match ← d.str "k" with
  | "any" => return .any
  | "self" => return .self
  | "named" => return .named (← d.idents "path") (← d.each "args" r.type)
  | "fn" =>
    let params ← d.each "ps" (r.typeParam (← d.place))
    let nothing : TypeExpr := { form := .native .void, position := ← d.place }
    return .function params ((← r.type? d "ret").getD nothing)
  | "union" => return .union (← d.each "of" r.type)
  | "opt" => return .optional (← r.requireType d "in")
  | word => return .native (← Document.named Native.all Native.keyword word)

/-- Write one more layer around a type. -/
def wrap (t : TypeExpr) (word : String) : Reading TypeExpr :=
  match word with
  | "pointer" => return t.pointer
  | "reference" => return t.reference
  | "const" => return t.const
  | _ => throw ("unknown wrapper " ++ word)

def readType (d : Document) : Reading TypeExpr := do
  let t : TypeExpr := { form := ← r.typeForm d, layers := ← d.layers "m", position := ← d.place }
  (← d.strs "wrap").foldlM wrap t

/-! ### Parts -/

def arguments (d : Document) : Reading (List (Argument Expr)) := do
  let place ← d.place
  d.each "args" fun a => do
    return { name := ← a.ident? "name" place, value := ← r.requireExpr a "v" }

def param (d : Document) : Reading (Param Expr) := do
  let d ← r.resolve d
  return { node := ← d.node, name := ← d.ident, ty := ← r.requireType d "ty",
           defaultValue := ← r.expr? d "default", variadic := d.flag "var" }

def params (d : Document) : Reading (List (Param Expr)) := d.each "params" r.param

def attributeArgument (d : Document) : Reading (AttributeArgument Expr) := do
  match d.field? "e" with
  | some e => return .expr (← r.expr e)
  | none => return .type (← r.requireType d "ty")

def attributeUse (d : Document) : Reading (Attribute Expr) := do
  return { path := ← d.idents "path", arguments := ← d.each "args" r.attributeArgument,
           position := ← d.place }

def attributes (d : Document) : Reading (List (Attribute Expr)) := d.each "attrs" r.attributeUse

def block (d : Document) : Reading (Block Stmt) := do
  let d ← r.resolve d
  return ⟨← d.node, ← d.each "s" r.stmt⟩

def requireBlock (d : Document) : Reading (Block Stmt) := do r.block (← d.require "body")

/-! ### Declarations -/

def function (d : Document) : Reading FunctionDef := do
  let role ← d.role
  let name ←
    match role with
    | .plain | .accessor _ => d.str "name"
    | role => pure role.defaultName
  return {
    node := ← d.node
    name := ⟨name, ← d.place⟩
    role
    generics := ← d.idents "generics"
    params := ← r.params d
    returnType := ← r.type? d "ret"
    generatorParameter := ← r.type? d "genparam"
    body := ← (d.field? "body").mapM r.block
    keywords := Document.functionKeywords (← d.strs "mods")
    visibility := ← d.visibility
    attributes := ← r.attributes d }

def field (d : Document) : Reading (FieldDecl Expr) := do
  return {
    node := ← d.node
    name := ← d.ident
    ty := ← r.type? d "ty"
    initializer := ← r.expr? d "init"
    bits := ← d.word? "bits"
    isConstant := d.flag "const"
    visibility := ← d.visibility
    attributes := ← r.attributes d }

def member (d : Document) : Reading (Member Expr Stmt) := do
  let d ← r.resolve d
  if (← d.str "k") == "fn" then return .function (← r.function d)
  return .field (← r.field d)

def cls (d : Document) : Reading ClassDef := do
  return {
    node := ← d.node
    name := ← d.ident
    generics := ← d.idents "generics"
    parents := ← d.each "parents" r.type
    members := ← d.each "members" r.member
    flags := Document.classKeywords (← d.strs "mods")
    underlying := ← r.type? d "underlying"
    visibility := ← d.visibility
    attributes := ← r.attributes d }

def varDecl (d : Document) : Reading (VariableDecl Expr) := do
  return {
    node := ← d.node
    name := ⟨← d.str "name", ← d.namePlace⟩
    ty := ← r.type? d "ty"
    initializer := ← r.expr? d "init"
    isConstant := d.flag "const"
    isExport := d.flag "export"
    visibility := ← d.visibility
    attributes := ← r.attributes d }

def clause (d : Document) : Reading (CatchClause Stmt) := do
  let d ← r.resolve d
  return { node := ← d.node, name := ← d.ident? "name" (← d.namePlace), ty := ← r.type? d "ty",
           body := ← r.requireBlock d }

/-! ### Expressions and statements -/

def readExpr (d : Document) : Reading Expr := do
  let node ← d.node
  let sub := r.requireExpr d
  match ← d.str "k" with
  | "int" => return .literal node (.int (← (← d.require "v").asInt))
  | "float" => return .literal node (.float (← d.double).narrow)
  | "double" => return .literal node (.double (← d.double))
  | "bool" => return .literal node (.bool (d.flag "v"))
  | "str" => return .literal node (.string (← d.str "v"))
  | "null" => return .literal node .null
  | "this" => return .thisRef node
  | "super" => return .superRef node
  | "fetch" => return .name node (← d.ident) (← d.each "args" r.type)
  | "member" => return .member node (← sub "obj") (← d.ident) (← d.each "args" r.type)
  | "call" => return .call node (← sub "fn") (← r.arguments d)
  | "new" => return .new node (← r.requireType d "ty") (← r.arguments d) (d.flag "persistent")
  | "bin" => return .binary node (← Document.binaryOp (← d.str "op")) (← sub "l") (← sub "r")
  | "un" => return .unary node (← Document.unaryOp (← d.str "op")) (← sub "e")
  | "assign" =>
    return .assign node (← (← d.str? "op").mapM Document.binaryOp) (← sub "t") (← sub "v")
  | "cond" => return .conditional node (← sub "c") (← sub "a") (← sub "b")
  | "cast" => return .cast node (← sub "e") (← r.requireType d "ty")
  | "index" => return .index node (← sub "e") (← sub "i")
  | "lambda" => return .lambda node (← r.params d) (← r.type? d "ret") (← r.requireBlock d)
  | "await" => return .await node (← sub "e")
  | "yield" => return .yield node (← r.expr? d "e")
  | "sizeof" => return .sizeOfType node (← r.requireType d "ty")
  | word => throw ("unknown expression " ++ word)

def readStmt (d : Document) : Reading Stmt := do
  let node ← d.node
  let sub := r.requireExpr d
  let inner := r.requireStmt d
  match ← d.str "k" with
  | "expr" => return .expr node (← sub "e")
  | "var" => return .declare (← r.varDecl d)
  | "block" => return .block (← r.block d)
  | "return" => return .ret node (← r.expr? d "e")
  | "if" => return .ifElse node (← sub "c") (← inner "t") (← (d.field? "e").mapM r.stmt)
  | "while" => return .loop node (← sub "c") (← inner "body") false
  | "dowhile" => return .loop node (← sub "c") (← inner "body") true
  | "for" =>
    return .forLoop node (← (d.field? "init").mapM r.stmt) (← r.expr? d "c") (← r.expr? d "u")
      (← inner "body")
  | "forof" =>
    return .forEach node ⟨← d.str "name", ← d.namePlace⟩ (← r.type? d "ty") (← sub "e")
      (← inner "body")
  | "break" => return .leave node
  | "continue" => return .next node
  | "throw" => return .raise node (← sub "e")
  | "try" => return .tryCatch node (← r.requireBlock d) (← d.each "catches" r.clause)
  | "delete" => return .delete node (← sub "e") (d.flag "persistent")
  | "fn" => return .function (← r.function d)
  | "class" => return .cls (← r.cls d)
  | "ns" => return .space node (← d.ident) (← d.visibility) (← d.each "s" r.stmt)
  | "import" => return .importing node (← d.importDecl)
  | "export" => return .exporting node (← d.exportDecl)
  | "using" => return .aliasing node (← d.aliasDecl)
  | word => throw ("unknown statement " ++ word)

end TreeReader

/-- The node that a reference stands for. -/
def NodeIndex.resolve (index : NodeIndex) (d : Document) : Reading Document := do
  if (← d.str "k") != "ref" then return d
  match index.lookup (← d.nat "to") with
  | some node => return node
  | none => throw "reference to no node"

/-- The readers for trees that nest at most `depth` deep, references included. -/
def treeReader (index : NodeIndex) : (depth : Nat) → TreeReader
  | 0 =>
    { resolve := index.resolve
      type := fun _ => throw "tree nests too deep"
      expr := fun _ => throw "tree nests too deep"
      stmt := fun _ => throw "tree nests too deep" }
  | depth + 1 =>
    { resolve := index.resolve
      type := fun d => do (treeReader index depth).readType (← index.resolve d)
      expr := fun d => do (treeReader index depth).readExpr (← index.resolve d)
      stmt := fun d => do (treeReader index depth).readStmt (← index.resolve d) }

namespace Document

/-- The reader for the trees of a document. -/
def reader (d : Document) : TreeReader := treeReader d.nodes d.size

/-- A module tree. It lies in the file that is named, else in the file of its position. -/
def root (r : TreeReader) (d : Document) : Reading Root := do
  let p ← d.position "p"
  let file := ((← d.word? "file").map FileId.mk).getD p.file
  return { statements := ← d.each "s" r.stmt, position := { p with file := file } }

/-- Add one module to a library. -/
def addModule (r : TreeReader) (l : Library) (d : Document) : Reading Library := do
  return l.add ⟨← d.str "path"⟩ ⟨← d.root r, ← d.str "name", ← d.str "package"⟩

/-- The library that a document brings along, if it does. -/
def library? (r : TreeReader) (d : Document) : Reading (Option Resolver) :=
  (d.field? "modules").mapM fun v => do
    return (← (← v.asList).foldlM (addModule r) {}).resolver

end Document

end SemanticAnalysis
