import SemanticAnalysis.Detail
import SemanticAnalysis.Interchange.Type

/-!
# Details in documents

The detail of a node as a record that names its sort under `h`, and whole tables of them: the nodes
of the source by frame and number, then the nodes the analysis made, in the order of making.
-/

namespace SemanticAnalysis.Document

def ofBinding : Binding → Document
  | .single a => ofNat a
  | .variadic as => ofList ofNat as

def ofResolution (r : Resolution) : Document :=
  sparse
    [("candidate", ofNat r.candidate), ("item", ofItem? r.item), ("map", ofList ofNat r.argumentMap),
      ("bindings", ofList ofBinding r.bindings), ("scores", ofList ofNat r.scores),
      ("narrowed", ofList ofItem? r.narrowed), ("casts", ofList ofItem? r.casts)]

def ofInfo (i : ExprInfo) : List (String × Document) :=
  [("ty", ofType i.ty), ("lvalue", bool i.isLvalue),
    ("cast_by", ofItem? (i.implicitCast.map (·.function))),
    ("cast_to", ofType? (i.implicitCast.map (·.target)))]

def ofMeaning : NameMeaning → Document
  | .value => list [text "value"]
  | .type ty => list [text "type", ofType ty]
  | .space i => list [text "namespace", ofItem i]
  | .property getter setter => list [text "property", ofItem? getter, ofItem? setter]

def ofName (d : NameDetail) : List (String × Document) :=
  ofInfo d.info ++
    [("candidates", ofItems d.candidates), ("target", ofItem? d.target),
      ("meaning", ofMeaning d.meaning), ("through_this", bool d.throughThis)]

def ofCallKind : CallKind → Document
  | .function => list [text "Function"]
  | .method => list [text "Method"]
  | .construct c => list [text "Constructor", ofItem c]
  | .superConstruct c => list [text "SuperConstructor", ofItem c]
  | .callOperator => list [text "CallOperator"]
  | .conversion => list [text "Conversion"]
  | .dynamic => list [text "Dynamic"]

def castKindWord : CastKind → String
  | .implicit => "Implicit"
  | .native => "Native"
  | .reinterpret => "Reinterpret"
  | .downcast => "Downcast"
  | .user => "User"

def ofCatch (c : CatchDetail) : Document :=
  sparse [("scope", ofScope c.scope), ("variable", ofItem? c.var), ("ty", ofType? c.ty)]

/-- The sort of a detail and its fields. -/
def detailFields : Detail → String × List (String × Document)
  | .literal i => ("Literal", ofInfo i)
  | .name d => ("Fetch", ofName d)
  | .member d => ("Accessor", ofName d)
  | .call d =>
    ("Call", ofInfo d.info ++ [("call", ofCallKind d.kind), ("callee", ofItem? d.callee),
      ("resolution", ofOption ofResolution d.resolution)])
  | .new d =>
    ("New", ofInfo d.info ++ [("class", ofItem? d.cls), ("constructor", ofItem? d.ctor),
      ("resolution", ofOption ofResolution d.resolution), ("persistent", bool d.persistent)])
  | .operator i overload => ("Operator", ofInfo i ++ [("overload", ofItem? overload)])
  | .assign d =>
    ("Assignment", ofInfo d.info ++ [("overload", ofItem? d.overload), ("setter", ofItem? d.setter),
      ("value_type", ofType d.valueType), ("compatible", bool d.compatible)])
  | .conditional i => ("Conditional", ofInfo i)
  | .cast i kind via => ("Cast", ofInfo i ++ [("cast", text (castKindWord kind)), ("via", ofItem? via)])
  | .lambda i f => ("Lambda", ofInfo i ++ [("function", ofItem f)])
  | .thisRef i => ("This", ofInfo i)
  | .superRef i => ("Super", ofInfo i)
  | .await i f => ("Await", ofInfo i ++ [("function", ofItem f)])
  | .yield i f => ("Yield", ofInfo i ++ [("function", ofItem f)])
  | .sizeOfType i measured => ("SizeOf", ofInfo i ++ [("measured", ofType measured)])
  | .statement s => ("Statement", [("scope", ofScope s)])
  | .declare v ctor => ("Variable", [("variable", ofItem v), ("constructor", ofItem? ctor)])
  | .block s => ("Block", [("scope", ofScope s)])
  | .ifElse yes no => ("If", [("then", ofScope yes), ("else", ofOption ofScope no)])
  | .loop s => ("Loop", [("scope", ofScope s)])
  | .forEach s v next element =>
    ("RangedFor", [("scope", ofScope s), ("variable", ofItem v), ("next", ofItem next),
      ("element", ofType element)])
  | .ret f expected => ("Return", [("function", ofItem f), ("expected", ofType expected)])
  | .raise ty => ("Throw", [("ty", ofType ty)])
  | .tryCatch s catches uncaught =>
    ("TryCatch", [("scope", ofScope s), ("catches", ofList ofCatch catches),
      ("uncaught", ofTypes uncaught)])
  | .delete ty destructor => ("Delete", [("ty", ofType ty), ("destructor", ofItem? destructor)])
  | .function d =>
    ("Function", [("function", ofItem d.function), ("variants", ofItems d.variants),
      ("implicit_super", ofItems d.implicitSuper), ("template", bool d.isTemplate)])
  | .cls d =>
    ("Class", [("class", ofItem d.cls), ("synthesized", ofItems d.synthesized),
      ("template", bool d.isTemplate)])
  | .field v => ("Field", [("variable", ofItem v)])
  | .space i => ("Namespace", [("item", ofItem i)])
  | .importing m bound => ("Import", [("module", ofModule m), ("bound", ofItems bound)])
  | .exporting aliases => ("Export", [("aliases", ofItems aliases)])
  | .aliasing i => ("Using", [("alias", ofItem i)])

def ofDetail (d : Detail) : Document :=
  let (sort, fields) := detailFields d
  sparse (("h", text sort) :: fields)

/-- Pairs of numbers in lexicographic order. -/
def pairOrder {α : Type} (a b : (Nat × Nat) × α) : Bool :=
  a.1.1 < b.1.1 || (a.1.1 == b.1.1 && a.1.2 ≤ b.1.2)

/-- The details of source nodes, by frame and number. -/
def writtenDetails (t : DetailTable) : List ((Nat × Nat) × Detail) :=
  (t.entries.toList.filterMap fun (k, d) =>
    match k.node with
    | .written n => some ((k.frame.index, n), d)
    | .synthetic _ => none).mergeSort pairOrder

/-- The details of nodes that the analysis made, by order of making and frame. -/
def madeDetails (t : DetailTable) : List ((Nat × Nat) × Detail) :=
  (t.entries.toList.filterMap fun (k, d) =>
    match k.node with
    | .written _ => none
    | .synthetic n => some ((n, k.frame.index), d)).mergeSort pairOrder

/-- A whole table of details. -/
def ofDetails (t : DetailTable) : Document :=
  record
    [("nodes", ofList (fun ((frame, n), d) => list [ofNat frame, ofNat n, ofDetail d])
      (writtenDetails t)),
     ("synthesized", ofList (fun ((_, frame), d) => list [ofNat frame, ofDetail d])
      (madeDetails t))]

end SemanticAnalysis.Document
