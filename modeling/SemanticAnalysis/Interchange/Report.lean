import SemanticAnalysis.Generics.Instances
import SemanticAnalysis.Interchange.Detail
import SemanticAnalysis.Interchange.Table
import SemanticAnalysis.Session

/-!
# Reports

What people want to see of an analysis: errors with their kind and place, everything that is known
about one type, an outline of a tree, and the full record of a program.
-/

namespace SemanticAnalysis.Document

/-! ## Errors -/

/-- The name of a cause. -/
def causeWord : Cause → String
  | .noTarget _ => "NoTargetFound"
  | .notVisible _ => "NotVisible"
  | .noMatchingCall .. => "NoMatchingCall"
  | .ambiguousCall .. => "AmbiguousCall"
  | .typeMismatch .. => "TypeMismatch"
  | .invalidCast .. => "InvalidCast"
  | .noOperator .. => "NoOperator"
  | .genericArity .. => "GenericArity"
  | .cannotInfer .. => "CannotInfer"
  | .noDefaultConstructor .. => "NoDefaultConstructor"
  | .missingIterator _ => "MissingIterator"
  | .invalidContext .. => "InvalidContext"
  | .duplicateDefinition _ => "DuplicateDefinition"
  | .bitfieldOverflow .. => "BitfieldOverflow"
  | .circularImport _ => "CircularImport"
  | .moduleNotFound .. => "ModuleNotFound"
  | .alreadyDetailed => "AlreadyDetailed"
  | .attributeFailed .. => "Attribute"
  | .other _ => "Other"
  | .tooDeep => "TooDeep"
  | .internal _ => "Internal"

/-- The name of a rule. -/
def ruleWord : Rule → String
  | .missingNode => "MissingNode"
  | .missingReturn => "MissingReturn"
  | .conditionNotBool => "ConditionNotBool"
  | .notAssignable => "NotAssignable"
  | .typeMismatch => "TypeMismatch"
  | .emptyTryCatch => "EmptyTryCatch"
  | .outsideLoop => "OutsideLoop"
  | .persistentDelete => "PersistentDelete"
  | .variadicPosition => "VariadicPosition"

def failureWord : Failure → String
  | .lexical .. => "Lex"
  | .grammar .. => "Parse"
  | .analysis d => causeWord d.cause
  | .validation v => ruleWord v.rule

/-- The fields of an error. A broken rule also says where it is broken. -/
def failureFields (e : Failure) : List (String × Document) :=
  [("error", text (failureWord e)), ("message", text e.message), ("at", ofPosition e.position)] ++
    match e with
    | .validation v => [("context", ofList text v.context)]
    | _ => []

def ofDiagnostic (d : Diagnostic) : Document := record (failureFields (.analysis d))

def ofCheck : Validation.Check → Document
  | .ok () => text "ok"
  | .error v => record (failureFields (.validation v))

/-- The phase an error comes from. -/
def phaseWord (e : Failure) : String :=
  if e.isAnalysis then "detailing" else if e.isValidation then "validation" else "other"

/-! ## Types -/

/-- What only function types have. -/
def signatureProperties (s : Signature Ty) (names : List String) : List (String × Document) :=
  [("variadic", bool s.isVariadic), ("fixed", ofNat s.fixedArity),
    ("accepts", ofList (fun n => bool (s.accepts n)) (List.range 6)),
    ("indices", ofList (fun n => ofOption ofNat (s.indexOf? n)) names)]

/-- Everything there is to know about a type; `around` are layers to write around it, and `names`
are looked up among its parameters. -/
def typeProperties (t : Ty) (around : List Modifier) (names : List String) : Document :=
  sparse <|
    [("exact", ofType t), ("text", text (t.text ItemId.text)), ("any", bool t.isAny),
      ("wildcard", bool t.isWildcard), ("null", bool t.isNull),
      ("native", ofOption (text ·.keyword) t.native?), ("class", ofItem? t.classId?),
      ("void", bool t.isVoid), ("arithmetic", bool t.isArithmetic),
      ("members", ofOption ofTypes t.members?), ("inner", ofType? t.inner?),
      ("base", ofNat t.baseLayer.bits), ("qualifiers", ofNat t.nativeQualifiers.bits),
      ("outermost", ofNat t.outermost.bits),
      ("levels", ofList ofNat [t.indirectionLevel, t.referenceLevel, t.pointerLevel]),
      ("constant", bool t.isConstant), ("constant_value", bool t.isConstantValue),
      ("is_reference", bool t.isReference), ("is_pointer", bool t.isPointer),
      ("constness", ofList bool t.constnessByLevel), ("deconstify", ofType t.deconstify),
      ("constify", ofType t.constify), ("reference", ofType t.reference),
      ("dereference", ofType? t.dereference?), ("point", ofType t.point),
      ("follow", ofType? t.follow?), ("follow_blindly", ofType t.followBlindly),
      ("destroy_references", ofType t.destroyReferences),
      ("without_outer_references", ofType t.withoutOuterReferences),
      ("qualified", ofType (t.qualified around)), ("inferred", ofType t.inferred),
      ("fingerprint", text (toString t.fingerprint.toNat))] ++
    (t.signature?.map (signatureProperties · names)).getD []

/-! ## Outlines -/

/-- The expression that a statement is about. -/
def subjectOf : Stmt → Option Expr
  | .expr _ e | .raise _ e => some e
  | .ret _ e => e
  | .declare d => d.initializer
  | _ => none

/-- What an outline says about one sort of statement. -/
def outlineFields : Stmt → List (String × Document)
  | .declare d =>
    [("simple_name", ofOption text (d.ty.bind (·.simpleName?))),
      ("layers", ofList (fun m => ofNat m.bits) ((d.ty.map (·.layers)).getD [])),
      ("attrs", ofList (fun a => text (pathText a.path)) d.attributes)]
  | .function d =>
    [("generic", bool d.isGeneric), ("optional", ofNat d.optionalCount), ("name", text d.name.name)]
  | .cls d =>
    [("generic", bool d.isGeneric), ("fields", ofList (text ·.name.name) d.fields),
      ("functions", ofList (text ·.name.name) d.functions),
      ("members", ofList (fun m => list [ofNode m.node.id, text m.node.position.text]) d.members)]
  | .importing _ d => [("locals", ofList (text ·.localName) (d.items.getD []))]
  | .aliasing _ d => [("local", ofOption text d.localName?), ("path", text (pathText d.path))]
  | _ => []

/-- The outline of a statement. -/
def outline (s : Stmt) : Document :=
  sparse <|
    [("describe", text s.describe), ("at", text s.node.position.text), ("n", ofNode s.node.id),
      ("expr", ofOption (text ·.describe) (subjectOf s)),
      ("expr_at", ofOption (text ·.node.position.text) (subjectOf s))] ++ outlineFields s

/-! ## Programs -/

/-- A 64-bit word as sixteen digits. -/
def hexText (x : UInt64) : String :=
  String.ofList ((List.range 16).map fun i => Nat.digitChar ((x.toNat >>> (4 * (15 - i))) % 16))

def ofAttributeValue : AttributeValue → Document
  | .int v => list [text "int", text (toString v)]
  | .float v => list [text "float", text (hexText v.bits)]
  | .bool v => list [text "bool", bool v]
  | .string v => list [text "string", text v]
  | .null => list [text "null"]
  | .type t => list [text "type", ofType t]
  | .item i => list [text "item", ofItem i]

/-- A use of a registered attribute. -/
def ofApplication (a : Application) : Document :=
  let i := a.invocation
  list [ofNat a.registration, ofNode i.node,
    list [list [text i.subject.target.word, ofItem i.subject.item], text i.position.text,
      ofList ofAttributeValue i.arguments]]

def ofInstance (i : Instance) : Document :=
  list [ofItem i.item, ofFrame i.frame, ofTypes i.arguments]

/-- Instances by their items. -/
def ofInstances (is : List Instance) : Document :=
  ofList ofInstance (is.mergeSort fun a b => a.item.index ≤ b.item.index)

/-- The frames of the instances of each generic declaration, by its number. -/
def ofInstanceFrames (s : State) : Document :=
  let numbered := s.instanceFrames.filterMap fun (n, frames) =>
    match n with
    | .written n => some (n, frames)
    | .synthetic _ => none
  ofList (fun (n, frames) => list [ofNat n, ofList ofFrame frames])
    (numbered.mergeSort fun a b => a.1 ≤ b.1)

/-- The full record of a program: its symbol table and its details. -/
def ofState (s : State) : Document :=
  record [("graph", ofTable s.table), ("handles", ofDetails s.details)]

/-- How much an analysis has made. -/
def ofCounts (s : State) : Document :=
  record
    [("items", ofNat s.table.items.size), ("scopes", ofNat s.table.scopes.size),
      ("handles", ofNat s.details.size), ("classes", ofNat s.instances.classes.size),
      ("functions", ofNat s.instances.functions.size), ("roots", ofNat s.roots.length),
      ("errors", ofNat s.errors.length), ("depth", ofNat s.options.conversionDepth),
      ("attributes", ofNat s.attributes.size)]

/-- Every analysed tree with what its validation says. -/
def ofValidation (s : State) : Document :=
  ofList (fun r => list [ofModule r.module, ofFrame r.frame,
    ofCheck (Validation.checkRoot s.findings r)]) s.roots

/-- The outcome of a session. `full` adds the full record. -/
def ofOutcome (o : Outcome) (full : Bool) : Document :=
  let log := ("log", ofList ofApplication o.state.applications)
  match o.root with
  | .error e => record (failureFields e ++ [("phase", text (phaseWord e)), log])
  | .ok m =>
    sparse
      [("root", ofModule m), ("modules", ofList ofModule o.modules),
        ("frames", ofList (fun m => ofOption ofFrame (o.frameOf? m)) o.modules),
        ("clean", bool o.isClean), ("errors", ofList ofDiagnostic o.state.errors), log,
        ("validation", ofCheck o.validate), ("dump", if full then ofState o.state else null)]

end SemanticAnalysis.Document
