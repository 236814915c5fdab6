import SemanticAnalysis.Analysis.Naming

/-!
# Uses of values

A value used to fill a place has to convert to it, and attributes are applied to the declarations
they stand on.
-/

namespace SemanticAnalysis.Analysis

variable (an : Analyst)

/-- Check that a value of type `src` may fill a place of type `dst`, and record the user cast that
takes. A `const` of the place does not matter. -/
def checkAssignable (frame : Frame) (value : Expr) (src dst : Ty) (position : Position) :
    Analysis Unit := do
  let target := dst.deconstify
  let c ← conversion src target
  if !c.isPossible then
    fail position (.typeMismatch (← typeText dst) (← typeText src))
  if let some function := c.via then castImplicitly frame value.node ⟨function, target⟩

/-- The value of a literal as an attribute argument. -/
def literalValue : Literal → AttributeValue
  | .int v => .int v
  | .float v => .float v.widen
  | .double v => .float v
  | .bool v => .bool v
  | .string v => .string v
  | .null => .null

/-- The value of an attribute argument: a literal, a name or a type. -/
def attributeValue (frame : Frame) (scope : ScopeId) (position : Position) :
    AttributeArgument Expr → Analysis AttributeValue
  | .type t => .type <$> an.type frame t scope
  | .expr (.literal _ value) => return literalValue value
  | .expr (.name node ident _) => do
    match ← look (·.findAll ident.name scope [] (some scope)) with
    | item :: _ => return .item item
    | [] => missingName ident.name scope [] node.position
  | .expr _ => failOther position "attribute arguments must be literals, names or types"

/-- Apply one attribute; one that nobody registered has no effect. -/
def applyAttribute (frame : Frame) (subject : Subject) (node : Node) (scope : ScopeId)
    (a : Attribute Expr) : Analysis Unit := do
  let path := pathText a.path
  match (← get).attributes.find? path subject.target frame.module with
  | none => return
  | some (registration, index) =>
    let arguments ← a.arguments.mapM (attributeValue an frame scope a.position)
    let invocation : Invocation := ⟨subject, node.id, a.position, arguments⟩
    modify fun s => { s with applications := s.applications ++ [⟨index, invocation⟩] }
    match ← make (registration.callback invocation) with
    | .ok () => return
    | .error message => fail a.position (.attributeFailed path message)

/-- Apply the attributes of a declaration in order. -/
def applyAttributes (frame : Frame) (attributes : List (Attribute Expr)) (subject : Subject)
    (node : Node) (scope : ScopeId) : Analysis Unit :=
  attributes.forM (applyAttribute an frame subject node scope)

end SemanticAnalysis.Analysis
