import SemanticAnalysis.Analysis.Instance
import SemanticAnalysis.NativeOperation

/-!
# Class heads

Declaring a class makes its item; its parents, fields and member signatures follow when they are
first asked for. The stage of a class moves on before the work is done, so a class that is reached
again on the way is taken as it stands.
-/

namespace SemanticAnalysis

/-- The bits that the entries of a bitfield share. -/
def Ty.bitCapacity (t : Ty) : Nat :=
  match t.native? with
  | some .bool => 1
  | some .byte => 8
  | some .int =>
    if t.nativeQualifiers.short then 16 else if t.nativeQualifiers.long then 64 else 32
  | _ => 0

/-- The widths of bitfield entries are added up to at most this number. -/
def maxTotalBits : Nat := 0xFFFFFFFF

namespace Analysis

variable (an : Analyst)

/-! ## Declaration -/

/-- Keep a generic class as a template. -/
def declareClassTemplate (frame : Frame) (decl : ClassDef) (scope : ScopeId) : Analysis ItemId := do
  let own ← newScope scope
  let item ← addItem
    { name := decl.name.name
      scope
      module := frame.module
      visibility := decl.visibility
      position := decl.node.position
      generics := decl.generics.length
      entity := .cls { scope := own, flags := decl.flags } }
  setOwner own (.cls item)
  modify fun s => { s with templates := (item, .cls decl scope frame.module) :: s.templates }
  record frame decl.node (.cls { cls := item, isTemplate := true })
  return item

/-- Declare a class, once per frame. -/
def declareClass (frame : Frame) (decl : ClassDef) (scope : ScopeId) : Analysis ItemId := do
  if let some item ← declared? frame decl.node then return item
  let name := decl.name.name
  checkRedeclaration name scope decl.node.position
  let item ←
    if decl.isGeneric then declareClassTemplate frame decl scope
    else createClass frame decl scope name
  let isModuleScope ← look fun t => (t.module? frame.module).any (·.scope == scope)
  if decl.flags.exported && isModuleScope then
    discard <| exportItem frame.module name item decl.node.position
  recordDeclared frame decl.node item
  return item

/-- Move a class to a stage. -/
def setStage (cls : ItemId) (stage : Stage) : Analysis Unit :=
  modify fun s =>
    { s with classes := s.classes.map fun (i, source) =>
        if i == cls then (i, { source with stage }) else (i, source) }

/-- The scope of a class. -/
def classScope (cls : ItemId) : Analysis ScopeId := do
  let c ← expect "class entity missing" (← look (·.class? cls))
  return c.scope

/-! ## Parents -/

/-- One written parent, after those that came before it. -/
def resolveParent (frame : Frame) (item : ItemId) (scope : ScopeId) (earlier : List ItemId)
    (written : TypeExpr) : Analysis ItemId := do
  let ty ← an.type frame written scope
  match ty.valueClass? with
  | none =>
    failOther written.position ("cannot inherit from " ++ Cause.quoted (← typeText ty))
  | some parent =>
    an.ask (.signatures parent)
    if parent == item || (← look (·.hasParent parent item)) then
      failOther written.position
        ("cyclic inheritance through " ++ Cause.quoted (← itemName parent))
    if earlier.contains parent then
      fail written.position (.duplicateDefinition (← itemName parent))
    return parent

/-- The written parents of a class. -/
def resolveParents (frame : Frame) (decl : ClassDef) (item : ItemId) (scope : ScopeId) :
    Analysis (List ItemId) :=
  decl.parents.foldlM (fun parents written => do
    return parents ++ [← resolveParent an frame item scope parents written]) []

/-! ## Bitfields -/

/-- Resolve the type that the entries of a bitfield share. -/
def resolveUnderlying (frame : Frame) (decl : ClassDef) (item : ItemId) (scope : ScopeId) :
    Analysis Unit := do
  let underlying ←
    match decl.underlying with
    | some t => an.type frame t scope
    | none => pure .int
  if !(underlying.isValue && underlying.native?.any (·.hasBits)) then
    failOther decl.node.position
      ("bitfield type " ++ Cause.quoted (← typeText underlying) ++ " is not integral")
  change (·.modifyClass item fun c => { c with underlying := some underlying })

/-- The entries of a bitfield have to fit into its underlying type. -/
def checkCapacity (decl : ClassDef) (item : ItemId) (bits : Nat) : Analysis Unit := do
  match (← look (·.class? item)).bind (·.underlying) with
  | none => return
  | some underlying =>
    if underlying.bitCapacity < bits then
      fail decl.node.position
        (.bitfieldOverflow decl.name.name (← typeText underlying) bits underlying.bitCapacity)

/-! ## Fields -/

/-- The type of a field: the written one, else that of its initializer. -/
def fieldType (frame : Frame) (field : FieldDecl Expr) (scope : ScopeId) : Analysis Ty := do
  let ty ←
    match field.ty, field.initializer with
    | some t, _ => an.type frame t scope
    | none, some e => (·.ty.inferred) <$> an.expr frame e scope
    | none, none =>
      failOther field.node.position
        ("field " ++ Cause.quoted field.name.name ++ " needs a type or an initializer")
  return if field.isConstant then ty.constify else ty

/-- The variable of a field. Exactly the fields of a bitfield have a width. -/
def fieldVariable (field : FieldDecl Expr) (ty : Ty) (isBitfield : Bool) : Analysis Variable :=
  match isBitfield, field.bits with
  | true, some bits => return .bitfieldEntry ty bits
  | false, none => return .member ty
  | true, none =>
    failOther field.node.position
      ("bitfield member " ++ Cause.quoted field.name.name ++ " needs a bit width")
  | false, some _ =>
    failOther field.node.position
      (Cause.quoted field.name.name ++ " has a bit width outside a bitfield class")

/-- Declare one field; gives its width. -/
def declareField (frame : Frame) (item : ItemId) (scope : ScopeId) (isBitfield : Bool)
    (field : FieldDecl Expr) : Analysis Nat := do
  checkRedeclaration field.name.name scope field.node.position
  let ty ← fieldType an frame field scope
  let v ← fieldVariable field ty isBitfield
  let member ← addItem
    { name := field.name.name
      scope
      module := frame.module
      visibility := field.visibility
      position := field.node.position
      entity := .var v }
  change (·.modifyClass item fun c => { c with members := c.members ++ [member] })
  recordDeclared frame field.node member
  return v.bits

/-- Declare the fields of a class; gives their total width. -/
def declareFields (frame : Frame) (decl : ClassDef) (item : ItemId) (scope : ScopeId) :
    Analysis Nat :=
  decl.fields.foldlM (fun total field => do
    let bits ← declareField an frame item scope decl.flags.bitfield field
    return min (total + bits) maxTotalBits) 0

/-! ## Members -/

/-- Declare the member functions of a class. A structure has none. -/
def declareMemberFunctions (frame : Frame) (decl : ClassDef) (item : ItemId) (scope : ScopeId) :
    Analysis Unit := do
  if let (true, f :: _) := (decl.flags.structural, decl.functions) then
    misplaced "member function" "in classes, not structures" f.node.position
  decl.functions.forM fun f => discard <| declareFunction an frame f scope (some item)

/-- Resolve parents, fields and member functions of a class, once. -/
def classSignatures (item : ItemId) : Analysis Unit := do
  match ← classSource? item with
  | none => return
  | some ⟨decl, frame, stage⟩ =>
    if Stage.signatures.rank ≤ stage.rank then return
    setStage item .signatures
    let scope ← classScope item
    let parents ← resolveParents an frame decl item scope
    change (·.modifyClass item fun c => { c with parents })
    if decl.flags.bitfield then resolveUnderlying an frame decl item scope
    let bits ← declareFields an frame decl item scope
    if decl.flags.bitfield then checkCapacity decl item bits
    declareMemberFunctions an frame decl item scope

end Analysis

end SemanticAnalysis
