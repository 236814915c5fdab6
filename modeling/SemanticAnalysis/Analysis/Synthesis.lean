import SemanticAnalysis.Analysis.ClassHead

/-!
# Member functions without a declaration

A class that writes no constructor gets one without parameters, a class whose values need cleaning up
gets a destructor, and, if the options say so, every class gets a copy constructor. They are declared
like written functions, from trees that the analysis makes.
-/

namespace SemanticAnalysis

/-- What a value starts out as: a union starts as its first member, an empty union as nothing. -/
def Ty.startingAs? (t : Ty) : Option Ty :=
  match t with
  | ⟨.union members, layers⟩ =>
    if layers.any (·.isIndirection) then some t
    else
      match members with
      | [] => none
      | first :: _ => first.startingAs?
  | _ => some t

/-- Values of the class can be made without arguments. -/
def Class.hasDefaultConstructor (c : Class) : Bool := c.defaultConstructor.isSome

namespace Analysis

variable (an : Analyst)

/-! ## Questions about types -/

/-- A class can be made without arguments. One that is being given its members cannot yet. -/
def isDefaultConstructibleClass (cls : ItemId) : Analysis Bool := do
  if (← classSource? cls).any (·.stage == .synthesizing) then return false
  an.ask (.synthesis cls)
  look fun t => (t.class? cls).any (·.hasDefaultConstructor)

/-- A value of the type can be made without an initializer. -/
def isDefaultConstructible (ty : Ty) : Analysis Bool := do
  match ty.startingAs? with
  | none => return false
  | some start =>
    if start.isReference then return false
    if !start.isValue then return true
    match start.kind with
    | .native n => return n != .void
    | .cls c => isDefaultConstructibleClass an c
    | _ => return true

/-- A value of the type needs a destructor call when it goes away. -/
def typeNeedsCleanup (ty : Ty) : Analysis Bool := do
  if !ty.isValue then return false
  match ty.kind with
  | .union _ | .optional _ => return true
  | .cls c =>
    an.ask (.synthesis c)
    look fun t => (t.class? c).any (·.needsCleanup)
  | _ => return false

/-! ## Conditions -/

/-- The class needs cleaning up: it has a destructor, or a parent or a member needs it. -/
def classNeedsCleanup (c : Class) : Analysis Bool := do
  let table ← look id
  let inherited := c.parents.any fun p => (table.class? p).any (·.needsCleanup)
  c.members.foldlM (fun needed m => do
    match ← look (·.var? m) with
    | none => return needed
    | some v => return (← typeNeedsCleanup an v.ty) || needed) (c.destructor.isSome || inherited)

/-- A field without an initializer must be of a type that needs none. -/
def checkFieldConstructible (item : ItemId) (clsName : String) (field : FieldDecl Expr) :
    Analysis Unit := do
  if field.initializer.isSome then return
  let table ← look id
  let member := (((table.class? item).map (·.members)).getD []).find? fun m =>
    table.itemName m == field.name.name
  match member.bind table.var? with
  | none => return
  | some v =>
    if !(← isDefaultConstructible an v.ty) then
      fail field.node.position <| .noDefaultConstructor clsName
        ("member " ++ Cause.quoted field.name.name ++ " of type " ++
          Cause.quoted (← typeText v.ty) ++ " has no initializer and no default constructor")

/-- A parent must have a default constructor. -/
def checkParentConstructible (clsName : String) (position : Position) (parent : ItemId) :
    Analysis Unit := do
  an.ask (.synthesis parent)
  if !(← look fun t => (t.class? parent).any (·.hasDefaultConstructor)) then
    fail position <| .noDefaultConstructor clsName
      ("parent " ++ Cause.quoted (← itemName parent) ++ " has no default constructor")

/-- A default constructor can be made only when fields and parents need no arguments. -/
def checkConstructible (item : ItemId) (decl : ClassDef) : Analysis Unit := do
  decl.fields.forM (checkFieldConstructible an item decl.name.name)
  let parents := ((← look (·.class? item)).map (·.parents)).getD []
  parents.forM (checkParentConstructible an decl.name.name decl.node.position)

/-! ## Trees -/

/-- A member function made by the analysis. -/
def makeMember (role : Role) (params : List (Param Expr)) (body : List Stmt)
    (position : Position) : Analysis FunctionDef := do
  let node ← freshNode position
  let block ← freshNode position
  return { node, name := ⟨role.defaultName, position⟩, role, params, body := some ⟨block, body⟩ }

/-- The tree of a constructor without parameters; with parents it calls the first one's. -/
def makeDefaultConstructor (hasParents : Bool) (position : Position) : Analysis FunctionDef := do
  if !hasParents then return ← makeMember .construct [] [] position
  let marker ← freshNode position
  let call ← freshNode position
  let stmt ← freshNode position
  makeMember .construct [] [.expr stmt (.call call (.superRef marker) [])] position

/-- The tree of a constructor from a value of the same class. -/
def makeCopyConstructor (position : Position) : Analysis FunctionDef := do
  let node ← freshNode position
  let self : TypeExpr := { form := .self, position }
  let other : Param Expr := { node, name := ⟨"other", position⟩, ty := self.const.reference }
  makeMember .construct [other] [] position

/-! ## Synthesis -/

/-- Declare a member function made by the analysis. -/
def declareSynthesized (frame : Frame) (decl : FunctionDef) (cls : ItemId) (scope : ScopeId) :
    Analysis ItemId := do
  let item ← declareFunction an frame decl scope (some cls)
  change (·.modifyFunction item fun f => { f with flags.synthesized := true })
  return item

/-- Give a class the copy constructor it lacks. -/
def synthesizeCopy (frame : Frame) (cls : ItemId) (scope : ScopeId) (position : Position) :
    Analysis FunctionDef := do
  let decl ← makeCopyConstructor position
  let item ← declareSynthesized an frame decl cls scope
  change (·.modifyFunction item fun f => { f with flags.copyConstruct := true })
  change (·.modifyClass cls fun c => { c with copyConstructor := some item })
  return decl

/-- Give a class the member functions it lacks. -/
def synthesizeMembers (item : ItemId) (source : ClassSource) : Analysis Unit := do
  let decl := source.decl
  let position := decl.node.position
  let c ← expect "class entity missing" (← look (·.class? item))
  c.parents.forM fun p => an.ask (.synthesis p)
  let needsCleanup ← classNeedsCleanup an c
  change (·.modifyClass item fun c => { c with needsCleanup })
  let external := c.flags.external
  let mut made : List FunctionDef := []
  if c.constructors.isEmpty && !external then
    checkConstructible an item decl
    let ctor ← makeDefaultConstructor (!c.parents.isEmpty) position
    discard <| declareSynthesized an source.frame ctor item c.scope
    made := made ++ [ctor]
  if needsCleanup && c.destructor.isNone && !external then
    let dtor ← makeMember .destruct [] [] position
    discard <| declareSynthesized an source.frame dtor item c.scope
    made := made ++ [dtor]
  let hasCopy ← look fun t => (t.class? item).any (·.copyConstructor.isSome)
  if (← get).options.copyConstructors && !hasCopy && !external then
    made := made ++ [← synthesizeCopy an source.frame item c.scope position]
  modify fun s => { s with synthesized := (item, made) :: s.synthesized }

/-- Give a class the member functions it lacks, once. -/
def synthesize (item : ItemId) : Analysis Unit := do
  an.ask (.signatures item)
  match ← classSource? item with
  | none => return
  | some source =>
    if Stage.synthesizing.rank ≤ source.stage.rank then return
    setStage item .synthesizing
    andFinally (synthesizeMembers an item source) (setStage item .synthesized)

end Analysis

end SemanticAnalysis
