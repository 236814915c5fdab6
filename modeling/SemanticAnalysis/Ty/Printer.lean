import SemanticAnalysis.Ty.Layers

/-!
# Text of types

`Ty.text` writes a type the way source code does, with class names given by a function.
`Ty.exactText` writes every part of a type unambiguously, layers as numbers.
-/

namespace SemanticAnalysis.Ty

/-- The words in front of a type: `const`, then sign and width. -/
def baseWords (m : Modifier) : String :=
  (if m.constant then "const " else "") ++ (if m.signed then "signed " else "") ++
  (if m.unsigned then "unsigned " else "") ++ (if m.short then "short " else "") ++
  (if m.long then "long " else "")

/-- The mark of an indirection layer behind a type. -/
def indirectionMark (m : Modifier) : String :=
  (if m.pointer then "*" else "&") ++ (if m.constant then " const" else "")

/-- The marks of all indirection layers, innermost first. -/
def indirectionMarks (layers : List Modifier) : String :=
  String.join ((layers.filter (·.isIndirection)).map indirectionMark)

def parenthesized (yes : Bool) (s : String) : String := if yes then "(" ++ s ++ ")" else s

/-- Kinds whose text has an operator in it. -/
def isCompound : Kind Ty → Bool
  | .union _ | .function _ => true
  | _ => false

mutual

/-- Source text of a type, class names given by `names`. -/
def text (names : ItemId → String) : Ty → String
  | ⟨k, layers⟩ =>
    if isNull ⟨k, layers⟩ then "null"
    else
      baseWords (baseLayer ⟨k, layers⟩) ++
      parenthesized (!layers.isEmpty && isCompound k) (kindText names k) ++
      indirectionMarks layers

def kindText (names : ItemId → String) : Kind Ty → String
  | .any => "any"
  | .native n => n.keyword
  | .cls id => names id
  | .function s => signatureText names s
  | .union ts => " | ".intercalate (listText names ts)
  | .optional t => parenthesized (isCompound t.kind) (text names t) ++ "?"

/-- A signature as `(name: Type, ...rest: Type) => Result`. -/
def signatureText (names : ItemId → String) : Signature Ty → String
  | ⟨ps, r⟩ => "(" ++ ", ".intercalate (paramsText names ps) ++ ") => " ++ text names r

def listText (names : ItemId → String) : List Ty → List String
  | [] => []
  | t :: ts => text names t :: listText names ts

def paramsText (names : ItemId → String) : List (Parameter Ty) → List String
  | [] => []
  | p :: ps => paramText names p :: paramsText names ps

def paramText (names : ItemId → String) : Parameter Ty → String
  | ⟨name, t, v, _⟩ => (if v then "..." else "") ++ name ++ ": " ++ text names t

end

/-- Layers as numbers in braces; nothing when there are none. -/
def exactLayers (layers : List Modifier) : String :=
  if layers.isEmpty then ""
  else "\x7b" ++ ",".intercalate (layers.map fun m => toString m.bits) ++ "\x7d"

mutual

/-- Text that shows every part of a type. -/
def exactText : Ty → String
  | ⟨k, layers⟩ => exactKind k ++ exactLayers layers

def exactKind : Kind Ty → String
  | .any => "any"
  | .native n => n.keyword
  | .cls id => "#" ++ toString id.index
  | .function s => exactSignature s
  | .union ts => "union[" ++ ",".intercalate (exactList ts) ++ "]"
  | .optional t => "opt[" ++ exactText t ++ "]"

/-- Exact text of a signature. -/
def exactSignature : Signature Ty → String
  | ⟨ps, r⟩ => "fn(" ++ ",".intercalate (exactParams ps) ++ ")->" ++ exactText r

def exactList : List Ty → List String
  | [] => []
  | t :: ts => exactText t :: exactList ts

def exactParams : List (Parameter Ty) → List String
  | [] => []
  | p :: ps => exactParam p :: exactParams ps

def exactParam : Parameter Ty → String
  | ⟨name, t, v, id⟩ =>
    (if v then "..." else "") ++ name ++ "@" ++ toString id ++ ":" ++ exactText t

end

end SemanticAnalysis.Ty
