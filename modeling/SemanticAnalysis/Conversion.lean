import SemanticAnalysis.Options
import SemanticAnalysis.SymbolTable.Hierarchy

/-!
# Conversion

How well a value of one type fits where another type is expected. A score of zero means that it
does not; higher scores are tighter fits and decide between overloads.

| rule | score |
|---|---|
| the same type | 64 |
| the same up to a permitted difference in `const` | 56 |
| `float` and `double` | 48 |
| any other two native types | 40 |
| a class to an ancestor at distance `d` | `32 - min d 15` |
| `null` to a pointer or optional | 20 |
| binding or reading one reference | one less than the rest |
| a value to an optional of a fitting type | at most 14 |
| a user cast | 12 |
| into or out of a union | at most 10 |
| `any` on either side | 4 |

`const` may be added at any level, and dropped only from the outermost level of a copied value.

The rules themselves (`Conversion.rules`) are not recursive: they ask a given search about the types
they lead to. `Conversion.search` ties the knot with a bound on the depth and gives up on a pair of
types that is already being searched.
-/

namespace SemanticAnalysis

/-- The score of a conversion and the user cast it goes through. -/
structure Conversion where
  score : Nat
  via : Option ItemId := none
deriving DecidableEq, Repr, Inhabited

namespace Conversion

def exactScore : Nat := 64
def constScore : Nat := 56
def floatScore : Nat := 48
def nativeScore : Nat := 40
def upcastScore : Nat := 32
def nullScore : Nat := 20
def optionalScore : Nat := 14
def castScore : Nat := 12
def unionScore : Nat := 10
def anyScore : Nat := 4

/-- Ancestors further away than this all score alike. -/
def farthest : Nat := 15

/-- No conversion. -/
def impossible : Conversion := ⟨0, none⟩

def ofScore (score : Nat) : Conversion := ⟨score, none⟩

def isPossible (c : Conversion) : Bool := 0 < c.score

def cappedAt (c : Conversion) (limit : Nat) : Conversion := { c with score := min c.score limit }

/-- One step less tight, but never impossible. -/
def loosened (c : Conversion) : Conversion := { c with score := max (c.score - 1) 1 }

/-! ## Rules without search -/

def withoutConst (t : Ty) : Ty := .make t.kind (t.layers.map (·.withoutConstant))

/-- The types differ in `const` only, and each dropped `const` is on the outermost level of a
copied value. -/
def constAdjusted (src dst : Ty) : Bool :=
  withoutConst src == withoutConst dst &&
    let levels := src.constnessByLevel
    (levels.zip dst.constnessByLevel).zipIdx.all fun ((was, is), level) =>
      !was || is || (level == levels.length - 1 && !dst.isReference)

/-- Native values convert into each other, `void` apart. -/
def nativeRule (src dst : Ty) : Option Nat :=
  match src.isValue && dst.isValue, src.native?, dst.native? with
  | true, some a, some b =>
    if !a.isArithmetic || !b.isArithmetic then none
    else if a != b && a.isFloating && b.isFloating then some floatScore
    else some nativeScore
  | _, _, _ => none

/-- A class, or one pointer or reference to it, fits where an ancestor is expected. -/
def upcastRule (table : SymbolTable) (src dst : Ty) : Option Nat :=
  match src.classId?, dst.classId? with
  | some derived, some base =>
    if derived == base || 1 < src.pointerLevel || 1 < dst.pointerLevel then none
    else
      match table.distance? derived base with
      | none => none
      | some distance =>
        let rebased := Ty.make (.cls base) src.layers
        if distance == 0 then none
        else if rebased == dst || constAdjusted rebased dst then
          some (upcastScore - min distance farthest)
        else none
  | _, _ => none

/-! ## Rules that search -/

section Search

variable (table : SymbolTable) (search : Ty → Ty → Conversion)

/-- Bind a value to a reference, or read a value through one. -/
def referenceRule (src dst : Ty) : Conversion :=
  if src.referenceLevel < dst.referenceLevel && dst.isReference then
    let bound := search src.reference dst
    if bound.isPossible then bound.loosened else bound
  else if dst.referenceLevel < src.referenceLevel then
    match src.dereference? with
    | some read =>
      let inner := search read dst
      if inner.isPossible then inner.loosened else impossible
    | none => impossible
  else impossible

/-- The better of two conversions, the first when they score alike. -/
def better (a b : Conversion) : Conversion := if a.score < b.score then b else a

/-- The best conversion of `src` into one of `members`. -/
def bestOf (src : Ty) (members : List Ty) : Conversion :=
  members.foldl (fun best member => better best (search src member)) impossible

/-- Every member of a union has to convert; the loosest one counts. -/
def everyMember (dst : Ty) : (worst : Nat) → (members : List Ty) → Conversion
  | worst, [] => ofScore worst
  | worst, member :: rest =>
    let c := search member dst
    if c.isPossible then everyMember dst (min worst c.score) rest else impossible

/-- Wrap a value into an optional, or convert what an optional holds. -/
def optionalRule (src dst : Ty) : Option Conversion :=
  match dst.isValue, dst.inner? with
  | true, some inner =>
    match src.isValue, src.inner? with
    | true, some held =>
      let c := search held inner
      some (if c.isPossible then c.loosened else c)
    | _, _ =>
      let c := search src inner
      if c.isPossible then some (c.cappedAt optionalScore) else none
  | _, _ => none

/-- Convert into a member of a union. -/
def intoUnionRule (src dst : Ty) : Option Conversion :=
  match dst.isValue, dst.members? with
  | true, some members =>
    let best := bestOf search src members
    if best.isPossible then some (best.cappedAt unionScore) else none
  | _, _ => none

/-- Convert every member of a union. -/
def outOfUnionRule (src dst : Ty) : Conversion :=
  match src.isValue, src.members? with
  | true, some members => everyMember search dst unionScore members
  | _, _ => impossible

/-- Optionals and unions. -/
def wrapperRule (src dst : Ty) : Conversion :=
  match (optionalRule search src dst).orElse fun _ => intoUnionRule search src dst with
  | some c => c
  | none => outOfUnionRule search src dst

/-- The best of some casts with their scores; the first of those that score alike. -/
def bestCast (casts : List (ItemId × Nat)) : Option ItemId :=
  (casts.foldl (fun best (cast, score) =>
    match best with
    | none => if 0 < score then some (cast, score) else none
    | some (_, top) => if top < score then some (cast, score) else best) none).map (·.1)

/-- The cast out of a class or one of its ancestors that fits `dst` best. -/
def outwardCast? (cls : ItemId) (dst : Ty) : Option ItemId :=
  let casts := (table.withAncestors cls).flatMap fun owner =>
    ((table.class? owner).map (·.toCasts)).getD []
  bestCast <| casts.filterMap fun cast =>
    (table.function? cast).map fun f => (cast, (search f.returnType dst).score)

/-- The cast into a class that takes `src` best. -/
def inwardCast? (cls : ItemId) (src : Ty) : Option ItemId :=
  let casts := ((table.class? cls).map (·.fromCasts)).getD []
  bestCast <| casts.filterMap fun cast =>
    ((table.function? cast).bind (·.params.head?)).map fun p => (cast, (search src p.ty).score)

/-- A cast out of the class of `src`, else one into the class of `dst`. -/
def castRule (src dst : Ty) : Conversion :=
  let source := src.withoutOuterReferences
  match source.valueClass?.bind fun c => outwardCast? table search c dst with
  | some cast => ⟨castScore, some cast⟩
  | none =>
    let inward := dst.withoutOuterReferences.valueClass?.bind fun c =>
      if source.classId? == some c then none else inwardCast? table search c src
    match inward with
    | some cast => ⟨castScore, some cast⟩
    | none => impossible

/-- All rules for two different types, the first that applies winning. -/
def rules (src dst : Ty) : Conversion :=
  if src.isWildcard || dst.isWildcard then ofScore anyScore
  else if constAdjusted src dst then ofScore constScore
  else if src.isNull && (dst.isPointer || (dst.isValue && dst.inner?.isSome)) then ofScore nullScore
  else
    let through := referenceRule search src dst
    if through.isPossible then through
    else
      match (nativeRule src dst).orElse fun _ => upcastRule table src dst with
      | some score => ofScore score
      | none =>
        if dst.isAny && 0 < src.indirectionLevel && src.layers.length == dst.layers.length then
          ofScore anyScore
        else
          let wrapped := wrapperRule search src dst
          if wrapped.isPossible then wrapped else castRule table search src dst

end Search

/-! ## Search -/

/-- Search for a conversion at most `depth` rules deep. A pair of types in `active` is already being
searched and finds nothing. -/
def search (table : SymbolTable) : (depth : Nat) → (active : List (Ty × Ty)) → Ty → Ty → Conversion
  | depth, active, src, dst =>
    if src == dst then ofScore exactScore
    else
      match depth with
      | 0 => impossible
      | depth + 1 =>
        if active.any fun (s, d) => s == src && d == dst then impossible
        else rules table (search table depth ((src, dst) :: active)) src dst

end Conversion

section

variable (table : SymbolTable) (options : Options)

/-- The best conversion of a `src` value to `dst`. -/
def convert (src dst : Ty) : Conversion :=
  Conversion.search table options.conversionDepth [] src dst

/-- A `src` value fits where `dst` is expected. -/
def converts (src dst : Ty) : Bool := (convert table options src dst).isPossible

/-- The cast into `cls` that takes `src` best. -/
def findInwardCast? (cls : ItemId) (src : Ty) : Option ItemId :=
  Conversion.inwardCast? table (convert table options) cls src

/-- The cast out of `cls`, or inherited by it, that gives `dst` best. -/
def findOutwardCast? (cls : ItemId) (dst : Ty) : Option ItemId :=
  Conversion.outwardCast? table (convert table options) cls dst

end

end SemanticAnalysis
