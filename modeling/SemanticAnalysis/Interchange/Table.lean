import SemanticAnalysis.Interchange.Type
import SemanticAnalysis.SymbolTable.Basic

/-!
# Symbol tables in documents

Modules, scopes and items as records. What is blank is left out.
-/

namespace SemanticAnalysis.Document

def ofOwner : ScopeOwner → Document
  | .unit m => list [text "module", ofModule m]
  | .fn i => list [text "function", ofItem i]
  | .space i => list [text "namespace", ofItem i]
  | .cls i => list [text "class", ofItem i]
  | .block => list [text "block"]

/-- The owner of a scope; a block when nothing is said. -/
def owner (d : Document) : Reading ScopeOwner := do
  match ← d.items "owner" with
  | [text "module", id] => return .unit ⟨← id.asWord⟩
  | [text "function", id] => return .fn ⟨← id.asWord⟩
  | [text "namespace", id] => return .space ⟨← id.asWord⟩
  | [text "class", id] => return .cls ⟨← id.asWord⟩
  | _ => return .block

def ofDeferred : Deferred → Document
  | .surfaceErrors callee site => list [text "throws", ofItem callee, ofScope site]
  | .sealCaptures lambda => list [text "captures", ofItem lambda]

def ofModuleEntry (m : Module) : Document :=
  sparse
    [("name", text m.name), ("path", text m.path), ("package", text m.package),
      ("scope", ofScope m.scope), ("exports", ofScope m.exports),
      ("dependencies", ofList ofModule m.dependencies),
      ("dependents", ofList ofModule m.dependents),
      ("generic_dependencies", ofList ofModule m.genericDependencies),
      ("hoisted", ofItems m.hoisted), ("root_items", ofNat m.rootItems)]

def ofScopeEntry (s : Scope) : Document :=
  sparse
    [("parent", ofOption ofScope s.parent), ("owner", ofOwner s.owner),
      ("module", ofModule s.module), ("items", ofItems s.items), ("relative", ofNat s.relativeId),
      ("children", ofNat s.nextChild), ("errors", ofTypes s.possibleErrors), ("try", bool s.isTry)]

/-- A number that goes without saying when it is zero. -/
def ofPositive (n : Nat) : Document := if n == 0 then null else ofNat n

def ofVariable (v : Variable) : List (String × Document) :=
  [("ty", ofType v.ty), ("literal", bool v.isLiteral), ("export", bool v.isExport),
    ("bitfield", bool v.isBitfieldEntry), ("bits", ofPositive v.bits),
    ("parameter", bool v.isParameter), ("member", bool v.isMember), ("owner", ofItem? v.owner)]

def ofFunction (f : Function) : List (String × Document) :=
  [("signature", ofType f.ty), ("variables", ofItems f.paramVariables),
    ("flags", ofNat f.flags.bits), ("accessor", ofOption (text ·.word) f.accessor),
    ("operator", ofOption (text ·.word) f.operator), ("right", bool (f.side == .right)),
    ("generator_parameter", ofType? f.generatorParameter),
    ("generator_return", ofType? f.generatorReturn),
    ("coroutine_return", ofType? f.coroutineReturn), ("variant_of", ofItem? f.variantOf),
    ("variants", ofItems f.variants),
    ("defaults", ofList (fun (i, n) => list [ofNat i, ofNode n]) f.suppliedDefaults),
    ("referenced", ofItems f.referenced), ("copied", ofItems f.copied),
    ("holder", ofItem? f.captureHolder), ("throws", bool f.throws),
    ("throwing_fired", bool f.beganThrowing.released),
    ("throwing_pending", ofList ofDeferred f.beganThrowing.waiting),
    ("done_fired", bool f.done.released), ("done_pending", ofList ofDeferred f.done.waiting),
    ("class_type", ofType? f.classType), ("arguments", ofTypes f.genericArguments),
    ("origin", ofItem? f.genericOrigin), ("detailed", bool f.isDetailed)]

def ofClass (c : Class) : List (String × Document) :=
  [("flags", ofNat c.flags.bits), ("this", ofItem? c.thisVariable),
    ("default_constructor", ofItem? c.defaultConstructor),
    ("constructors", ofItems c.constructors), ("destructor", ofItem? c.destructor),
    ("copy_constructor", ofItem? c.copyConstructor), ("parents", ofItems c.parents),
    ("members", ofItems c.members), ("from_casts", ofItems c.fromCasts),
    ("to_casts", ofItems c.toCasts), ("operators", ofItems c.operators),
    ("methods", ofItems c.methods), ("arguments", ofTypes c.genericArguments),
    ("origin", ofItem? c.genericOrigin), ("underlying", ofType? c.underlying),
    ("needs_cleanup", bool c.needsCleanup), ("detailed", bool c.isDetailed)]

/-- The fields that depend on the kind of an item. -/
def ofEntity : Entity → List (String × Document)
  | .var v => ofVariable v
  | .fn f => ofFunction f
  | .cls c => ofClass c
  | .space _ => []
  | .aliasOf i => [("target", ofItem i)]
  | .bound ty => [("ty", ofType ty)]

def ofItemEntry (i : Item) : Document :=
  sparse <|
    [("kind", text i.entity.kind.describe), ("name", text i.name),
      ("visibility", text i.visibility.keyword), ("scope", ofScope i.scope),
      ("module", ofModule i.module), ("generics", ofPositive i.generics),
      ("private_hoisted", ofItems i.privateHoisted), ("public_hoisted", ofItems i.publicHoisted),
      ("at", text i.position.text), ("own_scope", ofOption ofScope i.ownScope?)] ++
    ofEntity i.entity

/-- A whole table, everything in order. -/
def ofTable (t : SymbolTable) : Document :=
  sparse
    [("modules", ofList ofModuleEntry t.modules.toList),
      ("scopes", ofList ofScopeEntry t.scopes.toList),
      ("items", ofList ofItemEntry t.items.toList)]

end SemanticAnalysis.Document
