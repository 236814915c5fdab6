import SemanticAnalysis.Digest
import SemanticAnalysis.Ty.Basic

/-!
# Byte code of types

`Ty.encode` writes a type as bytes: a tag for the kind, the parts, a closing byte after lists, then
the number of layers and their bits. Names and ids of parameters are left out. `Ty.fingerprint` is
the digest of that code.
-/

namespace SemanticAnalysis.Ty

/-- Ends a list of parameters or members; no tag has this value. -/
def listEnd : UInt8 := 255

/-- The layers of a type as bytes: their number, then the bits of each. -/
def encodeLayers (layers : List Modifier) : List UInt8 :=
  layers.length.toUInt8 :: layers.map fun m => m.bits.toUInt8

mutual

/-- The byte code of a type. -/
def encode : Ty → List UInt8
  | ⟨k, layers⟩ => encodeKind k ++ encodeLayers layers

def encodeKind : Kind Ty → List UInt8
  | .any => [0]
  | .native n => [1, n.number.toUInt8]
  | .cls id => 2 :: Digest.bytesOfNat 4 id.index
  | .function s => 3 :: encodeSignature s
  | .union ts => 4 :: (encodeList ts ++ [listEnd])
  | .optional t => 5 :: encode t

/-- The result comes first, then each parameter behind its variadic mark. -/
def encodeSignature : Signature Ty → List UInt8
  | ⟨ps, r⟩ => encode r ++ encodeParams ps ++ [listEnd]

def encodeList : List Ty → List UInt8
  | [] => []
  | t :: ts => encode t ++ encodeList ts

def encodeParams : List (Parameter Ty) → List UInt8
  | [] => []
  | p :: ps => encodeParam p ++ encodeParams ps

def encodeParam : Parameter Ty → List UInt8
  | ⟨_, t, v, _⟩ => v.toNat.toUInt8 :: encode t

end

/-- The digest of the byte code, by which types are put into buckets. -/
def fingerprint (t : Ty) : UInt64 := Digest.hash 0 t.encode

end SemanticAnalysis.Ty
