/-!
# Digests

The 64-bit xxHash of a byte string. `Digest.hash` reads the bytes in stripes of 32, each stripe
feeding four lanes, then the remaining bytes in words of 8, 4 and 1. All arithmetic wraps at 64 bits.
-/

namespace SemanticAnalysis.Digest

def prime1 : UInt64 := 11400714785074694791
def prime2 : UInt64 := 14029467366897019727
def prime3 : UInt64 := 1609587929392839161
def prime4 : UInt64 := 9650029242287828579
def prime5 : UInt64 := 2870177450012600261

def rotateLeft (x : UInt64) (n : UInt64) : UInt64 := (x <<< n) ||| (x >>> (64 - n))

/-- The word whose bytes, lowest first, are `bs`. -/
def wordOfBytes : List UInt8 → UInt64
  | [] => 0
  | b :: bs => b.toUInt64 ||| (wordOfBytes bs <<< 8)

/-- The `n` lowest bytes of a number, lowest first. -/
def bytesOfNat : Nat → Nat → List UInt8
  | 0, _ => []
  | n + 1, x => x.toUInt8 :: bytesOfNat n (x / 256)

/-- The eight bytes of a word, lowest first. -/
def bytesOfWord (x : UInt64) : List UInt8 := bytesOfNat 8 x.toNat

/-- Feed one word into a lane. -/
def round (lane word : UInt64) : UInt64 := rotateLeft (lane + word * prime2) 31 * prime1

/-- The four running lanes over the stripes of a long input. -/
structure Lanes where
  a : UInt64
  b : UInt64
  c : UInt64
  d : UInt64

namespace Lanes

def start (seed : UInt64) : Lanes where
  a := seed + prime1 + prime2
  b := seed + prime2
  c := seed
  d := seed - prime1

def feed (l : Lanes) (stripe : List UInt8) : Lanes where
  a := round l.a (wordOfBytes (stripe.take 8))
  b := round l.b (wordOfBytes ((stripe.drop 8).take 8))
  c := round l.c (wordOfBytes ((stripe.drop 16).take 8))
  d := round l.d (wordOfBytes ((stripe.drop 24).take 8))

def merge (acc lane : UInt64) : UInt64 := (acc ^^^ round 0 lane) * prime1 + prime4

def finish (l : Lanes) : UInt64 :=
  let acc := rotateLeft l.a 1 + rotateLeft l.b 7 + rotateLeft l.c 12 + rotateLeft l.d 18
  merge (merge (merge (merge acc l.a) l.b) l.c) l.d

end Lanes

/-- Feed every full stripe of 32 bytes; gives the lanes and the bytes left over. -/
def stripes (l : Lanes) (bytes : List UInt8) : Lanes × List UInt8 :=
  if 32 ≤ bytes.length then stripes (l.feed (bytes.take 32)) (bytes.drop 32) else (l, bytes)
termination_by bytes.length
decreasing_by simp; omega

/-- Mix in the bytes left over after the stripes. -/
def tail (acc : UInt64) (bytes : List UInt8) : UInt64 :=
  if 8 ≤ bytes.length then
    let mixed := acc ^^^ round 0 (wordOfBytes (bytes.take 8))
    tail (rotateLeft mixed 27 * prime1 + prime4) (bytes.drop 8)
  else if 4 ≤ bytes.length then
    let mixed := acc ^^^ (wordOfBytes (bytes.take 4) * prime1)
    tail (rotateLeft mixed 23 * prime2 + prime3) (bytes.drop 4)
  else
    match bytes with
    | [] => acc
    | b :: rest =>
      let mixed := acc ^^^ (b.toUInt64 * prime5)
      tail (rotateLeft mixed 11 * prime1) rest
termination_by bytes.length
decreasing_by
  · simp; omega
  · simp; omega
  · simp

def avalanche (h : UInt64) : UInt64 :=
  let h := (h ^^^ (h >>> 33)) * prime2
  let h := (h ^^^ (h >>> 29)) * prime3
  h ^^^ (h >>> 32)

/-- The 64-bit digest of `bytes` under `seed`. -/
def hash (seed : UInt64) (bytes : List UInt8) : UInt64 :=
  let (lanes, rest) := stripes (Lanes.start seed) bytes
  let acc := if 32 ≤ bytes.length then lanes.finish else seed + prime5
  avalanche (tail (acc + bytes.length.toUInt64) rest)

end SemanticAnalysis.Digest
