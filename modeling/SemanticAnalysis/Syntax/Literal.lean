/-!
# Literals

Literal values of the source. Floating values are kept as the bits of their IEEE format, so that
nothing depends on how numbers are printed or read.
-/

namespace SemanticAnalysis

/-- The bits of a 64-bit IEEE number. -/
structure Binary64 where
  bits : UInt64
deriving DecidableEq, Repr, Inhabited

/-- The bits of a 32-bit IEEE number. -/
structure Binary32 where
  bits : UInt32
deriving DecidableEq, Repr, Inhabited

/-- `n / 2 ^ k` rounded to the nearest number, a half to the even one. -/
def roundShift (n k : Nat) : Nat :=
  let quotient := n >>> k
  let rest := n - (quotient <<< k)
  let half := 1 <<< (k - 1)
  if k == 0 then n
  else if half < rest || (rest == half && quotient % 2 == 1) then quotient + 1
  else quotient

namespace Binary64

/-- Zero with its sign set. -/
def negativeZero : Binary64 := ⟨(1 : UInt64) <<< 63⟩

/-- The bits of the nearest number to `n`, without a sign. -/
def magnitudeOfNat (n : Nat) : Nat :=
  let top := Nat.log2 n
  if n == 0 then 0
  else if top ≤ 52 then ((top + 1023) <<< 52) + ((n <<< (52 - top)) % (1 <<< 52))
  else
    -- a carry out of the fraction moves into the exponent
    min (((top + 1022) <<< 52) + roundShift n (top - 52)) (2047 <<< 52)

/-- The nearest number to an integer, a half going to the even neighbour. -/
def ofInt (i : Int) : Binary64 :=
  ⟨((if i < 0 then 1 <<< 63 else 0) + magnitudeOfNat i.natAbs).toUInt64⟩

/-- The nearest 32-bit number, a half going to the even neighbour. Too large numbers become infinite,
and a number that is none stays one. -/
def narrow (x : Binary64) : Binary32 :=
  let n := x.bits.toNat
  let sign := n >>> 63
  let exponent := (n >>> 52) % 2048
  let fraction := n % (1 <<< 52)
  let magnitude :=
    if exponent == 2047 then
      if fraction == 0 then 255 <<< 23 else (255 <<< 23) + (1 <<< 22) ||| (fraction >>> 29)
    else if 896 < exponent then
      -- a carry out of the fraction moves into the exponent, at the top into infinity
      min (((exponent - 896) <<< 23) + roundShift fraction 29) (255 <<< 23)
    else
      -- below the normal range the leading bit becomes explicit
      let significand := if exponent == 0 then fraction else fraction + (1 <<< 52)
      roundShift significand (29 + (897 - max exponent 1))
  ⟨((sign <<< 31) + magnitude).toUInt32⟩

end Binary64

namespace Binary32

/-- The 64-bit number of the same value. -/
def widen (x : Binary32) : Binary64 :=
  let n := x.bits.toNat
  let sign := n >>> 31
  let exponent := (n >>> 23) % 256
  let fraction := n % (1 <<< 23)
  let magnitude :=
    if exponent == 255 then
      if fraction == 0 then 2047 <<< 52 else (2047 <<< 52) + ((fraction ||| (1 <<< 22)) <<< 29)
    else if exponent == 0 then
      if fraction == 0 then 0
      else
        -- a number below the normal 32-bit range is normal in 64 bits
        let top := Nat.log2 fraction
        ((top + 874) <<< 52) + ((fraction <<< (52 - top)) % (1 <<< 52))
    else ((exponent + 896) <<< 52) + (fraction <<< 29)
  ⟨((sign <<< 63) + magnitude).toUInt64⟩

end Binary32

/-- A literal value. -/
inductive Literal where
  | int (value : Int)
  | float (value : Binary32)
  | double (value : Binary64)
  | bool (value : Bool)
  | string (value : String)
  | null
deriving DecidableEq, Repr, Inhabited

/-- `null` is the only literal without a value of its own. -/
def Literal.isNull : Literal → Bool
  | null => true
  | _ => false

end SemanticAnalysis
