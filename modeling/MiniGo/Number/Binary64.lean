/-!
IEEE 754 double precision as exact integer arithmetic. A finite number is a whole number of units
of `2 ^ (-1074)`, and every operation here is one rounding of an exact quotient of integers.
-/
namespace MiniGo

structure Binary64 where
  bits : UInt64
deriving DecidableEq, Repr

namespace Binary64

/-- The pattern of infinity; the patterns of finite magnitudes lie below it in the order of their
values, the patterns of NaN above it. -/
def infinityBits : Nat := 0x7FF * Nat.pow 2 52

/-- The integer nearest to a quotient, a half going to the even neighbour. -/
def roundDiv (num den : Nat) : Nat :=
  let q := num / den
  let r := num % den
  if 2 * r < den then q else if den < 2 * r then q + 1 else q + q % 2

/-- The pattern of the double nearest to `num / den`. `shift` is the least scale at which the
significand fits in 53 bits; a significand that rounds up to `2 ^ 53` carries into the exponent by
itself, and what lies past the largest double is infinite. -/
def magnitudeBits (num den : Nat) : Nat :=
  let shift := (num * Nat.pow 2 1074 / den).log2 - 52
  min (shift * Nat.pow 2 52 + roundDiv (num * Nat.pow 2 1074) (den * Nat.pow 2 shift)) infinityBits

def ofRatio (negative : Bool) (num den : Nat) : Binary64 :=
  ⟨UInt64.ofNat (magnitudeBits num den + if negative then Nat.pow 2 63 else 0)⟩

def zero : Binary64 := ⟨0⟩

def infinite (negative : Bool) : Binary64 :=
  ⟨UInt64.ofNat (infinityBits + if negative then Nat.pow 2 63 else 0)⟩

def nan (negative : Bool) : Binary64 :=
  ⟨UInt64.ofNat (infinityBits + Nat.pow 2 51 + if negative then Nat.pow 2 63 else 0)⟩

def isNegative (x : Binary64) : Bool := Nat.pow 2 63 ≤ x.bits.toNat

def magnitude (x : Binary64) : Nat := x.bits.toNat % Nat.pow 2 63

def isFinite (x : Binary64) : Bool := x.magnitude < infinityBits

def isNaN (x : Binary64) : Bool := infinityBits < x.magnitude

def isZero (x : Binary64) : Bool := x.magnitude == 0

def significand (x : Binary64) : Nat :=
  if x.magnitude / Nat.pow 2 52 = 0 then x.magnitude else x.magnitude % Nat.pow 2 52 + Nat.pow 2 52

def scale (x : Binary64) : Nat := x.magnitude / Nat.pow 2 52 - 1

/-- The magnitude of a finite number in units of `2 ^ (-1074)`. -/
def units (x : Binary64) : Nat := x.significand * Nat.pow 2 x.scale

/-- Equality of values: the two zeros agree and NaN equals nothing. -/
def sameValue (x y : Binary64) : Bool :=
  !x.isNaN && !y.isNaN && (x.bits == y.bits || (x.isZero && y.isZero))

def mul (x y : Binary64) : Binary64 :=
  ofRatio (x.isNegative != y.isNegative) (x.units * y.units) (Nat.pow 2 2148)

def div (x y : Binary64) : Binary64 :=
  ofRatio (x.isNegative != y.isNegative) x.units y.units

def neg (x : Binary64) : Binary64 := ⟨x.bits ^^^ 0x8000000000000000⟩

end Binary64

end MiniGo
