import MiniGo.Json
import MiniGo.Number.Decimal

/-!
Numbers of JSON text. The digits that fit in 64 bits make the significand; a number with a fraction,
an exponent or further digits is the significand rounded to double precision and then scaled by a
power of ten, which rounds a second time. A number past the largest double is an error.
-/
namespace MiniGo.Json
open Decimal (isDigit digitValue digitsValue)

/-- A number as it is written: digits before the point, digits after it, exponent. -/
structure NumberText where
  negative : Bool
  whole : List Char
  fraction : Option (List Char)
  exponent : Option Int

/-- Extends a number by the digits that keep it below `2 ^ 64` and counts the digits left over. -/
def extend (n : Nat) : List Char → Nat × Nat
  | [] => (n, 0)
  | d :: ds =>
    if 10 * n + digitValue d < Nat.pow 2 64 then extend (10 * n + digitValue d) ds
    else (n, ds.length + 1)

def powerOfTen (n : Nat) : Binary64 := .ofRatio false (Nat.pow 10 n) 1

/-- A significand scaled by a power of ten. Powers past `10 ^ 308` are no doubles: upwards they are
out of range, downwards the scaling takes two steps, and after two full ones nothing is left. -/
def scaled? (significand : Nat) (exponent : Int) : Option Binary64 :=
  let x := Binary64.ofRatio false significand 1
  if 308 < exponent then if x.isZero then some x else none
  else if 0 ≤ exponent then
    let y := x.mul (powerOfTen exponent.toNat)
    if y.isFinite then some y else none
  else if -308 ≤ exponent then some (x.div (powerOfTen (-exponent).toNat))
  else if -616 ≤ exponent then
    some ((x.div (powerOfTen 308)).div (powerOfTen (-exponent - 308).toNat))
  else some .zero

def NumberText.value? (t : NumberText) : Option Json :=
  let (whole, dropped) := extend 0 t.whole
  if t.fraction.isNone && t.exponent.isNone && dropped == 0 then
    some (if t.negative then .real (.ofRatio true whole 1) else .natural (UInt64.ofNat whole))
  else
    let fraction := t.fraction.getD []
    let (significand, unused) := extend whole fraction
    let shift : Int := (dropped : Int) - (fraction.length - unused : Nat)
    (scaled? significand (shift + t.exponent.getD 0)).map fun x =>
      .real (if t.negative then x.neg else x)

def fraction? : List Char → Option (Option (List Char) × List Char)
  | '.' :: cs =>
    let ds := cs.takeWhile isDigit
    if ds.isEmpty then none else some (some ds, cs.dropWhile isDigit)
  | cs => some (none, cs)

def exponent? : List Char → Option (Option Int × List Char)
  | [] => some (none, [])
  | c :: cs =>
    if c = 'e' || c = 'E' then
      let (negative, rest) := Decimal.splitSign cs
      let ds := rest.takeWhile isDigit
      let n : Int := digitsValue ds
      if ds.isEmpty then none
      else some (some (if negative then -n else n), rest.dropWhile isDigit)
    else some (none, c :: cs)

/-- The number at the start of a text, and the rest. A leading zero stands alone. -/
def numberText? (cs : List Char) : Option (NumberText × List Char) := do
  let (negative, cs) := match cs with
    | '-' :: cs => (true, cs)
    | cs => (false, cs)
  let whole := cs.takeWhile isDigit
  if whole.isEmpty || (whole.head? == some '0' && whole.length != 1) then none
  let (fraction, cs) ← fraction? (cs.dropWhile isDigit)
  let (exponent, cs) ← exponent? cs
  return (⟨negative, whole, fraction, exponent⟩, cs)

end MiniGo.Json
