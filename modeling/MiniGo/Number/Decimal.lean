import MiniGo.Number.Binary64

/-!
Decimal text of double-precision numbers. Reading rounds the exact value of the text once; writing
takes the fewest digits that read back.
-/
namespace MiniGo.Decimal

def isDigit (c : Char) : Bool := '0' ≤ c && c ≤ '9'

def digitValue (c : Char) : Nat := c.toNat - 48

def digitsValue (ds : List Char) : Nat := ds.foldl (fun n d => 10 * n + digitValue d) 0

def natural? (cs : List Char) : Option Nat :=
  if !cs.isEmpty && cs.all isDigit then some (digitsValue cs) else none

/-- The double nearest to `coefficient * 10 ^ exponent`. Past the powers of ten in the first two
tests every value is infinite or zero, so the large powers are never formed. -/
def nearest (negative : Bool) (coefficient : Nat) (exponent : Int) : Binary64 :=
  let top := exponent + (Nat.toDigits 10 coefficient).length
  if coefficient = 0 then .ofRatio negative 0 1
  else if 310 < top then .infinite negative
  else if top < -330 then .ofRatio negative 0 1
  else .ofRatio negative (coefficient * Nat.pow 10 exponent.toNat) (Nat.pow 10 (-exponent).toNat)

def splitSign : List Char → Bool × List Char
  | '-' :: cs => (true, cs)
  | '+' :: cs => (false, cs)
  | cs => (false, cs)

def exponent? : List Char → Option Int
  | [] => some 0
  | c :: cs =>
    if c = 'e' || c = 'E' then
      let (negative, ds) := splitSign cs
      (natural? ds).map fun n => if negative then -(n : Int) else n
    else none

/-- Digits with an optional point among, before or after them, and an optional exponent. -/
def unsigned? (negative : Bool) (cs : List Char) : Option Binary64 :=
  let whole := cs.takeWhile isDigit
  let afterWhole := cs.dropWhile isDigit
  let (fraction, rest) := match afterWhole with
    | '.' :: ds => (ds.takeWhile isDigit, ds.dropWhile isDigit)
    | ds => ([], ds)
  if whole.isEmpty && fraction.isEmpty then none
  else (exponent? rest).map fun e =>
    nearest negative (digitsValue (whole ++ fraction)) (e - fraction.length)

/-- The names of the values that no digits denote, in any mixture of cases. -/
def named? (negative : Bool) (cs : List Char) : Option Binary64 :=
  let name := String.ofList (cs.map Char.toLower)
  if name = "inf" || name = "infinity" then some (.infinite negative)
  else if name = "nan" then some (.nan negative)
  else none

def parse? (s : String) : Option Binary64 :=
  let (negative, cs) := splitSign s.toList
  (unsigned? negative cs).or (named? negative cs)

/-- The exponent of the leading decimal digit of a positive number of units. -/
def leadingExponent (units : Nat) : Int :=
  if Nat.pow 2 1074 ≤ units then (Nat.toDigits 10 (units / Nat.pow 2 1074)).length - 1
  else -(Nat.toDigits 10 ((Nat.pow 2 1074 + units - 1) / units - 1)).length

/-- The reals that round to a finite magnitude, in quarters of a unit, and whether the two ends
belong to them. Below a power of two the neighbour is nearer than above it. -/
structure Interval where
  low : Nat
  middle : Nat
  high : Nat
  closed : Bool

def interval (x : Binary64) : Interval :=
  let gap := Nat.pow 2 x.scale
  let below := if x.significand = Nat.pow 2 52 && x.scale != 0 then gap else 2 * gap
  ⟨4 * x.units - below, 4 * x.units, 4 * x.units + 2 * gap, x.significand % 2 == 0⟩

/-- Of the two multiples of `10 ^ place` around the middle of an interval, the nearer one that the
interval holds, as a coefficient. A tie goes to the even coefficient. -/
def onGrid? (i : Interval) (place : Int) : Option Nat :=
  let factor := Nat.pow 10 (-place).toNat
  let step := Nat.pow 10 place.toNat * Nat.pow 2 1076
  let low := i.middle * factor / step
  let holds (c : Nat) : Bool :=
    if i.closed then i.low * factor ≤ c * step && c * step ≤ i.high * factor
    else i.low * factor < c * step && c * step < i.high * factor
  let lowGap := i.middle * factor - low * step
  let highGap := (low + 1) * step - i.middle * factor
  let lowNearer := lowGap < highGap || (lowGap == highGap && low % 2 == 0)
  match holds low, holds (low + 1) with
  | true, true => some (if lowNearer then low else low + 1)
  | true, false => some low
  | false, true => some (low + 1)
  | false, false => none

/-- Coefficient and exponent of the shortest decimal that reads back as a finite number other than
zero; seventeen digits always suffice. A coefficient of ten is one at the next place. -/
def shortest (x : Binary64) : Nat × Int :=
  let top := leadingExponent x.units
  let found := (List.range 17).findSome? fun (n : Nat) =>
    (onGrid? (interval x) (top - n)).map fun c => (c, top - n)
  match found with
  | some (c, e) => if c % 10 = 0 then (c / 10, e + 1) else (c, e)
  | none => (0, 0)

/-- Digits with a point `point` places after the first of them. Positions from four zeros after the
point to sixteen digits before it are written out, all others with an exponent and its sign. -/
def layout (digits : List Char) (point : Int) : List Char :=
  let count : Int := digits.length
  if count ≤ point && point ≤ 16 then
    digits ++ List.replicate (point - count).toNat '0' ++ ['.', '0']
  else if 0 < point && point ≤ 16 then
    digits.take point.toNat ++ '.' :: digits.drop point.toNat
  else if -5 < point && point ≤ 0 then
    ['0', '.'] ++ List.replicate (-point).toNat '0' ++ digits
  else
    let mantissa := match digits with
      | [] => []
      | [d] => [d]
      | d :: ds => d :: '.' :: ds
    let power := point - 1
    mantissa ++ 'e' :: (if power < 0 then '-' else '+') :: Nat.toDigits 10 power.natAbs

/-- The text of a finite number. It always has a point or an exponent, so that it differs from the
text of every integer. -/
def text (x : Binary64) : List Char :=
  let sign := if x.isNegative then ['-'] else []
  if x.isZero then sign ++ ['0', '.', '0']
  else
    let (coefficient, exponent) := shortest x
    let digits := Nat.toDigits 10 coefficient
    sign ++ layout digits (digits.length + exponent)

end MiniGo.Decimal
