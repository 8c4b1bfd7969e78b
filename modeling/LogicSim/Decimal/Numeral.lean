/-!
# Reading numbers

A number is written as digits, with at most one point and at most one exponent
(`Decimal.Numeral`). Without a point and an exponent it is a whole number as long as it fits into
64 bits, signed or unsigned (`Decimal.Number`). Any other number is a double, read in double
arithmetic: as many digits as fit into 64 bits form a whole number, which is then scaled by a power
of ten. A number of more than nineteen digits, or one with a large exponent, therefore need not
become the nearest double.
-/

namespace LogicSim.Decimal

/-- A written number. -/
structure Numeral where
  negative : Bool
  /-- the digits before the point -/
  whole : List Nat
  /-- the digits after the point, if there is one -/
  fraction : Option (List Nat)
  exponent : Option Int
  deriving DecidableEq, Repr

/-- The value of a number: a whole number of 64 bits, or a double. -/
inductive Number where
  | whole (n : Int)
  | double (x : Float)

/-- A number as a double. -/
def Number.toFloat : Number → Float
  | .whole n => Float.ofInt n
  | .double x => x

/-- The largest whole number read. -/
def maxWhole : Nat := UInt64.size - 1

/-- Appends digits to a whole number as long as it stays within `maxWhole`. The digits from the
    first that does not fit are left. -/
def appendDigits : Nat → List Nat → Nat × List Nat
  | n, [] => (n, [])
  | n, d :: ds => if n * 10 + d ≤ maxWhole then appendDigits (n * 10 + d) ds else (n, d :: ds)

/-- A power of ten; exact powers up to 308 have a nearest double. -/
def tenPower (k : Nat) : Float := Float.ofScientific 1 false k

/-- A double times a power of ten; none when the result is too large. -/
def scaleUp? (x : Float) (k : Nat) : Option Float :=
  if k ≤ 308 then
    let y := x * tenPower k
    if y.isInf then none else some y
  else if x == 0 then some 0
  else none

/-- A double below `2 ^ 64` over a power of ten, in steps of at most `10 ^ 308`. After two full
    steps nothing is left. -/
def scaleDown (x : Float) (k : Nat) : Float :=
  if k ≤ 308 then x / tenPower k
  else if k ≤ 616 then x / tenPower 308 / tenPower (k - 308)
  else 0

/-- `digits · 10 ^ exponent` as a double; none when it is too large. -/
def scale? (digits : Nat) (exponent : Int) : Option Float :=
  if 0 ≤ exponent then scaleUp? (Float.ofNat digits) exponent.toNat
  else some (scaleDown (Float.ofNat digits) (-exponent).toNat)

/-- The value of a number; none when it is too large for a double. The number zero with a minus
    sign is a double, since no whole number is. -/
def Numeral.value? (n : Numeral) : Option Number :=
  let (digits, dropped) := appendDigits 0 n.whole
  let signed (x : Float) : Number := .double (if n.negative then -x else x)
  match n.fraction, n.exponent with
  | none, none =>
    if !dropped.isEmpty then (scale? digits dropped.length).map signed
    else if !n.negative then some (.whole digits)
    else if digits = 0 || Nat.pow 2 63 < digits then some (signed (Float.ofNat digits))
    else some (.whole (-digits))
  | fraction, exponent =>
    let places := fraction.getD []
    let (digits, unread) := appendDigits digits places
    let shift : Int := dropped.length - (places.length - unread.length : Nat)
    (scale? digits (shift + exponent.getD 0)).map signed

end LogicSim.Decimal
