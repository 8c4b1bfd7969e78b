/-!
# The fewest digits that read back

A finite double denotes a whole number of units in the last place, `mantissa · 2 ^ exponent`
(`Decimal.Binary`). The reals that round to it form an interval around it, whose ends belong to it
when the mantissa is even. `Decimal.shortest` gives the decimal in that interval with the fewest
digits, and of those with that many digits the nearest: for `1, 2, …, 17` digits it looks at the
two neighbours of the value on that decimal grid, in exact arithmetic on natural numbers. No other
point of a grid can do better: if any lies in the interval, one of the two neighbours does.
-/

namespace LogicSim.Decimal

/-! ## 1. The value of a double -/

/-- A positive double, `mantissa · 2 ^ exponent`. Below a power of two the doubles are twice as
    dense as above it; `narrow` tells that the value is such a power. -/
structure Binary where
  mantissa : Nat
  exponent : Int
  narrow : Bool
  deriving DecidableEq, Repr

/-- What the bits of a double say besides its sign. -/
inductive Magnitude where
  | finite (b : Binary)
  | infinite
  | notANumber
  deriving DecidableEq, Repr

/-- Reads the bits of a double: 52 bits of fraction under 11 bits of biased exponent. -/
def magnitude (bits : Nat) : Magnitude :=
  let fraction : Nat := bits % Nat.pow 2 52
  let biased : Nat := bits / Nat.pow 2 52 % Nat.pow 2 11
  if biased = 2047 then
    if fraction = 0 then .infinite else .notANumber
  else if biased = 0 then .finite ⟨fraction, -1074, false⟩
  else .finite ⟨fraction + Nat.pow 2 52, (biased : Int) - 1075, fraction = 0 && 1 < biased⟩

/-- Whether the bits of a double carry the minus sign. -/
def isNegative (bits : Nat) : Bool := bits / Nat.pow 2 63 % 2 = 1

/-! ## 2. Decimals -/

/-- A decimal, `digits · 10 ^ exponent`. -/
structure Scaled where
  digits : Nat
  exponent : Int
  deriving DecidableEq, Repr

/-- Which of two equally near decimals is taken. -/
inductive Tie where
  | toEven
  | up
  deriving DecidableEq, Repr

/-- How many decimal digits a number has; zero has one. -/
def digitCount (n : Nat) : Nat := (Nat.toDigits 10 n).length

/-- A double in quarters of its last place, over a common denominator: the value and the two ends
    of the interval of reals that round to it. -/
structure Interval where
  low : Nat
  value : Nat
  high : Nat
  denominator : Nat
  closed : Bool

/-- The interval of a positive double. -/
def Binary.interval (b : Binary) : Interval :=
  let unit := Nat.pow 2 b.exponent.toNat
  { low := (4 * b.mantissa - if b.narrow then 1 else 2) * unit
    value := 4 * b.mantissa * unit
    high := (4 * b.mantissa + 2) * unit
    denominator := 4 * Nat.pow 2 (-b.exponent).toNat
    closed := b.mantissa % 2 = 0 }

/-- The number of digits before the point, negative when zeros follow the point:
    the value lies in `[10 ^ (k - 1), 10 ^ k)`. No double lies below `10 ^ (-400)`. -/
def Interval.leading (v : Interval) : Int :=
  (digitCount (v.value * Nat.pow 10 400 / v.denominator) : Int) - 400

/-- The better of the value's two neighbours among the multiples of `10 ^ exponent`, if the
    interval holds one of them. -/
def Interval.neighbour? (tie : Tie) (v : Interval) (exponent : Int) : Option Scaled :=
  let step := v.denominator * Nat.pow 10 exponent.toNat
  let scale := Nat.pow 10 (-exponent).toNat
  let below := v.value * scale / step
  let inside (c : Nat) : Bool :=
    if v.closed then v.low * scale ≤ c * step && c * step ≤ v.high * scale
    else v.low * scale < c * step && c * step < v.high * scale
  let rest := 2 * (v.value * scale - below * step)
  let above :=
    rest > step || rest = step && (tie = .up || below % 2 = 1)
  match inside below, inside (below + 1) with
  | false, false => none
  | true, false => some ⟨below, exponent⟩
  | false, true => some ⟨below + 1, exponent⟩
  | true, true => some ⟨if above then below + 1 else below, exponent⟩

/-- The first hit among the grids with `digits, digits + 1, …` digits, at most `fuel` of them. -/
def Interval.search (tie : Tie) (v : Interval) (leading : Int) : Nat → Nat → Option Scaled
  | _, 0 => none
  | digits, fuel + 1 =>
    (v.neighbour? tie (leading - digits)).or (v.search tie leading (digits + 1) fuel)

/-- A decimal without zeros at its end. -/
def Scaled.normal (fuel : Nat) (d : Scaled) : Scaled :=
  match fuel with
  | 0 => d
  | fuel + 1 =>
    if d.digits ≠ 0 && d.digits % 10 = 0 then
      Scaled.normal fuel ⟨d.digits / 10, d.exponent + 1⟩
    else d

/-- The nearest decimal with the fewest digits that reads back as the given double. Seventeen
    digits always suffice. -/
def shortest (tie : Tie) (b : Binary) : Scaled :=
  if b.mantissa = 0 then ⟨0, 0⟩
  else
    let v := b.interval
    let found := (v.search tie v.leading 1 17).getD ⟨0, 0⟩
    found.normal (digitCount found.digits)

end LogicSim.Decimal
