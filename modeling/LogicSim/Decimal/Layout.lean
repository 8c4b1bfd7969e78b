import LogicSim.Decimal.Shortest

/-!
# How a double is written

The digits of a double are those of `Decimal.shortest`; where the point stands, whether an exponent
is written and how, is the `Decimal.Layout` of the text. Two layouts are in use: `Layout.json` for
documents, and `Layout.plain` for messages.
-/

namespace LogicSim.Decimal

/-- The decisions of a text about the numbers in it. -/
structure Layout where
  /-- which of two equally near decimals is written -/
  tie : Tie
  /-- the powers of ten of the leading digit, from the first and before the second, that are
      written without an exponent; `none` means all of them -/
  positional : Option (Int × Int)
  /-- whether a whole number keeps `.0` -/
  keepsPoint : Bool
  /-- the text of infinity, which a minus sign may precede -/
  infinite : String
  notANumber : String

/-- Documents: whole numbers keep `.0`, an exponent appears from `1e16` on and below `1e-5`, with
    its sign; what is not a number is `null`. -/
def Layout.json : Layout := ⟨.toEven, some (-5, 16), true, "null", "null"⟩

/-- Messages: never an exponent, and nothing after the last digit. -/
def Layout.plain : Layout := ⟨.up, none, false, "inf", "NaN"⟩

/-- The digits without an exponent: `digits · 10 ^ exponent`, with the point where it belongs. -/
def Layout.point (l : Layout) (digits : List Char) (exponent : Int) : List Char :=
  let before := (digits.length : Int) + exponent
  if 0 ≤ exponent then
    digits ++ List.replicate exponent.toNat '0' ++ if l.keepsPoint then ['.', '0'] else []
  else if before ≤ 0 then
    '0' :: '.' :: List.replicate (-before).toNat '0' ++ digits
  else digits.take before.toNat ++ '.' :: digits.drop before.toNat

/-- The digits with an exponent, after the first of them a point unless it is the only one. -/
def Layout.scientific (digits : List Char) (power : Int) : List Char :=
  let head := match digits with
    | [] => []
    | [d] => [d]
    | d :: ds => d :: '.' :: ds
  let sign := if power < 0 then '-' else '+'
  head ++ 'e' :: sign :: Nat.toDigits 10 power.natAbs

/-- A decimal in a layout, without a sign. -/
def Layout.unsigned (l : Layout) (d : Scaled) : List Char :=
  let digits := Nat.toDigits 10 d.digits
  let power := (digits.length : Int) - 1 + d.exponent
  match l.positional with
  | none => l.point digits d.exponent
  | some (first, past) =>
    if first ≤ power && power < past then l.point digits d.exponent
    else Layout.scientific digits power

/-- A double, given by its bits, in a layout. Infinity has a sign only where it has a text of its
    own. -/
def Layout.writeBits (l : Layout) (bits : Nat) : String :=
  let sign := if isNegative bits then "-" else ""
  match magnitude bits with
  | .notANumber => l.notANumber
  | .infinite => if l.infinite = l.notANumber then l.infinite else sign ++ l.infinite
  | .finite b => sign ++ String.ofList (l.unsigned (shortest l.tie b))

/-- A double in a layout. -/
def Layout.write (l : Layout) (x : Float) : String := l.writeBits x.toBits.toNat

end LogicSim.Decimal
