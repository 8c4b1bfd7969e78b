/-!
# Blank characters

The characters of the Unicode property `White_Space`, and the removal of blanks at the two ends
of a text. The property is wider than the blanks core knows: it includes the line and paragraph
separators, the no-break spaces and the spaces of fixed width, but not the zero-width ones.
-/

namespace LogicSim.Text

/-- The code points of the property, as closed ranges in increasing order. -/
def blankRanges : List (Nat × Nat) :=
  [(0x09, 0x0D), (0x20, 0x20), (0x85, 0x85), (0xA0, 0xA0), (0x1680, 0x1680), (0x2000, 0x200A),
   (0x2028, 0x2029), (0x202F, 0x202F), (0x205F, 0x205F), (0x3000, 0x3000)]

/-- Whether a character is blank. -/
def isBlank (c : Char) : Bool :=
  blankRanges.any fun r => decide (r.1 ≤ c.toNat ∧ c.toNat ≤ r.2)

/-- The property counts twenty-five characters. -/
example : (blankRanges.map fun r => r.2 + 1 - r.1).foldr (· + ·) 0 = 25 := by decide

/-- A text without the blanks at its two ends. -/
def trim (cs : List Char) : List Char :=
  ((cs.dropWhile isBlank).reverse.dropWhile isBlank).reverse

end LogicSim.Text
