import LogicSim.Circuit.Basic

/-!
# Sample circuits

Small circuits to try things on: two combinational ones, two latches, a ring of inverters and a
flip-flop that toggles.
-/

namespace LogicSim.Circuit

/-- Several wires, in order: each joins an output pin to an input pin. -/
def connectAll (c : Circuit Definition) (ends : List (GateId × Nat × GateId × Nat)) :
    Circuit Definition :=
  ends.foldl (fun c (source, sourcePin, sink, sinkPin) => c.connect source sourcePin sink sinkPin) c

/-! ## 1. Combinational circuits -/

/-- Adds the bits `A` and `B`: `SUM` and `CARRY` are shown by `S` and `C`. -/
def halfAdder (a b : Bool) : Circuit Definition :=
  Circuit.connectAll
    { gates := [.input "A" a, .input "B" b, .new "SUM" .xor, .new "CARRY" .and,
        .new "S" .output, .new "C" .output] }
    [("A", 0, "SUM", 0), ("B", 0, "SUM", 1), ("A", 0, "CARRY", 0), ("B", 0, "CARRY", 1),
      ("SUM", 0, "S", 0), ("CARRY", 0, "C", 0)]

/-- Decodes the number with the low bit `A` and the high bit `B`: of the outputs `Y0` to `Y3` the
    one of that number is high. -/
def decoder (a b : Bool) : Circuit Definition :=
  Circuit.connectAll
    { gates := [.input "A" a, .input "B" b, .new "NA" .not, .new "NB" .not,
        .new "D0" .and, .new "D1" .and, .new "D2" .and, .new "D3" .and,
        .new "Y0" .output, .new "Y1" .output, .new "Y2" .output, .new "Y3" .output] }
    [("A", 0, "NA", 0), ("B", 0, "NB", 0),
      ("NA", 0, "D0", 0), ("NB", 0, "D0", 1), ("A", 0, "D1", 0), ("NB", 0, "D1", 1),
      ("NA", 0, "D2", 0), ("B", 0, "D2", 1), ("A", 0, "D3", 0), ("B", 0, "D3", 1),
      ("D0", 0, "Y0", 0), ("D1", 0, "Y1", 0), ("D2", 0, "Y2", 0), ("D3", 0, "Y3", 0)]

/-! ## 2. Circuits with feedback or memory -/

/-- The name of an inverter of a ring. -/
def ringName (i : Nat) : GateId := s!"N{i}"

/-- A ring of inverters, the first of which is shown by `O`. In delayed passes a ring of odd length
    oscillates. There is no ring without inverters. -/
def ring? (length : Nat) : Option (Circuit Definition) :=
  if length = 0 then none
  else
    some <| Circuit.connectAll
      { gates := (List.range length).map (fun i => .new (ringName i) .not) ++ [.new "O" .output] }
      ((List.range length).map (fun i => (ringName i, 0, ringName ((i + 1) % length), 0))
        ++ [(ringName 0, 0, "O", 0)])

/-- A latch `L` set by `S` and reset by `R`, shown by `Q` and `QN`. -/
def latch (s r : Bool) : Circuit Definition :=
  Circuit.connectAll
    { gates := [.input "S" s, .input "R" r, .new "L" .latch, .new "Q" .output, .new "QN" .output] }
    [("S", 0, "L", 0), ("R", 0, "L", 1), ("L", 0, "Q", 0), ("L", 1, "QN", 0)]

/-- A latch made of two gates `N1` and `N2` that inhibit each other. -/
def crossedLatch (s r : Bool) : Circuit Definition :=
  Circuit.connectAll
    { gates := [.input "S" s, .input "R" r, .new "N1" .nor, .new "N2" .nor] }
    [("R", 0, "N1", 0), ("N2", 0, "N1", 1), ("S", 0, "N2", 0), ("N1", 0, "N2", 1)]

/-- A flip-flop that stores its own complement at each rise of the clock `CLK`, shown by `Q`. -/
def toggle (frequency : Float) : Circuit Definition :=
  Circuit.connectAll
    { gates := [.clock "CLK" frequency, .new "FF" .flipFlop, .new "INV" .not, .new "Q" .output] }
    [("FF", 0, "INV", 0), ("INV", 0, "FF", 0), ("CLK", 0, "FF", 1), ("FF", 0, "Q", 0)]

end LogicSim.Circuit
