import LogicSim.Circuit.Samples

/-!
# Random circuits

Circuits without loops, drawn at random: every gate reads inputs and gates drawn before it. The
draws come from a source that is a parameter; of the source nothing is assumed but that it gives
numbers, which are reduced to the range asked for. `Circuit.seeded?` draws from a seed by
`seededSource`, which only stands in for the generator of the simulator: that one draws other numbers
from the same seed.
-/

namespace LogicSim

/-! ## 1. Draws -/

/-- A source of draws with states `σ`. -/
structure DrawSource (σ : Type) where
  next : σ → Nat × σ

/-- A draw below a bound that is not zero. -/
def DrawSource.below {σ : Type} (source : DrawSource σ) (bound : Nat) : StateM σ Nat := fun s =>
  let (n, s) := source.next s
  (n % bound, s)

/-- A list in a drawn order: each element is put at a drawn place among those that come after
    it. -/
def DrawSource.shuffle {σ α : Type} (source : DrawSource σ) : List α → StateM σ (List α)
  | [] => pure []
  | a :: rest => do
    let rest ← source.shuffle rest
    let place ← source.below (rest.length + 1)
    return rest.insertIdx place a

/-! ## 2. Circuits -/

namespace Circuit

/-- The combinational kinds drawn. -/
def drawnKinds : List Kind := [.and, .or, .xor, .nand, .nor, .not, .mux]

/-- All kinds drawn. -/
def drawnSequentialKinds : List Kind := drawnKinds ++ [.flipFlop, .latch]

/-- A gate drawn, and the number of its outputs. -/
abbrev DrawnSignal := GateId × Nat

/-- A drawn wire: source, output pin, destination and input pin. -/
abbrev DrawnWire := GateId × Nat × GateId × Nat

/-- Wires to the input pins of a gate from `pin` on, `count` of them, each from a drawn output of a
    drawn signal. -/
def drawWires {σ : Type} (source : DrawSource σ) (signals : List DrawnSignal) (gate : GateId)
    (pin : Nat) : Nat → StateM σ (List DrawnWire)
  | 0 => pure []
  | count + 1 => do
    let i ← source.below signals.length
    let (driver, outputCount) := signals.getD i ("", 0)
    let k ← source.below outputCount
    return (driver, k, gate, pin) :: (← drawWires source signals gate (pin + 1) count)

/-- Drawn gates from number `i` on, `count` of them, with their wires and all signals. -/
def drawGates {σ : Type} (source : DrawSource σ) (kinds : List Kind) (i : Nat) :
    Nat → List DrawnSignal →
    StateM σ (List (Gate Definition) × List DrawnWire × List DrawnSignal)
  | 0, signals => pure ([], [], signals)
  | count + 1, signals => do
    let kind := kinds.getD (← source.below kinds.length) .not
    let g := Gate.new s!"g{i}" kind
    let wires ← drawWires source signals g.id 0 kind.inputCount
    let (gates, more, signals) ←
      drawGates source kinds (i + 1) count (signals ++ [(g.id, kind.outputCount)])
    return (g :: gates, wires ++ more, signals)

/-- Input gates from number `i` on, `count` of them, with drawn signals. -/
def drawInputs {σ : Type} (source : DrawSource σ) (i : Nat) :
    Nat → StateM σ (List (Gate Definition))
  | 0 => pure []
  | count + 1 => do
    let value ← source.below 2
    return .input s!"i{i}" (value = 1) :: (← drawInputs source (i + 1) count)

/-- The clock of a random circuit: one hertz, from time zero. -/
def drawnClock : Gate Definition :=
  let g := Gate.clock "clk" 1
  { g with metadata := { g.metadata with startTime := some 0 } }

/-- A random circuit with inputs `i0, i1, …`, a clock `clk` if `clocked`, gates `g0, g1, …` and an
    output `o` that shows the last of them. The gates come in a drawn order. -/
def draw {σ : Type} (source : DrawSource σ) (kinds : List Kind) (clocked : Bool)
    (inputCount gateCount : Nat) : StateM σ (Circuit Definition) := do
  let inputs ← drawInputs source 0 inputCount
  let first := inputs ++ if clocked then [drawnClock] else []
  let (gates, wires, signals) ←
    drawGates source kinds 0 gateCount (first.map fun g => (g.id, 1))
  let last := match signals.getLast? with
    | some (id, _) => [(id, 0, "o", 0)]
    | none => []
  let gates ← source.shuffle (first ++ gates ++ [.new "o" .output])
  return Circuit.connectAll { gates } (wires ++ last)

/-- Draws from a seed, by a linear congruence modulo `2 ^ 64` of which the high half is used. -/
def seededSource : DrawSource UInt64 where
  next s :=
    let s := s * 6364136223846793005 + 1442695040888963407
    ((s >>> 32).toNat, s)

/-- A random circuit from a seed; with flip-flops, latches and a clock if `sequential`. There is
    none without inputs. -/
def seeded? (sequential : Bool) (inputCount gateCount : Nat) (seed : UInt64) :
    Option (Circuit Definition) :=
  if inputCount = 0 then none
  else
    let kinds := if sequential then drawnSequentialKinds else drawnKinds
    some (draw seededSource kinds sequential inputCount gateCount seed).1

end Circuit

end LogicSim
