/-!
# Wires

A wire joins an output pin of one gate to an input pin of another. Its two ends are written with a
signed pin index: output `k` is `-k - 1` (a source may also give `k` itself), input `k` is `k`.
-/

namespace LogicSim

/-- The identifier of a gate. -/
abbrev GateId := String

/-- The identifier of a wire. -/
abbrev WireId := String

/-- One end of a wire. -/
structure Endpoint where
  gate : GateId
  index : Int32
  deriving DecidableEq, Repr

namespace Endpoint

/-- The end at an output pin. The index is computed in 32 bits. -/
def output (gate : GateId) (pin : Nat) : Endpoint := ⟨gate, -(Int32.ofNat pin) - 1⟩

/-- The end at an input pin. The index is kept to 32 bits. -/
def input (gate : GateId) (pin : Nat) : Endpoint := ⟨gate, Int32.ofNat pin⟩

/-- The output pin that a source denotes. -/
def outputPin (e : Endpoint) : Nat :=
  if e.index < 0 then (-(e.index.toInt + 1)).toNat else e.index.toInt.toNat

/-- The input pin that a destination denotes, if its index is not negative. -/
def inputPin? (e : Endpoint) : Option Nat :=
  if e.index < 0 then none else some e.index.toInt.toNat

/-- A pin that 32 bits hold is the input pin that its end denotes. -/
theorem inputPin?_input (gate : GateId) {pin : Nat} (h : pin ≤ Int32.maxValue.toInt) :
    (input gate pin).inputPin? = some pin := by
  rw [Int32.toInt_maxValue] at h
  have hp : (Int32.ofNat pin).toInt = pin := Int32.toInt_ofNat_of_lt (by omega)
  have hn : ¬ Int32.ofNat pin < 0 := by
    rw [Int32.lt_iff_toInt_lt, hp]
    simp
  simp [inputPin?, input, hn, hp]

/-- A pin that 32 bits hold is the output pin that its end denotes. -/
theorem outputPin_output (gate : GateId) {pin : Nat} (h : pin ≤ Int32.maxValue.toInt) :
    (output gate pin).outputPin = pin := by
  rw [Int32.toInt_maxValue] at h
  have hp : (Int32.ofNat pin).toInt = pin := Int32.toInt_ofNat_of_lt (by omega)
  have hneg : (-(Int32.ofNat pin)).toInt = -(pin : Int) := by
    rw [Int32.toInt_neg, hp]
    exact Int.bmod_eq_of_le (by omega) (by omega)
  have hi : (-(Int32.ofNat pin) - 1).toInt = -(pin : Int) - 1 := by
    rw [Int32.toInt_sub, hneg, Int32.toInt_one]
    exact Int.bmod_eq_of_le (by omega) (by omega)
  have hn : -(Int32.ofNat pin) - 1 < 0 := by
    rw [Int32.lt_iff_toInt_lt, hi]
    simp
    omega
  simp only [outputPin, output, hn, if_true, hi]
  omega

/-- An end in a message. -/
def text (e : Endpoint) : String := s!"{e.gate}[{e.index.toInt}]"

end Endpoint

/-- A wire. -/
structure Wire where
  id : WireId
  source : Endpoint
  sink : Endpoint
  /-- the signal carried after the last pass -/
  isActive : Bool := false
  deriving DecidableEq, Repr

/-- Whether a wire ends at an input pin of a gate. -/
def Wire.drives (w : Wire) (gate : GateId) (pin : Nat) : Bool :=
  w.sink.gate = gate && w.sink.inputPin? = some pin

/-- A wire in a message. -/
def Wire.text (w : Wire) : String := s!"{w.id}: {w.source.text} -> {w.sink.text}"

end LogicSim
