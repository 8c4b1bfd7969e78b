/-!
# Sources of time

Time is a number of milliseconds in 64 bits. A source either stands still or goes on by a fixed step
at each reading, and starts again at zero beyond the largest number.
-/

namespace LogicSim

/-- A source of time. -/
inductive TimeSource where
  | fixed (now : UInt64)
  | stepped (next step : UInt64)
  deriving DecidableEq, Repr

namespace TimeSource

/-- The time, and the source after the reading. -/
def read : TimeSource → UInt64 × TimeSource
  | .fixed now => (now, .fixed now)
  | .stepped next step => (next, .stepped (next + step) step)

/-- Successive readings. -/
def readings : Nat → TimeSource → List UInt64
  | 0, _ => []
  | n + 1, source =>
    let (now, source) := source.read
    now :: readings n source

@[simp] theorem length_readings (n : Nat) (source : TimeSource) :
    (readings n source).length = n := by
  induction n generalizing source with
  | zero => rfl
  | succ n ih => simp [readings, ih]

end TimeSource

end LogicSim
