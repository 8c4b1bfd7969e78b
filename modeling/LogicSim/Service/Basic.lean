import LogicSim.Evaluator
import LogicSim.Service.Config
import LogicSim.Service.Failure
import LogicSim.Service.Time

/-!
# The evaluation service

A service evaluates circuits under a configuration, reads the time once per call and counts the
calls that succeed. A call returns its outcome together with the service after it: the time moves on
as soon as the circuit has been accepted, the counts only if the call succeeds.

* `Service.evaluate`: one pass in the mode of the configuration.
* `Service.step`: one delayed pass.
* `Service.settle`: delayed passes until nothing changes.

The time that a call takes is not modelled: no call runs out of time.
-/

namespace LogicSim

/-! ## 1. Services and responses -/

/-- What a service has counted. -/
structure Statistics where
  /-- calls that succeeded -/
  calls : Nat := 0
  /-- passes of those calls -/
  passes : Nat := 0
  /-- the mode of the latest of them -/
  lastStrategy : Option Strategy := none
  deriving DecidableEq, Repr

/-- The average time of a call. -/
def averageTime (calls : Nat) (total : Float) : Float :=
  if calls = 0 then 0 else total / Float.ofNat calls

/-- A service. -/
structure Service where
  config : Config := {}
  time : TimeSource
  statistics : Statistics := {}
  deriving DecidableEq, Repr

/-- Numbers about a call. -/
structure CallInfo where
  /-- the gates of the circuit, at all levels -/
  gateCount : Nat
  wireCount : Nat
  passes : Nat
  /-- whether the circuit was left changing -/
  changed : Bool
  deriving DecidableEq, Repr

/-- The outcome of a call that succeeded. -/
structure Response where
  circuit : Circuit Definition
  strategy : Strategy
  info : CallInfo
  warnings : List Warning

/-- A call that was accepted. -/
structure Call where
  instant : Instant
  state : Settling Expansion

namespace Service

/-- Accepts a circuit that is valid and not too large, and reads the time. -/
def start (s : Service) (c : Circuit Definition) : Except Failure (Call × Service) :=
  match c.netlist s.config.deepest with
  | .error problems => .error (.invalidCircuit problems)
  | .ok net =>
    let size := net.size
    if size > s.config.gateLimit then .error (.tooLarge size s.config.gateLimit)
    else
      let (now, time) := s.time.read
      .ok (⟨⟨now, s.config.settleLimit⟩, { netlist := net }⟩, { s with time })

/-- A service that has counted one more call. -/
def record (s : Service) (strategy : Strategy) (passes : Nat) : Service :=
  { s with statistics :=
      { calls := s.statistics.calls + 1
        passes := s.statistics.passes + passes
        lastStrategy := some strategy } }

/-- Ends a call: the state goes back to the circuit, and the call is counted. -/
def finish (s : Service) (c : Circuit Definition) (state : Settling Expansion) (strategy : Strategy)
    (changed : Bool) : Response × Service :=
  ({ circuit := state.netlist.writeBack c
     strategy
     info :=
       { gateCount := state.netlist.size
         wireCount := c.wires.length
         passes := state.passes
         changed }
     warnings := state.warnings }, s.record strategy state.passes)

/-- A single pass as the state of a call. -/
def ofSweep (sweep : Sweep Expansion) : Settling Expansion :=
  { netlist := sweep.netlist, warnings := sweep.warnings, passes := 1, settled := !sweep.changed }

/-- Carries out a call if the circuit is accepted. A circuit that is refused leaves the service as
    it was; a call that fails later has read the time. -/
def call {α : Type} (s : Service) (c : Circuit Definition)
    (body : Call → Service → Except Failure (α × Service)) : Except Failure α × Service :=
  match s.start c with
  | .error failure => (.error failure, s)
  | .ok (call, s) => match body call s with
    | .error failure => (.error failure, s)
    | .ok (a, s) => (.ok a, s)

/-! ## 2. Calls -/

/-- One pass in the mode of the configuration. An automatic call is immediate unless there is a
    combinational cycle; an immediate one fails then. -/
def evaluate (s : Service) (c : Circuit Definition) : Except Failure Response × Service :=
  s.call c fun call s =>
    let net := call.state.netlist
    let delayed :=
      let sweep := net.delayed Expansion.react call.instant
      s.finish c (ofSweep sweep) .delayed sweep.changed
    let immediate (schedule : Schedule) :=
      let sweep := net.immediate Expansion.react schedule call.instant
      s.finish c (ofSweep sweep) .immediate sweep.changed
    match s.config.strategy, net.dependencies.schedule with
    | .delayed, _ => .ok delayed
    | .auto, .error _ => .ok delayed
    | .auto, .ok schedule => .ok (immediate schedule)
    | .immediate, .ok schedule => .ok (immediate schedule)
    | .immediate, .error cycle =>
      .error (.strategyFailed Strategy.immediate.name [net.cycleProblem cycle])

/-- One delayed pass. -/
def step (s : Service) (c : Circuit Definition) : Except Failure Response × Service :=
  s.call c fun call s =>
    let sweep := call.state.netlist.delayed Expansion.react call.instant
    .ok (s.finish c (ofSweep sweep) .delayed sweep.changed)

/-- Delayed passes until nothing changes. It fails if something still changes after as many passes
    as the configuration allows. -/
def settle (s : Service) (c : Circuit Definition) : Except Failure Response × Service :=
  s.call c fun call s =>
    let state := call.state.run Expansion.react call.instant s.config.settleLimit
    if state.settled then .ok (s.finish c state .delayed false)
    else .error (.oscillation s.config.settleLimit)

end Service

end LogicSim
