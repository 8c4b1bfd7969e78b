import LogicSim.Circuit.Complexity
import LogicSim.Document.Circuit
import LogicSim.Service.ClockCycle

/-!
# Documents of the service

Configurations and requests for clock cycles in both directions; problems, warnings and the numbers
about a circuit as they are written.
-/

namespace LogicSim

/-! ## 1. Writing -/

/-- A configuration. -/
def Config.toJson (c : Config) : Json :=
  .object [("strategy", .string c.strategy.name), ("maxSettleIterations", .ofNat c.settleLimit),
    ("timeoutMs", .ofNat c.timeLimit.toNat), ("maxGates", .ofNat c.gateLimit),
    ("maxCustomDepth", .ofNat c.deepest)]

/-- A request for a clock cycle. -/
def CycleRequest.toJson (r : CycleRequest) : Json :=
  .object [("clockId", .string r.clock), ("maxIterations", .ofNat r.passLimit)]

/-- The category of a problem. -/
def ProblemKind.toJson (k : ProblemKind) : Json := .string k.name

/-- A problem. -/
def Problem.toJson (p : Problem) : Json :=
  let tagged (members : List (String × Json)) : Json := .object (("type", p.kind.toJson) :: members)
  match p with
  | .invalidGate gate message => tagged [("gateId", .string gate), ("message", .string message)]
  | .invalidWire wire message => tagged [("wireId", .string wire), ("message", .string message)]
  | .circularDependency cycle => tagged [("cycle", .array (cycle.map .string))]
  | .missingDependency wire gate => tagged [("wireId", .string wire), ("gateId", .string gate)]
  | .evaluationError gate message =>
    tagged [("gateId", .string gate), ("message", .string message)]

/-- A warning; a category that is absent is left out. -/
def Warning.toJson (w : Warning) : Json :=
  .present [("gateId", some (Json.ofOption .string w.gate)), ("code", w.kind.map (·.toJson)),
    ("message", some (.string w.message))]

/-- Size and structure of a circuit. -/
def Complexity.toJson (k : Complexity) : Json :=
  .object [("nbGates", .ofNat k.gateCount), ("nbWires", .ofNat k.wireCount),
    ("nbCustom", .ofNat k.customCount), ("hasCycles", .bool k.hasCycles),
    ("cycleGates", .array (k.cycleGates.map .string)), ("hasClock", .bool k.hasClock),
    ("hasDff", .bool k.hasFlipFlop), ("hasLatch", .bool k.hasLatch), ("maxDepth", .ofNat k.depth)]

/-! ## 2. Reading -/

namespace Decoder

/-- The fields of a configuration read so far. -/
structure ConfigFields where
  strategy : Option Strategy := none
  settleLimit : Option Nat := none
  timeLimit : Option UInt64 := none
  gateLimit : Option Nat := none
  deepest : Option Nat := none

/-- A configuration; a field that is missing has its default. -/
def config : Decoder Config :=
  record ["strategy", "maxSettleIterations", "timeoutMs", "maxGates", "maxCustomDepth"]
    (fun levels name d (c : ConfigFields) => match name with
      | "strategy" =>
        field (choice Strategy.ofName?) levels d c.strategy fun v => { c with strategy := v }
      | "maxSettleIterations" =>
        field natural levels d c.settleLimit fun v => { c with settleLimit := v }
      | "timeoutMs" => field uint64 levels d c.timeLimit fun v => { c with timeLimit := v }
      | "maxGates" => field natural levels d c.gateLimit fun v => { c with gateLimit := v }
      | "maxCustomDepth" => field natural levels d c.deepest fun v => { c with deepest := v }
      | _ => none)
    {} fun c =>
      let standard : Config := {}
      some
        { strategy := c.strategy.getD standard.strategy
          settleLimit := c.settleLimit.getD standard.settleLimit
          timeLimit := c.timeLimit.getD standard.timeLimit
          gateLimit := c.gateLimit.getD standard.gateLimit
          deepest := c.deepest.getD standard.deepest }

/-- The fields of a request for a clock cycle read so far. -/
structure CycleRequestFields where
  clock : Option GateId := none
  passLimit : Option Nat := none

/-- A request for a clock cycle. -/
def cycleRequest : Decoder CycleRequest :=
  record ["clockId", "maxIterations"]
    (fun levels name d (r : CycleRequestFields) => match name with
      | "clockId" => field string levels d r.clock fun v => { r with clock := v }
      | "maxIterations" => field natural levels d r.passLimit fun v => { r with passLimit := v }
      | _ => none)
    {} fun r => do return ⟨← r.clock, ← r.passLimit⟩

end Decoder

/-- The circuit of a document for the service; a document that cannot be read is a failure. The
    reason given is the signal that cannot be decoded, if that is the reason. -/
def Circuit.forService (s : String) : Except Failure (Circuit Definition) :=
  (Circuit.ofDocument s).mapError fun e => .malformed (e.text?.getD "not a circuit")

end LogicSim
