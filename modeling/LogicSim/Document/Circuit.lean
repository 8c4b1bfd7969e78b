import LogicSim.Circuit.Basic
import LogicSim.Document.Decoder

/-!
# Circuit documents

The records of a circuit document in both directions: `toJson` writes every field except absent
ones that may be absent, in the order of declaration; the decoder reads it back. Signals are written
as booleans.
-/

namespace LogicSim

open Json (Draft)

/-! ## 1. Writing -/

/-- The members of an object that are present. -/
def Json.present (members : List (String × Option Json)) : Json :=
  .object (members.filterMap fun (key, v) => v.map (key, ·))

/-- A list of signals. -/
def Signal.toJson (signals : List Bool) : Json := .array (signals.map .bool)

/-- The kind of a gate. -/
def Kind.toJson (k : Kind) : Json := .string k.tag

/-- A position. -/
def Position.toJson (p : Position) : Json := .object [("x", .ofFloat p.x), ("y", .ofFloat p.y)]

/-- The end of a wire. -/
def Endpoint.toJson (e : Endpoint) : Json :=
  .object [("gateId", .string e.gate), ("pinIndex", .ofInt e.index.toInt)]

/-- A wire. -/
def Wire.toJson (w : Wire) : Json :=
  .object [("id", .string w.id), ("from", w.source.toJson), ("to", w.sink.toJson),
    ("isActive", .bool w.isActive)]

/-- The metadata of a gate, given how definitions are written. -/
def Metadata.toJson {δ : Type} (definition : δ → Json) (m : Metadata δ) : Json :=
  .present [
    ("label", m.label.map .string),
    ("isRunning", m.isRunning.map .bool),
    ("frequency", m.frequency.map .ofFloat),
    ("startTime", m.startTime.map fun t => .ofNat t.toNat),
    ("previousClockState", m.previousClock.map .bool),
    ("qOutput", m.q.map .bool),
    ("qBarOutput", m.qBar.map .bool),
    ("customGate", m.definition.map definition)]

/-- A gate, given how definitions are written. -/
def Gate.toJson {δ : Type} (definition : δ → Json) (g : Gate δ) : Json :=
  .object [("id", .string g.id), ("type", g.kind.toJson), ("position", g.position.toJson),
    ("inputs", Signal.toJson g.inputs), ("outputs", Signal.toJson g.outputs),
    ("metadata", g.metadata.toJson definition)]

/-- A circuit, given how definitions are written. -/
def Circuit.toJsonWith {δ : Type} (definition : δ → Json) (c : Circuit δ) : Json :=
  .object [("gates", .array (c.gates.map (Gate.toJson definition))),
    ("wires", .array (c.wires.map Wire.toJson))]

/-- A pin of a custom gate. -/
def Pin.toJson (p : Pin) : Json :=
  .present [("name", some (.string p.name)), ("gateId", p.gate.map .string),
    ("pinIndex", some (.ofInt p.index.toInt))]

/-- The rows of a truth table. -/
def Rows.toJson (rows : Rows) : Json := .object (rows.map fun row => (row.1, .string row.2))

/-- The contents of a definition, given how the definitions inside are written. -/
def Body.toJson {δ : Type} (definition : δ → Json) (b : Body δ) : Json :=
  .present [
    ("name", some (.string b.name)),
    ("inputs", some (.array (b.inputs.map Pin.toJson))),
    ("outputs", some (.array (b.outputs.map Pin.toJson))),
    ("internalCircuit", b.circuit.map (Circuit.toJsonWith definition)),
    ("truthTable", b.rows.map Rows.toJson)]

/-- A definition. -/
def Definition.toJson : Definition → Json := Definition.fold (Body.toJson id)

/-- A circuit. -/
def Circuit.toJson (c : Circuit Definition) : Json := c.toJsonWith Definition.toJson

/-- The document of a circuit. -/
def Circuit.document (c : Circuit Definition) : String := c.toJson.pretty

/-! ## 2. Reading -/

namespace Decoder

/-- The kind of a gate. -/
def kind : Decoder Kind := choice fun name => some (Kind.ofTag name)

/-- The fields of a position read so far. -/
structure PositionFields where
  x : Option Float := none
  y : Option Float := none

/-- A position. -/
def position : Decoder Position :=
  record ["x", "y"]
    (fun levels name d (p : PositionFields) => match name with
      | "x" => field float levels d p.x fun v => { p with x := v }
      | "y" => field float levels d p.y fun v => { p with y := v }
      | _ => none)
    {} fun p => do return ⟨← p.x, ← p.y⟩

/-- The fields of a wire end read so far. -/
structure EndpointFields where
  gate : Option GateId := none
  index : Option Int32 := none

/-- The end of a wire. -/
def endpoint : Decoder Endpoint :=
  record ["gateId", "pinIndex"]
    (fun levels name d (e : EndpointFields) => match name with
      | "gateId" => field string levels d e.gate fun v => { e with gate := v }
      | "pinIndex" => field int32 levels d e.index fun v => { e with index := v }
      | _ => none)
    {} fun e => do return ⟨← e.gate, ← e.index⟩

/-- The fields of a wire read so far. -/
structure WireFields where
  id : Option WireId := none
  source : Option Endpoint := none
  sink : Option Endpoint := none
  isActive : Option Bool := none

/-- A wire. -/
def wire : Decoder Wire :=
  record ["id", "from", "to", "isActive"]
    (fun levels name d (w : WireFields) => match name with
      | "id" => field string levels d w.id fun v => { w with id := v }
      | "from" => field endpoint levels d w.source fun v => { w with source := v }
      | "to" => field endpoint levels d w.sink fun v => { w with sink := v }
      | "isActive" => field bool levels d w.isActive fun v => { w with isActive := v }
      | _ => none)
    {} fun w => do return ⟨← w.id, ← w.source, ← w.sink, w.isActive.getD false⟩

/-- The fields of metadata read so far. A field that is `null` has been read. -/
structure MetadataFields (δ : Type) where
  label : Option (Option String) := none
  isRunning : Option (Option Bool) := none
  frequency : Option (Option Float) := none
  startTime : Option (Option UInt64) := none
  previousClock : Option (Option Bool) := none
  q : Option (Option Bool) := none
  qBar : Option (Option Bool) := none
  definition : Option (Option δ) := none

/-- The metadata of a gate, given a decoder of definitions. -/
def metadata {δ : Type} (definition : Decoder δ) : Decoder (Metadata δ) :=
  record ["label", "isRunning", "frequency", "startTime", "previousClockState", "qOutput",
      "qBarOutput", "customGate"]
    (fun levels name d (m : MetadataFields δ) => match name with
      | "label" => field (optional string) levels d m.label fun v => { m with label := v }
      | "isRunning" =>
        field (optional bool) levels d m.isRunning fun v => { m with isRunning := v }
      | "frequency" =>
        field (optional float) levels d m.frequency fun v => { m with frequency := v }
      | "startTime" =>
        field (optional uint64) levels d m.startTime fun v => { m with startTime := v }
      | "previousClockState" =>
        field (optional signal) levels d m.previousClock fun v => { m with previousClock := v }
      | "qOutput" => field (optional signal) levels d m.q fun v => { m with q := v }
      | "qBarOutput" => field (optional signal) levels d m.qBar fun v => { m with qBar := v }
      | "customGate" =>
        field (optional definition) levels d m.definition fun v => { m with definition := v }
      | _ => none)
    {} fun m => some
      { label := m.label.join
        isRunning := m.isRunning.join
        frequency := m.frequency.join
        startTime := m.startTime.join
        previousClock := m.previousClock.join
        q := m.q.join
        qBar := m.qBar.join
        definition := m.definition.join }

/-- The fields of a gate read so far. -/
structure GateFields (δ : Type) where
  id : Option GateId := none
  kind : Option Kind := none
  position : Option Position := none
  inputs : Option (List Bool) := none
  outputs : Option (List Bool) := none
  metadata : Option (Metadata δ) := none

/-- A gate, given a decoder of definitions. Its kind is the field `type` or `kind`. -/
def gate {δ : Type} (definition : Decoder δ) : Decoder (Gate δ) :=
  record ["id", "type", "position", "inputs", "outputs", "metadata"]
    (fun levels name d (g : GateFields δ) => match name with
      | "id" => field string levels d g.id fun v => { g with id := v }
      | "type" | "kind" => field kind levels d g.kind fun v => { g with kind := v }
      | "position" => field position levels d g.position fun v => { g with position := v }
      | "inputs" => field signals levels d g.inputs fun v => { g with inputs := v }
      | "outputs" => field signals levels d g.outputs fun v => { g with outputs := v }
      | "metadata" =>
        field (metadata definition) levels d g.metadata fun v => { g with metadata := v }
      | _ => none)
    {} fun g => do
      return ⟨← g.id, ← g.kind, g.position.getD {}, g.inputs.getD [], g.outputs.getD [],
        g.metadata.getD {}⟩

/-- The fields of a circuit read so far. -/
structure CircuitFields (δ : Type) where
  gates : Option (List (Gate δ)) := none
  wires : Option (List Wire) := none

/-- A circuit, given a decoder of definitions. -/
def circuitOf {δ : Type} (definition : Decoder δ) : Decoder (Circuit δ) :=
  record ["gates", "wires"]
    (fun levels name d (c : CircuitFields δ) => match name with
      | "gates" => field (list (gate definition)) levels d c.gates fun v => { c with gates := v }
      | "wires" => field (list wire) levels d c.wires fun v => { c with wires := v }
      | _ => none)
    {} fun c => some ⟨c.gates.getD [], c.wires.getD []⟩

/-- The fields of a pin read so far. -/
structure PinFields where
  name : Option String := none
  gate : Option (Option GateId) := none
  index : Option Int32 := none

/-- A pin of a custom gate. -/
def pin : Decoder Pin :=
  record ["name", "gateId", "pinIndex"]
    (fun levels name d (p : PinFields) => match name with
      | "name" => field string levels d p.name fun v => { p with name := v }
      | "gateId" => field (optional string) levels d p.gate fun v => { p with gate := v }
      | "pinIndex" => field int32 levels d p.index fun v => { p with index := v }
      | _ => none)
    {} fun p => do return ⟨← p.name, p.gate.join, p.index.getD (-1)⟩

/-- The rows of a truth table. -/
def rows : Decoder Rows := stringObject Rows.put []

/-- The fields of a definition read so far. -/
structure BodyFields (δ : Type) where
  name : Option String := none
  inputs : Option (List Pin) := none
  outputs : Option (List Pin) := none
  circuit : Option (Option (Circuit δ)) := none
  rows : Option (Option Rows) := none

/-- The contents of a definition, given a decoder of the definitions inside. -/
def body {δ : Type} (definition : Decoder δ) : Decoder (Body δ) :=
  record ["name", "inputs", "outputs", "internalCircuit", "truthTable"]
    (fun levels name d (b : BodyFields δ) => match name with
      | "name" => field string levels d b.name fun v => { b with name := v }
      | "inputs" => field (list pin) levels d b.inputs fun v => { b with inputs := v }
      | "outputs" => field (list pin) levels d b.outputs fun v => { b with outputs := v }
      | "internalCircuit" =>
        field (optional (circuitOf definition)) levels d b.circuit fun v => { b with circuit := v }
      | "truthTable" => field (optional rows) levels d b.rows fun v => { b with rows := v }
      | _ => none)
    {} fun b => do
      return ⟨← b.name, ← b.inputs, ← b.outputs, b.circuit.join, b.rows.join⟩

/-- A definition within which definitions nest less than `depth` deep. -/
def definitionWithin : Nat → Decoder Definition
  | 0 => fun _ _ => .error .malformed
  | depth + 1 => fun levels d => (body (definitionWithin depth) levels d).map .mk

/-- A definition. Since each of the definitions inside takes several containers, the bound on
    containers is also one on definitions. -/
def definition : Decoder Definition := fun levels d => definitionWithin (levels + 1) levels d

/-- A circuit. -/
def circuit : Decoder (Circuit Definition) := circuitOf definition

end Decoder

/-- The circuit of a document. -/
def Circuit.ofDocument (s : String) : Except DocumentError (Circuit Definition) :=
  Decoder.circuit.text s

end LogicSim
