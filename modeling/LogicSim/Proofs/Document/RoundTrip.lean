import LogicSim.Circuit.Samples
import LogicSim.Proofs.Document.Restoring

/-!
# A circuit is what its document says

The document of a circuit is read as the same circuit (`Circuit.ofDocument_document`): fields that
are absent are not written and come back absent, and fields with a default are always written.

Three things are asked of a circuit: its doubles, which are positions and frequencies, read back
(`Circuit.doubles`); its truth tables have their rows in order (`Circuit.tables`); and its document
has no more containers one inside the other than a document may have (`Json.nesting`). They concern
all levels of custom gates.

* `Definition.fold_comp` -- two recursions over definitions that agree at each level agree;
* `Definition.toJson_mk` -- what is written at each level;
* `Decoder.restores_circuitOf` -- a circuit is restored if the definitions inside it are;
* `Decoder.restores_definitionWithin` -- so are definitions, by the number of levels left.
-/

namespace LogicSim

/-! ## 1. Recursion over definitions -/

/-- The contents of a definition with what is inside mapped to another type. -/
def Body.map {δ ε : Type} (f : δ → ε) (b : Body δ) : Body ε :=
  ⟨b.name, b.inputs, b.outputs, b.circuit.map (Circuit.mapDefinitions f), b.rows⟩

namespace Definition

variable {α β : Type} {h : α → β} {f : Body α → α} {g : Body β → β}

mutual

/-- **Recursions that agree at each level agree.** -/
theorem fold_comp (hfg : ∀ b : Body α, h (f b) = g (b.map h)) :
    ∀ d : Definition, h (fold f d) = fold g d
  | .mk ⟨_, _, _, circuit, _⟩ => by
    rw [fold, fold, hfg, Body.map, foldCircuit_comp hfg circuit]

theorem foldCircuit_comp (hfg : ∀ b : Body α, h (f b) = g (b.map h)) :
    ∀ c : Option (Circuit Definition),
      (foldCircuit f c).map (Circuit.mapDefinitions h) = foldCircuit g c
  | none => rfl
  | some ⟨gates, _⟩ => by
    rw [foldCircuit, foldCircuit, Option.map_some, Circuit.mapDefinitions, foldGates_comp hfg gates]

theorem foldGates_comp (hfg : ∀ b : Body α, h (f b) = g (b.map h)) :
    ∀ gates : List (Gate Definition),
      (foldGates f gates).map (Gate.mapDefinition h) = foldGates g gates
  | [] => rfl
  | ⟨_, _, _, _, _, ⟨_, _, _, _, _, _, _, definition⟩⟩ :: rest => by
    rw [foldGates, foldGates, List.map_cons, foldGates_comp hfg rest, Gate.mapDefinition,
      foldInner_comp hfg definition]

theorem foldInner_comp (hfg : ∀ b : Body α, h (f b) = g (b.map h)) :
    ∀ d : Option Definition, (foldInner f d).map h = foldInner g d
  | none => rfl
  | some d => by
    rw [foldInner, foldInner, Option.map_some, fold_comp hfg d]

end

end Definition

/-! ## 2. What is inside a circuit -/

/-- The doubles of a circuit, given those of the definitions inside: the positions of the gates, and
    their frequencies. -/
def Circuit.doublesWith {δ : Type} (inside : δ → List Float) (c : Circuit δ) : List Float :=
  c.gates.flatMap fun g => [g.position.x, g.position.y] ++
    (g.metadata.frequency.toList ++ (g.metadata.definition.map inside).getD [])

/-- The doubles of a definition. -/
def Definition.doubles : Definition → List Float :=
  fold fun b => (b.circuit.map (Circuit.doublesWith id)).getD []

/-- **The doubles of a circuit**, at all levels. -/
def Circuit.doubles (c : Circuit Definition) : List Float := c.doublesWith Definition.doubles

theorem Circuit.doublesWith_mapDefinitions {δ ε : Type} (f : δ → ε) (inside : ε → List Float)
    (c : Circuit δ) : (c.mapDefinitions f).doublesWith inside = c.doublesWith (inside ∘ f) := by
  rw [doublesWith, doublesWith, mapDefinitions, List.flatMap_map]
  refine List.flatMap_congr fun g _ => ?_
  dsimp only [Gate.mapDefinition]
  rw [Option.map_map]

/-- The truth tables inside a circuit, given those of the definitions inside. -/
def Circuit.tablesWith {δ : Type} (inside : δ → List Rows) (c : Circuit δ) : List Rows :=
  c.gates.flatMap fun g => (g.metadata.definition.map inside).getD []

/-- The truth tables of a definition. -/
def Definition.tables : Definition → List Rows :=
  fold fun b => b.rows.toList ++ (b.circuit.map (Circuit.tablesWith id)).getD []

/-- **The truth tables inside a circuit**, at all levels. -/
def Circuit.tables (c : Circuit Definition) : List Rows := c.tablesWith Definition.tables

theorem Circuit.tablesWith_mapDefinitions {δ ε : Type} (f : δ → ε) (inside : ε → List Rows)
    (c : Circuit δ) : (c.mapDefinitions f).tablesWith inside = c.tablesWith (inside ∘ f) := by
  rw [tablesWith, tablesWith, mapDefinitions, List.flatMap_map]
  refine List.flatMap_congr fun g _ => ?_
  dsimp only [Gate.mapDefinition]
  rw [Option.map_map]

/-- **The tables of a definition** are its own and those inside its circuit. -/
theorem Definition.tables_eq (d : Definition) :
    d.tables = d.body.rows.toList ++ (d.body.circuit.map Circuit.tables).getD [] := by
  obtain ⟨b⟩ := d
  rw [tables, fold_mk, body]
  dsimp only
  rw [Option.map_map]
  refine congrArg (b.rows.toList ++ ·.getD []) (congrArg (Option.map · b.circuit) ?_)
  exact funext fun c => c.tablesWith_mapDefinitions _ _

/-- The tables of a definition inside a circuit are tables of the circuit. -/
theorem Circuit.mem_tables {c : Circuit Definition} {g : Gate Definition} (hg : g ∈ c.gates)
    {d : Definition} (hd : g.metadata.definition = some d) {rows : Rows} (h : rows ∈ d.tables) :
    rows ∈ c.tables :=
  List.mem_flatMap.mpr ⟨g, hg, by rwa [hd]⟩

/-! ## 3. What is written -/

theorem Gate.toJson_mapDefinition {δ ε : Type} (f : δ → ε) (write : ε → Json) (g : Gate δ) :
    (g.mapDefinition f).toJson write = g.toJson (write ∘ f) := by
  rw [Gate.toJson, Gate.toJson, Metadata.toJson, Metadata.toJson]
  dsimp only [Gate.mapDefinition]
  rw [Option.map_map]

theorem Circuit.toJsonWith_mapDefinitions {δ ε : Type} (f : δ → ε) (write : ε → Json)
    (c : Circuit δ) : (c.mapDefinitions f).toJsonWith write = c.toJsonWith (write ∘ f) := by
  rw [toJsonWith, toJsonWith, mapDefinitions, List.map_map]
  dsimp only
  rw [show Gate.toJson write ∘ Gate.mapDefinition f = Gate.toJson (write ∘ f) from
    funext fun g => g.toJson_mapDefinition f write]

/-- **A definition is written with the definitions inside it.** -/
theorem Definition.toJson_mk (b : Body Definition) :
    Definition.toJson (.mk b) = b.toJson Definition.toJson := by
  rw [Definition.toJson, fold_mk, Body.toJson, Body.toJson]
  dsimp only
  rw [Option.map_map]
  rw [show Circuit.toJsonWith id ∘ Circuit.mapDefinitions (fold (Body.toJson id)) =
    Circuit.toJsonWith (fold (Body.toJson id)) from
      funext fun c => c.toJsonWith_mapDefinitions _ _]

namespace Json

@[simp] theorem doubles_object (members : List (String × Json)) :
    (Json.object members).doubles = members.flatMap fun m => m.2.doubles := by
  rw [doubles, memberDoubles_eq]

@[simp] theorem doubles_array (items : List Json) :
    (Json.array items).doubles = items.flatMap doubles := by
  rw [doubles, itemDoubles_eq]

/-- What is written without doubles has none. -/
theorem flatMap_doubles_eq_nil {α : Type} {write : α → Json} (h : ∀ a, (write a).doubles = [])
    (l : List α) : (l.map write).flatMap doubles = [] := by
  rw [List.flatMap_map]
  exact List.flatMap_eq_nil_iff.mpr fun a _ => h a

/-- The doubles of members that may be absent. -/
theorem doubles_present (members : List (String × Option Json)) :
    (Json.present members).doubles = members.flatMap fun m => (m.2.map doubles).getD [] := by
  rw [present, doubles_object]
  induction members with
  | nil => rfl
  | cons m members ih =>
    obtain ⟨key, v⟩ := m
    cases v with
    | none => exact ih
    | some v => exact congrArg (v.doubles ++ ·) ih

end Json

theorem Wire.doubles_toJson (w : Wire) : w.toJson.doubles = [] := by
  rw [Wire.toJson, Json.doubles_object]
  simp only [List.flatMap_cons, List.flatMap_nil, Endpoint.toJson, Json.doubles_object]
  rfl

theorem Pin.doubles_toJson (p : Pin) : p.toJson.doubles = [] := by
  rw [Pin.toJson, Json.doubles_present]
  cases p.gate <;> rfl

theorem Rows.doubles_toJson (rows : Rows) : (Rows.toJson rows).doubles = [] := by
  rw [Rows.toJson, Json.doubles_object, List.flatMap_map]
  exact List.flatMap_eq_nil_iff.mpr fun _ _ => rfl

theorem Signal.doubles_toJson (signals : List Bool) : (Signal.toJson signals).doubles = [] := by
  rw [Signal.toJson, Json.doubles_array]
  exact Json.flatMap_doubles_eq_nil (fun _ => rfl) signals

theorem Metadata.doubles_toJson {δ : Type} (write : δ → Json) (m : Metadata δ) :
    (m.toJson write).doubles =
      m.frequency.toList ++ (m.definition.map fun d => (write d).doubles).getD [] := by
  obtain ⟨label, isRunning, frequency, startTime, previousClock, q, qBar, definition⟩ := m
  rw [Metadata.toJson, Json.doubles_present]
  simp only [List.flatMap_cons, List.flatMap_nil, Option.map_map, List.append_nil]
  have hnone : ∀ {α : Type} (f : α → Json) (o : Option α), (∀ a, (f a).doubles = []) →
      (o.map (Json.doubles ∘ f)).getD [] = [] := by
    intro α f o h
    cases o with
    | none => rfl
    | some a => exact h a
  rw [hnone _ label fun _ => rfl, hnone _ isRunning fun _ => rfl, hnone _ startTime fun _ => rfl,
    hnone _ previousClock fun _ => rfl, hnone _ q fun _ => rfl, hnone _ qBar fun _ => rfl]
  cases frequency <;> rfl

/-- **The doubles that are written are those of the gates.** -/
theorem Circuit.doubles_toJsonWith {δ : Type} (write : δ → Json) (c : Circuit δ) :
    (c.toJsonWith write).doubles = c.doublesWith fun d => (write d).doubles := by
  have hwires : (c.wires.map Wire.toJson).flatMap Json.doubles = [] :=
    Json.flatMap_doubles_eq_nil Wire.doubles_toJson c.wires
  rw [toJsonWith, Json.doubles_object, doublesWith]
  simp only [List.flatMap_cons, List.flatMap_nil, Json.doubles_array, hwires, List.append_nil,
    List.flatMap_map]
  refine List.flatMap_congr fun g _ => ?_
  rw [Gate.toJson, Json.doubles_object]
  simp only [List.flatMap_cons, List.flatMap_nil, Signal.doubles_toJson, Metadata.doubles_toJson,
    List.append_nil, List.nil_append, Json.doubles, Kind.toJson]
  rw [Position.toJson, Json.doubles_object]
  rfl

theorem Definition.doubles_toJson (d : Definition) : d.toJson.doubles = d.doubles := by
  refine fold_comp (fun b => ?_) d
  rw [Body.toJson, Json.doubles_present, Body.map]
  dsimp only
  have hpins : ∀ pins : List Pin, (Json.array (pins.map Pin.toJson)).doubles = [] := by
    intro pins
    rw [Json.doubles_array]
    exact Json.flatMap_doubles_eq_nil Pin.doubles_toJson pins
  have hrows : ((b.rows.map Rows.toJson).map Json.doubles).getD [] = [] := by
    cases b.rows with
    | none => rfl
    | some rows => exact Rows.doubles_toJson rows
  have hname : (Json.string b.name).doubles = [] := rfl
  simp only [List.flatMap_cons, List.flatMap_nil, Option.map_some, Option.getD_some, hname, hpins,
    hrows, List.append_nil, List.nil_append]
  cases b.circuit with
  | none => rfl
  | some c =>
    rw [Option.map_some, Option.map_some, Option.map_some, Option.map_some, Option.getD_some,
      Option.getD_some, Circuit.doublesWith_mapDefinitions]
    exact c.doubles_toJsonWith id

/-- **The doubles in the document of a circuit** are its positions and frequencies. -/
theorem Circuit.doubles_toJson (c : Circuit Definition) : c.toJson.doubles = c.doubles := by
  rw [toJson, doubles_toJsonWith, doubles]
  exact congrArg (c.doublesWith ·) (funext Definition.doubles_toJson)

/-! ## 4. Truth tables -/

/-- **Rows in order**: sorted by their inputs, and no inputs twice. -/
def Rows.Ordered (rows : Rows) : Prop := rows.Pairwise fun r s => r.1 < s.1

instance (rows : Rows) : Decidable rows.Ordered :=
  inferInstanceAs (Decidable (rows.Pairwise fun r s => r.1 < s.1))

/-- A row that comes after the others is put at the end. -/
theorem Rows.put_of_lt {rows : Rows} {inputs : String} (h : ∀ r ∈ rows, r.1 < inputs)
    (outputs : String) :
    Rows.put inputs outputs rows = rows ++ [(inputs, outputs)] := by
  induction rows with
  | nil => rfl
  | cons row rest ih =>
    have hlt := h row List.mem_cons_self
    have hne : ¬ inputs = row.1 := fun he => String.lt_irrefl _ (he ▸ hlt)
    rw [Rows.put, if_neg hne, if_neg (String.lt_asymm hlt),
      ih fun r hr => h r (List.mem_cons_of_mem _ hr), List.cons_append]

namespace Decoder

open Json (Draft Readable)

variable {levels : Nat}

/-- Rows that come after those that have been read are added to them. -/
theorem stringMembers_rows {earlier rows : Rows} (h : (earlier ++ rows).Ordered) :
    stringMembers Rows.put levels earlier
      (Json.memberDrafts (rows.map fun row => (row.1, .string row.2))) = .ok (earlier ++ rows) := by
  induction rows generalizing earlier with
  | nil => rw [List.append_nil]; rfl
  | cons row rows ih =>
    obtain ⟨-, -, hbefore⟩ := List.pairwise_append.mp h
    have hput := Rows.put_of_lt (fun r hr => hbefore r hr row List.mem_cons_self) row.2
    rw [List.append_cons] at h ⊢
    rw [List.map_cons, Json.memberDrafts, stringMembers]
    exact (congrArg (stringMembers Rows.put levels · _) hput).trans (ih h)

/-- **A table with its rows in order is restored.** -/
theorem restores_rows {r : Rows} (h : r.Ordered) : Restores levels rows Rows.toJson r := by
  intro hreadable
  rw [Rows.toJson] at hreadable ⊢
  obtain ⟨inner, rfl, -⟩ := hreadable.members
  have hmembers : stringMembers Rows.put inner []
      (Json.memberDrafts (r.map fun row => (row.1, .string row.2))) = .ok r :=
    stringMembers_rows (show ([] ++ r : Rows).Ordered from h)
  rw [Json.draft, rows, stringObject, hmembers]
  rfl

/-! ## 5. Circuits -/

theorem restores_kind (k : Kind) : Restores levels kind Kind.toJson k := by
  intro _
  rw [Kind.toJson, Json.draft, kind, choice, Kind.ofTag_tag]
  rfl

theorem restores_position (p : Position) : Restores levels position Position.toJson p :=
  restores_record rfl
    (fun _ _ => .field (restores_float p.x) (fun _ => rfl) <|
      .field (restores_float p.y) (fun _ => rfl) .nil) rfl

theorem restores_endpoint (e : Endpoint) : Restores levels endpoint Endpoint.toJson e :=
  restores_record rfl
    (fun _ _ => .field (restores_string e.gate) (fun _ => rfl) <|
      .field (restores_int32 e.index) (fun _ => rfl) .nil) rfl

theorem restores_wire (w : Wire) : Restores levels wire Wire.toJson w :=
  restores_record rfl
    (fun _ _ => .field (restores_string w.id) (fun _ => rfl) <|
      .field (restores_endpoint w.source) (fun _ => rfl) <|
      .field (restores_endpoint w.sink) (fun _ => rfl) <|
      .field (restores_bool w.isActive) (fun _ => rfl) .nil) rfl

/-- A field that may be absent comes back as it was. -/
theorem join_map_some {α : Type} (o : Option α) : (o.map some).join = o := by
  cases o <;> rfl

section Inner

variable {δ : Type} {inner : Decoder δ} {write : δ → Json}

/-- Metadata is restored if the definition in it is. -/
theorem restores_metadata (hnull : ∀ d, (write d).draft ≠ .null) (m : Metadata δ)
    (h : ∀ l < levels, ∀ d, m.definition = some d → Restores l inner write d) :
    Restores levels (metadata inner) (Metadata.toJson write) m := by
  have hscalar : ∀ {α : Type} {P : α → Prop} (o : Option α), (∀ a, P a) → ∀ a, o = some a → P a :=
    fun _ h a _ => h a
  refine restores_record rfl (fun l hl =>
    .optional (hscalar m.label restores_string) (fun _ h => by cases h) (fun _ => rfl) <|
    .optional (hscalar m.isRunning restores_bool) (fun _ h => by cases h) (fun _ => rfl) <|
    .optional (hscalar m.frequency restores_float) (fun _ h => by cases h) (fun _ => rfl) <|
    .optional (hscalar m.startTime restores_uint64) (fun _ h => by cases h) (fun _ => rfl) <|
    .optional (hscalar m.previousClock restores_signal) (fun _ h => by cases h) (fun _ => rfl) <|
    .optional (hscalar m.q restores_signal) (fun _ h => by cases h) (fun _ => rfl) <|
    .optional (hscalar m.qBar restores_signal) (fun _ h => by cases h) (fun _ => rfl) <|
    .optional (h l hl) hnull (fun _ => rfl) .nil) ?_
  simp only [join_map_some]

/-- A gate is restored if its definition is. -/
theorem restores_gate (hnull : ∀ d, (write d).draft ≠ .null) (g : Gate δ)
    (h : ∀ l < levels, ∀ d, g.metadata.definition = some d → Restores l inner write d) :
    Restores levels (gate inner) (Gate.toJson write) g :=
  restores_record rfl
    (fun l hl => .field (restores_string g.id) (fun _ => rfl) <|
      .field (restores_kind g.kind) (fun _ => rfl) <|
      .field (restores_position g.position) (fun _ => rfl) <|
      .field (restores_signals g.inputs) (fun _ => rfl) <|
      .field (restores_signals g.outputs) (fun _ => rfl) <|
      .field (restores_metadata hnull g.metadata fun l' hl' => h l' (by omega)) (fun _ => rfl)
        .nil) rfl

/-- **A circuit is restored if the definitions inside it are.** -/
theorem restores_circuitOf (hnull : ∀ d, (write d).draft ≠ .null) (c : Circuit δ)
    (h : ∀ l < levels, ∀ g ∈ c.gates, ∀ d, g.metadata.definition = some d →
      Restores l inner write d) :
    Restores levels (circuitOf inner) (Circuit.toJsonWith write) c := by
  have hgates : ∀ l < levels, Restores l (list (gate inner))
      (fun gates => .array (gates.map (Gate.toJson write))) c.gates :=
    fun l hl => restores_list fun l' hl' g hg =>
      restores_gate hnull g fun l'' hl'' => h l'' (by omega) g hg
  have hwires : ∀ l, Restores l (list wire) (fun wires => .array (wires.map Wire.toJson)) c.wires :=
    fun l => restores_list fun _ _ w _ => restores_wire w
  exact restores_record rfl
    (fun l hl => .field (hgates l hl) (fun _ => rfl) <|
      .field (hwires l) (fun _ => rfl) .nil) rfl

theorem restores_pin (p : Pin) : Restores levels pin Pin.toJson p := by
  refine restores_record rfl
    (fun _ _ => .field (restores_string p.name) (fun _ => rfl) <|
      .optional (fun a _ => restores_string a) (fun _ h => by cases h) (fun _ => rfl) <|
      .field (restores_int32 p.index) (fun _ => rfl) .nil) ?_
  simp only [join_map_some]
  rfl

/-- The contents of a definition are restored if the circuit is, and the rows are in order. -/
theorem restores_body (b : Body δ)
    (hcircuit : ∀ l < levels, ∀ c, b.circuit = some c →
      Restores l (circuitOf inner) (Circuit.toJsonWith write) c)
    (hrows : ∀ r, b.rows = some r → r.Ordered) :
    Restores levels (body inner) (Body.toJson write) b := by
  have hpins : ∀ l (pins : List Pin),
      Restores l (list pin) (fun pins => .array (pins.map Pin.toJson)) pins :=
    fun l pins => restores_list fun _ _ p _ => restores_pin p
  refine restores_record rfl
    (fun l hl => .field (restores_string b.name) (fun _ => rfl) <|
      .field (hpins l b.inputs) (fun _ => rfl) <|
      .field (hpins l b.outputs) (fun _ => rfl) <|
      .optional (hcircuit l hl) (fun _ h => by cases h) (fun _ => rfl) <|
      .optional (fun r hr => restores_rows (hrows r hr)) (fun _ h => by cases h) (fun _ => rfl)
        .nil) ?_
  simp only [join_map_some]
  rfl

end Inner

/-! ## 6. All levels -/

theorem draft_toJson_ne_null (d : Definition) : d.toJson.draft ≠ .null := by
  obtain ⟨b⟩ := d
  rw [Definition.toJson_mk]
  exact fun h => by cases h

/-- **A definition is restored** if there are as many definitions allowed inside one another as there
    are levels of containers. -/
theorem restores_definitionWithin {depth : Nat} (hlevels : levels < depth) (d : Definition)
    (hrows : ∀ rows ∈ d.tables, rows.Ordered) :
    Restores levels (definitionWithin depth) Definition.toJson d := by
  -- each definition takes a level of its own, and one is left for those inside
  induction depth generalizing levels d with
  | zero => exact absurd hlevels (Nat.not_lt_zero _)
  | succ depth ih =>
    obtain ⟨b⟩ := d
    rw [Definition.tables_eq] at hrows
    have hbody : Restores levels (body (definitionWithin depth)) (Body.toJson Definition.toJson) b := by
      refine restores_body b (fun l hl c hc => ?_) fun r hr => ?_
      · refine restores_circuitOf draft_toJson_ne_null c fun l' hl' g hg d hd => ?_
        refine ih (by omega) d fun rows hmem => hrows rows (List.mem_append_right _ ?_)
        rw [show (Definition.mk b).body.circuit = some c from hc]
        exact Circuit.mem_tables hg hd hmem
      · refine hrows r (List.mem_append_left _ ?_)
        rw [show (Definition.mk b).body.rows = some r from hr]
        exact List.mem_singleton_self r
    intro hreadable
    rw [Definition.toJson_mk] at hreadable ⊢
    exact congrArg (Except.map Definition.mk) (hbody hreadable)

theorem restores_definition (d : Definition) (hrows : ∀ rows ∈ d.tables, rows.Ordered) :
    Restores levels definition Definition.toJson d := by
  intro hreadable
  rw [definition]
  exact restores_definitionWithin (Nat.lt_succ_self levels) d hrows hreadable

end Decoder

/-- **The document of a circuit is read as the circuit.** -/
theorem Circuit.ofDocument_document (c : Circuit Definition)
    (hdoubles : ∀ x ∈ c.doubles, Json.ReadsBack x) (hrows : ∀ rows ∈ c.tables, rows.Ordered)
    (hnesting : c.toJson.nesting ≤ Json.maxLevels) : Circuit.ofDocument c.document = .ok c := by
  have hreadable : Json.Readable Json.maxLevels c.toJson :=
    ⟨hnesting, fun x hx => hdoubles x (c.doubles_toJson ▸ hx)⟩
  have hcircuit : Decoder.Restores Json.maxLevels Decoder.circuit Circuit.toJson c :=
    Decoder.restores_circuitOf Decoder.draft_toJson_ne_null c fun _ _ _ hg d hd =>
      Decoder.restores_definition d fun rows hmem => hrows rows (Circuit.mem_tables hg hd hmem)
  exact hcircuit.text_pretty hreadable

/-- A stopped clock with all its metadata, a gate of unknown kind, and a custom gate in which there
    is another one. -/
def Circuit.assorted : Circuit Definition :=
  let table := Definition.ofRows "nand" ["a", "b"] ["y"] [("11", "0"), ("00", "1")]
  let outer := Definition.ofCircuit "outer \"0\"" [.boundTo "in" "inner" 1] [.bound "out" "inner"]
    { gates := [.custom "inner" table] }
  { gates :=
      [{ Gate.clock "CLK" 2.5 with
          position := ⟨-12.5, 40⟩
          metadata :=
            { label := some "tick\n\x01\\", isRunning := some false, frequency := some 2.5
              startTime := some 18446744073709551615, previousClock := some true } },
        .new "?" .unknown, .custom "X" outer]
    wires := [⟨"w0", ⟨"CLK", -2147483648⟩, ⟨"X", 2147483647⟩, true⟩] }

/-- It comes back with everything that it has. -/
theorem Circuit.ofDocument_assorted :
    Circuit.ofDocument Circuit.assorted.document = .ok Circuit.assorted :=
  Circuit.ofDocument_document _ (by decide +kernel) (by decide) (by decide)

end LogicSim
