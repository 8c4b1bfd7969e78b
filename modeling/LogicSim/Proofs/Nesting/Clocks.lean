import LogicSim.Proofs.Nesting.Levels
import LogicSim.Proofs.Netlist.Loading
import LogicSim.Proofs.Netlist.Timeless

/-!
# Clocks at all levels

A custom gate without a clock inside, at any level, does not depend on time
(`Definition.timeless_react`). A circuit whose only clock is forced does not either
(`Circuit.OnlyClock.timeless`).
-/

namespace LogicSim

/-! ## 1. Clocks inside definitions -/

/-- Whether a circuit has a clock, or a custom gate with a clock inside. -/
def Circuit.ticks {δ : Type} (inside : δ → Bool) (c : Circuit δ) : Bool :=
  c.gates.any fun g =>
    g.kind = .clock || g.kind = .custom && (g.metadata.definition.map inside).getD false

/-- **Whether there is a clock inside a definition**, at any level. -/
def Definition.ticks : Definition → Bool :=
  fold fun b => (b.circuit.map (·.ticks id)).getD false

theorem Circuit.ticks_mapDefinitions {δ ε : Type} (f : δ → ε) (inside : ε → Bool) (c : Circuit δ) :
    (c.mapDefinitions f).ticks inside = c.ticks (inside ∘ f) := by
  rw [ticks, ticks, mapDefinitions, List.any_map]
  refine congrArg (c.gates.any ·) (funext fun g => ?_)
  dsimp only [Function.comp, Gate.mapDefinition]
  rw [Option.map_map]
  rfl

/-- **The clocks inside a definition are those of its circuit.** -/
theorem Definition.ticks_eq (d : Definition) :
    d.ticks = (d.body.circuit.map (·.ticks Definition.ticks)).getD false := by
  obtain ⟨b⟩ := d
  rw [ticks, fold_mk, body]
  dsimp only
  rw [Option.map_map]
  cases b.circuit with
  | none => rfl
  | some c => exact c.ticks_mapDefinitions ..

/-- **The only clock of a circuit**, at all levels: no gate of another name is a clock, and no custom
    gate has one inside. -/
structure Circuit.OnlyClock (c : Circuit Definition) (id : GateId) : Prop where
  own : ∀ g ∈ c.gates, g.kind = .clock → g.id = id
  inside : ∀ g ∈ c.gates, g.kind = .custom → ∀ d, g.metadata.definition = some d → d.ticks = false

instance (c : Circuit Definition) (id : GateId) : Decidable (c.OnlyClock id) :=
  decidable_of_iff
    ((∀ g ∈ c.gates, g.kind = .clock → g.id = id) ∧
      ∀ g ∈ c.gates, g.kind = .custom → ¬ (g.metadata.definition.any Definition.ticks) = true)
    ⟨fun h => ⟨h.1, fun g hg hk d hd => by simpa [hd] using h.2 g hg hk⟩,
      fun h => ⟨h.own, fun g hg hk => by
        cases hd : g.metadata.definition with
        | none => simp
        | some d => simp [h.inside g hg hk d hd]⟩⟩

/-- A circuit without any clock. -/
theorem Circuit.not_ticks_iff {c : Circuit Definition} : c.ticks Definition.ticks = false ↔
    ∀ g ∈ c.gates, g.kind ≠ .clock ∧
      (g.kind = .custom → ∀ d, g.metadata.definition = some d → d.ticks = false) := by
  rw [ticks, List.any_eq_false]
  refine forall₂_congr fun g _ => ?_
  cases hd : g.metadata.definition <;> simp

/-! ## 2. Custom gates that do not depend on time -/

variable {ε : Type} {run : ε → Reaction} {compile : Definition → Except String ε}

/-- The element of a gate that is no clock depends on time only if it is a custom gate that does. -/
theorem Element.timeless_ofGate {g : Gate Definition} (hclock : g.kind ≠ .clock)
    (hcustom : g.kind = .custom → ∀ d, g.metadata.definition = some d → ∀ e, compile d = .ok e →
      (run e).Timeless) : (ofGate compile g).Timeless run := by
  cases he : ofGate compile g with
  | clock m => exact absurd (by rw [← kind_ofGate compile g, he]; rfl) hclock
  | custom e =>
    obtain ⟨hk, d, hd, hcompile⟩ := ofGate_eq_custom_iff.mp he
    exact hcustom hk d hd e hcompile
  | _ => trivial

/-- **A definition without a clock inside does not depend on time.** -/
theorem Definition.timeless_react {deepest levels : Nat} {d : Definition} {x : Expansion}
    (hticks : d.ticks = false) (hcompile : d.compile deepest levels = .ok x) :
    x.react.Timeless := by
  refine compile_induction (P := fun _ d x => d.ticks = false → x.react.Timeless) ?_ ?_ hcompile
    hticks
  · intro _ _ _ t _ _ _
    rw [Expansion.react, Expansion.fold_table]
    exact fun _ _ _ => rfl
  · intro levels d inner sub hcircuit _ hlink ih hticks
    rw [ticks_eq, hcircuit] at hticks
    rw [Expansion.react_circuit]
    refine SubCircuit.timeless_evaluate ?_
    rw [(linkCircuit_eq_ok hlink).1]
    intro n hn
    obtain ⟨g, hg, rfl⟩ := List.mem_map.mp hn
    obtain ⟨hclock, hcustom⟩ := Circuit.not_ticks_iff.mp hticks g hg
    exact fun _ => Element.timeless_ofGate hclock fun hk d hd e he => ih d e he (hcustom hk d hd)

/-! ## 3. Circuits with one clock -/

/-- **A circuit whose only clock is forced does not depend on time.** -/
theorem Circuit.OnlyClock.timeless {c : Circuit Definition} (hc : c.Valid) {id : GateId}
    (h : c.OnlyClock id) {k : Nat} (hk : (c.gates.map (·.id))[k]? = some id) (deepest levels : Nat)
    (level : Bool) :
    ((Netlist.assemble (Definition.compile deepest levels) c).force k (some level)).Timeless
      Expansion.react := by
  refine Netlist.timeless_force (fun v n hv hn => ?_) level
  rw [Netlist.assemble, List.getElem?_map] at hn
  obtain ⟨g, hg, rfl⟩ := Option.map_eq_some_iff.mp hn
  have hmem := List.mem_of_getElem? hg
  refine fun _ => Element.timeless_ofGate (fun hclock => hv ?_) fun hcustom d hd e he =>
    Definition.timeless_react (h.inside g hmem hcustom d hd) he
  -- a clock has the name of the one that is forced, and so its place
  have hid : (c.gates.map (·.id))[v]? = some id := by
    rw [List.getElem?_map, hg, Option.map_some, h.own g hmem hclock]
  exact (Circuit.place_eq hc hid).symm.trans (Circuit.place_eq hc hk)

end LogicSim
