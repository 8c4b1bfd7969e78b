import LogicSim.Netlist.Compilation

/-!
# Levels of nesting

`Circuit.nesting` counts the levels of custom gates within a circuit. As long as there are enough
levels, it does not matter to the netlist of a circuit how many there are
(`Netlist.assemble_of_nesting`), and neither to a compiled definition
(`Definition.compile_of_nesting`): the number allowed shows only in what is nested too deep.
-/

namespace LogicSim

/-! ## 1. Counting levels -/

/-- The largest of the numbers that stand for the definitions of custom gates. -/
def Circuit.largest {δ : Type} (number : δ → Nat) (c : Circuit δ) : Nat :=
  (c.gates.map fun g =>
    if g.kind = .custom then (g.metadata.definition.map number).getD 0 else 0).max?.getD 0

/-- The number of levels of a definition, itself included. -/
def Definition.nesting : Definition → Nat :=
  fold fun b => (b.circuit.map (·.largest id)).getD 0 + 1

/-- **The number of levels of custom gates** within a circuit. -/
def Circuit.nesting (c : Circuit Definition) : Nat := c.largest Definition.nesting

theorem Circuit.largest_mapDefinitions {δ ε : Type} (f : δ → ε) (number : ε → Nat)
    (c : Circuit δ) : (c.mapDefinitions f).largest number = c.largest (number ∘ f) := by
  rw [largest, largest, mapDefinitions, List.map_map]
  refine congrArg (·.max?.getD 0) (List.map_congr_left fun g _ => ?_)
  dsimp only [Function.comp, Gate.mapDefinition]
  rw [Option.map_map]
  rfl

/-- **A definition is one level above its circuit.** -/
theorem Definition.nesting_eq (d : Definition) :
    d.nesting = (d.body.circuit.map Circuit.nesting).getD 0 + 1 := by
  obtain ⟨b⟩ := d
  rw [nesting, fold_mk, body]
  dsimp only
  rw [Option.map_map]
  cases b.circuit with
  | none => rfl
  | some c => exact congrArg (· + 1) (c.largest_mapDefinitions ..)

theorem Definition.nesting_of_circuit {d : Definition} {c : Circuit Definition}
    (h : d.body.circuit = some c) : d.nesting = c.nesting + 1 := by
  rw [nesting_eq, h]
  rfl

/-- A circuit has all the levels of its custom gates. -/
theorem Circuit.nesting_le {c : Circuit Definition} {g : Gate Definition} (hg : g ∈ c.gates)
    (hkind : g.kind = .custom) {d : Definition} (hd : g.metadata.definition = some d) :
    d.nesting ≤ c.nesting := by
  refine List.le_max?_getD_of_mem (List.mem_map.mpr ⟨g, hg, ?_⟩)
  rw [if_pos hkind, hd]
  rfl

/-! ## 2. Enough levels -/

variable {ε : Type} {c : Circuit Definition}

/-- Compilation matters to the definitions of custom gates only. -/
theorem Element.ofGate_of_definition {compile compile' : Definition → Except String ε}
    {g : Gate Definition} (h : g.kind = .custom → ∀ d, g.metadata.definition = some d →
      compile d = compile' d) : ofGate compile g = ofGate compile' g := by
  rw [ofGate, ofGate]
  cases hk : g.kind with
  | custom =>
    dsimp only
    cases hd : g.metadata.definition with
    | none => rfl
    | some d =>
      dsimp only
      rw [h hk d hd]
  | _ => rfl

/-- **Custom elements come of definitions that compile.** -/
theorem Element.ofGate_eq_custom_iff {compile : Definition → Except String ε}
    {g : Gate Definition} {x : ε} : ofGate compile g = .custom x ↔
      g.kind = .custom ∧ ∃ d, g.metadata.definition = some d ∧ compile d = .ok x := by
  rw [ofGate]
  cases hk : g.kind with
  | custom =>
    dsimp only
    cases hd : g.metadata.definition with
    | none => simp
    | some d =>
      dsimp only
      cases hx : compile d <;> simp [hx]
  | _ => simp

theorem Netlist.assemble_congr {compile compile' : Definition → Except String ε}
    (h : ∀ g ∈ c.gates, g.kind = .custom → ∀ d, g.metadata.definition = some d →
      compile d = compile' d) : assemble compile c = assemble compile' c := by
  have hnodes : c.gates.map (Node.ofGate compile) = c.gates.map (Node.ofGate compile') := by
    refine List.map_congr_left fun g hg => ?_
    rw [Node.ofGate, Node.ofGate, Element.ofGate_of_definition (h g hg)]
  rw [assemble, assemble, hnodes]

/-- **It does not matter how many levels are allowed, if they are enough.** -/
theorem Definition.compile_of_nesting {deepest deepest' levels levels' : Nat} {d : Definition}
    (h : d.nesting ≤ levels) (h' : d.nesting ≤ levels') :
    d.compile deepest levels = d.compile deepest' levels' := by
  -- the levels left go down with the definitions inside
  induction levels generalizing levels' d with
  | zero => rw [nesting_eq] at h; omega
  | succ levels ih =>
    cases levels' with
    | zero => rw [nesting_eq] at h'; omega
    | succ levels' =>
      rw [compile, compile]
      cases hcircuit : d.body.circuit with
      | none => cases d.body.rows <;> rfl
      | some c =>
        rw [nesting_of_circuit hcircuit] at h h'
        have hinner : Netlist.assemble (compile deepest levels) c =
            Netlist.assemble (compile deepest' levels') c := by
          refine Netlist.assemble_congr fun g hg hkind d hd => ?_
          have hle := Circuit.nesting_le hg hkind hd
          exact ih (by omega) (by omega)
        dsimp only
        rw [Netlist.ofCircuit, Netlist.ofCircuit, hinner]

/-- **The same for the netlist of a circuit.** -/
theorem Netlist.assemble_of_nesting {deepest deepest' levels levels' : Nat}
    (h : c.nesting ≤ levels) (h' : c.nesting ≤ levels') :
    assemble (Definition.compile deepest levels) c =
      assemble (Definition.compile deepest' levels') c :=
  assemble_congr fun _ hg hkind _ hd =>
    have hle := Circuit.nesting_le hg hkind hd
    Definition.compile_of_nesting (Nat.le_trans hle h) (Nat.le_trans hle h')

end LogicSim
