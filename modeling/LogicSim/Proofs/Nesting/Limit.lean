import LogicSim.Proofs.Evaluation.Continuation
import LogicSim.Proofs.Strict.Calls

/-!
# The limit of nesting

A netlist is built with a limit on how deep custom gates may nest. The limit cuts what lies deeper and
changes nothing else (`Circuit.nesting_limit`).

* `Circuit.Inside` -- which circuits lie inside a circuit, and the netlists that they are compiled to;
* `Circuit.Inside.eq_assemble` -- each of them is compiled with as many levels as are left;
* `Definition.nesting_compile_le` -- what is compiled nests no deeper than the limit;
* `Evaluator.after_of_nesting` -- two limits that are both enough cannot be told apart;
* `Netlist.size_assemble` -- if all custom gates compile, the gates of a netlist are those of its
  circuit at all levels.
-/

namespace LogicSim

/-! ## 1. Circuits inside a circuit -/

section Inside

/-- **A custom gate opens to a circuit**: its definition has the circuit, and its element is compiled
    to the netlist. -/
structure Gate.Opens (g : Gate Definition) (n : Node Expansion) (inner : Circuit Definition)
    (template : Netlist Expansion) : Prop where
  kind : g.kind = .custom
  circuit : ∃ d, g.metadata.definition = some d ∧ d.body.circuit = some inner
  template : ∃ sub, n.element = .custom (.circuit sub) ∧ sub.template = template

/-- **The circuits inside a circuit**, with their netlists and the number of custom gates around
    them. The circuit itself has none around it. -/
inductive Circuit.Inside : Circuit Definition → Netlist Expansion → Nat → Circuit Definition →
    Netlist Expansion → Prop where
  | self (c : Circuit Definition) (net : Netlist Expansion) : Inside c net 0 c net
  | gate {c inner c' : Circuit Definition} {net template net' : Netlist Expansion} {depth i : Nat}
      {g : Gate Definition} {n : Node Expansion} (hg : c.gates[i]? = some g)
      (hn : net.nodes[i]? = some n) (hopens : g.Opens n inner template)
      (h : Inside inner template depth c' net') : Inside c net (depth + 1) c' net'

/-- What a custom gate that lies too deep says. -/
def Definition.tooDeep (deepest : Nat) : String := s!"custom gates nested deeper than {deepest}"

variable {deepest levels : Nat} {g : Gate Definition}

/-- With no level left, a custom gate is invalid, and for this reason. -/
theorem Element.ofGate_of_exhausted (hk : g.kind = .custom) :
    ∃ reason, ofGate (Definition.compile deepest 0) g = .invalid .custom reason ∧
      (g.metadata.definition.isSome = true → reason = Definition.tooDeep deepest) := by
  rw [ofGate, hk]
  dsimp only
  cases g.metadata.definition with
  | none => exact ⟨_, rfl, fun h => (by cases h)⟩
  | some d => exact ⟨_, rfl, fun _ => rfl⟩

/-- What a gate opens to was compiled with one level less. -/
theorem Gate.Opens.eq_assemble {inner : Circuit Definition} {template : Netlist Expansion}
    (h : g.Opens (.ofGate (Definition.compile deepest levels) g) inner template) :
    ∃ levels', levels = levels' + 1 ∧ inner.Valid ∧
      template = .assemble (Definition.compile deepest levels') inner := by
  obtain ⟨-, ⟨d, hd, hcircuit⟩, sub, helement, rfl⟩ := h
  rw [Node.element_ofGate, Element.ofGate_eq_custom_iff] at helement
  obtain ⟨-, d', hd', hcompile⟩ := helement
  obtain rfl : d = d' := Option.some.inj (hd.symm.trans hd')
  obtain ⟨levels', sub', hlevels, he, hvalid, hlink⟩ := Definition.compile_eq_ok hcompile hcircuit
  obtain rfl := Expansion.circuit.inj he
  exact ⟨levels', hlevels, hvalid, (Definition.linkCircuit_eq_ok hlink).1⟩

/-- A custom gate whose definition compiles opens to the circuit of the definition. -/
theorem Gate.opens_ofGate {d : Definition} {inner : Circuit Definition} {x : Expansion}
    (hk : g.kind = .custom) (hd : g.metadata.definition = some d)
    (hcircuit : d.body.circuit = some inner) (hx : d.compile deepest (levels + 1) = .ok x) :
    g.Opens (.ofGate (Definition.compile deepest (levels + 1)) g) inner
      (.assemble (Definition.compile deepest levels) inner) := by
  obtain ⟨levels', sub, hlevels, rfl, -, hlink⟩ := Definition.compile_eq_ok hx hcircuit
  obtain rfl : levels = levels' := Nat.succ.inj hlevels
  exact ⟨hk, ⟨d, hd, hcircuit⟩, sub, Element.ofGate_eq_custom_iff.mpr ⟨hk, d, hd, hx⟩,
    (Definition.linkCircuit_eq_ok hlink).1⟩

/-- **A circuit inside is compiled with the levels that are left.** -/
theorem Circuit.Inside.eq_assemble {c c' : Circuit Definition} {net net' : Netlist Expansion}
    {depth : Nat} (h : c.Inside net depth c' net')
    (hnet : net = .assemble (Definition.compile deepest levels) c) :
    depth ≤ levels ∧ net' = .assemble (Definition.compile deepest (levels - depth)) c' := by
  induction h generalizing levels with
  | self c net => exact ⟨Nat.zero_le _, hnet⟩
  | gate hg hn hopens _ ih =>
    rw [hnet, Netlist.getElem?_assemble hg] at hn
    obtain rfl := Option.some.inj hn
    obtain ⟨levels, rfl, -, htemplate⟩ := hopens.eq_assemble
    obtain ⟨hle, hnet'⟩ := ih htemplate
    exact ⟨Nat.succ_le_succ hle, by rw [hnet', Nat.add_sub_add_right]⟩

end Inside

/-! ## 2. How deep a netlist nests -/

section Nesting

variable {ε ε' : Type}

/-- The number that stands for what is inside an element. -/
def Element.inside (number : ε → Nat) : Element ε → Nat
  | .custom x => number x
  | _ => 0

/-- The largest of the numbers that stand for what is inside custom gates. -/
def Netlist.largest (number : ε → Nat) (net : Netlist ε) : Nat :=
  (net.nodes.map fun n => n.element.inside number).max?.getD 0

/-- The number of levels of an expansion, itself included. -/
def Expansion.nesting : Expansion → Nat :=
  fold (fun sub => sub.template.largest id + 1) fun _ => 1

/-- **The number of levels of custom gates** within a netlist. -/
def Netlist.nesting (net : Netlist Expansion) : Nat := net.largest Expansion.nesting

theorem Element.inside_map (f : ε → ε') (number : ε' → Nat) (e : Element ε) :
    (e.map f).inside number = e.inside (number ∘ f) := by
  cases e <;> rfl

theorem Netlist.largest_map (f : ε → ε') (number : ε' → Nat) (net : Netlist ε) :
    (net.map f).largest number = net.largest (number ∘ f) := by
  rw [largest, largest, map, List.map_map]
  refine congrArg (·.max?.getD 0) (List.map_congr_left fun n _ => ?_)
  exact Element.inside_map f number n.element

/-- **An expansion is one level above its circuit.** -/
theorem Expansion.nesting_circuit (sub : SubCircuit Expansion) :
    nesting (.circuit sub) = sub.template.nesting + 1 := by
  rw [nesting, fold_circuit]
  exact congrArg (· + 1) (sub.template.largest_map ..)

theorem Netlist.largest_le {number : ε → Nat} {net : Netlist ε} {bound : Nat}
    (h : ∀ n ∈ net.nodes, ∀ x, n.element = .custom x → number x ≤ bound) :
    net.largest number ≤ bound := by
  rw [largest]
  cases hmax : (net.nodes.map fun n => n.element.inside number).max? with
  | none => exact Nat.zero_le _
  | some m =>
    obtain ⟨n, hn, rfl⟩ := List.mem_map.mp (List.max?_eq_some_iff.mp hmax).1
    rw [Option.getD_some]
    cases he : n.element with
    | custom x => exact h n hn x he
    | _ => exact Nat.zero_le _

/-- A netlist nests no deeper than what its custom gates compile to. -/
theorem Netlist.nesting_assemble_le_of {compile : Definition → Except String Expansion}
    {c : Circuit Definition} {bound : Nat} (h : ∀ d x, compile d = .ok x → x.nesting ≤ bound) :
    (assemble compile c).nesting ≤ bound := by
  refine largest_le fun n hn x hx => ?_
  obtain ⟨g, -, rfl⟩ := List.mem_map.mp hn
  rw [Node.element_ofGate, Element.ofGate_eq_custom_iff] at hx
  obtain ⟨-, d, -, hcompile⟩ := hx
  exact h d x hcompile

/-- **What is compiled nests no deeper than there are levels.** -/
theorem Definition.nesting_compile_le {deepest levels : Nat} {d : Definition} {x : Expansion}
    (h : d.compile deepest levels = .ok x) : x.nesting ≤ levels := by
  refine compile_induction (P := fun levels _ x => x.nesting ≤ levels) ?_ ?_ h
  · intro levels _ _ t _ _
    rw [Expansion.nesting, Expansion.fold_table]
    exact Nat.le_add_left 1 levels
  · intro levels d inner sub _ _ hlink ih
    rw [Expansion.nesting_circuit, (linkCircuit_eq_ok hlink).1]
    exact Nat.succ_le_succ (Netlist.nesting_assemble_le_of ih)

end Nesting

/-! ## 3. Limits that are enough -/

section Enough

variable {c : Circuit Definition} {deepest deepest' : Nat}

/-- **Two limits that are enough give the same netlist.** -/
theorem Circuit.netlist_of_nesting (h : c.nesting ≤ deepest) (h' : c.nesting ≤ deepest') :
    c.netlist deepest = c.netlist deepest' := by
  rw [netlist, netlist, Netlist.ofCircuit, Netlist.ofCircuit, Netlist.assemble_of_nesting h h']

/-- What is written into a circuit does not nest. -/
theorem Netlist.nesting_writeBack {ε : Type} (net : Netlist ε) (c : Circuit Definition) :
    (net.writeBack c).nesting = c.nesting := by
  rw [Circuit.nesting, Circuit.nesting, Circuit.largest, Circuit.largest]
  refine congrArg (·.max?.getD 0) (List.ext_getElem? fun i => ?_)
  rw [List.getElem?_map, List.getElem?_map, getElem?_gates_writeBack, Option.map_map]
  refine congrArg (c.gates[i]?.map ·) (funext fun g => ?_)
  dsimp only [Function.comp]
  cases net.nodes[i]? with
  | none => rfl
  | some n =>
    show (if g.kind = .custom then ((n.element.store g.metadata).definition.map _).getD 0 else 0) = _
    rw [definition_store]

/-- An evaluation keeps the levels of a circuit. -/
theorem Evaluator.nesting_evaluate (e : Evaluator) (c : Circuit Definition) (p : Pass) :
    (e.evaluate c p).circuit.nesting = c.nesting := by
  cases p with
  | immediate now =>
    rw [evaluate, immediate]
    cases c.netlist e.deepest with
    | error problems => rfl
    | ok net =>
      dsimp only
      cases net.dependencies.schedule with
      | error cycle => rfl
      | ok schedule => exact Netlist.nesting_writeBack ..
  | delayed now =>
    rw [evaluate, delayed]
    cases c.netlist e.deepest with
    | error problems => rfl
    | ok net => exact Netlist.nesting_writeBack ..

/-- The circuit after several evaluations, each of the circuit that the one before returned. -/
def Evaluator.after (e : Evaluator) (c : Circuit Definition) (ps : List Pass) :
    Circuit Definition :=
  ps.foldl (fun c p => (e.evaluate c p).circuit) c

theorem Evaluator.after_nil (e : Evaluator) (c : Circuit Definition) : e.after c [] = c := rfl

theorem Evaluator.after_cons (e : Evaluator) (c : Circuit Definition) (p : Pass) (ps : List Pass) :
    e.after c (p :: ps) = e.after (e.evaluate c p).circuit ps := by
  rw [after, after, List.foldl_cons]

/-- **Evaluations do not tell two such limits apart.** -/
theorem Evaluator.evaluate_of_nesting (h : c.nesting ≤ deepest) (h' : c.nesting ≤ deepest')
    (settleLimit : Nat) (p : Pass) :
    evaluate ⟨deepest, settleLimit⟩ c p = evaluate ⟨deepest', settleLimit⟩ c p := by
  have hnet : c.netlist (Evaluator.mk deepest settleLimit).deepest =
      c.netlist (Evaluator.mk deepest' settleLimit).deepest := Circuit.netlist_of_nesting h h'
  have hinstant : (Evaluator.mk deepest settleLimit).instant =
      (Evaluator.mk deepest' settleLimit).instant := rfl
  cases p with
  | immediate now => rw [evaluate, evaluate, immediate, immediate, hnet, hinstant]
  | delayed now => rw [evaluate, evaluate, delayed, delayed, hnet, hinstant]

/-- And neither do several of them, one after another. -/
theorem Evaluator.after_of_nesting (h : c.nesting ≤ deepest) (h' : c.nesting ≤ deepest')
    (settleLimit : Nat) (ps : List Pass) :
    after ⟨deepest, settleLimit⟩ c ps = after ⟨deepest', settleLimit⟩ c ps ∧
      (after ⟨deepest, settleLimit⟩ c ps).nesting = c.nesting := by
  induction ps generalizing c with
  | nil =>
    rw [after_nil, after_nil]
    exact ⟨rfl, rfl⟩
  | cons p ps ih =>
    have hcircuit := nesting_evaluate ⟨deepest, settleLimit⟩ c p
    rw [after_cons, after_cons, ← evaluate_of_nesting h h' settleLimit p]
    obtain ⟨hafter, hnesting⟩ := ih (hcircuit.symm ▸ h) (hcircuit.symm ▸ h')
    exact ⟨hafter, hnesting.trans hcircuit⟩

end Enough

/-! ## 4. The gates at all levels -/

section Total

/-- The number of gates of a circuit, where a custom gate counts for itself and for what its
    definition contains. -/
def Circuit.totalWith {δ : Type} (number : δ → Nat) (c : Circuit δ) : Nat :=
  (c.gates.map fun g =>
    1 + if g.kind = .custom then (g.metadata.definition.map number).getD 0 else 0).sum

/-- The number of gates inside a definition, at all levels. A truth table has none. -/
def Definition.total : Definition → Nat :=
  fold fun b => (b.circuit.map (·.totalWith id)).getD 0

/-- **The number of gates of a circuit and of all circuits inside it.** -/
def Circuit.total (c : Circuit Definition) : Nat := c.totalWith Definition.total

theorem Circuit.totalWith_mapDefinitions {δ δ' : Type} (f : δ → δ') (number : δ' → Nat)
    (c : Circuit δ) : (c.mapDefinitions f).totalWith number = c.totalWith (number ∘ f) := by
  rw [totalWith, totalWith, mapDefinitions, List.map_map]
  refine congrArg List.sum (List.map_congr_left fun g _ => ?_)
  dsimp only [Function.comp, Gate.mapDefinition]
  rw [Option.map_map]
  rfl

/-- **The gates inside a definition are those of its circuit**, which takes precedence over a truth
    table. -/
theorem Definition.total_eq (d : Definition) :
    d.total = (d.body.circuit.map Circuit.total).getD 0 := by
  obtain ⟨b⟩ := d
  rw [total, fold_mk, body]
  dsimp only
  rw [Option.map_map]
  cases b.circuit with
  | none => rfl
  | some c => exact c.totalWith_mapDefinitions ..

/-- **All custom gates of a netlist compile**, those inside custom gates included. -/
def Netlist.Compiles (c : Circuit Definition) (net : Netlist Expansion) : Prop :=
  ∀ depth inner template, c.Inside net depth inner template → ∀ n ∈ template.nodes,
    n.element.kind = .custom → ∃ x, n.element = .custom x

/-- **The custom gates of a netlist compile if they do one level at a time.** -/
theorem Netlist.compiles_assemble {deepest levels : Nat} {c : Circuit Definition}
    (hgates : ∀ g ∈ c.gates, g.kind = .custom → ∃ d x, g.metadata.definition = some d ∧
      d.compile deepest levels = .ok x)
    (hinner : ∀ g ∈ c.gates, ∀ d, g.metadata.definition = some d → ∀ inner,
      d.body.circuit = some inner → ∀ levels', levels = levels' + 1 →
      (assemble (Definition.compile deepest levels') inner).Compiles inner) :
    (assemble (Definition.compile deepest levels) c).Compiles c := by
  intro depth inner template h n hn hk
  cases h with
  | self =>
    obtain ⟨g, hg, rfl⟩ := List.mem_map.mp hn
    rw [Node.element_ofGate, Element.kind_ofGate] at hk
    obtain ⟨d, x, hd, hx⟩ := hgates g hg hk
    exact ⟨x, Element.ofGate_eq_custom_iff.mpr ⟨hk, d, hd, hx⟩⟩
  | gate hg hm hopens h =>
    rw [getElem?_assemble hg] at hm
    obtain rfl := Option.some.inj hm
    obtain ⟨levels', hlevels, -, rfl⟩ := hopens.eq_assemble
    obtain ⟨d, hd, hcircuit⟩ := hopens.circuit
    exact hinner _ (List.mem_of_getElem? hg) d hd _ hcircuit levels' hlevels _ _ _ h n hn hk

theorem Netlist.size_eq (net : Netlist Expansion) :
    net.size = (net.nodes.map fun n => 1 + n.element.inside Expansion.size).sum := by
  rw [size, expandedSize]
  refine congrArg (List.foldr (· + ·) 0) (List.map_congr_left fun n _ => ?_)
  cases n.element <;> rfl

variable {deepest levels : Nat} {c : Circuit Definition}

/-- All custom gates inside a custom gate of a definition compile. -/
def Definition.Whole (d : Definition) (x : Expansion) : Prop :=
  ∀ inner sub, d.body.circuit = some inner → x = .circuit sub → sub.template.Compiles inner

/-- The gates of a netlist, if those of its definitions are known. -/
theorem Netlist.size_assemble_of (h : (assemble (Definition.compile deepest levels) c).Compiles c)
    (hinside : ∀ (d : Definition) x, d.compile deepest levels = .ok x → d.Whole x →
      x.size = d.total) :
    (assemble (Definition.compile deepest levels) c).size = c.total := by
  rw [size_eq, Circuit.total, Circuit.totalWith, assemble, List.map_map]
  refine congrArg List.sum (List.map_congr_left fun g hg => congrArg (1 + ·) ?_)
  rw [Node.element_ofGate]
  by_cases hk : g.kind = .custom
  · obtain ⟨x, hx⟩ := h 0 c _ (.self c _) (.ofGate _ g) (List.mem_map_of_mem hg)
      ((Element.kind_ofGate _ g).trans hk)
    rw [Node.element_ofGate] at hx
    obtain ⟨-, d, hd, hcompile⟩ := Element.ofGate_eq_custom_iff.mp hx
    rw [if_pos hk, hx, hd]
    refine hinside d x hcompile fun inner sub hcircuit he depth c' net' hinner => ?_
    obtain ⟨i, hi⟩ := List.getElem?_of_mem hg
    exact h (depth + 1) c' net' (.gate hi (getElem?_assemble hi)
      ⟨hk, ⟨d, hd, hcircuit⟩, sub, he ▸ hx, rfl⟩ hinner)
  · rw [if_neg hk]
    cases hx : Element.ofGate (Definition.compile deepest levels) g with
    | custom x => exact absurd (Element.ofGate_eq_custom_iff.mp hx).1 hk
    | _ => rfl

/-- **What is inside a custom gate has all gates of its definition**, if all custom gates there
    compile. -/
theorem Definition.size_compile {d : Definition} {x : Expansion}
    (h : d.compile deepest levels = .ok x) (hwhole : d.Whole x) : x.size = d.total := by
  refine compile_induction (P := fun _ d x => d.Whole x → x.size = d.total) ?_ ?_ h hwhole
  · intro _ d _ t hcircuit _ _
    rw [total_eq, hcircuit, Expansion.size, Expansion.fold_table]
    rfl
  · intro levels d inner sub hcircuit _ hlink ih hwhole
    have htemplate := (linkCircuit_eq_ok hlink).1
    have hcompiles : (Netlist.assemble (compile deepest levels) inner).Compiles inner :=
      htemplate ▸ hwhole inner sub hcircuit rfl
    rw [total_eq, hcircuit, Expansion.size_circuit, htemplate]
    exact Netlist.size_assemble_of hcompiles ih

/-- **If all custom gates compile, a netlist has all gates of its circuit.** -/
theorem Netlist.size_assemble (h : (assemble (Definition.compile deepest levels) c).Compiles c) :
    (assemble (Definition.compile deepest levels) c).size = c.total :=
  size_assemble_of h fun _ _ => Definition.size_compile

end Total

/-! ## 5. The limit -/

section Limit

variable {c inner : Circuit Definition} {net template : Netlist Expansion}

/-- **A custom gate beyond the limit is a gate that always fails.** -/
theorem Circuit.Inside.cut {deepest i : Nat} {g : Gate Definition}
    (hnet : c.netlist deepest = .ok net) (h : c.Inside net deepest inner template)
    (hg : inner.gates[i]? = some g) (hk : g.kind = .custom) :
    ∃ n reason, template.nodes[i]? = some n ∧ n.element = .invalid .custom reason ∧
      (g.metadata.definition.isSome = true → reason = Definition.tooDeep deepest) := by
  obtain ⟨-, htemplate⟩ := h.eq_assemble (Netlist.valid_of_ofCircuit hnet).2
  rw [Nat.sub_self] at htemplate
  obtain ⟨reason, helement, hreason⟩ := Element.ofGate_of_exhausted hk
  exact ⟨_, reason, htemplate ▸ Netlist.getElem?_assemble hg, helement, hreason⟩

/-- **The limit of nesting bounds what is compiled and nothing else.** Custom gates are compiled down
to the limit and fail below it; limits that are enough for a circuit give the same netlist and the
same evaluations; and if all custom gates compile, none of their gates is missing. -/
theorem Circuit.nesting_limit (c : Circuit Definition) (deepest : Nat) :
    (∀ net, c.netlist deepest = .ok net →
      net.nesting ≤ deepest ∧
      (∀ depth inner template, c.Inside net depth inner template → depth ≤ deepest) ∧
      (∀ (inner : Circuit Definition) (template : Netlist Expansion),
        c.Inside net deepest inner template →
        ∀ (i : Nat) (g : Gate Definition), inner.gates[i]? = some g → g.kind = .custom →
        ∃ (n : Node Expansion) (reason : String), template.nodes[i]? = some n ∧
          n.element = .invalid .custom reason ∧
          (g.metadata.definition.isSome = true → reason = Definition.tooDeep deepest) ∧
          ∀ instant inputs, n.element.evaluate Expansion.react instant inputs =
            .error (.unsupported reason)) ∧
      (net.Compiles c → net.size = c.total)) ∧
    ∀ deepest', c.nesting ≤ deepest → c.nesting ≤ deepest' →
      c.netlist deepest = c.netlist deepest' ∧
      ∀ (settleLimit : Nat) (ps : List Pass) (p : Pass),
        let e : Evaluator := ⟨deepest, settleLimit⟩
        let e' : Evaluator := ⟨deepest', settleLimit⟩
        e.evaluate (e.after c ps) p = e'.evaluate (e'.after c ps) p := by
  refine ⟨fun net hnet => ?_, fun deepest' h h' => ⟨netlist_of_nesting h h', fun limit ps p => ?_⟩⟩
  · obtain ⟨-, rfl⟩ := Netlist.valid_of_ofCircuit hnet
    refine ⟨Netlist.nesting_assemble_le_of fun _ _ => Definition.nesting_compile_le,
      fun depth inner template h => (h.eq_assemble rfl).1, ?_, Netlist.size_assemble⟩
    intro inner template h i g hg hk
    obtain ⟨n, reason, hn, helement, hreason⟩ := h.cut hnet hg hk
    exact ⟨n, reason, hn, helement, hreason, fun instant inputs => by rw [helement]; rfl⟩
  · obtain ⟨hafter, hnesting⟩ := Evaluator.after_of_nesting h h' limit ps
    dsimp only
    rw [← hafter]
    exact Evaluator.evaluate_of_nesting (hnesting ▸ h) (hnesting ▸ h') limit p

/-- A definition around another one of one input and one output. -/
def Definition.wrap (name : String) (d : Definition) : Definition :=
  .ofCircuit name [.bound "A" "A"] [.bound "Y" "Y"]
    (Circuit.connectAll { gates := [.input "A" false, .custom "X" d, .new "Y" .output] }
      [("A", 0, "X", 0), ("X", 0, "Y", 0)])

/-- An inverter by a truth table. -/
def Definition.inverter : Definition := .ofRows "inverter" ["A"] ["Y"] [("0", "1")]

/-- An inverter three levels deep. -/
def Circuit.nested : Circuit Definition :=
  { gates := [.custom "X" (.wrap "outer" (.wrap "middle" .inverter))] }

/-- A definition around another one that compiles. -/
theorem Netlist.compiles_wrap {deepest levels : Nat} {name : String} {d : Definition}
    {x : Expansion} {inner : Circuit Definition} (hx : d.compile deepest levels = .ok x)
    (hd : ∀ inner, d.body.circuit = some inner → ∀ levels', levels = levels' + 1 →
      (assemble (Definition.compile deepest levels') inner).Compiles inner)
    (hinner : (d.wrap name).body.circuit = some inner) :
    (assemble (Definition.compile deepest levels) inner).Compiles inner := by
  obtain rfl := Option.some.inj hinner
  refine compiles_assemble (List.forall_mem_cons.mpr ⟨nofun, List.forall_mem_cons.mpr
    ⟨fun _ => ⟨d, x, rfl, hx⟩, List.forall_mem_singleton.mpr nofun⟩⟩) ?_
  refine List.forall_mem_cons.mpr ⟨nofun, List.forall_mem_cons.mpr
    ⟨fun d' hd' => ?_, List.forall_mem_singleton.mpr nofun⟩⟩
  obtain rfl := Option.some.inj hd'
  exact hd

/-- With two levels the inverter is cut, with three as much is compiled as with 16: the gate `X`, and
    three gates at each of two levels. -/
theorem Circuit.nesting_limit_nested :
    (∃ net inner template n, nested.netlist 2 = .ok net ∧ net.nesting ≤ 2 ∧
      nested.Inside net 2 inner template ∧ template.nodes[1]? = some n ∧
      n.element = .invalid .custom "custom gates nested deeper than 2") ∧
    nested.netlist 3 = nested.netlist 16 ∧
    ∃ net, nested.netlist 16 = .ok net ∧ net.size = 7 := by
  have hnet : ∀ deepest, nested.netlist deepest =
      .ok (.assemble (Definition.compile deepest deepest) nested) := fun deepest =>
    Netlist.ofCircuit_of_valid _ (check_eq_nil_iff.mp (by decide))
  refine ⟨?_, ((nesting_limit nested 3).2 16 (by decide) (by decide)).1, _, hnet 16, ?_⟩
  · obtain ⟨hnesting, -, hcut, -⟩ := (nesting_limit nested 2).1 _ (hnet 2)
    have hinside : nested.Inside (.assemble (Definition.compile 2 2) nested) 2 _ _ :=
      .gate (i := 0) rfl (Netlist.getElem?_assemble rfl) (Gate.opens_ofGate rfl rfl rfl rfl)
        (.gate (i := 1) rfl (Netlist.getElem?_assemble rfl) (Gate.opens_ofGate rfl rfl rfl rfl)
          (.self _ _))
    obtain ⟨n, reason, hn, helement, hreason, -⟩ := hcut _ _ hinside 1 _ rfl rfl
    exact ⟨_, _, _, n, hnet 2, hnesting, hinside, hn, by rw [helement, hreason rfl]; rfl⟩
  · have hcompiles : (Netlist.assemble (Definition.compile 16 16) nested).Compiles nested := by
      refine Netlist.compiles_assemble
        (List.forall_mem_singleton.mpr fun _ => ⟨_, _, rfl, rfl⟩)
        (List.forall_mem_singleton.mpr fun d hd inner hinner levels' hlevels => ?_)
      obtain rfl := Option.some.inj hd
      obtain rfl : levels' = 15 := by omega
      refine Netlist.compiles_wrap rfl (fun inner' hinner' levels'' hlevels => ?_) hinner
      obtain rfl : levels'' = 14 := by omega
      exact Netlist.compiles_wrap rfl (fun _ htable => by cases htable) hinner'
    rw [((nesting_limit nested 16).1 _ (hnet 16)).2.2.2 hcompiles]
    rfl

end Limit

end LogicSim
