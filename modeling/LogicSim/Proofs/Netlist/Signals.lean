import LogicSim.Proofs.Netlist.Equations

/-!
# Passes gate by gate

What a pass does to the nodes of a circuit, by identifier, with its warnings and with what it tells
about changes, and what of it comes back in the gates and wires.

* `Netlist.results_delayed` -- a delayed pass is the reaction of each gate to what it sees
  (`Circuit.seen`);
* `Netlist.warnings_immediate` -- an immediate pass warns of each gate once, in the order of the
  schedule;
* `Netlist.gates_writeBack`, `Netlist.wires_writeBack` -- the circuit that comes back.
-/

namespace LogicSim

variable {ε : Type} {run : ε → Reaction} {instant : Instant}

/-! ## 1. Look-up -/

/-- Where at most one member is looked for, the order does not matter. -/
theorem find?_perm {α : Type} {p : α → Bool} {l l' : List α} (h : l.Perm l')
    (hsingle : ∀ a ∈ l, ∀ b ∈ l, p a = true → p b = true → a = b) : l.find? p = l'.find? p := by
  cases hfind : l.find? p with
  | none =>
    rw [List.find?_eq_none] at hfind
    exact (List.find?_eq_none.mpr fun a ha => hfind a (h.mem_iff.mpr ha)).symm
  | some a =>
    have ha := List.mem_of_find?_eq_some hfind
    have hp := List.find?_some hfind
    exact (find?_eq_some_of_single (h.mem_iff.mp ha) hp fun b hb hpb =>
      hsingle b (h.mem_iff.mpr hb) a ha hpb hp).symm

/-! ## 2. What a gate sees -/

/-- The output signals of a state, by gate and pin. -/
def shown (state : GateId → Node ε) (id : GateId) (pin : Nat) : Bool :=
  (state id).outputs.getD pin false

namespace Circuit

/-- The signals at the inputs of a gate when outputs are read by `read`: a driven pin shows the
    output wired to it, and any other pin keeps its stored signal. -/
def seen (c : Circuit Definition) (read : GateId → Nat → Bool) (id : GateId)
    (stored : List Bool) : List Bool :=
  stored.mapIdx fun pin signal => match c.wires.find? (·.drives id pin) with
    | some w => read w.source.gate w.source.outputPin
    | none => signal

theorem getElem?_seen (c : Circuit Definition) (read : GateId → Nat → Bool) (id : GateId)
    (stored : List Bool) (pin : Nat) :
    (c.seen read id stored)[pin]? = stored[pin]?.map fun signal =>
      match c.wires.find? (·.drives id pin) with
      | some w => read w.source.gate w.source.outputPin
      | none => signal := List.getElem?_mapIdx

/-- Only what the wires into a gate show matters to it. -/
theorem seen_congr {c : Circuit Definition} {read read' : GateId → Nat → Bool} {id : GateId}
    (h : ∀ w ∈ c.wires, read w.source.gate w.source.outputPin =
      read' w.source.gate w.source.outputPin) (stored : List Bool) :
    c.seen read id stored = c.seen read' id stored := by
  refine List.ext_getElem? fun pin => ?_
  rw [getElem?_seen, getElem?_seen]
  cases hfind : c.wires.find? (·.drives id pin) with
  | none => rfl
  | some w =>
    dsimp only
    rw [h w (List.mem_of_find?_eq_some hfind)]

/-- A delayed pass at a gate: its node after the pass, and the warnings about it. -/
def reaction (run : ε → Reaction) (instant : Instant) (c : Circuit Definition)
    (before : GateId → Node ε) (id : GateId) : Node ε × List Warning :=
  (before id).react run instant (c.seen (shown before) id (before id).inputs)

end Circuit

namespace Netlist

variable {net net' : Netlist ε} {c : Circuit Definition} {compile : Definition → Except String ε}
  {before after : GateId → Node ε}

/-- **What a node sees is what its gate sees.** -/
theorem gather_eq_seen (hc : c.Valid) (hrealizes : net.Realizes c) (hwell : net.WellFormed) {i : Nat}
    {g : Gate Definition} (hg : c.gates[i]? = some g) {n : Node ε} (hn : net.nodes[i]? = some n)
    (read : Nat → Nat → Bool) :
    net.gather i read = c.seen (fun id => read (c.place id)) g.id n.inputs := by
  suffices hsees : net.Sees i n.inputs read (c.seen (fun id => read (c.place id)) g.id n.inputs) from
    ((sees_iff hwell hn).mp hsees).symm
  refine ⟨List.length_mapIdx, fun k hk hsink => ?_, fun pin hfree => ?_⟩
  · obtain ⟨w, hw, hsource, hout, hgate, hin⟩ := (hrealizes.connection k).mp hk
    have hmem := List.mem_of_getElem? hw
    have hdrives : w.drives g.id k.sinkPin = true := by
      rw [hsink, List.getElem?_map, hg, Option.map_some, Option.some.injEq] at hgate
      exact Circuit.drives_iff.mpr ⟨hgate.symm, hin⟩
    have hfound : c.wires.find? (·.drives g.id k.sinkPin) = some w :=
      find?_eq_some_of_single hmem hdrives fun u hu hdu => hc.eq_of_drives hu hmem hdu hdrives
    obtain ⟨n', hn', hpin⟩ := hwell.sink k hk
    rw [hsink, hn] at hn'
    obtain rfl : n = n' := Option.some.inj hn'
    rw [Circuit.getElem?_seen, hfound, List.getElem?_eq_getElem hpin, Option.map_some]
    dsimp only
    rw [hout, Circuit.place_eq hc hsource]
  · have hnone : c.wires.find? (·.drives g.id pin) = none := by
      refine List.find?_eq_none.mpr fun w hw hdrives => ?_
      obtain ⟨hsink, hin⟩ := Circuit.drives_iff.mp hdrives
      obtain ⟨k, hk, -, -, hksink, hkin⟩ := hrealizes.exists_connection hc hw
      rw [hsink] at hksink
      exact hfree k hk (hc.place_eq hg hksink) (Option.some.inj (hkin.symm.trans hin))
    rw [Circuit.getElem?_seen, hnone]
    cases n.inputs[pin]? <;> rfl

theorem shown_eq_outputAt (hc : c.Valid) (h : net.Has c before) {id : GateId}
    (hid : id ∈ c.gates.map (·.id)) : shown before id = net.outputAt (c.place id) := by
  obtain ⟨g, hg, rfl⟩ := List.mem_map.mp hid
  obtain ⟨i, hi⟩ := List.getElem?_of_mem hg
  have hplace : c.place g.id = i := Circuit.place_eq hc (by rw [List.getElem?_map, hi, Option.map_some])
  funext pin
  rw [hplace, h.outputAt hi, shown]

/-! ## 3. Delayed passes -/

section Delayed

variable (hc : c.Valid) (hshape : net.shape = (assemble compile c).shape) (hbefore : net.Has c before)

include hc hshape hbefore

/-- What a node sees of the outputs before the pass. -/
theorem gather_eq_seen_shown {i : Nat} {g : Gate Definition} (hg : c.gates[i]? = some g) :
    net.gather i net.outputAt = c.seen (shown before) g.id (before g.id).inputs := by
  rw [gather_eq_seen hc (realizes_of_shape hc hshape) ((wellFormed_assemble hc).of_shape hshape) hg
    (hbefore.node hg)]
  refine Circuit.seen_congr (fun w hw => ?_) _
  obtain ⟨g', hg', hid, -⟩ := hc.source w hw
  have hmem : w.source.gate ∈ c.gates.map (·.id) := hid ▸ List.mem_map_of_mem hg'
  rw [shown_eq_outputAt hc hbefore hmem]

/-- **A delayed pass is the reaction of each gate.** -/
theorem results_delayed :
    (net.nodes.mapIdx fun i n => n.react run instant (net.gather i net.outputAt)) =
      c.gates.map fun g => c.reaction run instant before g.id := by
  refine List.ext_getElem? fun i => ?_
  rw [List.getElem?_mapIdx, List.getElem?_map]
  cases hg : c.gates[i]? with
  | none =>
    rw [hbefore, List.getElem?_map, hg]
    rfl
  | some g =>
    rw [hbefore.node hg, Option.map_some, Option.map_some,
      gather_eq_seen_shown hc hshape hbefore hg, Circuit.reaction]

theorem has_delayed : (net.delayed run instant).netlist.Has c
    fun id => (c.reaction run instant before id).1 := by
  rw [Has, delayed, results_delayed hc hshape hbefore, List.map_map]
  rfl

theorem warnings_delayed : (net.delayed run instant).warnings =
    c.gates.flatMap fun g => (c.reaction run instant before g.id).2 := by
  rw [delayed, results_delayed hc hshape hbefore, List.flatMap_map]

theorem changed_delayed : (net.delayed run instant).changed =
    c.gates.any fun g =>
      (before g.id).outputs != (c.reaction run instant before g.id).1.outputs := by
  rw [delayed, results_delayed hc hshape hbefore, hbefore, List.zip_map', List.any_map]
  rfl

end Delayed

/-! ## 4. Immediate passes -/

/-- The warnings about a node as a function of the outputs that it reads. -/
def warningsAt (run : ε → Reaction) (instant : Instant) (net : Netlist ε) (i : Nat)
    (read : Nat → Nat → Bool) : List Warning :=
  (net.nodes[i]?.map fun n => (n.react run instant (net.gather i read)).2).getD []

theorem warnings_visit {schedule : Schedule} (s : Sweep ε) (i : Nat) :
    (visit run schedule instant net s i).warnings =
      s.warnings ++ s.netlist.warningsAt run instant i (readScheduled schedule net s.netlist i) := by
  unfold visit warningsAt
  split
  next h => rw [h, Option.map_none, Option.getD_none, List.append_nil]
  next n h => rw [h, Option.map_some, Option.getD_some]

/-- Visits of other nodes leave a node as it is. -/
theorem getElem?_foldl_visit_of_notMem {schedule : Schedule} {l : List Nat} {i : Nat} (hi : i ∉ l)
    (s : Sweep ε) :
    (l.foldl (visit run schedule instant net) s).netlist.nodes[i]? = s.netlist.nodes[i]? := by
  induction l generalizing s with
  | nil => rfl
  | cons v l ih =>
    rw [List.mem_cons, not_or] at hi
    rw [List.foldl_cons, ih hi.2, getElem?_visit_of_ne _ _ _ _ _ (Ne.symm hi.1)]

/-- **An immediate pass warns of each node once**, by what the node sees at the end of the pass. -/
theorem warnings_immediate {schedule : Schedule} (hd : schedule.dependencies = net.dependencies)
    (h : net.WellFormed) (horder : Dependencies.IsOrder net.dependencies schedule.order) :
    (net.immediate run schedule instant).warnings = schedule.order.flatMap fun i =>
      net.warningsAt run instant i
        (net.readResolved (net.immediate run schedule instant).netlist i) := by
  generalize hfinal : (net.immediate run schedule instant).netlist = final
  suffices hprefix : ∀ l r, schedule.order = l ++ r →
      (l.foldl (visit run schedule instant net) { netlist := net }).warnings =
        l.flatMap fun i => net.warningsAt run instant i (net.readResolved final i) from
    hprefix schedule.order [] (List.append_nil _).symm
  intro l
  induction l using List.reverseRecOn with
  | nil => exact fun _ _ => rfl
  | append_singleton l v ih =>
    intro r hl
    rw [List.append_assoc] at hl
    have hvisited : Visited run instant net l
        (l.foldl (visit run schedule instant net) { netlist := net }).netlist :=
      visited_foldl hd h horder hl
    rw [List.foldl_append, List.foldl_cons, List.foldl_nil, warnings_visit, ih _ hl,
      List.flatMap_append, List.flatMap_singleton]
    generalize hs : l.foldl (visit run schedule instant net) { netlist := net } = s at hvisited
    have hv : v ∉ l := fun hmem => horder.notMem_behind hl hmem List.mem_cons_self
    have hgather : s.netlist.gather v (readScheduled schedule net s.netlist v) =
        net.gather v (net.readResolved final v) := by
      rw [hvisited.gather_next hd hv]
      refine gather_congr (readResolved_congr h fun j hj => ?_)
      -- what `v` depends on comes before it, and is not visited again
      have hjr : j ∉ [v] ++ r := horder.notMem_behind hl (horder.after l v r hl j hj)
      have hfold : final = (([v] ++ r).foldl (visit run schedule instant net) s).netlist := by
        rw [← hfinal, immediate, hl, List.foldl_append, hs]
      rw [hfold]
      exact getElem?_foldl_visit_of_notMem hjr s
    rw [warningsAt, warningsAt, hvisited.rest v hv, hgather]

/-- **An immediate pass warns of each gate once.** -/
theorem perm_warnings_immediate (hc : c.Valid) (hshape : net.shape = (assemble compile c).shape)
    (hbefore : net.Has c before) {schedule : Schedule}
    (hs : net.dependencies.schedule = .ok schedule)
    (hafter : (net.immediate run schedule instant).netlist.Has c after) :
    (net.immediate run schedule instant).warnings.Perm
      (c.gates.flatMap fun g => ((before g.id).react run instant (after g.id).inputs).2) := by
  have hwell := (wellFormed_assemble hc).of_shape hshape
  obtain ⟨hd, horder⟩ :=
    Dependencies.isOrder_of_schedule (fun v w => lt_of_mem_dependencies hwell) hs
  have hrange : schedule.order.Perm (List.range c.gates.length) := by
    refine (List.perm_ext_iff_of_nodup horder.nodup List.nodup_range).mpr fun v => ?_
    rw [horder.mem, size_dependencies, length_of_assemble hshape, List.mem_range]
  have hresolves : net.Resolves run instant (net.immediate run schedule instant).netlist :=
    resolves_immediate hwell hd horder
  have hnodes := ((resolves_iff_react hwell).mp hresolves).2
  rw [warnings_immediate hd hwell horder]
  refine (hrange.flatMap_right _).trans (.of_eq ?_)
  rw [List.flatMap_def, List.flatMap_def]
  refine congrArg List.flatten (List.ext_getElem? fun i => ?_)
  rw [List.getElem?_map, List.getElem?_map]
  cases hg : c.gates[i]? with
  | none =>
    rw [List.getElem?_eq_none_iff] at hg
    rw [List.getElem?_eq_none (by rwa [List.length_range]), Option.map_none, Option.map_none]
  | some g =>
    have hi := (List.getElem?_eq_some_iff.mp hg).1
    have hinputs := hnodes i
    rw [hafter.node hg, reactAt, hbefore.node hg, Option.map_some, Option.some.injEq] at hinputs
    rw [List.getElem?_range hi, Option.map_some, Option.map_some, warningsAt, hbefore.node hg,
      Option.map_some, Option.getD_some, hinputs, Node.inputs_react]

/-! ## 5. The circuit that comes back -/

/-- **Each gate comes back with its node.** -/
theorem gates_writeBack (h : net.Has c after) :
    (net.writeBack c).gates = c.gates.map fun g => (after g.id).store g := by
  refine List.ext_getElem? fun i => ?_
  rw [getElem?_gates_writeBack, List.getElem?_map]
  cases hg : c.gates[i]? with
  | none => rfl
  | some g => rw [h.node hg]; rfl

/-- **Each wire comes back with the signal at its source.** -/
theorem wires_writeBack (hc : c.Valid) (hrealizes : net.Realizes c) (h : net.Has c after) :
    (net.writeBack c).wires = c.wires.map fun w =>
      { w with isActive := shown after w.source.gate w.source.outputPin } := by
  refine List.ext_getElem? fun number => ?_
  rw [writeBack, List.getElem?_mapIdx, List.getElem?_map]
  cases hw : c.wires[number]? with
  | none => rfl
  | some w =>
    obtain ⟨k, hk, hwire, -⟩ := hrealizes.exists_numbered hc hw
    obtain ⟨l, hl⟩ : ∃ l, net.connections.find? (·.wire = number) = some l := by
      rw [← Option.isSome_iff_exists, List.find?_isSome]
      exact ⟨k, hk, by simpa using hwire⟩
    have hlwire : l.wire = number := by simpa using List.find?_some hl
    obtain ⟨u, hu, hsource, hout, -⟩ :=
      (hrealizes.connection l).mp (List.mem_of_find?_eq_some hl)
    obtain rfl : w = u := Option.some.inj (hw.symm.trans (hlwire ▸ hu))
    rw [Option.map_some, Option.map_some, hl]
    dsimp only
    rw [← hout, shown_eq_outputAt hc h (List.mem_of_getElem? hsource), Circuit.place_eq hc hsource]

theorem wire?_writeBack (hc : c.Valid) (hrealizes : net.Realizes c) (h : net.Has c after) {w : Wire}
    (hw : w ∈ c.wires) : (net.writeBack c).wire? w.id =
      some { w with isActive := shown after w.source.gate w.source.outputPin } := by
  have hids := congrArg (·.map Prod.fst) (net.ends_writeBack c)
  simp only [List.map_map] at hids
  have hmem := List.mem_map_of_mem (f := fun w : Wire =>
    { w with isActive := shown after w.source.gate w.source.outputPin }) hw
  rw [← wires_writeBack hc hrealizes h] at hmem
  exact Circuit.wire?_eq_some (hids ▸ hc.wireIds) hmem

end Netlist

/-! ## 6. Evaluations -/

theorem Evaluator.shape_assemble (e : Evaluator) (c : Circuit Definition) : (e.assemble c).shape =
    (Netlist.assemble (Definition.compile e.deepest e.deepest) c).shape := rfl

/-- **An immediate evaluation is a pass that finds the solution** and warns of each gate once. -/
theorem Evaluator.exists_immediate {c : Circuit Definition} (hc : c.Valid)
    (hcycle : ¬ c.CombinationalCycle) (e : Evaluator) (now : UInt64) :
    ∃ (s : Sweep Expansion) (after : GateId → Node Expansion),
      e.immediate c now = finish c s none ∧ s.netlist.Realizes c ∧ s.netlist.Has c after ∧
      c.Solves Expansion.react (e.instant now)
        (c.startState (Definition.compile e.deepest e.deepest)) after ∧
      s.warnings.Perm (c.gates.flatMap fun g =>
        ((c.startState (Definition.compile e.deepest e.deepest) g.id).react Expansion.react
          (e.instant now) (after g.id).inputs).2) := by
  obtain ⟨schedule, hs⟩ : ∃ s, (e.assemble c).dependencies.schedule = .ok s :=
    (Netlist.schedule_iff hc (e.shape_assemble c)).mpr hcycle
  have hstart : (e.assemble c).Has c (c.startState (Definition.compile e.deepest e.deepest)) :=
    Circuit.has_startState hc
  obtain ⟨after, hhas, hsolves⟩ := Circuit.solves_immediate hc (e.shape_assemble c) hstart hs
  exact ⟨_, after, immediate_of_schedule hc e now hs,
    (Netlist.realizes_assemble hc).of_shape (Netlist.shape_immediate ..), hhas, hsolves,
    Netlist.perm_warnings_immediate hc (e.shape_assemble c) hstart hs hhas⟩

end LogicSim
