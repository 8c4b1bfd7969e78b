import LogicSim.Proofs.Evaluation.Spread
import LogicSim.Proofs.Service.Calls

/-!
# Oscillation

A closed chain of inverters (`Circuit.InverterLoop`) has a steady state only if it is of even length:
along the chain the signal changes at every gate, and must be what it was when it comes back. An odd
chain therefore changes in every delayed pass, from whatever signals it starts and whatever else there
is in the circuit.

* `Circuit.InverterLoop.changed_delayed` -- one pass over a netlist;
* `Evaluator.changed_of_loop` -- any number of passes in calls of their own;
* `Service.settle_of_loop` -- a call that is to settle fails, however many passes it may take.
-/

namespace LogicSim

open Netlist Relation

variable {ε : Type} {run : ε → Reaction} {instant : Instant}
  {compile : Definition → Except String ε} {c c' : Circuit Definition}

/-! ## 1. Chains of inverters -/

/-- **A closed chain of inverters**: the input of each is wired to the first output of the one
    before. -/
structure Circuit.InverterLoop (c : Circuit Definition) (length : Nat) (name : Nat → GateId) :
    Prop where
  gate : ∀ i < length, ∃ g ∈ c.gates, g.id = name i ∧ g.kind = .not ∧ g.inputCount = 1
  wire : ∀ i < length, ∃ w ∈ c.wires, w.source.gate = name i ∧ w.source.outputPin = 0 ∧
    w.drives (name ((i + 1) % length)) 0 = true

/-- A chain is a matter of the build of the circuit. -/
theorem Circuit.InverterLoop.alike {length : Nat} {name : Nat → GateId}
    (h : c.InverterLoop length name) (halike : c.Alike c') : c'.InverterLoop length name := by
  refine ⟨fun i hi => ?_, fun i hi => ?_⟩
  · obtain ⟨g, hg, hid, hk, hone⟩ := h.gate i hi
    obtain ⟨g', hg', he⟩ := halike.exists_gate hg
    have hcount : g'.inputCount = g.inputCount := congrArg Outline.inputs he
    exact ⟨g', hg', (congrArg Outline.id he).trans hid, (congrArg Outline.kind he).trans hk,
      hcount.trans hone⟩
  · obtain ⟨w, hw, hsource, hpin, hdrives⟩ := h.wire i hi
    obtain ⟨w', hw', he⟩ := halike.exists_wire hw
    have hsame : w'.source = w.source := Wire.source_of_ends he
    exact ⟨w', hw', hsame ▸ hsource, hsame ▸ hpin, Wire.drives_of_ends he .. ▸ hdrives⟩

/-- Inverters are not sequential, so that the chain is a cycle of which an immediate pass can make
    nothing. -/
theorem Circuit.InverterLoop.combinationalCycle {length : Nat} {name : Nat → GateId}
    (h : c.InverterLoop length name) (hc : c.Valid) (hpositive : 0 < length) :
    c.CombinationalCycle := by
  have hcombinational : ∀ i < length, ¬ c.Sequential (name i) := by
    intro i hi
    obtain ⟨g, hg, hid, hk, -⟩ := h.gate i hi
    rw [← hid, sequential_iff hc hg, hk]
    decide
  have hstep : ∀ i < length, c.Combinational (name i) (name ((i + 1) % length)) := by
    intro i hi
    obtain ⟨w, hw, hsource, -, hdrives⟩ := h.wire i hi
    exact ⟨⟨w, hw, hsource, (drives_iff.mp hdrives).1⟩, hcombinational i hi,
      hcombinational _ (Nat.mod_lt _ hpositive)⟩
  have halong : ∀ k < length, TransGen c.Combinational (name 0) (name ((k + 1) % length)) := by
    intro k
    induction k with
    | zero => exact fun h0 => .single (hstep 0 h0)
    | succ k ih =>
      intro hk
      have hbefore := ih (Nat.lt_of_succ_lt hk)
      rw [Nat.mod_eq_of_lt hk] at hbefore
      exact hbefore.tail (hstep (k + 1) hk)
  have hround := halong (length - 1) (Nat.sub_lt hpositive Nat.zero_lt_one)
  rw [Nat.sub_add_cancel hpositive, Nat.mod_self] at hround
  exact ⟨name 0, hround⟩

/-- **Parity**: signals that change at every step of a closed chain are even in number. -/
theorem even_of_alternating {length : Nat} (level : Nat → Bool)
    (h : ∀ i < length, level ((i + 1) % length) = !level i) : length % 2 = 0 := by
  have halong : ∀ k ≤ length, level (k % length) = (level 0 ^^ decide (k % 2 = 1)) := by
    intro k
    induction k with
    | zero => intro _; simp
    | succ k ih =>
      intro hk
      have hlt : k < length := hk
      have hbefore := ih (Nat.le_of_lt hlt)
      rw [Nat.mod_eq_of_lt hlt] at hbefore
      rw [h k hlt, hbefore]
      rcases Nat.mod_two_eq_zero_or_one k with hpar | hpar <;> simp [hpar, Nat.add_mod]
  have hround := halong length (Nat.le_refl _)
  rcases Nat.mod_two_eq_zero_or_one length with hpar | hpar
  · exact hpar
  · simp [hpar] at hround

/-! ## 2. One pass -/

/-- The node of an inverter is one. -/
theorem Node.Kept.element_not {g : Gate Definition} {n : Node ε} (h : n.Kept compile g)
    (hk : g.kind = .not) : n.element = .not := by
  have hfits := h.fits
  cases he : n.element <;> rw [he] at hfits <;> simp [Element.Fits, Element.ofGate, hk] at hfits ⊢

/-- It shows the complement of what it sees. -/
theorem Node.Kept.react_not {g : Gate Definition} {n : Node ε} (h : n.Kept compile g)
    (hk : g.kind = .not) (signal : Bool) :
    (n.react run instant [signal]).1.outputs.getD 0 false = !signal := by
  have heval : n.element.evaluate run instant [signal] = .ok (.not, ⟨[!signal], []⟩) := by
    rw [h.element_not hk]
    rfl
  have hpositive : 0 < n.outputs.length := by
    rw [h.length_outputs, Gate.returnedOutputs, hk]
    show 0 < g.outputCount
    rw [Gate.outputCount, hk]
    exact Nat.lt_of_lt_of_le Nat.zero_lt_one (Nat.le_max_right _ _)
  rw [Node.react_of_ok h.forced heval]
  obtain ⟨k, hlength⟩ := Nat.exists_eq_succ_of_ne_zero (Nat.ne_of_gt hpositive)
  simp [Signal.resize, hlength]

namespace Netlist

variable {net : Netlist ε}

/-- **An inverter shows, after a pass, the complement of what drives it.** -/
theorem Kept.reaction_not (hc : c.Valid) (h : net.Kept compile c) {g : Gate Definition}
    (hg : g ∈ c.gates) (hk : g.kind = .not) (hone : g.inputCount = 1) {w : Wire} (hw : w ∈ c.wires)
    (hdrives : w.drives g.id 0 = true) :
    LogicSim.shown (fun id => (c.reaction run instant (net.stateOf c) id).1) g.id 0 =
      !LogicSim.shown (net.stateOf c) w.source.gate w.source.outputPin := by
  obtain ⟨i, hi⟩ := List.getElem?_of_mem hg
  obtain ⟨n, hn, hkept⟩ := h.exists_node hi
  have hstate : net.stateOf c g.id = n :=
    Option.some.inj (((has_stateOf hc (length_of_assemble h.shape)).node hi).symm.trans hn)
  have hfound : c.wires.find? (·.drives g.id 0) = some w :=
    find?_eq_some_of_single hw hdrives fun u hu hdu => hc.eq_of_drives hu hw hdu hdrives
  have hseen : c.seen (LogicSim.shown (net.stateOf c)) g.id n.inputs =
      [LogicSim.shown (net.stateOf c) w.source.gate w.source.outputPin] := by
    have hlength : n.inputs.length = 1 := hkept.length_inputs.trans hone
    obtain ⟨stored, hstored⟩ := List.length_eq_one_iff.mp hlength
    rw [hstored, Circuit.seen, List.mapIdx_singleton, hfound]
  rw [LogicSim.shown, Circuit.reaction, hstate, hseen]
  exact hkept.react_not hk _

end Netlist

/-- **An odd chain changes in every pass.** -/
theorem Circuit.InverterLoop.changed_delayed {length : Nat} {name : Nat → GateId}
    (h : c.InverterLoop length name) (hc : c.Valid) (hodd : length % 2 = 1) {net : Netlist ε}
    (hkept : net.Kept compile c) : (net.delayed run instant).changed = true := by
  by_contra hquiet
  rw [Netlist.changed_delayed hc hkept.shape (has_stateOf hc (length_of_assemble hkept.shape)),
    List.any_eq_true] at hquiet
  have hpositive : 0 < length := Nat.pos_of_ne_zero (by rintro rfl; cases hodd)
  -- a quiet pass would leave signals that alternate along the chain
  have halternating : ∀ i < length, LogicSim.shown (net.stateOf c) (name ((i + 1) % length)) 0 =
      !LogicSim.shown (net.stateOf c) (name i) 0 := by
    intro i hi
    obtain ⟨w, hw, hsource, hpin, hdrives⟩ := h.wire i hi
    obtain ⟨g, hg, hid, hk, hone⟩ := h.gate ((i + 1) % length) (Nat.mod_lt _ hpositive)
    have hsame : (net.stateOf c g.id).outputs =
        (c.reaction run instant (net.stateOf c) g.id).1.outputs := by
      by_contra hne
      exact hquiet ⟨g, hg, bne_iff_ne.mpr hne⟩
    have hreaction : LogicSim.shown (fun id => (c.reaction run instant (net.stateOf c) id).1) g.id 0 =
        !LogicSim.shown (net.stateOf c) w.source.gate w.source.outputPin :=
      hkept.reaction_not hc hg hk hone hw (hid ▸ hdrives)
    rw [hsource, hpin] at hreaction
    rw [← hreaction, ← hid, LogicSim.shown, hsame, LogicSim.shown]
  have heven := even_of_alternating (fun i => LogicSim.shown (net.stateOf c) (name i) 0) halternating
  omega

/-! ## 3. Many passes -/

/-- Gates that come back with all their outputs leave the build of the circuit as it is. -/
theorem Evaluator.alike_delayed (hc : c.Valid)
    (hfull : ∀ g ∈ c.gates, g.returnedOutputs = g.outputCount) (e : Evaluator) (now : UInt64) :
    c.Alike (e.delayed c now).circuit := by
  rw [delayed_of_valid hc]
  refine ⟨?_, ends_writeBack ..⟩
  rw [finish, outlines_writeBack ((shape_delayed _).trans (e.shape_assemble c)), List.map_map]
  refine List.map_congr_left fun g hg => ?_
  show Outline.mk g.id g.kind g.inputCount g.returnedOutputs _ = g.outline
  rw [hfull g hg]
  rfl

theorem Circuit.Alike.returnedOutputs (h : c.Alike c')
    (hfull : ∀ g ∈ c.gates, g.returnedOutputs = g.outputCount) :
    ∀ g ∈ c'.gates, g.returnedOutputs = g.outputCount := by
  intro g hg
  obtain ⟨g', hg', he⟩ := h.symm.exists_gate hg
  have hreturned : g'.returnedOutputs = g.returnedOutputs :=
    congrArg (fun o : Outline => o.shape.outputs) he
  have houtputs : g'.outputCount = g.outputCount := congrArg Outline.outputs he
  rw [← hreturned, ← houtputs, hfull g' hg']

section Loop

variable {length : Nat} {name : Nat → GateId}

/-- **Passes in calls of their own.** Each of them reports a change. -/
theorem Evaluator.changed_of_loop (hloop : c.InverterLoop length name) (hodd : length % 2 = 1)
    (hc : c.Valid) (hfull : ∀ g ∈ c.gates, g.returnedOutputs = g.outputCount) (e : Evaluator)
    (times : List UInt64) (now : UInt64) :
    (e.delayed (e.after c (times.map .delayed)) now).changed = some true := by
  induction times generalizing c with
  | nil =>
    show (e.delayed c now).changed = some true
    rw [delayed_of_valid hc, finish]
    exact congrArg some (hloop.changed_delayed hc hodd (kept_assemble _ c))
  | cons first times ih =>
    have halike : c.Alike (e.delayed c first).circuit := alike_delayed hc hfull e first
    rw [after_cons_delayed]
    exact ih (hloop.alike halike) (halike.valid hc) (halike.returnedOutputs hfull)

/-- **Settling fails** within any number of passes, by a service that accepts the circuit. -/
theorem Service.settle_of_loop (hloop : c.InverterLoop length name) (hodd : length % 2 = 1)
    (hcheck : c.check = []) (s : Service) :
    (s.settle c).1 =
      if (s.evaluator.assemble c).size ≤ s.config.gateLimit then
        .error (.oscillation s.config.settleLimit)
      else .error (.tooLarge (s.evaluator.assemble c).size s.config.gateLimit) := by
  have hc := Circuit.check_eq_nil_iff.mp hcheck
  split
  next hsize =>
    refine settle_of_restless (start_eq_ok_iff.mpr ⟨hcheck, hsize, rfl, rfl⟩) fun j _ hquiet => ?_
    have hkept : ((s.callOf c).state.netlist.after Expansion.react (s.callOf c).instant j).Kept
        (Definition.compile s.evaluator.deepest s.evaluator.deepest) c :=
      after_keeps (P := Netlist.Kept _ c) (fun _ h => h.delayed) (kept_assemble _ c) j
    rw [QuietAfter, hloop.changed_delayed hc hodd hkept] at hquiet
    cases hquiet
  next hsize =>
    rw [settle, call_of_refused (start_of_large hcheck (Nat.lt_of_not_le hsize))]

end Loop

end LogicSim
