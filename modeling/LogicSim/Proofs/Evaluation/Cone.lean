import LogicSim.Proofs.Evaluation.Continuation
import LogicSim.Proofs.Evaluation.Reordering

/-!
# A gate depends on what drives it, and on nothing else

Two circuits share a set of gates if the set is closed under what drives it, and both have the same
gates of the set and the same wires into them (`Circuit.Shares`). Whatever else they contain, every
gate of the set then gets the same signals and memory in both, in an immediate pass and in any run of
calls (`Evaluator.depends_on_drivers`).

The schedule, the components and feedback are worked out for a circuit as a whole. A delayed pass does
not need them. For an immediate pass the set is taken as a circuit of its own (`Circuit.within`): the
paths that lead into it are the same in all three (`Circuit.Shares.feedback_iff`), so that both
circuits solve its equations, which have one solution.
-/

namespace LogicSim

open Netlist Relation

variable {ε : Type} {run : ε → Reaction} {instant : Instant} {c c' d : Circuit Definition}
  {U : Set GateId}

/-! ## 1. Shared gates -/

namespace Circuit

/-- Whether a wire leads from one end to another. -/
def HasWire (c : Circuit Definition) (source sink : Endpoint) : Prop :=
  ∃ w ∈ c.wires, w.source = source ∧ w.sink = sink

/-- **Two circuits share a set of gates**: they have the same gates of the set, the same wires into
    them, and these wires come from gates of the set. -/
structure Shares (c : Circuit Definition) (U : Set GateId) (c' : Circuit Definition) : Prop where
  gates : ∀ g : Gate Definition, g.id ∈ U → (g ∈ c.gates ↔ g ∈ c'.gates)
  wires : ∀ source sink : Endpoint, sink.gate ∈ U → (c.HasWire source sink ↔ c'.HasWire source sink)
  closed : ∀ w ∈ c.wires, w.sink.gate ∈ U → w.source.gate ∈ U

namespace Shares

theorem refl (hclosed : ∀ w ∈ c.wires, w.sink.gate ∈ U → w.source.gate ∈ U) : c.Shares U c :=
  ⟨fun _ _ => .rfl, fun _ _ _ => .rfl, hclosed⟩

/-- A wire into the set has its like in the other circuit. -/
theorem exists_wire (h : c.Shares U c') {w : Wire} (hw : w ∈ c.wires) (hsink : w.sink.gate ∈ U) :
    ∃ w' ∈ c'.wires, w'.source = w.source ∧ w'.sink = w.sink :=
  (h.wires w.source w.sink hsink).mp ⟨w, hw, rfl, rfl⟩

theorem symm (h : c.Shares U c') : c'.Shares U c := by
  refine ⟨fun g hg => (h.gates g hg).symm, fun source sink hsink => (h.wires source sink hsink).symm,
    fun w hw hsink => ?_⟩
  obtain ⟨w', hw', hsource', hsink'⟩ := (h.wires w.source w.sink hsink).mpr ⟨w, hw, rfl, rfl⟩
  rw [← hsource']
  exact h.closed w' hw' (hsink' ▸ hsink)

theorem trans (h : c.Shares U c') (h' : c'.Shares U d) : c.Shares U d :=
  ⟨fun g hg => (h.gates g hg).trans (h'.gates g hg),
    fun source sink hsink => (h.wires source sink hsink).trans (h'.wires source sink hsink), h.closed⟩

/-- A gate outside the set can be added. -/
theorem add (h : c.Shares U c') {g : Gate Definition} (hg : g.id ∉ U) : c.Shares U (c'.add g) := by
  refine ⟨fun g' hg' => ?_, h.wires, h.closed⟩
  have hne : g' ≠ g := fun he => hg (he ▸ hg')
  rw [h.gates g' hg', Circuit.add, List.mem_append, List.mem_singleton, or_iff_left hne]

/-- A wire that leads out of the set can be added. -/
theorem addWire (h : c.Shares U c') {w : Wire} (hw : w.sink.gate ∉ U) :
    c.Shares U (c'.addWire w) := by
  refine ⟨h.gates, fun source sink hsink => (h.wires source sink hsink).trans ⟨?_, ?_⟩, h.closed⟩
  · rintro ⟨u, hu, hends⟩
    exact ⟨u, List.mem_append_left _ hu, hends⟩
  · rintro ⟨u, hu, hends⟩
    obtain hu | hu := List.mem_append.mp hu
    · exact ⟨u, hu, hends⟩
    · obtain rfl := List.mem_singleton.mp hu
      exact absurd (hends.2 ▸ hsink) hw

/-- **A gate of the set is found in both circuits or in none.** -/
theorem gate?_eq (h : c.Shares U c') (hnodup : (c.gates.map (·.id)).Nodup)
    (hnodup' : (c'.gates.map (·.id)).Nodup) {id : GateId} (hid : id ∈ U) :
    c.gate? id = c'.gate? id := by
  have hfound : ∀ {g : Gate Definition}, g ∈ c.gates → g.id = id → c.gate? id = c'.gate? id := by
    rintro g hg rfl
    rw [gate?_eq_some hnodup hg, gate?_eq_some hnodup' ((h.gates g hid).mp hg)]
  cases hc : c.gate? id with
  | some g =>
    have hgid := List.find?_some hc
    rw [← hc]
    exact hfound (List.mem_of_find?_eq_some hc) (of_decide_eq_true hgid)
  | none =>
    refine (List.find?_eq_none.mpr fun g hg hgid => ?_).symm
    have hgid : g.id = id := of_decide_eq_true hgid
    exact List.find?_eq_none.mp hc g ((h.gates g (hgid ▸ hid)).mpr hg) (decide_eq_true hgid)

/-! ## 2. Paths into the set -/

theorem wired (h : c.Shares U c') {a b : GateId} (hb : b ∈ U) (hab : c.Wired a b) :
    a ∈ U ∧ c'.Wired a b := by
  obtain ⟨w, hw, rfl, rfl⟩ := hab
  obtain ⟨w', hw', hsource, hsink⟩ := h.exists_wire hw hb
  exact ⟨h.closed w hw hb, w', hw', congrArg _ hsource, congrArg _ hsink⟩

/-- **A path that ends in the set stays in it**, and is one of the other circuit too. -/
theorem path (h : c.Shares U c') {a b : GateId} (hb : b ∈ U) (hab : ReflTransGen c.Wired a b) :
    a ∈ U ∧ ReflTransGen c'.Wired a b := by
  induction hab using ReflTransGen.head_induction_on with
  | refl => exact ⟨hb, .refl⟩
  | head hstep _ ih =>
    obtain ⟨ha, hstep'⟩ := h.wired ih.1 hstep
    exact ⟨ha, .head hstep' ih.2⟩

theorem sequential (h : c.Shares U c') {id : GateId} (hid : id ∈ U) (hs : c.Sequential id) :
    c'.Sequential id := by
  obtain ⟨g, hg, rfl, hseq⟩ := hs
  exact ⟨g, (h.gates g hid).mp hg, rfl, hseq⟩

theorem feedback (h : c.Shares U c') {a b : GateId} (hb : b ∈ U) (hab : c.Feedback a b) :
    c'.Feedback a b := by
  obtain ⟨hseq, hforth, hback⟩ := hab
  obtain ⟨ha, hforth'⟩ := h.path hb hforth
  exact ⟨h.sequential hb hseq, hforth', (h.path ha hback).2⟩

/-- **Feedback into the set is feedback in both circuits.** -/
theorem feedback_iff (h : c.Shares U c') {a b : GateId} (hb : b ∈ U) :
    c.Feedback a b ↔ c'.Feedback a b := ⟨h.feedback hb, h.symm.feedback hb⟩

end Shares

/-! ## 3. The set as a circuit of its own -/

open Classical in
/-- The gates of a set, with the wires into them. -/
noncomputable def within (c : Circuit Definition) (U : Set GateId) : Circuit Definition :=
  { gates := c.gates.filter fun g => g.id ∈ U
    wires := c.wires.filter fun w => w.sink.gate ∈ U }

theorem mem_gates_within {g : Gate Definition} :
    g ∈ (c.within U).gates ↔ g ∈ c.gates ∧ g.id ∈ U := by
  simp [within]

theorem mem_wires_within {w : Wire} :
    w ∈ (c.within U).wires ↔ w ∈ c.wires ∧ w.sink.gate ∈ U := by
  simp [within]

theorem shares_within (hclosed : ∀ w ∈ c.wires, w.sink.gate ∈ U → w.source.gate ∈ U) :
    c.Shares U (c.within U) := by
  refine ⟨fun g hg => ?_, fun source sink hsink => ⟨?_, ?_⟩, hclosed⟩
  · rw [mem_gates_within, and_iff_left hg]
  · rintro ⟨w, hw, rfl, rfl⟩
    exact ⟨w, mem_wires_within.mpr ⟨hw, hsink⟩, rfl, rfl⟩
  · rintro ⟨w, hw, rfl, rfl⟩
    exact ⟨w, (mem_wires_within.mp hw).1, rfl, rfl⟩

theorem Valid.within (hc : c.Valid) (hclosed : ∀ w ∈ c.wires, w.sink.gate ∈ U → w.source.gate ∈ U) :
    (c.within U).Valid := by
  have hgates : (c.within U).gates.Sublist c.gates := List.filter_sublist
  have hwires : (c.within U).wires.Sublist c.wires := List.filter_sublist
  refine ⟨(hgates.map _).nodup hc.gateIds, (hwires.map _).nodup hc.wireIds, fun w hw => ?_,
    fun w hw => ?_, hc.single.sublist hwires⟩
  · obtain ⟨hmem, hsink⟩ := mem_wires_within.mp hw
    obtain ⟨g, hg, hid, hpin⟩ := hc.source w hmem
    exact ⟨g, mem_gates_within.mpr ⟨hg, hid ▸ hclosed w hmem hsink⟩, hid, hpin⟩
  · obtain ⟨hmem, hsink⟩ := mem_wires_within.mp hw
    obtain ⟨g, hg, hid, hpin⟩ := hc.sink w hmem
    exact ⟨g, mem_gates_within.mpr ⟨hg, hid ▸ hsink⟩, hid, hpin⟩

/-- A part of a circuit has no other cycles. -/
theorem not_combinationalCycle_within
    (hclosed : ∀ w ∈ c.wires, w.sink.gate ∈ U → w.source.gate ∈ U) (hcycle : ¬ c.CombinationalCycle) :
    ¬ (c.within U).CombinationalCycle := by
  have hshares := (shares_within hclosed).symm
  refine fun ⟨id, hid⟩ => hcycle ⟨id, TransGen.mono (fun a b hab => ?_) _ _ hid⟩
  obtain ⟨⟨w, hw, rfl, rfl⟩, hsource, hsink⟩ := hab
  obtain ⟨hmem, hin⟩ := mem_wires_within.mp hw
  exact ⟨⟨w, hmem, rfl, rfl⟩,
    fun hs => hsource (hshares.symm.sequential (hclosed w hmem hin) hs),
    fun hs => hsink (hshares.symm.sequential hin hs)⟩

/-! ## 4. Immediate passes -/

/-- **A solution for a circuit is one for a part of it**, all of whose gates are shared. -/
theorem Solves.of_shares {before before' after : GateId → Node ε} (hd : d.Valid) (h : c.Shares U d)
    (hall : ∀ g ∈ d.gates, g.id ∈ U) (hbefore : ∀ g ∈ d.gates, before' g.id = before g.id)
    (hsolves : c.Solves run instant before after) : d.Solves run instant before' after := by
  have hgate : ∀ g ∈ d.gates, g ∈ c.gates := fun g hg => (h.gates g (hall g hg)).mpr hg
  have hwire : ∀ w ∈ d.wires,
      w.sink.gate ∈ U ∧ ∃ w' ∈ c.wires, w'.source = w.source ∧ w'.sink = w.sink := by
    intro w hw
    obtain ⟨g, hg, hid, -⟩ := hd.sink w hw
    have hsink : w.sink.gate ∈ U := hid ▸ hall g hg
    exact ⟨hsink, h.symm.exists_wire hw hsink⟩
  refine ⟨fun g hg => ?_, fun g hg => ?_, fun w hw pin hpin hfb => ?_, fun w hw pin hpin hfb => ?_,
    fun g hg pin hfree => ?_⟩
  · rw [hbefore g hg]
    exact hsolves.follows g (hgate g hg)
  · rw [hbefore g hg]
    exact hsolves.pins g (hgate g hg)
  · obtain ⟨hsink, w', hw', hsource', hsink'⟩ := hwire w hw
    obtain ⟨g, hg, hid, -⟩ := hd.source w hw
    rw [← hid, hbefore g hg, hid, ← hsource', ← hsink']
    refine hsolves.feedback w' hw' pin (hsink' ▸ hpin) ?_
    rw [hsource', hsink']
    exact (h.feedback_iff hsink).mpr hfb
  · obtain ⟨hsink, w', hw', hsource', hsink'⟩ := hwire w hw
    rw [← hsource', ← hsink']
    refine hsolves.driven w' hw' pin (hsink' ▸ hpin) ?_
    rw [hsource', hsink']
    exact fun hfb' => hfb ((h.feedback_iff hsink).mp hfb')
  · rw [hbefore g hg]
    refine hsolves.free g (hgate g hg) pin fun w hw => drives_eq_false_iff.mpr fun ⟨hsink, hin⟩ => ?_
    obtain ⟨w', hw', -, hsink'⟩ := h.exists_wire hw (hsink ▸ hall g hg)
    exact drives_eq_false_iff.mp (hfree w' hw') ⟨hsink' ▸ hsink, hsink' ▸ hin⟩

/-- **Solutions for two circuits agree on the gates they share.** -/
theorem Solves.eq_of_shares {compile : Definition → Except String ε}
    {after after' : GateId → Node ε} (hc : c.Valid) (hc' : c'.Valid)
    (hcycle : ¬ c.CombinationalCycle) (h : c.Shares U c')
    (hsolves : c.Solves run instant (c.startState compile) after)
    (hsolves' : c'.Solves run instant (c'.startState compile) after') :
    ∀ g ∈ c.gates, g.id ∈ U → after g.id = after' g.id := by
  have hpart : (c.within U).Valid := hc.within h.closed
  have hshares : c.Shares U (c.within U) := shares_within h.closed
  have hall : ∀ g ∈ (c.within U).gates, g.id ∈ U := fun g hg => (mem_gates_within.mp hg).2
  have hstart : ∀ g ∈ (c.within U).gates,
      (c.within U).startState compile g.id = c.startState compile g.id := by
    intro g hg
    rw [startState_eq hpart hg, startState_eq hc (mem_gates_within.mp hg).1]
  have hstart' : ∀ g ∈ (c.within U).gates,
      (c.within U).startState compile g.id = c'.startState compile g.id := by
    intro g hg
    obtain ⟨hmem, hin⟩ := mem_gates_within.mp hg
    rw [startState_eq hpart hg, startState_eq hc' ((h.gates g hin).mp hmem)]
  intro g hg hin
  exact Solves.unique hpart (not_combinationalCycle_within h.closed hcycle)
    (fun g hg => by rw [startState_eq hpart hg]) (hsolves.of_shares hpart hshares hall hstart)
    (hsolves'.of_shares hpart (h.symm.trans hshares) hall hstart') g (mem_gates_within.mpr ⟨hg, hin⟩)

/-! ## 5. Delayed passes -/

namespace Shares

variable {compile : Definition → Except String ε}

theorem startState (h : c.Shares U c') (hc : c.Valid) (hc' : c'.Valid) {g : Gate Definition}
    (hg : g ∈ c.gates) (hid : g.id ∈ U) :
    c.startState compile g.id = c'.startState compile g.id := by
  rw [startState_eq hc hg, startState_eq hc' ((h.gates g hid).mp hg)]

/-- The wire that drives a pin comes from the same output in both circuits. -/
theorem driver (h : c.Shares U c') (hc' : c'.Valid) {id : GateId} {pin : Nat} (hid : id ∈ U)
    {w : Wire} (hfind : c.wires.find? (·.drives id pin) = some w) :
    ∃ w', c'.wires.find? (·.drives id pin) = some w' ∧ w'.source = w.source := by
  have hdrives := List.find?_some hfind
  obtain ⟨hgate, hpin⟩ := drives_iff.mp hdrives
  obtain ⟨w', hw', hsource, hsink⟩ :=
    h.exists_wire (List.mem_of_find?_eq_some hfind) (hgate ▸ hid)
  have hdrives' : w'.drives id pin = true := drives_iff.mpr ⟨hsink ▸ hgate, hsink ▸ hpin⟩
  exact ⟨w', find?_eq_some_of_single hw' hdrives' fun u hu hdu =>
    hc'.eq_of_drives hu hw' hdu hdrives', hsource⟩

/-- **A gate of the set sees the same in both circuits.** -/
theorem seen (h : c.Shares U c') (hc : c.Valid) (hc' : c'.Valid) {id : GateId} (hid : id ∈ U)
    {read read' : GateId → Nat → Bool}
    (hread : ∀ g ∈ c.gates, g.id ∈ U → read g.id = read' g.id) (stored : List Bool) :
    c.seen read id stored = c'.seen read' id stored := by
  refine List.ext_getElem? fun pin => ?_
  rw [getElem?_seen, getElem?_seen]
  cases hfind : c.wires.find? (·.drives id pin) with
  | some w =>
    have hmem := List.mem_of_find?_eq_some hfind
    have hdrives := List.find?_some hfind
    obtain ⟨w', hfind', hsource'⟩ := h.driver hc' hid hfind
    obtain ⟨g, hg, hgid, -⟩ := hc.source w hmem
    have hin : g.id ∈ U := hgid ▸ h.closed w hmem ((drives_iff.mp hdrives).1 ▸ hid)
    rw [hfind']
    dsimp only
    rw [hsource', ← hgid, hread g hg hin]
  | none =>
    cases hfind' : c'.wires.find? (·.drives id pin) with
    | some w' =>
      obtain ⟨w, hw, -⟩ := h.symm.driver hc hid hfind'
      rw [hfind] at hw
      cases hw
    | none => rfl

/-- **A delayed pass makes the same of a gate of the set.** -/
theorem reaction (h : c.Shares U c') (hc : c.Valid) (hc' : c'.Valid) {g : Gate Definition}
    (hg : g ∈ c.gates) (hid : g.id ∈ U) :
    c.reaction run instant (c.startState compile) g.id =
      c'.reaction run instant (c'.startState compile) g.id := by
  have hread : ∀ g ∈ c.gates, g.id ∈ U →
      shown (c.startState compile) g.id = shown (c'.startState compile) g.id := by
    intro g hg hid
    funext pin
    rw [shown, shown, h.startState hc hc' hg hid]
  rw [Circuit.reaction, Circuit.reaction, h.startState hc hc' hg hid, h.seen hc hc' hid hread]

/-! ## 6. The circuits that come back -/

variable {net net' : Netlist ε} {after after' : GateId → Node ε}

theorem hasWire_writeBack {source sink : Endpoint} :
    (net.writeBack c).HasWire source sink ↔ c.HasWire source sink := by
  have hends : ∀ {a b : Circuit Definition}, a.wires.map Wire.ends = b.wires.map Wire.ends →
      a.HasWire source sink → b.HasWire source sink := by
    rintro a b hab ⟨w, hw, rfl, rfl⟩
    have hmem := List.mem_map_of_mem (f := Wire.ends) hw
    rw [hab] at hmem
    obtain ⟨w', hw', he⟩ := List.mem_map.mp hmem
    exact ⟨w', hw', congrArg (·.2.1) he, congrArg (·.2.2) he⟩
  exact ⟨hends (ends_writeBack net c), hends (ends_writeBack net c).symm⟩

theorem mem_gates_writeBack (h : c.Shares U c') (hhas : net.Has c after) (hhas' : net'.Has c' after')
    (hsame : ∀ g ∈ c.gates, g.id ∈ U → after g.id = after' g.id) {g : Gate Definition}
    (hid : g.id ∈ U) (hg : g ∈ (net.writeBack c).gates) : g ∈ (net'.writeBack c').gates := by
  rw [gates_writeBack hhas] at hg
  obtain ⟨g₀, hmem, rfl⟩ := List.mem_map.mp hg
  have hin : g₀.id ∈ U := hid
  rw [gates_writeBack hhas', hsame g₀ hmem hin]
  exact List.mem_map_of_mem ((h.gates g₀ hin).mp hmem)

/-- **Circuits that come back with the same of each shared gate share these gates again.** -/
theorem writeBack (h : c.Shares U c') (hhas : net.Has c after) (hhas' : net'.Has c' after')
    (hsame : ∀ g ∈ c.gates, g.id ∈ U → after g.id = after' g.id) :
    (net.writeBack c).Shares U (net'.writeBack c') := by
  have hsame' : ∀ g ∈ c'.gates, g.id ∈ U → after' g.id = after g.id :=
    fun g hg hid => (hsame g ((h.gates g hid).mpr hg) hid).symm
  refine ⟨fun g hid => ⟨h.mem_gates_writeBack hhas hhas' hsame hid,
    h.symm.mem_gates_writeBack hhas' hhas hsame' hid⟩, fun source sink hsink => ?_,
    fun w hw hsink => ?_⟩
  · rw [hasWire_writeBack, hasWire_writeBack, h.wires source sink hsink]
  · obtain ⟨w', hw', hsource', hsink'⟩ := hasWire_writeBack.mp ⟨w, hw, rfl, rfl⟩
    rw [← hsource']
    exact h.closed w' hw' (hsink' ▸ hsink)

end Shares

end Circuit

/-! ## 7. Evaluations -/

namespace Evaluator

/-- The circuit after several evaluations, each of what the one before returned, if they all
    succeed. -/
def evaluateEach? (e : Evaluator) : List Pass → Circuit Definition → Option (Circuit Definition)
  | [], c => some c
  | p :: ps, c =>
    if (e.evaluate c p).succeeded then e.evaluateEach? ps (e.evaluate c p).circuit else none

variable {e : Evaluator}

/-- An evaluation that succeeds is one of a valid circuit. -/
theorem valid_of_succeeded {p : Pass} (h : (e.evaluate c p).succeeded = true) : c.Valid := by
  cases hcheck : c.check with
  | nil => exact Circuit.check_eq_nil_iff.mp hcheck
  | cons problem problems =>
    have hnet : c.netlist e.deepest = .error (problem :: problems) := by
      rw [Circuit.netlist, ofCircuit, hcheck]
    have hproblems : (e.evaluate c p).problems = problem :: problems := by
      cases p with
      | immediate now => rw [evaluate, immediate, hnet]
      | delayed now => rw [evaluate, delayed, hnet]
    rw [Evaluation.succeeded, hproblems] at h
    cases h

/-- **An evaluation that succeeds is a pass over the netlist**, written back. -/
theorem exists_sweep_of_succeeded {p : Pass} (h : (e.evaluate c p).succeeded = true) :
    ∃ sweep, e.sweep? (e.assemble c) p = some sweep ∧
      (e.evaluate c p).circuit = sweep.netlist.writeBack c := by
  have hc := valid_of_succeeded h
  obtain ⟨sweep, hsweep⟩ : ∃ sweep, e.sweep? (e.assemble c) p = some sweep := by
    cases p with
    | immediate now =>
      obtain ⟨schedule, hs⟩ := (schedule_iff hc (e.shape_assemble c)).mpr
        ((immediate_fails_iff hc e now).2.mp h)
      exact ⟨_, by rw [sweep?, hs]; rfl⟩
    | delayed now => exact ⟨_, rfl⟩
  exact ⟨sweep, hsweep, (evaluate_eq (ofCircuit_of_valid _ hc) hsweep).2.1⟩

/-- An immediate pass follows a schedule. -/
theorem exists_schedule_of_sweep {now : UInt64} {net : Netlist Expansion} {sweep : Sweep Expansion}
    (h : e.sweep? net (.immediate now) = some sweep) :
    ∃ schedule, net.dependencies.schedule = .ok schedule ∧
      net.immediate Expansion.react schedule (e.instant now) = sweep := by
  rw [sweep?] at h
  cases hs : net.dependencies.schedule with
  | ok schedule =>
    rw [hs] at h
    exact ⟨schedule, rfl, Option.some.inj h⟩
  | error cycle =>
    rw [hs] at h
    cases h

/-- **One pass makes the same of the gates that are shared.** -/
theorem sweep_of_shares (hc : c.Valid) (hc' : c'.Valid) (h : c.Shares U c') {p : Pass}
    {sweep sweep' : Sweep Expansion} (hs : e.sweep? (e.assemble c) p = some sweep)
    (hs' : e.sweep? (e.assemble c') p = some sweep') :
    ∃ after after', sweep.netlist.Has c after ∧ sweep'.netlist.Has c' after' ∧
      ∀ g ∈ c.gates, g.id ∈ U → after g.id = after' g.id := by
  have hstart : (e.assemble c).Has c _ := Circuit.has_startState hc
  have hstart' : (e.assemble c').Has c' _ := Circuit.has_startState hc'
  cases p with
  | immediate now =>
    obtain ⟨schedule, hschedule, rfl⟩ := exists_schedule_of_sweep hs
    obtain ⟨schedule', hschedule', rfl⟩ := exists_schedule_of_sweep hs'
    obtain ⟨after, hhas, hsolves⟩ :=
      Circuit.solves_immediate hc (e.shape_assemble c) hstart hschedule
    obtain ⟨after', hhas', hsolves'⟩ :=
      Circuit.solves_immediate hc' (e.shape_assemble c') hstart' hschedule'
    have hcycle := (schedule_iff hc (e.shape_assemble c)).mp ⟨schedule, hschedule⟩
    exact ⟨after, after', hhas, hhas', hsolves.eq_of_shares hc hc' hcycle h hsolves'⟩
  | delayed now =>
    obtain rfl := Option.some.inj hs
    obtain rfl := Option.some.inj hs'
    refine ⟨_, _, has_delayed hc (e.shape_assemble c) hstart,
      has_delayed hc' (e.shape_assemble c') hstart', fun g hg hid => ?_⟩
    exact congrArg Prod.fst (h.reaction hc hc' hg hid)

/-- **Evaluations that succeed return circuits that share the same gates.** -/
theorem shares_evaluate (h : c.Shares U c') {p : Pass} (hs : (e.evaluate c p).succeeded = true)
    (hs' : (e.evaluate c' p).succeeded = true) :
    (e.evaluate c p).circuit.Shares U (e.evaluate c' p).circuit := by
  obtain ⟨sweep, hsweep, hcircuit⟩ := exists_sweep_of_succeeded hs
  obtain ⟨sweep', hsweep', hcircuit'⟩ := exists_sweep_of_succeeded hs'
  obtain ⟨after, after', hhas, hhas', hsame⟩ :=
    sweep_of_shares (valid_of_succeeded hs) (valid_of_succeeded hs') h hsweep hsweep'
  rw [hcircuit, hcircuit']
  exact h.writeBack hhas hhas' hsame

theorem ids_evaluate {p : Pass} (hs : (e.evaluate c p).succeeded = true) :
    (e.evaluate c p).circuit.gates.map (·.id) = c.gates.map (·.id) := by
  obtain ⟨sweep, -, hcircuit⟩ := exists_sweep_of_succeeded hs
  rw [hcircuit, ids_writeBack]

/-- **As long as calls succeed, the circuits that come back share the same gates.** -/
theorem shares_evaluateEach (ps : List Pass) (h : c.Shares U c') {d d' : Circuit Definition}
    (hd : e.evaluateEach? ps c = some d) (hd' : e.evaluateEach? ps c' = some d') :
    d.Shares U d' ∧ d.gates.map (·.id) = c.gates.map (·.id) ∧
      d'.gates.map (·.id) = c'.gates.map (·.id) := by
  induction ps generalizing c c' with
  | nil =>
    obtain rfl := Option.some.inj hd
    obtain rfl := Option.some.inj hd'
    exact ⟨h, rfl, rfl⟩
  | cons p ps ih =>
    obtain ⟨hs, hd⟩ := Option.ite_none_right_eq_some.mp hd
    obtain ⟨hs', hd'⟩ := Option.ite_none_right_eq_some.mp hd'
    obtain ⟨hshares, hids, hids'⟩ := ih (shares_evaluate h hs hs') hd hd'
    exact ⟨hshares, hids.trans (ids_evaluate hs), hids'.trans (ids_evaluate hs')⟩

/-- **A gate depends on what drives it, and on nothing else.** Take two valid circuits that share a
    set of gates. Where neither has a combinational cycle, immediate evaluations of both succeed and
    return the same gates of the set, and so do calls in any modes at any times, as long as they
    succeed. -/
theorem depends_on_drivers (hcheck : c.check = []) (hcheck' : c'.check = []) (h : c.Shares U c')
    (e : Evaluator) :
    (∀ now, ¬ c.CombinationalCycle → ¬ c'.CombinationalCycle →
      (e.immediate c now).succeeded = true ∧ (e.immediate c' now).succeeded = true ∧
      ∀ id ∈ U, (e.immediate c now).circuit.gate? id = (e.immediate c' now).circuit.gate? id) ∧
    ∀ (ps : List Pass) (d d' : Circuit Definition), e.evaluateEach? ps c = some d →
      e.evaluateEach? ps c' = some d' → ∀ id ∈ U, d.gate? id = d'.gate? id := by
  have hc := Circuit.check_eq_nil_iff.mp hcheck
  have hc' := Circuit.check_eq_nil_iff.mp hcheck'
  have hcalls : ∀ (ps : List Pass) (d d' : Circuit Definition), e.evaluateEach? ps c = some d →
      e.evaluateEach? ps c' = some d' → ∀ id ∈ U, d.gate? id = d'.gate? id := by
    intro ps d d' hd hd' id hid
    obtain ⟨hshares, hids, hids'⟩ := shares_evaluateEach ps h hd hd'
    exact hshares.gate?_eq (hids ▸ hc.gateIds) (hids' ▸ hc'.gateIds) hid
  refine ⟨fun now hcycle hcycle' => ?_, hcalls⟩
  have hs : (e.immediate c now).succeeded = true := (immediate_fails_iff hc e now).2.mpr hcycle
  have hs' : (e.immediate c' now).succeeded = true := (immediate_fails_iff hc' e now).2.mpr hcycle'
  exact ⟨hs, hs', hcalls [.immediate now] _ _ (if_pos hs) (if_pos hs')⟩

/-- A probe `P` on the inverter of a flip-flop that toggles changes none of its gates. -/
theorem toggle_probed :
    ∃ probed d d' : Circuit Definition,
      probed = ((Circuit.toggle 1).add (.new "P" .output)).connect "INV" 0 "P" 0 ∧
      Evaluator.evaluateEach? {} [.delayed 0, .immediate 500, .delayed 1000] (Circuit.toggle 1) =
        some d ∧
      Evaluator.evaluateEach? {} [.delayed 0, .immediate 500, .delayed 1000] probed = some d' ∧
      ∀ id, id ≠ "P" → d.gate? id = d'.gate? id ∧
        (Evaluator.immediate {} (Circuit.toggle 1) 500).circuit.gate? id =
          (Evaluator.immediate {} probed 500).circuit.gate? id := by
  obtain ⟨probed, hprobed⟩ : ∃ probed : Circuit Definition,
      probed = ((Circuit.toggle 1).add (.new "P" .output)).connect "INV" 0 "P" 0 := ⟨_, rfl⟩
  have hcheck : (Circuit.toggle 1).check = [] := rfl
  have hcheck' : probed.check = [] := hprobed ▸ rfl
  have hshares : (Circuit.toggle 1).Shares {id | id ≠ "P"} probed := by
    have hclosed : ∀ w ∈ (Circuit.toggle 1).wires, w.source.gate ≠ "P" := by decide
    have hself : (Circuit.toggle 1).Shares {id | id ≠ "P"} (Circuit.toggle 1) :=
      .refl fun w hw _ => hclosed w hw
    have hnew : "P" ∉ {id : GateId | id ≠ "P"} := fun h => h rfl
    rw [hprobed]
    exact (hself.add hnew).addWire hnew
  obtain ⟨d, hd⟩ : ∃ d, Evaluator.evaluateEach? {} [.delayed 0, .immediate 500, .delayed 1000]
      (Circuit.toggle 1) = some d := Option.isSome_iff_exists.mp rfl
  obtain ⟨d', hd'⟩ : ∃ d, Evaluator.evaluateEach? {} [.delayed 0, .immediate 500, .delayed 1000]
      probed = some d := Option.isSome_iff_exists.mp (hprobed ▸ rfl)
  obtain ⟨himmediate, hcalls⟩ := depends_on_drivers hcheck hcheck' hshares {}
  have hcycle : ¬ (Circuit.toggle 1).CombinationalCycle :=
    (immediate_fails_iff (Circuit.check_eq_nil_iff.mp hcheck) {} 500).2.mp rfl
  have hcycle' : ¬ probed.CombinationalCycle :=
    (immediate_fails_iff (Circuit.check_eq_nil_iff.mp hcheck') {} 500).2.mp (hprobed ▸ rfl)
  exact ⟨probed, d, d', hprobed, hd, hd', fun id hid =>
    ⟨hcalls _ d d' hd hd' id hid, (himmediate 500 hcycle hcycle').2.2 id hid⟩⟩

end Evaluator

end LogicSim
