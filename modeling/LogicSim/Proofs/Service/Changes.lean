import LogicSim.Proofs.Service.Outcome
import LogicSim.Proofs.Service.Phases
import LogicSim.Proofs.Service.Returned

/-!
# What a response says about changes

A response says whether its circuit was left changing: whether the last pass has changed the outputs
of any gate. A single pass and settling say this truly. A clock cycle says no in every case, which is
true exactly if its last phase has settled (`Service.info_truthful`).
-/

namespace LogicSim

open Netlist

variable {ε : Type} {run : ε → Reaction} {instant : Instant} {schedule : Schedule}

/-! ## 1. Passes that change outputs -/

namespace Netlist

/-- What the nodes show. -/
def outputsOf (net : Netlist ε) (i : Nat) : Option (List Bool) := net.nodes[i]?.map (·.outputs)

@[simp] theorem outputsOf_force (net : Netlist ε) (k : Nat) (value : Option Bool) :
    (net.force k value).outputsOf = net.outputsOf := by
  funext i
  rw [outputsOf, outputsOf, force, getElem?_updateNode]
  split
  · cases net.nodes[i]? <;> rfl
  · rfl

/-- The gates that come back show what the nodes show. -/
theorem outputs_writeBack {δ : Type} {net : Netlist ε} {c : Circuit δ}
    (hlength : net.nodes.length = c.gates.length) (i : Nat) :
    (net.writeBack c).gates[i]?.map (·.outputs) = net.outputsOf i := by
  rw [getElem?_gates_writeBack, outputsOf]
  cases hg : c.gates[i]? with
  | none =>
    rw [List.getElem?_eq_none_iff] at hg
    rw [List.getElem?_eq_none (hlength ▸ hg)]
    rfl
  | some g =>
    have hi : i < net.nodes.length := hlength ▸ (List.getElem?_eq_some_iff.mp hg).1
    rw [List.getElem?_eq_getElem hi]
    rfl

theorem changed_delayed_iff {net : Netlist ε} : (net.delayed run instant).changed = true ↔
    ∃ i, net.outputsOf i ≠ (net.delayed run instant).netlist.outputsOf i := by
  rw [← Bool.not_eq_false, changed_eq_false_iff, not_forall]
  exact exists_congr fun i => not_congr eq_comm

theorem changed_visit_iff {net : Netlist ε} {s : Sweep ε} {v : Nat} :
    (visit run schedule instant net s v).changed = true ↔ s.changed = true ∨
      s.netlist.outputsOf v ≠ (visit run schedule instant net s v).netlist.outputsOf v := by
  rw [outputsOf, outputsOf]
  unfold visit
  split
  next hn => exact (or_iff_left fun hne => hne rfl).symm
  next n hn =>
    rw [getElem?_updateNode, if_pos rfl, hn]
    simp

/-- Visits to different nodes change something if one of the nodes shows something else at the end. -/
theorem changed_foldl_visit_iff {net : Netlist ε} {order : List Nat} (hnodup : order.Nodup)
    (s : Sweep ε) :
    (order.foldl (visit run schedule instant net) s).changed = true ↔ s.changed = true ∨
      ∃ i ∈ order, s.netlist.outputsOf i ≠
        (order.foldl (visit run schedule instant net) s).netlist.outputsOf i := by
  induction order generalizing s with
  | nil => simp
  | cons v order ih =>
    obtain ⟨hv, hnodup⟩ := List.nodup_cons.mp hnodup
    have hlast : (order.foldl (visit run schedule instant net)
          (visit run schedule instant net s v)).netlist.outputsOf v =
        (visit run schedule instant net s v).netlist.outputsOf v := by
      rw [outputsOf, getElem?_foldl_visit_of_notMem hv]
      rfl
    have hother : ∀ i ∈ order, (visit run schedule instant net s v).netlist.outputsOf i =
        s.netlist.outputsOf i := by
      intro i hi
      have hne : v ≠ i := fun he => hv (he ▸ hi)
      rw [outputsOf, getElem?_visit_of_ne _ _ _ _ _ hne]
      rfl
    rw [List.foldl_cons, ih hnodup, changed_visit_iff, List.exists_mem_cons_iff, hlast, or_assoc]
    refine or_congr_right (or_congr_right (exists_congr fun i => and_congr_right fun hi => ?_))
    rw [hother i hi]

/-- **An immediate pass changes something if a node shows something else after it.** -/
theorem changed_immediate_iff {net : Netlist ε} (hnodup : schedule.order.Nodup) :
    (net.immediate run schedule instant).changed = true ↔
      ∃ i, net.outputsOf i ≠ (net.immediate run schedule instant).netlist.outputsOf i := by
  rw [immediate, changed_foldl_visit_iff hnodup]
  constructor
  · rintro (h | ⟨i, -, hi⟩)
    · cases h
    · exact ⟨i, hi⟩
  · rintro ⟨i, hi⟩
    refine .inr ⟨i, ?_, hi⟩
    by_contra hout
    rw [outputsOf, outputsOf, getElem?_foldl_visit_of_notMem hout] at hi
    exact hi rfl

end Netlist

/-! ## 2. Truthful responses -/

/-- **A response tells the truth about its passes**, which begin with the given netlists: it counts
    them, and says that something was left changing if the last of them has changed what a gate
    shows. -/
structure CallInfo.Truthful (starts : List (Netlist ε)) (c : Circuit Definition) (info : CallInfo) :
    Prop where
  passes : info.passes = starts.length
  changed : info.changed = true ↔ ∃ before, starts.getLast? = some before ∧
    ∃ i, before.outputsOf i ≠ c.gates[i]?.map (·.outputs)

/-- What is left of a pass that was the last one. -/
theorem CallInfo.truthful_iff {starts : List (Netlist ε)} {before after : Netlist ε}
    {c : Circuit Definition} {info : CallInfo} (hpasses : info.passes = starts.length)
    (hlast : starts.getLast? = some before) (hlength : after.nodes.length = c.gates.length) :
    info.Truthful starts (after.writeBack c) ↔
      (info.changed = true ↔ ∃ i, before.outputsOf i ≠ after.outputsOf i) := by
  have hlater : (∃ before', starts.getLast? = some before' ∧
        ∃ i, before'.outputsOf i ≠ (after.writeBack c).gates[i]?.map (·.outputs)) ↔
      ∃ i, before.outputsOf i ≠ after.outputsOf i := by
    rw [hlast]
    simp only [Option.some.injEq, exists_eq_left', outputs_writeBack hlength]
  exact ⟨fun h => h.changed.trans hlater, fun h => ⟨hpasses, h.trans hlater.symm⟩⟩

/-- **Who says that nothing was left changing tells the truth if the last pass has settled.** -/
theorem CallInfo.truthful_iff_settled {starts : List (Netlist ε)} {before after : Netlist ε}
    {c : Circuit Definition} {info : CallInfo} {settled : Bool}
    (hpasses : info.passes = starts.length) (hlast : starts.getLast? = some before)
    (hlength : after.nodes.length = c.gates.length)
    (houtputs : after.outputsOf = (before.delayed run instant).netlist.outputsOf)
    (hsettled : settled = !(before.delayed run instant).changed) (hchanged : info.changed = false) :
    info.Truthful starts (after.writeBack c) ↔ settled = true := by
  rw [truthful_iff hpasses hlast hlength, houtputs, ← changed_delayed_iff, hchanged, hsettled,
    Bool.not_eq_true', ← Bool.not_eq_true]
  simp only [Bool.false_eq_true, false_iff]

namespace Service

variable {s t : Service} {c : Circuit Definition} {r : Response}

/-- **A single pass tells the truth** if it knows whether it has changed something. -/
theorem truthful_ofSweep {net : Netlist Expansion} {sweep : Sweep Expansion} {strategy : Strategy}
    (hlength : sweep.netlist.nodes.length = c.gates.length)
    (hchanged : sweep.changed = true ↔ ∃ i, net.outputsOf i ≠ sweep.netlist.outputsOf i) :
    (t.finish c (ofSweep sweep) strategy sweep.changed).1.info.Truthful [net]
      (t.finish c (ofSweep sweep) strategy sweep.changed).1.circuit :=
  (CallInfo.truthful_iff rfl rfl hlength).mpr hchanged

/-- A step tells the truth. -/
theorem Accepts.step_truthful (h : s.Accepts c) (hr : (s.step c).1 = .ok r) :
    r.info.Truthful [s.evaluator.assemble c] r.circuit := by
  rw [step, call_of_start h.start] at hr
  obtain rfl := Except.ok.inj hr
  exact truthful_ofSweep (length_of_assemble (shape_delayed _)) changed_delayed_iff

/-- An evaluation tells the truth in both modes. -/
theorem Accepts.evaluate_truthful (h : s.Accepts c) (hr : (s.evaluate c).1 = .ok r) :
    r.info.Truthful [s.evaluator.assemble c] r.circuit := by
  have hwell : (s.evaluator.assemble c).WellFormed :=
    wellFormed_assemble (Circuit.check_eq_nil_iff.mp h.check)
  have hnet : (s.callOf c).state.netlist = s.evaluator.assemble c := rfl
  rw [evaluate, call_of_start h.start] at hr
  dsimp only at hr
  rw [hnet] at hr
  cases hs : (s.evaluator.assemble c).dependencies.schedule with
  | error cycle =>
    rw [hs] at hr
    cases hmode : s.config.strategy with
    | immediate =>
      rw [hmode] at hr
      cases hr
    | delayed | auto =>
      rw [hmode] at hr
      obtain rfl := Except.ok.inj hr
      exact truthful_ofSweep (length_of_assemble (shape_delayed _)) changed_delayed_iff
  | ok schedule =>
    rw [hs] at hr
    obtain ⟨-, horder⟩ :=
      Dependencies.isOrder_of_schedule (fun v w => lt_of_mem_dependencies hwell) hs
    cases hmode : s.config.strategy with
    | delayed =>
      rw [hmode] at hr
      obtain rfl := Except.ok.inj hr
      exact truthful_ofSweep (length_of_assemble (shape_delayed _)) changed_delayed_iff
    | immediate | auto =>
      rw [hmode] at hr
      obtain rfl := Except.ok.inj hr
      exact truthful_ofSweep (length_of_assemble (shape_immediate _ _))
        (changed_immediate_iff horder.nodup)

/-- Settling tells the truth: its last pass was quiet. -/
theorem Accepts.settle_truthful (h : s.Accepts c) (hr : (s.settle c).1 = .ok r) :
    r.info.Truthful ((s.evaluator.assemble c).starts Expansion.react (s.callOf c).instant
      s.config.settleLimit) r.circuit := by
  rw [settle, call_of_start h.start] at hr
  dsimp only at hr
  cases hsettled : ((s.callOf c).state.run Expansion.react (s.callOf c).instant
    s.config.settleLimit).settled with
  | false =>
    rw [if_neg (ne_true_of_eq_false hsettled)] at hr
    cases hr
  | true =>
    rw [if_pos hsettled] at hr
    obtain rfl := Except.ok.inj hr
    have hlimit : 0 < s.config.settleLimit := by
      refine Nat.pos_of_ne_zero fun h0 => ?_
      rw [h0] at hsettled
      cases hsettled
    obtain ⟨net, hnet⟩ : ∃ net, ((s.callOf c).state.netlist.starts Expansion.react
        (s.callOf c).instant s.config.settleLimit).getLast? = some net := exists_last_start hlimit _
    obtain ⟨hnetlist, hquiet⟩ := Settling.last_pass hnet
    refine (CallInfo.truthful_iff_settled ?_ hnet (length_of_assemble (Settling.shape_run _ _)) ?_
      hquiet rfl).mpr hsettled
    · exact (Settling.passes_run _ _).trans (Nat.zero_add _)
    · rw [hnetlist]

/-- **A clock cycle always says that nothing was left changing**, which is true exactly if its last
    phase has settled. -/
theorem cycle_truthful_iff {q : CycleRequest} {r : CycleResponse} (hlimit : 1 ≤ q.passLimit)
    (hr : (s.cycle c q).1 = .ok r) :
    ∃ k, q.node? (s.evaluator.assemble c) = some k ∧ r.info.changed = false ∧
      (r.info.Truthful (q.starts (s.callOf c).instant k CycleRequest.levels (s.callOf c).state)
          r.circuit ↔
        (CycleRequest.levels.foldl (q.phase (s.callOf c).instant k) (s.callOf c).state).settled =
          true) := by
  have haccepts : s.Accepts c := accepts_of_call hr
  rw [cycle, call_of_start haccepts.start] at hr
  dsimp only at hr
  cases hk : q.node? (s.callOf c).state.netlist with
  | none =>
    rw [hk] at hr
    cases hr
  | some k =>
    rw [hk] at hr
    obtain rfl := Except.ok.inj hr
    refine ⟨k, hk, rfl, ?_⟩
    obtain ⟨net, hnet, hnetlist, hsettled⟩ : ∃ net,
        (q.starts (s.callOf c).instant k CycleRequest.levels (s.callOf c).state).getLast? = some net ∧
        (CycleRequest.levels.foldl (q.phase (s.callOf c).instant k) (s.callOf c).state).netlist =
          (net.delayed Expansion.react (s.callOf c).instant).netlist ∧
        (CycleRequest.levels.foldl (q.phase (s.callOf c).instant k) (s.callOf c).state).settled =
          !(net.delayed Expansion.react (s.callOf c).instant).changed :=
      CycleRequest.last_pass hlimit [false, true] false _
    refine CallInfo.truthful_iff_settled ?_ hnet ?_ ?_ hsettled rfl
    · exact (CycleRequest.passes_phases _ _).trans (Nat.zero_add _)
    · exact length_of_assemble (q.shape_drive _ _ _)
    · rw [CycleRequest.drive, outputsOf_force, hnetlist]

/-- **What responses say about their last pass.** An evaluation, a step and settling tell the truth
    about it. A clock cycle says that it has changed nothing, whatever it has done. -/
theorem info_truthful (s : Service) (c : Circuit Definition) :
    (∀ r, (s.evaluate c).1 = .ok r → r.info.Truthful [s.evaluator.assemble c] r.circuit) ∧
    (∀ r, (s.step c).1 = .ok r → r.info.Truthful [s.evaluator.assemble c] r.circuit) ∧
    (∀ r, (s.settle c).1 = .ok r → r.info.Truthful
      ((s.evaluator.assemble c).starts Expansion.react (s.callOf c).instant s.config.settleLimit)
        r.circuit) ∧
    ∀ q : CycleRequest, 1 ≤ q.passLimit → ∀ r, (s.cycle c q).1 = .ok r →
      ∃ k, q.node? (s.evaluator.assemble c) = some k ∧ r.info.changed = false ∧
        (r.info.Truthful (q.starts (s.callOf c).instant k CycleRequest.levels (s.callOf c).state)
            r.circuit ↔
          (CycleRequest.levels.foldl (q.phase (s.callOf c).instant k)
            (s.callOf c).state).settled = true) :=
  ⟨fun _ hr => (accepts_of_call hr).evaluate_truthful hr,
    fun _ hr => (accepts_of_call hr).step_truthful hr,
    fun _ hr => (accepts_of_call hr).settle_truthful hr,
    fun _ hlimit _ hr => cycle_truthful_iff hlimit hr⟩

/-- A flip-flop that toggles is at rest after a cycle of ten passes a phase, and is said to be. -/
theorem toggle_info_truthful :
    ∃ r, (Service.cycle { time := .fixed 0 } (Circuit.toggle 1) ⟨"CLK", 10⟩).1 = .ok r ∧
      r.info.passes = 8 ∧ r.info.Truthful (CycleRequest.starts ⟨"CLK", 10⟩ ⟨0, 50⟩ 0
        CycleRequest.levels { netlist := Evaluator.assemble {} (Circuit.toggle 1) }) r.circuit := by
  obtain ⟨-, -, -, hcycle⟩ := info_truthful { time := .fixed 0 } (Circuit.toggle 1)
  have hanswer : ∃ r, (Service.cycle { time := .fixed 0 } (Circuit.toggle 1) ⟨"CLK", 10⟩).1 = .ok r ∧
      r.info.passes = 8 := ⟨_, rfl, rfl⟩
  obtain ⟨r, hr, hpasses⟩ := hanswer
  obtain ⟨k, hk, -, htruthful⟩ := hcycle ⟨"CLK", 10⟩ (by decide) r hr
  obtain rfl : 0 = k := Option.some.inj hk
  exact ⟨r, hr, hpasses, htruthful.mpr rfl⟩

/-- With one pass a phase the last pass takes the clock back, and the response denies it. -/
theorem toggle_info_untruthful :
    ∃ r before, (Service.cycle { time := .fixed 0 } (Circuit.toggle 1) ⟨"CLK", 1⟩).1 = .ok r ∧
      (CycleRequest.starts ⟨"CLK", 1⟩ ⟨0, 50⟩ 0 CycleRequest.levels
        { netlist := Evaluator.assemble {} (Circuit.toggle 1) }).getLast? = some before ∧
      before.outputsOf 0 = some [true] ∧ r.circuit.gates[0]?.map (·.outputs) = some [false] ∧
      r.info.changed = false ∧
      ¬ r.info.Truthful (CycleRequest.starts ⟨"CLK", 1⟩ ⟨0, 50⟩ 0 CycleRequest.levels
        { netlist := Evaluator.assemble {} (Circuit.toggle 1) }) r.circuit := by
  refine ⟨_, _, rfl, rfl, rfl, rfl, rfl, fun h => ?_⟩
  have hchanged := h.changed.mpr ⟨_, rfl, 0, fun he => absurd he (by decide)⟩
  cases hchanged

end Service

end LogicSim
