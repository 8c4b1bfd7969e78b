import LogicSim.Proofs.Evaluation.Continuation
import LogicSim.Proofs.Netlist.Rest

/-!
# Circuits at rest

A circuit that holds a netlist at rest comes back from an evaluation in either mode exactly as it was,
with its memory, its recorded inputs and the signals on its wires. If no wire lies on a loop, one
immediate evaluation brings a circuit there (`Evaluator.rest_of_immediate`). It is not enough that
there is no combinational cycle: feedback into a flip-flop or a latch carries the signal of the pass
before.
-/

namespace LogicSim

open Netlist Relation

/-! ## 1. Circuits without a loop -/

namespace Circuit

variable {ε : Type} {compile : Definition → Except String ε} {c : Circuit Definition}

/-- A circuit without a loop of wires has no combinational cycle. -/
theorem not_combinationalCycle_of_loopless (hloop : ∀ id, ¬ TransGen c.Wired id id) :
    ¬ c.CombinationalCycle := by
  intro hcycle
  obtain ⟨id, hid⟩ := hcycle
  exact hloop id (TransGen.mono (fun _ _ hab => hab.1) _ _ hid)

/-- **Nor is any of its connections feedback.** -/
theorem not_isFeedback_of_loopless (hc : c.Valid) (hloop : ∀ id, ¬ TransGen c.Wired id id)
    {k : Connection} (hk : k ∈ (assemble compile c).connections) :
    (assemble compile c).dependencies.isFeedback k.source k.sink = false := by
  obtain ⟨w, hw, hsource, -, hsink, -⟩ := ((realizes_assemble hc).connection k).mp hk
  rw [List.getElem?_map, Option.map_eq_some_iff] at hsource hsink
  obtain ⟨g, hg, hid⟩ := hsource
  obtain ⟨g', hg', hid'⟩ := hsink
  refine eq_false_of_ne_true fun hfeedback => ?_
  obtain ⟨-, -, hback⟩ := (isFeedback_iff_feedback hc rfl hg hg').mp hfeedback
  have hwired : c.Wired g.id g'.id := ⟨w, List.mem_of_getElem? hw, hid.symm, hid'.symm⟩
  exact hloop g'.id (TransGen.tail' hback hwired)

end Circuit

/-! ## 2. Evaluations of a circuit at rest -/

namespace Evaluator

variable {e : Evaluator} {c d : Circuit Definition} {net : Netlist Expansion} {now : UInt64}

/-- **A delayed evaluation returns a circuit at rest as it is**, and reports no change. -/
theorem Holds.delayed_of_atRest (h : e.Holds c net d) (hd : d = net.writeBack c)
    (hrest : net.AtRest Expansion.react (e.instant now)) :
    (e.delayed d now).succeeded = true ∧ (e.delayed d now).circuit = d ∧
      (e.delayed d now).changed = some false := by
  rw [delayed_of_valid h.valid, h.read]
  refine ⟨rfl, ?_, congrArg some hrest.changed_eq⟩
  rw [finish, hrest, h.written net h.carried, hd]

/-- **So does an immediate evaluation**, if there is a schedule. -/
theorem Holds.immediate_of_atRest (h : e.Holds c net d) (hd : d = net.writeBack c)
    (hrest : net.AtRest Expansion.react (e.instant now)) {schedule : Schedule}
    (hs : net.dependencies.schedule = .ok schedule) :
    (e.immediate d now).succeeded = true ∧ (e.immediate d now).circuit = d := by
  have hwell : net.WellFormed := h.read ▸ wellFormed_assemble h.valid
  rw [immediate_of_schedule h.valid e now (h.read.symm ▸ hs), h.read]
  refine ⟨rfl, ?_⟩
  rw [finish, hrest.immediate_eq hwell hs, h.written net h.carried, hd]

/-- **One immediate evaluation brings a circuit without loops to rest.** What it returns comes back
    from both modes exactly as it is, and a delayed pass over it reports no change. -/
theorem rest_of_immediate {c r : Circuit Definition} (hcheck : c.check = [])
    (hstandard : c.Standard) (hloop : ∀ id, ¬ TransGen c.Wired id id) (e : Evaluator) (now : UInt64)
    (hr : r = (e.immediate c now).circuit) :
    (e.immediate c now).succeeded = true ∧
      ((e.immediate r now).succeeded = true ∧ (e.immediate r now).circuit = r) ∧
      (e.delayed r now).succeeded = true ∧ (e.delayed r now).circuit = r ∧
      (e.delayed r now).changed = some false := by
  have hc := Circuit.check_eq_nil_iff.mp hcheck
  obtain ⟨schedule, hs⟩ : ∃ schedule, (e.assemble c).dependencies.schedule = .ok schedule :=
    (Netlist.schedule_iff hc rfl).mpr (Circuit.not_combinationalCycle_of_loopless hloop)
  have hwell : (e.assemble c).WellFormed := wellFormed_assemble hc
  have heval := immediate_of_schedule hc e now hs
  -- the netlist that the pass comes to, and the circuit that holds it
  obtain ⟨final, hfinal⟩ : ∃ final, final =
      ((e.assemble c).immediate Expansion.react schedule (e.instant now)).netlist := ⟨_, rfl⟩
  have hshape : final.shape = (e.assemble c).shape := hfinal ▸ shape_immediate ..
  have hcarried : final.Carried (Definition.compile e.deepest e.deepest) c :=
    hfinal ▸ (carried_assemble _ c).immediate hstandard schedule
  have hrwritten : r = final.writeBack c := by rw [hr, heval, hfinal, finish]
  have hholds : e.Holds c final r := hrwritten ▸ holds_writeBack hc hstandard hcarried
  have hrest : final.AtRest Expansion.react (e.instant now) := by
    obtain ⟨hd, horder⟩ :=
      Dependencies.isOrder_of_schedule (fun v w => lt_of_mem_dependencies hwell) hs
    rw [hfinal] at hshape ⊢
    exact (resolves_immediate hwell hd horder).atRest hwell hshape
      fun k => Circuit.not_isFeedback_of_loopless hc hloop
  have hsfinal : final.dependencies.schedule = .ok schedule := by
    rw [dependencies_of_shape hshape, hs]
  exact ⟨by rw [heval]; rfl, hholds.immediate_of_atRest hrwritten hrest hsfinal,
    hholds.delayed_of_atRest hrwritten hrest⟩

/-- A latch is set by one immediate evaluation, and then stays as it is. -/
theorem latch_rest :
    (Evaluator.immediate {} (Circuit.latch true false) 0).circuit.gates.map (·.outputs) =
        [[true], [false], [true, false], [true], [false]] ∧
      (Evaluator.delayed {} (Evaluator.immediate {} (Circuit.latch true false) 0).circuit 0).circuit =
        (Evaluator.immediate {} (Circuit.latch true false) 0).circuit ∧
      (Evaluator.delayed {} (Evaluator.immediate {} (Circuit.latch true false) 0).circuit 0).changed =
        some false := by
  have hloop : ∀ id, ¬ TransGen (Circuit.latch true false).Wired id id :=
    fun id h => Nat.lt_irrefl _ (Circuit.no_loop_of_forward (by decide) h)
  obtain ⟨-, -, -, hsame, hquiet⟩ := rest_of_immediate rfl (by decide) hloop {} 0 rfl
  exact ⟨rfl, hsame, hquiet⟩

end Evaluator

end LogicSim
