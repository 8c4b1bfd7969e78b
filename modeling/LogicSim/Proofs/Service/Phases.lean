import LogicSim.Proofs.Service.Cycle

/-!
# The passes of a clock cycle

A run of passes is followed by the netlists that its passes begin with (`Netlist.starts`), and a cycle
by the netlists that its phases begin with (`CycleRequest.begins`), each of which leads to a run. What
a response says about its passes is read off these lists.

* `Settling.last_pass`, `CycleRequest.last_pass` -- what the last pass has left is the outcome;
* `CycleRequest.passes_phases`, `CycleRequest.length_starts` -- how many passes there are;
* `CycleRequest.general_phases` -- how many warnings are about no gate.
-/

namespace LogicSim

open Netlist

variable {ε : Type} {run : ε → Reaction} {instant : Instant}

/-! ## 1. The passes of a run -/

namespace Netlist

/-- The netlists that the passes of a run begin with, in order: there is another pass, if one is still
    allowed, when the one before has changed something. -/
def starts (run : ε → Reaction) (instant : Instant) : Nat → Netlist ε → List (Netlist ε)
  | 0, _ => []
  | limit + 1, net =>
    net ::
      if (net.delayed run instant).changed then
        starts run instant limit (net.delayed run instant).netlist
      else []

theorem length_starts_le (limit : Nat) (net : Netlist ε) :
    (net.starts run instant limit).length ≤ limit := by
  induction limit generalizing net with
  | zero => exact Nat.le_refl 0
  | succ limit ih =>
    rw [starts, List.length_cons]
    split
    · exact Nat.succ_le_succ (ih _)
    · exact Nat.succ_le_succ (Nat.zero_le limit)

theorem length_starts_pos {limit : Nat} (hlimit : 0 < limit) (net : Netlist ε) :
    0 < (net.starts run instant limit).length := by
  cases limit with
  | zero => exact absurd hlimit (Nat.lt_irrefl 0)
  | succ limit =>
    rw [starts, List.length_cons]
    exact Nat.succ_pos _

/-- A run that may make a pass makes one. -/
theorem exists_last_start {limit : Nat} (hlimit : 0 < limit) (net : Netlist ε) :
    ∃ last, (net.starts run instant limit).getLast? = some last :=
  ⟨_, List.getLast?_eq_some_getLast (List.ne_nil_of_length_pos (length_starts_pos hlimit net))⟩

/-- **Each of as many passes as are allowed changes something.** -/
def Restless (run : ε → Reaction) (instant : Instant) (limit : Nat) (net : Netlist ε) : Prop :=
  ∀ j < limit, ¬ net.QuietAfter run instant j

instance (limit : Nat) (net : Netlist ε) : Decidable (net.Restless run instant limit) :=
  inferInstanceAs (Decidable (∀ j < limit, ¬ net.QuietAfter run instant j))

end Netlist

namespace Settling

/-- A pass settles if it changes nothing. -/
theorem settled_pass_eq (s : Settling ε) :
    (s.pass run instant).settled = !(s.netlist.delayed run instant).changed := rfl

/-- Each pass of a run is counted. -/
theorem passes_run (limit : Nat) (s : Settling ε) :
    (Settling.run run instant limit s).passes =
      s.passes + (s.netlist.starts run instant limit).length := by
  induction limit generalizing s with
  | zero => rfl
  | succ limit ih =>
    rw [Settling.run, starts, List.length_cons, settled_pass_eq]
    cases (s.netlist.delayed run instant).changed with
    | false => rfl
    | true =>
      refine (ih (s.pass run instant)).trans ?_
      show s.passes + 1 + _ = _
      exact Nat.add_right_comm ..

/-- **What the last pass of a run has left is the outcome of the run**, and the run has settled if
    that pass was quiet. -/
theorem last_pass {limit : Nat} {s : Settling ε} {last : Netlist ε}
    (h : (s.netlist.starts run instant limit).getLast? = some last) :
    (Settling.run run instant limit s).netlist = (last.delayed run instant).netlist ∧
      (Settling.run run instant limit s).settled = !(last.delayed run instant).changed := by
  induction limit generalizing s with
  | zero => cases h
  | succ limit ih =>
    rw [starts] at h
    rw [Settling.run, settled_pass_eq]
    cases hchanged : (s.netlist.delayed run instant).changed with
    | false =>
      rw [hchanged] at h
      obtain rfl := Option.some.inj h
      exact ⟨rfl, rfl⟩
    | true =>
      rw [hchanged] at h
      cases limit with
      | zero =>
        -- the pass was the last one allowed
        obtain rfl : s.netlist = last := Option.some.inj h
        rw [hchanged]
        exact ⟨rfl, rfl⟩
      | succ limit =>
        rw [if_pos rfl, starts, List.getLast?_cons_cons] at h
        exact ih (s := s.pass run instant) h

/-- **What a pass brings about, and passes keep, holds after a run with a pass.** -/
theorem run_of_pos {P Q : Netlist ε → Prop} (hpass : ∀ net, P net → Q (net.delayed run instant).netlist)
    (hkeeps : ∀ net, Q net → P net) {limit : Nat} (hlimit : 0 < limit) {s : Settling ε}
    (hs : P s.netlist) : Q (Settling.run run instant limit s).netlist := by
  cases limit with
  | zero => exact absurd hlimit (Nat.lt_irrefl 0)
  | succ limit =>
    have hfirst : Q (s.pass run instant).netlist := hpass _ hs
    rw [Settling.run]
    split
    · exact hfirst
    · exact run_keeps (fun net h => hpass net (hkeeps net h)) limit hfirst

/-- A run settles unless it is restless. -/
theorem settled_run_iff {limit : Nat} {s : Settling ε} :
    (Settling.run run instant limit s).settled = true ↔ ¬ s.netlist.Restless run instant limit := by
  constructor
  · intro hsettled hrestless
    rw [run_of_restless hrestless] at hsettled
    cases hsettled
  · intro hrest
    rcases first_quiet run instant s.netlist limit with ⟨k, hk, hquiet, hearlier⟩ | hrestless
    · exact (run_of_quiet hk hquiet hearlier).1
    · exact absurd hrestless hrest

end Settling

/-! ## 2. Warnings about no gate -/

/-- A node is warned about by name. -/
theorem Node.isSome_gate_of_react {n : Node ε} {inputs : List Bool} {w : Warning}
    (hw : w ∈ (n.react run instant inputs).2) : w.gate.isSome = true := by
  unfold react at hw
  split at hw
  · cases hw
  · split at hw
    · obtain ⟨note, -, rfl⟩ := List.mem_map.mp hw
      rfl
    · rw [List.mem_singleton] at hw
      rw [hw]
      rfl

/-- **The warnings of a pass are about gates.** -/
theorem Netlist.isSome_gate_of_delayed {net : Netlist ε} {w : Warning}
    (hw : w ∈ (net.delayed run instant).warnings) : w.gate.isSome = true := by
  obtain ⟨result, hresult, hw⟩ := List.mem_flatMap.mp hw
  rw [List.mem_mapIdx] at hresult
  obtain ⟨i, hi, rfl⟩ := hresult
  exact Node.isSome_gate_of_react hw

namespace Settling

/-- The number of warnings that are not about a gate. -/
def general (s : Settling ε) : Nat := s.warnings.countP (·.gate.isNone)

theorem general_pass (s : Settling ε) : (s.pass run instant).general = s.general := by
  have hnone : (s.netlist.delayed run instant).warnings.countP (·.gate.isNone) = 0 := by
    rw [List.countP_eq_zero]
    intro w hw
    rw [Option.isNone_iff_eq_none, ← ne_eq, ← Option.isSome_iff_ne_none]
    exact isSome_gate_of_delayed hw
  rw [general, pass, List.countP_append, hnone]
  rfl

/-- **A run adds no warning but those about gates.** -/
theorem general_run (limit : Nat) (s : Settling ε) :
    (Settling.run run instant limit s).general = s.general := by
  induction limit generalizing s with
  | zero => rfl
  | succ limit ih =>
    rw [Settling.run]
    split
    · exact general_pass s
    · rw [ih, general_pass]

end Settling

/-! ## 3. The phases of a cycle -/

namespace CycleRequest

variable {r : CycleRequest} {k : Nat}

/-- The netlists that phases begin with, one after the other. -/
def begins (r : CycleRequest) (instant : Instant) (k : Nat) :
    List Bool → Settling Expansion → List (Netlist Expansion)
  | [], _ => []
  | level :: levels, s =>
    s.netlist.force k (some level) :: begins r instant k levels (r.phase instant k s level)

/-- The netlists that the passes of phases begin with, in order. -/
def starts (r : CycleRequest) (instant : Instant) (k : Nat) (levels : List Bool)
    (s : Settling Expansion) : List (Netlist Expansion) :=
  (r.begins instant k levels s).flatMap (Netlist.starts Expansion.react instant r.passLimit)

theorem begins_append (levels : List Bool) (level : Bool) (s : Settling Expansion) :
    r.begins instant k (levels ++ [level]) s = r.begins instant k levels s ++
      [(levels.foldl (r.phase instant k) s).netlist.force k (some level)] := by
  induction levels generalizing s with
  | nil => rfl
  | cons level' levels ih =>
    rw [List.cons_append, begins, ih, begins, List.cons_append]
    rfl

theorem passes_phase (s : Settling Expansion) (level : Bool) :
    (r.phase instant k s level).passes = s.passes +
      ((s.netlist.force k (some level)).starts Expansion.react instant r.passLimit).length := by
  rw [← Settling.passes_run r.passLimit { s with netlist := s.netlist.force k (some level) }, phase]
  split <;> rfl

/-- **Each pass of a phase is counted.** -/
theorem passes_phases (levels : List Bool) (s : Settling Expansion) :
    (levels.foldl (r.phase instant k) s).passes =
      s.passes + (r.starts instant k levels s).length := by
  induction levels generalizing s with
  | nil => rfl
  | cons level levels ih =>
    rw [List.foldl_cons, ih, passes_phase, starts, starts, begins, List.flatMap_cons,
      List.length_append, Nat.add_assoc]

/-- **A phase has no more passes than are allowed.** -/
theorem length_starts_le (levels : List Bool) (s : Settling Expansion) :
    (r.starts instant k levels s).length ≤ levels.length * r.passLimit := by
  induction levels generalizing s with
  | nil => exact Nat.zero_le _
  | cons level levels ih =>
    have hrest := ih (r.phase instant k s level)
    have hle : ((s.netlist.force k (some level)).starts Expansion.react instant
        r.passLimit).length ≤ r.passLimit := Netlist.length_starts_le _ _
    rw [starts] at hrest
    rw [starts, begins, List.flatMap_cons, List.length_append, List.length_cons, Nat.succ_mul]
    omega

/-- **A phase has a pass, and no more than are allowed.** -/
theorem length_starts (hlimit : 1 ≤ r.passLimit) (levels : List Bool) (s : Settling Expansion) :
    levels.length ≤ (r.starts instant k levels s).length ∧
      (r.starts instant k levels s).length ≤ levels.length * r.passLimit := by
  refine ⟨?_, length_starts_le levels s⟩
  induction levels generalizing s with
  | nil => exact Nat.le_refl 0
  | cons level levels ih =>
    have hrest := ih (r.phase instant k s level)
    have hpos : 0 < ((s.netlist.force k (some level)).starts Expansion.react instant
        r.passLimit).length := Netlist.length_starts_pos hlimit _
    rw [starts] at hrest
    rw [starts, begins, List.flatMap_cons, List.length_append, List.length_cons]
    omega

/-- A phase that does not settle is worth a warning about no gate. -/
theorem general_phase (s : Settling Expansion) (level : Bool) :
    (r.phase instant k s level).general = s.general +
      if (s.netlist.force k (some level)).Restless Expansion.react instant r.passLimit then 1
      else 0 := by
  have hrun : (Settling.run Expansion.react instant r.passLimit
      { s with netlist := s.netlist.force k (some level) }).general = s.general :=
    Settling.general_run ..
  rw [phase]
  split
  next hsettled =>
    rw [if_neg (Settling.settled_run_iff.mp hsettled)]
    exact hrun
  next hunsettled =>
    rw [if_pos (not_not.mp fun h => hunsettled (Settling.settled_run_iff.mpr h)), Settling.general,
      List.countP_append]
    exact congrArg (· + 1) hrun

/-- **The warnings about no gate count the phases that do not settle.** -/
theorem general_phases (levels : List Bool) (s : Settling Expansion) :
    (levels.foldl (r.phase instant k) s).general = s.general +
      (r.begins instant k levels s).countP
        (fun net => net.Restless Expansion.react instant r.passLimit) := by
  induction levels generalizing s with
  | nil => rfl
  | cons level levels ih =>
    rw [List.foldl_cons, ih, general_phase, begins, List.countP_cons]
    simp only [decide_eq_true_eq]
    omega

/-- **What the last pass of a cycle has left is the outcome of its last phase.** -/
theorem last_pass (hlimit : 1 ≤ r.passLimit) (levels : List Bool) (level : Bool)
    (s : Settling Expansion) :
    ∃ net, (r.starts instant k (levels ++ [level]) s).getLast? = some net ∧
      ((levels ++ [level]).foldl (r.phase instant k) s).netlist =
        (net.delayed Expansion.react instant).netlist ∧
      ((levels ++ [level]).foldl (r.phase instant k) s).settled =
        !(net.delayed Expansion.react instant).changed := by
  rw [starts, begins_append, List.flatMap_append, List.flatMap_singleton, List.foldl_append,
    List.foldl_cons, List.foldl_nil, netlist_phase, settled_phase]
  generalize levels.foldl (r.phase instant k) s = before
  obtain ⟨net, hnet⟩ : ∃ net, ((before.netlist.force k (some level)).starts Expansion.react instant
      r.passLimit).getLast? = some net := exists_last_start hlimit _
  refine ⟨net, ?_, ?_⟩
  · rw [List.getLast?_append, hnet, Option.some_or]
  · exact Settling.last_pass hnet

end CycleRequest

end LogicSim
