import LogicSim.Proofs.Netlist.Quiet
import Mathlib.Logic.Function.Iterate

/-!
# Settling as iteration

`Settling.run` makes delayed passes until one is quiet. Its outcome is that of the iterated pass
(`Netlist.after`) at the first quiet one (`Settling.run_of_quiet`), and if none of the passes allowed
is quiet it has not settled (`Settling.run_of_restless`).
-/

namespace LogicSim

variable {ε : Type} {run : ε → Reaction} {instant : Instant}

namespace Netlist

/-- A netlist after a number of delayed passes. -/
def after (run : ε → Reaction) (instant : Instant) (net : Netlist ε) (passes : Nat) : Netlist ε :=
  (fun net => (net.delayed run instant).netlist)^[passes] net

@[simp] theorem after_zero (net : Netlist ε) : net.after run instant 0 = net := rfl

theorem after_succ (net : Netlist ε) (passes : Nat) : net.after run instant (passes + 1) =
    ((net.after run instant passes).delayed run instant).netlist :=
  Function.iterate_succ_apply' ..

theorem after_delayed (net : Netlist ε) (passes : Nat) :
    (net.delayed run instant).netlist.after run instant passes =
      net.after run instant (passes + 1) := (Function.iterate_succ_apply ..).symm

/-- **Passes keep what one of them keeps.** -/
theorem after_keeps {P : Netlist ε → Prop}
    (hpass : ∀ net, P net → P (net.delayed run instant).netlist) {net : Netlist ε} (h : P net)
    (passes : Nat) : P (net.after run instant passes) := by
  induction passes with
  | zero => exact h
  | succ passes ih =>
    rw [after_succ]
    exact hpass _ ih

@[simp] theorem shape_after (net : Netlist ε) (passes : Nat) :
    (net.after run instant passes).shape = net.shape :=
  after_keeps (P := fun net' => net'.shape = net.shape) (fun net' h => (shape_delayed net').trans h)
    rfl passes

/-- Whether the pass after a number of passes is quiet. -/
def QuietAfter (run : ε → Reaction) (instant : Instant) (net : Netlist ε) (passes : Nat) : Prop :=
  ((net.after run instant passes).delayed run instant).changed = false

instance (net : Netlist ε) (passes : Nat) : Decidable (net.QuietAfter run instant passes) :=
  inferInstanceAs (Decidable (_ = _))

theorem quietAfter_succ {net : Netlist ε} {passes : Nat} :
    (net.delayed run instant).netlist.QuietAfter run instant passes ↔
      net.QuietAfter run instant (passes + 1) := by
  rw [QuietAfter, QuietAfter, after_delayed]

end Netlist

namespace Settling

open Netlist

/-- Whether a pass settles is whether it is quiet. -/
theorem settled_pass_iff {s : Settling ε} :
    (s.pass run instant).settled = true ↔ s.netlist.QuietAfter run instant 0 := by
  rw [pass, QuietAfter, after_zero, Bool.not_eq_true']

/-- **A run ends with the first quiet pass.** -/
theorem run_of_quiet {limit k : Nat} {s : Settling ε} (hk : k < limit)
    (hquiet : s.netlist.QuietAfter run instant k)
    (hearlier : ∀ j < k, ¬ s.netlist.QuietAfter run instant j) :
    (Settling.run run instant limit s).settled = true ∧
      (Settling.run run instant limit s).netlist = s.netlist.after run instant (k + 1) ∧
      (Settling.run run instant limit s).passes = s.passes + (k + 1) := by
  induction limit generalizing s k with
  | zero => exact absurd hk (Nat.not_lt_zero k)
  | succ limit ih =>
    rw [Settling.run]
    cases k with
    | zero =>
      have hsettled : (s.pass run instant).settled = true := settled_pass_iff.mpr hquiet
      rw [if_pos hsettled]
      exact ⟨hsettled, rfl, rfl⟩
    | succ k =>
      have hunsettled : ¬ (s.pass run instant).settled = true :=
        fun h => hearlier 0 (Nat.succ_pos k) (settled_pass_iff.mp h)
      rw [if_neg hunsettled]
      obtain ⟨hsettled, hnetlist, hpasses⟩ := ih (s := s.pass run instant) (by omega)
        (quietAfter_succ.mpr hquiet)
        fun j hj h => hearlier (j + 1) (by omega) (quietAfter_succ.mp h)
      refine ⟨hsettled, hnetlist.trans (after_delayed ..), hpasses.trans ?_⟩
      show s.passes + 1 + (k + 1) = s.passes + (k + 1 + 1)
      omega

/-- **A run without a quiet pass does not settle.** -/
theorem run_of_restless {limit : Nat} {s : Settling ε}
    (h : ∀ j < limit, ¬ s.netlist.QuietAfter run instant j) :
    (Settling.run run instant limit s).settled = false := by
  induction limit generalizing s with
  | zero => rfl
  | succ limit ih =>
    have hunsettled : ¬ (s.pass run instant).settled = true :=
      fun hs => h 0 (Nat.succ_pos limit) (settled_pass_iff.mp hs)
    rw [Settling.run, if_neg hunsettled]
    exact ih fun j hj hq => h (j + 1) (by omega) (quietAfter_succ.mp hq)

/-- A number of passes either contains a first quiet one, or none. -/
theorem first_quiet (run : ε → Reaction) (instant : Instant) (net : Netlist ε) (limit : Nat) :
    (∃ k < limit, net.QuietAfter run instant k ∧ ∀ j < k, ¬ net.QuietAfter run instant j) ∨
      ∀ j < limit, ¬ net.QuietAfter run instant j := by
  by_cases h : ∃ k, k < limit ∧ net.QuietAfter run instant k
  · obtain ⟨hlt, hquiet⟩ := Nat.find_spec h
    refine .inl ⟨Nat.find h, hlt, hquiet, fun j hj hq => ?_⟩
    exact Nat.find_min h hj ⟨hj.trans hlt, hq⟩
  · exact .inr fun j hj hq => h ⟨j, hj, hq⟩

end Settling

end LogicSim
