import LogicSim.Proofs.Netlist.Settling
import LogicSim.Proofs.Netlist.Signals
import LogicSim.Service.Basic

/-!
# What calls return

A service accepts a valid circuit that is not too large. From there on a step is one delayed pass over
the netlist of the circuit, and settling is the iterated pass up to the first quiet one.
-/

namespace LogicSim.Service

open Netlist

variable {s s' : Service} {c : Circuit Definition} {call : Call}

/-! ## 1. Acceptance -/

/-- The bounds under which a service evaluates. -/
def evaluator (s : Service) : Evaluator := ⟨s.config.deepest, s.config.settleLimit⟩

/-- The time that the next call reads. -/
def now (s : Service) : UInt64 := s.time.read.1

/-- The call that begins with a circuit. -/
def callOf (s : Service) (c : Circuit Definition) : Call :=
  { instant := s.evaluator.instant s.time.read.1
    state := { netlist := s.evaluator.assemble c } }

/-- **A service accepts exactly the valid circuits that are not too large.** -/
theorem start_eq_ok_iff : s.start c = .ok (call, s') ↔
    c.check = [] ∧ (s.evaluator.assemble c).size ≤ s.config.gateLimit ∧
      call = s.callOf c ∧ s' = { s with time := s.time.read.2 } := by
  constructor
  · intro h
    unfold start at h
    cases hnetlist : c.netlist s.config.deepest with
    | error problems =>
      rw [hnetlist] at h
      cases h
    | ok net =>
      obtain ⟨hc, rfl⟩ := valid_of_ofCircuit hnetlist
      rw [hnetlist] at h
      dsimp only at h
      split at h
      · cases h
      next hsize =>
        obtain ⟨hcall, hs⟩ := Prod.ext_iff.mp (Except.ok.inj h)
        exact ⟨Circuit.check_eq_nil_iff.mpr hc, Nat.not_lt.mp hsize, hcall.symm, hs.symm⟩
  · rintro ⟨hcheck, hsize, rfl, rfl⟩
    have hnetlist : c.netlist s.config.deepest = .ok (s.evaluator.assemble c) :=
      ofCircuit_of_valid _ (Circuit.check_eq_nil_iff.mp hcheck)
    rw [start, hnetlist]
    dsimp only
    rw [if_neg (Nat.not_lt.mpr hsize)]
    rfl

/-- A circuit that is not valid is refused. -/
theorem start_of_invalid (hcheck : c.check ≠ []) : s.start c = .error (.invalidCircuit c.check) := by
  have hnetlist : c.netlist s.config.deepest = .error c.check := by
    rw [Circuit.netlist, ofCircuit]
    cases hproblems : c.check with
    | nil => exact absurd hproblems hcheck
    | cons p ps => rfl
  rw [start, hnetlist]

/-- A valid circuit that is too large is refused. -/
theorem start_of_large (hcheck : c.check = [])
    (hsize : s.config.gateLimit < (s.evaluator.assemble c).size) :
    s.start c = .error (.tooLarge (s.evaluator.assemble c).size s.config.gateLimit) := by
  have hnetlist : c.netlist s.config.deepest = .ok (s.evaluator.assemble c) :=
    Netlist.ofCircuit_of_valid _ (Circuit.check_eq_nil_iff.mp hcheck)
  rw [start, hnetlist]
  dsimp only
  rw [if_pos hsize]

/-- A call that is refused leaves the service as it was. -/
theorem call_of_refused {α : Type} {body : Call → Service → Except Failure (α × Service)}
    {failure : Failure} (h : s.start c = .error failure) :
    s.call c body = (.error failure, s) := by
  rw [Service.call, h]

/-- A call that is accepted is carried out. -/
theorem call_of_start {α : Type} {body : Call → Service → Except Failure (α × Service)}
    (h : s.start c = .ok (call, s')) : s.call c body = match body call s' with
      | .error failure => (.error failure, s')
      | .ok (a, s) => (.ok a, s) := by
  cases hbody : body call s' with
  | error failure => simp only [Service.call, h, hbody]
  | ok result => simp only [Service.call, h, hbody]

/-! ## 2. Steps -/

/-- **A step is one delayed pass.** -/
theorem step_of_start (h : s.start c = .ok (call, s')) :
    ∃ r, s.step c = (.ok r, s'.record .delayed 1) ∧
      r.circuit = (call.state.netlist.delayed Expansion.react call.instant).netlist.writeBack c ∧
      r.info.changed = (call.state.netlist.delayed Expansion.react call.instant).changed := by
  rw [step, call_of_start h]
  exact ⟨_, rfl, rfl, rfl⟩

/-! ## 3. Settling -/

/-- **A call that settles returns where it settled.** -/
theorem settle_of_settled (h : s.start c = .ok (call, s'))
    (hsettled : (call.state.run Expansion.react call.instant s.config.settleLimit).settled = true) :
    ∃ r, (s.settle c).1 = .ok r ∧
      r.info.passes = (call.state.run Expansion.react call.instant s.config.settleLimit).passes ∧
      r.warnings =
        (call.state.run Expansion.react call.instant s.config.settleLimit).warnings ∧
      r.circuit =
        (call.state.run Expansion.react call.instant s.config.settleLimit).netlist.writeBack c := by
  obtain ⟨-, -, rfl, rfl⟩ := start_eq_ok_iff.mp h
  rw [settle, call_of_start h]
  dsimp only
  rw [if_pos hsettled]
  exact ⟨_, rfl, rfl, rfl, rfl⟩

/-- A call that does not settle fails. -/
theorem settle_of_unsettled (h : s.start c = .ok (call, s'))
    (hunsettled : (call.state.run Expansion.react call.instant s.config.settleLimit).settled = false) :
    (s.settle c).1 = .error (.oscillation s.config.settleLimit) := by
  obtain ⟨-, -, rfl, rfl⟩ := start_eq_ok_iff.mp h
  rw [settle, call_of_start h]
  dsimp only
  rw [if_neg (ne_true_of_eq_false hunsettled)]

/-- **Settling ends with the first quiet pass.** -/
theorem settle_of_quiet (h : s.start c = .ok (call, s')) {k : Nat} (hk : k < s.config.settleLimit)
    (hquiet : call.state.netlist.QuietAfter Expansion.react call.instant k)
    (hearlier : ∀ j < k, ¬ call.state.netlist.QuietAfter Expansion.react call.instant j) :
    ∃ r, (s.settle c).1 = .ok r ∧ r.info.passes = k + 1 ∧
      r.circuit = (call.state.netlist.after Expansion.react call.instant (k + 1)).writeBack c := by
  obtain ⟨hsettled, hnetlist, hpasses⟩ := Settling.run_of_quiet hk hquiet hearlier
  obtain ⟨r, hr, hpasses', -, hcircuit⟩ := settle_of_settled h hsettled
  obtain ⟨-, -, rfl, -⟩ := start_eq_ok_iff.mp h
  refine ⟨r, hr, ?_, ?_⟩
  · rw [hpasses', hpasses]
    exact Nat.zero_add _
  · rw [hcircuit, hnetlist]

/-- **Without a quiet pass settling fails.** -/
theorem settle_of_restless (h : s.start c = .ok (call, s'))
    (hrestless : ∀ j < s.config.settleLimit,
      ¬ call.state.netlist.QuietAfter Expansion.react call.instant j) :
    (s.settle c).1 = .error (.oscillation s.config.settleLimit) :=
  settle_of_unsettled h (Settling.run_of_restless hrestless)

end LogicSim.Service
