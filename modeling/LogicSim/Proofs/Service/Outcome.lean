import LogicSim.Proofs.Evaluation.Reseeding
import LogicSim.Proofs.Service.Calls

/-!
# The outcome of an evaluation

A service adds to an evaluator what is checked before a pass and the choice of its mode. The outcome
of `Service.evaluate` and `Service.step` is settled by four conditions, in this order: whether the
circuit is valid, whether it is too large, which strategy is configured, and whether there is a
combinational cycle (`Service.evaluate_outcome`). If a pass is made, the response is that of the
evaluator with the bounds of the service (`Response.IsPass`).
-/

namespace LogicSim

open Netlist

/-! ## 1. Responses and evaluations -/

/-- A response that brings what an evaluation has brought. -/
structure Response.Matches (r : Response) (v : Evaluation) : Prop where
  succeeded : v.succeeded = true
  circuit : r.circuit = v.circuit
  warnings : r.warnings = v.warnings

/-- **A response to one pass**: that of an evaluator, in the mode that the response names. -/
structure Response.IsPass (e : Evaluator) (gateLimit : Nat) (now : UInt64) (c : Circuit Definition)
    (r : Response) : Prop where
  passes : r.info.passes = 1
  gates : r.info.gateCount ≤ gateLimit
  mode : r.strategy = .immediate ∧ r.Matches (e.immediate c now) ∨
    r.strategy = .delayed ∧ r.Matches (e.delayed c now) ∧
      (e.delayed c now).changed = some r.info.changed

namespace Service

variable {s t : Service} {c : Circuit Definition}

/-- A circuit that a service accepts. -/
structure Accepts (s : Service) (c : Circuit Definition) : Prop where
  check : c.check = []
  size : (s.evaluator.assemble c).size ≤ s.config.gateLimit

theorem Accepts.start (h : s.Accepts c) :
    s.start c = .ok (s.callOf c, { s with time := s.time.read.2 }) :=
  start_eq_ok_iff.mpr ⟨h.check, h.size, rfl, rfl⟩

/-- **What is written after a delayed pass** is what a delayed evaluation returns. -/
theorem Accepts.isPass_delayed (h : s.Accepts c) :
    let sweep := (s.evaluator.assemble c).delayed Expansion.react (s.evaluator.instant s.now)
    (t.finish c (ofSweep sweep) .delayed sweep.changed).1.IsPass s.evaluator s.config.gateLimit
      s.now c := by
  have hc := Circuit.check_eq_nil_iff.mp h.check
  refine ⟨rfl, ?_, .inr ⟨rfl, ?_, ?_⟩⟩
  · refine le_of_eq_of_le ?_ h.size
    have hkept := kept_assemble (Definition.compile s.config.deepest s.config.deepest) c
    exact hkept.delayed.expandedSize_eq Expansion.size
  · rw [Evaluator.delayed_of_valid hc]
    exact ⟨rfl, rfl, rfl⟩
  · rw [Evaluator.delayed_of_valid hc]
    rfl

/-- **What is written after an immediate pass** is what an immediate evaluation returns. -/
theorem Accepts.isPass_immediate (h : s.Accepts c) {schedule : Schedule}
    (hs : (s.evaluator.assemble c).dependencies.schedule = .ok schedule) :
    let sweep := (s.evaluator.assemble c).immediate Expansion.react schedule
      (s.evaluator.instant s.now)
    (t.finish c (ofSweep sweep) .immediate sweep.changed).1.IsPass s.evaluator s.config.gateLimit
      s.now c := by
  have hc := Circuit.check_eq_nil_iff.mp h.check
  refine ⟨rfl, ?_, .inl ⟨rfl, ?_⟩⟩
  · refine le_of_eq_of_le ?_ h.size
    exact ((kept_assemble (Definition.compile s.config.deepest s.config.deepest) c).immediate
      schedule).expandedSize_eq Expansion.size
  · rw [Evaluator.immediate_of_schedule hc _ _ hs]
    exact ⟨rfl, rfl, rfl⟩

/-! ## 2. The mode of a call -/

/-- A step is a delayed pass. -/
theorem Accepts.step_eq (h : s.Accepts c) :
    ∃ r, (s.step c).1 = .ok r ∧ r.strategy = .delayed ∧
      r.IsPass s.evaluator s.config.gateLimit s.now c := by
  rw [step, call_of_start h.start]
  exact ⟨_, rfl, rfl, h.isPass_delayed⟩

/-- Without a combinational cycle a call is immediate, unless it is to be delayed. -/
theorem Accepts.evaluate_of_acyclic (h : s.Accepts c) (hcycle : ¬ c.CombinationalCycle)
    (hstrategy : s.config.strategy ≠ .delayed) :
    ∃ r, (s.evaluate c).1 = .ok r ∧ r.strategy = .immediate ∧
      r.IsPass s.evaluator s.config.gateLimit s.now c := by
  obtain ⟨schedule, hs⟩ : ∃ schedule, (s.evaluator.assemble c).dependencies.schedule = .ok schedule :=
    (schedule_iff (Circuit.check_eq_nil_iff.mp h.check) rfl).mpr hcycle
  have hs' : (s.callOf c).state.netlist.dependencies.schedule = .ok schedule := hs
  rw [evaluate, call_of_start h.start]
  dsimp only
  rw [hs']
  cases hmode : s.config.strategy with
  | delayed => exact absurd hmode hstrategy
  | auto | immediate => exact ⟨_, rfl, rfl, h.isPass_immediate hs⟩

/-- A call that is to be delayed is, and so is an automatic one if there is a combinational cycle. -/
theorem Accepts.evaluate_of_delayed (h : s.Accepts c)
    (hmode : s.config.strategy = .delayed ∨ s.config.strategy = .auto ∧ c.CombinationalCycle) :
    ∃ r, (s.evaluate c).1 = .ok r ∧ r.strategy = .delayed ∧
      r.IsPass s.evaluator s.config.gateLimit s.now c := by
  rw [evaluate, call_of_start h.start]
  dsimp only
  rcases hmode with hmode | ⟨hmode, hcycle⟩
  · rw [hmode]
    exact ⟨_, rfl, rfl, h.isPass_delayed⟩
  · rw [hmode]
    cases hs : (s.callOf c).state.netlist.dependencies.schedule with
    | ok schedule =>
      have hacyclic := (schedule_iff (Circuit.check_eq_nil_iff.mp h.check) rfl).mp ⟨schedule, hs⟩
      exact absurd hcycle hacyclic
    | error cycle => exact ⟨_, rfl, rfl, h.isPass_delayed⟩

/-- **An immediate call fails if there is a combinational cycle**, with the problem of the immediate
    evaluation. -/
theorem Accepts.evaluate_of_cycle (h : s.Accepts c) (hcycle : c.CombinationalCycle)
    (hstrategy : s.config.strategy = .immediate) :
    ∃ ids, (s.evaluator.immediate c s.now).problems = [.circularDependency ids] ∧
      (s.evaluate c).1 = .error (.strategyFailed Strategy.immediate.name
        [.circularDependency ids]) := by
  have hc := Circuit.check_eq_nil_iff.mp h.check
  cases hs : (s.evaluator.assemble c).dependencies.schedule with
  | ok schedule => exact absurd hcycle ((schedule_iff hc rfl).mp ⟨schedule, hs⟩)
  | error cycle =>
    have hs' : (s.callOf c).state.netlist.dependencies.schedule = .error cycle := hs
    rw [Evaluator.immediate_of_cycle hc _ _ hs, evaluate, call_of_start h.start]
    dsimp only
    rw [hs', hstrategy]
    exact ⟨_, rfl, rfl⟩

/-- **A call that is possible answers with a pass** in the mode of the strategy. -/
theorem Accepts.evaluate_eq_ok (h : s.Accepts c)
    (hpossible : s.config.strategy = .immediate → ¬ c.CombinationalCycle) :
    ∃ r, (s.evaluate c).1 = .ok r ∧ r.IsPass s.evaluator s.config.gateLimit s.now c ∧
      (s.config.strategy = .auto → (r.strategy = .immediate ↔ ¬ c.CombinationalCycle)) ∧
      (s.config.strategy ≠ .auto → r.strategy = s.config.strategy) := by
  by_cases hmode : s.config.strategy = .delayed ∨ s.config.strategy = .auto ∧ c.CombinationalCycle
  · obtain ⟨r, hr, hdelayed, hpass⟩ := h.evaluate_of_delayed hmode
    refine ⟨r, hr, hpass, fun hauto => ?_, fun hne => ?_⟩
    · obtain ⟨-, hcycle⟩ := hmode.resolve_left (by rw [hauto]; decide)
      rw [hdelayed]
      exact ⟨fun h => (by cases h), fun hacyclic => absurd hcycle hacyclic⟩
    · rw [hdelayed, hmode.resolve_right fun hauto => hne hauto.1]
  · obtain ⟨hnever, hauto⟩ := not_or.mp hmode
    have hacyclic : ¬ c.CombinationalCycle := by
      cases hs : s.config.strategy with
      | delayed => exact absurd hs hnever
      | auto => exact fun hcycle => hauto ⟨hs, hcycle⟩
      | immediate => exact hpossible hs
    obtain ⟨r, hr, himmediate, hpass⟩ := h.evaluate_of_acyclic hacyclic hnever
    refine ⟨r, hr, hpass, fun _ => iff_of_true himmediate hacyclic, fun hne => ?_⟩
    rw [himmediate]
    cases hs : s.config.strategy with
    | delayed => exact absurd hs hnever
    | auto => exact absurd hs hne
    | immediate => rfl

/-! ## 3. The outcome -/

/-- A circuit is refused for one of two reasons, or accepted. -/
theorem refused_or_accepts (s : Service) (c : Circuit Definition) :
    c.check ≠ [] ∨ (c.check = [] ∧ s.config.gateLimit < (s.evaluator.assemble c).size) ∨
      s.Accepts c := by
  by_cases hcheck : c.check = []
  · rcases Nat.lt_or_ge s.config.gateLimit (s.evaluator.assemble c).size with hlarge | hsize
    · exact .inr (.inl ⟨hcheck, hlarge⟩)
    · exact .inr (.inr ⟨hcheck, hsize⟩)
  · exact .inl hcheck

/-- Only a circuit that is accepted is answered. -/
theorem accepts_of_call {α : Type} {body : Call → Service → Except Failure (α × Service)} {a : α}
    (h : (s.call c body).1 = .ok a) : s.Accepts c := by
  rcases s.refused_or_accepts c with hcheck | ⟨hcheck, hlarge⟩ | haccepts
  · rw [call_of_refused (start_of_invalid hcheck)] at h
    cases h
  · rw [call_of_refused (start_of_large hcheck hlarge)] at h
    cases h
  · exact haccepts

/-- An automatic call does not fail for its strategy. -/
theorem evaluate_of_auto (hauto : s.config.strategy = .auto) (name : String)
    (problems : List Problem) : (s.evaluate c).1 ≠ .error (.strategyFailed name problems) := by
  rcases s.refused_or_accepts c with hcheck | ⟨hcheck, hlarge⟩ | haccepts
  · rw [evaluate, call_of_refused (start_of_invalid hcheck)]
    exact fun h => by cases h
  · rw [evaluate, call_of_refused (start_of_large hcheck hlarge)]
    exact fun h => by cases h
  · have hpossible : s.config.strategy = .immediate → ¬ c.CombinationalCycle := by
      intro himmediate
      rw [hauto] at himmediate
      cases himmediate
    obtain ⟨r, hr, -⟩ := haccepts.evaluate_eq_ok hpossible
    rw [hr]
    exact fun h => by cases h

/-- **A service fails exactly when it must, and otherwise answers like an evaluator**: the conditions
    are looked at in this order, and whatever response there is comes from one pass of the evaluator
    with the bounds of the service. -/
theorem evaluate_outcome (s : Service) (c : Circuit Definition) :
    (c.check ≠ [] →
      (s.evaluate c).1 = .error (.invalidCircuit c.check) ∧
      (s.step c).1 = .error (.invalidCircuit c.check)) ∧
    (c.check = [] → s.config.gateLimit < (s.evaluator.assemble c).size →
      (s.evaluate c).1 = .error (.tooLarge (s.evaluator.assemble c).size s.config.gateLimit) ∧
      (s.step c).1 = .error (.tooLarge (s.evaluator.assemble c).size s.config.gateLimit)) ∧
    (c.check = [] → (s.evaluator.assemble c).size ≤ s.config.gateLimit →
      (s.config.strategy = .immediate → c.CombinationalCycle →
        ∃ ids, (s.evaluator.immediate c s.now).problems = [.circularDependency ids] ∧
          (s.evaluate c).1 = .error (.strategyFailed Strategy.immediate.name
            [.circularDependency ids])) ∧
      ((s.config.strategy = .immediate → ¬ c.CombinationalCycle) →
        ∃ r, (s.evaluate c).1 = .ok r) ∧
      ∃ r, (s.step c).1 = .ok r) ∧
    (s.config.strategy = .auto →
      ∀ name problems, (s.evaluate c).1 ≠ .error (.strategyFailed name problems)) ∧
    (∀ r, (s.evaluate c).1 = .ok r → r.IsPass s.evaluator s.config.gateLimit s.now c ∧
      (s.config.strategy = .auto → (r.strategy = .immediate ↔ ¬ c.CombinationalCycle)) ∧
      (s.config.strategy ≠ .auto → r.strategy = s.config.strategy)) ∧
    ∀ r, (s.step c).1 = .ok r →
      r.strategy = .delayed ∧ r.IsPass s.evaluator s.config.gateLimit s.now c := by
  refine ⟨fun hcheck => ?_, fun hcheck hlarge => ?_, fun hcheck hsize => ?_, evaluate_of_auto,
    fun r hr => ?_, fun r hr => ?_⟩
  · rw [evaluate, step, call_of_refused (start_of_invalid hcheck),
      call_of_refused (start_of_invalid hcheck)]
    exact ⟨rfl, rfl⟩
  · rw [evaluate, step, call_of_refused (start_of_large hcheck hlarge),
      call_of_refused (start_of_large hcheck hlarge)]
    exact ⟨rfl, rfl⟩
  · have haccepts : s.Accepts c := ⟨hcheck, hsize⟩
    refine ⟨fun himmediate hcycle => haccepts.evaluate_of_cycle hcycle himmediate,
      fun hpossible => ?_, ?_⟩
    · obtain ⟨r, hr, -⟩ := haccepts.evaluate_eq_ok hpossible
      exact ⟨r, hr⟩
    · obtain ⟨r, hr, -⟩ := haccepts.step_eq
      exact ⟨r, hr⟩
  · have haccepts : s.Accepts c := accepts_of_call hr
    have hpossible : s.config.strategy = .immediate → ¬ c.CombinationalCycle := by
      intro himmediate hcycle
      obtain ⟨ids, -, hfails⟩ := haccepts.evaluate_of_cycle hcycle himmediate
      rw [hr] at hfails
      cases hfails
    obtain ⟨r', hr', hpass⟩ := haccepts.evaluate_eq_ok hpossible
    rw [hr] at hr'
    exact Except.ok.inj hr' ▸ hpass
  · have haccepts : s.Accepts c := accepts_of_call hr
    obtain ⟨r', hr', hpass⟩ := haccepts.step_eq
    rw [hr] at hr'
    exact Except.ok.inj hr' ▸ hpass

/-- Two gates that inhibit each other are evaluated in a delayed pass, and not at all if the pass has
    to be immediate. -/
theorem crossedLatch_outcome :
    (∃ r, (Service.evaluate { time := .fixed 0 } (Circuit.crossedLatch false true)).1 = .ok r ∧
      r.strategy = .delayed ∧
      r.circuit = (Evaluator.delayed {} (Circuit.crossedLatch false true) 0).circuit) ∧
    ∃ ids, (Service.evaluate { config := { strategy := .immediate }, time := .fixed 0 }
        (Circuit.crossedLatch false true)).1 =
      .error (.strategyFailed "immediate" [.circularDependency ids]) := by
  constructor
  · obtain ⟨-, -, -, -, hresponse, -⟩ :=
      evaluate_outcome { time := .fixed 0 } (Circuit.crossedLatch false true)
    have hanswer : ∃ r, (Service.evaluate { time := .fixed 0 } (Circuit.crossedLatch false true)).1 =
        .ok r ∧ r.strategy = .delayed := ⟨_, rfl, rfl⟩
    obtain ⟨r, hr, hdelayed⟩ := hanswer
    obtain ⟨hpass, -⟩ := hresponse r hr
    rcases hpass.mode with ⟨himmediate, -⟩ | ⟨-, hmatches, -⟩
    · rw [hdelayed] at himmediate
      cases himmediate
    · exact ⟨r, hr, hdelayed, hmatches.circuit⟩
  · exact ⟨_, rfl⟩

end Service

end LogicSim
