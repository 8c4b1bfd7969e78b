import LogicSim.Proofs.Service.Outcome
import LogicSim.Service.ClockCycle

/-!
# Sessions

A session is a list of requests to one service, of all four kinds and in any order, each with its
outcome. What a call leaves behind is settled by two things only: whether its circuit was accepted,
and what it returned.

* `Service.keepsBooks_serve` -- so it is for calls of every kind, and what a call returns depends on
  the configuration and on the time that it reads, and on nothing else of its service;
* `Service.counted_session` -- the statistics after a session, over those before it;
* `Service.now_session` -- the time that the next call reads;
* `Service.session_accounting` -- the books of a whole session: every call that succeeded is counted,
  none that failed, and the time has moved on once for each circuit accepted.
-/

namespace LogicSim

/-! ## 1. Requests and replies -/

/-- A call that a service is asked for. -/
inductive Request where
  | evaluate (c : Circuit Definition)
  | step (c : Circuit Definition)
  | settle (c : Circuit Definition)
  | cycle (c : Circuit Definition) (r : CycleRequest)

/-- The circuit of a request. -/
def Request.circuit : Request → Circuit Definition
  | .evaluate c | .step c | .settle c | .cycle c _ => c

/-- What a call that succeeds returns. -/
inductive Reply where
  | response (r : Response)
  | cycle (r : CycleResponse)

namespace Reply

/-- The strategy of a call. A clock cycle is delayed. -/
def strategy : Reply → Strategy
  | .response r => r.strategy
  | .cycle _ => .delayed

/-- The numbers about a call. -/
def info : Reply → CallInfo
  | .response r => r.info
  | .cycle r => r.info

end Reply

namespace Service

/-- A call of any kind. -/
def serve (s : Service) : Request → Except Failure Reply × Service
  | .evaluate c => (s.evaluate c).map (·.map .response) id
  | .step c => (s.step c).map (·.map .response) id
  | .settle c => (s.settle c).map (·.map .response) id
  | .cycle c r => (s.cycle c r).map (·.map .cycle) id

/-- The calls of a session, one after the other, and the service after them. -/
def session (s : Service) : List Request → List (Except Failure Reply) × Service
  | [] => ([], s)
  | q :: rest =>
    let (outcome, s) := s.serve q
    let (outcomes, s) := session s rest
    (outcome :: outcomes, s)

variable {s t : Service} {c : Circuit Definition}

instance (s : Service) (c : Circuit Definition) : Decidable (s.Accepts c) :=
  decidable_of_iff (c.check = [] ∧ (s.evaluator.assemble c).size ≤ s.config.gateLimit)
    ⟨fun h => ⟨h.1, h.2⟩, fun h => ⟨h.check, h.size⟩⟩

/-- A circuit is accepted under a configuration, whatever else there is to the service. -/
theorem accepts_congr (hconfig : t.config = s.config) : t.Accepts c ↔ s.Accepts c := by
  have hevaluator : t.evaluator = s.evaluator := by rw [evaluator, evaluator, hconfig]
  constructor
  · exact fun h => ⟨h.check, hconfig ▸ hevaluator ▸ h.size⟩
  · exact fun h => ⟨h.check, hconfig.symm ▸ hevaluator.symm ▸ h.size⟩

/-! ## 2. One call -/

/-- The service once a circuit has been looked at: the time has been read if it was accepted. -/
def afterStart (s : Service) (c : Circuit Definition) : Service :=
  if s.Accepts c then { s with time := s.time.read.2 } else s

/-- A call looks at its circuit, and the rest of it is done only if the circuit is accepted. -/
theorem start_cases (s : Service) (c : Circuit Definition) :
    (s.Accepts c ∧ s.start c = .ok (s.callOf c, s.afterStart c)) ∨
      ¬ s.Accepts c ∧ s.afterStart c = s ∧ ∃ failure, s.start c = .error failure := by
  by_cases haccepts : s.Accepts c
  · exact .inl ⟨haccepts, by rw [afterStart, if_pos haccepts, haccepts.start]⟩
  · refine .inr ⟨haccepts, if_neg haccepts, ?_⟩
    rcases s.refused_or_accepts c with hcheck | ⟨hcheck, hlarge⟩ | haccepts'
    · exact ⟨_, start_of_invalid hcheck⟩
    · exact ⟨_, start_of_large hcheck hlarge⟩
    · exact absurd haccepts' haccepts

@[simp] theorem config_afterStart (s : Service) (c : Circuit Definition) :
    (s.afterStart c).config = s.config := by
  rw [afterStart]
  split <;> rfl

@[simp] theorem statistics_afterStart (s : Service) (c : Circuit Definition) :
    (s.afterStart c).statistics = s.statistics := by
  rw [afterStart]
  split <;> rfl

/-- Two services with the same configuration and the same time begin a call alike. -/
theorem start_congr (hconfig : t.config = s.config) (hnow : t.now = s.now) :
    (t.start c).map Prod.fst = (s.start c).map Prod.fst := by
  rw [start, start, hconfig]
  cases c.netlist s.config.deepest with
  | error problems => rfl
  | ok net =>
    dsimp only
    split
    · rfl
    · exact congrArg (fun now => Except.ok (⟨⟨now, s.config.settleLimit⟩, { netlist := net }⟩ : Call))
        hnow

/-! ## 3. Calls that keep the books -/

section Calls

variable {α : Type} {strategy : α → Strategy} {passes : α → Nat}

/-- The service after a call that was counted if it returned something. -/
def bookedBy (s : Service) (strategy : α → Strategy) (passes : α → Nat) :
    Except Failure α → Service
  | .ok a => s.record (strategy a) (passes a)
  | .error _ => s

/-- **A call on a circuit that keeps the books.** -/
structure KeepsBooks (call : Service → Except Failure α × Service) (c : Circuit Definition)
    (strategy : α → Strategy) (passes : α → Nat) : Prop where
  /-- it leaves behind the time read if the circuit was accepted, and one more call counted if it
      returned something -/
  after : ∀ s, (call s).2 = (s.afterStart c).bookedBy strategy passes (call s).1
  /-- what it returns depends on the configuration and the time alone -/
  congr : ∀ s t, t.config = s.config → t.now = s.now → (call t).1 = (call s).1

variable {body : Call → Service → Except Failure (α × Service)}

theorem call_fst (s : Service) (c : Circuit Definition) :
    (s.call c body).1 = (s.start c).bind fun begun => (body begun.1 begun.2).map Prod.fst := by
  rw [call]
  cases s.start c with
  | error failure => rfl
  | ok begun =>
    dsimp only [Except.bind]
    cases body begun.1 begun.2 <;> rfl

/-- A call keeps the books if what is done after its start counts what it returns, and reads no more
    of the service than the configuration. -/
theorem keepsBooks_call (c : Circuit Definition)
    (hrecords : ∀ call t a t', body call t = .ok (a, t') → t' = t.record (strategy a) (passes a))
    (hconfig : ∀ call u u', u.config = u'.config →
      (body call u).map Prod.fst = (body call u').map Prod.fst) :
    KeepsBooks (fun s => s.call c body) c strategy passes := by
  refine ⟨fun s => ?_, fun s t hsame hnow => ?_⟩
  · rcases s.start_cases c with ⟨-, hs⟩ | ⟨-, hsame, failure, hs⟩
    · rw [call_of_start hs]
      cases h : body (s.callOf c) (s.afterStart c) with
      | error failure => rfl
      | ok result => exact hrecords _ _ _ _ h
    · rw [call_of_refused hs, hsame]
      rfl
  · have hstart : (t.start c).map Prod.fst = (s.start c).map Prod.fst := start_congr hsame hnow
    rw [call_fst, call_fst]
    rcases s.start_cases c with ⟨-, hs⟩ | ⟨-, -, failure, hs⟩ <;>
      rcases t.start_cases c with ⟨-, ht⟩ | ⟨-, -, failure', ht⟩ <;>
      rw [hs, ht] at hstart <;> rw [hs, ht]
    · obtain hcall : t.callOf c = s.callOf c := Except.ok.inj hstart
      rw [hcall]
      exact hconfig _ _ _ (by rw [config_afterStart, config_afterStart, hsame])
    · cases hstart
    · cases hstart
    · obtain rfl : failure' = failure := Except.error.inj hstart
      rfl

/-- Wrapping up what a call returns changes nothing. -/
theorem KeepsBooks.map {β : Type} {call : Service → Except Failure β × Service} {f : β → α}
    (h : KeepsBooks call c (strategy ∘ f) (passes ∘ f)) :
    KeepsBooks (fun s => (call s).map (·.map f) id) c strategy passes := by
  refine ⟨fun s => ?_, fun s t hsame hnow => ?_⟩
  · dsimp only [Prod.map]
    rw [id, h.after s]
    cases (call s).1 <;> rfl
  · exact congrArg (·.map f) (h.congr s t hsame hnow)

end Calls

theorem keepsBooks_evaluate (c : Circuit Definition) :
    KeepsBooks (·.evaluate c) c Response.strategy (·.info.passes) := by
  refine keepsBooks_call c (fun call t a t' h => ?_) (fun call u u' hu => ?_)
  · dsimp only at h
    split at h
    all_goals cases h
    all_goals rfl
  · dsimp only
    rw [hu]
    split <;> rfl

theorem keepsBooks_step (c : Circuit Definition) :
    KeepsBooks (·.step c) c Response.strategy (·.info.passes) := by
  refine keepsBooks_call c (fun call t a t' h => ?_) (fun call u u' _ => rfl)
  cases h
  rfl

theorem keepsBooks_settle (c : Circuit Definition) :
    KeepsBooks (·.settle c) c Response.strategy (·.info.passes) := by
  refine keepsBooks_call c (fun call t a t' h => ?_) (fun call u u' hu => ?_)
  · dsimp only at h
    split at h
    · cases h
      rfl
    · cases h
  · dsimp only
    rw [hu]
    split <;> rfl

theorem keepsBooks_cycle (c : Circuit Definition) (r : CycleRequest) :
    KeepsBooks (·.cycle c r) c (fun _ => .delayed) (·.info.passes) := by
  refine keepsBooks_call c (fun call t a t' h => ?_) (fun call u u' _ => ?_)
  · dsimp only at h
    split at h
    · cases h
    · cases h
      rfl
  · dsimp only
    split <;> rfl

/-- **Calls of every kind keep the books.** -/
theorem keepsBooks_serve (q : Request) :
    KeepsBooks (·.serve q) q.circuit Reply.strategy (·.info.passes) := by
  cases q with
  | evaluate c => exact (keepsBooks_evaluate c).map
  | step c => exact (keepsBooks_step c).map
  | settle c => exact (keepsBooks_settle c).map
  | cycle c r => exact (keepsBooks_cycle c r).map

theorem config_bookedBy {α : Type} {strategy : α → Strategy} {passes : α → Nat}
    (s : Service) (outcome : Except Failure α) :
    (s.bookedBy strategy passes outcome).config = s.config := by
  cases outcome <;> rfl

theorem time_bookedBy {α : Type} {strategy : α → Strategy} {passes : α → Nat}
    (s : Service) (outcome : Except Failure α) :
    (s.bookedBy strategy passes outcome).time = s.time := by
  cases outcome <;> rfl

/-- A call does not touch the configuration. -/
theorem config_serve (s : Service) (q : Request) : (s.serve q).2.config = s.config := by
  rw [(keepsBooks_serve q).after, config_bookedBy, config_afterStart]

/-- A call reads the time once if its circuit is accepted, and otherwise not at all. -/
theorem time_serve (s : Service) (q : Request) :
    (s.serve q).2.time = if s.Accepts q.circuit then s.time.read.2 else s.time := by
  rw [(keepsBooks_serve q).after, time_bookedBy, afterStart]
  split <;> rfl

/-- **A call that fails leaves the statistics as they were.** -/
theorem statistics_serve_of_error {q : Request} {failure : Failure}
    (h : (s.serve q).1 = .error failure) : (s.serve q).2.statistics = s.statistics := by
  rw [(keepsBooks_serve q).after, h]
  exact statistics_afterStart s q.circuit

/-- A call that succeeds is counted. -/
theorem statistics_serve_of_ok {q : Request} {reply : Reply} (h : (s.serve q).1 = .ok reply) :
    (s.serve q).2.statistics =
      { calls := s.statistics.calls + 1
        passes := s.statistics.passes + reply.info.passes
        lastStrategy := some reply.strategy } := by
  rw [(keepsBooks_serve q).after, h, bookedBy, record, statistics_afterStart]

/-! ## 4. Many calls -/

theorem session_cons (s : Service) (q : Request) (rest : List Request) :
    s.session (q :: rest) =
      ((s.serve q).1 :: ((s.serve q).2.session rest).1, ((s.serve q).2.session rest).2) :=
  rfl

/-- A session goes on where another one has ended. -/
theorem session_append (s : Service) (earlier later : List Request) :
    s.session (earlier ++ later) =
      ((s.session earlier).1 ++ ((s.session earlier).2.session later).1,
        ((s.session earlier).2.session later).2) := by
  induction earlier generalizing s with
  | nil => rfl
  | cons q earlier ih => rw [List.cons_append, session_cons, ih, session_cons, List.cons_append]

@[simp] theorem length_session (s : Service) (requests : List Request) :
    (s.session requests).1.length = requests.length := by
  induction requests generalizing s with
  | nil => rfl
  | cons q rest ih => rw [session_cons, List.length_cons, List.length_cons, ih]

theorem config_session (s : Service) (requests : List Request) :
    (s.session requests).2.config = s.config := by
  induction requests generalizing s with
  | nil => rfl
  | cons q rest ih => rw [session_cons, ih, config_serve]

/-- The replies of a session, in order. -/
def replies (s : Service) (requests : List Request) : List Reply :=
  (s.session requests).1.filterMap Except.toOption

theorem replies_cons_of_error {q : Request} {failure : Failure}
    (h : (s.serve q).1 = .error failure) (rest : List Request) :
    s.replies (q :: rest) = (s.serve q).2.replies rest := by
  rw [replies, session_cons, h]
  rfl

theorem replies_cons_of_ok {q : Request} {reply : Reply} (h : (s.serve q).1 = .ok reply)
    (rest : List Request) :
    s.replies (q :: rest) = reply :: (s.serve q).2.replies rest := by
  rw [replies, session_cons, h]
  rfl

/-- **The statistics after a session** are those before it with each reply counted. -/
theorem counted_session (s : Service) (requests : List Request) :
    (s.session requests).2.statistics =
      { calls := s.statistics.calls + (s.replies requests).length
        passes := s.statistics.passes + ((s.replies requests).map (·.info.passes)).sum
        lastStrategy :=
          ((s.replies requests).getLast?.map Reply.strategy).or s.statistics.lastStrategy } := by
  induction requests generalizing s with
  | nil => rfl
  | cons q rest ih =>
    rw [session_cons, ih]
    cases h : (s.serve q).1 with
    | error failure => rw [statistics_serve_of_error h, replies_cons_of_error h]
    | ok reply =>
      rw [statistics_serve_of_ok h, replies_cons_of_ok h, List.length_cons, List.map_cons,
        List.sum_cons, List.getLast?_cons]
      congr 1
      · exact Nat.add_right_comm _ _ _
      · exact Nat.add_assoc _ _ _
      · cases ((s.serve q).2.replies rest).getLast? <;> rfl

/-- The time after a session has been read once for each circuit accepted. -/
theorem time_session (s : Service) (requests : List Request) :
    (s.session requests).2.time =
      (fun time => (TimeSource.read time).2)^[requests.countP fun q => s.Accepts q.circuit]
        s.time := by
  induction requests generalizing s with
  | nil => rfl
  | cons q rest ih =>
    have hrest : (rest.countP fun q' => (s.serve q).2.Accepts q'.circuit) =
        rest.countP fun q' => s.Accepts q'.circuit :=
      List.countP_congr fun q' _ => by
        simp only [decide_eq_true_eq, accepts_congr (config_serve s q)]
    rw [session_cons, ih, hrest, time_serve, List.countP_cons]
    by_cases haccepts : s.Accepts q.circuit
    · rw [if_pos haccepts, if_pos (decide_eq_true haccepts), Function.iterate_succ_apply]
    · rw [if_neg haccepts, if_neg (by simpa using haccepts), Nat.add_zero]

/-! ## 5. Steps of time -/

/-- A source that goes on by a step, after some readings. -/
theorem iterate_read_stepped (start step : UInt64) (k : Nat) :
    (fun time => (TimeSource.read time).2)^[k] (.stepped start step) =
      .stepped (start + UInt64.ofNat k * step) step := by
  induction k with
  | zero => simp
  | succ k ih =>
    rw [Function.iterate_succ_apply', ih, TimeSource.read, UInt64.ofNat_add, UInt64.add_mul,
      show UInt64.ofNat 1 = 1 from rfl, UInt64.one_mul, UInt64.add_assoc]

theorem toNat_add_ofNat_mul (start step : UInt64) (k : Nat) :
    (start + UInt64.ofNat k * step).toNat = (start.toNat + k * step.toNat) % 2 ^ 64 := by
  rw [UInt64.toNat_add, UInt64.toNat_mul, UInt64.toNat_ofNat', Nat.add_mod_mod, Nat.add_mod,
    Nat.mul_mod, Nat.mod_mod, ← Nat.mul_mod, ← Nat.add_mod]

/-- The time that the call after a session reads. -/
theorem now_session (config : Config) (start step : UInt64) (requests : List Request) :
    let s : Service := { config, time := .stepped start step }
    (s.session requests).2.now =
      start + UInt64.ofNat (requests.countP fun q => s.Accepts q.circuit) * step := by
  intro s
  rw [now, time_session, iterate_read_stepped]
  rfl

/-! ## 6. The books of a session -/

/-- **The books of a session**: those of a service that has not been asked for anything before. The
    calls counted are those that succeeded, with their passes and the strategy of the last one; a call
    that fails leaves the statistics as they are; and each call returns what it would at the time that
    has moved on by one step for each circuit accepted before it, whatever became of those calls. -/
theorem session_accounting (config : Config) (time : TimeSource) (requests : List Request) :
    let s : Service := { config, time }
    (s.session requests).2.statistics.calls = (s.replies requests).length ∧
    (s.session requests).2.statistics.passes =
      ((s.replies requests).map (·.info.passes)).sum ∧
    (s.session requests).2.statistics.lastStrategy =
      (s.replies requests).getLast?.map Reply.strategy ∧
    ∀ earlier q later, requests = earlier ++ q :: later →
      let t := (s.session earlier).2
      let k := earlier.countP fun q => s.Accepts q.circuit
      (s.session requests).1[earlier.length]? = some (t.serve q).1 ∧
      (∀ failure, (t.serve q).1 = .error failure → (t.serve q).2.statistics = t.statistics) ∧
      ∀ start step, time = .stepped start step →
        t.now.toNat = (start.toNat + k * step.toNat) % 2 ^ 64 ∧
        (∀ call t', t.start q.circuit = .ok (call, t') → call.instant.now = t.now) ∧
        (t.serve q).1 = (Service.serve { config, time := .fixed t.now } q).1 := by
  intro s
  have hcounted := counted_session s requests
  refine ⟨?_, ?_, ?_, ?_⟩
  · rw [hcounted]
    exact Nat.zero_add _
  · rw [hcounted]
    exact Nat.zero_add _
  · rw [hcounted]
    exact Option.or_none
  · rintro earlier q later rfl t k
    refine ⟨?_, fun failure h => statistics_serve_of_error h, ?_⟩
    · rw [session_append, session_cons, List.getElem?_append_right (length_session s earlier).le,
        length_session, Nat.sub_self]
      rfl
    · rintro start step rfl
      refine ⟨?_, fun call t' h => ?_, ?_⟩
      · exact (congrArg UInt64.toNat (now_session config start step earlier)).trans
          (toNat_add_ofNat_mul start step k)
      · obtain ⟨-, -, rfl, -⟩ := start_eq_ok_iff.mp h
        rfl
      · exact (keepsBooks_serve q).congr _ _ (config_session s earlier) rfl

/-- A session with a failure of each kind between two calls that succeed: a circuit that is not
    valid, one that cannot be evaluated at once, one that is too large, one without the clock asked
    for and one that does not settle. -/
def mixedSession : List Request :=
  [.evaluate { gates := [.input "A" true] },
    .evaluate { gates := [.new "A" .not, .new "A" .not] },
    .evaluate (Circuit.crossedLatch false true),
    .evaluate (Circuit.latch true false),
    .cycle { gates := [.input "A" true] } ⟨"CLK", 4⟩,
    .settle (Circuit.connectAll { gates := [.new "N" .not] } [("N", 0, "N", 0)]),
    .step { gates := [.new "N" .not] }]

/-- The service of `mixedSession`, six milliseconds before the largest time. -/
def nearTheEnd : Service :=
  { config := { strategy := .immediate, settleLimit := 4, gateLimit := 4 }
    time := .stepped 18446744073709551610 5 }

/-- Of `mixedSession` two calls are counted; a failure counts nothing; and four circuits are accepted
    before the last one, which sees the time start again. -/
theorem mixedSession_accounting :
    (nearTheEnd.session mixedSession).2.statistics.calls = 2 ∧
    (nearTheEnd.session mixedSession).2.statistics.passes = 2 ∧
    (nearTheEnd.session mixedSession).2.statistics.lastStrategy = some .delayed ∧
    ((nearTheEnd.session (mixedSession.take 2)).2.serve
        (.evaluate (Circuit.crossedLatch false true))).2.statistics =
      (nearTheEnd.session (mixedSession.take 2)).2.statistics ∧
    (nearTheEnd.session (mixedSession.take 6)).2.now = 14 ∧
    ((nearTheEnd.session (mixedSession.take 6)).2.callOf { gates := [.new "N" .not] }).instant.now =
      (nearTheEnd.session (mixedSession.take 6)).2.now := by
  obtain ⟨hcalls, hpasses, hlast, hall⟩ := session_accounting nearTheEnd.config nearTheEnd.time
    mixedSession
  obtain ⟨-, hfailed, -⟩ := hall (mixedSession.take 2) _ (mixedSession.drop 3) rfl
  obtain ⟨-, -, htime⟩ := hall (mixedSession.take 6) _ [] rfl
  obtain ⟨hnow, hcall, -⟩ := htime 18446744073709551610 5 rfl
  refine ⟨hcalls.trans (by decide +kernel), hpasses.trans (by decide +kernel),
    hlast.trans (by decide +kernel), ?_, ?_, ?_⟩
  · exact hfailed (.strategyFailed "immediate" [.circularDependency ["N2", "N1", "N2"]]) rfl
  · have haccepted : (mixedSession.take 6).countP (fun q => nearTheEnd.Accepts q.circuit) = 4 := by
      decide +kernel
    exact UInt64.toNat_inj.mp
      (hnow.trans (congrArg (fun k => (18446744073709551610 + k * 5) % 2 ^ 64) haccepted))
  · have haccepts : (nearTheEnd.session (mixedSession.take 6)).2.Accepts { gates := [.new "N" .not] } :=
      (accepts_congr (config_session nearTheEnd _)).mpr (by decide +kernel)
    exact hcall _ _ haccepts.start

end Service

end LogicSim
