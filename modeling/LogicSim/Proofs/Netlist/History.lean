import LogicSim.Proofs.Netlist.Edge

/-!
# Memory as a function of history

What a flip-flop or a latch holds is decided by its history of evaluations, however long it is. Only
the evaluations with two inputs count: among these a flip-flop goes by the last rise of its clock,
and a latch by the last time that exactly one of its inputs was high.

* `Element.after_flipFlop`, `Element.after_latch` -- only pairs of signals reach the memory;
* `Leaves` -- what the last of some events leaves behind;
* `FlipFlopMemory.leaves_take`, `LatchMemory.leaves_take` -- the memory after pairs of signals;
* `Element.memory_of_history` -- both, with the outcome of each evaluation on the way.
-/

namespace LogicSim

variable {ε : Type} {run : ε → Reaction} {instant : Instant}

/-! ## 1. Histories -/

/-- The evaluations of an element: their instants and the signals at the inputs. -/
abbrev History := List (Instant × List Bool)

/-- The signals of those evaluations that have two. -/
def History.pairs (history : History) : List (Bool × Bool) :=
  history.filterMap fun step => match step.2 with
    | [a, b] => some (a, b)
    | _ => none

/-- A flip-flop after pairs of a data signal and a clock level. -/
def FlipFlopMemory.take (m : FlipFlopMemory) (pairs : List (Bool × Bool)) : FlipFlopMemory :=
  pairs.foldl (fun m p => m.next p.1 p.2) m

/-- A latch after pairs of a signal to set it and one to reset it. -/
def LatchMemory.take (m : LatchMemory) (pairs : List (Bool × Bool)) : LatchMemory :=
  pairs.foldl (fun m p => m.next p.1 p.2) m

@[simp] theorem FlipFlopMemory.take_concat (m : FlipFlopMemory) (pairs : List (Bool × Bool))
    (p : Bool × Bool) : m.take (pairs ++ [p]) = (m.take pairs).next p.1 p.2 := by
  simp [take]

@[simp] theorem LatchMemory.take_concat (m : LatchMemory) (pairs : List (Bool × Bool))
    (p : Bool × Bool) : m.take (pairs ++ [p]) = (m.take pairs).next p.1 p.2 := by
  simp [take]

namespace Element

/-- An element after its evaluations. -/
def after (run : ε → Reaction) (e : Element ε) (history : History) : Element ε :=
  history.foldl (fun e step => (e.advance run step.1 step.2).1) e

@[simp] theorem after_cons (e : Element ε) (step : Instant × List Bool) (history : History) :
    e.after run (step :: history) = ((e.advance run step.1 step.2).1).after run history := rfl

@[simp] theorem after_concat (e : Element ε) (history : History) (step : Instant × List Bool) :
    e.after run (history ++ [step]) = ((e.after run history).advance run step.1 step.2).1 := by
  simp [after]

/-- What a flip-flop or a latch does in an evaluation. -/
theorem advance_flipFlop (run : ε → Reaction) (instant : Instant) (inputs : List Bool)
    (m : FlipFlopMemory) :
    (∃ d level, inputs = [d, level] ∧ (flipFlop m).advance run instant inputs =
      (.flipFlop (m.next d level), .ok ⟨[(m.next d level).q, (m.next d level).qBar], []⟩)) ∨
    (inputs.length ≠ 2 ∧ (flipFlop m).advance run instant inputs =
      (.flipFlop m, .error (.arity .flipFlop 2 inputs.length))) := by
  match inputs with
  | [d, level] => exact .inl ⟨d, level, rfl, rfl⟩
  | [] | [_] | _ :: _ :: _ :: _ => exact .inr ⟨by simp, rfl⟩

theorem advance_latch (run : ε → Reaction) (instant : Instant) (inputs : List Bool)
    (m : LatchMemory) :
    (∃ set reset, inputs = [set, reset] ∧ (latch m).advance run instant inputs =
      (.latch (m.next set reset), .ok ⟨[(m.next set reset).q, (m.next set reset).qBar],
        if set && reset then [LatchMemory.conflict] else []⟩)) ∨
    (inputs.length ≠ 2 ∧ (latch m).advance run instant inputs =
      (.latch m, .error (.arity .latch 2 inputs.length))) := by
  match inputs with
  | [set, reset] => exact .inl ⟨set, reset, rfl, rfl⟩
  | [] | [_] | _ :: _ :: _ :: _ => exact .inr ⟨by simp, rfl⟩

end Element

/-- An evaluation without two inputs leaves no pair. -/
theorem History.pairs_cons_of_ne {step : Instant × List Bool} (h : step.2.length ≠ 2)
    (history : History) : pairs (step :: history) = pairs history := by
  unfold pairs
  rw [List.filterMap_cons_none]
  split <;> simp_all

namespace Element

variable (run : ε → Reaction)

/-- **Only pairs of signals reach the memory** of a flip-flop. -/
theorem after_flipFlop (m : FlipFlopMemory) (history : History) :
    (flipFlop m).after run history = .flipFlop (m.take history.pairs) := by
  induction history generalizing m with
  | nil => rfl
  | cons step history ih =>
    obtain ⟨instant, inputs⟩ := step
    rcases advance_flipFlop run instant inputs m with ⟨d, level, rfl, h⟩ | ⟨hlength, h⟩
    · rw [after_cons, h, ih]
      rfl
    · rw [after_cons, h, ih, History.pairs_cons_of_ne hlength]

theorem after_latch (m : LatchMemory) (history : History) :
    (latch m).after run history = .latch (m.take history.pairs) := by
  induction history generalizing m with
  | nil => rfl
  | cons step history ih =>
    obtain ⟨instant, inputs⟩ := step
    rcases advance_latch run instant inputs m with ⟨set, reset, rfl, h⟩ | ⟨hlength, h⟩
    · rw [after_cons, h, ih]
      rfl
    · rw [after_cons, h, ih, History.pairs_cons_of_ne hlength]

end Element

/-! ## 2. Events -/

/-- At position `i` the clock is high after it was low, and `d` is at the data input. What it was
    before the first position is given. -/
def RisesAt (before : Bool) (pairs : List (Bool × Bool)) (i : Nat) (d : Bool) : Prop :=
  pairs[i]? = some (d, true) ∧ (before :: pairs.map Prod.snd)[i]? = some false

/-- At position `i` exactly one of two signals is high: the first one if `set`. -/
def DecidesAt (pairs : List (Bool × Bool)) (i : Nat) (set : Bool) : Prop :=
  pairs[i]? = some (set, !set)

/-- **What events leave behind**: the signal of the last one with its complement, or the initial pair
    if there is none. -/
def Leaves (event : Nat → Bool → Prop) (initial now : Bool × Bool) : Prop :=
  (∃ i b, event i b ∧ (∀ j b', event j b' → j ≤ i) ∧ now = (b, !b)) ∨
    ((∀ i b, ¬ event i b) ∧ now = initial)

/-- A position of a list with one more element. -/
theorem getElem?_concat_iff {α : Type} {l : List α} {a b : α} {i : Nat} :
    (l ++ [a])[i]? = some b ↔ l[i]? = some b ∨ (i = l.length ∧ a = b) := by
  rcases Nat.lt_trichotomy i l.length with hi | rfl | hi
  · rw [List.getElem?_append_left hi]
    simp [Nat.ne_of_lt hi]
  · simp
  · simp [List.getElem?_append_right (Nat.le_of_lt hi), Nat.ne_of_gt hi, Nat.le_of_lt hi,
      Nat.sub_ne_zero_of_lt hi]

section Events

variable {before d level set reset : Bool} {pairs : List (Bool × Bool)} {i : Nat} {b : Bool}

/-- A pair added at the end is a rise if its clock is high and the level before it was low. -/
theorem risesAt_concat :
    RisesAt before (pairs ++ [(d, level)]) i b ↔ RisesAt before pairs i b ∨
      (i = pairs.length ∧ b = d ∧ level = true ∧
        (before :: pairs.map Prod.snd)[pairs.length]? = some false) := by
  unfold RisesAt
  rw [getElem?_concat_iff, List.map_append, ← List.cons_append]
  -- the level before a pair is not that of the last pair
  have hbefore : i ≤ pairs.length → ((before :: pairs.map Prod.snd) ++ [level])[i]? =
      (before :: pairs.map Prod.snd)[i]? := by
    intro hi
    refine List.getElem?_append_left ?_
    rw [List.length_cons, List.length_map]
    exact Nat.lt_succ_of_le hi
  constructor
  · rintro ⟨hpair | ⟨rfl, hpair⟩, hlow⟩
    · have hi := (List.getElem?_eq_some_iff.mp hpair).1
      exact .inl ⟨hpair, hbefore (Nat.le_of_lt hi) ▸ hlow⟩
    · obtain ⟨rfl, rfl⟩ := Prod.mk.inj hpair
      exact .inr ⟨rfl, rfl, rfl, hbefore le_rfl ▸ hlow⟩
  · rintro (⟨hpair, hlow⟩ | ⟨rfl, rfl, rfl, hlow⟩)
    · have hi := (List.getElem?_eq_some_iff.mp hpair).1
      exact ⟨.inl hpair, (hbefore (Nat.le_of_lt hi)).trans hlow⟩
    · exact ⟨.inr ⟨rfl, rfl⟩, (hbefore le_rfl).trans hlow⟩

theorem decidesAt_concat :
    DecidesAt (pairs ++ [(set, reset)]) i b ↔ DecidesAt pairs i b ∨
      (i = pairs.length ∧ b = set ∧ reset = !set) := by
  rw [DecidesAt, getElem?_concat_iff, Prod.mk.injEq]
  refine or_congr_right (and_congr_right fun _ => ⟨?_, ?_⟩) <;> rintro ⟨rfl, rfl⟩ <;> exact ⟨rfl, rfl⟩

theorem RisesAt.lt (h : RisesAt before pairs i b) : i < pairs.length :=
  (List.getElem?_eq_some_iff.mp h.1).1

theorem DecidesAt.lt (h : DecidesAt pairs i b) : i < pairs.length :=
  (List.getElem?_eq_some_iff.mp h).1

end Events

/-- **One more position.** If there is an event at it, that is the last one; if not, those before
    count. -/
theorem Leaves.concat {event event' : Nat → Bool → Prop} {initial now now' : Bool × Bool} {n : Nat}
    {d : Bool} {new : Prop} (h : Leaves event initial now) (hlt : ∀ i b, event i b → i < n)
    (hevent : ∀ i b, event' i b ↔ event i b ∨ (i = n ∧ b = d ∧ new))
    (hnew : new → now' = (d, !d)) (hold : ¬ new → now' = now) : Leaves event' initial now' := by
  by_cases hat : new
  · refine .inl ⟨n, d, (hevent n d).mpr (.inr ⟨rfl, rfl, hat⟩), fun i b hi => ?_, hnew hat⟩
    rcases (hevent i b).mp hi with hi | ⟨rfl, -, -⟩
    · exact Nat.le_of_lt (hlt i b hi)
    · exact Nat.le_refl i
  · have hsame : event' = event := by
      funext i b
      exact propext ((hevent i b).trans (or_iff_left fun hi => hat hi.2.2))
    rw [hsame, hold hat]
    exact h

/-! ## 3. The memory after pairs of signals -/

/-- A flip-flop has the level of its clock last time. -/
theorem FlipFlopMemory.previousClock_take (m : FlipFlopMemory) (pairs : List (Bool × Bool)) :
    (m.previousClock :: pairs.map Prod.snd)[pairs.length]? = some (m.take pairs).previousClock := by
  induction pairs using List.reverseRecOn with
  | nil => rfl
  | append_singleton pairs p _ => simp

/-- **A flip-flop holds the data of the last rise.** -/
theorem FlipFlopMemory.leaves_take (m : FlipFlopMemory) (pairs : List (Bool × Bool)) :
    Leaves (RisesAt m.previousClock pairs) (m.q, m.qBar)
      ((m.take pairs).q, (m.take pairs).qBar) := by
  induction pairs using List.reverseRecOn with
  | nil => exact .inr ⟨fun i b h => absurd h.lt (Nat.not_lt_zero i), rfl⟩
  | append_singleton pairs p ih =>
    obtain ⟨d, level⟩ := p
    rw [take_concat]
    refine ih.concat (fun i b h => h.lt) (fun i b => risesAt_concat) (fun hrise => ?_)
      fun hnone => ?_
    · rw [m.previousClock_take pairs, Option.some.injEq] at hrise
      obtain ⟨rfl, hlow⟩ := hrise
      rw [next_of_edge hlow]
    · have hhold : (m.take pairs).previousClock = true ∨ level = false := by
        rw [m.previousClock_take pairs, Option.some.injEq, not_and_or] at hnone
        exact hnone.symm.imp eq_true_of_ne_false eq_false_of_ne_true
      rw [next_of_no_edge hhold]

/-- **A latch holds the last decision.** -/
theorem LatchMemory.leaves_take (m : LatchMemory) (pairs : List (Bool × Bool)) :
    Leaves (DecidesAt pairs) (m.q, m.qBar) ((m.take pairs).q, (m.take pairs).qBar) := by
  induction pairs using List.reverseRecOn with
  | nil => exact .inr ⟨fun i b h => absurd h.lt (Nat.not_lt_zero i), rfl⟩
  | append_singleton pairs p ih =>
    obtain ⟨set, reset⟩ := p
    rw [take_concat]
    refine ih.concat (fun i b h => h.lt) (fun i b => decidesAt_concat) (fun hone => ?_)
      fun hnone => ?_
    · subst hone
      cases set <;> rfl
    · have hhold : (m.take pairs).next set reset = m.take pairs := by
        cases set <;> cases reset <;> first | rfl | exact absurd rfl hnone
      rw [hhold]

/-! ## 4. The whole history -/

namespace Element

/-- The outputs that a flip-flop or a latch holds. -/
def held : Element ε → Option (Bool × Bool)
  | .flipFlop m => some (m.q, m.qBar)
  | .latch m => some (m.q, m.qBar)
  | _ => none

/-- **The outcome of an evaluation of a flip-flop or a latch.** With two inputs it answers with the
    outputs that it holds just after, and with a note if it is a latch with both inputs high. With
    another number of inputs it fails and stays as it is. -/
theorem outcome_of_held (run : ε → Reaction) {e : Element ε} (he : e.held.isSome)
    (instant : Instant) (inputs : List Bool) :
    (inputs.length ≠ 2 →
      e.advance run instant inputs = (e, .error (.arity e.kind 2 inputs.length))) ∧
    (inputs.length = 2 → ∃ e' q qBar, e'.held = some (q, qBar) ∧
      e.advance run instant inputs = (e', .ok ⟨[q, qBar],
        if e.kind = .latch ∧ inputs = [true, true] then [LatchMemory.conflict] else []⟩)) := by
  cases e with
  | flipFlop m =>
    rcases advance_flipFlop run instant inputs m with ⟨d, level, rfl, h⟩ | ⟨hlength, h⟩
    · refine ⟨fun hne => absurd rfl hne, fun _ => ⟨.flipFlop (m.next d level), _, _, rfl, ?_⟩⟩
      simp [h, kind]
    · exact ⟨fun _ => h, fun heq => absurd heq hlength⟩
  | latch m =>
    rcases advance_latch run instant inputs m with ⟨set, reset, rfl, h⟩ | ⟨hlength, h⟩
    · refine ⟨fun hne => absurd rfl hne, fun _ => ⟨.latch (m.next set reset), _, _, rfl, ?_⟩⟩
      simp [h, kind]
    · exact ⟨fun _ => h, fun heq => absurd heq hlength⟩
  | _ => cases he

/-- A flip-flop remains a flip-flop, and a latch a latch. -/
theorem held_after (run : ε → Reaction) {e : Element ε} (he : e.held.isSome) (history : History) :
    (e.after run history).held.isSome ∧ (e.after run history).kind = e.kind := by
  cases e with
  | flipFlop m =>
    rw [after_flipFlop]
    exact ⟨rfl, rfl⟩
  | latch m =>
    rw [after_latch]
    exact ⟨rfl, rfl⟩
  | _ => cases he

/-- **Memory as a function of history**: a flip-flop holds the data of the last rise of its clock, a
    latch the last decision, and both what they held at first if there was none. On the way every
    evaluation with two inputs answers with the outputs held just after, and exactly those of a latch
    with both inputs high come with a note; every other evaluation fails and changes nothing. -/
theorem memory_of_history (run : ε → Reaction) (history : History) :
    (∀ m : FlipFlopMemory, ∃ q qBar, ((flipFlop m).after run history).held = some (q, qBar) ∧
      Leaves (RisesAt m.previousClock history.pairs) (m.q, m.qBar) (q, qBar)) ∧
    (∀ m : LatchMemory, ∃ q qBar, ((latch m).after run history).held = some (q, qBar) ∧
      Leaves (DecidesAt history.pairs) (m.q, m.qBar) (q, qBar)) ∧
    ∀ e : Element ε, e.held.isSome → ∀ earlier instant inputs later,
      history = earlier ++ (instant, inputs) :: later →
      (inputs.length ≠ 2 →
        (e.after run earlier).advance run instant inputs =
          (e.after run earlier, .error (.arity e.kind 2 inputs.length))) ∧
      (inputs.length = 2 → ∃ q qBar,
        (e.after run (earlier ++ [(instant, inputs)])).held = some (q, qBar) ∧
        ((e.after run earlier).advance run instant inputs).2 = .ok ⟨[q, qBar],
          if e.kind = .latch ∧ inputs = [true, true] then [LatchMemory.conflict] else []⟩) := by
  refine ⟨fun m => ?_, fun m => ?_, fun e he earlier instant inputs later _ => ?_⟩
  · rw [after_flipFlop]
    exact ⟨_, _, rfl, m.leaves_take history.pairs⟩
  · rw [after_latch]
    exact ⟨_, _, rfl, m.leaves_take history.pairs⟩
  · obtain ⟨hheld, hkind⟩ := held_after run he earlier
    obtain ⟨hfail, hanswer⟩ := outcome_of_held run hheld instant inputs
    rw [hkind] at hfail hanswer
    refine ⟨hfail, fun hlength => ?_⟩
    obtain ⟨e', q, qBar, hq, h⟩ := hanswer hlength
    refine ⟨q, qBar, ?_, by rw [h]⟩
    rw [after_concat, h, hq]

/-- A latch is set, fails, and holds against both inputs with a note. -/
theorem memory_of_history_of_conflict :
    let run : Unit → Reaction := fun _ _ _ => .ok ⟨[], []⟩
    let earlier : History := [(⟨0, 50⟩, [true, false]), (⟨0, 50⟩, [true])]
    let history : History := earlier ++ [(⟨0, 50⟩, [true, true])]
    let e : Element Unit := .latch ⟨false, true⟩
    e.held.isSome ∧ [true, true].length = 2 ∧ (e.after run history).held = some (true, false) ∧
      ((e.after run earlier).advance run ⟨0, 50⟩ [true, true]).2 =
        .ok ⟨[true, false], [LatchMemory.conflict]⟩ := by
  intro run earlier history e
  obtain ⟨q, qBar, hheld, hanswer⟩ :=
    ((memory_of_history run history).2.2 e rfl earlier ⟨0, 50⟩ [true, true] [] rfl).2 rfl
  have hnow : (e.after run history).held = some (true, false) := rfl
  obtain ⟨rfl, rfl⟩ := Prod.mk.inj (Option.some.inj (hheld.symm.trans hnow))
  exact ⟨rfl, rfl, hnow, hanswer⟩

end Element

end LogicSim
