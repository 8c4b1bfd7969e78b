import LogicSim.Proofs.Netlist.Mapping
import LogicSim.Proofs.Netlist.Settling
import LogicSim.Proofs.Netlist.Signals

/-!
# Where notes come from

A note of a custom gate has gone through a warning at every level: a latch inside raises it, the pass
inside makes it a warning that names the latch, and the gate around makes this warning a note of its
own. What is written here follows a note all the way back.

* `Netlist.mem_warnings_immediate`, `Settling.mem_warnings_run` -- the warnings of passes are those of
  the nodes whose turn came, on what they saw then (`SubCircuit.Turn`);
* `Raises` -- the ways in which an evaluation raises a note, at any depth;
* `Element.mem_notes_iff` -- an evaluation gives exactly the notes that are raised in it.
-/

namespace LogicSim

variable {ε ε' : Type} {run : ε → Reaction} {instant : Instant}

/-! ## 1. Nodes -/

/-- **What can be said about a node**: that it failed, or what its evaluation noted. -/
theorem Node.mem_warnings_react {n : Node ε} {seen : List Bool} {w : Warning} :
    w ∈ (n.react run instant seen).2 ↔ n.forced = none ∧
      ((∃ fault, n.element.evaluate run instant seen = .error fault ∧
          w = .ofProblem (.evaluationError n.id fault.text)) ∨
        ∃ result, n.element.evaluate run instant seen = .ok result ∧
          ∃ note ∈ result.2.notes, w = .ofGate n.id note) := by
  rw [react]
  cases n.forced with
  | some value => simp
  | none =>
    cases n.element.evaluate run instant seen with
    | error fault => simp
    | ok result => simp [eq_comm]

/-! ## 2. The turns of a pass -/

namespace Netlist

/-- In a delayed pass it is the turn of a node, which sees these signals. -/
def DelayedTurn (net : Netlist ε) (n : Node ε) (seen : List Bool) : Prop :=
  ∃ i : Nat, net.nodes[i]? = some n ∧ seen = net.gather i net.outputAt

/-- In an immediate pass it is the turn of a node, which sees these signals. The nodes before it in
    the order have been visited. -/
def ImmediateTurn (run : ε → Reaction) (schedule : Schedule) (instant : Instant) (net : Netlist ε)
    (n : Node ε) (seen : List Bool) : Prop :=
  ∃ l i r, schedule.order = l ++ i :: r ∧ ∃ now,
    now = (l.foldl (visit run schedule instant net) { netlist := net }).netlist ∧
      now.nodes[i]? = some n ∧ seen = now.gather i (readScheduled schedule net now i)

/-- What is said at a turn is said about the node whose turn it is. -/
theorem mem_warningsAt {net : Netlist ε} {i : Nat} {read : Nat → Nat → Bool} {w : Warning} :
    w ∈ net.warningsAt run instant i read ↔
      ∃ n, net.nodes[i]? = some n ∧ w ∈ (n.react run instant (net.gather i read)).2 := by
  rw [warningsAt]
  cases net.nodes[i]? <;> simp

/-- A delayed pass warns of the nodes one after the other. -/
theorem warnings_delayed_eq (net : Netlist ε) :
    (net.delayed run instant).warnings = (List.range net.nodes.length).flatMap fun i =>
      net.warningsAt run instant i net.outputAt := by
  rw [delayed, List.flatMap_def, List.flatMap_def]
  refine congrArg List.flatten (List.ext_getElem? fun i => ?_)
  rw [List.getElem?_map, List.getElem?_mapIdx, List.getElem?_map]
  cases hn : net.nodes[i]? with
  | none =>
    rw [List.getElem?_eq_none_iff] at hn
    rw [List.getElem?_eq_none (by rwa [List.length_range]), Option.map_none, Option.map_none,
      Option.map_none]
  | some n =>
    obtain ⟨hi, -⟩ := List.getElem?_eq_some_iff.mp hn
    rw [List.getElem?_range hi, Option.map_some, Option.map_some, Option.map_some, warningsAt, hn,
      Option.map_some, Option.getD_some]

/-- **The warnings of a delayed pass.** -/
theorem mem_warnings_delayed {net : Netlist ε} {w : Warning} :
    w ∈ (net.delayed run instant).warnings ↔
      ∃ n seen, net.DelayedTurn n seen ∧ w ∈ (n.react run instant seen).2 := by
  rw [warnings_delayed_eq, List.mem_flatMap]
  constructor
  · rintro ⟨i, -, hw⟩
    obtain ⟨n, hn, hw⟩ := mem_warningsAt.mp hw
    exact ⟨n, _, ⟨i, hn, rfl⟩, hw⟩
  · rintro ⟨n, seen, ⟨i, hn, rfl⟩, hw⟩
    obtain ⟨hi, -⟩ := List.getElem?_eq_some_iff.mp hn
    exact ⟨i, List.mem_range.mpr hi, mem_warningsAt.mpr ⟨n, hn, hw⟩⟩

/-- **The warnings of an immediate pass.** -/
theorem mem_warnings_immediate {schedule : Schedule} {net : Netlist ε} {w : Warning} :
    w ∈ (net.immediate run schedule instant).warnings ↔
      ∃ n seen, net.ImmediateTurn run schedule instant n seen ∧
        w ∈ (n.react run instant seen).2 := by
  -- by induction over what has been visited of the order
  suffices hprefix : ∀ done, w ∈ (done.foldl (visit run schedule instant net)
      { netlist := net }).warnings ↔ ∃ l i r, done = l ++ i :: r ∧ ∃ now,
        now = (l.foldl (visit run schedule instant net) { netlist := net }).netlist ∧
          w ∈ now.warningsAt run instant i (readScheduled schedule net now i) by
    rw [immediate, hprefix]
    constructor
    · rintro ⟨l, i, r, horder, now, hnow, hw⟩
      obtain ⟨n, hn, hw⟩ := mem_warningsAt.mp hw
      exact ⟨n, _, ⟨l, i, r, horder, now, hnow, hn, rfl⟩, hw⟩
    · rintro ⟨n, seen, ⟨l, i, r, horder, now, hnow, hn, rfl⟩, hw⟩
      exact ⟨l, i, r, horder, now, hnow, mem_warningsAt.mpr ⟨n, hn, hw⟩⟩
  intro done
  induction done using List.reverseRecOn with
  | nil => simp
  | append_singleton done v ih =>
    rw [List.foldl_append, List.foldl_cons, List.foldl_nil, warnings_visit, List.mem_append, ih]
    constructor
    · rintro (⟨l, i, r, rfl, hturn⟩ | hturn)
      · exact ⟨l, i, r ++ [v], by rw [List.append_assoc, List.cons_append], hturn⟩
      · exact ⟨done, v, [], rfl, _, rfl, hturn⟩
    · rintro ⟨l, i, r, hsplit, hturn⟩
      rcases List.eq_nil_or_concat r with rfl | ⟨r, u, rfl⟩
      · obtain ⟨rfl, hv⟩ := List.append_inj' hsplit rfl
        obtain rfl : v = i := List.singleton_inj.mp hv
        obtain ⟨now, rfl, hturn⟩ := hturn
        exact .inr hturn
      · rw [List.concat_eq_append, ← List.cons_append, ← List.append_assoc] at hsplit
        exact .inl ⟨l, i, r, (List.append_inj' hsplit rfl).1, hturn⟩

end Netlist

/-- **The warnings of a run of delayed passes** are those of all its passes, the quiet one at the end
    included. -/
theorem Settling.mem_warnings_run {limit : Nat} {s : Settling ε} {w : Warning} :
    w ∈ (Settling.run run instant limit s).warnings ↔ w ∈ s.warnings ∨
      ∃ k < limit, (∀ j < k, ¬ s.netlist.QuietAfter run instant j) ∧
        w ∈ ((s.netlist.after run instant k).delayed run instant).warnings := by
  induction limit generalizing s with
  | zero => simp [Settling.run]
  | succ limit ih =>
    have hpass : w ∈ (s.pass run instant).warnings ↔
        w ∈ s.warnings ∨ w ∈ (s.netlist.delayed run instant).warnings := List.mem_append
    rw [Settling.run]
    by_cases hquiet : s.netlist.QuietAfter run instant 0
    · rw [if_pos (settled_pass_iff.mpr hquiet), hpass]
      refine or_congr_right ⟨fun hw => ⟨0, Nat.succ_pos limit, by simp, hw⟩, ?_⟩
      rintro ⟨k, -, hearlier, hw⟩
      cases k with
      | zero => exact hw
      | succ k => exact absurd hquiet (hearlier 0 (Nat.succ_pos k))
    · rw [if_neg fun h => hquiet (settled_pass_iff.mp h), ih, hpass, or_assoc]
      refine or_congr_right ⟨?_, ?_⟩
      · rintro (hw | ⟨k, hk, hearlier, hw⟩)
        · exact ⟨0, Nat.succ_pos limit, by simp, hw⟩
        · refine ⟨k + 1, Nat.succ_lt_succ hk, fun j hj => ?_, Netlist.after_delayed s.netlist k ▸ hw⟩
          cases j with
          | zero => exact hquiet
          | succ j =>
            exact fun h => hearlier j (Nat.lt_of_succ_lt_succ hj) (Netlist.quietAfter_succ.mpr h)
      · rintro ⟨k, hk, hearlier, hw⟩
        cases k with
        | zero => exact .inl hw
        | succ k =>
          refine .inr ⟨k, Nat.lt_of_succ_lt_succ hk, fun j hj h => ?_,
            (Netlist.after_delayed s.netlist k).symm ▸ hw⟩
          exact hearlier (j + 1) (Nat.succ_lt_succ hj) (Netlist.quietAfter_succ.mp h)

/-! ## 3. Inside a custom gate -/

/-- In an evaluation of a custom gate it is the turn of a node inside: in the only pass, or in one of
    the passes until the circuit is quiet. -/
inductive SubCircuit.Turn (sub : SubCircuit ε) (run : ε → Reaction) (instant : Instant)
    (inputs : List Bool) (n : Node ε) (seen : List Bool) : Prop where
  | ordered {schedule : Schedule} (hs : sub.schedule = some schedule)
      (hturn : (sub.load inputs).ImmediateTurn run schedule instant n seen)
  | repeated {k : Nat} (hs : sub.schedule = none) (hlimit : k < instant.settleLimit)
      (hearlier : ∀ j < k, ¬ (sub.load inputs).QuietAfter run instant j)
      (hturn : ((sub.load inputs).after run instant k).DelayedTurn n seen)

namespace SubCircuit

/-- **The warnings inside a custom gate.** -/
theorem mem_warnings_simulate {sub : SubCircuit ε} {inputs : List Bool} {net : Netlist ε}
    {warnings : List Warning} (h : sub.simulate run instant inputs = .ok (net, warnings))
    {w : Warning} : w ∈ warnings ↔
      ∃ n seen, sub.Turn run instant inputs n seen ∧ w ∈ (n.react run instant seen).2 := by
  rw [simulate] at h
  cases hs : sub.schedule with
  | some schedule =>
    rw [hs] at h
    obtain ⟨-, rfl⟩ := Prod.mk.inj (Except.ok.inj h)
    rw [Netlist.mem_warnings_immediate]
    refine exists_congr fun n => exists_congr fun seen => and_congr_left fun _ =>
      ⟨.ordered hs, fun hturn => ?_⟩
    cases hturn with
    | ordered hs' hturn =>
      obtain rfl := Option.some.inj (hs.symm.trans hs')
      exact hturn
    | repeated hs' => cases hs.symm.trans hs'
  | none =>
    rw [hs] at h
    dsimp only at h
    split at h
    · obtain ⟨-, rfl⟩ := Prod.mk.inj (Except.ok.inj h)
      rw [Netlist.settle, Settling.mem_warnings_run]
      constructor
      · rintro (hw | ⟨k, hk, hearlier, hw⟩)
        · exact absurd hw List.not_mem_nil
        · obtain ⟨n, seen, hturn, hw⟩ := Netlist.mem_warnings_delayed.mp hw
          exact ⟨n, seen, .repeated hs hk hearlier hturn, hw⟩
      · rintro ⟨n, seen, hturn, hw⟩
        cases hturn with
        | ordered hs' => cases hs.symm.trans hs'
        | repeated _ hk hearlier hturn =>
          exact .inr ⟨_, hk, hearlier, Netlist.mem_warnings_delayed.mpr ⟨n, seen, hturn, hw⟩⟩
    · cases h

/-- **The notes of a custom gate given by a circuit** are the warnings inside. -/
theorem mem_notes_evaluate {sub : SubCircuit ε} {inputs : List Bool} {answer : Answer}
    (h : sub.evaluate run instant inputs = .ok answer) {note : String} :
    note ∈ answer.notes ↔ ∃ n seen w, sub.Turn run instant inputs n seen ∧
      w ∈ (n.react run instant seen).2 ∧ note = s!"in {sub.name}, {w.text}" := by
  rw [evaluate, checkArity] at h
  split at h
  · cases hsim : sub.simulate run instant inputs with
    | error fault => rw [hsim] at h; cases h
    | ok result =>
      rw [hsim] at h
      obtain rfl := Except.ok.inj h
      rw [List.mem_map]
      constructor
      · rintro ⟨w, hw, rfl⟩
        obtain ⟨n, seen, hturn, hw⟩ := (mem_warnings_simulate hsim).mp hw
        exact ⟨n, seen, w, hturn, hw, rfl⟩
      · rintro ⟨n, seen, w, hturn, hw, rfl⟩
        exact ⟨w, (mem_warnings_simulate hsim).mpr ⟨n, seen, hturn, hw⟩, rfl⟩
  · cases h

end SubCircuit

/-! ## 4. Turns after a replacement -/

section Replacement

variable (f : ε → ε') {run : ε' → Reaction}

theorem Netlist.delayedTurn_map {net : Netlist ε} {n' : Node ε'} {seen : List Bool} :
    (net.map f).DelayedTurn n' seen ↔ ∃ n, net.DelayedTurn n seen ∧ n.map f = n' := by
  constructor
  · rintro ⟨i, hn, rfl⟩
    rw [getElem?_map, Option.map_eq_some_iff] at hn
    obtain ⟨n, hn, rfl⟩ := hn
    exact ⟨n, ⟨i, hn, by rw [gather_map, outputAt_map]⟩, rfl⟩
  · rintro ⟨n, ⟨i, hn, rfl⟩, rfl⟩
    exact ⟨i, by rw [getElem?_map, hn, Option.map_some], by rw [gather_map, outputAt_map]⟩

theorem Netlist.immediateTurn_map {schedule : Schedule} {net : Netlist ε} {n' : Node ε'}
    {seen : List Bool} : (net.map f).ImmediateTurn run schedule instant n' seen ↔
      ∃ n, net.ImmediateTurn (fun x => run (f x)) schedule instant n seen ∧ n.map f = n' := by
  have hfold : ∀ l : List Nat,
      (l.foldl (visit run schedule instant (net.map f)) { netlist := net.map f }).netlist =
        (l.foldl (visit (fun x => run (f x)) schedule instant net) { netlist := net }).netlist.map f :=
    fun l => congrArg Sweep.netlist (immediate_map f run instant ⟨schedule.dependencies, l⟩ net)
  constructor
  · rintro ⟨l, i, r, horder, now, rfl, hn, rfl⟩
    rw [hfold, getElem?_map, Option.map_eq_some_iff] at hn
    obtain ⟨n, hn, rfl⟩ := hn
    exact ⟨n, ⟨l, i, r, horder, _, rfl, hn, by rw [hfold, gather_map, readScheduled_map]⟩, rfl⟩
  · rintro ⟨n, ⟨l, i, r, horder, now, rfl, hn, rfl⟩, rfl⟩
    refine ⟨l, i, r, horder, _, rfl, ?_, ?_⟩
    · rw [hfold, getElem?_map, hn, Option.map_some]
    · rw [hfold, gather_map, readScheduled_map]

theorem Netlist.after_map (net : Netlist ε) (passes : Nat) :
    (net.map f).after run instant passes = (net.after (fun x => run (f x)) instant passes).map f := by
  induction passes with
  | zero => rfl
  | succ passes ih =>
    rw [after_succ, after_succ, ih, delayed_map]
    rfl

theorem Netlist.quietAfter_map {net : Netlist ε} {passes : Nat} :
    (net.map f).QuietAfter run instant passes ↔
      net.QuietAfter (fun x => run (f x)) instant passes := by
  rw [QuietAfter, QuietAfter, after_map, delayed_map]
  rfl

/-- **Turns after a replacement** are the turns before it. -/
theorem SubCircuit.turn_map {sub : SubCircuit ε} {inputs : List Bool} {n' : Node ε'}
    {seen : List Bool} : (sub.map f).Turn run instant inputs n' seen ↔
      ∃ n, sub.Turn (fun x => run (f x)) instant inputs n seen ∧ n.map f = n' := by
  constructor
  · intro h
    cases h with
    | ordered hs hturn =>
      rw [load_map] at hturn
      obtain ⟨n, hbefore, rfl⟩ := (Netlist.immediateTurn_map f).mp hturn
      exact ⟨n, .ordered hs hbefore, rfl⟩
    | repeated hs hlimit hearlier hturn =>
      rw [load_map] at hearlier hturn
      rw [Netlist.after_map] at hturn
      obtain ⟨n, hbefore, rfl⟩ := (Netlist.delayedTurn_map f).mp hturn
      exact ⟨n, .repeated hs hlimit
        (fun j hj h => hearlier j hj ((Netlist.quietAfter_map f).mpr h)) hbefore, rfl⟩
  · rintro ⟨n, h, rfl⟩
    cases h with
    | ordered hs hturn =>
      refine .ordered hs ?_
      rw [load_map]
      exact (Netlist.immediateTurn_map f).mpr ⟨n, hturn, rfl⟩
    | repeated hs hlimit hearlier hturn =>
      refine .repeated hs hlimit (fun j hj h => hearlier j hj ?_) ?_
      · rw [load_map] at h
        exact (Netlist.quietAfter_map f).mp h
      · rw [load_map, Netlist.after_map]
        exact (Netlist.delayedTurn_map f).mpr ⟨n, hturn, rfl⟩

end Replacement

/-! ## 5. Notes -/

/-- **A note is raised** in the evaluation of an element on its inputs: by the element itself, or in
    the evaluation of a gate inside it. Each level puts its name before the note. -/
inductive Raises (instant : Instant) : Element Expansion → List Bool → String → Prop where
  /-- the inputs of a latch are both high -/
  | conflict (m : LatchMemory) : Raises instant (.latch m) [true, true] LatchMemory.conflict
  /-- a row has been left out of a truth table -/
  | skipped {t : TruthTable} {inputs : List Bool} {reason : String} (h : reason ∈ t.skipped) :
      Raises instant (.custom (.table t)) inputs s!"in {t.name}, {reason}"
  /-- a gate inside has failed -/
  | failed {sub : SubCircuit Expansion} {inputs seen : List Bool} {n : Node Expansion} {fault : Fault}
      (hturn : sub.Turn Expansion.react instant inputs n seen) (hfree : n.forced = none)
      (h : n.element.evaluate Expansion.react instant seen = .error fault) :
      Raises instant (.custom (.circuit sub)) inputs
        s!"in {sub.name}, {(Warning.ofProblem (.evaluationError n.id fault.text)).text}"
  /-- a note was raised in the evaluation of a gate inside, which came to its end -/
  | inside {sub : SubCircuit Expansion} {inputs seen : List Bool} {n : Node Expansion} {note : String}
      {result : Element Expansion × Answer}
      (hturn : sub.Turn Expansion.react instant inputs n seen) (hfree : n.forced = none)
      (h : n.element.evaluate Expansion.react instant seen = .ok result)
      (hnote : Raises instant n.element seen note) :
      Raises instant (.custom (.circuit sub)) inputs
        s!"in {sub.name}, {(Warning.ofGate n.id note).text}"

/-- Only latches and custom gates have notes. -/
theorem Element.notes_eq_nil {run : ε → Reaction} {e e' : Element ε} {inputs : List Bool}
    {answer : Answer} (h : e.evaluate run instant inputs = .ok (e', answer))
    (hlatch : ∀ m, e ≠ .latch m) (hcustom : ∀ x, e ≠ .custom x) : answer.notes = [] := by
  cases e with
  | input value =>
    obtain ⟨-, rfl⟩ := Prod.mk.inj (Except.ok.inj h)
    rfl
  | output | not | mux | flipFlop m =>
    simp only [evaluate] at h
    split at h
    · obtain ⟨-, rfl⟩ := Prod.mk.inj (Except.ok.inj h)
      rfl
    · cases h
  | reduce r =>
    rw [evaluate] at h
    cases hr : r.apply inputs with
    | error fault => rw [hr] at h; cases h
    | ok value =>
      rw [hr] at h
      obtain ⟨-, rfl⟩ := Prod.mk.inj (Except.ok.inj h)
      rfl
  | clock m =>
    rw [evaluate] at h
    cases ht : m.tick instant.now with
    | error fault => rw [ht] at h; cases h
    | ok result =>
      rw [ht] at h
      obtain ⟨-, rfl⟩ := Prod.mk.inj (Except.ok.inj h)
      rfl
  | latch m => exact absurd rfl (hlatch m)
  | custom x => exact absurd rfl (hcustom x)
  | invalid kind reason => cases h

/-- A latch has a note if its inputs are both high. -/
theorem Element.mem_notes_latch {run : ε → Reaction} {m : LatchMemory} {e' : Element ε}
    {inputs : List Bool} {answer : Answer}
    (h : (Element.latch m).evaluate run instant inputs = .ok (e', answer)) {note : String} :
    note ∈ answer.notes ↔ inputs = [true, true] ∧ note = LatchMemory.conflict := by
  simp only [evaluate] at h
  split at h
  next set reset =>
    obtain ⟨-, rfl⟩ := Prod.mk.inj (Except.ok.inj h)
    cases set <;> cases reset <;> simp
  next => cases h

/-- The notes of an expansion that answers are those raised in it. -/
def Expansion.Notes (instant : Instant) (x : Expansion) : Prop :=
  ∀ inputs answer, x.react instant inputs = .ok answer →
    ∀ note, note ∈ answer.notes ↔ Raises instant (.custom x) inputs note

/-- The notes of an element, if it is so for what is inside. -/
theorem Element.mem_notes_iff_of {e : Element Expansion}
    (hinside : ∀ x, e = .custom x → x.Notes instant) {inputs : List Bool}
    {result : Element Expansion × Answer}
    (h : e.evaluate Expansion.react instant inputs = .ok result) {note : String} :
    note ∈ result.2.notes ↔ Raises instant e inputs note := by
  obtain ⟨e', answer⟩ := result
  dsimp only
  cases e with
  | custom x =>
    rw [evaluate] at h
    cases hreact : x.react instant inputs with
    | error fault => rw [hreact] at h; cases h
    | ok answer' =>
      rw [hreact] at h
      obtain ⟨-, rfl⟩ := Prod.mk.inj (Except.ok.inj h)
      exact hinside x rfl inputs answer' hreact note
  | latch m =>
    rw [mem_notes_latch h]
    constructor
    · rintro ⟨rfl, rfl⟩
      exact .conflict m
    · intro hraised
      cases hraised
      exact ⟨rfl, rfl⟩
  | _ =>
    rw [notes_eq_nil h (by simp) (by simp)]
    refine iff_of_false List.not_mem_nil fun hraised => ?_
    cases hraised

/-- **The notes of a custom gate**, at all levels. -/
theorem Expansion.notes (instant : Instant) (x : Expansion) : x.Notes instant := by
  induction x using Expansion.induction with
  | table t =>
    intro inputs answer h note
    rw [react, fold_table, TruthTable.evaluate, checkArity] at h
    split at h
    · obtain rfl := Except.ok.inj h
      rw [List.mem_map]
      constructor
      · rintro ⟨reason, hreason, rfl⟩
        exact .skipped hreason
      · intro hraised
        cases hraised with
        | skipped hreason => exact ⟨_, hreason, rfl⟩
    · cases h
  | circuit sub =>
    intro inputs answer h note
    rw [react_circuit] at h
    rw [SubCircuit.mem_notes_evaluate h]
    -- whatever node's turn it is inside, its custom gate is one for which the fact is known
    have hnode : ∀ {n : Node Expansion} {seen : List Bool},
        (sub.map Subtype.val).Turn react instant inputs n seen →
          ∀ x, n.element = .custom x → x.Notes instant := by
      intro n seen hturn x hx
      obtain ⟨n, -, rfl⟩ := (SubCircuit.turn_map Subtype.val).mp hturn
      obtain ⟨id, element, stored, outputs, forced⟩ := n
      cases element with
      | custom y => exact Element.custom.inj hx ▸ y.property
      | _ => cases hx
    constructor
    · rintro ⟨n, seen, w, hturn, hw, rfl⟩
      obtain ⟨hfree, ⟨fault, he, rfl⟩ | ⟨result, he, text, htext, rfl⟩⟩ := Node.mem_warnings_react.mp hw
      · exact .failed hturn hfree he
      · exact .inside hturn hfree he ((Element.mem_notes_iff_of (hnode hturn) he).mp htext)
    · intro hraised
      cases hraised with
      | failed hturn hfree he =>
        exact ⟨_, _, _, hturn, Node.mem_warnings_react.mpr ⟨hfree, .inl ⟨_, he, rfl⟩⟩, rfl⟩
      | inside hturn hfree he hnote =>
        exact ⟨_, _, _, hturn, Node.mem_warnings_react.mpr ⟨hfree, .inr ⟨_, he, _,
          (Element.mem_notes_iff_of (hnode hturn) he).mpr hnote, rfl⟩⟩, rfl⟩

/-- **The notes of an evaluation are those raised in it.** -/
theorem Element.mem_notes_iff {e : Element Expansion} {inputs : List Bool}
    {result : Element Expansion × Answer}
    (h : e.evaluate Expansion.react instant inputs = .ok result) {note : String} :
    note ∈ result.2.notes ↔ Raises instant e inputs note :=
  mem_notes_iff_of (fun x _ => x.notes instant) h

end LogicSim
