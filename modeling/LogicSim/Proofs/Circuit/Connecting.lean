import LogicSim.Proofs.Circuit.Validity
import LogicSim.Proofs.Circuit.Wires

/-!
# Adding a wire

`Circuit.connect` looks for a name for the new wire: it tries the numbers from the number of wires on
until a name is not in use. Since names of different numbers differ, there are not enough wires to
use up one name more than there are wires, and the search ends (`Circuit.exists_firstFree`). The
wire comes last, so that the check finds what it found before and then what is wrong with the new
wire (`Circuit.check_addWire`).
-/

namespace LogicSim

/-- The wire to blame, if it is a single one. -/
def Problem.wire? : Problem → Option WireId
  | .invalidWire wire _ => some wire
  | .missingDependency wire _ => some wire
  | .invalidGate .. => none
  | .circularDependency .. => none
  | .evaluationError .. => none

namespace Circuit

/-! ## 1. The search for a name -/

/-- **The first name that is not in use**, from a number on. The search turns down as many names as
    `turns` says. -/
structure FirstFree (taken : List WireId) (n turns : Nat) : Prop where
  turnedDown : ∀ i < turns, wireName (n + i) ∈ taken
  free : wireName (n + turns) ∉ taken

/-- Among one name more than there are in use, one is not. -/
theorem exists_free (taken : List WireId) (n : Nat) :
    ∃ i ≤ taken.length, wireName (n + i) ∉ taken := by
  by_contra hnone
  have hused : ∀ i ≤ taken.length, wireName (n + i) ∈ taken := by
    intro i hi
    by_contra hfree
    exact hnone ⟨i, hi, hfree⟩
  -- one name more than there are in use, all of them different
  have hnodup : ((List.range (taken.length + 1)).map fun i => wireName (n + i)).Nodup :=
    List.nodup_range.map fun i j hij => Nat.add_left_cancel (wireName_inj hij)
  have hle : ((List.range (taken.length + 1)).map fun i => wireName (n + i)).length ≤
      taken.length := by
    refine (hnodup.subperm fun name hname => ?_).length_le
    obtain ⟨i, hi, rfl⟩ := List.mem_map.mp hname
    exact hused i (Nat.le_of_lt_succ (List.mem_range.mp hi))
  rw [List.length_map, List.length_range] at hle
  exact Nat.not_succ_le_self _ hle

/-- **The search ends**, and turns down as many names as there are in use at most. -/
theorem exists_firstFree (taken : List WireId) (n : Nat) :
    ∃ turns ≤ taken.length, FirstFree taken n turns := by
  have hexists : ∃ i, wireName (n + i) ∉ taken := (exists_free taken n).imp fun _ h => h.2
  obtain ⟨i, hi, hfree⟩ := exists_free taken n
  refine ⟨Nat.find hexists, Nat.le_trans (Nat.find_min' hexists hfree) hi, fun j hj => ?_,
    Nat.find_spec hexists⟩
  exact Classical.not_not.mp (Nat.find_min hexists hj)

/-- What the search finds if it may turn down enough names. -/
theorem freshWire_of_firstFree {taken : List WireId} {n turns fuel : Nat}
    (h : FirstFree taken n turns) (hfuel : turns ≤ fuel) :
    freshWire taken n fuel = wireName (n + turns) := by
  induction turns generalizing n fuel with
  | zero => exact freshWire_of_new h.free fuel
  | succ turns ih =>
    obtain ⟨fuel, rfl⟩ : ∃ k, fuel = k + 1 := ⟨fuel - 1, by omega⟩
    have hrest : FirstFree taken (n + 1) turns := by
      refine ⟨fun i hi => ?_, ?_⟩
      · have hused := h.turnedDown (i + 1) (Nat.succ_lt_succ hi)
        rwa [← Nat.add_assoc, Nat.add_right_comm] at hused
      · have hfree := h.free
        rwa [← Nat.add_assoc, Nat.add_right_comm] at hfree
    have hhead : taken.contains (wireName n) = true :=
      List.contains_iff_mem.mpr (h.turnedDown 0 (Nat.succ_pos turns))
    rw [freshWire, if_pos hhead, ih hrest (Nat.le_of_succ_le_succ hfuel), Nat.add_right_comm,
      Nat.add_assoc]

/-- **The name of a new wire** is the first one that no wire has. -/
theorem exists_newWireId {δ : Type} (c : Circuit δ) :
    ∃ turns ≤ c.wires.length, FirstFree (c.wires.map (·.id)) c.wires.length turns ∧
      c.newWireId = wireName (c.wires.length + turns) := by
  obtain ⟨turns, hle, hfirst⟩ := exists_firstFree (c.wires.map (·.id)) c.wires.length
  rw [List.length_map] at hle
  exact ⟨turns, hle, hfirst, freshWire_of_firstFree hfirst hle⟩

/-! ## 2. The check with one more wire -/

variable {c : Circuit Definition} {id : GateId} {w : Wire}

/-- **The gate that an identifier denotes** is the last one with it. -/
structure Denotes (c : Circuit Definition) (id : GateId) (g : Gate Definition) : Prop where
  last : ∃ earlier later, c.gates = earlier ++ g :: later ∧ ∀ h ∈ later, h.id ≠ id
  id_eq : g.id = id

theorem lookup_eq_some_iff {g : Gate Definition} : c.lookup id = some g ↔ c.Denotes id g := by
  rw [lookup, List.find?_eq_some_iff_append]
  constructor
  · rintro ⟨hid, later, earlier, hsplit, hlater⟩
    refine ⟨⟨earlier.reverse, later.reverse, ?_, fun h hh => ?_⟩, of_decide_eq_true hid⟩
    · rw [← List.reverse_reverse c.gates, hsplit]
      simp
    · simpa using hlater h (List.mem_reverse.mp hh)
  · rintro ⟨⟨earlier, later, hsplit, hlater⟩, hid⟩
    refine ⟨decide_eq_true hid, later.reverse, earlier.reverse, ?_, fun h hh => ?_⟩
    · rw [hsplit]
      simp
    · simpa using hlater h (List.mem_reverse.mp hh)

/-- The check of a wire looks at the gates only, and at the wires before it. -/
theorem wiresProblems_addWire (earlier wires : List Wire) :
    (c.addWire w).wiresProblems earlier wires = c.wiresProblems earlier wires := by
  induction wires generalizing earlier with
  | nil => rfl
  | cons u wires ih =>
    rw [wiresProblems, wiresProblems, ih]
    rfl

theorem wiresProblems_concat (earlier wires : List Wire) : c.wiresProblems earlier (wires ++ [w]) =
    c.wiresProblems earlier wires ++ c.wireProblems (wires.reverse ++ earlier) w := by
  induction wires generalizing earlier with
  | nil => simp [wiresProblems]
  | cons u wires ih =>
    rw [List.cons_append, wiresProblems, ih, wiresProblems, List.append_assoc, List.reverse_cons,
      List.append_assoc]
    rfl

/-- **With one more wire the check finds what it found before**, and then what is wrong with this
    wire. -/
theorem check_addWire (c : Circuit Definition) (w : Wire) :
    (c.addWire w).check = c.check ++ c.wireProblems c.wires.reverse w := by
  have hwires : (c.addWire w).wiresProblems [] (c.wires ++ [w]) =
      c.wiresProblems [] c.wires ++ c.wireProblems c.wires.reverse w := by
    rw [wiresProblems_addWire, wiresProblems_concat, List.append_nil]
  calc (c.addWire w).check
      = gateProblems [] c.gates ++ (c.addWire w).wiresProblems [] (c.wires ++ [w]) := rfl
    _ = c.check ++ c.wireProblems c.wires.reverse w := by
        rw [hwires, check, List.append_assoc]

/-- **The problems of a wire blame it.** -/
theorem wire?_of_mem_wireProblems {earlier : List Wire} {p : Problem}
    (hp : p ∈ c.wireProblems earlier w) : p.wire? = some w.id := by
  have hdangling : ∀ e, p ∈ c.danglingProblems w e → p.wire? = some w.id := by
    intro e he
    rw [danglingProblems] at he
    split at he
    · cases he
    · rw [List.mem_singleton.mp he]
      rfl
  simp only [wireProblems, List.mem_append, or_assoc] at hp
  rcases hp with hid | hsource | hsink | houtput | hinput
  · split at hid
    · rw [List.mem_singleton.mp hid]
      rfl
    · cases hid
  · exact hdangling _ hsource
  · exact hdangling _ hsink
  · unfold sourceProblems at houtput
    grind [Problem.wire?]
  · unfold sinkProblems at hinput
    grind [Problem.wire?]

/-! ## 3. A new wire -/

/-- **A wire is welcome**: both of its pins exist, and no wire ends at the input pin. -/
structure Welcomes (c : Circuit Definition) (source : GateId) (sourcePin : Nat) (sink : GateId)
    (sinkPin : Nat) : Prop where
  output : ∃ g, c.Denotes source g ∧ sourcePin < g.outputCount
  input : ∃ g, c.Denotes sink g ∧ sinkPin < g.inputCount
  free : ∀ u ∈ c.wires, ¬ (u.sink.gate = sink ∧ u.sink.inputPin? = some sinkPin)

/-- A wire with a name of its own has no problems exactly where it is welcome. -/
theorem wireProblems_eq_nil_iff_welcomes (hnew : ∀ u ∈ c.wires, u.id ≠ w.id) {sinkPin : Nat}
    (hsink : w.sink.inputPin? = some sinkPin) : c.wireProblems c.wires.reverse w = [] ↔
      c.Welcomes w.source.gate w.source.outputPin w.sink.gate sinkPin := by
  rw [wireProblems_eq_nil]
  simp only [List.mem_reverse, hsink]
  constructor
  · rintro ⟨⟨⟨g, hg, hlt⟩, h, hh, pin, hpin, hlt'⟩, -, hfree⟩
    obtain rfl : sinkPin = pin := Option.some.inj (hsink.symm.trans hpin)
    exact ⟨⟨g, lookup_eq_some_iff.mp hg, hlt⟩, ⟨h, lookup_eq_some_iff.mp hh, hlt'⟩, hfree⟩
  · rintro ⟨⟨g, hg, hlt⟩, ⟨h, hh, hlt'⟩, hfree⟩
    exact ⟨⟨⟨g, lookup_eq_some_iff.mpr hg, hlt⟩,
      ⟨h, lookup_eq_some_iff.mpr hh, sinkPin, hsink, hlt'⟩⟩, hnew, hfree⟩

/-- **Connecting is safe.** The search for a name ends, after as many turns as there are wires at
    most, with a name that no wire has. One wire is added, and nothing else changes; its ends denote
    the pins asked for. The check finds what it found before, and then problems of the new wire;
    there are none exactly where the wire is welcome. -/
theorem connect_safe (c : Circuit Definition) (source sink : GateId) {sourcePin sinkPin : Nat}
    (hsource : sourcePin < 2 ^ 31) (hsink : sinkPin < 2 ^ 31) :
    ∃ (w : Wire) (turns : Nat) (problems : List Problem),
      c.connect source sourcePin sink sinkPin = ⟨c.gates, c.wires ++ [w]⟩ ∧
      turns ≤ c.wires.length ∧ FirstFree (c.wires.map (·.id)) c.wires.length turns ∧
      w.id = wireName (c.wires.length + turns) ∧ (∀ u ∈ c.wires, u.id ≠ w.id) ∧
      w.source.gate = source ∧ w.source.outputPin = sourcePin ∧
      w.sink.gate = sink ∧ w.sink.inputPin? = some sinkPin ∧
      (c.connect source sourcePin sink sinkPin).check = c.check ++ problems ∧
      (∀ p ∈ problems, p.wire? = some w.id) ∧
      (problems = [] ↔ c.Welcomes source sourcePin sink sinkPin) := by
  obtain ⟨turns, hle, hfirst, hname⟩ := c.exists_newWireId
  have hmax : Int32.maxValue.toInt = 2 ^ 31 - 1 := Int32.toInt_maxValue
  have houtput : (Endpoint.output source sourcePin).outputPin = sourcePin :=
    Endpoint.outputPin_output source (by omega)
  have hinput : (Endpoint.input sink sinkPin).inputPin? = some sinkPin :=
    Endpoint.inputPin?_input sink (by omega)
  have hnew : ∀ u ∈ c.wires, u.id ≠ c.newWireId := by
    intro u hu heq
    exact hfirst.free (hname ▸ heq ▸ List.mem_map_of_mem hu)
  let w : Wire := ⟨c.newWireId, .output source sourcePin, .input sink sinkPin, false⟩
  have hwelcome := wireProblems_eq_nil_iff_welcomes (w := w) hnew hinput
  rw [show w.source.outputPin = sourcePin from houtput] at hwelcome
  exact ⟨w, turns, c.wireProblems c.wires.reverse w, rfl, hle, hfirst, hname, hnew, rfl, houtput,
    rfl, hinput, c.check_addWire w, fun _ => wire?_of_mem_wireProblems, hwelcome⟩

/-- One pin of a gate is wired up already, by a wire that has the name tried first. -/
def halfWired : Circuit Definition :=
  { gates := [.input "A" true, .new "G" .and]
    wires := [⟨"w1", .output "A" 0, .input "G" 0, false⟩] }

/-- The name is turned down, and the wire to the other pin is welcome. -/
theorem connect_halfWired :
    0 < 2 ^ 31 ∧ 1 < 2 ^ 31 ∧ ∃ w : Wire,
      halfWired.connect "A" 0 "G" 1 = ⟨halfWired.gates, halfWired.wires ++ [w]⟩ ∧ w.id = "w2" ∧
      w.source.outputPin = 0 ∧ w.sink.inputPin? = some 1 ∧
      (halfWired.connect "A" 0 "G" 1).check = halfWired.check := by
  obtain ⟨w, turns, problems, hconnect, -, -, -, -, -, houtput, -, hinput, hcheck, -, hwelcome⟩ :=
    connect_safe halfWired "A" "G" (show 0 < 2 ^ 31 by decide) (show 1 < 2 ^ 31 by decide)
  have hid : (halfWired.connect "A" 0 "G" 1).wires.map (·.id) = ["w1", "w2"] := by decide
  rw [hconnect] at hid
  have hfree : halfWired.Welcomes "A" 0 "G" 1 :=
    ⟨⟨.input "A" true, lookup_eq_some_iff.mp rfl, by decide⟩,
      ⟨.new "G" .and, lookup_eq_some_iff.mp rfl, by decide⟩, by decide⟩
  refine ⟨by decide, by decide, w, hconnect, by simpa [halfWired] using hid, houtput, hinput, ?_⟩
  rw [hcheck, hwelcome.mpr hfree, List.append_nil]

end Circuit

end LogicSim
