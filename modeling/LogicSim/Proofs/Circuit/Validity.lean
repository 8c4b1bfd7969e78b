import LogicSim.Circuit.Check
import Mathlib.Data.List.Nodup
import Mathlib.Data.List.Pairwise

/-!
# What it means to pass the check

`Circuit.check` goes once through a circuit and collects problems. `Circuit.Valid` says what a
circuit without problems is, gate by gate and wire by wire, and `Circuit.check_eq_nil_iff` that the
check finds nothing exactly then.
-/

namespace LogicSim.Circuit

/-- **A valid circuit.** -/
structure Valid (c : Circuit Definition) : Prop where
  gateIds : (c.gates.map (·.id)).Nodup
  wireIds : (c.wires.map (·.id)).Nodup
  source : ∀ w ∈ c.wires, ∃ g ∈ c.gates, g.id = w.source.gate ∧ w.source.outputPin < g.outputCount
  sink : ∀ w ∈ c.wires, ∃ g ∈ c.gates, g.id = w.sink.gate ∧
    ∃ pin, w.sink.inputPin? = some pin ∧ pin < g.inputCount
  /-- no two wires end at one pin -/
  single : c.wires.Pairwise fun u w =>
    ¬ (u.sink.gate = w.sink.gate ∧ u.sink.inputPin? = w.sink.inputPin?)

/-! ## 1. Gates -/

theorem gateProblems_eq_nil {earlier : List GateId} {gates : List (Gate Definition)} :
    gateProblems earlier gates = [] ↔
      (gates.map (·.id)).Nodup ∧ ∀ g ∈ gates, g.id ∉ earlier := by
  induction gates generalizing earlier with
  | nil => simp [gateProblems]
  | cons g gates ih =>
    rw [gateProblems, List.append_eq_nil_iff, ih]
    have hhead : (if earlier.contains g.id then [Problem.invalidGate g.id "duplicate gate id"] else [])
        = [] ↔ g.id ∉ earlier := by
      by_cases h : g.id ∈ earlier <;> simp [h]
    rw [hhead]
    simp only [List.map_cons, List.nodup_cons, List.mem_map, List.mem_cons, not_or]
    constructor
    · intro hgates
      obtain ⟨hg, hnodup, hrest⟩ := hgates
      refine ⟨⟨?_, hnodup⟩, ?_⟩
      · intro hmem
        obtain ⟨h, hh, e⟩ := hmem
        exact (hrest h hh).1 e
      · rintro h (rfl | hh)
        · exact hg
        · exact (hrest h hh).2
    · intro hall
      obtain ⟨⟨hg, hnodup⟩, hall⟩ := hall
      refine ⟨hall g (Or.inl rfl), hnodup, fun h hh => ⟨fun e => hg ⟨h, hh, e⟩, ?_⟩⟩
      exact hall h (Or.inr hh)

/-- What an identifier denotes is a gate with it. -/
theorem mem_of_lookup {c : Circuit Definition} {id : GateId} {g : Gate Definition}
    (h : c.lookup id = some g) : g ∈ c.gates ∧ g.id = id := by
  unfold lookup at h
  exact ⟨List.mem_reverse.mp (List.mem_of_find?_eq_some h), by simpa using List.find?_some h⟩

/-- Where identifiers are not repeated, each denotes the gate with it. -/
theorem lookup_of_mem {c : Circuit Definition} (hnodup : (c.gates.map (·.id)).Nodup)
    {g : Gate Definition} (hg : g ∈ c.gates) : c.lookup g.id = some g := by
  cases h : c.lookup g.id with
  | none =>
    rw [lookup, List.find?_eq_none] at h
    exact absurd (by simp) (h g (List.mem_reverse.mpr hg))
  | some g' =>
    obtain ⟨hg', hid⟩ := mem_of_lookup h
    rw [List.inj_on_of_nodup_map hnodup hg' hg hid]

/-! ## 2. Wires -/

/-- The ends of a wire at what their identifiers denote. -/
structure EndsExist (c : Circuit Definition) (w : Wire) : Prop where
  source : ∃ g, c.lookup w.source.gate = some g ∧ w.source.outputPin < g.outputCount
  sink : ∃ g, c.lookup w.sink.gate = some g ∧
    ∃ pin, w.sink.inputPin? = some pin ∧ pin < g.inputCount

theorem sourceProblems_eq_nil {c : Circuit Definition} {w : Wire} :
    c.danglingProblems w w.source = [] ∧ c.sourceProblems w = [] ↔
      ∃ g, c.lookup w.source.gate = some g ∧ w.source.outputPin < g.outputCount := by
  cases h : c.lookup w.source.gate with
  | none => simp [danglingProblems, h]
  | some g => simp [danglingProblems, sourceProblems, h]

theorem sinkProblems_eq_nil {c : Circuit Definition} {earlier : List Wire} {w : Wire} :
    c.danglingProblems w w.sink = [] ∧ c.sinkProblems earlier w = [] ↔
      ∃ g, c.lookup w.sink.gate = some g ∧ ∃ pin, w.sink.inputPin? = some pin ∧
        pin < g.inputCount ∧ ∀ u ∈ earlier, u.drives g.id pin = false := by
  cases h : c.lookup w.sink.gate with
  | none => simp [danglingProblems, h]
  | some g =>
    cases hp : w.sink.inputPin? with
    | none => simp [danglingProblems, sinkProblems, h, hp]
    | some pin =>
      by_cases hlt : pin < g.inputCount
      · simp [danglingProblems, sinkProblems, h, hp, hlt]
      · simp [danglingProblems, sinkProblems, h, hp, hlt]

theorem wireProblems_eq_nil {c : Circuit Definition} {earlier : List Wire} {w : Wire} :
    c.wireProblems earlier w = [] ↔ EndsExist c w ∧ (∀ u ∈ earlier, u.id ≠ w.id) ∧
      ∀ u ∈ earlier, ¬ (u.sink.gate = w.sink.gate ∧ u.sink.inputPin? = w.sink.inputPin?) := by
  have hid : (if earlier.any (·.id = w.id) then [Problem.invalidWire w.id "duplicate wire id"] else [])
      = [] ↔ ∀ u ∈ earlier, u.id ≠ w.id := by simp
  simp only [wireProblems, List.append_eq_nil_iff, hid]
  constructor
  · intro hnone
    obtain ⟨⟨⟨⟨hids, hd⟩, hd'⟩, hs⟩, hs'⟩ := hnone
    obtain ⟨g, hg, pin, hpin, hlt, hfree⟩ := sinkProblems_eq_nil.mp ⟨hd', hs'⟩
    refine ⟨⟨sourceProblems_eq_nil.mp ⟨hd, hs⟩, g, hg, pin, hpin, hlt⟩, hids, ?_⟩
    intro u hu hsame
    obtain ⟨hgate, hupin⟩ := hsame
    have hdrives := hfree u hu
    rw [Wire.drives, (mem_of_lookup hg).2, hupin, hpin] at hdrives
    simp [hgate] at hdrives
  · intro hends
    obtain ⟨⟨hsource, g, hg, pin, hpin, hlt⟩, hids, hfree⟩ := hends
    obtain ⟨hd, hs⟩ := sourceProblems_eq_nil.mpr hsource
    have hdrives : ∀ u ∈ earlier, u.drives g.id pin = false := by
      intro u hu
      have h := hfree u hu
      rw [hpin, ← (mem_of_lookup hg).2] at h
      rw [Wire.drives, Bool.and_eq_false_iff, decide_eq_false_iff_not, decide_eq_false_iff_not]
      exact not_and_or.mp h
    obtain ⟨hd', hs'⟩ := sinkProblems_eq_nil.mpr ⟨g, hg, pin, hpin, hlt, hdrives⟩
    exact ⟨⟨⟨⟨hids, hd⟩, hd'⟩, hs⟩, hs'⟩

theorem wiresProblems_eq_nil {c : Circuit Definition} {earlier wires : List Wire} :
    c.wiresProblems earlier wires = [] ↔
      (∀ w ∈ wires, EndsExist c w ∧ (∀ u ∈ earlier, u.id ≠ w.id) ∧
        ∀ u ∈ earlier, ¬ (u.sink.gate = w.sink.gate ∧ u.sink.inputPin? = w.sink.inputPin?)) ∧
      (wires.map (·.id)).Nodup ∧
      wires.Pairwise fun u w =>
        ¬ (u.sink.gate = w.sink.gate ∧ u.sink.inputPin? = w.sink.inputPin?) := by
  induction wires generalizing earlier with
  | nil => simp [wiresProblems]
  | cons w wires ih =>
    rw [wiresProblems, List.append_eq_nil_iff, wireProblems_eq_nil, ih]
    simp only [List.mem_cons, List.map_cons, List.nodup_cons, List.mem_map, List.pairwise_cons]
    constructor
    · intro hwires
      obtain ⟨hw, hrest, hnodup, hpair⟩ := hwires
      refine ⟨?_, ⟨?_, hnodup⟩, fun x hx => (hrest x hx).2.2 w (Or.inl rfl), hpair⟩
      · rintro x (rfl | hx)
        · exact hw
        · obtain ⟨he, hids, hsinks⟩ := hrest x hx
          exact ⟨he, fun u hu => hids u (Or.inr hu), fun u hu => hsinks u (Or.inr hu)⟩
      · intro hmem
        obtain ⟨x, hx, e⟩ := hmem
        exact (hrest x hx).2.1 w (Or.inl rfl) e.symm
    · intro hwires
      obtain ⟨hall, ⟨hid, hnodup⟩, hsink, hpair⟩ := hwires
      refine ⟨hall w (Or.inl rfl), fun x hx => ?_, hnodup, hpair⟩
      obtain ⟨he, hids, hsinks⟩ := hall x (Or.inr hx)
      refine ⟨he, ?_, ?_⟩
      · rintro u (rfl | hu)
        · exact fun e => hid ⟨x, hx, e.symm⟩
        · exact hids u hu
      · rintro u (rfl | hu)
        · exact hsink x hx
        · exact hsinks u hu

/-- **The check finds nothing exactly at valid circuits.** -/
theorem check_eq_nil_iff {c : Circuit Definition} : c.check = [] ↔ c.Valid := by
  rw [check, List.append_eq_nil_iff, gateProblems_eq_nil, wiresProblems_eq_nil]
  constructor
  · intro hnone
    obtain ⟨⟨hgates, -⟩, hwires, hids, hpair⟩ := hnone
    refine ⟨hgates, hids, fun w hw => ?_, fun w hw => ?_, hpair⟩
    · obtain ⟨g, hg, hlt⟩ := (hwires w hw).1.source
      exact ⟨g, (mem_of_lookup hg).1, (mem_of_lookup hg).2, hlt⟩
    · obtain ⟨g, hg, hpin⟩ := (hwires w hw).1.sink
      exact ⟨g, (mem_of_lookup hg).1, (mem_of_lookup hg).2, hpin⟩
  · intro h
    refine ⟨⟨h.gateIds, fun g _ => List.not_mem_nil⟩, fun w hw => ⟨⟨?_, ?_⟩, ?_, ?_⟩,
      h.wireIds, h.single⟩
    · obtain ⟨g, hg, hid, hlt⟩ := h.source w hw
      exact ⟨g, hid ▸ lookup_of_mem h.gateIds hg, hlt⟩
    · obtain ⟨g, hg, hid, hpin⟩ := h.sink w hw
      exact ⟨g, hid ▸ lookup_of_mem h.gateIds hg, hpin⟩
    · exact fun u hu => absurd hu List.not_mem_nil
    · exact fun u hu => absurd hu List.not_mem_nil

/-! ## 3. Ends of wires -/

theorem drives_iff {w : Wire} {id : GateId} {pin : Nat} :
    w.drives id pin = true ↔ w.sink.gate = id ∧ w.sink.inputPin? = some pin := by
  simp [Wire.drives]

theorem drives_eq_false_iff {w : Wire} {id : GateId} {pin : Nat} :
    w.drives id pin = false ↔ ¬ (w.sink.gate = id ∧ w.sink.inputPin? = some pin) := by
  rw [← drives_iff, Bool.not_eq_true]

/-- A gate of a valid circuit has one place. -/
theorem Valid.place_eq {c : Circuit Definition} (hc : c.Valid) {i j : Nat} {g : Gate Definition}
    (hg : c.gates[i]? = some g) (hj : (c.gates.map (·.id))[j]? = some g.id) : j = i := by
  refine (List.getElem?_inj (List.getElem?_eq_some_iff.mp hj).1 hc.gateIds).mp ?_
  rw [hj, List.getElem?_map, hg, Option.map_some]

/-- Two wires of a valid circuit that end at one pin are one. -/
theorem Valid.eq_of_sink {c : Circuit Definition} (hc : c.Valid) {u w : Wire} (hu : u ∈ c.wires)
    (hw : w ∈ c.wires) (hgate : u.sink.gate = w.sink.gate)
    (hpin : u.sink.inputPin? = w.sink.inputPin?) : u = w := by
  by_contra hne
  have hsymm : Std.Symm fun u w : Wire =>
      ¬ (u.sink.gate = w.sink.gate ∧ u.sink.inputPin? = w.sink.inputPin?) :=
    ⟨fun _ _ h he => h ⟨he.1.symm, he.2.symm⟩⟩
  exact hc.single.forall hu hw hne ⟨hgate, hpin⟩

/-- Two wires of a valid circuit that drive one pin are one. -/
theorem Valid.eq_of_drives {c : Circuit Definition} (hc : c.Valid) {u w : Wire} (hu : u ∈ c.wires)
    (hw : w ∈ c.wires) {id : GateId} {pin : Nat} (hdu : u.drives id pin = true)
    (hdw : w.drives id pin = true) : u = w := by
  obtain ⟨hugate, hupin⟩ := drives_iff.mp hdu
  obtain ⟨hwgate, hwpin⟩ := drives_iff.mp hdw
  exact hc.eq_of_sink hu hw (hugate.trans hwgate.symm) (hupin.trans hwpin.symm)

end LogicSim.Circuit
