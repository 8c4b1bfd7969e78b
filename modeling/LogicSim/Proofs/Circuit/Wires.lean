import LogicSim.Circuit.Samples
import LogicSim.Proofs.Netlist.Equations

/-!
# Circuits that are wired up at once

Samples and random circuits are lists of gates with wires that are added one after the other. The
search for a new identifier then never has to go on: wire `i` is the `i`th, with the name of that
number (`Circuit.wires_connectAll`). Whether the circuit is valid is a matter of the gates and of the
ends asked for (`Circuit.valid_connectAll`), and so is which gate each pin is driven from.
-/

namespace LogicSim

/-! ## 1. Generated names -/

/-- Names of different numbers differ. -/
theorem numbered_inj {stem : String} {m n : Nat} (h : stem ++ toString m = stem ++ toString n) :
    m = n := by
  have hdigits : Nat.toDigits 10 m = Nat.toDigits 10 n := by
    simpa [Nat.toString_eq_ofList_toDigits] using congrArg String.toList h
  have hvalue := congrArg (Nat.ofDigitChars 10 · 0) hdigits
  simpa only [Nat.ofDigitChars_ten_toDigits] using hvalue

/-- So do names with different first letters. -/
theorem numbered_ne {stem s : String} {letter : Char} (hstem : stem.toList.head? = some letter)
    (hs : s.toList.head? ≠ some letter) (n : Nat) : stem ++ toString n ≠ s := by
  rintro rfl
  simp [hstem] at hs

namespace Circuit

theorem wireName_inj {m n : Nat} (h : wireName m = wireName n) : m = n := numbered_inj h

/-! ## 2. Wires in a row -/

/-- An output pin and an input pin that a wire is to join. -/
abbrev Joint := GateId × Nat × GateId × Nat

/-- The wire of a number between two pins. -/
def jointWire (number : Nat) (e : Joint) : Wire :=
  ⟨wireName number, .output e.1 e.2.1, .input e.2.2.1 e.2.2.2, false⟩

variable {c : Circuit Definition} {gates : List (Gate Definition)} {ends : List Joint}

/-- The first identifier that is tried is taken if it is new. -/
theorem freshWire_of_new {taken : List WireId} {n : Nat} (h : wireName n ∉ taken) (fuel : Nat) :
    freshWire taken n fuel = wireName n := by
  cases fuel with
  | zero => rfl
  | succ fuel => simp [freshWire, h]

@[simp] theorem connectAll_concat (c : Circuit Definition) (ends : List Joint) (e : Joint) :
    c.connectAll (ends ++ [e]) = (c.connectAll ends).connect e.1 e.2.1 e.2.2.1 e.2.2.2 := by
  simp [connectAll]

@[simp] theorem gates_connectAll (c : Circuit Definition) (ends : List Joint) :
    (c.connectAll ends).gates = c.gates := by
  induction ends using List.reverseRecOn with
  | nil => rfl
  | append_singleton ends e ih => rw [connectAll_concat, gates_connect, ih]

/-- **The wires are those asked for**, numbered in their order. -/
theorem wires_connectAll (gates : List (Gate Definition)) (ends : List Joint) :
    (connectAll { gates } ends).wires = ends.mapIdx jointWire := by
  induction ends using List.reverseRecOn with
  | nil => rfl
  | append_singleton ends e ih =>
    have hnew : (connectAll { gates } ends).newWireId = wireName ends.length := by
      rw [newWireId, ih, List.length_mapIdx]
      refine freshWire_of_new (fun hmem => ?_) _
      obtain ⟨w, hw, hname⟩ := List.mem_map.mp hmem
      obtain ⟨i, hi, rfl⟩ := List.mem_mapIdx.mp hw
      exact Nat.ne_of_lt hi (wireName_inj hname)
    rw [connectAll_concat, wires_connect, ih, hnew, List.mapIdx_concat]
    rfl

theorem mem_wires_connectAll {w : Wire} : w ∈ (connectAll { gates } ends).wires ↔
    ∃ (i : Nat) (e : Joint), ends[i]? = some e ∧ w = jointWire i e := by
  rw [wires_connectAll, List.mem_mapIdx]
  constructor
  · rintro ⟨i, hi, rfl⟩
    exact ⟨i, ends[i], List.getElem?_eq_getElem hi, rfl⟩
  · rintro ⟨i, e, he, rfl⟩
    obtain ⟨hi, rfl⟩ := List.getElem?_eq_some_iff.mp he
    exact ⟨i, hi, rfl⟩

/-- **A wire leads from one gate to another** if one was asked for. -/
theorem wired_connectAll {a b : GateId} :
    (connectAll { gates } ends).Wired a b ↔ ∃ e ∈ ends, e.1 = a ∧ e.2.2.1 = b := by
  constructor
  · rintro ⟨w, hw, rfl, rfl⟩
    obtain ⟨i, e, he, rfl⟩ := mem_wires_connectAll.mp hw
    exact ⟨e, List.mem_of_getElem? he, rfl, rfl⟩
  · rintro ⟨e, he, rfl, rfl⟩
    obtain ⟨i, hi⟩ := List.getElem?_of_mem he
    exact ⟨jointWire i e, mem_wires_connectAll.mpr ⟨i, e, hi, rfl⟩, rfl, rfl⟩

/-! ## 3. Validity -/

/-- **Both pins exist** among some gates, and their numbers fit into 32 bits. -/
structure Joint.Fits (gates : List (Gate Definition)) (e : Joint) : Prop where
  source : ∃ g ∈ gates, g.id = e.1 ∧ e.2.1 < g.outputCount
  sink : ∃ g ∈ gates, g.id = e.2.2.1 ∧ e.2.2.2 < g.inputCount
  output : e.2.1 ≤ Int32.maxValue.toInt
  input : e.2.2.2 ≤ Int32.maxValue.toInt

theorem Joint.Fits.outputPin {e : Joint} (h : e.Fits gates) (i : Nat) :
    (jointWire i e).source.outputPin = e.2.1 := Endpoint.outputPin_output e.1 h.output

theorem Joint.Fits.inputPin? {e : Joint} (h : e.Fits gates) (i : Nat) :
    (jointWire i e).sink.inputPin? = some e.2.2.2 := Endpoint.inputPin?_input e.2.2.1 h.input

/-- **A circuit is valid** if gates have names of their own, the pins asked for exist, and no input
    pin is asked for twice. -/
theorem valid_connectAll (hids : (gates.map (·.id)).Nodup) (hfits : ∀ e ∈ ends, Joint.Fits gates e)
    (hsingle : (ends.map (·.2.2)).Nodup) : (connectAll { gates } ends).Valid := by
  refine ⟨by rwa [gates_connectAll], ?_, fun w hw => ?_, fun w hw => ?_, ?_⟩
  · rw [wires_connectAll, List.Nodup, List.pairwise_map, List.pairwise_iff_getElem]
    intro i j hi hj hij hsame
    rw [List.getElem_mapIdx, List.getElem_mapIdx] at hsame
    exact Nat.ne_of_lt hij (wireName_inj hsame)
  · obtain ⟨i, e, he, rfl⟩ := mem_wires_connectAll.mp hw
    have hfit := hfits e (List.mem_of_getElem? he)
    rw [gates_connectAll, hfit.outputPin]
    exact hfit.source
  · obtain ⟨i, e, he, rfl⟩ := mem_wires_connectAll.mp hw
    have hfit := hfits e (List.mem_of_getElem? he)
    obtain ⟨g, hg, hid, hlt⟩ := hfit.sink
    rw [gates_connectAll, hfit.inputPin?]
    exact ⟨g, hg, hid, e.2.2.2, rfl, hlt⟩
  · rw [wires_connectAll, List.pairwise_iff_getElem]
    intro i j hi hj hij hsame
    rw [List.length_mapIdx] at hi hj
    obtain ⟨hgate, hpin⟩ := hsame
    rw [List.getElem_mapIdx, List.getElem_mapIdx, (hfits _ (List.getElem_mem hi)).inputPin?,
      (hfits _ (List.getElem_mem hj)).inputPin?] at hpin
    rw [List.getElem_mapIdx, List.getElem_mapIdx] at hgate
    have hpins : ends[i].2.2 = ends[j].2.2 := Prod.ext hgate (Option.some.inj hpin)
    rw [List.Nodup, List.pairwise_map, List.pairwise_iff_getElem] at hsingle
    exact hsingle i j hi hj hij hpins

/-- What is asked for is wired. -/
theorem exists_wire_connectAll {e : Joint} (he : e ∈ ends) (hfit : e.Fits gates) :
    ∃ w ∈ (connectAll { gates } ends).wires, w.source.gate = e.1 ∧ w.source.outputPin = e.2.1 ∧
      w.drives e.2.2.1 e.2.2.2 = true := by
  obtain ⟨i, hi⟩ := List.getElem?_of_mem he
  exact ⟨jointWire i e, mem_wires_connectAll.mpr ⟨i, e, hi, rfl⟩, rfl, hfit.outputPin i,
    drives_iff.mpr ⟨rfl, hfit.inputPin? i⟩⟩

/-- **An input pin that is asked for has one driver.** -/
theorem existsUnique_driver (hc : (connectAll { gates } ends).Valid)
    (hfits : ∀ e ∈ ends, Joint.Fits gates e) {id : GateId} {pin : Nat}
    (h : (id, pin) ∈ ends.map (·.2.2)) :
    ∃! w, w ∈ (connectAll { gates } ends).wires ∧ w.drives id pin = true := by
  obtain ⟨e, he, hpin⟩ := List.mem_map.mp h
  obtain ⟨rfl, rfl⟩ := Prod.ext_iff.mp hpin
  obtain ⟨w, hw, -, -, hdrives⟩ := exists_wire_connectAll he (hfits e he)
  exact ⟨w, ⟨hw, hdrives⟩, fun u hu => hc.eq_of_drives hu.1 hw hu.2 hdrives⟩

end Circuit

end LogicSim
