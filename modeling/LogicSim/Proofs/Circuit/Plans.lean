import LogicSim.Proofs.Circuit.Wires

/-!
# Circuits made gate by gate

A plan puts one gate after the other, each with a wire to every input pin from a gate before it
(`Circuit.Plan`). Wired up, and with its gates in any order, it is a valid circuit, in which every
input pin has one driver and no path of wires comes back to where it began (`Circuit.Plan.circuit`).
-/

namespace LogicSim.Circuit

open Relation

variable {gates gates' : List (Gate Definition)} {ends wires : List Joint} {g : Gate Definition}

/-! ## 1. Plans -/

/-- Pins that 32 bits can hold. -/
structure Narrow (g : Gate Definition) : Prop where
  inputs : g.inputCount ≤ Int32.maxValue.toInt
  outputs : g.outputCount ≤ Int32.maxValue.toInt

/-- The wires of a new gate: one to each of its input pins, in their order, each from an output of a
    gate that is there. -/
structure Reads (gates : List (Gate Definition)) (g : Gate Definition) (wires : List Joint) :
    Prop where
  pins : wires.map (·.2.2) = (List.range g.inputCount).map ((g.id, ·))
  source : ∀ e ∈ wires, ∃ s ∈ gates, s.id = e.1 ∧ e.2.1 < s.outputCount

/-- **Gates made one after the other**, with the wires between them. -/
inductive Plan : List (Gate Definition) → List Joint → Prop where
  | nil : Plan [] []
  | add {gates : List (Gate Definition)} {ends wires : List Joint} {g : Gate Definition}
    (h : Plan gates ends) (hnew : g.id ∉ gates.map (·.id)) (hnarrow : Narrow g)
    (hreads : Reads gates g wires) : Plan (gates ++ [g]) (ends ++ wires)

namespace Reads

theorem mem_sink (h : Reads gates g wires) {e : Joint} (he : e ∈ wires) :
    e.2.2.1 = g.id ∧ e.2.2.2 < g.inputCount := by
  have hmem := List.mem_map_of_mem (f := fun e : Joint => e.2.2) he
  rw [h.pins, List.mem_map] at hmem
  obtain ⟨pin, hpin, hsame⟩ := hmem
  rw [← hsame]
  exact ⟨rfl, List.mem_range.mp hpin⟩

/-- A gate without inputs reads nothing. -/
theorem of_inputless (hg : g.inputCount = 0) : Reads gates g [] :=
  ⟨by rw [hg]; rfl, fun _ he => absurd he List.not_mem_nil⟩

end Reads

namespace Plan

theorem nodup_ids (h : Plan gates ends) : (gates.map (·.id)).Nodup := by
  induction h with
  | nil => exact List.nodup_nil
  | add _ hnew _ _ ih =>
    rw [List.map_append, List.map_singleton, ← List.concat_eq_append]
    exact ih.concat hnew

theorem narrow (h : Plan gates ends) (hg : g ∈ gates) : Narrow g := by
  induction h with
  | nil => cases hg
  | add _ _ hnarrow _ ih =>
    rcases List.mem_append.mp hg with hg | hg
    · exact ih hg
    · exact List.mem_singleton.mp hg ▸ hnarrow

/-- The pins that wires lead to, in their order: all input pins. -/
theorem pins (h : Plan gates ends) :
    ends.map (·.2.2) = gates.flatMap fun g => (List.range g.inputCount).map ((g.id, ·)) := by
  induction h with
  | nil => rfl
  | add _ _ _ hreads ih => rw [List.map_append, ih, hreads.pins, List.flatMap_append]; simp

/-- **Both ends of a wire exist**, and it leads forward. -/
theorem joint (h : Plan gates ends) {e : Joint} (he : e ∈ ends) :
    (∃ s ∈ gates, s.id = e.1 ∧ e.2.1 < s.outputCount) ∧
      (∃ g ∈ gates, g.id = e.2.2.1 ∧ e.2.2.2 < g.inputCount) ∧
      (gates.map (·.id)).idxOf e.1 < (gates.map (·.id)).idxOf e.2.2.1 := by
  induction h with
  | nil => cases he
  | @add gates ends wires g h hnew _ hreads ih =>
    have hold : ∀ {id : GateId}, id ∈ gates.map (·.id) →
        ((gates ++ [g]).map (·.id)).idxOf id = (gates.map (·.id)).idxOf id := by
      intro id hid
      rw [List.map_append, List.idxOf_append_of_mem hid]
    rcases List.mem_append.mp he with he | he
    · obtain ⟨⟨s, hs, hsid, hout⟩, ⟨t, ht, htid, hin⟩, hlt⟩ := ih he
      refine ⟨⟨s, List.mem_append_left _ hs, hsid, hout⟩, ⟨t, List.mem_append_left _ ht, htid, hin⟩,
        ?_⟩
      rwa [hold (hsid ▸ List.mem_map_of_mem hs), hold (htid ▸ List.mem_map_of_mem ht)]
    · obtain ⟨s, hs, hsid, hout⟩ := hreads.source e he
      obtain ⟨hsink, hin⟩ := hreads.mem_sink he
      have hmem : e.1 ∈ gates.map (·.id) := hsid ▸ List.mem_map_of_mem hs
      refine ⟨⟨s, List.mem_append_left _ hs, hsid, hout⟩, ⟨g, by simp, hsink.symm, hin⟩, ?_⟩
      -- the new gate comes after those it reads
      rw [hold hmem, hsink, List.map_append, List.idxOf_append_of_notMem hnew]
      exact Nat.lt_of_lt_of_le (List.idxOf_lt_length_iff.mpr hmem) (Nat.le_add_right _ _)

theorem fits (h : Plan gates ends) : ∀ e ∈ ends, Joint.Fits gates e := by
  intro e he
  obtain ⟨⟨s, hs, hsid, hout⟩, ⟨g, hg, hgid, hin⟩, -⟩ := h.joint he
  have hs' := (h.narrow hs).outputs
  have hg' := (h.narrow hg).inputs
  exact ⟨⟨s, hs, hsid, hout⟩, ⟨g, hg, hgid, hin⟩, by omega, by omega⟩

/-- No pin is wired twice. -/
theorem nodup_pins (h : Plan gates ends) : (ends.map (·.2.2)).Nodup := by
  rw [h.pins, List.nodup_flatMap]
  refine ⟨fun g _ => List.nodup_range.map fun i j hij => (Prod.mk.inj hij).2, ?_⟩
  refine (List.pairwise_map.mp h.nodup_ids).imp fun hne pin hpin hpin' => ?_
  obtain ⟨i, -, rfl⟩ := List.mem_map.mp hpin
  obtain ⟨j, -, hsame⟩ := List.mem_map.mp hpin'
  exact hne (Prod.mk.inj hsame).1.symm

/-! ## 2. The circuit of a plan -/

/-- In the order of the plan every wire leads forward. -/
theorem forward (h : Plan gates ends) : ∀ w ∈ (connectAll { gates } ends).wires,
    (connectAll { gates } ends).place w.source.gate <
      (connectAll { gates } ends).place w.sink.gate := by
  intro w hw
  obtain ⟨i, e, he, rfl⟩ := mem_wires_connectAll.mp hw
  rw [place, place, gates_connectAll]
  exact (h.joint (List.mem_of_getElem? he)).2.2

/-- **The circuit of a plan**, its gates in any order. -/
theorem circuit (h : Plan gates ends) (hperm : gates'.Perm gates) :
    (connectAll { gates := gates' } ends).Valid ∧
      (∀ g ∈ gates', ∀ pin < g.inputCount,
        ∃! w, w ∈ (connectAll { gates := gates' } ends).wires ∧ w.drives g.id pin = true) ∧
      ∀ id, ¬ TransGen (connectAll { gates := gates' } ends).Wired id id := by
  have hwires : (connectAll { gates := gates' } ends).wires = (connectAll { gates } ends).wires := by
    rw [wires_connectAll, wires_connectAll]
  have hplanned : (connectAll { gates } ends).Valid := valid_connectAll h.nodup_ids h.fits h.nodup_pins
  have hgates : (connectAll { gates } ends).gates.Perm (connectAll { gates := gates' } ends).gates := by
    rw [gates_connectAll, gates_connectAll]
    exact hperm.symm
  refine ⟨hplanned.perm hgates (.of_eq hwires.symm), fun g hg pin hpin => ?_, fun id hid => ?_⟩
  · rw [hwires]
    refine existsUnique_driver hplanned h.fits ?_
    rw [h.pins, List.mem_flatMap]
    exact ⟨g, hperm.mem_iff.mp hg, List.mem_map_of_mem (List.mem_range.mpr hpin)⟩
  · rw [(paths_perm hgates (.of_eq hwires.symm)).1] at hid
    exact Nat.lt_irrefl _ (no_loop_of_forward h.forward hid)

end Plan

end LogicSim.Circuit
