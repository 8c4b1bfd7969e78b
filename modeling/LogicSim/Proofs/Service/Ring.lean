import LogicSim.Proofs.Circuit.Wires
import LogicSim.Proofs.Service.Analysis
import LogicSim.Proofs.Service.Oscillation
import Mathlib.Data.Nat.ModEq

/-!
# Rings of inverters

`Circuit.ring?` wires inverters in a circle, with an output gate at the first of them. Whatever the
length, the ring is valid, and an immediate evaluation fails with a cycle of all its inverters, each
once. A ring of odd length oscillates in delayed passes, whatever signals its gates store
(`Service.ring_oscillates`).
-/

namespace LogicSim

open Netlist Relation

namespace Circuit

/-! ## 1. The ring -/

/-- The gates of a ring. -/
def ringGates (length : Nat) : List (Gate Definition) :=
  (List.range length).map (fun i => .new (ringName i) .not) ++ [.new "O" .output]

/-- What is wired in a ring. -/
def ringEnds (length : Nat) : List Joint :=
  (List.range length).map (fun i => (ringName i, 0, ringName ((i + 1) % length), 0))
    ++ [(ringName 0, 0, "O", 0)]

/-- The ring of a length. -/
def ring (length : Nat) : Circuit Definition :=
  connectAll { gates := ringGates length } (ringEnds length)

theorem ring?_eq {length : Nat} (h : 0 < length) : ring? length = some (ring length) := by
  rw [ring?, if_neg (Nat.ne_of_gt h)]
  rfl

theorem ringName_inj {i j : Nat} (h : ringName i = ringName j) : i = j := numbered_inj h

theorem ringName_ne (i : Nat) : ringName i ≠ "O" := numbered_ne rfl (by decide) i

variable {length : Nat}

theorem gates_ring (length : Nat) : (ring length).gates = ringGates length := gates_connectAll ..

theorem mem_ringGates {g : Gate Definition} : g ∈ ringGates length ↔
    (∃ i < length, g = .new (ringName i) .not) ∨ g = .new "O" .output := by
  simp [ringGates, eq_comm]

theorem mem_ringEnds {e : Joint} : e ∈ ringEnds length ↔
    (∃ i < length, e = (ringName i, 0, ringName ((i + 1) % length), 0)) ∨
      e = (ringName 0, 0, "O", 0) := by
  simp [ringEnds, eq_comm]

theorem fits_ringEnds (hlength : 0 < length) : ∀ e ∈ ringEnds length, e.Fits (ringGates length) := by
  intro e he
  have hmax : ((0 : Nat) : Int) ≤ Int32.maxValue.toInt := by decide
  have hinverter : ∀ i < length, Gate.new (ringName i) .not ∈ ringGates length :=
    fun i hi => mem_ringGates.mpr (.inl ⟨i, hi, rfl⟩)
  rcases mem_ringEnds.mp he with ⟨i, hi, rfl⟩ | rfl
  · exact ⟨⟨_, hinverter i hi, rfl, Nat.zero_lt_one⟩,
      ⟨_, hinverter _ (Nat.mod_lt _ hlength), rfl, Nat.zero_lt_one⟩, hmax, hmax⟩
  · exact ⟨⟨_, hinverter 0 hlength, rfl, Nat.zero_lt_one⟩,
      ⟨_, mem_ringGates.mpr (.inr rfl), rfl, Nat.zero_lt_one⟩, hmax, hmax⟩

/-- **A ring is valid.** -/
theorem valid_ring (hlength : 0 < length) : (ring length).Valid := by
  refine valid_connectAll ?_ (fits_ringEnds hlength) ?_
  · have hids : (ringGates length).map (·.id) = (List.range length).map ringName ++ ["O"] := by
      rw [ringGates, List.map_append, List.map_map]
      rfl
    rw [hids, ← List.concat_eq_append]
    refine (List.nodup_range.map fun i j => ringName_inj).concat fun hmem => ?_
    obtain ⟨i, -, hi⟩ := List.mem_map.mp hmem
    exact ringName_ne i hi
  · have hsinks : (ringEnds length).map (·.2.2) =
        (List.range length).map (fun i => (ringName ((i + 1) % length), 0)) ++ [("O", 0)] := by
      rw [ringEnds, List.map_append, List.map_map]
      rfl
    rw [hsinks, ← List.concat_eq_append]
    refine (List.Nodup.map_on (fun i hi j hj hsame => ?_) List.nodup_range).concat fun hmem => ?_
    · -- different inverters have different successors
      have hnext : Nat.ModEq length (i + 1) (j + 1) := ringName_inj (congrArg Prod.fst hsame)
      exact (Nat.ModEq.add_right_cancel' 1 hnext).eq_of_lt_of_lt (List.mem_range.mp hi)
        (List.mem_range.mp hj)
    · obtain ⟨i, -, hi⟩ := List.mem_map.mp hmem
      exact ringName_ne _ (congrArg Prod.fst hi)

/-- **Its inverters are a closed chain.** -/
theorem inverterLoop_ring (hlength : 0 < length) : (ring length).InverterLoop length ringName := by
  refine ⟨fun i hi => ?_, fun i hi => ?_⟩
  · refine ⟨.new (ringName i) .not, ?_, rfl, rfl, rfl⟩
    rw [gates_ring]
    exact mem_ringGates.mpr (.inl ⟨i, hi, rfl⟩)
  · have he := mem_ringEnds.mpr (.inl ⟨i, hi, rfl⟩)
    exact exists_wire_connectAll he (fits_ringEnds hlength _ he)

/-- Only inverters are wired on, to the next one or to the output. -/
theorem wired_ring {a b : GateId} (h : (ring length).Wired a b) (hlength : 0 < length) :
    ∃ i < length, a = ringName i ∧ (b = ringName ((i + 1) % length) ∨ b = "O") := by
  obtain ⟨e, he, rfl, rfl⟩ := wired_connectAll.mp h
  rcases mem_ringEnds.mp he with ⟨i, hi, rfl⟩ | rfl
  · exact ⟨i, hi, rfl, .inl rfl⟩
  · exact ⟨0, hlength, rfl, .inr rfl⟩

/-! ## 2. The cycle -/

/-- A gate of a cycle is wired to one of the cycle. -/
theorem IsCycle.exists_next {c : Circuit Definition} {cycle : List GateId} (h : c.IsCycle cycle)
    {a : GateId} (ha : a ∈ cycle) : ∃ b ∈ cycle, c.Wired a b := by
  obtain ⟨first, hfirst⟩ := Option.ne_none_iff_exists'.mp
    (mt List.head?_eq_none_iff.mp (List.ne_nil_of_mem ha))
  obtain ⟨before, after, hsplit⟩ := List.append_of_mem ha
  have hchain := h.wired
  rw [hfirst, hsplit, List.append_assoc, List.isChain_append] at hchain
  obtain ⟨-, hchain, -⟩ := hchain
  rcases after with _ | ⟨b, after⟩
  · -- the last gate is wired to the first one
    exact ⟨first, List.mem_of_head? hfirst, (List.isChain_cons_cons.mp hchain).1⟩
  · exact ⟨b, by simp [hsplit], (List.isChain_cons_cons.mp hchain).1⟩

/-- **A cycle in a ring goes once around it.** -/
theorem perm_of_isCycle_ring (hlength : 0 < length) {cycle : List GateId}
    (h : (ring length).IsCycle cycle) (hne : cycle ≠ []) :
    cycle.Perm ((List.range length).map ringName) := by
  have hname : ∀ a ∈ cycle, ∃ i < length, a = ringName i := by
    intro a ha
    obtain ⟨b, -, hwired⟩ := h.exists_next ha
    obtain ⟨i, hi, rfl, -⟩ := wired_ring hwired hlength
    exact ⟨i, hi, rfl⟩
  have hnext : ∀ i < length, ringName i ∈ cycle → ringName ((i + 1) % length) ∈ cycle := by
    intro i hi hmem
    obtain ⟨b, hb, hwired⟩ := h.exists_next hmem
    obtain ⟨j, hj, hij, hb'⟩ := wired_ring hwired hlength
    obtain rfl := ringName_inj hij
    rcases hb' with rfl | rfl
    · exact hb
    · -- the output is wired to nothing
      obtain ⟨k, -, hk⟩ := hname "O" hb
      exact absurd hk.symm (ringName_ne k)
  obtain ⟨a, ha⟩ := List.exists_mem_of_ne_nil cycle hne
  obtain ⟨start, hstart, rfl⟩ := hname a ha
  have haround : ∀ k, ringName ((start + k) % length) ∈ cycle := by
    intro k
    induction k with
    | zero => rwa [Nat.add_zero, Nat.mod_eq_of_lt hstart]
    | succ k ih =>
      have := hnext _ (Nat.mod_lt _ hlength) ih
      rwa [Nat.mod_add_mod] at this
  refine (List.perm_ext_iff_of_nodup h.nodup
    (List.nodup_range.map fun i j => ringName_inj)).mpr fun id => ⟨fun hid => ?_, fun hid => ?_⟩
  · obtain ⟨i, hi, rfl⟩ := hname id hid
    exact List.mem_map_of_mem (List.mem_range.mpr hi)
  · obtain ⟨i, hi, rfl⟩ := List.mem_map.mp hid
    have hi := List.mem_range.mp hi
    have hreached := haround (length + i - start)
    rwa [Nat.add_sub_cancel' (by omega), Nat.add_mod_left, Nat.mod_eq_of_lt hi] at hreached

/-! ## 3. Stored signals -/

/-- A circuit in which each gate stores one output signal. -/
def charged (c : Circuit Definition) (signal : GateId → Bool) : Circuit Definition :=
  { c with gates := c.gates.map fun g => { g with outputs := [signal g.id] } }

theorem mem_charged_ring {signal : GateId → Bool} {g : Gate Definition}
    (hg : g ∈ ((ring length).charged signal).gates) : g.kind = .not ∨ g.kind = .output := by
  obtain ⟨g, hmem, rfl⟩ := List.mem_map.mp hg
  rw [gates_ring] at hmem
  rcases mem_ringGates.mp hmem with ⟨i, -, rfl⟩ | rfl
  · exact .inl rfl
  · exact .inr rfl

theorem length_charged_ring (signal : GateId → Bool) :
    ((ring length).charged signal).gates.length = length + 1 := by
  simp [charged, gates_ring, ringGates]

/-- All gates of a ring have one output. -/
theorem alike_charged_ring (signal : GateId → Bool) :
    (ring length).Alike ((ring length).charged signal) := by
  refine ⟨?_, rfl⟩
  rw [charged, List.map_map]
  refine List.map_congr_left fun g hg => ?_
  rw [gates_ring] at hg
  rcases mem_ringGates.mp hg with ⟨i, -, rfl⟩ | rfl <;> rfl

end Circuit

/-- A netlist without custom gates has the gates of its circuit. -/
theorem Netlist.size_of_plain {c : Circuit Definition} (h : ∀ g ∈ c.gates, g.kind ≠ .custom)
    (compile : Definition → Except String Expansion) :
    (assemble compile c).size = c.gates.length := by
  have hone : ∀ g ∈ c.gates, 1 + (Node.ofGate compile g).element.inside Expansion.size = 1 := by
    intro g hg
    have hkind := Element.kind_ofGate compile g
    rw [Node.element_ofGate]
    cases he : Element.ofGate compile g with
    | custom x => exact absurd (hkind.symm.trans (congrArg Element.kind he)) (h g hg)
    | _ => rfl
  have hones : ((assemble compile c).nodes.map fun n => 1 + n.element.inside Expansion.size) =
      c.gates.map fun _ => 1 := by
    rw [assemble, List.map_map]
    exact List.map_congr_left hone
  rw [size_eq, hones]
  simp

/-- **The cycle that is reported** where there is one. -/
theorem Complexity.isCycle_cycleGates {c : Circuit Definition} (hc : c.Valid)
    (hcycle : c.CombinationalCycle) :
    c.IsCycle (ofCircuit c).cycleGates ∧ (ofCircuit c).cycleGates ≠ [] := by
  cases horder : (assemble (Definition.compile 0 0) c).dependencies.order with
  | ok order =>
    exact absurd hcycle ((schedule_iff hc rfl).mp ⟨_, Dependencies.order_eq_ok_iff.mp horder⟩)
  | error cycle =>
    obtain ⟨hisCycle, hcycles, -⟩ := cycleGates_of_cycle hc horder
    refine ⟨hisCycle, fun hnil => ?_⟩
    rw [hasCycles, hnil] at hcycles
    cases hcycles

/-! ## 4. The oscillation -/

/-- **A ring of inverters**, of any length, is valid, and an immediate evaluation of it has one
    problem: a cycle of all inverters, each of them once before the first is repeated. If its length
    is odd, every delayed pass changes something, however many have gone before and whatever its gates
    stored at first; so settling fails by whatever number of passes it is bounded, unless the ring is
    refused for the number of its gates. -/
theorem Service.ring_oscillates {length : Nat} (hlength : 0 < length) :
    ∃ c, Circuit.ring? length = some c ∧ c.check = [] ∧
      (∀ (e : Evaluator) (now : UInt64), ∃ cycle : List GateId,
        (e.immediate c now).problems = [.circularDependency (cycle ++ cycle.head?.toList)] ∧
        cycle.Perm ((List.range length).map Circuit.ringName) ∧
        (cycle ++ cycle.head?.toList).IsChain c.Wired) ∧
      (length % 2 = 1 → ∀ signal : GateId → Bool,
        (∀ (e : Evaluator) (times : List UInt64) (now : UInt64),
          (e.delayed (e.after (c.charged signal) (times.map .delayed)) now).changed = some true) ∧
        ∀ s : Service, (s.settle (c.charged signal)).1 =
          if length + 1 ≤ s.config.gateLimit then .error (.oscillation s.config.settleLimit)
          else .error (.tooLarge (length + 1) s.config.gateLimit)) := by
  have hc : (Circuit.ring length).Valid := Circuit.valid_ring hlength
  have hloop := Circuit.inverterLoop_ring hlength
  refine ⟨_, Circuit.ring?_eq hlength, Circuit.check_eq_nil_iff.mpr hc, fun e now => ?_,
    fun hodd signal => ?_⟩
  · have hcycle := hloop.combinationalCycle hc hlength
    obtain ⟨hisCycle, hne⟩ := Complexity.isCycle_cycleGates hc hcycle
    exact ⟨_, e.problems_of_cycle hc hcycle now, Circuit.perm_of_isCycle_ring hlength hisCycle hne,
      hisCycle.wired⟩
  · have halike : (Circuit.ring length).Alike ((Circuit.ring length).charged signal) :=
      Circuit.alike_charged_ring signal
    have hloop' := hloop.alike halike
    have hc' := halike.valid hc
    have hsize : ∀ s : Service, (s.evaluator.assemble ((Circuit.ring length).charged signal)).size =
        length + 1 := by
      intro s
      rw [Evaluator.assemble, size_of_plain, Circuit.length_charged_ring]
      intro g hg
      rcases Circuit.mem_charged_ring hg with hk | hk <;> simp [hk]
    refine ⟨fun e times now => e.changed_of_loop hloop' hodd hc' (fun g hg => ?_) times now,
      fun s => ?_⟩
    · rcases Circuit.mem_charged_ring hg with hk | hk <;> rw [Gate.returnedOutputs, hk]
    · rw [s.settle_of_loop hloop' hodd (Circuit.check_eq_nil_iff.mpr hc'), hsize]

/-- A ring of three inverters all of which are high. -/
theorem Service.ring_oscillates_three :
    0 < 3 ∧ 3 % 2 = 1 ∧ ∃ c, Circuit.ring? 3 = some c ∧
      (∀ now, ∃ cycle, (Evaluator.immediate {} c now).problems =
          [.circularDependency (cycle ++ cycle.head?.toList)] ∧ cycle.Perm ["N0", "N1", "N2"]) ∧
      (Service.settle { time := .fixed 0 } (c.charged fun _ => true)).1 =
        .error (.oscillation 50) := by
  obtain ⟨c, hring, -, hcycle, hodd⟩ := ring_oscillates (show 0 < 3 by decide)
  refine ⟨by decide, rfl, c, hring, fun now => ?_, ?_⟩
  · obtain ⟨cycle, hproblems, hperm, -⟩ := hcycle {} now
    exact ⟨cycle, hproblems, hperm⟩
  · exact (hodd rfl fun _ => true).2 { time := .fixed 0 }

/-- A ring of odd length that is refused: it has four gates, and the service takes three. However many
    passes are allowed, settling does not fail for oscillation. -/
theorem Service.ring_refused : ∃ c, Circuit.ring? 3 = some c ∧ 3 % 2 = 1 ∧ ∀ limit : Nat,
    (Service.settle { config := { settleLimit := limit, gateLimit := 3 }, time := .fixed 0 } c).1 =
        .error (.tooLarge 4 3) ∧
      (Service.settle { config := { settleLimit := limit, gateLimit := 3 }, time := .fixed 0 } c).1 ≠
        .error (.oscillation limit) := by
  have hrefused : ∀ limit : Nat, (Service.settle
      { config := { settleLimit := limit, gateLimit := 3 }, time := .fixed 0 } (Circuit.ring 3)).1 =
        .error (.tooLarge 4 3) := fun _ => rfl
  refine ⟨_, Circuit.ring?_eq (by decide), rfl, fun limit => ⟨hrefused limit, fun h => ?_⟩⟩
  cases (hrefused limit).symm.trans h

end LogicSim
