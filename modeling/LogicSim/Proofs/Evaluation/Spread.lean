import LogicSim.Proofs.Nesting.Limit
import LogicSim.Proofs.Nesting.Supply
import LogicSim.Proofs.Service.Frame

/-!
# A change goes one wire per delayed pass

Two circuits of the same build (`Circuit.Alike`) are given the same delayed passes. A gate comes back
the same from both if it was the same before and so were the gates wired to it
(`Circuit.Twins.delayed`). What is different at first in one gate only is therefore different, `k`
passes later, at no gate that is more than `k` wires away (`Evaluator.spread_of_change`), be the gates
on the way sequential, faulty or custom gates.
-/

namespace LogicSim

open Netlist

variable {ε : Type} {run : ε → Reaction} {instant : Instant} {c c' : Circuit Definition}
  {U V : Set GateId}

/-! ## 1. Paths of so many wires -/

/-- **A path of at most so many wires** from a gate. -/
inductive Circuit.Within (c : Circuit Definition) (a : GateId) : Nat → GateId → Prop where
  | start (k : Nat) : Within c a k a
  | step {k : Nat} {b d : GateId} (h : Within c a k b) (hwire : c.Wired b d) : Within c a (k + 1) d

/-- Fewer wires are not too many. -/
theorem Circuit.Within.succ {a b : GateId} {k : Nat} (h : c.Within a k b) : c.Within a (k + 1) b := by
  induction h with
  | start k => exact .start (k + 1)
  | step _ hwire ih => exact .step ih hwire

theorem Circuit.Within.eq_or {a b : GateId} {k : Nat} (h : c.Within a k b) :
    b = a ∨ ∃ j d, k = j + 1 ∧ c.Within a j d ∧ c.Wired d b := by
  cases h with
  | start => exact .inl rfl
  | step h hwire => exact .inr ⟨_, _, rfl, h, hwire⟩

/-! ## 2. Circuits of the same build -/

/-- **Circuits of the same build**: the gates differ in signals and memory, the wires in what they
    show. -/
structure Circuit.Alike (c c' : Circuit Definition) : Prop where
  gates : c'.gates.map Gate.outline = c.gates.map Gate.outline
  wires : c'.wires.map Wire.ends = c.wires.map Wire.ends

namespace Circuit.Alike

theorem symm (h : c.Alike c') : c'.Alike c := ⟨h.gates.symm, h.wires.symm⟩

theorem exists_wire (h : c.Alike c') {w : Wire} (hw : w ∈ c.wires) :
    ∃ w' ∈ c'.wires, w'.ends = w.ends := by
  have hmem := List.mem_map_of_mem (f := Wire.ends) hw
  rwa [← h.wires, List.mem_map] at hmem

theorem exists_gate (h : c.Alike c') {g : Gate Definition} (hg : g ∈ c.gates) :
    ∃ g' ∈ c'.gates, g'.outline = g.outline := by
  have hmem := List.mem_map_of_mem (f := Gate.outline) hg
  rwa [← h.gates, List.mem_map] at hmem

/-- **Validity is a matter of the build.** -/
theorem valid (h : c.Alike c') (hc : c.Valid) : c'.Valid := by
  have hsimilar : c.Similar ⟨c'.gates, c.wires⟩ := ⟨h.gates, rfl⟩
  have hgates := hsimilar.valid hc
  have hids := congrArg (·.map Prod.fst) h.wires
  simp only [List.map_map] at hids
  refine ⟨hgates.gateIds, hids ▸ hc.wireIds, fun w hw => ?_, fun w hw => ?_, ?_⟩
  · obtain ⟨w', hw', he⟩ := h.symm.exists_wire hw
    rw [← Wire.source_of_ends he]
    exact hgates.source w' hw'
  · obtain ⟨w', hw', he⟩ := h.symm.exists_wire hw
    have hsink : w'.sink = w.sink := congrArg (·.2.2) he
    rw [← hsink]
    exact hgates.sink w' hw'
  · have hpairwise : (c.wires.map Wire.ends).Pairwise fun u w =>
        ¬ (u.2.2.gate = w.2.2.gate ∧ u.2.2.inputPin? = w.2.2.inputPin?) :=
      List.pairwise_map.mpr hc.single
    rw [← h.wires] at hpairwise
    exact List.pairwise_map.mp hpairwise

/-- A pin is driven from the same output. -/
theorem source_find? (h : c.Alike c') (id : GateId) (pin : Nat) :
    (c'.wires.find? (·.drives id pin)).map (·.source) =
      (c.wires.find? (·.drives id pin)).map (·.source) := by
  have hsource : ∀ wires : List Wire, (wires.find? (·.drives id pin)).map (·.source) =
      ((wires.map Wire.ends).find? fun e =>
        e.2.2.gate = id && e.2.2.inputPin? = some pin).map (·.2.1) := by
    intro wires
    rw [List.find?_map, Option.map_map]
    rfl
  rw [hsource, hsource, h.wires]

end Circuit.Alike

/-- The outline with which a gate comes back. -/
def Outline.returned (o : Outline) : Outline := { o with outputs := o.shape.outputs }

theorem outlines_writeBack {compile : Definition → Except String ε} {net : Netlist ε}
    (hshape : net.shape = (assemble compile c).shape) :
    (net.writeBack c).gates.map Gate.outline =
      (c.gates.map Gate.outline).map Outline.returned := by
  refine List.ext_getElem? fun i => ?_
  rw [List.getElem?_map, List.map_map, List.getElem?_map]
  cases hg : c.gates[i]? with
  | none => rw [getElem?_gates_writeBack, hg]; rfl
  | some g =>
    obtain ⟨n, hn, hs⟩ := exists_of_shape hshape (getElem?_assemble hg)
    have hinputs : (n.store g).inputCount = g.inputCount := inputCount_store hs
    have houtputs : (n.store g).outputCount = g.outline.shape.outputs := outputCount_store hs
    have hdefinition : (n.store g).metadata.definition = g.metadata.definition :=
      definition_store ..
    rw [getElem?_gates_writeBack_of_some hg hn, Option.map_some, Option.map_some, Gate.outline,
      hinputs, houtputs, hdefinition]
    rfl

/-- Circuits of the same build come back so. -/
theorem Circuit.Alike.writeBack {compile : Definition → Except String ε} (h : c.Alike c')
    {net net' : Netlist ε} (hshape : net.shape = (assemble compile c).shape)
    (hshape' : net'.shape = (assemble compile c').shape) :
    (net.writeBack c).Alike (net'.writeBack c') := by
  refine ⟨?_, ?_⟩
  · rw [outlines_writeBack hshape, outlines_writeBack hshape', h.gates]
  · rw [ends_writeBack, ends_writeBack, h.wires]

/-! ## 3. Circuits with the same gates far away -/

/-- **Circuits of the same build that have the same gates of a set.** -/
structure Circuit.Twins (c : Circuit Definition) (U : Set GateId) (c' : Circuit Definition) :
    Prop extends c.Alike c' where
  same : ∀ g ∈ c.gates, g.id ∈ U → g ∈ c'.gates

namespace Circuit.Twins

variable {compile : Definition → Except String ε}

theorem mono (h : c.Twins U c') (hsub : V ⊆ U) : c.Twins V c' :=
  ⟨h.toAlike, fun g hg hid => h.same g hg (hsub hid)⟩

theorem startState (h : c.Twins U c') (hc : c.Valid) {g : Gate Definition} (hg : g ∈ c.gates)
    (hid : g.id ∈ U) : c'.startState compile g.id = c.startState compile g.id := by
  rw [startState_eq hc hg, startState_eq (h.valid hc) (h.same g hg hid)]

/-- **A gate sees the same in both** if it reads gates of the set only. -/
theorem seen (h : c.Twins U c') (hc : c.Valid) {id : GateId} (hdrivers : ∀ b, c.Wired b id → b ∈ U)
    (stored : List Bool) :
    c'.seen (LogicSim.shown (c'.startState compile)) id stored =
      c.seen (LogicSim.shown (c.startState compile)) id stored := by
  refine List.ext_getElem? fun pin => ?_
  have hsource := h.source_find? id pin
  rw [getElem?_seen, getElem?_seen]
  cases hfind : c.wires.find? (·.drives id pin) with
  | none =>
    rw [hfind, Option.map_none, Option.map_eq_none_iff] at hsource
    rw [hsource]
  | some w =>
    rw [hfind, Option.map_some, Option.map_eq_some_iff] at hsource
    obtain ⟨w', hw', hsame⟩ := hsource
    have hw := List.mem_of_find?_eq_some hfind
    have hdrives := List.find?_some hfind
    obtain ⟨hsink, -⟩ := drives_iff.mp hdrives
    obtain ⟨g, hg, hgid, -⟩ := hc.source w hw
    have hin : g.id ∈ U := hgid ▸ hdrivers _ ⟨w, hw, rfl, hsink⟩
    rw [hw']
    dsimp only
    rw [hsame, ← hgid, LogicSim.shown, LogicSim.shown, h.startState hc hg hin]

/-- And so it reacts in the same way if it is in the set itself. -/
theorem reaction (h : c.Twins U c') (hc : c.Valid) {g : Gate Definition} (hg : g ∈ c.gates)
    (hid : g.id ∈ U) (hdrivers : ∀ b, c.Wired b g.id → b ∈ U) :
    c'.reaction run instant (c'.startState compile) g.id =
      c.reaction run instant (c.startState compile) g.id := by
  rw [Circuit.reaction, Circuit.reaction, h.startState hc hg hid, h.seen hc hdrivers]

end Circuit.Twins

/-- A pass over a circuit that is not valid returns it as it was. -/
theorem Evaluator.delayed_of_not_valid (hc : ¬ c.Valid) (e : Evaluator) (now : UInt64) :
    (e.delayed c now).circuit = c := by
  refine e.circuit_of_problems c (.delayed now) fun hproblems => hc ?_
  have hs : (e.evaluate c (.delayed now)).succeeded = true := by
    rw [Evaluation.succeeded, hproblems, List.isEmpty_nil]
  exact valid_of_succeeded hs

/-- **One pass.** A gate comes back the same from both circuits if it was the same in both, and so
    were the gates wired to it. -/
theorem Circuit.Twins.delayed (h : c.Twins U c') (hsub : V ⊆ U)
    (hdrivers : ∀ id ∈ V, ∀ b, c.Wired b id → b ∈ U) (e : Evaluator) (now : UInt64) :
    (e.delayed c now).circuit.Twins V (e.delayed c' now).circuit := by
  by_cases hc : c.Valid
  · have hc' : c'.Valid := h.valid hc
    rw [Evaluator.delayed_of_valid hc, Evaluator.delayed_of_valid hc']
    refine ⟨h.writeBack (shape_delayed _) (shape_delayed _), fun g hg hid => ?_⟩
    rw [Evaluator.finish,
      gates_writeBack (has_delayed hc (e.shape_assemble c) (has_startState hc))] at hg
    obtain ⟨g₀, hg₀, rfl⟩ := List.mem_map.mp hg
    have hid₀ : g₀.id ∈ V := hid
    rw [Evaluator.finish,
      gates_writeBack (has_delayed hc' (e.shape_assemble c') (has_startState hc')),
      ← h.reaction hc hg₀ (hsub hid₀) (hdrivers g₀.id hid₀)]
    exact List.mem_map_of_mem (h.same g₀ hg₀ (hsub hid₀))
  · have hc' : ¬ c'.Valid := fun hc' => hc (h.symm.valid hc')
    rw [Evaluator.delayed_of_not_valid hc, Evaluator.delayed_of_not_valid hc']
    exact h.mono hsub

/-! ## 4. Several passes -/

namespace Evaluator

theorem after_cons_delayed (e : Evaluator) (c : Circuit Definition) (now : UInt64)
    (times : List UInt64) : e.after c ((now :: times).map .delayed) =
      e.after (e.delayed c now).circuit (times.map .delayed) := by
  rw [List.map_cons, after_cons, evaluate]

/-- A pass leaves identifiers and the ends of wires alone. -/
theorem ids_delayed (e : Evaluator) (c : Circuit Definition) (now : UInt64) :
    (e.delayed c now).circuit.gates.map (·.id) = c.gates.map (·.id) ∧
      (e.delayed c now).circuit.wires.map Wire.ends = c.wires.map Wire.ends := by
  rw [delayed]
  cases c.netlist e.deepest with
  | error problems => exact ⟨rfl, rfl⟩
  | ok net => exact ⟨ids_writeBack .., ends_writeBack ..⟩

theorem ids_after_delayed (e : Evaluator) (c : Circuit Definition) (times : List UInt64) :
    (e.after c (times.map .delayed)).gates.map (·.id) = c.gates.map (·.id) := by
  induction times generalizing c with
  | nil => rfl
  | cons now times ih => rw [after_cons_delayed, ih, (e.ids_delayed c now).1]

theorem wired_delayed {e : Evaluator} {now : UInt64} {a b : GateId}
    (h : (e.delayed c now).circuit.Wired a b) : c.Wired a b := by
  obtain ⟨w, hw, rfl, rfl⟩ := h
  have hmem := List.mem_map_of_mem (f := Wire.ends) hw
  rw [(e.ids_delayed c now).2, List.mem_map] at hmem
  obtain ⟨w', hw', he⟩ := hmem
  exact ⟨w', hw', congrArg (·.2.1.gate) he, congrArg (·.2.2.gate) he⟩

/-- **Each pass takes one wire.** -/
theorem twins_after {base : Circuit Definition} {a : GateId} {k : Nat} (e : Evaluator)
    (times : List UInt64) (hwired : ∀ b d, c.Wired b d → base.Wired b d)
    (h : c.Twins {id | ¬ base.Within a k id} c') :
    (e.after c (times.map .delayed)).Twins {id | ¬ base.Within a (k + times.length) id}
      (e.after c' (times.map .delayed)) := by
  induction times generalizing c c' k with
  | nil => exact h
  | cons now times ih =>
    rw [after_cons_delayed, after_cons_delayed, List.length_cons, Nat.add_comm times.length,
      ← Nat.add_assoc]
    refine ih (fun b d hbd => hwired b d (wired_delayed hbd)) (h.delayed ?_ ?_ e now)
    · exact fun id hid hnear => hid hnear.succ
    · exact fun id hid b hb hnear => hid (.step hnear (hwired b id hb))

end Evaluator

/-! ## 5. A change at one input -/

theorem map_updateFirst {α β : Type} {p : α → Bool} {f : α → α} {m : α → β} {l : List α}
    (h : ∀ x ∈ l, p x = true → m (f x) = m x) : (Circuit.updateFirst p f l).map m = l.map m := by
  induction l with
  | nil => rfl
  | cons x l ih =>
    rw [Circuit.updateFirst]
    split
    next hx => rw [List.map_cons, h x List.mem_cons_self hx, List.map_cons]
    next => rw [List.map_cons, ih fun y hy => h y (List.mem_cons_of_mem x hy), List.map_cons]

theorem mem_updateFirst {α : Type} {p : α → Bool} {f : α → α} {l : List α} {x : α} (hx : x ∈ l)
    (hp : p x = false) : x ∈ Circuit.updateFirst p f l := by
  induction l with
  | nil => cases hx
  | cons y l ih =>
    rw [Circuit.updateFirst]
    split <;> rcases List.mem_cons.mp hx with rfl | hx <;> simp_all

/-- **A signal that is set** leaves the build of the circuit alone, and all other gates. -/
theorem Circuit.twins_setInput (hc : c.Valid) {a : Gate Definition} (ha : a ∈ c.gates)
    (hk : a.kind = .input) (value : Bool) :
    (c.setInput a.id value).2 = true ∧
      c.Twins {id | ¬ c.Within a.id 0 id} (c.setInput a.id value).1 := by
  have hset : c.setInput a.id value =
      (⟨updateFirst (·.id = a.id) (fun g => { g with outputs := value :: g.outputs.drop 1 }) c.gates,
        c.wires⟩, true) := by
    rw [setInput, gate?_eq_some hc.gateIds ha]
    exact if_pos hk
  rw [hset]
  refine ⟨rfl, ⟨map_updateFirst fun g hg hid => ?_, rfl⟩, fun g hg hid => ?_⟩
  · -- the gate that is changed is the input gate
    obtain rfl : g = a := List.inj_on_of_nodup_map hc.gateIds hg ha (of_decide_eq_true hid)
    rw [← Gate.supply_of_input hk 0 value, Gate.outline_supply]
  · refine mem_updateFirst hg (decide_eq_false fun he => hid ?_)
    rw [he]
    exact .start 0

/-- **A change goes one wire per pass.** Set the signal of an input gate of a valid circuit, and give
    the circuit with and without the change the same delayed passes. A gate to which no path leads
    from the input gate, of at most as many wires as there are passes, is in the end the same in
    both. -/
theorem Evaluator.spread_of_change (hcheck : c.check = []) {a : Gate Definition} (ha : a ∈ c.gates)
    (hk : a.kind = .input) (value : Bool) (e : Evaluator) (times : List UInt64)
    {g : Gate Definition} (hg : g ∈ c.gates) (hfar : ¬ c.Within a.id times.length g.id) :
    (c.setInput a.id value).2 = true ∧
      ∃ r, (e.after c (times.map .delayed)).gate? g.id = some r ∧
        (e.after (c.setInput a.id value).1 (times.map .delayed)).gate? g.id = some r := by
  have hc := Circuit.check_eq_nil_iff.mp hcheck
  obtain ⟨hset, htwins⟩ := Circuit.twins_setInput hc ha hk value
  have hafter := e.twins_after times (fun _ _ => id) htwins
  have hids := e.ids_after_delayed c times
  have hids' := e.ids_after_delayed (c.setInput a.id value).1 times
  -- the gate in the end, without the change
  obtain ⟨r, hr, hid⟩ : ∃ r ∈ (e.after c (times.map .delayed)).gates, r.id = g.id := by
    have hmem := List.mem_map_of_mem (f := (·.id)) hg
    rwa [← hids, List.mem_map] at hmem
  have hr' : r ∈ (e.after (c.setInput a.id value).1 (times.map .delayed)).gates := by
    refine hafter.same r hr ?_
    rw [Nat.zero_add, hid]
    exact hfar
  refine ⟨hset, r, ?_, ?_⟩
  · rw [← hid]
    exact Circuit.gate?_eq_some (hids ▸ hc.gateIds) hr
  · rw [← hid]
    exact Circuit.gate?_eq_some (hids' ▸ (htwins.valid hc).gateIds) hr'

/-- One pass after a latch is set, what shows it is as it would have been. -/
theorem Evaluator.spread_of_change_latch :
    ¬ (Circuit.latch false false).Within "S" 1 "Q" ∧
      ∃ r, (Evaluator.after {} (Circuit.latch false false) [.delayed 0]).gate? "Q" = some r ∧
        (Evaluator.after {} ((Circuit.latch false false).setInput "S" true).1
          [.delayed 0]).gate? "Q" = some r := by
  have hfar : ¬ (Circuit.latch false false).Within "S" 1 "Q" := by
    intro hnear
    rcases hnear.eq_or with heq | ⟨j, d, hj, hd, w, hw, hsource, hsink⟩
    · exact absurd heq (by decide)
    · obtain rfl : j = 0 := by omega
      rcases hd.eq_or with rfl | ⟨_, _, h, -⟩
      · exact absurd ⟨hsource, hsink⟩ ((by decide : ∀ w ∈ (Circuit.latch false false).wires,
          ¬ (w.source.gate = "S" ∧ w.sink.gate = "Q")) w hw)
      · cases h
  have hinput : Gate.input "S" false ∈ (Circuit.latch false false).gates :=
    List.mem_of_getElem? (i := 0) rfl
  have houtput : Gate.new "Q" .output ∈ (Circuit.latch false false).gates :=
    List.mem_of_getElem? (i := 3) rfl
  exact ⟨hfar, (spread_of_change rfl hinput rfl true {} [0] houtput hfar).2⟩

end LogicSim
