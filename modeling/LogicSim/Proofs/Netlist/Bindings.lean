import LogicSim.Proofs.Evaluation.Reseeding
import LogicSim.Proofs.Netlist.Loading
import LogicSim.Proofs.Netlist.Quiet

/-!
# Signals put into a netlist

The signals at the inputs of a custom gate are put into the netlist of its circuit, each at the place
where its input pin is bound, and then passes go over the netlist.

* `InputBinding.write_write`, `InputBinding.write_comm` -- of two signals at one place the later one
  counts, and signals at different places do not matter to each other;
* `InputBinding.Carries` -- a place that carries a signal keeps it in every pass, if no wire ends
  there;
* `Netlist.delayed_write_driven`, `Netlist.immediate_write_driven` -- where a wire ends, a signal that
  is put in is lost.
-/

namespace LogicSim

variable {ε : Type} {run : ε → Reaction} {instant : Instant} {net net' : Netlist ε}

/-! ## 1. Signals put in at a place -/

namespace Netlist

theorem updateNode_updateNode_self (net : Netlist ε) (i : Nat) (f g : Node ε → Node ε) :
    (net.updateNode i f).updateNode i g = net.updateNode i (g ∘ f) :=
  congrArg (Netlist.mk · net.connections) (List.modify_modify_eq ..)

theorem updateNode_comm (net : Netlist ε) {i j : Nat} (hij : i ≠ j) (f g : Node ε → Node ε) :
    (net.updateNode i f).updateNode j g = (net.updateNode j g).updateNode i f :=
  congrArg (Netlist.mk · net.connections) (List.modify_modify_ne _ _ _ hij)

end Netlist

namespace InputBinding

variable {b b' : InputBinding} {pairs : List (InputBinding × Bool)} {v w : Bool}

/-- The node of a place. -/
def node : InputBinding → Nat
  | .gate i => i
  | .pin i _ => i

/-- What putting a signal in makes of the node. -/
def writeNode (value : Bool) : InputBinding → Node ε → Node ε
  | .gate _, n => n.hold value
  | .pin _ k, n => { n with inputs := n.inputs.set k value }

theorem write_eq (b : InputBinding) (v : Bool) (net : Netlist ε) :
    b.write v net = net.updateNode b.node (b.writeNode v) := by
  cases b <;> rfl

@[simp] theorem connections_write (b : InputBinding) (v : Bool) (net : Netlist ε) :
    (b.write v net).connections = net.connections := by
  cases b <;> rfl

/-- **Of two signals at the same place the later one counts.** -/
theorem write_write (b : InputBinding) (v w : Bool) (net : Netlist ε) :
    b.write v (b.write w net) = b.write v net := by
  rw [write_eq, write_eq, write_eq, Netlist.updateNode_updateNode_self]
  refine congrArg (net.updateNode b.node) (funext fun n => ?_)
  cases b with
  | gate i => simp only [Function.comp, writeNode, Node.hold, List.set_set]
  | pin i k => simp only [Function.comp, writeNode, List.set_set]

/-- **Signals at different places do not matter to each other.** -/
theorem write_comm (h : b ≠ b') (v w : Bool) (net : Netlist ε) :
    b.write v (b'.write w net) = b'.write w (b.write v net) := by
  rw [write_eq, write_eq, write_eq, write_eq]
  by_cases hnode : b'.node = b.node
  · rw [hnode, Netlist.updateNode_updateNode_self, Netlist.updateNode_updateNode_self]
    refine congrArg (net.updateNode b.node) (funext fun n => ?_)
    cases b with
    | gate i =>
      cases b' with
      | gate j => exact absurd (congrArg gate hnode.symm) h
      | pin j l => rfl
    | pin i k =>
      cases b' with
      | gate j => rfl
      | pin j l =>
        have hkl : k ≠ l := by
          rintro rfl
          exact h (congrArg (pin · k) hnode.symm)
        simp only [Function.comp, writeNode, List.set_comm _ _ hkl]
  · exact Netlist.updateNode_comm net hnode ..

/-- **A signal at a place that is written later does not count.** -/
theorem writeAll_write_of_mem (h : b ∈ pairs.map (·.1)) (w : Bool) (net : Netlist ε) :
    writeAll pairs (b.write w net) = writeAll pairs net := by
  induction pairs generalizing net with
  | nil => cases h
  | cons p pairs ih =>
    rw [writeAll, writeAll, List.foldl_cons, List.foldl_cons, ← writeAll, ← writeAll]
    by_cases hp : p.1 = b
    · rw [hp, write_write]
    · rw [write_comm hp, ih ((List.mem_cons.mp h).resolve_left (Ne.symm hp))]

/-- A signal is replaced by one put in at its place after all others. -/
theorem write_writeAll_write (b : InputBinding) (v w : Bool) (net : Netlist ε) :
    b.write v (writeAll pairs (b.write w net)) = b.write v (writeAll pairs net) := by
  induction pairs generalizing net with
  | nil => exact write_write ..
  | cons p pairs ih =>
    rw [writeAll, writeAll, List.foldl_cons, List.foldl_cons, ← writeAll, ← writeAll]
    by_cases hp : p.1 = b
    · rw [hp, write_write]
    · rw [write_comm hp, ih]

/-! ## 2. Places that carry a signal -/

/-- **What is seen of a signal in a netlist**: an input gate shows it, an input pin has recorded
    it. -/
def Shows (value : Bool) (net : Netlist ε) : InputBinding → Prop
  | .gate i => ∃ n, net.nodes[i]? = some n ∧ n.outputs = [value]
  | .pin i k => ∃ n, net.nodes[i]? = some n ∧ n.inputs[k]? = some value

/-- **A place that carries a signal**: an input gate that holds it, or an input pin that has
    recorded it. -/
def Carries (value : Bool) (net : Netlist ε) : InputBinding → Prop
  | .gate i => ∃ n, net.nodes[i]? = some n ∧ n.element = .input value ∧ n.outputs = [value] ∧
      n.forced = none
  | .pin i k => ∃ n, net.nodes[i]? = some n ∧ n.inputs[k]? = some value

theorem Carries.shows (h : b.Carries v net) : b.Shows v net := by
  cases b with
  | gate i => exact h.imp fun n hn => ⟨hn.1, hn.2.2.1⟩
  | pin i k => exact h

/-- Only one signal is seen. -/
theorem Shows.unique (h : b.Shows v net) (h' : b.Shows w net) : v = w := by
  cases b with
  | gate i =>
    obtain ⟨n, hn, hv⟩ := h
    obtain ⟨n', hn', hw⟩ := h'
    obtain rfl : n = n' := Option.some.inj (hn.symm.trans hn')
    exact List.head_eq_of_cons_eq (hv.symm.trans hw)
  | pin i k =>
    obtain ⟨n, hn, hv⟩ := h
    obtain ⟨n', hn', hw⟩ := h'
    obtain rfl : n = n' := Option.some.inj (hn.symm.trans hn')
    exact Option.some.inj (hv.symm.trans hw)

/-- A place where a signal can be put in. -/
def Fits (net : Netlist ε) : InputBinding → Prop
  | .gate i => ∃ n, net.nodes[i]? = some n ∧ n.outputs.length = 1 ∧ n.forced = none
  | .pin i k => ∃ n, net.nodes[i]? = some n ∧ k < n.inputs.length

theorem getElem?_write_of_eq {i : Nat} {n : Node ε} (hi : b.node = i)
    (hn : net.nodes[i]? = some n) (v : Bool) :
    (b.write v net).nodes[i]? = some (b.writeNode v n) := by
  rw [write_eq, Netlist.getElem?_updateNode, if_pos hi, hn, Option.map_some]

theorem getElem?_write_of_ne {i : Nat} (hi : b.node ≠ i) (v : Bool) (net : Netlist ε) :
    (b.write v net).nodes[i]? = net.nodes[i]? := by
  rw [write_eq, Netlist.getElem?_updateNode, if_neg hi]

/-- Signals take no place away. -/
theorem Fits.write (h : b.Fits net) (b' : InputBinding) (w : Bool) : b.Fits (b'.write w net) := by
  have hwrite : ∀ {i : Nat} {n : Node ε}, net.nodes[i]? = some n →
      ∃ n', (b'.write w net).nodes[i]? = some n' ∧ n'.outputs.length = n.outputs.length ∧
        n'.inputs.length = n.inputs.length ∧ n'.forced = n.forced := by
    intro i n hn
    by_cases hi : b'.node = i
    · refine ⟨_, getElem?_write_of_eq hi hn w, ?_⟩
      cases b' with
      | gate j => exact ⟨List.length_set .., rfl, rfl⟩
      | pin j k => exact ⟨rfl, List.length_set .., rfl⟩
    · exact ⟨n, (getElem?_write_of_ne hi w net).trans hn, rfl, rfl, rfl⟩
  cases b with
  | gate i =>
    obtain ⟨n, hn, houtputs, hforced⟩ := h
    obtain ⟨n', hn', houtputs', -, hforced'⟩ := hwrite hn
    exact ⟨n', hn', houtputs'.trans houtputs, hforced'.trans hforced⟩
  | pin i k =>
    obtain ⟨n, hn, hk⟩ := h
    obtain ⟨n', hn', -, hinputs, -⟩ := hwrite hn
    exact ⟨n', hn', hinputs ▸ hk⟩

/-- **A signal that is put in is carried.** -/
theorem Fits.carries_write (h : b.Fits net) (v : Bool) : b.Carries v (b.write v net) := by
  cases b with
  | gate i =>
    obtain ⟨n, hn, houtputs, hforced⟩ := h
    obtain ⟨a, ha⟩ := List.length_eq_one_iff.mp houtputs
    have hset : n.outputs.set 0 v = [v] := by rw [ha]; rfl
    exact ⟨_, getElem?_write_of_eq rfl hn v, rfl, hset, hforced⟩
  | pin i k =>
    obtain ⟨n, hn, hk⟩ := h
    exact ⟨_, getElem?_write_of_eq rfl hn v, List.getElem?_set_self hk⟩

/-- A signal at another place does not change this. -/
theorem Carries.write (h : b.Carries v net) (hne : b ≠ b') (w : Bool) :
    b.Carries v (b'.write w net) := by
  by_cases hnode : b'.node = b.node
  · cases b with
    | gate i =>
      obtain ⟨n, hn, helement, houtputs, hforced⟩ := h
      cases b' with
      | gate j => exact absurd (congrArg gate hnode.symm) hne
      | pin j l =>
        exact ⟨_, getElem?_write_of_eq hnode hn w, helement, houtputs, hforced⟩
    | pin i k =>
      obtain ⟨n, hn, hk⟩ := h
      refine ⟨_, getElem?_write_of_eq hnode hn w, ?_⟩
      cases b' with
      | gate j => exact hk
      | pin j l =>
        have hlk : l ≠ k := by
          rintro rfl
          exact hne (congrArg (pin · l) hnode.symm)
        exact (List.getElem?_set_ne hlk).trans hk
  · have hsame := getElem?_write_of_ne hnode w net
    cases b with
    | gate i | pin i k =>
      obtain ⟨n, hn, hrest⟩ := h
      exact ⟨n, hsame.trans hn, hrest⟩

theorem Carries.writeAll (h : b.Carries v net) (hfree : b ∉ pairs.map (·.1)) :
    b.Carries v (writeAll pairs net) := by
  induction pairs generalizing net with
  | nil => exact h
  | cons p pairs ih =>
    rw [List.map_cons, List.mem_cons, not_or] at hfree
    exact ih (h.write hfree.1 p.2) hfree.2

/-- **Each of several signals at different places is carried.** -/
theorem carries_writeAll (hnodup : (pairs.map (·.1)).Nodup) (hmem : (b, v) ∈ pairs)
    (hfits : b.Fits net) : b.Carries v (writeAll pairs net) := by
  induction pairs generalizing net with
  | nil => cases hmem
  | cons p pairs ih =>
    rw [List.map_cons, List.nodup_cons] at hnodup
    rcases List.mem_cons.mp hmem with rfl | hmem
    · exact (hfits.carries_write v).writeAll hnodup.1
    · exact ih hnodup.2 hmem (hfits.write p.1 p.2)

/-! ## 3. Passes over places that carry a signal -/

/-- A place where a wire ends. -/
def Driven (net : Netlist ε) : InputBinding → Prop
  | .gate _ => False
  | .pin i k => ∃ c ∈ net.connections, c.sink = i ∧ c.sinkPin = k

/-- Being driven is a matter of the connections. -/
theorem driven_of_connections (h : net.connections = net'.connections) (hb : b.Driven net) :
    b.Driven net' := by
  cases b with
  | gate i => exact hb
  | pin i k =>
    rw [Driven, ← h]
    exact hb

/-- **A node that reacts goes on carrying a signal**, unless a wire brings it another one. -/
theorem Carries.react (h : b.Carries v net) (hfree : ¬ b.Driven net)
    {read : Nat → Nat → Bool}
    (hnode : net'.nodes[b.node]? = net.reactAt run instant b.node read) : b.Carries v net' := by
  cases b with
  | gate i =>
    obtain ⟨n, hn, helement, houtputs, hforced⟩ := h
    have heval : n.element.evaluate run instant (net.gather i read) =
        .ok (.input v, ⟨[v], []⟩) := by rw [helement]; rfl
    rw [Netlist.reactAt, node, hn, Option.map_some, Node.react_of_ok hforced heval,
      houtputs] at hnode
    exact ⟨_, hnode, rfl, rfl, hforced⟩
  | pin i k =>
    obtain ⟨n, hn, hk⟩ := h
    rw [Netlist.reactAt, node, hn, Option.map_some] at hnode
    refine ⟨_, hnode, ?_⟩
    rw [Node.inputs_react, Netlist.gather, hn, ← hk]
    refine Netlist.getElem?_overwrite_of_free fun c hc hpin => ?_
    obtain ⟨hc, hsink⟩ := (Netlist.mem_drivers (List.getElem?_eq_some_iff.mp hn).1).mp hc
    exact hfree ⟨c, hc, hsink, hpin⟩

theorem Carries.delayed (h : b.Carries v net) (hfree : ¬ b.Driven net) :
    b.Carries v (net.delayed run instant).netlist :=
  h.react hfree (Netlist.getElem?_delayed ..)

theorem Carries.visit {schedule : Schedule} {s : Sweep ε} (h : b.Carries v s.netlist)
    (hfree : ¬ b.Driven s.netlist) (before : Netlist ε) (j : Nat) :
    b.Carries v (Netlist.visit run schedule instant before s j).netlist := by
  by_cases hj : j = b.node
  · subst hj
    exact h.react hfree Netlist.getElem?_visit_self
  · have hsame := Netlist.getElem?_visit_of_ne run schedule instant before s hj
    cases b with
    | gate i | pin i k =>
      obtain ⟨n, hn, hrest⟩ := h
      exact ⟨n, hsame.trans hn, hrest⟩

end InputBinding

/-! ## 4. Places where a wire ends -/

/-- What a node has recorded does not matter to its reaction. -/
theorem Node.react_recorded (n : Node ε) (recorded inputs : List Bool) :
    ({ n with inputs := recorded } : Node ε).react run instant inputs =
      n.react run instant inputs := by
  rw [react, react]

namespace Netlist

variable {i k : Nat} {v : Bool} {schedule : Schedule}

/-- What is put in before where a driver ends does not count. -/
theorem overwrite_set_of_driven {read : Nat → Nat → Bool} {drivers : List Connection}
    (h : ∃ c ∈ drivers, c.sinkPin = k) (v : Bool) (signals : List Bool) :
    overwrite (signals.set k v) drivers read = overwrite signals drivers read := by
  induction drivers generalizing signals with
  | nil =>
    obtain ⟨c, hc, -⟩ := h
    cases hc
  | cons d drivers ih =>
    rw [overwrite, overwrite, List.foldl_cons, List.foldl_cons, ← overwrite, ← overwrite]
    by_cases hd : d.sinkPin = k
    · rw [hd, List.set_set]
    · obtain ⟨c, hc, hck⟩ := h
      have hc : c ∈ drivers := (List.mem_cons.mp hc).resolve_left fun he => hd (he ▸ hck)
      rw [List.set_comm _ _ (Ne.symm hd), ih ⟨c, hc, hck⟩]

/-- A netlist with a signal at an input pin. -/
theorem getElem?_write_pin (net : Netlist ε) (i k : Nat) (v : Bool) (j : Nat) :
    ((InputBinding.pin i k).write v net).nodes[j]? = net.nodes[j]?.map fun n =>
      { n with inputs := if i = j then n.inputs.set k v else n.inputs } := by
  rw [InputBinding.write, getElem?_updateNode]
  split
  · rfl
  · exact Option.map_id'.symm

@[simp] theorem outputAt_write_pin (net : Netlist ε) (i k : Nat) (v : Bool) :
    ((InputBinding.pin i k).write v net).outputAt = net.outputAt := by
  funext j pin
  refine outputAt_of_outputs ?_ pin
  rw [getElem?_write_pin, Option.map_map]
  rfl

/-- Nor is the signal read in an immediate pass. -/
theorem readScheduled_write_pin (before now : Netlist ε) (i k : Nat) (v : Bool) (j : Nat) :
    readScheduled schedule before ((InputBinding.pin i k).write v now) j =
        readScheduled schedule before now j ∧
      readScheduled schedule ((InputBinding.pin i k).write v before) now j =
        readScheduled schedule before now j := by
  constructor <;>
    · funext source pin
      rw [readScheduled, readScheduled, outputAt_write_pin]

/-- **A signal put in where a wire ends is not seen.** -/
theorem gather_write_driven (h : (InputBinding.pin i k).Driven net) (v : Bool) (j : Nat)
    (read : Nat → Nat → Bool) :
    ((InputBinding.pin i k).write v net).gather j read = net.gather j read := by
  have hdrivers : ((InputBinding.pin i k).write v net).drivers j = net.drivers j :=
    drivers_congr (List.length_modify ..) rfl
  rw [gather, gather, getElem?_write_pin, hdrivers]
  cases hn : net.nodes[j]? with
  | none => rfl
  | some n =>
    have hj : j < net.nodes.length := (List.getElem?_eq_some_iff.mp hn).1
    rw [Option.map_some]
    dsimp only
    split
    next hij =>
      subst hij
      obtain ⟨c, hc, hsink, hpin⟩ := h
      exact overwrite_set_of_driven ⟨c, (mem_drivers hj).mpr ⟨hc, hsink⟩, hpin⟩ v n.inputs
    next => rfl

/-- **Neither a delayed pass** takes notice of it, -/
theorem delayed_write_driven (h : (InputBinding.pin i k).Driven net) (v : Bool) :
    ((InputBinding.pin i k).write v net).delayed run instant = net.delayed run instant := by
  have hresults : (((InputBinding.pin i k).write v net).nodes.mapIdx fun j n =>
        n.react run instant (((InputBinding.pin i k).write v net).gather j
          ((InputBinding.pin i k).write v net).outputAt)) =
      net.nodes.mapIdx fun j n => n.react run instant (net.gather j net.outputAt) := by
    refine List.ext_getElem? fun j => ?_
    rw [List.getElem?_mapIdx, List.getElem?_mapIdx, getElem?_write_pin, Option.map_map]
    refine congrArg (net.nodes[j]?.map ·) (funext fun n => ?_)
    rw [Function.comp, Node.react_recorded, gather_write_driven h, outputAt_write_pin]
  have houtputs : ((InputBinding.pin i k).write v net).nodes.map (·.outputs) =
      net.nodes.map (·.outputs) := by
    refine List.ext_getElem? fun j => ?_
    rw [List.getElem?_map, List.getElem?_map, getElem?_write_pin, Option.map_map]
    rfl
  have hchanged : ∀ (nodes : List (Node ε)) (results : List (Node ε × List Warning)),
      ((nodes.zip results).any fun p => p.1.outputs != p.2.1.outputs) =
        ((nodes.map (·.outputs)).zip results).any fun p => p.1 != p.2.1.outputs := by
    intro nodes results
    rw [List.zip_map_left, List.any_map]
    rfl
  rw [delayed, delayed, hresults]
  refine congrArg (Sweep.mk _ _) ?_
  exact (hchanged ..).trans (houtputs ▸ (hchanged ..).symm)

/-- nor a visit to the node, which records what the wire carries. -/
theorem visit_write_driven {s : Sweep ε} (h : (InputBinding.pin i k).Driven s.netlist) (v : Bool)
    (before : Netlist ε) :
    visit run schedule instant before
        { s with netlist := (InputBinding.pin i k).write v s.netlist } i =
      visit run schedule instant before s i := by
  rw [visit, visit]
  dsimp only
  rw [getElem?_write_pin]
  cases hn : s.netlist.nodes[i]? with
  | none =>
    have hsame : (InputBinding.pin i k).write v s.netlist = s.netlist := by
      refine congrArg (Netlist.mk · s.netlist.connections) (List.modify_eq_self ?_)
      exact List.getElem?_eq_none_iff.mp hn
    rw [Option.map_none, hsame]
  | some n =>
    rw [Option.map_some]
    dsimp only
    rw [(readScheduled_write_pin before s.netlist i k v i).1, gather_write_driven h,
      Node.react_recorded, InputBinding.write, updateNode_updateNode_self]
    rfl

/-- A visit to another node leaves the signal where it is. -/
theorem visit_write_driven_of_ne {s : Sweep ε} (h : (InputBinding.pin i k).Driven s.netlist)
    (v : Bool) (before : Netlist ε) {j : Nat} (hij : i ≠ j) :
    visit run schedule instant before
        { s with netlist := (InputBinding.pin i k).write v s.netlist } j =
      { visit run schedule instant before s j with
        netlist := (InputBinding.pin i k).write v
          (visit run schedule instant before s j).netlist } := by
  rw [visit, visit]
  dsimp only
  rw [getElem?_write_pin]
  cases hn : s.netlist.nodes[j]? with
  | none => rfl
  | some n =>
    rw [Option.map_some]
    dsimp only
    rw [(readScheduled_write_pin before s.netlist i k v j).1, gather_write_driven h,
      Node.react_recorded, InputBinding.write, updateNode_comm _ hij]
    rfl

/-- **Nor does an immediate pass** that comes to the node. -/
theorem immediate_write_driven (h : (InputBinding.pin i k).Driven net) (v : Bool)
    (hi : i ∈ schedule.order) :
    ((InputBinding.pin i k).write v net).immediate run schedule instant =
      net.immediate run schedule instant := by
  have hbefore : visit run schedule instant ((InputBinding.pin i k).write v net) =
      visit run schedule instant net := by
    funext s j
    simp only [visit, (readScheduled_write_pin net s.netlist i k v j).2]
  -- the signal is there until the node is visited
  have hfold : ∀ (order : List Nat) (s : Sweep ε), i ∈ order →
      (InputBinding.pin i k).Driven s.netlist →
      order.foldl (visit run schedule instant net)
          { s with netlist := (InputBinding.pin i k).write v s.netlist } =
        order.foldl (visit run schedule instant net) s := by
    intro order
    induction order with
    | nil => exact fun _ hi => absurd hi List.not_mem_nil
    | cons j order ih =>
      intro s hi hs
      rw [List.foldl_cons, List.foldl_cons]
      by_cases hij : i = j
      · rw [← hij, visit_write_driven hs]
      · have hs' : (InputBinding.pin i k).Driven (visit run schedule instant net s j).netlist :=
          InputBinding.driven_of_connections (connections_visit ..).symm hs
        rw [visit_write_driven_of_ne hs v net hij,
          ih _ ((List.mem_cons.mp hi).resolve_left hij) hs']
  rw [immediate, immediate, hbefore]
  exact hfold schedule.order { netlist := net } hi h

/-- **Nor do the passes until a netlist settles**, if there are any. -/
theorem settle_write_driven (h : (InputBinding.pin i k).Driven net) (v : Bool) (limit : Nat) :
    ((InputBinding.pin i k).write v net).settle run instant (limit + 1) =
      net.settle run instant (limit + 1) := by
  have hpass : Settling.pass run instant { netlist := (InputBinding.pin i k).write v net } =
      Settling.pass run instant { netlist := net } := by
    rw [Settling.pass, Settling.pass]
    dsimp only
    rw [delayed_write_driven h]
  rw [settle, settle, Settling.run, Settling.run, hpass]

end Netlist

end LogicSim
