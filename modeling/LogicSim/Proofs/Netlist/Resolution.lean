import LogicSim.Circuit.Samples
import LogicSim.Proofs.Netlist.Shape

/-!
# An immediate pass resolves its netlist

An immediate pass changes a netlist in place, node by node. What it arrives at is described here
without an order: `Netlist.Resolves` relates a netlist before and after a pass by what each node
sees (`Netlist.Sees`) and what it makes of it (`Node.Follows`).

* `Netlist.resolves_iff_react` -- the equations as a fixpoint of `Node.react`;
* `Netlist.resolves_immediate` -- a pass in an order of the dependencies solves them;
* `Netlist.Resolves.unique` -- nothing else does;
* `Netlist.resolve_eq` -- the solution is found by recursion over the drivers.
-/

namespace LogicSim

open Dependencies

variable {ε : Type} {run : ε → Reaction} {instant : Instant}

/-! ## 1. What a node sees -/

namespace Netlist

/-- **What a node sees when outputs are read by `read`**: a driven pin shows the output of its
    driver, and any other pin keeps its stored signal. -/
structure Sees (net : Netlist ε) (node : Nat) (stored : List Bool) (read : Nat → Nat → Bool)
    (inputs : List Bool) : Prop where
  length : inputs.length = stored.length
  driven : ∀ k ∈ net.connections, k.sink = node →
    inputs[k.sinkPin]? = some (read k.source k.sourcePin)
  free : ∀ pin, (∀ k ∈ net.connections, k.sink = node → k.sinkPin ≠ pin) →
    inputs[pin]? = stored[pin]?

/-- A position that no driver ends at stays as it is. -/
theorem getElem?_overwrite_of_free {read : Nat → Nat → Bool} {pin : Nat} {drivers : List Connection}
    {signals : List Bool} (h : ∀ k ∈ drivers, k.sinkPin ≠ pin) :
    (overwrite signals drivers read)[pin]? = signals[pin]? := by
  induction drivers generalizing signals with
  | nil => rfl
  | cons k drivers ih =>
    rw [overwrite, List.foldl_cons, ← overwrite, ih fun l hl => h l (List.mem_cons_of_mem k hl),
      List.getElem?_set_ne (h k List.mem_cons_self)]

/-- A position that one driver ends at shows what is read there. -/
theorem getElem?_overwrite_of_mem {read : Nat → Nat → Bool} {k : Connection}
    {drivers : List Connection} {signals : List Bool} (hk : k ∈ drivers)
    (hsingle : ∀ l ∈ drivers, l.sinkPin = k.sinkPin → l = k) (hpin : k.sinkPin < signals.length) :
    (overwrite signals drivers read)[k.sinkPin]? = some (read k.source k.sourcePin) := by
  induction drivers generalizing signals with
  | nil => exact absurd hk List.not_mem_nil
  | cons l drivers ih =>
    rw [overwrite, List.foldl_cons, ← overwrite]
    by_cases hmem : k ∈ drivers
    · exact ih hmem (fun l' hl' => hsingle l' (List.mem_cons_of_mem l hl')) (by simpa using hpin)
    · -- then `k` comes first, and no later driver ends at its pin
      obtain rfl : k = l := (List.mem_cons.mp hk).resolve_right hmem
      rw [getElem?_overwrite_of_free, List.getElem?_set_self hpin]
      intro l' hl' he
      exact hmem (hsingle l' (List.mem_cons_of_mem k hl') he ▸ hl')

theorem driverTable_concat (size : Nat) (numbered : List (Connection × Nat))
    (p : Connection × Nat) : driverTable size (numbered ++ [p]) =
      (driverTable size numbered).modify p.1.sink (· ++ [p.2]) := by
  rw [driverTable, List.foldl_append]
  rfl

theorem size_driverTable (size : Nat) (numbered : List (Connection × Nat)) :
    (driverTable size numbered).size = size := by
  induction numbered using List.reverseRecOn with
  | nil => exact Array.size_replicate
  | append_singleton numbered p ih => rw [driverTable_concat, Array.size_modify, ih]

/-- **The table lists the numbers of the connections into a node.** -/
theorem getD_driverTable {size node : Nat} (hnode : node < size)
    (numbered : List (Connection × Nat)) : (driverTable size numbered).getD node [] =
      (numbered.filter (·.1.sink = node)).map (·.2) := by
  induction numbered using List.reverseRecOn with
  | nil => simp [driverTable, hnode]
  | append_singleton numbered p ih =>
    rw [driverTable_concat, Dependencies.getD_modify, size_driverTable, ih, List.filter_append,
      List.map_append]
    by_cases hp : p.1.sink = node <;> simp [hp, hnode]

/-- The connection that has a number. -/
theorem getElem?_of_mem_filter_zipIdx {connections : List Connection} {node : Nat}
    {p : Connection × Nat} (hp : p ∈ connections.zipIdx.filter (·.1.sink = node)) :
    connections[p.2]? = some p.1 :=
  List.mem_zipIdx_iff_getElem?.mp (List.mem_filter.mp hp).1

/-- **What the table leads to are the connections into the node**, in their order. -/
theorem drivers_eq_filter {net : Netlist ε} {node : Nat} (hnode : node < net.nodes.length) :
    net.drivers node = net.connections.filter (·.sink = node) := by
  have hread : ∀ p ∈ net.connections.zipIdx.filter (·.1.sink = node),
      ((net.connections[·]?) ∘ (·.2)) p = some p.1 := fun p hp => getElem?_of_mem_filter_zipIdx hp
  rw [drivers, getD_driverTable hnode, List.filterMap_map, List.filterMap_congr hread]
  conv_rhs => rw [← List.zipIdx_map_fst 0 net.connections, List.filter_map]
  exact congrFun List.filterMap_eq_map' _

theorem mem_drivers {net : Netlist ε} {node : Nat} (hnode : node < net.nodes.length)
    {k : Connection} : k ∈ net.drivers node ↔ k ∈ net.connections ∧ k.sink = node := by
  rw [drivers_eq_filter hnode, List.mem_filter, decide_eq_true_iff]

/-- **`gather` computes what a node sees.** -/
theorem sees_gather {net : Netlist ε} (h : net.WellFormed) {i : Nat} {n : Node ε}
    (hn : net.nodes[i]? = some n) (read : Nat → Nat → Bool) :
    net.Sees i n.inputs read (net.gather i read) := by
  have hi : i < net.nodes.length := (List.getElem?_eq_some_iff.mp hn).1
  rw [gather, hn]
  refine ⟨length_overwrite _ _ _, fun k hk hsink => ?_, fun pin hfree => ?_⟩
  · refine getElem?_overwrite_of_mem ((mem_drivers hi).mpr ⟨hk, hsink⟩) (fun l hl he => ?_) ?_
    · obtain ⟨hl, hlsink⟩ := (mem_drivers hi).mp hl
      exact h.single l hl k hk (hlsink.trans hsink.symm) he
    · obtain ⟨n', hn', hpin⟩ := h.sink k hk
      rw [hsink, hn] at hn'
      exact Option.some.inj hn' ▸ hpin
  · refine getElem?_overwrite_of_free fun k hk => ?_
    obtain ⟨hk, hsink⟩ := (mem_drivers hi).mp hk
    exact hfree k hk hsink

/-- A node sees only one thing. -/
theorem Sees.unique {net : Netlist ε} {i : Nat} {stored inputs inputs' : List Bool}
    {read : Nat → Nat → Bool} (h : net.Sees i stored read inputs)
    (h' : net.Sees i stored read inputs') : inputs = inputs' := by
  refine List.ext_getElem? fun pin => ?_
  by_cases hfree : ∀ k ∈ net.connections, k.sink = i → k.sinkPin ≠ pin
  · rw [h.free pin hfree, h'.free pin hfree]
  · push Not at hfree
    obtain ⟨k, hk, hsink, rfl⟩ := hfree
    rw [h.driven k hk hsink, h'.driven k hk hsink]

theorem sees_iff {net : Netlist ε} (h : net.WellFormed) {i : Nat} {n : Node ε}
    (hn : net.nodes[i]? = some n) {read : Nat → Nat → Bool} {inputs : List Bool} :
    net.Sees i n.inputs read inputs ↔ inputs = net.gather i read := by
  constructor
  · intro hs
    exact hs.unique (sees_gather h hn read)
  · intro he
    subst he
    exact sees_gather h hn read

theorem overwrite_congr {read read' : Nat → Nat → Bool} {drivers : List Connection}
    (signals : List Bool)
    (h : ∀ k ∈ drivers, read k.source k.sourcePin = read' k.source k.sourcePin) :
    overwrite signals drivers read = overwrite signals drivers read' := by
  induction drivers generalizing signals with
  | nil => rfl
  | cons k drivers ih =>
    rw [overwrite, List.foldl_cons, ← overwrite, h k List.mem_cons_self,
      ih _ fun l hl => h l (List.mem_cons_of_mem k hl)]
    rfl

/-- Only what the drivers of a node show matters to it. -/
theorem gather_congr {net : Netlist ε} {i : Nat} {read read' : Nat → Nat → Bool}
    (h : ∀ k ∈ net.connections, k.sink = i →
      read k.source k.sourcePin = read' k.source k.sourcePin) :
    net.gather i read = net.gather i read' := by
  unfold gather
  split
  next hn =>
    refine overwrite_congr _ fun k hk => ?_
    obtain ⟨hk, hsink⟩ := (mem_drivers (List.getElem?_eq_some_iff.mp hn).1).mp hk
    exact h k hk hsink
  · rfl

/-- Of the netlist only its connections and the stored signals of the node matter. -/
theorem gather_eq {net net' : Netlist ε} (hconnections : net'.connections = net.connections)
    {i : Nat} (hnode : net'.nodes[i]?.map (·.inputs) = net.nodes[i]?.map (·.inputs))
    (read : Nat → Nat → Bool) : net'.gather i read = net.gather i read := by
  have hgather : ∀ net : Netlist ε, net.gather i read =
      ((net.nodes[i]?.map (·.inputs)).map fun stored =>
        overwrite stored (net.connections.filter (·.sink = i)) read).getD [] := by
    intro net
    unfold gather
    split
    next hn =>
      rw [hn, drivers_eq_filter (List.getElem?_eq_some_iff.mp hn).1]
      rfl
    next hn =>
      rw [hn]
      rfl
  rw [hgather, hgather, hnode, hconnections]

end Netlist

/-! ## 2. What a node makes of it -/

/-- **A node after a pass, given what it sees**: a forced node keeps its memory and shows the forced
    signal at its first output; any other node is evaluated once, and is low after a fault. -/
structure Node.Follows (run : ε → Reaction) (instant : Instant) (before after : Node ε) :
    Prop where
  id : after.id = before.id
  forced : after.forced = before.forced
  pins : after.outputs.length = before.outputs.length
  held : ∀ value, before.forced = some value →
    after.element = before.element ∧ (0 < before.outputs.length → after.outputs[0]? = some value) ∧
      ∀ pin, after.outputs[pin + 1]? = before.outputs[pin + 1]?
  evaluated : before.forced = none → ∀ element answer,
    before.element.evaluate run instant after.inputs = .ok (element, answer) →
      after.element = element ∧
        ∀ pin < before.outputs.length, after.outputs[pin]? = some (answer.outputs.getD pin false)
  failed : before.forced = none → ∀ fault,
    before.element.evaluate run instant after.inputs = .error fault →
      after.element = before.element ∧
        ∀ pin < before.outputs.length, after.outputs[pin]? = some false

/-- A list cut or filled to a length, pin by pin. -/
theorem Signal.getElem?_resize {signals : List Bool} {length pin : Nat} (h : pin < length) :
    (resize signals length)[pin]? = some (signals.getD pin false) := by
  rw [resize, List.getD_eq_getElem?_getD]
  by_cases hpin : pin < signals.length
  · rw [List.getElem?_append_left (by rw [List.length_take]; omega), List.getElem?_take_of_lt h,
      List.getElem?_eq_getElem hpin, Option.getD_some]
  · rw [List.getElem?_append_right (by rw [List.length_take]; omega), List.length_take,
      List.getElem?_replicate, if_pos (by omega), List.getElem?_eq_none (by omega),
      Option.getD_none]

theorem forceFirst_pins (value : Bool) (outputs : List Bool) :
    (0 < outputs.length → (forceFirst value outputs)[0]? = some value) ∧
      ∀ pin, (forceFirst value outputs)[pin + 1]? = outputs[pin + 1]? := by
  cases outputs <;> simp [forceFirst]

/-- A reaction follows what the node sees. -/
theorem Node.follows_react (n : Node ε) (inputs : List Bool) :
    n.Follows run instant (n.react run instant inputs).1 := by
  refine ⟨n.id_react .., ?_, n.length_outputs_react .., fun value hf => ?_, fun hf e answer he => ?_,
    fun hf fault he => ?_⟩
  · unfold Node.react
    split
    · rfl
    · split <;> rfl
  · rw [react, hf]
    exact ⟨rfl, forceFirst_pins value n.outputs⟩
  · rw [inputs_react] at he
    rw [react, hf, he]
    exact ⟨rfl, fun pin hpin => Signal.getElem?_resize hpin⟩
  · rw [inputs_react] at he
    rw [react, hf, he]
    refine ⟨rfl, fun pin hpin => ?_⟩
    show (List.replicate n.outputs.length false)[pin]? = some false
    rw [List.getElem?_replicate, if_pos hpin]

/-- Two outcomes that follow from the same signals are one. -/
theorem Node.Follows.unique {n a b : Node ε} (ha : n.Follows run instant a)
    (hb : n.Follows run instant b) (hinputs : a.inputs = b.inputs) : a = b := by
  -- it remains to compare memory and outputs, the latter pin by pin
  suffices h : a.element = b.element ∧
      ∀ pin < n.outputs.length, a.outputs[pin]? = b.outputs[pin]? by
    have houtputs : a.outputs = b.outputs := by
      refine List.ext_getElem? fun pin => ?_
      by_cases hpin : pin < n.outputs.length
      · exact h.2 pin hpin
      · rw [List.getElem?_eq_none (by rw [ha.pins]; omega),
          List.getElem?_eq_none (by rw [hb.pins]; omega)]
    have hid := ha.id.trans hb.id.symm
    have hforced := ha.forced.trans hb.forced.symm
    cases a
    cases b
    simp_all
  cases hf : n.forced with
  | some value =>
    obtain ⟨hea, hfirst, hrest⟩ := ha.held value hf
    obtain ⟨heb, hfirst', hrest'⟩ := hb.held value hf
    refine ⟨hea.trans heb.symm, fun pin hpin => ?_⟩
    cases pin with
    | zero => rw [hfirst hpin, hfirst' hpin]
    | succ pin => rw [hrest, hrest']
  | none =>
    cases he : n.element.evaluate run instant a.inputs with
    | ok result =>
      obtain ⟨element, answer⟩ := result
      obtain ⟨hea, hpins⟩ := ha.evaluated hf element answer he
      obtain ⟨heb, hpins'⟩ := hb.evaluated hf element answer (hinputs ▸ he)
      exact ⟨hea.trans heb.symm, fun pin hpin => (hpins pin hpin).trans (hpins' pin hpin).symm⟩
    | error fault =>
      obtain ⟨hea, hpins⟩ := ha.failed hf fault he
      obtain ⟨heb, hpins'⟩ := hb.failed hf fault (hinputs ▸ he)
      exact ⟨hea.trans heb.symm, fun pin hpin => (hpins pin hpin).trans (hpins' pin hpin).symm⟩

/-- **`Node.react` computes what follows.** -/
theorem Node.follows_iff {n a : Node ε} :
    n.Follows run instant a ↔ a = (n.react run instant a.inputs).1 := by
  constructor
  · intro h
    exact h.unique (n.follows_react a.inputs) (n.inputs_react run instant a.inputs).symm
  · intro h
    rw [h]
    exact n.follows_react a.inputs

/-! ## 3. The equations of a pass -/

namespace Netlist

/-- What a node reads in a pass: along feedback the outputs before it, otherwise those after it. -/
def readResolved (before after : Netlist ε) (sink source pin : Nat) : Bool :=
  if before.dependencies.isFeedback source sink then before.outputAt source pin
  else after.outputAt source pin

/-- **The equations of an immediate pass**: every node sees its drivers, and follows. -/
structure Resolves (run : ε → Reaction) (instant : Instant) (before after : Netlist ε) : Prop where
  connections : after.connections = before.connections
  length : after.nodes.length = before.nodes.length
  node : ∀ i b a, before.nodes[i]? = some b → after.nodes[i]? = some a →
    before.Sees i b.inputs (before.readResolved after i) a.inputs ∧ b.Follows run instant a

/-- A node as a function of the outputs that it reads. -/
def reactAt (run : ε → Reaction) (instant : Instant) (net : Netlist ε) (i : Nat)
    (read : Nat → Nat → Bool) : Option (Node ε) :=
  net.nodes[i]?.map fun n => (n.react run instant (net.gather i read)).1

theorem reactAt_congr {net : Netlist ε} {i : Nat} {read read' : Nat → Nat → Bool}
    (h : ∀ k ∈ net.connections, k.sink = i →
      read k.source k.sourcePin = read' k.source k.sourcePin) :
    net.reactAt run instant i read = net.reactAt run instant i read' := by
  rw [reactAt, reactAt, gather_congr h]

/-- If every node reacts, no node is lost. -/
theorem length_of_reactAt {net after : Netlist ε} {read : Nat → Nat → Nat → Bool}
    (h : ∀ i, after.nodes[i]? = net.reactAt run instant i (read i)) :
    after.nodes.length = net.nodes.length := by
  refine Nat.le_antisymm ?_ ?_
  · rw [← List.getElem?_eq_none_iff, h, reactAt, List.getElem?_eq_none (Nat.le_refl _),
      Option.map_none]
  · have hend := h after.nodes.length
    rw [List.getElem?_eq_none (Nat.le_refl _), reactAt, eq_comm, Option.map_eq_none_iff] at hend
    exact List.getElem?_eq_none_iff.mp hend

/-- **The equations as a fixpoint**: each node is its reaction to what the others are. -/
theorem resolves_iff_react {before after : Netlist ε} (h : before.WellFormed) :
    before.Resolves run instant after ↔ after.connections = before.connections ∧
      ∀ i, after.nodes[i]? = before.reactAt run instant i (before.readResolved after i) := by
  constructor
  · intro hr
    refine ⟨hr.connections, fun i => ?_⟩
    unfold reactAt
    cases hb : before.nodes[i]? with
    | none =>
      rw [List.getElem?_eq_none_iff] at hb
      rw [List.getElem?_eq_none (hr.length ▸ hb), Option.map_none]
    | some b =>
      have hi : i < after.nodes.length := hr.length ▸ (List.getElem?_eq_some_iff.mp hb).1
      have ha := List.getElem?_eq_getElem hi
      obtain ⟨hsees, hfollows⟩ := hr.node i b _ hb ha
      rw [ha, Option.map_some, ← (sees_iff h hb).mp hsees, ← Node.follows_iff.mp hfollows]
  · intro hreact
    obtain ⟨hconnections, hnodes⟩ := hreact
    refine ⟨hconnections, length_of_reactAt hnodes, fun i b a hb ha => ?_⟩
    rw [hnodes, reactAt, hb, Option.map_some, Option.some.injEq] at ha
    subst ha
    rw [Node.inputs_react]
    exact ⟨sees_gather h hb _, b.follows_react _⟩

/-! ## 4. A pass solves the equations -/

theorem outputAt_congr {net net' : Netlist ε} {i : Nat} (h : net'.nodes[i]? = net.nodes[i]?)
    (pin : Nat) : net'.outputAt i pin = net.outputAt i pin := by
  rw [outputAt, outputAt, h]

/-- What a node reads depends on its dependencies only. -/
theorem readResolved_congr {net after after' : Netlist ε} (h : net.WellFormed) {i : Nat}
    (hdeps : ∀ j ∈ net.dependencies.of i, after'.nodes[j]? = after.nodes[j]?) :
    ∀ k ∈ net.connections, k.sink = i →
      net.readResolved after i k.source k.sourcePin =
        net.readResolved after' i k.source k.sourcePin := by
  intro k hk hsink
  rw [readResolved, readResolved]
  split
  · rfl
  · rename_i hfb
    rw [Bool.not_eq_true] at hfb
    exact (outputAt_congr (hdeps _ ((mem_of_dependencies h).mpr ⟨⟨k, hk, rfl, hsink⟩, hfb⟩)) _).symm

/-- A visit evaluates its node. -/
theorem getElem?_visit_self {schedule : Schedule} {before : Netlist ε} {s : Sweep ε} {i : Nat} :
    (visit run schedule instant before s i).netlist.nodes[i]? =
      s.netlist.reactAt run instant i (readScheduled schedule before s.netlist i) := by
  unfold visit reactAt
  split
  next h => rw [h, Option.map_none]
  next n h => simp [h]

/-- A netlist in the course of a pass, when the nodes in `visited` have been visited. -/
structure Visited (run : ε → Reaction) (instant : Instant) (before : Netlist ε) (visited : List Nat)
    (now : Netlist ε) : Prop where
  connections : now.connections = before.connections
  rest : ∀ i ∉ visited, now.nodes[i]? = before.nodes[i]?
  final : ∀ i ∈ visited,
    now.nodes[i]? = before.reactAt run instant i (before.readResolved now i)

/-- A schedule of the netlist reads what is resolved by it. -/
theorem readScheduled_eq {schedule : Schedule} {net : Netlist ε}
    (hd : schedule.dependencies = net.dependencies) (now : Netlist ε) (i : Nat) :
    readScheduled schedule net now i = net.readResolved now i := by
  funext source pin
  rw [readScheduled, readResolved, Schedule.isFeedback, hd]

/-- What a node sees when its turn comes. -/
theorem Visited.gather_next {schedule : Schedule} {net now : Netlist ε} {l : List Nat} {v : Nat}
    (hd : schedule.dependencies = net.dependencies) (hl : Visited run instant net l now)
    (hv : v ∉ l) :
    now.gather v (readScheduled schedule net now v) = net.gather v (net.readResolved now v) := by
  rw [readScheduled_eq hd, gather_eq hl.connections (congrArg _ (hl.rest v hv))]

/-- The step of a pass: the visited nodes are not affected by a node that none of them needs. -/
theorem Visited.visit {schedule : Schedule} {net : Netlist ε} {s : Sweep ε} {l : List Nat} {v : Nat}
    (hd : schedule.dependencies = net.dependencies) (h : net.WellFormed)
    (hl : Visited run instant net l s.netlist) (hv : v ∉ l)
    (hdeps : ∀ i ∈ l ++ [v], ∀ j ∈ net.dependencies.of i, j ∈ l) :
    Visited run instant net (l ++ [v]) (Netlist.visit run schedule instant net s v).netlist := by
  have hframe : ∀ {i}, i ≠ v →
      (Netlist.visit run schedule instant net s v).netlist.nodes[i]? = s.netlist.nodes[i]? :=
    fun hi => getElem?_visit_of_ne run schedule instant net s (Ne.symm hi)
  have hread : ∀ i ∈ l ++ [v],
      net.reactAt run instant i (net.readResolved s.netlist i) =
        net.reactAt run instant i
          (net.readResolved (Netlist.visit run schedule instant net s v).netlist i) := by
    intro i hi
    refine reactAt_congr (readResolved_congr h fun j hj => hframe ?_)
    intro he
    subst he
    exact hv (hdeps i hi j hj)
  refine ⟨(connections_visit ..).trans hl.connections, fun i hi => ?_, fun i hi => ?_⟩
  · rw [List.mem_append, List.mem_singleton, not_or] at hi
    rw [hframe hi.2, hl.rest i hi.1]
  · by_cases hiv : i = v
    · subst hiv
      rw [getElem?_visit_self, ← hread i hi, reactAt, reactAt, hl.rest i hv, hl.gather_next hd hv]
    · have hil : i ∈ l := by
        rcases List.mem_append.mp hi with hil | hi
        · exact hil
        · exact absurd (List.mem_singleton.mp hi) hiv
      rw [hframe hiv, hl.final i hil, hread i hi]

/-- A pass over the first part of an order. -/
theorem visited_foldl {schedule : Schedule} {net : Netlist ε}
    (hd : schedule.dependencies = net.dependencies) (h : net.WellFormed) {order : List Nat}
    (horder : IsOrder net.dependencies order) {l r : List Nat} (hl : order = l ++ r) :
    Visited run instant net l
      (l.foldl (Netlist.visit run schedule instant net) { netlist := net }).netlist := by
  induction l using List.reverseRecOn generalizing r with
  | nil => exact ⟨rfl, fun _ _ => rfl, fun _ hi => absurd hi List.not_mem_nil⟩
  | append_singleton l v ih =>
    rw [List.append_assoc] at hl
    rw [List.foldl_append, List.foldl_cons, List.foldl_nil]
    refine (ih hl).visit hd h ?_ ?_
    · exact fun hv => horder.notMem_behind hl hv List.mem_cons_self
    · intro i hi j hj
      rcases List.mem_append.mp hi with hil | hiv
      · exact horder.closed hl hil hj
      · obtain rfl := List.mem_singleton.mp hiv
        exact horder.after l i r hl j hj

/-- **A pass in an order of the dependencies solves the equations.** -/
theorem resolves_immediate {schedule : Schedule} {net : Netlist ε} (h : net.WellFormed)
    (hd : schedule.dependencies = net.dependencies)
    (horder : IsOrder net.dependencies schedule.order) :
    net.Resolves run instant (net.immediate run schedule instant).netlist := by
  have hpass : Visited run instant net schedule.order
      (net.immediate run schedule instant).netlist :=
    visited_foldl hd h horder (List.append_nil _).symm
  refine (resolves_iff_react h).mpr ⟨hpass.connections, fun i => ?_⟩
  by_cases hi : i ∈ schedule.order
  · exact hpass.final i hi
  · rw [hpass.rest i hi, reactAt]
    rw [horder.mem, size_dependencies, Nat.not_lt] at hi
    rw [List.getElem?_eq_none hi, Option.map_none]

/-! ## 5. The solution is unique -/

/-- **Two solutions of the equations are equal.** -/
theorem Resolves.unique {net after after' : Netlist ε} (h : net.WellFormed) {order : List Nat}
    (horder : IsOrder net.dependencies order) (ha : net.Resolves run instant after)
    (ha' : net.Resolves run instant after') : after = after' := by
  obtain ⟨hconnections, hnodes⟩ := (resolves_iff_react h).mp ha
  obtain ⟨hconnections', hnodes'⟩ := (resolves_iff_react h).mp ha'
  have hprefix : ∀ l r, order = l ++ r → ∀ i ∈ l, after.nodes[i]? = after'.nodes[i]? := by
    intro l
    induction l using List.reverseRecOn with
    | nil => exact fun _ _ i hi => absurd hi List.not_mem_nil
    | append_singleton l v ih =>
      intro r hl i hi
      rw [List.append_assoc] at hl
      rcases List.mem_append.mp hi with hi | hi
      · exact ih _ hl i hi
      · obtain rfl := List.mem_singleton.mp hi
        rw [hnodes, hnodes']
        refine reactAt_congr (readResolved_congr h fun j hj => ?_)
        exact (ih _ hl j (horder.after l i r hl j hj)).symm
  have hall : after.nodes = after'.nodes := by
    refine List.ext_getElem? fun i => ?_
    by_cases hi : i ∈ order
    · exact hprefix order [] (List.append_nil _).symm i hi
    · rw [horder.mem, size_dependencies, Nat.not_lt] at hi
      rw [List.getElem?_eq_none (ha.length ▸ hi), List.getElem?_eq_none (ha'.length ▸ hi)]
  cases after
  cases after'
  simp_all

/-! ## 6. Recursion over the drivers -/

/-- A node after a pass, by recursion over its drivers. A driver along feedback is read as it was
    before the pass. -/
def resolve (run : ε → Reaction) (instant : Instant) (net : Netlist ε) :
    (fuel : Nat) → Nat → Option (Node ε)
  | 0, _ => none
  | fuel + 1, i => net.reactAt run instant i fun source pin =>
      if net.dependencies.isFeedback source i then net.outputAt source pin
      else ((resolve run instant net fuel source).bind (·.outputs[pin]?)).getD false

/-- With as much fuel as there are nodes before it in an order, a node is found. -/
theorem resolve_eq_of_lt {net after : Netlist ε} (h : net.WellFormed) {order : List Nat}
    (horder : IsOrder net.dependencies order) (ha : net.Resolves run instant after) :
    ∀ {fuel : Nat} {l : List Nat} {v : Nat} {r : List Nat}, order = l ++ v :: r → l.length < fuel →
      net.resolve run instant fuel v = after.nodes[v]? := by
  intro fuel
  induction fuel with
  | zero => exact fun _ hlt => absurd hlt (Nat.not_lt_zero _)
  | succ fuel ih =>
    intro l v r hl hlt
    rw [resolve, ((resolves_iff_react h).mp ha).2]
    refine reactAt_congr fun k hk hsink => ?_
    unfold readResolved
    split
    · rfl
    · rename_i hfb
      rw [Bool.not_eq_true] at hfb
      have hmem : k.source ∈ l :=
        horder.after l v r hl _ ((mem_of_dependencies h).mpr ⟨⟨k, hk, rfl, hsink⟩, hfb⟩)
      obtain ⟨l₁, l₂, rfl⟩ := List.append_of_mem hmem
      have hlen : l₁.length < fuel := by
        rw [List.length_append, List.length_cons] at hlt
        omega
      rw [ih (l := l₁) (r := l₂ ++ v :: r) (by rw [hl, List.append_assoc, List.cons_append]) hlen]
      rfl

/-- **Recursion over the drivers finds the solution.** -/
theorem resolve_eq {net after : Netlist ε} (h : net.WellFormed) {order : List Nat}
    (horder : IsOrder net.dependencies order) (ha : net.Resolves run instant after) (i : Nat) :
    net.resolve run instant net.nodes.length i = after.nodes[i]? := by
  by_cases hi : i < net.nodes.length
  · have hmem : i ∈ order := (horder.mem i).mpr (net.size_dependencies.symm ▸ hi)
    have hlength : order.length ≤ net.nodes.length := by
      rw [← List.length_range (n := net.nodes.length)]
      refine (List.subperm_of_subset horder.nodup fun v hv => ?_).length_le
      rw [List.mem_range, ← size_dependencies]
      exact (horder.mem v).mp hv
    obtain ⟨l, r, hsplit⟩ := List.append_of_mem hmem
    refine resolve_eq_of_lt h horder ha hsplit ?_
    rw [hsplit, List.length_append, List.length_cons] at hlength
    omega
  · rw [Nat.not_lt] at hi
    rw [List.getElem?_eq_none (ha.length ▸ hi)]
    cases hfuel : net.nodes.length with
    | zero => rfl
    | succ fuel => rw [resolve, reactAt, List.getElem?_eq_none hi, Option.map_none]

/-! ## 7. Netlists of circuits, some of their nodes forced -/

/-- Forces the first outputs of several nodes, or releases them. -/
def forceAll (net : Netlist ε) (forcings : List (Nat × Option Bool)) : Netlist ε :=
  forcings.foldl (fun net f => net.force f.1 f.2) net

@[simp] theorem shape_forceAll (net : Netlist ε) (forcings : List (Nat × Option Bool)) :
    (net.forceAll forcings).shape = net.shape := by
  unfold forceAll
  induction forcings generalizing net with
  | nil => rfl
  | cons f forcings ih => exact (ih _).trans (net.shape_force f.1 f.2)

/-- **An immediate pass is the recursive resolver.** On a netlist built from a circuit, with any
    nodes forced, the pass arrives at the only solution of its equations, which recursion over the
    drivers finds, whatever order of the dependencies it takes. -/
theorem immediate_eq_resolver {deepest levels : Nat} {c : Circuit Definition}
    {built net : Netlist Expansion} {forcings : List (Nat × Option Bool)} {schedule : Schedule}
    (hbuilt : ofCircuit (Definition.compile deepest levels) c = .ok built)
    (hforced : net = built.forceAll forcings) (hs : net.dependencies.schedule = .ok schedule)
    (instant : Instant) :
    (∀ after, net.Resolves Expansion.react instant after ↔
      after = (net.immediate Expansion.react schedule instant).netlist) ∧
    (∀ i, net.resolve Expansion.react instant net.nodes.length i =
      (net.immediate Expansion.react schedule instant).netlist.nodes[i]?) ∧
    ∀ order, IsOrder net.dependencies order →
      (net.immediate Expansion.react ⟨net.dependencies, order⟩ instant).netlist =
        (net.immediate Expansion.react schedule instant).netlist := by
  obtain ⟨hc, rfl⟩ := valid_of_ofCircuit hbuilt
  have h : net.WellFormed := (wellFormed_assemble hc).of_shape (hforced ▸ shape_forceAll _ forcings)
  obtain ⟨hd, horder⟩ := isOrder_of_schedule (fun v w => lt_of_mem_dependencies h) hs
  have hsolved : net.Resolves Expansion.react instant
      (net.immediate Expansion.react schedule instant).netlist := resolves_immediate h hd horder
  refine ⟨fun after => ⟨fun ha => ha.unique h horder hsolved, fun he => he ▸ hsolved⟩,
    resolve_eq h horder hsolved, fun order ho => ?_⟩
  exact (resolves_immediate h rfl ho).unique h horder hsolved

/-- A flip-flop that toggles, its clock forced high, takes over what its inverter showed before. -/
theorem immediate_toggle :
    ∃ net schedule,
      net = (assemble (Definition.compile 16 16) (Circuit.toggle 1)).forceAll [(0, some true)] ∧
      net.dependencies.schedule = .ok schedule ∧
      net.Resolves Expansion.react ⟨0, 50⟩
        (net.immediate Expansion.react schedule ⟨0, 50⟩).netlist ∧
      (net.immediate Expansion.react schedule ⟨0, 50⟩).netlist.nodes.map (·.outputs) =
        [[true], [false, true], [true], [false]] := by
  refine ⟨_, _, rfl, rfl, ?_, rfl⟩
  have hbuilt : ofCircuit (Definition.compile 16 16) (Circuit.toggle 1) =
      .ok (assemble (Definition.compile 16 16) (Circuit.toggle 1)) := rfl
  exact ((immediate_eq_resolver hbuilt rfl rfl ⟨0, 50⟩).1 _).mpr rfl

end Netlist

end LogicSim
