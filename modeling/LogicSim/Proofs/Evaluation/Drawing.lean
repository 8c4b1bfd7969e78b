import LogicSim.Circuit.Random
import LogicSim.Proofs.Circuit.Plans
import LogicSim.Proofs.Evaluation.Rest

/-!
# Random circuits

Whatever numbers the source of draws gives, a random circuit is made by a plan: its inputs and its
clock, then gates that read what is there, then the output (`Circuit.exists_plan_draw`). It is
therefore valid and without loops, even through flip-flops and latches, so that an immediate
evaluation does not fail (`Circuit.drawn_loopless`). The order in which the gates are kept does not
matter.

Each function that draws has one lemma about what it returns; the state of the source is of no
interest.
-/

namespace LogicSim.Circuit

open Netlist Relation

variable {σ : Type} (source : DrawSource σ) {gates : List (Gate Definition)} {ends : List Joint}

/-! ## 1. Draws -/

/-- A draw is below its bound. -/
theorem below_lt {bound : Nat} (h : 0 < bound) (s : σ) : (source.below bound s).1 < bound :=
  Nat.mod_lt _ h

/-- **A drawn order** is an order of the same elements. -/
theorem perm_shuffle {α : Type} (l : List α) (s : σ) : (source.shuffle l s).1.Perm l := by
  induction l generalizing s with
  | nil => exact .refl []
  | cons a l ih =>
    have hplace : (source.below ((source.shuffle l s).1.length + 1) (source.shuffle l s).2).1 ≤
        (source.shuffle l s).1.length :=
      Nat.le_of_lt_succ (below_lt source (Nat.succ_pos _) _)
    exact (List.perm_insertIdx a _ hplace).trans ((ih s).cons a)

/-! ## 2. Names -/

/-- The letter that the name of a gate begins with. -/
def letter (g : Gate Definition) : Option Char := g.id.toList.head?

/-- The name of a drawn input. -/
def inputName (k : Nat) : GateId := s!"i{k}"

/-- The name of a drawn gate. -/
def gateName (k : Nat) : GateId := s!"g{k}"

theorem letter_inputName (k : Nat) : (inputName k).toList.head? = some 'i' := by
  have hname : inputName k = "i" ++ toString k := rfl
  rw [hname, String.toList_append]
  rfl

theorem letter_gateName (k : Nat) : (gateName k).toList.head? = some 'g' := by
  have hname : gateName k = "g" ++ toString k := rfl
  rw [hname, String.toList_append]
  rfl

/-- A name with a letter of its own is new. -/
theorem notMem_of_letter {id : GateId} (h : ∀ g ∈ gates, letter g ≠ id.toList.head?) :
    id ∉ gates.map (·.id) := by
  intro hid
  obtain ⟨g, hg, rfl⟩ := List.mem_map.mp hid
  exact h g hg rfl

/-! ## 3. Signals -/

/-- The signals that gates show. -/
def signalsOf (gates : List (Gate Definition)) : List DrawnSignal :=
  gates.map fun g => (g.id, g.outputCount)

/-- **A plan that can be drawn on**: it has gates, all of them with outputs. -/
structure Open (gates : List (Gate Definition)) (ends : List Joint) : Prop where
  plan : Plan gates ends
  nonempty : gates ≠ []
  outputs : ∀ g ∈ gates, 0 < g.outputCount

/-- A new gate has the pins of its kind, which are few. -/
theorem pins_new (id : GateId) (k : Kind) : (Gate.new id k).inputCount = k.inputCount ∧
    (Gate.new id k).outputCount = k.outputCount ∧ Narrow (Gate.new id k) := by
  have hfew : k.inputCount ≤ Int32.maxValue.toInt ∧ k.outputCount ≤ Int32.maxValue.toInt := by
    cases k <;> decide
  have hinputs : (Gate.new id k).inputCount = k.inputCount := by cases k <;> rfl
  have houtputs : (Gate.new id k).outputCount = k.outputCount := by cases k <;> rfl
  exact ⟨hinputs, houtputs, hinputs ▸ hfew.1, houtputs ▸ hfew.2⟩

/-- **The signal drawn** is one that is there. -/
theorem exists_signal (h : Open gates ends) (s : σ) : ∃ g ∈ gates,
    (signalsOf gates).getD (source.below (signalsOf gates).length s).1 ("", 0) =
      (g.id, g.outputCount) := by
  have hpos : 0 < (signalsOf gates).length := by
    rw [signalsOf, List.length_map]
    exact List.length_pos_iff.mpr h.nonempty
  have hlt := below_lt source hpos s
  rw [List.getD_eq_getElem?_getD, List.getElem?_eq_getElem hlt, Option.getD_some]
  obtain ⟨g, hg, heq⟩ := List.mem_map.mp (List.getElem_mem hlt)
  exact ⟨g, hg, heq.symm⟩

/-! ## 4. Gates -/

/-- Wires are drawn to some pins, each from an output that is there. -/
theorem drawWires_spec (h : Open gates ends) (id : GateId) (pin count : Nat) (s : σ) :
    (drawWires source (signalsOf gates) id pin count s).1.map (·.2.2) =
        (List.range' pin count).map ((id, ·)) ∧
      ∀ e ∈ (drawWires source (signalsOf gates) id pin count s).1,
        ∃ g ∈ gates, g.id = e.1 ∧ e.2.1 < g.outputCount := by
  induction count generalizing pin s with
  | zero => exact ⟨rfl, fun _ he => absurd he List.not_mem_nil⟩
  | succ count ih =>
    obtain ⟨g, hg, hsignal⟩ := exists_signal source h s
    -- the wire to the first pin, then the others
    have hdraw : ∀ signal,
        (signalsOf gates).getD (source.below (signalsOf gates).length s).1 ("", 0) = signal →
        ∃ s' s'', (drawWires source (signalsOf gates) id pin (count + 1) s).1 =
          (signal.1, (source.below signal.2 s').1, id, pin) ::
            (drawWires source (signalsOf gates) id (pin + 1) count s'').1 := by
      rintro _ rfl
      exact ⟨_, _, rfl⟩
    obtain ⟨s', s'', hdraw⟩ := hdraw _ hsignal
    obtain ⟨hpins, hsource⟩ := ih (pin + 1) s''
    rw [hdraw]
    refine ⟨congrArg ((id, pin) :: ·) hpins, fun e he => ?_⟩
    rcases List.mem_cons.mp he with rfl | he
    · exact ⟨g, hg, rfl, below_lt source (h.outputs g hg) s'⟩
    · exact hsource e he

/-- **A gate can be drawn on** an open plan. -/
theorem Open.add (h : Open gates ends) {id : GateId} (hnew : id ∉ gates.map (·.id)) {k : Kind}
    (hk : 0 < k.outputCount) (s : σ) : Open (gates ++ [.new id k])
      (ends ++ (drawWires source (signalsOf gates) id 0 k.inputCount s).1) := by
  obtain ⟨hinputs, houtputs, hnarrow⟩ := pins_new id k
  obtain ⟨hpins, hsource⟩ := drawWires_spec source h id 0 k.inputCount s
  refine ⟨h.plan.add hnew hnarrow ⟨?_, hsource⟩, by simp, fun g hg => ?_⟩
  · rw [hpins, hinputs, List.range_eq_range']
    rfl
  · rcases List.mem_append.mp hg with hg | hg
    · exact h.outputs g hg
    · rw [List.mem_singleton.mp hg, houtputs]
      exact hk

/-- **The output** shows the last signal of an open plan. -/
theorem Open.show (h : Open gates ends) (hnew : "o" ∉ gates.map (·.id)) :
    ∃ id n, (signalsOf gates).getLast? = some (id, n) ∧
      Plan (gates ++ [.new "o" .output]) (ends ++ [(id, 0, "o", 0)]) := by
  obtain ⟨g, hg⟩ : ∃ g, gates.getLast? = some g := by
    rw [← Option.isSome_iff_exists, List.getLast?_isSome]
    exact h.nonempty
  have hmem : g ∈ gates := List.mem_of_getLast? hg
  refine ⟨g.id, g.outputCount, by rw [signalsOf, List.getLast?_map, hg]; rfl, ?_⟩
  refine h.plan.add hnew (pins_new _ _).2.2 ⟨rfl, fun e he => ?_⟩
  rw [List.mem_singleton.mp he]
  exact ⟨g, hmem, rfl, h.outputs g hmem⟩

/-- Every kind has outputs. -/
def Showing (kinds : List Kind) : Prop := ∀ k ∈ kinds, 0 < k.outputCount

theorem Showing.getD {kinds : List Kind} (h : Showing kinds) (i : Nat) :
    0 < (kinds.getD i .not).outputCount := by
  rw [List.getD_eq_getElem?_getD]
  cases hi : kinds[i]? with
  | none => exact Nat.one_pos
  | some k => exact h k (List.mem_of_getElem? hi)

/-- **The gates drawn** continue an open plan. -/
theorem drawGates_spec {kinds : List Kind} (hkinds : Showing kinds) (i count : Nat)
    (h : Open gates ends) (hfresh : ∀ k, i ≤ k → gateName k ∉ gates.map (·.id)) (s : σ) :
    ∃ more wires, (drawGates source kinds i count (signalsOf gates) s).1 =
        (more, wires, signalsOf (gates ++ more)) ∧
      Open (gates ++ more) (ends ++ wires) ∧ more.length = count ∧
      ∀ g ∈ more, letter g = some 'g' := by
  induction count generalizing i gates ends s with
  | zero =>
    refine ⟨[], [], ?_, ?_, rfl, fun g hg => absurd hg List.not_mem_nil⟩
    · rw [List.append_nil]
      rfl
    · rwa [List.append_nil, List.append_nil]
  | succ count ih =>
    obtain ⟨k, hk⟩ : ∃ k, k = kinds.getD (source.below kinds.length s).1 .not := ⟨_, rfl⟩
    obtain ⟨s', hs'⟩ : ∃ s', s' = (source.below kinds.length s).2 := ⟨_, rfl⟩
    obtain ⟨drawn, hdrawn⟩ : ∃ drawn,
        drawn = drawWires source (signalsOf gates) (gateName i) 0 k.inputCount s' := ⟨_, rfl⟩
    have hopen : Open (gates ++ [.new (gateName i) k]) (ends ++ drawn.1) :=
      hdrawn ▸ h.add source (hfresh i le_rfl) (hk ▸ hkinds.getD _) s'
    have hsignals : signalsOf (gates ++ [.new (gateName i) k]) =
        signalsOf gates ++ [(gateName i, k.outputCount)] := by
      rw [signalsOf, List.map_append, List.map_singleton, (pins_new _ k).2.1]
      rfl
    have hfresh' : ∀ j, i + 1 ≤ j →
        gateName j ∉ (gates ++ [Gate.new (gateName i) k]).map (·.id) := by
      intro j hj
      rw [List.map_append, List.mem_append, not_or]
      refine ⟨hfresh j (Nat.le_of_succ_le hj), fun hmem => ?_⟩
      have hsame : gateName j = gateName i := List.mem_singleton.mp hmem
      exact absurd (numbered_inj hsame) (Nat.ne_of_gt hj)
    obtain ⟨more, wires, hrest, hplan, hlength, hletter⟩ := ih (i + 1) hopen hfresh' drawn.2
    rw [hsignals] at hrest
    rw [List.append_assoc, List.append_assoc] at hplan
    rw [List.append_assoc] at hrest
    refine ⟨_, _, ?_, hplan, by simp [hlength], fun g hg => ?_⟩
    · subst hk hs' hdrawn
      exact congrArg (fun r => (Gate.new (gateName i) _ :: r.1, _ ++ r.2.1, r.2.2)) hrest
    · rcases List.mem_cons.mp hg with rfl | hg
      · exact letter_gateName i
      · exact hletter g hg

/-! ## 5. Inputs -/

/-- **A gate that signals begin at**: it has no inputs, and one output. -/
structure Begins (g : Gate Definition) : Prop where
  inputs : g.inputCount = 0
  outputs : g.outputCount = 1

theorem drawInputs_spec (i count : Nat) (s : σ) :
    (drawInputs source i count s).1.map (·.id) = (List.range' i count).map inputName ∧
      ∀ g ∈ (drawInputs source i count s).1, Begins g := by
  induction count generalizing i s with
  | zero => exact ⟨rfl, fun _ hg => absurd hg List.not_mem_nil⟩
  | succ count ih =>
    obtain ⟨hids, hbegins⟩ := ih (i + 1) (source.below 2 s).2
    refine ⟨congrArg (inputName i :: ·) hids, fun g hg => ?_⟩
    rcases List.mem_cons.mp hg with rfl | hg
    · exact ⟨rfl, rfl⟩
    · exact hbegins g hg

/-- Such gates need no wires, and can be drawn on. -/
theorem open_of_begins (hgates : gates ≠ []) (hids : (gates.map (·.id)).Nodup)
    (h : ∀ g ∈ gates, Begins g) : Open gates [] := by
  refine ⟨?_, hgates, fun g hg => by rw [(h g hg).outputs]; exact Nat.one_pos⟩
  clear hgates
  induction gates using List.reverseRecOn with
  | nil => exact .nil
  | append_singleton gates g ih =>
    rw [List.map_append, List.map_singleton, ← List.concat_eq_append, List.nodup_concat] at hids
    have hg := h g (by simp)
    have hnarrow : Narrow g := ⟨by rw [hg.inputs]; decide, by rw [hg.outputs]; decide⟩
    have hplan := ih hids.2 fun g hg => h g (List.mem_append_left _ hg)
    exact hplan.add hids.1 hnarrow (.of_inputless hg.inputs)

theorem signalsOf_begins (h : ∀ g ∈ gates, Begins g) :
    gates.map (fun g => (g.id, 1)) = signalsOf gates :=
  List.map_congr_left fun g hg => by rw [(h g hg).outputs]

/-- **The inputs and the clock** are such gates, under names of their own. -/
theorem begins_first {count : Nat} (hcount : 0 < count) (clocked : Bool) (s : σ)
    {first : List (Gate Definition)}
    (hfirst : first = (drawInputs source 0 count s).1 ++ if clocked then [drawnClock] else []) :
    first.length = count + (if clocked then 1 else 0) ∧ first ≠ [] ∧ (first.map (·.id)).Nodup ∧
      ∀ g ∈ first, Begins g ∧ (letter g = some 'i' ∨ letter g = some 'c') := by
  obtain ⟨hids, hbegins⟩ := drawInputs_spec source 0 count s
  generalize (drawInputs source 0 count s).1 = inputs at hids hbegins hfirst
  have hinputs : ∀ g ∈ inputs, letter g = some 'i' := by
    intro g hg
    have hid := List.mem_map_of_mem (f := (·.id)) hg
    rw [hids] at hid
    obtain ⟨k, -, hname⟩ := List.mem_map.mp hid
    rw [letter, ← hname, letter_inputName]
  have hnodup : (inputs.map (·.id)).Nodup := by
    rw [hids]
    exact (List.nodup_range').map fun i j hij => numbered_inj hij
  have hlength : inputs.length = count := by
    rw [← List.length_map (·.id), hids, List.length_map, List.length_range']
  have hclock : drawnClock.id ∉ inputs.map (·.id) :=
    notMem_of_letter fun g hg => by rw [hinputs g hg]; decide
  subst hfirst
  refine ⟨?_, ?_, ?_, fun g hg => ?_⟩
  · cases clocked <;> simp [hlength]
  · exact List.append_ne_nil_of_left_ne_nil (List.length_pos_iff.mp (hlength ▸ hcount)) _
  · cases clocked with
    | false => simpa using hnodup
    | true =>
      rw [List.map_append, if_pos rfl, List.map_singleton, ← List.concat_eq_append]
      exact hnodup.concat hclock
  · rcases List.mem_append.mp hg with hg | hg
    · exact ⟨hbegins g hg, .inl (hinputs g hg)⟩
    · cases clocked with
      | false => cases hg
      | true =>
        rw [List.mem_singleton.mp hg]
        exact ⟨⟨rfl, rfl⟩, .inr rfl⟩

/-! ## 6. Circuits -/

/-- **A random circuit is made by a plan**, with its gates in some order. -/
theorem exists_plan_draw {kinds : List Kind} (hkinds : Showing kinds) (clocked : Bool)
    {inputCount : Nat} (hinputs : 0 < inputCount) (gateCount : Nat) (s : σ) :
    ∃ planned ends, Plan planned ends ∧
      planned.length = inputCount + gateCount + 1 + (if clocked then 1 else 0) ∧
      ∃ gates, gates.Perm planned ∧
        (draw source kinds clocked inputCount gateCount s).1 = connectAll { gates } ends := by
  obtain ⟨first, hfirst⟩ : ∃ first, first = (drawInputs source 0 inputCount s).1 ++
      if clocked then [drawnClock] else [] := ⟨_, rfl⟩
  obtain ⟨hlength, hne, hids, hbegins⟩ := begins_first source hinputs clocked s hfirst
  have hopen := open_of_begins hne hids fun g hg => (hbegins g hg).1
  have hsignals := signalsOf_begins fun g hg => (hbegins g hg).1
  have hfresh : ∀ k, 0 ≤ k → gateName k ∉ first.map (·.id) := by
    intro k _
    refine notMem_of_letter fun g hg => ?_
    rw [letter_gateName]
    rcases (hbegins g hg).2 with h | h <;> rw [h] <;> decide
  obtain ⟨s', hs'⟩ : ∃ s', s' = (drawInputs source 0 inputCount s).2 := ⟨_, rfl⟩
  obtain ⟨more, wires, hdraw, hmore, hcount, hletters⟩ :=
    drawGates_spec source hkinds 0 gateCount hopen hfresh s'
  rw [← hsignals] at hdraw
  have hnew : "o" ∉ (first ++ more).map (·.id) := by
    refine notMem_of_letter fun g hg => ?_
    have hletter : letter g = some 'i' ∨ letter g = some 'c' ∨ letter g = some 'g' := by
      rcases List.mem_append.mp hg with hg | hg
      · exact (hbegins g hg).2.imp_right .inl
      · exact .inr (.inr (hletters g hg))
    rcases hletter with h | h | h <;> rw [h] <;> decide
  obtain ⟨id, n, hlast, hplan⟩ := hmore.show hnew
  -- the gates in a drawn order, with the wires drawn and one from the last signal
  have hresult : ∀ r, (drawGates source kinds 0 gateCount (first.map fun g => (g.id, 1)) s').1 = r →
      r.2.2.getLast? = some (id, n) →
      ∃ s'', (draw source kinds clocked inputCount gateCount s).1 =
        connectAll { gates := (source.shuffle (first ++ r.1 ++ [.new "o" .output]) s'').1 }
          (r.2.1 ++ [(id, 0, "o", 0)]) := by
    rintro _ rfl hlast
    subst hs' hfirst
    refine ⟨_, Eq.trans rfl (congrArg (fun last => connectAll _ (_ ++ last)) ?_)⟩
    rw [hlast]
  obtain ⟨s'', hresult⟩ := hresult _ hdraw hlast
  refine ⟨_, _, hplan, ?_, _, perm_shuffle source _ s'', hresult⟩
  simp only [List.length_append, List.length_singleton, hlength, hcount]
  omega

/-- A random circuit; with flip-flops, latches and a clock if `sequential`. -/
def drawn (sequential : Bool) (inputCount gateCount : Nat) (s : σ) : Circuit Definition :=
  (draw source (if sequential then drawnSequentialKinds else drawnKinds) sequential inputCount
    gateCount s).1

/-- That is what comes from a seed. -/
theorem seeded?_eq_drawn (sequential : Bool) {inputCount : Nat} (hinputs : 0 < inputCount)
    (gateCount : Nat) (seed : UInt64) : seeded? sequential inputCount gateCount seed =
      some (drawn seededSource sequential inputCount gateCount seed) :=
  if_neg (Nat.ne_of_gt hinputs)

theorem showing_drawn (sequential : Bool) :
    Showing (if sequential then drawnSequentialKinds else drawnKinds) := by
  cases sequential <;> unfold Showing <;> decide

/-- **Random circuits have no loops.** Whatever is drawn, and in whatever order the gates are kept,
    the circuit is valid, every input pin of its gates has one driver, and no path of wires comes
    back to where it began. So no immediate evaluation fails, and no wire is feedback. -/
theorem drawn_loopless (sequential : Bool) {inputCount : Nat} (hinputs : 0 < inputCount)
    (gateCount : Nat) (s : σ) {c : Circuit Definition}
    (hgates : c.gates.Perm (drawn source sequential inputCount gateCount s).gates)
    (hwires : c.wires = (drawn source sequential inputCount gateCount s).wires) :
    c.check = [] ∧
      c.gates.length = inputCount + gateCount + 1 + (if sequential then 1 else 0) ∧
      (∀ g ∈ c.gates, ∀ pin < g.inputCount, ∃! w, w ∈ c.wires ∧ w.drives g.id pin = true) ∧
      (∀ id, ¬ TransGen c.Wired id id) ∧
      ∀ e : Evaluator, (∀ now, (e.immediate c now).problems = []) ∧
        ∀ k ∈ (e.assemble c).connections,
          (e.assemble c).dependencies.isFeedback k.source k.sink = false := by
  obtain ⟨planned, ends, hplan, hlength, kept, hkept, hdrawn⟩ :=
    exists_plan_draw source (showing_drawn sequential) sequential hinputs gateCount s
  rw [drawn, hdrawn, gates_connectAll] at hgates
  rw [drawn, hdrawn, wires_connectAll] at hwires
  have hc : c = connectAll { gates := c.gates } ends := by
    calc c = ⟨c.gates, ends.mapIdx jointWire⟩ := hwires ▸ rfl
      _ = ⟨(connectAll { gates := c.gates } ends).gates,
            (connectAll { gates := c.gates } ends).wires⟩ := by
        rw [gates_connectAll, wires_connectAll]
  have hperm := hgates.trans hkept
  obtain ⟨hvalid, hdrivers, hloop⟩ := hplan.circuit hperm
  rw [← hc] at hvalid hdrivers hloop
  refine ⟨check_eq_nil_iff.mpr hvalid, hperm.length_eq.trans hlength, hdrivers, hloop, fun e =>
    ⟨fun now => ?_, fun k hk => not_isFeedback_of_loopless hvalid hloop hk⟩⟩
  exact List.isEmpty_iff.mp
    (Evaluator.immediate_solves hvalid (not_combinationalCycle_of_loopless hloop) e now).1

/-- So it is with two inputs, a clock and four gates from a seed, in the opposite order. -/
theorem drawn_loopless_seeded :
    let c := drawn seededSource true 2 4 1
    let c' : Circuit Definition := { c with gates := c.gates.reverse }
    c'.check = [] ∧ c'.gates.length = 8 ∧ ∀ id, ¬ TransGen c'.Wired id id := by
  intro c c'
  have hinputs : 0 < 2 := by decide
  obtain ⟨hcheck, hlength, -, hloop, -⟩ :=
    drawn_loopless seededSource true hinputs 4 1 (c := c') (List.reverse_perm c.gates) rfl
  exact ⟨hcheck, hlength, hloop⟩

end LogicSim.Circuit
