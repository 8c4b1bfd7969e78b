import LogicSim.Proofs.Netlist.Bindings
import LogicSim.Proofs.Netlist.Mapping
import LogicSim.Proofs.Nesting.Supply

/-!
# Inputs that take effect

An input of a custom gate takes effect if its signal is still where it was put in when the circuit
inside has been evaluated. Nothing forbids to bind two input pins to the same place, or an input pin
to an input that a wire drives, and then a signal is lost; in all other cases none is
(`Definition.takesInputs_iff`).
-/

namespace LogicSim

variable {ε : Type} {run : ε → Reaction} {instant : Instant}

namespace SubCircuit

variable {sub : SubCircuit ε} {net : Netlist ε} {b : InputBinding} {v w : Bool}

/-- **All inputs take effect**: at the end of every evaluation of the circuit inside, each signal is
    seen where it was put in. -/
def TakesInputs (sub : SubCircuit ε) (run : ε → Reaction) (instant : Instant) : Prop :=
  ∀ values net warnings, values.length = sub.inputs.length →
    sub.simulate run instant values = .ok (net, warnings) →
    List.Forall₂ (fun b value => InputBinding.Shows value net b) sub.inputs values

/-- **Inputs at different places, none of which has a wire.** -/
structure Direct (sub : SubCircuit ε) : Prop where
  distinct : sub.inputs.Nodup
  undriven : ∀ b ∈ sub.inputs, ¬ b.Driven sub.template

/-- What the inputs and the order of a circuit inside rely on. -/
structure Linked (sub : SubCircuit ε) : Prop where
  fits : ∀ b ∈ sub.inputs, b.Fits sub.template
  order : ∀ schedule, sub.schedule = some schedule →
    ∀ c ∈ sub.template.connections, c.sink ∈ schedule.order

/-- The passes of an evaluation, when the signals have been put in. -/
def passes (sub : SubCircuit ε) (run : ε → Reaction) (instant : Instant) (net : Netlist ε) :
    Except Fault (Netlist ε × List Warning) :=
  match sub.schedule with
  | some schedule =>
    let sweep := net.immediate run schedule instant
    .ok (sweep.netlist, sweep.warnings)
  | none =>
    let s := net.settle run instant instant.settleLimit
    if s.settled then .ok (s.netlist, s.warnings)
    else .error (.custom sub.name (unsettled instant.settleLimit))

theorem simulate_eq (sub : SubCircuit ε) (values : List Bool) :
    sub.simulate run instant values = sub.passes run instant (sub.load values) := rfl

/-! ## 1. Signals that are kept -/

/-- **A signal that a wire does not replace is carried to the end.** -/
theorem carries_passes {after : Netlist ε} {warnings : List Warning}
    (h : sub.passes run instant net = .ok (after, warnings)) (hb : b.Carries v net)
    (hfree : ¬ b.Driven net) : b.Carries v after := by
  have hdriven : ∀ {now : Netlist ε}, now.connections = net.connections → ¬ b.Driven now :=
    fun hsame => mt (InputBinding.driven_of_connections hsame) hfree
  rw [passes] at h
  cases hs : sub.schedule with
  | some schedule =>
    rw [hs] at h
    obtain ⟨rfl, -⟩ := Prod.ext_iff.mp (Except.ok.inj h)
    refine (Netlist.immediate_keeps (P := fun now => now.connections = net.connections ∧
      b.Carries v now) (fun s j hkeeps => ?_) ⟨rfl, hb⟩).2
    exact ⟨(Netlist.connections_visit ..).trans hkeeps.1,
      hkeeps.2.visit (hdriven hkeeps.1) net j⟩
  | none =>
    rw [hs] at h
    dsimp only at h
    split at h
    · obtain ⟨rfl, -⟩ := Prod.ext_iff.mp (Except.ok.inj h)
      refine (Settling.run_keeps (P := fun now => now.connections = net.connections ∧
        b.Carries v now) (fun now hkeeps => ?_) _ (s := { netlist := net }) ⟨rfl, hb⟩).2
      exact ⟨hkeeps.1, hkeeps.2.delayed (hdriven hkeeps.1)⟩
    · cases h

/-- **If the inputs are direct, they all take effect.** -/
theorem Direct.takesInputs (h : sub.Direct) (hlinked : sub.Linked) :
    sub.TakesInputs run instant := by
  intro values net warnings hlength hsimulate
  refine List.forall₂_iff_zip.mpr ⟨hlength.symm, fun {b v} hmem => ?_⟩
  have hb : b ∈ sub.inputs := (List.of_mem_zip hmem).1
  have hplaces : (sub.inputs.zip values).map (·.1) = sub.inputs :=
    List.map_fst_zip (Nat.le_of_eq hlength.symm)
  have hloaded : b.Carries v (sub.load values) := by
    rw [load_eq]
    exact InputBinding.carries_writeAll (hplaces.symm ▸ h.distinct) hmem (hlinked.fits b hb)
  refine (carries_passes hsimulate hloaded ?_).shows
  exact mt (InputBinding.driven_of_connections InputBinding.connections_writeAll)
    (h.undriven b hb)

/-! ## 2. Signals that are lost -/

/-- **A signal that is put in where a wire ends makes no difference.** -/
theorem passes_write_driven (hlinked : sub.Linked) (hb : b.Driven net)
    (hconnections : net.connections = sub.template.connections) (v : Bool) :
    sub.passes run instant (b.write v net) = sub.passes run instant net := by
  cases b with
  | gate i => exact hb.elim
  | pin i k =>
    rw [passes, passes]
    cases hs : sub.schedule with
    | some schedule =>
      have hi : i ∈ schedule.order := by
        obtain ⟨c, hc, hsink, -⟩ := hb
        exact hsink ▸ hlinked.order schedule hs c (hconnections ▸ hc)
      dsimp only
      rw [Netlist.immediate_write_driven hb v hi]
    | none =>
      cases hlimit : instant.settleLimit with
      | zero => rfl
      | succ limit =>
        dsimp only
        rw [Netlist.settle_write_driven hb v limit]

/-- An input the signal of which is lost: another one is bound to the same place, or a wire ends
    there. -/
theorem exists_lost (h : ¬ sub.Direct) :
    ∃ pre b post, sub.inputs = pre ++ b :: post ∧ (b ∈ post ∨ b.Driven sub.template) := by
  by_cases hdistinct : sub.inputs.Nodup
  · have hdriven : ∃ b ∈ sub.inputs, b.Driven sub.template := by
      by_contra hnone
      exact h ⟨hdistinct, fun b hb hdriven => hnone ⟨b, hb, hdriven⟩⟩
    obtain ⟨b, hb, hdriven⟩ := hdriven
    obtain ⟨pre, post, hsplit⟩ := List.append_of_mem hb
    exact ⟨pre, b, post, hsplit, .inr hdriven⟩
  · obtain ⟨b, hb⟩ := List.exists_duplicate_iff_not_nodup.mpr hdistinct
    obtain ⟨l, l', hsplit, hl, hl'⟩ := List.cons_sublist_iff.mp (List.duplicate_iff_sublist.mp hb)
    obtain ⟨pre, rest, rfl⟩ := List.append_of_mem hl
    refine ⟨pre, b, rest ++ l', by rw [hsplit, List.append_assoc]; rfl, .inl ?_⟩
    exact List.mem_append_right rest (List.singleton_sublist.mp hl')

section Lost

variable {pre post : List InputBinding} {earlier later : List Bool}

/-- The signals before, at and after an input. -/
theorem load_split (hinputs : sub.inputs = pre ++ b :: post) (hlength : earlier.length = pre.length)
    (v : Bool) : sub.load (earlier ++ v :: later) =
      InputBinding.writeAll (post.zip later)
        (b.write v (InputBinding.writeAll (pre.zip earlier) sub.template)) := by
  rw [load_eq, hinputs, List.zip_append hlength.symm, InputBinding.writeAll, List.foldl_append,
    List.zip_cons_cons, List.foldl_cons, ← InputBinding.writeAll, ← InputBinding.writeAll]

/-- **The signal of an input that is lost makes no difference.** -/
theorem simulate_of_lost (hlinked : sub.Linked) (hinputs : sub.inputs = pre ++ b :: post)
    (hlost : b ∈ post ∨ b.Driven sub.template) (hlength : earlier.length = pre.length)
    (hlength' : later.length = post.length) (v w : Bool) :
    sub.simulate run instant (earlier ++ v :: later) =
      sub.simulate run instant (earlier ++ w :: later) := by
  rw [simulate_eq, simulate_eq, load_split hinputs hlength, load_split hinputs hlength]
  rcases hlost with hlater | hdriven
  · have hmem : b ∈ (post.zip later).map (·.1) := by
      rwa [List.map_fst_zip (Nat.le_of_eq hlength'.symm)]
    rw [InputBinding.writeAll_write_of_mem hmem, InputBinding.writeAll_write_of_mem hmem]
  · have herase : ∀ value, sub.passes run instant (InputBinding.writeAll (post.zip later)
          (b.write value (InputBinding.writeAll (pre.zip earlier) sub.template))) =
        sub.passes run instant (b.write false (InputBinding.writeAll (post.zip later)
          (InputBinding.writeAll (pre.zip earlier) sub.template))) := by
      intro value
      rw [← InputBinding.write_writeAll_write b false value]
      exact (passes_write_driven hlinked (InputBinding.driven_of_connections (by simp) hdriven)
        (by simp) _).symm
    rw [herase, herase]

/-- The signals of a list of inputs, at one of the inputs. -/
theorem exists_split {values : List Bool} (hlength : values.length = (pre ++ b :: post).length) :
    ∃ earlier v later, values = earlier ++ v :: later ∧ earlier.length = pre.length ∧
      later.length = post.length := by
  rw [List.length_append, List.length_cons] at hlength
  have hrest : (values.drop pre.length).length = post.length + 1 := by
    rw [List.length_drop]
    omega
  obtain ⟨v, later, hdrop⟩ := List.exists_cons_of_length_eq_add_one hrest
  rw [hdrop, List.length_cons] at hrest
  refine ⟨values.take pre.length, v, later, ?_, ?_, Nat.succ.inj hrest⟩
  · rw [← hdrop, List.take_append_drop]
  · rw [List.length_take]
    omega

/-- **If an input is lost, not all inputs take effect**, unless there is no evaluation at all. -/
theorem not_takesInputs (hlinked : sub.Linked) (h : ¬ sub.Direct) {values : List Bool}
    (hlength : values.length = sub.inputs.length) {result : Netlist ε × List Warning}
    (hsimulate : sub.simulate run instant values = .ok result) : ¬ sub.TakesInputs run instant := by
  intro htakes
  obtain ⟨pre, b, post, hinputs, hlost⟩ := exists_lost h
  obtain ⟨earlier, v, later, rfl, hearlier, hlater⟩ := exists_split (hinputs ▸ hlength)
  -- the evaluation is the same for both signals, but only one of them is seen
  have hshows : ∀ w, b.Shows w result.1 := by
    intro w
    rw [simulate_of_lost hlinked hinputs hlost hearlier hlater v w] at hsimulate
    have hall := htakes (earlier ++ w :: later) result.1 result.2
      (by rw [← hlength, List.length_append, List.length_append]; rfl) hsimulate
    refine (List.forall₂_iff_zip.mp hall).2 ?_
    rw [hinputs, List.zip_append hearlier.symm]
    exact List.mem_append_right _ List.mem_cons_self
  cases (hshows true).unique (hshows false)

end Lost

end SubCircuit

/-! ## 3. Definitions -/

namespace Definition

variable {d : Definition} {inner : Circuit Definition} {sub : SubCircuit ε}
  {compile : Definition → Except String ε}

/-- A place that an input pin is bound to is there. -/
theorem fits_of_bindInput {p : Pin} {b : InputBinding}
    (h : d.bindInput (Netlist.assemble compile inner) p = .ok b) :
    b.Fits (Netlist.assemble compile inner) := by
  obtain ⟨⟨i, n⟩, hbound, h⟩ := exists_of_bind h
  obtain ⟨x, hx, -, rfl⟩ := boundNode_eq_ok hbound
  have hnode : (Netlist.assemble compile inner).nodes[i]? = some (.ofGate compile x) :=
    Netlist.getElem?_assemble hx
  dsimp only at h
  split at h
  next value he =>
    obtain rfl := Except.ok.inj h
    refine ⟨_, hnode, ?_, rfl⟩
    rw [Node.element_ofGate] at he
    rw [Node.ofGate, he]
    rfl
  next =>
    split at h
    next hlt =>
      obtain rfl := Except.ok.inj h
      exact ⟨_, hnode, hlt⟩
    next => cases h

/-- **The circuit of a definition is linked.** -/
theorem linked_of_linkCircuit (hvalid : inner.Valid)
    (hlink : d.linkCircuit (Netlist.assemble compile inner) = .ok sub) : sub.Linked := by
  obtain ⟨htemplate, hschedule, hinputs, -⟩ := linkCircuit_eq_ok hlink
  have hwell : (Netlist.assemble compile inner).WellFormed := Netlist.wellFormed_assemble hvalid
  refine ⟨fun b hb => ?_, fun schedule hs c hc => ?_⟩
  · obtain ⟨p, -, hbind⟩ := exists_of_mem_mapM hinputs hb
    rw [htemplate]
    exact fits_of_bindInput hbind
  · rw [htemplate] at hc
    rw [hs] at hschedule
    cases hd : (Netlist.assemble compile inner).dependencies.schedule with
    | error cycle => rw [hd] at hschedule; cases hschedule
    | ok schedule' =>
      rw [hd] at hschedule
      obtain rfl : schedule = schedule' := Option.some.inj hschedule
      obtain ⟨n, hn, -⟩ := hwell.sink c hc
      have horder : schedule.dependencies = _ ∧ Dependencies.IsOrder _ schedule.order :=
        Dependencies.isOrder_of_schedule (fun v w => Netlist.lt_of_mem_dependencies hwell) hd
      rw [horder.2.mem, Netlist.size_dependencies]
      exact (List.getElem?_eq_some_iff.mp hn).1

end Definition

/-- A custom gate is evaluated with success if it has as many signals as there are inputs, and the
    circuit inside is. -/
theorem SubCircuit.exists_evaluate_iff {sub : SubCircuit ε} {values : List Bool} :
    (∃ answer, sub.evaluate run instant values = .ok answer) ↔
      values.length = sub.inputs.length ∧
        ∃ result, sub.simulate run instant values = .ok result := by
  rw [evaluate, checkArity]
  by_cases hlength : values.length = sub.inputs.length
  · rw [if_pos hlength]
    constructor
    · rintro ⟨answer, h⟩
      obtain ⟨-, -, h⟩ := exists_of_bind h
      obtain ⟨result, hsimulate, -⟩ := exists_of_bind h
      exact ⟨hlength, result, hsimulate⟩
    · rintro ⟨-, result, hsimulate⟩
      rw [hsimulate]
      exact ⟨_, rfl⟩
  · rw [if_neg hlength]
    constructor
    · rintro ⟨answer, h⟩
      cases h
    · rintro ⟨h, -⟩
      exact absurd h hlength

/-- **When all inputs of a custom gate take effect.** Each input pin is bound to an input gate of the
circuit inside, or to an input pin of another gate; and all inputs take effect exactly if they are
bound to different places where no wire ends, or if the circuit is never evaluated with success. -/
theorem Definition.takesInputs_iff {d : Definition} {deepest levels : Nat}
    {sub : SubCircuit Expansion} (hcompile : d.compile deepest levels = .ok (.circuit sub))
    (instant : Instant) :
    (∃ inner, d.body.circuit = some inner ∧
      List.Forall₂ (Pin.Binds inner) d.inputs sub.inputs) ∧
    (sub.TakesInputs Expansion.react instant ↔ sub.Direct ∨
      ∀ values answer, Expansion.react (.circuit sub) instant values ≠ .ok answer) := by
  obtain ⟨inner, hcircuit⟩ : ∃ inner, d.body.circuit = some inner := by
    cases hcircuit : d.body.circuit with
    | some inner => exact ⟨inner, rfl⟩
    | none =>
      obtain ⟨-, t, -, -, ht⟩ := exists_table hcompile hcircuit
      cases ht
  obtain ⟨levels', sub', -, hsub, hvalid, hlink⟩ := compile_eq_ok hcompile hcircuit
  obtain rfl := Expansion.circuit.inj hsub
  have hlinked : sub.Linked := linked_of_linkCircuit hvalid hlink
  have hbinds : List.Forall₂ (Pin.Binds inner) d.inputs sub.inputs :=
    (forall₂_of_mapM_ok (linkCircuit_eq_ok hlink).2.2.1).imp fun _ _ h => binds_of_bindInput h
  refine ⟨⟨inner, hcircuit, hbinds⟩, fun htakes => ?_, ?_⟩
  · by_contra h
    obtain ⟨hdirect, hsome⟩ := not_or.mp h
    push Not at hsome
    obtain ⟨values, answer, hanswer⟩ := hsome
    rw [Expansion.react_circuit] at hanswer
    obtain ⟨hlength, result, hresult⟩ := SubCircuit.exists_evaluate_iff.mp ⟨answer, hanswer⟩
    exact SubCircuit.not_takesInputs hlinked hdirect hlength hresult htakes
  · rintro (hdirect | hnever)
    · exact hdirect.takesInputs hlinked
    · intro values net warnings hlength hsimulate
      obtain ⟨answer, hanswer⟩ := SubCircuit.exists_evaluate_iff.mpr ⟨hlength, _, hsimulate⟩
      exact absurd ((Expansion.react_circuit sub).symm ▸ hanswer) (hnever values answer)

/-- A latch as a custom gate, its input pins bound to different input gates. -/
def Definition.boxedLatch : Definition :=
  .ofCircuit "latch" [.bound "S" "S", .bound "R" "R"] [.bound "Q" "Q"] (Circuit.latch false false)

theorem Definition.takesInputs_boxedLatch :
    ∃ sub, boxedLatch.compile 16 16 = .ok (.circuit sub) ∧ sub.inputs = [.gate 0, .gate 1] ∧
      sub.TakesInputs Expansion.react ⟨0, 50⟩ := by
  obtain ⟨sub, hsub, hinputs⟩ : ∃ sub, boxedLatch.compile 16 16 = .ok (.circuit sub) ∧
      sub.inputs = [.gate 0, .gate 1] := ⟨_, rfl, rfl⟩
  refine ⟨sub, hsub, hinputs, (takesInputs_iff hsub ⟨0, 50⟩).2.mpr (.inl ⟨?_, fun b hb => ?_⟩)⟩
  · rw [hinputs]
    decide
  · rw [hinputs] at hb
    rcases List.mem_pair.mp hb with rfl | rfl <;> exact id

/-- A definition the input pin of which is bound where a wire ends, and the output pin is read from
    the same place. -/
def Definition.overridden : Definition :=
  .ofCircuit "overridden" [.boundTo "A" "N" 0] [.boundTo "Y" "N" 0]
    (Circuit.connectAll { gates := [.input "X" false, .new "N" .not] } [("X", 0, "N", 0)])

/-- **An input that is lost**: the circuit inside a custom gate is evaluated with success, but the
input pin that the signal was put in at shows what the wire carries. -/
theorem Definition.not_takesInputs_overridden :
    ∃ sub net, Definition.overridden.compile 16 16 = .ok (.circuit sub) ∧
      sub.inputs = [.pin 1 0] ∧ sub.simulate Expansion.react ⟨0, 50⟩ [true] = .ok (net, []) ∧
      (InputBinding.pin 1 0).Shows false net ∧ ¬ sub.TakesInputs Expansion.react ⟨0, 50⟩ ∧
      Expansion.react (.circuit sub) ⟨0, 50⟩ [true] = .ok ⟨[false], []⟩ := by
  have hshown : ∀ {sub : SubCircuit Expansion} {net : Netlist Expansion},
      sub.inputs = [.pin 1 0] → sub.simulate Expansion.react ⟨0, 50⟩ [true] = .ok (net, []) →
      (InputBinding.pin 1 0).Shows false net → ¬ sub.TakesInputs Expansion.react ⟨0, 50⟩ := by
    intro sub net hinputs hsimulate hshows htakes
    have hall := htakes [true] net [] (by rw [hinputs]; rfl) hsimulate
    rw [hinputs, List.forall₂_cons] at hall
    cases hshows.unique hall.1
  refine ⟨_, _, rfl, rfl, rfl, ⟨_, rfl, rfl⟩, hshown rfl rfl ⟨_, rfl, rfl⟩, rfl⟩

end LogicSim
