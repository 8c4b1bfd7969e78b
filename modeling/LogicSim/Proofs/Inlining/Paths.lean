import LogicSim.Proofs.Inlining.Basic

/-!
# Loops after inlining

Where a custom gate lies on no loop of wires, inlining it makes no loop and breaks none: every loop
of the new circuit is one of the old circuit or one inside, and the wires that carry the signal of
the pass before are the same.

* `Inlining.Applies.feedback_redirect`, `Inlining.Applies.not_feedback_copy` -- feedback;
* `Inlining.Applies.not_combinationalCycle` -- no combinational cycle arises.
-/

namespace LogicSim.Inlining

open Relation

variable {p : Inlining} {deepest : Nat} {c : Circuit Definition} {x y : Gate Definition}
  {a b : GateId}

/-- The identifiers of the copies. -/
def copyIds (p : Inlining) : List GateId := p.inner.gates.map fun x => p.gateName x.id

theorem mem_copyIds : a ∈ p.copyIds ↔ ∃ x ∈ p.inner.gates, p.gateName x.id = a := List.mem_map

/-- Where a gate was before: a copy was at the gate replaced. -/
def outside (p : Inlining) (id : GateId) : GateId := if id ∈ p.copyIds then p.gate.id else id

theorem outside_copy (hx : x ∈ p.inner.gates) : p.outside (p.gateName x.id) = p.gate.id :=
  if_pos (mem_copyIds.mpr ⟨x, hx, rfl⟩)

theorem outside_of_not (h : a ∉ p.copyIds) : p.outside a = a := if_neg h

/-- Whether a combinational wire of the new circuit has a way back. -/
def OnLoop (p : Inlining) (c : Circuit Definition) (a b : GateId) : Prop :=
  (p.circuit c).Combinational a b ∧ ReflTransGen (p.circuit c).Combinational b a

namespace Applies

/-! ## 1. Inside -/

/-- A gate inside that a wire leads to is not sequential. -/
theorem not_sequential_inner (h : p.Applies deepest c) (hab : p.inner.Wired a b) :
    ¬ p.inner.Sequential b := by
  obtain ⟨w, hw, -, rfl⟩ := hab
  obtain ⟨y, hy, hid, hkind, -⟩ := h.inner_sink hw
  rw [← hid, Circuit.sequential_iff h.inner_valid hy,
    Kind.isSequential_of_plain (h.transparent.kinds y hy)]
  exact hkind

theorem not_feedback_inner (h : p.Applies deepest c) (hab : p.inner.Wired a b) :
    ¬ p.inner.Feedback a b := fun hfb => h.not_sequential_inner hab hfb.1

/-- No loop of wires lies inside. -/
theorem no_loop_inner (h : p.Applies deepest c) : ¬ TransGen p.inner.Wired a a := by
  intro ha
  have hinto : ∀ {b : GateId}, TransGen p.inner.Wired b b → ¬ p.inner.Sequential b := by
    intro b hb
    obtain ⟨m, -, hmb⟩ := TransGen.tail'_iff.mp hb
    exact h.not_sequential_inner hmb
  refine h.transparent.acyclic ⟨a, TransGen.mono (fun u v huv => ?_) a a
    (Dependencies.transGen_on_cycle ha .refl)⟩
  obtain ⟨hwired, hback⟩ := huv
  exact ⟨hwired, hinto (.head' hwired hback), hinto (.tail' hback hwired)⟩

/-! ## 2. Gates -/

theorem not_copy (h : p.Applies deepest c) {g : Gate Definition} (hg : g ∈ c.gates) :
    g.id ∉ p.copyIds := by
  intro hmem
  obtain ⟨x, hx, he⟩ := mem_copyIds.mp hmem
  exact h.freshGates x hx g hg he

theorem outside_gate (h : p.Applies deepest c) {g : Gate Definition} (hg : g ∈ c.gates) :
    p.outside g.id = g.id := outside_of_not (h.not_copy hg)

theorem sequential_kept (h : p.Applies deepest c) (hc : c.Valid) {g : Gate Definition}
    (hg : g ∈ c.gates) (hne : g.id ≠ p.gate.id) :
    (p.circuit c).Sequential g.id ↔ c.Sequential g.id := by
  rw [Circuit.sequential_iff hc hg,
    Circuit.sequential_iff (h.valid_circuit hc) (mem_gates.mpr (.inl ⟨hg, hne⟩))]

/-- Only the copy of an input gate that is not bound is sequential. -/
theorem not_sequential_copy (h : p.Applies deepest c) (hc : c.Valid) (hx : x ∈ p.inner.gates)
    (hkind : x.kind = .input → p.definition.inputOf x.id ≠ none) :
    ¬ (p.circuit c).Sequential (p.gateName x.id) := by
  have hcopy : p.copyGate x ∈ (p.circuit c).gates := mem_gates.mpr (.inr ⟨x, hx, rfl⟩)
  rw [← id_copyGate, Circuit.sequential_iff (h.valid_circuit hc) hcopy]
  cases hk : p.definition.inputOf x.id with
  | some k =>
    rw [copyGate_of_some hk]
    exact Bool.false_ne_true
  | none =>
    rw [copyGate_of_none hk]
    exact fun hseq =>
      hkind ((Kind.isSequential_of_plain (h.transparent.kinds x hx)).mp hseq) hk

/-! ## 3. Paths -/

/-- **Every wire of the new circuit is one of the old circuit or one inside.** -/
theorem wired_cases (h : p.Applies deepest c) (hc : c.Valid) (hab : (p.circuit c).Wired a b) :
    c.Wired (p.outside a) (p.outside b) ∨ ∃ x ∈ p.inner.gates, ∃ y ∈ p.inner.gates,
      p.gateName x.id = a ∧ p.gateName y.id = b ∧ p.inner.Wired x.id y.id := by
  obtain ⟨w, hw, rfl, rfl⟩ := hab
  rcases mem_wires.mp hw with ⟨u, hu, rfl⟩ | ⟨u, hu, rfl⟩
  · left
    refine ⟨u, hu, ?_, ?_⟩
    · rw [source_redirect]
      rcases h.source_cases hc hu with ⟨-, hu'⟩ | ⟨pin, x, hgate, -, hx, horigin, -, hu'⟩
      · obtain ⟨g, hg, hid, -⟩ := hc.source u hu
        rw [hu', ← hid, h.outside_gate hg]
      · rw [hu', gate_copyEnd, horigin, outside_copy hx, hgate]
    · rw [sink_redirect]
      rcases h.sink_cases hc hu with ⟨-, hu'⟩ | ⟨k, x, hgate, -, hx, -, hu'⟩
      · obtain ⟨g, hg, hid, -⟩ := hc.sink u hu
        rw [hu', ← hid, h.outside_gate hg]
      · rw [hu', hgate]
        exact (outside_copy hx).symm
  · right
    obtain ⟨x, hx, hxid, -⟩ := h.inner_valid.source u hu
    obtain ⟨y, hy, hyid, -⟩ := h.inner_sink hu
    exact ⟨x, hx, y, hy, congrArg p.gateName hxid, congrArg p.gateName hyid, u, hu, hxid.symm,
      hyid.symm⟩

/-- Every path of the new circuit leads between the same places of the old one. -/
theorem path_outside (h : p.Applies deepest c) (hc : c.Valid)
    (hab : ReflTransGen (p.circuit c).Wired a b) :
    ReflTransGen c.Wired (p.outside a) (p.outside b) := by
  induction hab with
  | refl => exact .refl
  | tail _ hmb ih =>
    rcases h.wired_cases hc hmb with hwired | ⟨x, hx, y, hy, rfl, rfl, -⟩
    · exact ih.tail hwired
    · rw [outside_copy hx] at ih
      rw [outside_copy hy]
      exact ih

/-- A wire between other gates stays. -/
theorem wired_kept (hab : c.Wired a b) (ha : a ≠ p.gate.id) (hb : b ≠ p.gate.id) :
    (p.circuit c).Wired a b := by
  obtain ⟨w, hw, rfl, rfl⟩ := hab
  refine ⟨p.redirect w, mem_wires.mpr (.inl ⟨w, hw, rfl⟩), ?_, ?_⟩
  · rw [source_redirect, redirectSource, if_neg ha]
  · rw [sink_redirect, redirectSink, if_neg hb]

/-- A wire with a way back does not touch the gate. -/
theorem ne_of_loop (h : p.Applies deepest c) (hab : c.Wired a b) (hba : ReflTransGen c.Wired b a) :
    a ≠ p.gate.id ∧ b ≠ p.gate.id := by
  constructor
  · intro he
    subst he
    exact h.noLoop (.head' hab hba)
  · intro he
    subst he
    exact h.noLoop (.tail' hba hab)

/-- A path with a way back stays. -/
theorem path_kept (h : p.Applies deepest c) (hab : TransGen c.Wired a b)
    (hba : ReflTransGen c.Wired b a) : TransGen (p.circuit c).Wired a b := by
  refine TransGen.mono (fun u v huv => ?_) a b (Dependencies.transGen_on_cycle hab hba)
  obtain ⟨hwired, hback⟩ := huv
  obtain ⟨hu, hv⟩ := h.ne_of_loop hwired hback
  exact wired_kept hwired hu hv

/-! ## 4. Feedback -/

theorem not_feedback_copy (h : p.Applies deepest c) (hc : c.Valid) {u : Wire}
    (hu : u ∈ p.inner.wires) :
    ¬ (p.circuit c).Feedback (p.gateName u.source.gate) (p.gateName u.sink.gate) := by
  obtain ⟨y, hy, hid, hkind, -⟩ := h.inner_sink hu
  intro hfb
  rw [← hid] at hfb
  exact h.not_sequential_copy hc hy (fun he => absurd he hkind) hfb.1

/-- **A wire of the old circuit is feedback in the new circuit exactly if it was.** -/
theorem feedback_redirect (h : p.Applies deepest c) (hc : c.Valid) {w : Wire} (hw : w ∈ c.wires) :
    (p.circuit c).Feedback (p.redirectSource w.source).gate (p.redirectSink w.sink).gate ↔
      c.Feedback w.source.gate w.sink.gate := by
  have hwired : c.Wired w.source.gate w.sink.gate := ⟨w, hw, rfl, rfl⟩
  obtain ⟨g, hg, hgid, -⟩ := hc.source w hw
  obtain ⟨g', hg', hgid', -⟩ := hc.sink w hw
  constructor
  · intro hfb
    obtain ⟨hseq, -, hback⟩ := hfb
    have hback' := h.path_outside hc hback
    rcases h.sink_cases hc hw with ⟨hne, hw'⟩ | ⟨k, x, -, -, hx, hk, hw'⟩
    · rw [hw'] at hseq hback'
      rw [← hgid', h.outside_gate hg'] at hback'
      rcases h.source_cases hc hw with ⟨-, hw''⟩ | ⟨pin, x, hgate, -, hx, horigin, -, hw''⟩
      · rw [hw'', ← hgid, h.outside_gate hg, hgid, hgid'] at hback'
        rw [← hgid', h.sequential_kept hc hg' (hgid' ▸ hne), hgid'] at hseq
        exact ⟨hseq, .single hwired, hback'⟩
      · rw [hw'', gate_copyEnd, horigin, outside_copy hx, hgid', ← hgate] at hback'
        exact absurd hgate (h.ne_of_loop hwired hback').1
    · rw [hw'] at hseq
      refine absurd hseq (h.not_sequential_copy hc hx fun _ => ?_)
      rw [hk]
      exact Option.some_ne_none k
  · intro hfb
    obtain ⟨hseq, -, hback⟩ := hfb
    obtain ⟨hsource, hsink⟩ := h.ne_of_loop hwired hback
    rw [redirectSource, if_neg hsource, redirectSink, if_neg hsink]
    refine ⟨?_, .single (wired_kept hwired hsource hsink), ?_⟩
    · rw [← hgid', h.sequential_kept hc hg' (hgid' ▸ hsink), hgid']
      exact hseq
    · rcases reflTransGen_iff_eq_or_transGen.mp hback with he | hpath
      · rw [he]
      · exact (h.path_kept hpath (.single hwired)).to_reflTransGen

/-! ## 5. Combinational cycles -/

/-- A wire with a way back is one between other gates, or one inside. -/
theorem loop_cases (h : p.Applies deepest c) (hc : c.Valid) (hab : (p.circuit c).Wired a b)
    (hba : ReflTransGen (p.circuit c).Wired b a) :
    (a ∉ p.copyIds ∧ b ∉ p.copyIds ∧ c.Wired a b) ∨ ∃ x ∈ p.inner.gates, ∃ y ∈ p.inner.gates,
      p.gateName x.id = a ∧ p.gateName y.id = b ∧ p.inner.Wired x.id y.id := by
  rcases h.wired_cases hc hab with hwired | hinner
  · left
    obtain ⟨ha, hb⟩ := h.ne_of_loop hwired (h.path_outside hc hba)
    have hout : ∀ {v : GateId}, p.outside v ≠ p.gate.id → v ∉ p.copyIds :=
      fun hne hv => hne (if_pos hv)
    rw [outside_of_not (hout ha), outside_of_not (hout hb)] at hwired
    exact ⟨hout ha, hout hb, hwired⟩
  · exact .inr hinner

theorem onLoop_cases (h : p.Applies deepest c) (hc : c.Valid) (hab : p.OnLoop c a b) :
    (a ∉ p.copyIds ∧ b ∉ p.copyIds ∧ c.Combinational a b) ∨ ∃ x ∈ p.inner.gates,
      ∃ y ∈ p.inner.gates, p.gateName x.id = a ∧ p.gateName y.id = b ∧ p.inner.Wired x.id y.id := by
  obtain ⟨⟨hwired, hna, hnb⟩, hback⟩ := hab
  have hback' := ReflTransGen.mono (fun _ _ huv => huv.1) _ _ hback
  refine (h.loop_cases hc hwired hback').imp_left ?_
  intro hkept
  obtain ⟨ha, hb, hab⟩ := hkept
  obtain ⟨hane, hbne⟩ := h.ne_of_loop hab <| by
    have := h.path_outside hc hback'
    rwa [outside_of_not ha, outside_of_not hb] at this
  obtain ⟨w, hw, rfl, rfl⟩ := id hab
  obtain ⟨g, hg, hgid, -⟩ := hc.source w hw
  obtain ⟨g', hg', hgid', -⟩ := hc.sink w hw
  rw [← hgid, h.sequential_kept hc hg (hgid ▸ hane), hgid] at hna
  rw [← hgid', h.sequential_kept hc hg' (hgid' ▸ hbne), hgid'] at hnb
  exact ⟨ha, hb, hab, hna, hnb⟩

/-- A loop that begins outside stays outside. -/
theorem loop_outside (h : p.Applies deepest c) (hc : c.Valid) (hab : TransGen (p.OnLoop c) a b)
    (ha : a ∉ p.copyIds) : b ∉ p.copyIds ∧ TransGen c.Combinational a b := by
  have hstep : ∀ {u v : GateId}, p.OnLoop c u v → u ∉ p.copyIds →
      v ∉ p.copyIds ∧ c.Combinational u v := by
    intro u v huv hu
    rcases h.onLoop_cases hc huv with ⟨-, hv, hcomb⟩ | ⟨x, hx, y, -, hxu, -, -⟩
    · exact ⟨hv, hcomb⟩
    · exact absurd (mem_copyIds.mpr ⟨x, hx, hxu⟩) hu
  induction hab with
  | single hab =>
    obtain ⟨hb, hcomb⟩ := hstep hab ha
    exact ⟨hb, .single hcomb⟩
  | tail _ hmb ih =>
    obtain ⟨hm, hpath⟩ := ih
    obtain ⟨hb, hcomb⟩ := hstep hmb hm
    exact ⟨hb, hpath.tail hcomb⟩

/-- A loop that begins inside stays inside. -/
theorem loop_inside (h : p.Applies deepest c) (hc : c.Valid) (hab : TransGen (p.OnLoop c) a b)
    (hx : x ∈ p.inner.gates) (ha : p.gateName x.id = a) :
    ∃ y ∈ p.inner.gates, p.gateName y.id = b ∧ TransGen p.inner.Wired x.id y.id := by
  have hstep : ∀ {x : Gate Definition} {v : GateId}, x ∈ p.inner.gates →
      p.OnLoop c (p.gateName x.id) v →
      ∃ y ∈ p.inner.gates, p.gateName y.id = v ∧ p.inner.Wired x.id y.id := by
    intro x v hx hxv
    rcases h.onLoop_cases hc hxv with ⟨hnot, -, -⟩ | ⟨x', hx', y, hy, hxid, hyv, hwired⟩
    · exact absurd (mem_copyIds.mpr ⟨x, hx, rfl⟩) hnot
    · obtain rfl : x' = x := h.gateName_inj hx' hx hxid
      exact ⟨y, hy, hyv, hwired⟩
  subst ha
  induction hab with
  | single hab =>
    obtain ⟨y, hy, hyb, hwired⟩ := hstep hx hab
    exact ⟨y, hy, hyb, .single hwired⟩
  | tail _ hmb ih =>
    obtain ⟨m, hm, rfl, hpath⟩ := ih
    obtain ⟨y, hy, hyb, hwired⟩ := hstep hm hmb
    exact ⟨y, hy, hyb, hpath.tail hwired⟩

/-- **No combinational cycle arises.** -/
theorem not_combinationalCycle (h : p.Applies deepest c) (hc : c.Valid)
    (hcycle : ¬ c.CombinationalCycle) : ¬ (p.circuit c).CombinationalCycle := by
  intro hloops
  obtain ⟨id, hid⟩ := hloops
  have hloop : TransGen (p.OnLoop c) id id := Dependencies.transGen_on_cycle hid .refl
  by_cases hcopy : id ∈ p.copyIds
  · obtain ⟨x, hx, hxid⟩ := mem_copyIds.mp hcopy
    obtain ⟨y, hy, hyid, hpath⟩ := h.loop_inside hc hloop hx hxid
    obtain rfl : x = y := h.gateName_inj hx hy (hxid.trans hyid.symm)
    exact h.no_loop_inner hpath
  · exact hcycle ⟨id, (h.loop_outside hc hloop hcopy).2⟩

end Applies

end LogicSim.Inlining
