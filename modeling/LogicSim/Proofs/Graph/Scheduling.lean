import LogicSim.Proofs.Graph.Components

/-!
# Feedback and schedules

What `Dependencies.ofEdges` makes of a list of edges between existing nodes:

* `Dependencies.isFeedback_iff` -- feedback leads into a sequential node from a node that it reaches;
* `Dependencies.mem_of` -- the dependencies of a node are the edges into it that are not feedback;
* `Dependencies.isOrder_of_schedule` -- a schedule lists every node once, after its dependencies;
* `Dependencies.schedule_iff` -- there is one exactly when no cycle of edges avoids the sequential
  nodes;
* `Dependencies.order_outcome` -- the two outcomes of scheduling, an order or a cycle written out.
-/

namespace LogicSim.Dependencies

open Relation Search

/-! ## 1. Feedback -/

/-- Reachability along edges. -/
def Reaches (edges : List (Nat × Nat)) : Nat → Nat → Prop := ReflTransGen fun a b => (a, b) ∈ edges

/-- Edges between existing nodes. -/
def InRange (size : Nat) (edges : List (Nat × Nat)) : Prop :=
  ∀ e ∈ edges, e.1 < size ∧ e.2 < size

section OfEdges

variable {sequential : Array Bool} {edges : List (Nat × Nat)}

theorem component_eq_iff (hin : InRange sequential.size edges) {a b : Nat}
    (ha : a < sequential.size) (hb : b < sequential.size) :
    sameComponent (ofEdges sequential edges).component a b = true ↔
      Reaches edges a b ∧ Reaches edges b a := by
  have hmem : ∀ x y, x ∈ (sources sequential.size edges).getD y [] ↔ (x, y) ∈ edges := by
    intro x y
    constructor
    · intro h
      have hy := lt_size_of_mem_getD h
      rw [size_sources] at hy
      exact (mem_sources hy).mp h
    · intro h
      exact (mem_sources (hin _ h).2).mpr h
  have hrel : (fun x y => x ∈ (sources sequential.size edges).getD y []) =
      fun x y => (x, y) ∈ edges := by
    funext x y
    exact propext (hmem x y)
  have hsize := size_sources sequential.size edges
  have hbound : ∀ x y, x ∈ (sources sequential.size edges).getD y [] →
      x < (sources sequential.size edges).size := by
    intro x y hx
    rw [hsize]
    exact (hin _ ((hmem x y).mp hx)).1
  have h := components_eq_iff hbound (hsize.symm ▸ ha) (hsize.symm ▸ hb)
  rw [hrel] at h
  exact decide_eq_true_iff.trans h

/-- **Feedback leads into a sequential node from a node that it reaches.** -/
theorem isFeedback_iff (hin : InRange sequential.size edges) {a b : Nat}
    (ha : a < sequential.size) (hb : b < sequential.size) :
    (ofEdges sequential edges).isFeedback a b = true ↔
      sequential.getD b false = true ∧ Reaches edges a b ∧ Reaches edges b a := by
  rw [isFeedback, Bool.and_eq_true, component_eq_iff hin ha hb]
  rfl

theorem size_ofEdges : (ofEdges sequential edges).size = sequential.size := rfl

/-- **The dependencies of a node are the edges into it that are not feedback.** -/
theorem mem_of (hin : InRange sequential.size edges) {a b : Nat} :
    a ∈ (ofEdges sequential edges).of b ↔
      (a, b) ∈ edges ∧ (ofEdges sequential edges).isFeedback a b = false := by
  have hsize := size_sources sequential.size edges
  have hof : (ofEdges sequential edges).of b =
      ((sources sequential.size edges).getD b []).filter fun a =>
        !((ofEdges sequential edges).isFeedback a b) := by
    simp only [of, ofEdges, isFeedback, Array.getD_eq_getD_getElem?, Array.getElem?_mapIdx]
    cases (sources sequential.size edges)[b]? <;> rfl
  rw [hof, List.mem_filter, Bool.not_eq_true']
  refine and_congr_left fun _ => ?_
  constructor
  · intro h
    have hb := lt_size_of_mem_getD h
    rw [hsize] at hb
    exact (mem_sources hb).mp h
  · intro h
    exact (mem_sources (hin _ h).2).mpr h

theorem lt_of_mem_of (hin : InRange sequential.size edges) {a b : Nat}
    (h : a ∈ (ofEdges sequential edges).of b) : a < sequential.size ∧ b < sequential.size :=
  hin _ ((mem_of hin).mp h).1

end OfEdges

/-! ## 2. Orders -/

/-- **An order lists every node once, after its dependencies.** -/
structure IsOrder (d : Dependencies) (order : List Nat) : Prop where
  nodup : order.Nodup
  mem : ∀ v, v ∈ order ↔ v < d.size
  after : ∀ l v r, order = l ++ v :: r → ∀ w ∈ d.of v, w ∈ l

namespace IsOrder

variable {d : Dependencies} {order l r : List Nat}

/-- A node stands at one place. -/
theorem notMem_behind (h : IsOrder d order) (hsplit : order = l ++ r) {v : Nat} (hv : v ∈ l) :
    v ∉ r := by
  have hnodup := h.nodup
  rw [hsplit, List.nodup_append] at hnodup
  exact fun hmem => hnodup.2.2 v hv v hmem rfl

/-- What comes first needs nothing of what comes later. -/
theorem closed (h : IsOrder d order) (hsplit : order = l ++ r) {v w : Nat} (hv : v ∈ l)
    (hw : w ∈ d.of v) : w ∈ l := by
  obtain ⟨l₁, l₂, rfl⟩ := List.append_of_mem hv
  have hmem : w ∈ l₁ := h.after l₁ v (l₂ ++ r) (by
    rw [hsplit, List.append_assoc, List.cons_append]) w hw
  exact List.mem_append_left _ hmem

end IsOrder

theorem roots_range (n : Nat) : ∀ v < n, v ∈ List.range n := fun _ => List.mem_range.mpr

/-- A search that meets no loop gives an order. -/
theorem isOrder_search {d : Dependencies} (hlt : ∀ v, ∀ w ∈ d.of v, w < d.size)
    (hloop : d.search.loop = none) : IsOrder d d.search.order := by
  have hset : Settled d.of d.size d.search.done := settled_explore (roots_range d.size) hloop
  refine ⟨List.nodup_reverse.mpr (coherent_explore (roots_range d.size) d.of).nodup_done,
    fun v => List.mem_reverse.trans (mem_done_explore (roots_range d.size) d.of v), ?_⟩
  intro l v r hsplit w hw
  have hdone : d.search.done = r.reverse ++ v :: l.reverse := by
    have := congrArg List.reverse hsplit
    rw [Search.order, List.reverse_reverse] at this
    rw [done, this]
    simp
  rw [hdone] at hset
  exact List.mem_reverse.mp (hset.behind hw (hlt v w hw))

/-- **A schedule lists every node once, after its dependencies.** -/
theorem isOrder_of_schedule {d : Dependencies} (hlt : ∀ v, ∀ w ∈ d.of v, w < d.size)
    {s : Schedule} (hs : d.schedule = .ok s) : s.dependencies = d ∧ IsOrder d s.order := by
  rw [schedule, order] at hs
  cases hl : d.search.loop with
  | some l => rw [hl] at hs; cases hs
  | none =>
    rw [hl] at hs
    obtain rfl : (⟨d, d.search.order⟩ : Schedule) = s := Except.ok.inj hs
    exact ⟨rfl, isOrder_search hlt hl⟩

/-- Dependencies can be scheduled exactly when they contain no closed walk. -/
theorem schedule_iff_acyclic {d : Dependencies} (hlt : ∀ a b, a ∈ d.of b → a < d.size ∧ b < d.size) :
    (∃ s, d.schedule = .ok s) ↔ ∀ v, ¬ TransGen (fun a b => a ∈ d.of b) v v := by
  have hloop : (∃ s, d.schedule = .ok s) ↔ d.search.loop = none := by
    rw [schedule, order]
    cases hl : d.search.loop with
    | some l => exact ⟨fun ⟨s, hs⟩ => (by cases hs), fun h => (by cases h)⟩
    | none => exact ⟨fun _ => rfl, fun _ => ⟨_, rfl⟩⟩
  have hrel : ∀ v, TransGen (fun x y => y ∈ d.of x ∧ y < d.size) v v ↔
      TransGen (fun a b => a ∈ d.of b) v v := by
    intro v
    rw [← transGen_swap]
    constructor
    · exact TransGen.mono (fun _ _ h => h.1) v v
    · exact TransGen.mono (fun a b h => ⟨h, (hlt a b h).1⟩) v v
  refine hloop.trans ((loop_eq_none_iff (roots_range d.size)).trans ?_)
  constructor
  · intro h v hv
    obtain ⟨w, hw, -⟩ := TransGen.head'_iff.mp hv
    exact h v (hlt v w hw).1 ((hrel v).mpr hv)
  · intro h v _ hv
    exact h v ((hrel v).mp hv)

/-! ## 3. Combinational cycles -/

/-- Every edge of a closed walk has a way back. -/
theorem transGen_on_cycle {α : Type} {R : α → α → Prop} {x y : α} (h : TransGen R x y)
    (hback : ReflTransGen R y x) : TransGen (fun a b => R a b ∧ ReflTransGen R b a) x y := by
  induction h with
  | single hxy => exact .single ⟨hxy, hback⟩
  | @tail b c hxb hbc ih =>
    have hcb : ReflTransGen R c b := hback.trans hxb.to_reflTransGen
    exact .tail (ih (.head hbc hback)) ⟨hbc, hcb⟩

/-- A cycle of edges between nodes that are not sequential. -/
def CombinationalCycle (sequential : Array Bool) (edges : List (Nat × Nat)) : Prop :=
  ∃ v, TransGen (fun a b => (a, b) ∈ edges ∧ sequential.getD a false = false ∧
    sequential.getD b false = false) v v

/-- A closed walk of dependencies passes no sequential node: an edge into one would be feedback. -/
theorem combinational_of_closed {sequential : Array Bool} {edges : List (Nat × Nat)}
    (hin : InRange sequential.size edges) {v : Nat}
    (hv : TransGen (fun a b => a ∈ (ofEdges sequential edges).of b) v v) :
    sequential.getD v false = false := by
  have hsub : ∀ {a b}, ReflTransGen (fun a b => a ∈ (ofEdges sequential edges).of b) a b →
      Reaches edges a b := fun h => ReflTransGen.mono (fun _ _ h => ((mem_of hin).mp h).1) _ _ h
  obtain ⟨u, hvu, huv⟩ := TransGen.tail'_iff.mp hv
  obtain ⟨hu, hlt⟩ := lt_of_mem_of hin huv
  obtain ⟨hedge, hfb⟩ := (mem_of hin).mp huv
  rw [← Bool.not_eq_true]
  intro h
  have : (ofEdges sequential edges).isFeedback u v = true :=
    (isFeedback_iff hin hu hlt).mpr ⟨h, .single hedge, hsub hvu⟩
  rw [hfb] at this
  cases this

/-- **There is a schedule exactly when there is no combinational cycle.** -/
theorem schedule_iff {sequential : Array Bool} {edges : List (Nat × Nat)}
    (hin : InRange sequential.size edges) :
    (∃ s, (ofEdges sequential edges).schedule = .ok s) ↔ ¬ CombinationalCycle sequential edges := by
  rw [schedule_iff_acyclic (d := ofEdges sequential edges) fun a b => lt_of_mem_of hin]
  constructor
  · intro h hcycle
    obtain ⟨v, hv⟩ := hcycle
    refine h v (TransGen.mono (fun a b hab => ?_) v v hv)
    obtain ⟨hedge, -, hb⟩ := hab
    refine (mem_of hin).mpr ⟨hedge, ?_⟩
    rw [isFeedback, show (ofEdges sequential edges).sequential = sequential from rfl, hb]
    rfl
  · intro h v hv
    refine h ⟨v, TransGen.mono (fun a b hab => ?_) v v (transGen_on_cycle hv .refl)⟩
    obtain ⟨hdep, hback⟩ := hab
    exact ⟨((mem_of hin).mp hdep).1, combinational_of_closed hin (.head' hdep hback),
      combinational_of_closed hin (.tail' hback hdep)⟩

/-! ## 4. Orders and cycles -/

/-- **A combinational cycle, written out**: its first node comes again at the end, and no other node
    comes twice. Each node has an edge to the next one. -/
structure IsCycle (sequential : Array Bool) (edges : List (Nat × Nat)) (cycle : List Nat) : Prop where
  chain : cycle.IsChain fun a b => (a, b) ∈ edges
  closed : cycle.head? = cycle.getLast?
  long : 2 ≤ cycle.length
  nodup : cycle.tail.Nodup
  combinational : ∀ v ∈ cycle, sequential[v]? = some false

/-- There is an order exactly when there is a schedule, which takes it. -/
theorem order_eq_ok_iff {d : Dependencies} {order : List Nat} :
    d.order = .ok order ↔ d.schedule = .ok ⟨d, order⟩ := by
  rw [schedule]
  cases d.order with
  | error cycle => exact ⟨fun h => (by cases h), fun h => (by cases h)⟩
  | ok order' =>
    constructor
    · intro h
      rw [Except.ok.inj h]
      rfl
    · intro h
      exact congrArg Except.ok (congrArg Schedule.order (Except.ok.inj h))

/-- In an order a node stands before those that depend on it. -/
theorem IsOrder.idxOf_lt {d : Dependencies} {order : List Nat} (h : IsOrder d order) {a b : Nat}
    (hab : a ∈ d.of b) (hb : b < d.size) : order.idxOf a < order.idxOf b := by
  obtain ⟨l, r, hsplit⟩ := List.append_of_mem ((h.mem b).mpr hb)
  have ha : a ∈ l := h.after l b r hsplit a hab
  have hbl : b ∉ l := fun hmem => h.notMem_behind hsplit hmem List.mem_cons_self
  rw [hsplit, List.idxOf_append_of_mem ha, List.idxOf_append_of_notMem hbl, List.idxOf_cons_self]
  exact List.idxOf_lt_length_of_mem ha

/-- From every node of a closed chain a walk leads back to it. -/
theorem transGen_of_closed {R : Nat → Nat → Prop} {a : Nat} {l : List Nat}
    (hchain : (a :: l).IsChain R) (hclosed : l.getLast? = some a) : ∀ v ∈ l, TransGen R v v := by
  intro v hv
  have hav : TransGen R a v := transGen_of_isChain hchain v hv
  obtain ⟨l₁, l₂, rfl⟩ := List.append_of_mem hv
  cases l₂ with
  | nil =>
    obtain rfl : v = a := by simpa using hclosed
    exact hav
  | cons b l₂ =>
    -- the first node comes again behind `v`
    have hmem : a ∈ b :: l₂ := by
      rw [List.getLast?_append, List.getLast?_cons_cons] at hclosed
      refine List.mem_of_getLast? ?_
      cases hlast : (b :: l₂).getLast? with
      | none => simp at hlast
      | some c => rwa [hlast] at hclosed
    have hrest : (v :: b :: l₂).IsChain R := by
      rw [← List.cons_append, List.isChain_append] at hchain
      exact hchain.2.1
    exact (transGen_of_isChain hrest a hmem).trans hav

/-- **The loop of a search is a combinational cycle.** -/
theorem isCycle_of_order {sequential : Array Bool} {edges : List (Nat × Nat)}
    (hin : InRange sequential.size edges) {cycle : List Nat}
    (h : (ofEdges sequential edges).order = .error cycle) : IsCycle sequential edges cycle := by
  have hloop : IsLoop (ofEdges sequential edges).of (ofEdges sequential edges).size cycle := by
    refine isLoop_explore (roots_range _) ?_
    rw [order] at h
    split at h
    next l hl =>
      obtain rfl : l = cycle := Except.error.inj h
      exact hl
    next => cases h
  obtain ⟨hchain, hclosed, hlong, hnodup, hlt⟩ := hloop
  refine ⟨hchain.imp fun a b hab => ((mem_of hin).mp hab).1, hclosed, hlong, hnodup, fun v hv => ?_⟩
  match cycle, hlong with
  | a :: b :: rest, _ =>
    have hlast : (b :: rest).getLast? = some a := by
      rw [List.getLast?_cons_cons] at hclosed
      exact hclosed.symm
    have hmem : v ∈ b :: rest := by
      rcases List.mem_cons.mp hv with rfl | hv
      · exact List.mem_of_getLast? hlast
      · exact hv
    have hfalse := combinational_of_closed hin (transGen_of_closed hchain hlast v hmem)
    have hsize : v < sequential.size := hlt v hv
    rw [Array.getD_eq_getD_getElem?, Array.getElem?_eq_getElem hsize, Option.getD_some] at hfalse
    rw [Array.getElem?_eq_getElem hsize, hfalse]

/-- **Scheduling is sound and complete.** There is an order exactly when no cycle of edges avoids the
    sequential nodes. An order lists every node once, and each edge that is not feedback leads
    forward in it; where there is none, a combinational cycle is given. -/
theorem order_outcome {sequential : Array Bool} {edges : List (Nat × Nat)}
    (hin : InRange sequential.size edges) :
    ((∃ order, (ofEdges sequential edges).order = .ok order) ↔
      ¬ CombinationalCycle sequential edges) ∧
    (∀ order, (ofEdges sequential edges).order = .ok order →
      order.Nodup ∧ (∀ v, v ∈ order ↔ v < sequential.size) ∧
      ∀ e ∈ edges, (ofEdges sequential edges).isFeedback e.1 e.2 = false →
        order.idxOf e.1 < order.idxOf e.2) ∧
    ∀ cycle, (ofEdges sequential edges).order = .error cycle → IsCycle sequential edges cycle := by
  refine ⟨?_, fun order h => ?_, fun cycle => isCycle_of_order hin⟩
  · rw [← schedule_iff hin]
    constructor
    · intro h
      obtain ⟨order, h⟩ := h
      exact ⟨_, order_eq_ok_iff.mp h⟩
    · intro h
      obtain ⟨s, h⟩ := h
      obtain ⟨hd, -⟩ := isOrder_of_schedule (fun v w hw => (lt_of_mem_of hin hw).1) h
      exact ⟨s.order, order_eq_ok_iff.mpr (by rw [h, ← hd])⟩
  · obtain ⟨-, horder⟩ :=
      isOrder_of_schedule (fun v w hw => (lt_of_mem_of hin hw).1) (order_eq_ok_iff.mp h)
    refine ⟨horder.nodup, horder.mem, fun e he hfb => ?_⟩
    exact horder.idxOf_lt ((mem_of hin).mpr ⟨he, hfb⟩) (hin e he).2

/-- A flip-flop breaks one of two loops; the other one is found. -/
theorem order_two_loops :
    (ofEdges #[true, false, false, false] [(0, 1), (1, 0), (1, 2), (2, 3), (3, 1), (2, 3)]).order =
        .error [2, 3, 1, 2] ∧
      IsCycle #[true, false, false, false] [(0, 1), (1, 0), (1, 2), (2, 3), (3, 1), (2, 3)]
        [2, 3, 1, 2] := by
  have hin : InRange (#[true, false, false, false] : Array Bool).size
      [(0, 1), (1, 0), (1, 2), (2, 3), (3, 1), (2, 3)] := by
    unfold InRange
    decide
  exact ⟨rfl, (order_outcome hin).2.2 _ rfl⟩

end LogicSim.Dependencies
