import LogicSim.Proofs.Graph.Scheduling

/-!
# Feedback lies on loops

Which edges carry the signal of the pass before is settled by the loops of a graph alone: two nodes
have the same component if some closed walk passes both of them (`Dependencies.IsClosedWalk`), and
feedback leads into a sequential node along such a walk. What a node depends on is listed without
repetitions, however often an edge is given (`Dependencies.nodup_of`).

* `Dependencies.reaches_both_iff` -- two nodes reach each other exactly on a closed walk;
* `Dependencies.feedback_exact` -- components, feedback and dependencies of a list of edges.
-/

namespace LogicSim.Dependencies

open Relation

/-! ## 1. Closed walks -/

/-- **A closed walk along edges, written out**: each node has an edge to the next one, and the first
    node comes again at the end. Nodes may come several times. -/
structure IsClosedWalk (edges : List (Nat × Nat)) (walk : List Nat) : Prop where
  chain : walk.IsChain fun a b => (a, b) ∈ edges
  closed : walk.head? = walk.getLast?
  long : 2 ≤ walk.length

section Walks

variable {edges : List (Nat × Nat)} {walk : List Nat} {a b : Nat}

/-- From the first node of a closed walk every other one is reached, and from there the last. -/
theorem IsClosedWalk.reaches (h : IsClosedWalk edges walk) (ha : a ∈ walk) (hb : b ∈ walk) :
    Reaches edges a b := by
  have hne : walk ≠ [] := List.ne_nil_of_mem ha
  have hends : walk.head hne = walk.getLast hne := by
    have hclosed := h.closed
    rwa [List.head?_eq_some_head hne, List.getLast?_eq_some_getLast hne, Option.some.injEq] at hclosed
  have hout : ∀ v ∈ walk, Reaches edges (walk.head hne) v :=
    h.chain.induction _ _ (fun _ _ hxy hx => hx.tail hxy) fun _ => .refl
  have hback : ∀ v ∈ walk, Reaches edges v (walk.getLast hne) :=
    h.chain.backwards_induction _ _ (fun _ _ hxy hy => hy.head hxy) fun _ => .refl
  exact (hback a ha).trans (hends ▸ hout b hb)

/-- **Two nodes reach each other exactly if they are one, or a closed walk passes both.** -/
theorem reaches_both_iff : Reaches edges a b ∧ Reaches edges b a ↔
    a = b ∨ ∃ walk, IsClosedWalk edges walk ∧ a ∈ walk ∧ b ∈ walk := by
  constructor
  · rintro ⟨hab, hba⟩
    by_cases hne : a = b
    · exact .inl hne
    · -- the walk out, and the walk back behind its last node
      obtain ⟨out, hout, houtLast⟩ := List.exists_isChain_cons_of_relationReflTransGen hab
      obtain ⟨back, hback, hbackLast⟩ := List.exists_isChain_cons_of_relationReflTransGen hba
      have hbackNe : back ≠ [] := by
        rintro rfl
        exact hne hbackLast.symm
      have hmem : b ∈ a :: out := houtLast ▸ List.getLast_mem _
      obtain ⟨hhead, hrest⟩ := List.isChain_cons.mp hback
      refine .inr ⟨(a :: out) ++ back, ⟨hout.append hrest fun x hx y hy => ?_, ?_, ?_⟩,
        List.mem_append_left _ List.mem_cons_self, List.mem_append_left _ hmem⟩
      · rw [List.getLast?_eq_some_getLast (List.cons_ne_nil _ _), houtLast] at hx
        exact Option.some.inj hx ▸ hhead y hy
      · rw [List.getLast_cons hbackNe] at hbackLast
        rw [List.getLast?_append_of_ne_nil _ hbackNe, List.getLast?_eq_some_getLast hbackNe, hbackLast]
        rfl
      · have := List.length_pos_of_ne_nil hbackNe
        rw [List.length_append, List.length_cons]
        omega
  · rintro (rfl | ⟨walk, hwalk, ha, hb⟩)
    · exact ⟨.refl, .refl⟩
    · exact ⟨hwalk.reaches ha hb, hwalk.reaches hb ha⟩

end Walks

/-! ## 2. Sources without repetitions -/

/-- Each source is added once. -/
theorem nodup_addSources {edges : List (Nat × Nat)} {lists : Array (List Nat)}
    (h : ∀ b, (lists.getD b []).Nodup) (b : Nat) : ((addSources edges lists).getD b []).Nodup := by
  induction edges generalizing lists with
  | nil => exact h b
  | cons e edges ih =>
    refine ih fun v => ?_
    rw [getD_modify]
    split
    · split
      · exact h v
      · rename_i hnew
        rw [List.contains_iff_mem] at hnew
        refine List.nodup_append.mpr ⟨h v, List.nodup_singleton _, fun x hx y hy hxy => ?_⟩
        rw [List.mem_singleton.mp hy] at hxy
        exact hnew (hxy ▸ hx)
    · exact h v

theorem nodup_sources (size : Nat) (edges : List (Nat × Nat)) (b : Nat) :
    ((sources size edges).getD b []).Nodup := by
  refine nodup_addSources (fun v => ?_) b
  by_cases hv : v < size <;> simp [Array.getD_eq_getD_getElem?, hv]

variable {sequential : Array Bool} {edges : List (Nat × Nat)}

/-- **What a node depends on is listed once.** -/
theorem nodup_of (b : Nat) : ((ofEdges sequential edges).of b).Nodup := by
  have hsources := nodup_sources sequential.size edges b
  rw [Array.getD_eq_getD_getElem?] at hsources
  simp only [of, ofEdges, Array.getD_eq_getD_getElem?, Array.getElem?_mapIdx]
  cases hlist : (sources sequential.size edges)[b]? with
  | none => exact List.nodup_nil
  | some list =>
    rw [hlist] at hsources
    exact hsources.filter _

/-! ## 3. Feedback -/

/-- **Feedback is found exactly.** Two nodes have the same component exactly if each reaches the
    other. An edge is feedback exactly if it leads into a sequential node, from that node itself or
    from one on a closed walk with it. The dependencies of a node are the sources of the edges into
    it that are not feedback, each of them once. -/
theorem feedback_exact (hin : InRange sequential.size edges) {a b : Nat} (ha : a < sequential.size)
    (hb : b < sequential.size) :
    ((ofEdges sequential edges).component.getD a 0 = (ofEdges sequential edges).component.getD b 0 ↔
      Reaches edges a b ∧ Reaches edges b a) ∧
    ((ofEdges sequential edges).isFeedback a b = true ↔ sequential[b]? = some true ∧
      (a = b ∨ ∃ walk, IsClosedWalk edges walk ∧ a ∈ walk ∧ b ∈ walk)) ∧
    ((ofEdges sequential edges).of b).Nodup ∧
    ∀ v, v ∈ (ofEdges sequential edges).of b ↔
      (v, b) ∈ edges ∧ (ofEdges sequential edges).isFeedback v b = false := by
  refine ⟨?_, ?_, nodup_of b, fun v => mem_of hin⟩
  · rw [← component_eq_iff hin ha hb]
    exact decide_eq_true_iff.symm
  · rw [isFeedback_iff hin ha hb, reaches_both_iff, Array.getD_eq_getD_getElem?,
      Array.getElem?_eq_getElem hb, Option.getD_some, Option.some.injEq]

/-- A flip-flop `0` that an inverter `1` and an input `2` lead to, the former twice: the inverter lies
    on a loop with it, and only the input comes before it. -/
theorem feedback_inverter :
    InRange (#[true, false, true] : Array Bool).size [(0, 1), (1, 0), (2, 0), (1, 0)] ∧
      (ofEdges #[true, false, true] [(0, 1), (1, 0), (2, 0), (1, 0)]).isFeedback 1 0 = true ∧
      (∃ walk, IsClosedWalk [(0, 1), (1, 0), (2, 0), (1, 0)] walk ∧ 1 ∈ walk ∧ 0 ∈ walk) ∧
      2 ∈ (ofEdges #[true, false, true] [(0, 1), (1, 0), (2, 0), (1, 0)]).of 0 ∧
      1 ∉ (ofEdges #[true, false, true] [(0, 1), (1, 0), (2, 0), (1, 0)]).of 0 := by
  have hin : InRange (#[true, false, true] : Array Bool).size [(0, 1), (1, 0), (2, 0), (1, 0)] := by
    unfold InRange
    decide
  obtain ⟨-, hfeedback, -, hof⟩ := feedback_exact hin (a := 1) (b := 0) (by decide) (by decide)
  have hfb : (ofEdges #[true, false, true] [(0, 1), (1, 0), (2, 0), (1, 0)]).isFeedback 1 0 = true :=
    rfl
  obtain ⟨-, hwalk⟩ := hfeedback.mp hfb
  refine ⟨hin, hfb, hwalk.resolve_left (by decide), (hof 2).mpr ⟨by decide, rfl⟩, fun hmem => ?_⟩
  exact absurd ((hof 1).mp hmem).2 (by rw [hfb]; decide)

end LogicSim.Dependencies
