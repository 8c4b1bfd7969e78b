import LogicSim.Proofs.Graph.Depth

/-!
# Chains of combinational nodes

The depth of a graph is the length of a chain of combinational nodes (`Dependencies.IsChainOf`) in
which no node comes twice. Such a chain is there for each depth that is recorded
(`Dependencies.exists_recorded`). On a cycle it need not be the longest one, since the search counts
what it is not yet done with as nothing. Without a combinational cycle no chain is longer
(`Dependencies.length_le_depths`). `Dependencies.depth_exact` says both.
-/

namespace LogicSim.Dependencies

open Search

/-! ## 1. Chains -/

/-- **A chain of combinational nodes**: none of them is sequential, and each has an edge to the next
    one. -/
structure IsChainOf (sequential : Array Bool) (edges : List (Nat × Nat)) (chain : List Nat) :
    Prop where
  joined : chain.IsChain fun a b => (a, b) ∈ edges
  combinational : ∀ v ∈ chain, sequential[v]? = some false

/-- The nodes that are not sequential. -/
def combinationalNodes (sequential : Array Bool) : List Nat :=
  (List.range sequential.size).filter fun v => sequential[v]? = some false

theorem mem_combinationalNodes {sequential : Array Bool} {v : Nat} :
    v ∈ combinationalNodes sequential ↔ sequential[v]? = some false := by
  rw [combinationalNodes, List.mem_filter, List.mem_range, decide_eq_true_iff, and_iff_right_iff_imp]
  exact fun h => (Array.getElem?_eq_some_iff.mp h).1

theorem getElem?_eq_false_iff {sequential : Array Bool} {v : Nat} :
    sequential[v]? = some false ↔ v < sequential.size ∧ sequential.getD v false = false := by
  rw [Array.getElem?_eq_some_iff, Array.getD_eq_getD_getElem?]
  constructor
  · rintro ⟨hlt, hv⟩
    rw [Array.getElem?_eq_getElem hlt]
    exact ⟨hlt, hv⟩
  · rintro ⟨hlt, hv⟩
    rw [Array.getElem?_eq_getElem hlt] at hv
    exact ⟨hlt, hv⟩

/-! ## 2. The chain behind a recorded depth -/

/-- The largest of several numbers is one of them, if it is not zero. -/
theorem foldl_max_mem {l : List Nat} (h : l.foldl max 0 ≠ 0) : l.foldl max 0 ∈ l := by
  rw [List.foldl_max, Nat.zero_max] at h ⊢
  cases hmax : l.max? with
  | none =>
    rw [hmax] at h
    exact absurd rfl h
  | some m => exact (List.max?_eq_some_iff.mp hmax).1

section Recorded

variable {d : Dependencies} {l : List Nat} {v w : Nat}

theorem nodeDepth_of_sequential {depths : Array Nat} (h : d.sequential.getD v false = true) :
    d.nodeDepth depths v = 0 := if_pos h

theorem nodeDepth_of_combinational {depths : Array Nat} (h : d.sequential.getD v false = false) :
    d.nodeDepth depths v = 1 + ((d.of v).map fun w => depths.getD w 0).foldl max 0 :=
  if_neg (by rw [h]; exact Bool.false_ne_true)

/-- A node that was not taken has no depth. -/
theorem getD_depthsOver_of_notMem (hw : w ∉ l) : (d.depthsOver l).getD w 0 = 0 := by
  induction l using List.reverseRecOn with
  | nil =>
    rw [depthsOver, List.foldl_nil, Array.getD_eq_getD_getElem?, Array.getElem?_replicate]
    split <;> rfl
  | append_singleton l u ih =>
    have hne : u ≠ w := fun he => hw (he ▸ List.mem_append_right _ List.mem_cons_self)
    rw [getD_concat_of_ne hne, ih fun hl => hw (List.mem_append_left _ hl)]

/-- **A chain behind the depth of a node**: it ends with the node, unless it is empty, and all of it
    was taken already. -/
structure Recorded (d : Dependencies) (l : List Nat) (v : Nat) (chain : List Nat) : Prop where
  joined : chain.IsChain fun a b => a ∈ d.of b
  combinational : ∀ w ∈ chain, d.sequential.getD w false = false
  nodup : chain.Nodup
  taken : ∀ w ∈ chain, w ∈ l
  last : ∀ w ∈ chain.getLast?, w = v

theorem Recorded.nil : Recorded d l v [] :=
  ⟨.nil, fun _ h => absurd h List.not_mem_nil, .nil, fun _ h => absurd h List.not_mem_nil,
    fun _ h => (by cases h)⟩

theorem Recorded.mono {l' chain : List Nat} (h : Recorded d l v chain) (hl : ∀ w ∈ l, w ∈ l') :
    Recorded d l' v chain :=
  { h with taken := fun w hw => hl w (h.taken w hw) }

/-- **A combinational node goes on top of a chain** that ends with one of its dependencies. It is not
    in the chain, since it was not taken. -/
theorem Recorded.concat {chain : List Nat} (h : Recorded d l w chain) (hw : w ∈ d.of v)
    (hcomb : d.sequential.getD v false = false) (hv : v ∉ l) :
    Recorded d (l ++ [v]) v (chain ++ [v]) := by
  refine ⟨h.joined.append (.singleton v) fun x hx y hy => ?_, fun u hu => ?_, ?_, fun u hu => ?_, ?_⟩
  · obtain rfl := h.last x hx
    obtain rfl : v = y := Option.some.inj hy
    exact hw
  · rcases List.mem_append.mp hu with hu | hu
    · exact h.combinational u hu
    · rwa [List.mem_singleton.mp hu]
  · refine List.nodup_append.mpr ⟨h.nodup, List.nodup_singleton v, fun x hx y hy hxy => ?_⟩
    rw [List.mem_singleton.mp hy] at hxy
    exact hv (h.taken v (hxy ▸ hx))
  · rcases List.mem_append.mp hu with hu | hu
    · exact List.mem_append_left _ (h.taken u hu)
    · exact List.mem_append_right _ hu
  · rw [List.getLast?_concat]
    exact fun u hu => (Option.some.inj hu).symm

/-- The depth of the node that is taken next is the length of a chain. -/
theorem exists_recorded_next
    (hchains : ∀ w ∈ l, ∃ chain, Recorded d l w chain ∧ chain.length = (d.depthsOver l).getD w 0)
    (hv : v ∉ l) :
    ∃ chain, Recorded d (l ++ [v]) v chain ∧ chain.length = d.nodeDepth (d.depthsOver l) v := by
  cases hseq : d.sequential.getD v false with
  | true => exact ⟨[], .nil, (nodeDepth_of_sequential hseq).symm⟩
  | false =>
    rw [nodeDepth_of_combinational hseq]
    by_cases hzero : ((d.of v).map fun w => (d.depthsOver l).getD w 0).foldl max 0 = 0
    · -- nothing that is done with lies below
      refine ⟨[v], ⟨.singleton v, fun u hu => ?_, List.nodup_singleton v, fun u hu =>
        List.mem_append_right _ hu, fun u hu => (Option.some.inj hu).symm⟩, ?_⟩
      · rwa [List.mem_singleton.mp hu]
      · rw [hzero]
        rfl
    · obtain ⟨w, hw, hdepth⟩ := List.mem_map.mp (foldl_max_mem hzero)
      have hwl : w ∈ l := by
        by_contra hout
        rw [getD_depthsOver_of_notMem hout] at hdepth
        exact hzero hdepth.symm
      obtain ⟨chain, hchain, hlength⟩ := hchains w hwl
      refine ⟨chain ++ [v], hchain.concat hw hseq hv, ?_⟩
      rw [← hdepth, ← hlength, List.length_append, List.length_singleton]
      omega

/-- **Each depth that is recorded is the length of a chain** of different nodes. -/
theorem exists_recorded (hnodup : l.Nodup) (hlt : ∀ v ∈ l, v < d.size) :
    ∀ v ∈ l, ∃ chain, Recorded d l v chain ∧ chain.length = (d.depthsOver l).getD v 0 := by
  induction l using List.reverseRecOn with
  | nil => exact fun v hv => absurd hv List.not_mem_nil
  | append_singleton l u ih =>
    obtain ⟨hl, -, hdisjoint⟩ := List.nodup_append.mp hnodup
    have hu : u ∉ l := fun hmem => hdisjoint u hmem u List.mem_cons_self rfl
    have hchains := ih hl fun v hv => hlt v (List.mem_append_left _ hv)
    intro v hv
    rcases List.mem_append.mp hv with hmem | hmem
    · obtain ⟨chain, hchain, hlength⟩ := hchains v hmem
      refine ⟨chain, hchain.mono fun w hw => List.mem_append_left _ hw, ?_⟩
      have hne : u ≠ v := fun he => hu (he ▸ hmem)
      rw [getD_concat_of_ne hne, hlength]
    · obtain rfl := List.mem_singleton.mp hmem
      rw [getD_concat_self (hlt v hv)]
      exact exists_recorded_next hchains hu

/-- A combinational node that was taken has a depth. -/
theorem one_le_getD_depthsOver (hv : v ∈ l) (hlt : v < d.size)
    (hcomb : d.sequential.getD v false = false) : 1 ≤ (d.depthsOver l).getD v 0 := by
  induction l using List.reverseRecOn with
  | nil => exact absurd hv List.not_mem_nil
  | append_singleton l u ih =>
    by_cases he : u = v
    · subst he
      rw [getD_concat_self hlt, nodeDepth_of_combinational hcomb]
      exact Nat.le_add_right 1 _
    · rw [getD_concat_of_ne he]
      refine ih ((List.mem_append.mp hv).resolve_right fun hmem => ?_)
      exact he (List.mem_singleton.mp hmem).symm

end Recorded

/-! ## 3. The depth of a graph -/

section Depth

variable {d : Dependencies} {v : Nat}

theorem mem_order_search : v ∈ d.search.order ↔ v < d.size :=
  List.mem_reverse.trans (mem_done_explore (roots_range d.size) d.of v)

theorem nodup_order_search : d.search.order.Nodup :=
  List.nodup_reverse.mpr (coherent_explore (roots_range d.size) d.of).nodup_done

theorem depths_eq : d.depths = d.depthsOver d.search.order := rfl

/-- The depth of a graph is zero or that of one of its nodes. -/
theorem exists_depth_eq (h : d.depth ≠ 0) : ∃ v < d.size, d.depths.getD v 0 = d.depth := by
  have hmem : d.depth ∈ d.depths.toList := by
    rw [depth, ← Array.foldl_toList] at h ⊢
    exact foldl_max_mem h
  obtain ⟨v, hv⟩ := Array.getElem?_of_mem (Array.mem_toList_iff.mp hmem)
  refine ⟨v, ?_, ?_⟩
  · have hlt := (Array.getElem?_eq_some_iff.mp hv).1
    rwa [depths_eq, size_depthsOver] at hlt
  · rw [Array.getD_eq_getD_getElem?, hv, Option.getD_some]

/-- **The depth of a graph is the length of a chain** of dependencies between different nodes. -/
theorem exists_chain_depth : ∃ chain : List Nat, chain.length = d.depth ∧ chain.Nodup ∧
    chain.IsChain (fun a b => a ∈ d.of b) ∧
    ∀ w ∈ chain, w < d.size ∧ d.sequential.getD w false = false := by
  by_cases hzero : d.depth = 0
  · exact ⟨[], hzero.symm, .nil, .nil, fun _ h => absurd h List.not_mem_nil⟩
  · obtain ⟨v, hv, hdepth⟩ := exists_depth_eq hzero
    obtain ⟨chain, hchain, hlength⟩ := exists_recorded nodup_order_search
      (fun w => mem_order_search.mp) v (mem_order_search.mpr hv)
    exact ⟨chain, by rw [hlength, ← depths_eq, hdepth], hchain.nodup, hchain.joined,
      fun w hw => ⟨mem_order_search.mp (hchain.taken w hw), hchain.combinational w hw⟩⟩

/-- A graph with a combinational node has a depth. -/
theorem one_le_depth (hv : v < d.size) (hcomb : d.sequential.getD v false = false) : 1 ≤ d.depth :=
  Nat.le_trans (one_le_getD_depthsOver (mem_order_search.mpr hv) hv hcomb) (getD_depths_le v)

/-- **Without a cycle a chain is not longer than the depth of its last node.** -/
theorem length_le_depths (horder : IsOrder d d.search.order) {l : List Nat}
    (hchain : (l ++ [v]).IsChain fun a b => a ∈ d.of b)
    (hcomb : ∀ w ∈ l ++ [v], w < d.size ∧ d.sequential.getD w false = false) :
    (l ++ [v]).length ≤ d.depths.getD v 0 := by
  obtain ⟨hv, hvcomb⟩ := hcomb v (List.mem_append_right _ List.mem_cons_self)
  induction l using List.reverseRecOn generalizing v with
  | nil => exact one_le_getD_depthsOver (mem_order_search.mpr hv) hv hvcomb
  | append_singleton l u ih =>
    obtain ⟨hfront, -, hjoin⟩ := List.isChain_append.mp hchain
    have hu : u ∈ d.of v := hjoin u (by rw [List.getLast?_concat]; rfl) v rfl
    have hucomb := hcomb u (List.mem_append_left _ (List.mem_append_right _ List.mem_cons_self))
    have hle := ih hfront (fun w hw => hcomb w (List.mem_append_left _ hw)) hucomb.1 hucomb.2
    have hlt := depth_lt_of_mem horder hv hvcomb hu
    rw [List.length_append, List.length_singleton]
    omega

end Depth

section Edges

variable {sequential : Array Bool} {edges : List (Nat × Nat)} {chain : List Nat}

/-- A node of a chain depends on the one before: no edge into a combinational node is feedback. -/
theorem IsChainOf.dependent (hin : InRange sequential.size edges)
    (h : IsChainOf sequential edges chain) :
    chain.IsChain fun a b => a ∈ (ofEdges sequential edges).of b := by
  refine h.joined.imp_of_mem_imp fun a b _ hb hedge => (mem_of hin).mpr ⟨hedge, ?_⟩
  rw [isFeedback, show (ofEdges sequential edges).sequential = sequential from rfl,
    (getElem?_eq_false_iff.mp (h.combinational b hb)).2]
  rfl

/-- **The depth of a graph is exact.** It is the number of nodes of a chain of combinational nodes, all
    different, and thus not larger than their number, and zero only if there are none. Without a
    combinational cycle no chain is longer. -/
theorem depth_exact (hin : InRange sequential.size edges) :
    (∃ chain, IsChainOf sequential edges chain ∧ chain.Nodup ∧
      chain.length = (ofEdges sequential edges).depth) ∧
    (ofEdges sequential edges).depth ≤ (combinationalNodes sequential).length ∧
    ((ofEdges sequential edges).depth = 0 ↔ combinationalNodes sequential = []) ∧
    (¬ CombinationalCycle sequential edges → ∀ chain, IsChainOf sequential edges chain →
      chain.length ≤ (ofEdges sequential edges).depth) := by
  obtain ⟨chain, hlength, hnodup, hjoined, hcomb⟩ :=
    exists_chain_depth (d := ofEdges sequential edges)
  have hchain : IsChainOf sequential edges chain :=
    ⟨hjoined.imp fun a b hab => ((mem_of hin).mp hab).1,
      fun v hv => getElem?_eq_false_iff.mpr (hcomb v hv)⟩
  have hle : (ofEdges sequential edges).depth ≤ (combinationalNodes sequential).length := by
    rw [← hlength]
    exact (hnodup.subperm fun v hv =>
      mem_combinationalNodes.mpr (hchain.combinational v hv)).length_le
  refine ⟨⟨chain, hchain, hnodup, hlength⟩, hle, ⟨fun hzero => ?_, fun hnone => ?_⟩, ?_⟩
  · refine List.eq_nil_iff_forall_not_mem.mpr fun v hv => ?_
    obtain ⟨hlt, hv⟩ := getElem?_eq_false_iff.mp (mem_combinationalNodes.mp hv)
    have hpos : 1 ≤ (ofEdges sequential edges).depth := one_le_depth hlt hv
    omega
  · rw [hnone, List.length_nil] at hle
    exact Nat.le_zero.mp hle
  · intro hacyclic chain hchain
    obtain ⟨schedule, hs⟩ := (schedule_iff hin).mpr hacyclic
    have horder := isOrder_search_of_schedule (fun v w hw => (lt_of_mem_of hin hw).1) hs
    rcases List.eq_nil_or_concat' chain with rfl | ⟨l, v, rfl⟩
    · exact Nat.zero_le _
    · refine Nat.le_trans (length_le_depths horder (hchain.dependent hin) fun w hw => ?_)
        (getD_depths_le v)
      exact getElem?_eq_false_iff.mp (hchain.combinational w hw)

/-- Three nodes in a row behind a flip-flop `0`, which the last one leads back to: their chain is the
    longest one. -/
theorem depth_around_flipFlop :
    InRange (#[true, false, false, false] : Array Bool).size
        [(0, 1), (1, 2), (1, 3), (2, 3), (3, 0)] ∧
      (ofEdges #[true, false, false, false] [(0, 1), (1, 2), (1, 3), (2, 3), (3, 0)]).depth = 3 ∧
      IsChainOf #[true, false, false, false] [(0, 1), (1, 2), (1, 3), (2, 3), (3, 0)] [1, 2, 3] ∧
      ∀ chain, IsChainOf #[true, false, false, false] [(0, 1), (1, 2), (1, 3), (2, 3), (3, 0)] chain →
        chain.length ≤ 3 := by
  have hin : InRange (#[true, false, false, false] : Array Bool).size
      [(0, 1), (1, 2), (1, 3), (2, 3), (3, 0)] := by
    unfold InRange
    decide
  have hacyclic : ¬ CombinationalCycle #[true, false, false, false]
      [(0, 1), (1, 2), (1, 3), (2, 3), (3, 0)] := (schedule_iff hin).mp ⟨_, rfl⟩
  exact ⟨hin, rfl, ⟨by decide, by decide⟩, (depth_exact hin).2.2.2 hacyclic⟩

/-- On a cycle of `0` and `1` the search is done with `1` before `0`, so that `2` counts for `0` only:
    the chain from `2` over `0` to `1` is longer than the depth. -/
example : (ofEdges #[false, false, false] [(1, 0), (0, 1), (2, 0)]).depth = 2 ∧
    [2, 0, 1].IsChain fun a b => (a, b) ∈ [(1, 0), (0, 1), (2, 0)] := by decide

end Edges

end LogicSim.Dependencies
