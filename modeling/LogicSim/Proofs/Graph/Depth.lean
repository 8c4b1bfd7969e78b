import LogicSim.Proofs.Graph.Scheduling

/-!
# Depths

`Dependencies.depths` works the depths of all nodes out in one go over an order of the nodes. If no
dependency comes after the node that needs it, what is recorded in the end satisfies the equation by
which it was recorded (`Dependencies.getD_depths`): a sequential node has depth zero, and any other
one lies one level above the deepest of its dependencies.
-/

namespace LogicSim.Dependencies

variable {d : Dependencies}

/-! ## 1. The largest of several numbers -/

theorem le_foldl_max {l : List Nat} {a x : Nat} (hx : x ∈ l) : x ≤ l.foldl max a := by
  rw [List.foldl_max]
  cases hmax : l.max? with
  | none =>
    rw [List.max?_eq_none_iff] at hmax
    exact absurd (hmax ▸ hx) List.not_mem_nil
  | some m =>
    rw [Option.getD_some]
    exact Nat.le_trans ((List.max?_eq_some_iff.mp hmax).2 x hx) (Nat.le_max_right a m)

/-! ## 2. Depths over an order -/

/-- The depths when the nodes of a list have been taken in turn. -/
def depthsOver (d : Dependencies) (l : List Nat) : Array Nat :=
  l.foldl (fun depths v => depths.setIfInBounds v (d.nodeDepth depths v)) (Array.replicate d.size 0)

theorem depthsOver_concat (l : List Nat) (v : Nat) : d.depthsOver (l ++ [v]) =
    (d.depthsOver l).setIfInBounds v (d.nodeDepth (d.depthsOver l) v) := by
  rw [depthsOver, List.foldl_append]
  rfl

theorem size_depthsOver (l : List Nat) : (d.depthsOver l).size = d.size := by
  induction l using List.reverseRecOn with
  | nil => exact Array.size_replicate
  | append_singleton l v ih => rw [depthsOver_concat, Array.size_setIfInBounds, ih]

theorem nodeDepth_congr {depths depths' : Array Nat} {v : Nat}
    (h : ∀ w ∈ d.of v, depths'.getD w 0 = depths.getD w 0) :
    d.nodeDepth depths' v = d.nodeDepth depths v := by
  rw [nodeDepth, nodeDepth, List.map_congr_left h]

theorem getD_concat_of_ne {l : List Nat} {v w : Nat} (hne : v ≠ w) :
    (d.depthsOver (l ++ [v])).getD w 0 = (d.depthsOver l).getD w 0 := by
  rw [depthsOver_concat, Array.getD_eq_getD_getElem?, Array.getD_eq_getD_getElem?,
    Array.getElem?_setIfInBounds_ne hne]

theorem getD_concat_self {l : List Nat} {v : Nat} (hv : v < d.size) :
    (d.depthsOver (l ++ [v])).getD v 0 = d.nodeDepth (d.depthsOver l) v := by
  rw [depthsOver_concat, Array.getD_eq_getD_getElem?,
    Array.getElem?_setIfInBounds_self_of_lt (by rwa [size_depthsOver]), Option.getD_some]

/-- **Over an order the equation of each depth holds in the end**: nothing that it depends on is
    written again. -/
theorem getD_depthsOver {order : List Nat} (horder : IsOrder d order) {l r : List Nat}
    (hl : order = l ++ r) : ∀ v ∈ l, (d.depthsOver l).getD v 0 = d.nodeDepth (d.depthsOver l) v := by
  induction l using List.reverseRecOn generalizing r with
  | nil => exact fun v hv => absurd hv List.not_mem_nil
  | append_singleton l u ih =>
    rw [List.append_assoc] at hl
    have hu : ∀ w ∈ l, u ≠ w := by
      rintro w hw rfl
      exact horder.notMem_behind hl hw List.mem_cons_self
    intro v hv
    rcases List.mem_append.mp hv with hv | hv
    · rw [getD_concat_of_ne (hu v hv), ih hl v hv]
      exact (nodeDepth_congr fun w hw => getD_concat_of_ne (hu w (horder.closed hl hv hw))).symm
    · obtain rfl := List.mem_singleton.mp hv
      have hlt : v < d.size := (horder.mem v).mp (hl ▸ by simp)
      rw [getD_concat_self hlt]
      refine (nodeDepth_congr fun w hw => getD_concat_of_ne (hu w ?_)).symm
      exact horder.after l v r hl w hw

/-! ## 3. The depths of a graph -/

/-- Where there is a schedule, the search gives an order. -/
theorem isOrder_search_of_schedule (hlt : ∀ v, ∀ w ∈ d.of v, w < d.size) {s : Schedule}
    (hs : d.schedule = .ok s) : IsOrder d d.search.order := by
  refine isOrder_search hlt ?_
  rw [schedule, order] at hs
  cases hloop : d.search.loop with
  | none => rfl
  | some cycle => rw [hloop] at hs; cases hs

/-- **The equation of the depths**, where the search gives an order. -/
theorem getD_depths (horder : IsOrder d d.search.order) {v : Nat} (hv : v < d.size) :
    d.depths.getD v 0 = d.nodeDepth d.depths v :=
  getD_depthsOver horder (List.append_nil _).symm v ((horder.mem v).mpr hv)

/-- A combinational node lies deeper than what it depends on. -/
theorem depth_lt_of_mem (horder : IsOrder d d.search.order) {v w : Nat} (hv : v < d.size)
    (hcombinational : d.sequential.getD v false = false) (hw : w ∈ d.of v) :
    d.depths.getD w 0 < d.depths.getD v 0 := by
  have hle : d.depths.getD w 0 ≤ ((d.of v).map fun w => d.depths.getD w 0).foldl max 0 :=
    le_foldl_max (List.mem_map_of_mem hw)
  rw [getD_depths horder hv, nodeDepth, if_neg (by rw [hcombinational]; exact Bool.false_ne_true)]
  omega

/-- No node lies deeper than the depth of the graph. -/
theorem getD_depths_le (v : Nat) : d.depths.getD v 0 ≤ d.depth := by
  rw [depth, ← Array.foldl_toList, Array.getD_eq_getD_getElem?]
  cases hv : d.depths[v]? with
  | none => exact Nat.zero_le _
  | some depth =>
    rw [Option.getD_some]
    exact le_foldl_max (Array.mem_toList_iff.mpr (Array.mem_of_getElem? hv))

end LogicSim.Dependencies
