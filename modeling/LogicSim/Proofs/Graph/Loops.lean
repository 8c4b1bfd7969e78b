import LogicSim.Proofs.Graph.Depth
import LogicSim.Proofs.Graph.Floods
import LogicSim.Proofs.Graph.Tours
import LogicSim.Proofs.Strict.Dependencies

/-!
# The loops of a graph

Each of the three loops over the nodes of a graph writes down what it needs: which nodes were met
and in which order they were done with (`Visits`), the marks and the order (`Marking`), the depths
and which nodes are being worked on (`Depths`). All three tell of each node whether it was never
met, lies on the stack or is done with, and so they follow the search (`Account.Faithful`).

`Dependencies.loops_thrifty` says what comes of it: each loop ends and is thrifty, the nodes marked
as being on the path are those of the stack, and the results are the components, the order and the
depth of the graph. Two of the loops look at no entry twice. The loop for the depth looks at the
entries of a combinational node again when it is popped (`Dependencies.depth_examined_twice`).
-/

namespace LogicSim

open Search

/-! ## 1. The first loop for the components -/

/-- Which nodes were met, and which are done with, latest first. -/
structure Visits where
  visited : Array Bool
  finished : List Nat

/-- No node was met. -/
def Visits.start (size : Nat) : Visits := ⟨Array.replicate size false, []⟩

/-- A node is visited when it is met, and finished when it is done with. -/
def Account.visiting : Account Visits where
  isOld x r := x.visited.getD r true
  isNew x w := !x.visited.getD w true
  halts _ _ := false
  enter x w := { x with visited := x.visited.setIfInBounds w true }
  rereads _ := false
  leave x v _ := { x with finished := v :: x.finished }

/-- The visited nodes are those that are not fresh. -/
structure Visits.Agrees (x : Visits) (marks : Array Mark) (done : List Nat) : Prop where
  size : x.visited.size = marks.size
  visited : ∀ v, x.visited.getD v true = true ↔ marks.getD v .finished ≠ .fresh
  finished : x.finished = done

theorem Visits.agrees_start (size : Nat) :
    (Visits.start size).Agrees (Array.replicate size .fresh) [] where
  size := by simp [Visits.start]
  visited v := by by_cases hv : v < size <;> simp [Visits.start, hv]
  finished := rfl

theorem Account.visiting_faithful {lists : Array (List Nat)} :
    visiting.Faithful lists Visits.Agrees where
  isOld h _ := h.visited _
  isNew {x marks done w} h := by
    rw [visiting, Bool.not_eq_true', ← Bool.not_eq_true, h.visited, not_not]
  halts _ hhalts := absurd hhalts Bool.false_ne_true
  enter {x marks done w} h hw := by
    have hlt : w < marks.size := lt_of_getD_ne (by rw [hw]; decide)
    refine ⟨by simpa [visiting] using h.size, fun v => ?_, h.finished⟩
    rw [visiting, getD_setIfInBounds (h.size ▸ hlt), getD_setIfInBounds hlt]
    by_cases hv : v = w
    · simp [hv]
    · simpa [hv] using h.visited v
  leave {x marks done v} h hv := by
    have hlt : v < marks.size := lt_of_getD_ne (by rw [hv]; decide)
    refine ⟨by simpa [visiting] using h.size, fun u => ?_, congrArg (v :: ·) h.finished⟩
    rw [visiting, getD_setIfInBounds hlt, h.visited]
    by_cases hu : u = v
    · simp [hu, hv]
    · simp [hu]

/-! ## 2. The loop for the order -/

/-- The marks of the nodes, and the nodes done with, latest first. -/
structure Marking where
  marks : Array Mark
  order : List Nat

/-- No node was met. -/
def Marking.start (size : Nat) : Marking := ⟨Array.replicate size .fresh, []⟩

/-- A node on the path ends the loop. -/
def Account.ordering : Account Marking where
  isOld x r := x.marks.getD r .finished ≠ .fresh
  isNew x w := x.marks.getD w .finished = .fresh
  halts x w := x.marks.getD w .finished = .onPath
  enter x w := { x with marks := x.marks.setIfInBounds w .onPath }
  rereads _ := false
  leave x v _ := { marks := x.marks.setIfInBounds v .finished, order := v :: x.order }

/-- The marks are those of the search. -/
def Marking.Agrees (x : Marking) (marks : Array Mark) (done : List Nat) : Prop := x = ⟨marks, done⟩

theorem Account.ordering_faithful {lists : Array (List Nat)} :
    ordering.Faithful lists Marking.Agrees where
  isOld := by
    rintro _ marks done r rfl -
    exact decide_eq_true_iff
  isNew := by
    rintro _ marks done w rfl
    exact decide_eq_true_iff
  halts := by
    rintro _ marks done w rfl hhalts
    exact decide_eq_true_iff.mp hhalts
  enter := by
    rintro _ marks done w rfl -
    rfl
  leave := by
    rintro _ marks done v rfl -
    rfl

theorem Account.ordering_stops : ordering.Stops Marking.Agrees := by
  rintro _ marks done w rfl hw
  exact decide_eq_true hw

/-! ## 3. The loop for the depth -/

/-- The depths of the nodes done with, and which nodes are being worked on. -/
structure Depths where
  depths : Array (Option Nat)
  visiting : Array Bool

/-- No node was met. -/
def Depths.start (size : Nat) : Depths :=
  ⟨Array.replicate size none, Array.replicate size false⟩

/-- The largest depth recorded. -/
def Depths.largest (x : Depths) : Nat := (x.depths.toList.filterMap id).foldl max 0

/-- The depth over a list of entries; an entry whose depth is not recorded yet counts as nothing. -/
def Depths.over (x : Depths) (entries : List Nat) : Nat :=
  1 + (entries.map fun w => (x.depths.getD w none).getD 0).foldl max 0

/-- The depth of a node is recorded when the node is done with. For a combinational node this looks at
    the depths of all its entries once more. -/
def Account.measuring (d : Dependencies) : Account Depths where
  isOld x r := (x.depths.getD r (some 0)).isSome
  isNew x w := (x.depths.getD w (some 0)).isNone && !x.visiting.getD w false
  halts _ _ := false
  enter x w := { x with visiting := x.visiting.setIfInBounds w true }
  rereads v := !d.sequential.getD v false
  leave x v entries :=
    { depths := x.depths.setIfInBounds v
        (some (if d.sequential.getD v false then 0 else x.over entries))
      visiting := x.visiting.setIfInBounds v false }

/-- The nodes done with have a depth, and those on the path are being worked on. -/
structure Depths.Agrees (d : Dependencies) (x : Depths) (marks : Array Mark) (done : List Nat) :
    Prop where
  size_depths : x.depths.size = marks.size
  size_visiting : x.visiting.size = marks.size
  known : ∀ v, (x.depths.getD v (some 0)).isSome = true ↔ marks.getD v .finished = .finished
  visiting : ∀ v, x.visiting.getD v false = true ↔ marks.getD v .finished = .onPath
  recorded : x.depths.map (·.getD 0) = d.depthsOver done.reverse

theorem Depths.agrees_start (d : Dependencies) :
    (Depths.start d.size).Agrees d (Array.replicate d.size .fresh) [] where
  size_depths := by simp [Depths.start]
  size_visiting := by simp [Depths.start]
  known v := by by_cases hv : v < d.size <;> simp [Depths.start, hv]
  visiting v := by by_cases hv : v < d.size <;> simp [Depths.start, hv]
  recorded := by simp [Depths.start, Dependencies.depthsOver]

/-- What is recorded at a pop is the depth of the node, over what was recorded before. -/
theorem Account.depth_measuring (d : Dependencies) (x : Depths) (v : Nat) :
    (if d.sequential.getD v false then 0 else x.over ((measuring d).reread d.incoming v)) =
      d.nodeDepth (x.depths.map (·.getD 0)) v := by
  unfold Dependencies.nodeDepth
  split
  · rfl
  next hsequential =>
    have hentries : (measuring d).reread d.incoming v = d.of v := by
      simp only [reread, measuring, hsequential]
      rfl
    have hgetD : ∀ w, (x.depths.map (·.getD 0)).getD w 0 = (x.depths.getD w none).getD 0 := by
      intro w
      by_cases hw : w < x.depths.size <;> simp [hw]
    simp only [Depths.over, hentries, hgetD]

theorem Account.measuring_faithful (d : Dependencies) :
    (measuring d).Faithful d.incoming (Depths.Agrees d) where
  isOld {x marks done r} h hr := by
    refine (h.known r).trans ?_
    cases hmark : marks.getD r .finished with
    | fresh => simp
    | onPath => exact absurd hmark hr
    | finished => simp
  isNew {x marks done w} h := by
    have hknown := h.known w
    have hvisiting := h.visiting w
    rw [measuring, Bool.and_eq_true, Bool.not_eq_true', Option.isNone_iff_eq_none,
      ← Option.not_isSome_iff_eq_none, ← Bool.not_eq_true, hknown, hvisiting]
    -- no depth and not being worked on leaves the fresh nodes
    cases marks.getD w .finished <;> simp
  halts _ hhalts := absurd hhalts Bool.false_ne_true
  enter {x marks done w} h hw := by
    have hlt : w < marks.size := lt_of_getD_ne (by rw [hw]; decide)
    refine ⟨by simpa [measuring] using h.size_depths, by simpa [measuring] using h.size_visiting,
      fun v => ?_, fun v => ?_, h.recorded⟩
    · rw [getD_setIfInBounds hlt]
      refine (h.known v).trans ?_
      by_cases hv : v = w
      · simp [hv, hw]
      · simp [hv]
    · rw [measuring, getD_setIfInBounds (h.size_visiting ▸ hlt), getD_setIfInBounds hlt]
      by_cases hv : v = w
      · simp [hv]
      · simpa [hv] using h.visiting v
  leave {x marks done v} h hv := by
    have hlt : v < marks.size := lt_of_getD_ne (by rw [hv]; decide)
    refine ⟨by simpa [measuring] using h.size_depths, by simpa [measuring] using h.size_visiting,
      fun u => ?_, fun u => ?_, ?_⟩
    · rw [measuring, getD_setIfInBounds (h.size_depths ▸ hlt), getD_setIfInBounds hlt]
      by_cases hu : u = v
      · simp [hu]
      · simpa [hu] using h.known u
    · rw [measuring, getD_setIfInBounds (h.size_visiting ▸ hlt), getD_setIfInBounds hlt]
      by_cases hu : u = v
      · simp [hu]
      · simpa [hu] using h.visiting u
    · rw [List.reverse_cons, Dependencies.depthsOver_concat, ← h.recorded, ← depth_measuring]
      exact Array.map_setIfInBounds

/-- Where no depth is recorded a zero does as well. -/
theorem foldl_max_filterMap (l : List (Option Nat)) (m : Nat) :
    (l.filterMap id).foldl max m = (l.map (·.getD 0)).foldl max m := by
  induction l generalizing m with
  | nil => rfl
  | cons x l ih =>
    cases x with
    | none =>
      rw [List.filterMap_cons_none rfl, ih, List.map_cons, List.foldl_cons, Option.getD_none,
        Nat.max_zero]
    | some n => exact ih (max m n)

theorem Depths.largest_eq (x : Depths) : x.largest = (x.depths.map (·.getD 0)).foldl max 0 := by
  rw [largest, foldl_max_filterMap, ← Array.foldl_toList, Array.toList_map]

/-! ## 4. The loops of a graph -/

namespace Dependencies

/-- The first loop for the components after some steps. -/
def alongAt (incoming : Array (List Nat)) (k : Nat) : Tour Visits :=
  Account.visiting.after (.start incoming.size) (targets incoming) k

/-- The loop for the order after some steps. -/
def orderAt (d : Dependencies) (k : Nat) : Tour Marking :=
  Account.ordering.after (.start d.size) d.incoming k

/-- The loop for the depth after some steps. -/
def depthAt (d : Dependencies) (k : Nat) : Tour Depths :=
  (Account.measuring d).after (.start d.size) d.incoming k

/-- What the loop for the order returns. -/
def outcome (t : Tour Marking) : Except (List Nat) (List Nat) :=
  match t.cycle with
  | some cycle => .error cycle
  | none => .ok t.account.order.reverse

/-- **The searches for the components**: the loop along the edges is thrifty and looks at no entry
    twice. When it is through, the flood against them, from the node done with last, pushes each node
    once and numbers it with its component. -/
structure ComponentsThrifty (incoming : Array (List Nat)) : Prop where
  along : Account.visiting.IsThrifty (.start incoming.size) (targets incoming)
  examined : ∀ k, (alongAt incoming k).examined.Nodup
  against : ∀ k, Account.visiting.EndsBy (.start incoming.size) (targets incoming) k →
    Flood.IsThrifty incoming (alongAt incoming k).account.finished
  result : ∀ k m, Account.visiting.EndsBy (.start incoming.size) (targets incoming) k →
    Flood.EndsBy incoming (alongAt incoming k).account.finished m →
    (Flood.after incoming (alongAt incoming k).account.finished m).numbers =
      (components incoming).map some

/-- **The loop for the order** is thrifty and looks at no entry twice. At any moment the nodes marked as
    being on the path are those of its stack, so that each of them has a place there. When the loop has
    ended it returns the order or the cycle. -/
structure OrderThrifty (d : Dependencies) : Prop where
  loop : Account.ordering.IsThrifty (.start d.size) d.incoming
  examined : ∀ k, (d.orderAt k).examined.Nodup
  marks : ∀ k v, (d.orderAt k).account.marks.getD v .finished = .onPath ↔ v ∈ (d.orderAt k).nodes
  place : ∀ k v, (d.orderAt k).account.marks.getD v .finished = .onPath →
    (Tour.position (d.orderAt k).nodes v).isSome = true
  result : ∀ k, Account.ordering.EndsBy (.start d.size) d.incoming k →
    outcome (d.orderAt k) = d.order

/-- **The loop for the depth** is thrifty. It looks at no entry more than twice, and at those of a
    sequential node no more than once: beside its turns it looks at all entries of a combinational node
    when the node is popped. When it has ended, the largest depth recorded is the depth of the graph. -/
structure DepthThrifty (d : Dependencies) : Prop where
  loop : (Account.measuring d).IsThrifty (.start d.size) d.incoming
  examined : ∀ k e, (d.depthAt k).examined.count e ≤ if d.sequential.getD e.1 false then 1 else 2
  popped : ∀ k, ∀ v ∈ (d.depthAt k).popped, ∀ i < (d.of v).length,
    (d.depthAt k).examined.count (v, i) = if d.sequential.getD v false then 1 else 2
  result : ∀ k, (Account.measuring d).EndsBy (.start d.size) d.incoming k →
    (d.depthAt k).account.largest = d.depth

theorem componentsThrifty {incoming : Array (List Nat)} (hclosed : Closed incoming) :
    ComponentsThrifty incoming := by
  have hsize : (targets incoming).size = incoming.size := size_targets incoming
  have hstart : (Visits.start incoming.size).Agrees
      (Array.replicate (targets incoming).size .fresh) [] := by
    rw [hsize]
    exact Visits.agrees_start incoming.size
  -- the node done with last comes first, and is the first root
  have hfinished : ∀ k, Account.visiting.EndsBy (.start incoming.size) (targets incoming) k →
      (alongAt incoming k).account.finished = (explore ((targets incoming).getD · [])
        incoming.size (List.range incoming.size)).order.reverse := by
    intro k hend
    have hagrees := Account.visiting_faithful.agrees_explore hstart hend
      (Account.cycle_after (fun _ _ => rfl) k)
    rw [hsize] at hagrees
    rw [Search.order, List.reverse_reverse]
    exact hagrees.finished
  have hroots : ∀ v, v ∈ (explore ((targets incoming).getD · []) incoming.size
      (List.range incoming.size)).order.reverse ↔ v < incoming.size := by
    intro v
    rw [Search.order, List.reverse_reverse]
    exact mem_done_explore (roots_range incoming.size) _ v
  have halong := Account.visiting_faithful.isThrifty hstart
  refine ⟨halong, fun k => (halong.always k).nodup_examined fun _ => rfl, fun k hend => ?_,
    fun k m hend hm => ?_⟩
  · rw [hfinished k hend]
    exact Flood.isThrifty hclosed hroots
  · rw [hfinished k hend] at hm ⊢
    exact (Flood.sound_after hclosed hroots m).numbers_eq hclosed hroots hm

variable {d : Dependencies}

theorem search_eq (hsize : d.incoming.size = d.size) : d.search =
    explore (d.incoming.getD · []) d.incoming.size (List.range d.incoming.size) := by
  rw [hsize]
  rfl

theorem orderThrifty (hsize : d.incoming.size = d.size) : OrderThrifty d := by
  have ha : Account.ordering.Faithful d.incoming Marking.Agrees := Account.ordering_faithful
  have hstart : (Marking.start d.size).Agrees (Array.replicate d.incoming.size .fresh) [] := by
    rw [hsize]
    rfl
  have hmarks : ∀ k v,
      (d.orderAt k).account.marks.getD v .finished = .onPath ↔ v ∈ (d.orderAt k).nodes := by
    intro k v
    obtain ⟨s, h⟩ := ha.follows_after hstart k
    have haccount : (d.orderAt k).account = ⟨s.marks, s.done⟩ := h.account
    rw [haccount]
    exact h.mark_iff v
  have hloop := ha.isThrifty hstart
  refine ⟨hloop, fun k => (hloop.always k).nodup_examined fun _ => rfl, hmarks, fun k v hv => ?_,
    fun k hend => ?_⟩
  · rw [Tour.position, List.isSome_idxOf?]
    exact List.mem_reverse.mpr ((hmarks k v).mp hv)
  · have hloop : d.search.loop = (d.orderAt k).cycle := by
      rw [search_eq hsize]
      exact ha.loop_explore hstart Account.ordering_stops hend
    rw [outcome, order, hloop]
    cases hcycle : (d.orderAt k).cycle with
    | some cycle => rfl
    | none =>
      have haccount : (d.orderAt k).account = ⟨d.search.marks, d.search.done⟩ := by
        rw [search_eq hsize]
        exact ha.agrees_explore hstart hend hcycle
      rw [haccount]
      rfl

theorem depthThrifty (hsize : d.incoming.size = d.size) : DepthThrifty d := by
  have ha := Account.measuring_faithful d
  have hstart : (Depths.start d.size).Agrees d (Array.replicate d.incoming.size .fresh) [] := by
    rw [hsize]
    exact Depths.agrees_start d
  have hloop := ha.isThrifty hstart
  have htimes : ∀ v, (if (Account.measuring d).rereads v then 2 else 1) =
      if d.sequential.getD v false then 1 else 2 := by
    intro v
    have hrereads : (Account.measuring d).rereads v = !d.sequential.getD v false := rfl
    rw [hrereads]
    cases d.sequential.getD v false <;> rfl
  refine ⟨hloop, fun k e => ?_, fun k v hv i hi => ?_, fun k hend => ?_⟩
  · rw [← htimes]
    exact (hloop.always k).count_examined_le e
  · rw [← htimes]
    exact (hloop.always k).count_examined_of_mem hv hi
  have hagrees := ha.agrees_explore hstart hend (Account.cycle_after (fun _ _ => rfl) k)
  rw [← search_eq hsize] at hagrees
  rw [Depths.largest_eq]
  exact congrArg (fun depths : Array Nat => depths.foldl max 0) hagrees.recorded

/-- **The loops of a graph are thrifty**, look at no entry twice but for the entries of a combinational
    node at its pop in the loop for the depth, and their results are the components, the order and the
    depth of the graph. -/
theorem loops_thrifty {sequential : Array Bool} {edges : List (Nat × Nat)}
    (hin : InRange sequential.size edges) :
    ComponentsThrifty (sources sequential.size edges) ∧
      OrderThrifty (ofEdges sequential edges) ∧ DepthThrifty (ofEdges sequential edges) := by
  have hsize := (bounded_ofEdges hin).incoming
  exact ⟨componentsThrifty (closed_sources hin), orderThrifty hsize, depthThrifty hsize⟩

/-- A flip-flop `0` that reads itself, before a circle of `1` and `2`: the loop for the order stops at
    the circle after four turns, and the loop for the depth takes one turn for each node and each of
    the three dependencies. -/
theorem loops_around_circle :
    InRange (#[true, false, false] : Array Bool).size [(0, 0), (0, 1), (1, 2), (2, 1)] ∧
      (ComponentsThrifty (sources (#[true, false, false] : Array Bool).size
          [(0, 0), (0, 1), (1, 2), (2, 1)]) ∧
        OrderThrifty (ofEdges #[true, false, false] [(0, 0), (0, 1), (1, 2), (2, 1)]) ∧
        DepthThrifty (ofEdges #[true, false, false] [(0, 0), (0, 1), (1, 2), (2, 1)])) ∧
      Flood.IsThrifty (sources 3 [(0, 0), (0, 1), (1, 2), (2, 1)]) [0, 1, 2] ∧
      outcome ((ofEdges #[true, false, false] [(0, 0), (0, 1), (1, 2), (2, 1)]).orderAt 9) =
        .error [2, 1, 2] ∧
      ((ofEdges #[true, false, false] [(0, 0), (0, 1), (1, 2), (2, 1)]).orderAt 9).turns = 4 ∧
      ((ofEdges #[true, false, false] [(0, 0), (0, 1), (1, 2), (2, 1)]).depthAt 9).turns = 6 := by
  have hin : InRange (#[true, false, false] : Array Bool).size
      [(0, 0), (0, 1), (1, 2), (2, 1)] := by
    unfold InRange
    decide
  have hloops := loops_thrifty hin
  exact ⟨hin, hloops, hloops.1.against 10 rfl, rfl, rfl, rfl⟩

/-- **One dependency between two combinational nodes is looked at twice** by the loop for the depth: by
    the counter, and when the node is popped. The second look alone yields the depth: if the pop were
    given no entries, the depth of this graph would be one. -/
theorem depth_examined_twice :
    InRange (#[false, false] : Array Bool).size [(0, 1)] ∧
      ((ofEdges #[false, false] [(0, 1)]).depthAt 5).examined = [(1, 0), (1, 0)] ∧
      ¬ (∀ k e, ((ofEdges #[false, false] [(0, 1)]).depthAt k).examined.count e ≤ 1) ∧
      ((ofEdges #[false, false] [(0, 1)]).depthAt 5).account.largest = 2 ∧
      ({ Account.measuring (ofEdges #[false, false] [(0, 1)]) with rereads := fun _ => false }.after
        (.start 2) (ofEdges #[false, false] [(0, 1)]).incoming 5).account.largest = 1 := by
  have hin : InRange (#[false, false] : Array Bool).size [(0, 1)] := by
    unfold InRange
    decide
  refine ⟨hin, rfl, fun honce => ?_, rfl, rfl⟩
  have htwice : ((ofEdges #[false, false] [(0, 1)]).depthAt 5).examined.count (1, 0) = 2 := rfl
  have hle := honce 5 (1, 0)
  omega

end Dependencies

end LogicSim
