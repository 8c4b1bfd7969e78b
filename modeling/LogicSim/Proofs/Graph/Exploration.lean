import LogicSim.Graph.Search
import Mathlib.Algebra.BigOperators.Ring.Finset
import Mathlib.Algebra.Order.BigOperators.Group.Finset
import Mathlib.Data.List.Chain
import Mathlib.Data.List.Infix
import Mathlib.Logic.Relation

/-!
# What a depth-first search keeps

The search is a machine. This file says once what a step of it can do (`Search.Step`) and derives
from that what every search of a graph with nodes `0 .. size - 1` keeps:

* `Search.Coherent` -- marks, path and trees tell the same story: the nodes of the path are the
  marked ones, the nodes of the trees are finished, each node of the path is a successor of the
  one below it, and no successor of a finished node is fresh;
* `Search.explore_over` -- the bound on the steps suffices: the search ends with an empty path and
  no roots left, because each step lowers `Search.work` by one;
* `Search.mem_done_explore` -- when every node is a root, every node is done with in the end, once.
-/

namespace LogicSim.Search

variable {succ : Nat → List Nat} {size : Nat}

/-! ## 1. Steps -/

/-- The nodes that the search is done with, latest first. -/
def done (s : Search) : List Nat := s.trees.flatten

/-- **What a step can do.** -/
inductive Step (succ : Nat → List Nat) : Search → Search → Prop where
  /-- a root that was met before -/
  | skip {marks : Array Mark} {r : Nat} {roots : List Nat} {trees : List (List Nat)}
      {loop : Option (List Nat)} (hr : marks.getD r .finished ≠ .fresh) :
      Step succ ⟨marks, [], r :: roots, trees, loop⟩ ⟨marks, [], roots, trees, loop⟩
  /-- a new tree begins -/
  | root {marks : Array Mark} {r : Nat} {roots : List Nat} {trees : List (List Nat)}
      {loop : Option (List Nat)} (hr : marks.getD r .finished = .fresh) :
      Step succ ⟨marks, [], r :: roots, trees, loop⟩
        ⟨marks.setIfInBounds r .onPath, [⟨r, succ r⟩], roots, [] :: trees, loop⟩
  /-- a successor is met for the first time -/
  | enter {marks : Array Mark} {v w : Nat} {rest : List Nat} {path : List Frame}
      {roots : List Nat} {trees : List (List Nat)} {loop : Option (List Nat)}
      (hw : marks.getD w .finished = .fresh) :
      Step succ ⟨marks, ⟨v, w :: rest⟩ :: path, roots, trees, loop⟩
        ⟨marks.setIfInBounds w .onPath, ⟨w, succ w⟩ :: ⟨v, rest⟩ :: path, roots, trees, loop⟩
  /-- a successor on the path closes a loop -/
  | close {marks : Array Mark} {v w : Nat} {rest : List Nat} {path : List Frame}
      {roots : List Nat} {trees : List (List Nat)} {loop : Option (List Nat)}
      (hw : marks.getD w .finished = .onPath) :
      Step succ ⟨marks, ⟨v, w :: rest⟩ :: path, roots, trees, loop⟩
        ⟨marks, ⟨v, rest⟩ :: path, roots, trees,
          loop.or (some (loopThrough (v :: path.map (·.node)) w))⟩
  /-- a successor is finished already -/
  | pass {marks : Array Mark} {v w : Nat} {rest : List Nat} {path : List Frame}
      {roots : List Nat} {trees : List (List Nat)} {loop : Option (List Nat)}
      (hw : marks.getD w .finished = .finished) :
      Step succ ⟨marks, ⟨v, w :: rest⟩ :: path, roots, trees, loop⟩
        ⟨marks, ⟨v, rest⟩ :: path, roots, trees, loop⟩
  /-- a node is done with -/
  | leave {marks : Array Mark} {v : Nat} {path : List Frame} {roots : List Nat}
      {trees : List (List Nat)} {loop : Option (List Nat)} :
      Step succ ⟨marks, ⟨v, []⟩ :: path, roots, trees, loop⟩
        ⟨marks.setIfInBounds v .finished, path, roots, addToTree v trees, loop⟩

theorem step_of_eq_some {s s' : Search} (h : s.step succ = some s') : Step succ s s' := by
  obtain ⟨marks, path, roots, trees, loop⟩ := s
  cases path with
  | nil =>
    cases roots with
    | nil => simp [step] at h
    | cons r roots =>
      by_cases hr : marks.getD r .finished = .fresh
      · simp only [step, mark, hr, if_true, Option.some.injEq] at h
        exact h ▸ .root hr
      · simp only [step, mark, hr, if_false, Option.some.injEq] at h
        exact h ▸ .skip hr
  | cons f path =>
    obtain ⟨v, pending⟩ := f
    cases pending with
    | nil =>
      simp only [step, Option.some.injEq] at h
      exact h ▸ .leave
    | cons w rest =>
      cases hw : marks.getD w .finished with
      | fresh =>
        simp only [step, mark, hw, Option.some.injEq] at h
        exact h ▸ .enter hw
      | onPath =>
        simp only [step, mark, hw, Option.some.injEq] at h
        exact h ▸ .close hw
      | finished =>
        simp only [step, mark, hw, Option.some.injEq] at h
        exact h ▸ .pass hw

/-- Only a search without path and roots has no further step. -/
theorem step_eq_none (succ : Nat → List Nat) {s : Search} (h : s.step succ = none) :
    s.path = [] ∧ s.roots = [] := by
  obtain ⟨marks, path, roots, trees, loop⟩ := s
  cases path with
  | nil =>
    cases roots with
    | nil => exact ⟨rfl, rfl⟩
    | cons r roots =>
      simp only [step] at h
      split at h <;> cases h
  | cons f path =>
    obtain ⟨v, pending⟩ := f
    cases pending with
    | nil => simp [step] at h
    | cons w rest =>
      simp only [step] at h
      split at h <;> cases h

/-- What every step keeps, a run keeps. -/
theorem run_keeps {P : Search → Prop} (hstep : ∀ s s', P s → Step succ s s' → P s') (fuel : Nat)
    {s : Search} (h : P s) : P (run succ fuel s) := by
  induction fuel generalizing s with
  | zero => exact h
  | succ fuel ih =>
    unfold run
    split
    · exact h
    · rename_i s' hs
      exact ih (hstep s s' h (step_of_eq_some hs))

/-! ## 2. Marks -/

/-- Writing at a place of an array changes this place only. -/
theorem getD_setIfInBounds {α : Type} {xs : Array α} {w : Nat} (hw : w < xs.size) (x : α) {d : α}
    (v : Nat) : (xs.setIfInBounds w x).getD v d = if v = w then x else xs.getD v d := by
  simp only [Array.getD_eq_getD_getElem?, Array.getElem?_setIfInBounds, hw, if_true]
  by_cases h : v = w
  · simp [h]
  · have h' : ¬ w = v := fun e => h e.symm
    simp [h, h']

/-- A node with another mark than `finished` is in the graph. -/
theorem lt_of_getD_ne {marks : Array Mark} {w : Nat} (h : marks.getD w .finished ≠ .finished) :
    w < marks.size := by
  refine Classical.byContradiction fun hw => h ?_
  simp [Array.getD_eq_getD_getElem?, Array.getElem?_eq_none (Nat.le_of_not_lt hw)]

/-! ## 3. The bound -/

/-- What a node costs that has not been met. -/
def cost (succ : Nat → List Nat) (marks : Array Mark) (v : Nat) : Nat :=
  if marks.getD v .finished = .fresh then (succ v).length + 1 else 0

/-- The number of steps that are left. -/
def work (succ : Nat → List Nat) (s : Search) : Nat :=
  s.roots.length + (s.path.map fun f => f.pending.length + 1).sum
    + ∑ v ∈ Finset.range s.marks.size, cost succ s.marks v

/-- A sum that loses one of its terms. -/
theorem sum_range_drop {f g : Nat → Nat} {n w : Nat} (hw : w < n) (hdrop : g w = 0)
    (hrest : ∀ v, v ≠ w → g v = f v) :
    ∑ v ∈ Finset.range n, g v + f w = ∑ v ∈ Finset.range n, f v := by
  have hmem : w ∈ Finset.range n := Finset.mem_range.mpr hw
  rw [← Finset.add_sum_erase _ _ hmem, ← Finset.add_sum_erase _ f hmem, hdrop, Nat.zero_add,
    Finset.sum_congr rfl fun v hv => hrest v (Finset.ne_of_mem_erase hv), Nat.add_comm]

/-- Marking a fresh node takes its cost off. -/
theorem sum_cost_set (succ : Nat → List Nat) {marks : Array Mark} {w : Nat}
    (hw : marks.getD w .finished = .fresh) {m : Mark} (hm : m ≠ .fresh) :
    ∑ v ∈ Finset.range (marks.setIfInBounds w m).size, cost succ (marks.setIfInBounds w m) v
      + ((succ w).length + 1) = ∑ v ∈ Finset.range marks.size, cost succ marks v := by
  have hlt : w < marks.size := lt_of_getD_ne (by rw [hw]; decide)
  have hcost : cost succ marks w = (succ w).length + 1 := if_pos hw
  rw [Array.size_setIfInBounds, ← hcost]
  refine sum_range_drop hlt ?_ fun v hv => ?_
  · simp [cost, getD_setIfInBounds hlt, hm]
  · simp [cost, getD_setIfInBounds hlt, hv]

/-- Marking a node as met raises no cost. -/
theorem sum_cost_set_le (succ : Nat → List Nat) (marks : Array Mark) (w : Nat) {m : Mark}
    (hm : m ≠ .fresh) :
    ∑ v ∈ Finset.range (marks.setIfInBounds w m).size, cost succ (marks.setIfInBounds w m) v ≤
      ∑ v ∈ Finset.range marks.size, cost succ marks v := by
  rw [Array.size_setIfInBounds]
  refine Finset.sum_le_sum fun v _ => ?_
  by_cases hlt : w < marks.size
  · by_cases h : v = w
    · simp [cost, getD_setIfInBounds hlt, hm, h]
    · simp [cost, getD_setIfInBounds hlt, h]
  · rw [Array.setIfInBounds, dif_neg hlt]

/-- **Each step leaves fewer steps.** -/
theorem work_lt {s s' : Search} (h : Step succ s s') : work succ s' < work succ s := by
  cases h with
  | skip hr => simp [work]
  | root hr =>
    have := sum_cost_set succ hr (m := .onPath) (by decide)
    simp only [work, List.length_cons, List.map_cons, List.map_nil, List.sum_cons, List.sum_nil]
    omega
  | enter hw =>
    have := sum_cost_set succ hw (m := .onPath) (by decide)
    simp only [work, List.length_cons, List.map_cons, List.sum_cons]
    omega
  | close hw =>
    simp only [work, List.length_cons, List.map_cons, List.sum_cons]
    omega
  | pass hw =>
    simp only [work, List.length_cons, List.map_cons, List.sum_cons]
    omega
  | @leave marks v =>
    have := sum_cost_set_le succ marks v (m := .finished) (by decide)
    simp only [work, List.length_nil, List.map_cons, List.sum_cons]
    omega

/-- A run with as many steps as there is work ends the search. -/
theorem run_over (fuel : Nat) {s : Search} (h : work succ s ≤ fuel) :
    (run succ fuel s).path = [] ∧ (run succ fuel s).roots = [] := by
  induction fuel generalizing s with
  | zero =>
    refine step_eq_none succ ?_
    cases hs : s.step succ with
    | none => simpa [run] using hs
    | some s' =>
      have := work_lt (step_of_eq_some hs)
      omega
  | succ fuel ih =>
    unfold run
    split
    · rename_i hs
      exact step_eq_none succ hs
    · rename_i s' hs
      have := work_lt (step_of_eq_some hs)
      exact ih (by omega)

theorem work_start (size : Nat) (roots : List Nat) :
    work succ (start size roots) = bound succ size roots := by
  have hcost : ∀ v ∈ Finset.range size,
      cost succ (Array.replicate size .fresh) v = (succ v).length + 1 := by
    intro v hv
    have hlt : v < size := Finset.mem_range.mp hv
    simp [cost, hlt]
  have hsum : ((List.range size).map fun v => (succ v).length).foldr (· + ·) 0 =
      ∑ v ∈ Finset.range size, (succ v).length := rfl
  simp only [work, start, bound, Array.size_replicate, List.map_nil, List.sum_nil]
  rw [Finset.sum_congr rfl hcost, Finset.sum_add_distrib, hsum, ← Finset.card_eq_sum_ones,
    Finset.card_range]
  omega

/-- **The bound suffices**: a search ends with an empty path and no roots left. -/
theorem explore_over (succ : Nat → List Nat) (size : Nat) (roots : List Nat) :
    (explore succ size roots).path = [] ∧ (explore succ size roots).roots = [] :=
  run_over _ (work_start size roots).le

/-! ## 4. Coherence -/

/-- Marks, path and trees of a search tell the same story. -/
structure Coherent (succ : Nat → List Nat) (size : Nat) (s : Search) : Prop where
  size_marks : s.marks.size = size
  onPath : ∀ v, s.mark v = .onPath ↔ v ∈ s.pathNodes
  finished : ∀ v, v < size → (s.mark v = .finished ↔ v ∈ s.done)
  done_lt : ∀ v ∈ s.done, v < size
  nodup_path : s.pathNodes.Nodup
  nodup_done : s.done.Nodup
  /-- nodes that have not been met are still roots to be taken -/
  rooted : ∀ v, s.mark v = .fresh → v ∈ s.roots
  /-- each node of the path is a successor of the one below -/
  chain : s.path.IsChain fun above below => above.node ∈ succ below.node
  pending : ∀ f ∈ s.path, ∀ w ∈ f.pending, w ∈ succ f.node
  /-- the successors that were looked at have been met -/
  looked : ∀ f ∈ s.path, ∀ w ∈ succ f.node, w ∈ f.pending ∨ s.mark w ≠ .fresh
  closed : ∀ v ∈ s.done, ∀ w ∈ succ v, s.mark w ≠ .fresh
  /-- a path belongs to a tree -/
  tree : s.path ≠ [] → s.trees ≠ []

theorem coherent_start {roots : List Nat} (hroots : ∀ v < size, v ∈ roots) :
    Coherent succ size (start size roots) where
  size_marks := Array.size_replicate ..
  onPath v := by
    by_cases h : v < size <;> simp [mark, start, pathNodes, Array.getD_eq_getD_getElem?, h]
  finished v hv := by simp [mark, start, done, hv]
  done_lt v hv := by simp [done, start] at hv
  nodup_path := List.nodup_nil
  nodup_done := List.nodup_nil
  rooted v hv := by
    have hlt : v < (start size roots).marks.size := lt_of_getD_ne (by rw [← mark, hv]; decide)
    exact hroots v (by rwa [start, Array.size_replicate] at hlt)
  chain := List.isChain_nil
  pending f hf := by simp [start] at hf
  looked f hf := by simp [start] at hf
  closed v hv := by simp [done, start] at hv
  tree h := absurd rfl h

/-- The marks after a node in the graph was marked. -/
theorem mark_set {marks : Array Mark} {w : Nat} (hw : marks.getD w .finished ≠ .finished)
    {m : Mark} {path : List Frame} {roots : List Nat} {trees : List (List Nat)}
    {loop : Option (List Nat)} (v : Nat) :
    mark ⟨marks.setIfInBounds w m, path, roots, trees, loop⟩ v =
      if v = w then m else marks.getD v .finished :=
  getD_setIfInBounds (lt_of_getD_ne hw) m v

/-- What a frame keeps when the head of its pending successors has been met. -/
theorem looked_tail {marks : Array Mark} {f : Frame} {w : Nat} {rest : List Nat}
    (hw : marks.getD w .finished ≠ .fresh) (hf : f.pending = w :: rest)
    (h : ∀ u ∈ succ f.node, u ∈ f.pending ∨ marks.getD u .finished ≠ .fresh) :
    ∀ u ∈ succ f.node, u ∈ rest ∨ marks.getD u .finished ≠ .fresh := by
  intro u hu
  rcases h u hu with hp | hp
  · rw [hf] at hp
    rcases List.mem_cons.mp hp with rfl | hp
    · exact Or.inr hw
    · exact Or.inl hp
  · exact Or.inr hp

/-- Looking at a successor that has been met keeps the story. -/
theorem Coherent.advance {marks : Array Mark} {v w : Nat} {rest : List Nat} {path : List Frame}
    {roots : List Nat} {trees : List (List Nat)} {loop loop' : Option (List Nat)}
    (hw : marks.getD w .finished ≠ .fresh)
    (h : Coherent succ size ⟨marks, ⟨v, w :: rest⟩ :: path, roots, trees, loop⟩) :
    Coherent succ size ⟨marks, ⟨v, rest⟩ :: path, roots, trees, loop'⟩ where
  size_marks := h.size_marks
  onPath := h.onPath
  finished := h.finished
  done_lt := h.done_lt
  nodup_path := h.nodup_path
  nodup_done := h.nodup_done
  rooted := h.rooted
  chain := by
    have hc := h.chain
    rw [List.isChain_cons] at hc ⊢
    exact hc
  pending f hf u hu := by
    rcases List.mem_cons.mp hf with rfl | hf
    · exact h.pending ⟨v, w :: rest⟩ List.mem_cons_self u (List.mem_cons_of_mem _ hu)
    · exact h.pending f (List.mem_cons_of_mem _ hf) u hu
  looked f hf := by
    rcases List.mem_cons.mp hf with rfl | hf
    · exact looked_tail (f := ⟨v, w :: rest⟩) hw rfl (h.looked _ List.mem_cons_self)
    · exact h.looked f (List.mem_cons_of_mem _ hf)
  closed := h.closed
  tree _ := h.tree (List.cons_ne_nil _ _)

/-- **Meeting a fresh node keeps the story**, be it a root or a successor of the innermost node. -/
theorem Coherent.push {s : Search} {w : Nat} {path : List Frame} {roots : List Nat}
    {trees : List (List Nat)} {loop : Option (List Nat)} (h : Coherent succ size s)
    (hw : s.mark w = .fresh) (hnodes : path.map (·.node) = s.pathNodes)
    (hchain : path.IsChain fun above below => above.node ∈ succ below.node)
    (hhead : ∀ f ∈ path.head?, w ∈ succ f.node)
    (hpending : ∀ f ∈ path, ∀ u ∈ f.pending, u ∈ succ f.node)
    (hlooked : ∀ f ∈ path, ∀ u ∈ succ f.node, u = w ∨ u ∈ f.pending ∨ s.mark u ≠ .fresh)
    (hroots : ∀ u ∈ s.roots, u = w ∨ u ∈ roots) (hdone : trees.flatten = s.done)
    (htrees : trees ≠ []) :
    Coherent succ size
      ⟨s.marks.setIfInBounds w .onPath, ⟨w, succ w⟩ :: path, roots, trees, loop⟩ := by
  have hne : s.marks.getD w .finished ≠ .finished := by rw [← mark, hw]; decide
  have hlt : w < size := h.size_marks ▸ lt_of_getD_ne hne
  have hpath : w ∉ path.map (·.node) := fun hm => by
    have := (h.onPath w).mpr (hnodes ▸ hm)
    rw [hw] at this
    cases this
  have hnd : w ∉ s.done := fun hm => by
    have := (h.finished w hlt).mpr hm
    rw [hw] at this
    cases this
  have hmet : ∀ u, u = w ∨ s.mark u ≠ .fresh →
      (if u = w then .onPath else s.marks.getD u .finished) ≠ Mark.fresh := by
    intro u hu
    split
    · decide
    · rename_i huw
      exact hu.resolve_left huw
  refine
    { size_marks := by rw [Array.size_setIfInBounds]; exact h.size_marks
      onPath := fun u => ?_
      finished := fun u hu => ?_
      done_lt := fun u hu => h.done_lt u (hdone ▸ hu)
      nodup_path := List.nodup_cons.mpr ⟨hpath, hnodes ▸ h.nodup_path⟩
      nodup_done := by rw [done, hdone]; exact h.nodup_done
      rooted := fun u hu => ?_
      chain := List.isChain_cons.mpr ⟨hhead, hchain⟩
      pending := fun f hf u hu => ?_
      looked := fun f hf u hu => ?_
      closed := fun u hu x hx => ?_
      tree := fun _ => htrees }
  · rw [mark_set hne]
    by_cases huw : u = w
    · simp [huw, pathNodes]
    · rw [if_neg huw]
      show s.mark u = .onPath ↔ u ∈ w :: path.map (·.node)
      rw [h.onPath, List.mem_cons, hnodes]
      simp [huw]
  · rw [mark_set hne, done, hdone]
    by_cases huw : u = w
    · rw [if_pos huw, huw]
      exact ⟨(fun e => by cases e), fun hm => absurd hm hnd⟩
    · rw [if_neg huw]
      exact h.finished u hu
  · rw [mark_set hne] at hu
    by_cases huw : u = w
    · rw [if_pos huw] at hu
      cases hu
    · rw [if_neg huw] at hu
      exact (hroots u (h.rooted u hu)).resolve_left huw
  · rcases List.mem_cons.mp hf with rfl | hf
    · exact hu
    · exact hpending f hf u hu
  · rw [mark_set hne]
    rcases List.mem_cons.mp hf with rfl | hf
    · exact Or.inl hu
    · rcases hlooked f hf u hu with e | hp | hp
      · exact Or.inr (hmet u (Or.inl e))
      · exact Or.inl hp
      · exact Or.inr (hmet u (Or.inr hp))
  · rw [mark_set hne]
    exact hmet x (Or.inr (h.closed u (hdone ▸ hu) x hx))

theorem flatten_addToTree (v : Nat) (trees : List (List Nat)) :
    (addToTree v trees).flatten = v :: trees.flatten := by
  cases trees <;> rfl

/-- Being done with the innermost node keeps the story. -/
theorem Coherent.leave {marks : Array Mark} {v : Nat} {path : List Frame} {roots : List Nat}
    {trees : List (List Nat)} {loop : Option (List Nat)}
    (h : Coherent succ size ⟨marks, ⟨v, []⟩ :: path, roots, trees, loop⟩) :
    Coherent succ size
      ⟨marks.setIfInBounds v .finished, path, roots, addToTree v trees, loop⟩ := by
  have hv : marks.getD v .finished = .onPath := (h.onPath v).mpr List.mem_cons_self
  have hne : marks.getD v .finished ≠ .finished := by rw [hv]; decide
  have hlt : v < size := h.size_marks ▸ lt_of_getD_ne hne
  have hpath : v ∉ path.map (·.node) := (List.nodup_cons.mp h.nodup_path).1
  have hnd : v ∉ trees.flatten := fun hm => hne ((h.finished v hlt).mpr hm)
  have hmet : ∀ u, marks.getD u .finished ≠ .fresh →
      (if u = v then .finished else marks.getD u .finished) ≠ Mark.fresh := by
    intro u hu
    split
    · decide
    · exact hu
  have hdone : ∀ u, u ∈ (addToTree v trees).flatten ↔ u = v ∨ u ∈ trees.flatten := by
    intro u
    rw [flatten_addToTree, List.mem_cons]
  refine
    { size_marks := by rw [Array.size_setIfInBounds]; exact h.size_marks
      onPath := fun u => ?_
      finished := fun u hu => ?_
      done_lt := fun u hu => ?_
      nodup_path := (List.nodup_cons.mp h.nodup_path).2
      nodup_done := ?_
      rooted := fun u hu => ?_
      chain := (List.isChain_cons.mp h.chain).2
      pending := fun f hf => h.pending f (List.mem_cons_of_mem _ hf)
      looked := fun f hf u hu => ?_
      closed := fun u hu x hx => ?_
      tree := fun _ => by cases trees <;> simp [addToTree] }
  · rw [mark_set hne]
    by_cases huv : u = v
    · rw [if_pos huv, huv]
      exact ⟨(fun e => by cases e), fun hm => absurd hm hpath⟩
    · rw [if_neg huv]
      refine (h.onPath u).trans ?_
      simp [pathNodes, huv]
  · rw [mark_set hne, done, hdone]
    by_cases huv : u = v
    · simp [huv]
    · rw [if_neg huv]
      exact (h.finished u hu).trans (by simp [huv, done])
  · rcases (hdone u).mp hu with rfl | hu
    · exact hlt
    · exact h.done_lt u hu
  · rw [done, flatten_addToTree]
    exact List.nodup_cons.mpr ⟨hnd, h.nodup_done⟩
  · rw [mark_set hne] at hu
    by_cases huv : u = v
    · rw [if_pos huv] at hu
      cases hu
    · rw [if_neg huv] at hu
      exact h.rooted u hu
  · rw [mark_set hne]
    exact (h.looked f (List.mem_cons_of_mem _ hf) u hu).imp id (hmet u)
  · rw [mark_set hne]
    rcases (hdone u).mp hu with rfl | hu
    · -- nothing is pending any more at the innermost node
      exact hmet x ((h.looked _ List.mem_cons_self x hx).resolve_left List.not_mem_nil)
    · exact hmet x (h.closed u hu x hx)

/-- **Each step keeps the story.** -/
theorem Coherent.step {s s' : Search} (h : Coherent succ size s) (hs : Step succ s s') :
    Coherent succ size s' := by
  cases hs with
  | @skip marks r roots trees loop hr =>
    refine { h with rooted := fun u hu => ?_ }
    rcases List.mem_cons.mp (h.rooted u hu) with rfl | hm
    · exact absurd hu hr
    · exact hm
  | root hr =>
    exact h.push hr rfl List.isChain_nil (fun f hf => by cases hf)
      (fun f hf => absurd hf List.not_mem_nil) (fun f hf => absurd hf List.not_mem_nil)
      (fun u hu => List.mem_cons.mp hu) (List.flatten_cons ..) (List.cons_ne_nil _ _)
  | @enter marks v w rest path roots trees loop hw =>
    have hc := List.isChain_cons.mp h.chain
    refine h.push hw rfl (List.isChain_cons.mpr hc) (fun f hf => ?_) (fun f hf u hu => ?_)
      (fun f hf u hu => ?_) (fun u hu => Or.inr hu) rfl (h.tree (List.cons_ne_nil _ _))
    · obtain rfl : (⟨v, rest⟩ : Frame) = f := Option.some.inj hf
      exact h.pending ⟨v, w :: rest⟩ List.mem_cons_self w List.mem_cons_self
    · rcases List.mem_cons.mp hf with rfl | hf
      · exact h.pending ⟨v, w :: rest⟩ List.mem_cons_self u (List.mem_cons_of_mem _ hu)
      · exact h.pending f (List.mem_cons_of_mem _ hf) u hu
    · rcases List.mem_cons.mp hf with rfl | hf
      · rcases h.looked ⟨v, w :: rest⟩ List.mem_cons_self u hu with hp | hp
        · exact (List.mem_cons.mp hp).imp id Or.inl
        · exact Or.inr (Or.inr hp)
      · exact Or.inr (h.looked f (List.mem_cons_of_mem _ hf) u hu)
  | close hw => exact h.advance (by rw [hw]; decide)
  | pass hw => exact h.advance (by rw [hw]; decide)
  | leave => exact h.leave

/-! ## 5. The end of a search -/

section Explore

variable {roots : List Nat} (hroots : ∀ v < size, v ∈ roots)
include hroots

theorem coherent_explore (succ : Nat → List Nat) : Coherent succ size (explore succ size roots) :=
  run_keeps (fun _ _ h hs => h.step hs) _ (coherent_start hroots)

/-- In the end every node is finished. -/
theorem mark_explore (succ : Nat → List Nat) (v : Nat) :
    (explore succ size roots).mark v = .finished := by
  have h := coherent_explore hroots succ
  have hover := explore_over succ size roots
  cases hm : (explore succ size roots).mark v with
  | fresh =>
    have := h.rooted v hm
    rw [hover.2] at this
    cases this
  | onPath =>
    have := (h.onPath v).mp hm
    rw [pathNodes, hover.1] at this
    cases this
  | finished => rfl

/-- **In the end the search is done with every node.** -/
theorem mem_done_explore (succ : Nat → List Nat) (v : Nat) :
    v ∈ (explore succ size roots).done ↔ v < size := by
  have h := coherent_explore hroots succ
  exact ⟨h.done_lt v, fun hv => (h.finished v hv).mp (mark_explore hroots succ v)⟩

end Explore

end LogicSim.Search
