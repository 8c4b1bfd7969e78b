import LogicSim.Proofs.Graph.Exploration

/-!
# Orders and loops found by a search

A search that meets no loop is done with every node after the successors of the node; one that does
meet a loop keeps a closed walk.

* `Search.Settled` -- in a list of nodes, latest first, every node comes with its successors behind;
* `Search.settled_explore` -- the nodes a search is done with are settled if it met no loop;
* `Search.IsLoop` -- a closed walk that repeats no node but the first;
* `Search.isLoop_explore` -- the loop of a search is one.

Since a settled list admits no closed walk (`Search.Settled.acyclic`), a search meets a loop exactly
when there is one (`Search.loop_eq_none_iff`).
-/

namespace LogicSim.Search

open Relation

variable {succ : Nat → List Nat} {size : Nat}

/-! ## 1. Without a loop -/

/-- **Every node of a list comes with its successors behind it.** Successors outside of the graph do
    not count. -/
def Settled (succ : Nat → List Nat) (size : Nat) : List Nat → Prop
  | [] => True
  | v :: rest => (∀ w ∈ succ v, w < size → w ∈ rest) ∧ Settled succ size rest

/-- What a search keeps as long as it meets no loop: a successor that a frame does not look at any
    more is finished, or is the node right above. -/
structure Descent (succ : Nat → List Nat) (size : Nat) (s : Search) : Prop where
  settled : Settled succ size s.done
  head : ∀ f ∈ s.path.head?, ∀ w ∈ succ f.node, w ∈ f.pending ∨ s.mark w = .finished
  chain : s.path.IsChain fun above below =>
    ∀ w ∈ succ below.node, w ∈ below.pending ∨ s.mark w = .finished ∨ w = above.node

theorem Descent.step {s s' : Search} (hc : Coherent succ size s) (hs : Step succ s s')
    (h : s.loop = none → Descent succ size s) : s'.loop = none → Descent succ size s' := by
  cases hs with
  | skip hr =>
    intro hl
    exact ⟨(h hl).settled, (fun f hf => by cases hf), List.isChain_nil⟩
  | root hr =>
    intro hl
    refine ⟨(h hl).settled, fun f hf w hw => ?_, List.isChain_singleton _⟩
    obtain rfl := Option.some.inj hf
    exact Or.inl hw
  | @enter marks v w rest path roots trees loop hw =>
    intro hl
    obtain ⟨hset, hhead, hchain⟩ := h hl
    have hne : marks.getD w .finished ≠ .finished := by rw [hw]; decide
    -- a finished node stays finished when the fresh one is marked
    have hmono : ∀ u, marks.getD u .finished = .finished →
        mark ⟨marks.setIfInBounds w .onPath, ⟨w, succ w⟩ :: ⟨v, rest⟩ :: path, roots, trees, loop⟩ u
          = .finished := by
      intro u hu
      have huw : u ≠ w := fun e => hne (e ▸ hu)
      rw [mark_set hne, if_neg huw]
      exact hu
    refine ⟨hset, fun f hf u hu => ?_, List.isChain_cons_cons.mpr ⟨fun u hu => ?_, ?_⟩⟩
    · obtain rfl := Option.some.inj hf
      exact Or.inl hu
    · rcases hhead ⟨v, w :: rest⟩ rfl u hu with hp | hf
      · rcases List.mem_cons.mp hp with rfl | hp
        · exact Or.inr (Or.inr rfl)
        · exact Or.inl hp
      · exact Or.inr (Or.inl (hmono u hf))
    · rw [List.isChain_cons] at hchain ⊢
      refine ⟨fun g hg u hu => ?_, hchain.2.imp fun a b hab u hu => ?_⟩
      · exact (hchain.1 g hg u hu).imp id (Or.imp (hmono u) id)
      · exact (hab u hu).imp id (Or.imp (hmono u) id)
  | close hw =>
    intro hl
    simp at hl
  | @pass marks v w rest path roots trees loop hw =>
    intro hl
    obtain ⟨hset, hhead, hchain⟩ := h hl
    refine ⟨hset, fun f hf u hu => ?_, ?_⟩
    · obtain rfl : (⟨v, rest⟩ : Frame) = f := Option.some.inj hf
      rcases hhead ⟨v, w :: rest⟩ rfl u hu with hp | hp
      · rcases List.mem_cons.mp hp with rfl | hp
        · exact Or.inr hw
        · exact Or.inl hp
      · exact Or.inr hp
    · rw [List.isChain_cons] at hchain ⊢
      exact hchain
  | @leave marks v path roots trees loop =>
    intro hl
    obtain ⟨hset, hhead, hchain⟩ := h hl
    have hv : marks.getD v .finished = .onPath := (hc.onPath v).mpr List.mem_cons_self
    have hne : marks.getD v .finished ≠ .finished := by rw [hv]; decide
    have hmark : ∀ u, mark ⟨marks.setIfInBounds v .finished, path, roots, addToTree v trees, loop⟩ u
        = if u = v then .finished else marks.getD u .finished := mark_set hne
    have hmono : ∀ u, marks.getD u .finished = .finished →
        mark ⟨marks.setIfInBounds v .finished, path, roots, addToTree v trees, loop⟩ u
          = .finished := by
      intro u hu
      rw [hmark]
      split
      · rfl
      · exact hu
    rw [List.isChain_cons] at hchain
    refine ⟨?_, fun f hf u hu => ?_, hchain.2.imp fun a b hab u hu => ?_⟩
    · rw [done, flatten_addToTree]
      refine ⟨fun u hu hlt => ?_, hset⟩
      have hfin := (hhead ⟨v, []⟩ rfl u hu).resolve_left List.not_mem_nil
      exact (hc.finished u hlt).mp hfin
    · rcases hchain.1 f hf u hu with hp | hp | rfl
      · exact Or.inl hp
      · exact Or.inr (hmono u hp)
      · rw [hmark]
        exact Or.inr (if_pos rfl)
    · exact (hab u hu).imp id (Or.imp (hmono u) id)

/-- **A search that meets no loop is done with every node after its successors.** -/
theorem settled_explore {roots : List Nat} (hroots : ∀ v < size, v ∈ roots)
    (hloop : (explore succ size roots).loop = none) :
    Settled succ size (explore succ size roots).done := by
  have hkeep := run_keeps (P := fun s => Coherent succ size s ∧ (s.loop = none → Descent succ size s))
    (fun s s' h hs => ⟨h.1.step hs, Descent.step h.1 hs h.2⟩) (bound succ size roots)
    (s := start size roots)
    ⟨coherent_start hroots, fun _ => ⟨trivial, (fun f hf => by cases hf), List.isChain_nil⟩⟩
  exact (hkeep.2 hloop).settled

theorem Settled.of_append : ∀ {a : List Nat} {b : List Nat},
    Settled succ size (a ++ b) → Settled succ size b
  | [], _, h => h
  | _ :: _, _, h => Settled.of_append h.2

/-- In a settled list the successors of a node stand behind it. -/
theorem Settled.behind {a b : List Nat} {v w : Nat} (h : Settled succ size (a ++ v :: b))
    (hw : w ∈ succ v) (hlt : w < size) : w ∈ b :=
  (Settled.of_append h).1 w hw hlt

/-- Where the successors of every node stand behind it, whatever is reached stands behind. -/
theorem Settled.behind_of_transGen {v : Nat} {b : List Nat} (h : Settled succ size (v :: b)) {w : Nat}
    (hw : TransGen (fun x y => y ∈ succ x ∧ y < size) v w) : w ∈ b := by
  induction hw with
  | single hw => exact h.1 _ hw.1 hw.2
  | tail _ hw ih =>
    obtain ⟨l, r, rfl⟩ := List.append_of_mem ih
    exact List.mem_append_right _ (List.mem_cons_of_mem _ (Settled.behind h.2 hw.1 hw.2))

/-- **A settled list without repetitions admits no closed walk.** -/
theorem Settled.acyclic {l : List Nat} (h : Settled succ size l) (hnodup : l.Nodup) {v : Nat}
    (hv : v ∈ l) : ¬ TransGen (fun x y => y ∈ succ x ∧ y < size) v v := by
  intro hw
  obtain ⟨a, b, rfl⟩ := List.append_of_mem hv
  have hmem : v ∈ b := (Settled.of_append h).behind_of_transGen hw
  exact (List.nodup_cons.mp (List.nodup_append.mp hnodup).2.1).1 hmem

/-! ## 2. With a loop -/

/-- A closed walk against the edges that repeats no node but the first: each node is a successor of
    the next one. -/
structure IsLoop (succ : Nat → List Nat) (size : Nat) (l : List Nat) : Prop where
  chain : l.IsChain fun a b => a ∈ succ b
  closed : l.head? = l.getLast?
  long : 2 ≤ l.length
  nodup : l.tail.Nodup
  lt : ∀ v ∈ l, v < size

/-- **The path up to a node, closed by an edge to this node, is a loop.** -/
theorem isLoop_loopThrough {path : List Nat} {v w : Nat} (hw : w ∈ v :: path)
    (hedge : w ∈ succ v) (hchain : (v :: path).IsChain fun a b => a ∈ succ b)
    (hnodup : (v :: path).Nodup) (hlt : ∀ u ∈ v :: path, u < size) :
    IsLoop succ size (loopThrough (v :: path) w) := by
  obtain ⟨a, b, hab, hwa⟩ : ∃ a b, v :: path = a ++ w :: b ∧ ∀ u ∈ a, u ≠ w := by
    obtain ⟨a, b, hab⟩ := List.append_of_mem hw
    refine ⟨a, b, hab, fun u hu e => ?_⟩
    rw [hab] at hnodup
    exact (List.nodup_append.mp hnodup).2.2 u hu w List.mem_cons_self e
  have htake : (v :: path).takeWhile (· ≠ w) = a := by
    rw [hab, List.takeWhile_append_of_pos (by simpa using hwa)]
    simp
  have hloop : loopThrough (v :: path) w = a ++ [w, v] := by
    rw [loopThrough, htake]
    rfl
  have hsplit := hab ▸ hchain
  have hhead : (a ++ [w]).head? = some v := by
    have := congrArg List.head? hab
    cases a <;> simpa using this.symm
  rw [hloop, show a ++ [w, v] = (a ++ [w]) ++ [v] by simp]
  refine
    { chain := List.isChain_append.mpr ⟨(List.isChain_split.mp hsplit).1, List.isChain_singleton _, ?_⟩
      closed := ?_
      long := by simp
      nodup := ?_
      lt := fun u hu => ?_ }
  · intro x hx y hy
    obtain rfl : w = x := by simpa using hx
    obtain rfl : v = y := by simpa using hy
    exact hedge
  · rw [List.head?_append, hhead]
    simp
  · -- without its first node the walk is the path up to the node, in another order
    have hperm : ((a ++ [w]) ++ [v]).tail.Perm (a ++ [w]) := by
      cases a with
      | nil =>
        obtain rfl : w = v := by simpa using hhead
        exact List.Perm.refl _
      | cons x a =>
        obtain rfl : x = v := by simpa using hhead
        simpa using List.perm_append_singleton x (a ++ [w])
    rw [hperm.nodup_iff]
    rw [hab, List.append_cons] at hnodup
    exact (List.nodup_append.mp hnodup).1
  · refine hlt u ?_
    rw [hab]
    rcases List.mem_append.mp hu with hu | hu
    · rcases List.mem_append.mp hu with hu | hu
      · exact List.mem_append_left _ hu
      · exact List.mem_append_right _ (List.mem_singleton.mp hu ▸ List.mem_cons_self)
    · rw [List.mem_singleton.mp hu, ← hab]
      exact List.mem_cons_self

theorem isLoop_step {s s' : Search} (hc : Coherent succ size s) (hs : Step succ s s')
    (h : ∀ l, s.loop = some l → IsLoop succ size l) : ∀ l, s'.loop = some l → IsLoop succ size l := by
  cases hs with
  | @close marks v w rest path roots trees loop hw =>
    intro l hl
    rcases Option.or_eq_some_iff.mp hl with hl | ⟨_, hl⟩
    · exact h l hl
    · rw [← Option.some.inj hl]
      have hchain : (v :: path.map (·.node)).IsChain fun a b => a ∈ succ b :=
        (List.isChain_map (R := fun a b => a ∈ succ b) Frame.node
          (l := ⟨v, w :: rest⟩ :: path)).mpr hc.chain
      refine isLoop_loopThrough ((hc.onPath w).mp hw)
        (hc.pending _ List.mem_cons_self w List.mem_cons_self) hchain hc.nodup_path fun u hu => ?_
      have hu' : marks.getD u .finished = .onPath := (hc.onPath u).mpr hu
      exact hc.size_marks ▸ lt_of_getD_ne (by rw [hu']; decide)
  | _ => exact h

/-- **The loop that a search keeps is one.** -/
theorem isLoop_explore {roots : List Nat} (hroots : ∀ v < size, v ∈ roots) {l : List Nat}
    (hl : (explore succ size roots).loop = some l) : IsLoop succ size l := by
  have hkeep := run_keeps
    (P := fun s => Coherent succ size s ∧ ∀ l, s.loop = some l → IsLoop succ size l)
    (fun s s' h hs => ⟨h.1.step hs, isLoop_step h.1 hs h.2⟩) (bound succ size roots)
    (s := start size roots) ⟨coherent_start hroots, fun l hl => by cases hl⟩
  exact hkeep.2 l hl

/-- From one node of a chain every later one is reached, one by one. -/
theorem transGen_of_isChain {R : Nat → Nat → Prop} : ∀ {a : Nat} {l : List Nat},
    (a :: l).IsChain R → ∀ b ∈ l, TransGen R a b
  | _, [], _, _, hb => absurd hb List.not_mem_nil
  | _, c :: l, h, b, hb => by
    obtain ⟨hac, hl⟩ := List.isChain_cons_cons.mp h
    rcases List.mem_cons.mp hb with rfl | hb
    · exact .single hac
    · exact .head hac (transGen_of_isChain hl b hb)

/-- A loop is a closed walk. -/
theorem IsLoop.transGen {l : List Nat} (h : IsLoop succ size l) :
    ∃ v < size, TransGen (fun x y => y ∈ succ x ∧ y < size) v v := by
  obtain ⟨hchain, hclosed, hlong, -, hlt⟩ := h
  match l, hlong with
  | a :: b :: rest, _ =>
    have hlast : (b :: rest).getLast? = some a := by
      rw [List.getLast?_cons_cons] at hclosed
      exact hclosed.symm
    have hmem : a ∈ b :: rest := List.mem_of_getLast? hlast
    -- the list runs against the successors, so the walk is turned round
    have hback : (a :: b :: rest).IsChain fun x y => x ∈ succ y ∧ x < size :=
      hchain.imp_of_mem_imp fun x y hx _ hxy => ⟨hxy, hlt x hx⟩
    refine ⟨a, hlt a List.mem_cons_self, ?_⟩
    exact transGen_swap.mp (transGen_of_isChain hback a hmem)

/-- **A search meets a loop exactly when there is one.** -/
theorem loop_eq_none_iff {roots : List Nat} (hroots : ∀ v < size, v ∈ roots) :
    (explore succ size roots).loop = none ↔
      ∀ v < size, ¬ TransGen (fun x y => y ∈ succ x ∧ y < size) v v := by
  constructor
  · intro hl v hv
    have hmem := (mem_done_explore hroots succ v).mpr hv
    exact (settled_explore hroots hl).acyclic (coherent_explore hroots succ).nodup_done hmem
  · intro h
    cases hl : (explore succ size roots).loop with
    | none => rfl
    | some l =>
      obtain ⟨v, hv, hloop⟩ := (isLoop_explore hroots hl).transGen
      exact absurd hloop (h v hv)

end LogicSim.Search
