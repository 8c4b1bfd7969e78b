import LogicSim.Graph.Dependencies
import LogicSim.Proofs.Graph.Ordering

/-!
# Strongly connected components

`Dependencies.components` searches along the edges, and then against them from the node that the
first search was done with last. Its result numbers two nodes alike exactly when each reaches the
other (`Dependencies.components_eq_iff`). The argument has two halves:

* the first search ranks the nodes (`Search.Ranked`): a node that reaches another one through nodes
  of lower rank only is reached by it. While the search runs, the nodes of the path have the same
  property with respect to the nodes done with (`Search.Nested`);
* the second search takes the roots by rank. What it reaches from a root reaches the root through
  roots not yet taken, hence through nodes of lower rank (`Search.Grouped`); and what is reached
  from a finished tree lies in the tree or in an earlier one.
-/

namespace LogicSim.Search

open Relation

variable {succ : Nat → List Nat} {size : Nat}

/-- Reachability along the edges. -/
def Reach (succ : Nat → List Nat) : Nat → Nat → Prop := ReflTransGen fun a b => b ∈ succ a

/-- Reachability by a walk all of whose nodes but the last are in a list. -/
def Through (succ : Nat → List Nat) (l : List Nat) : Nat → Nat → Prop :=
  ReflTransGen fun a b => a ∈ l ∧ b ∈ succ a

theorem Through.reach {l : List Nat} {a b : Nat} (h : Through succ l a b) : Reach succ a b :=
  ReflTransGen.mono (fun _ _ h => h.2) _ _ h

/-- A walk through one node more either avoids the node, or has a part up to it that does. -/
theorem through_cons {v : Nat} {l : List Nat} {x r : Nat} (h : Through succ (v :: l) x r) :
    Through succ l x r ∨ Through succ l x v := by
  induction h using ReflTransGen.head_induction_on with
  | refl => exact Or.inl .refl
  | @head a b hab _ ih =>
    rcases List.mem_cons.mp hab.1 with rfl | ha
    · exact Or.inr .refl
    · exact ih.imp (.head ⟨ha, hab.2⟩) (.head ⟨ha, hab.2⟩)

/-! ## 1. The first search -/

/-- **A list ranks its nodes**: what reaches a node through later nodes only is reached by it. -/
def Ranked (succ : Nat → List Nat) : List Nat → Prop
  | [] => True
  | r :: rest => (∀ x, Through succ rest x r → Reach succ r x) ∧ Ranked succ rest

theorem Ranked.of_append : ∀ {a : List Nat} {b : List Nat}, Ranked succ (a ++ b) → Ranked succ b
  | [], _, h => h
  | _ :: _, _, h => Ranked.of_append h.2

/-- What a search along the edges keeps. -/
structure Nested (succ : Nat → List Nat) (s : Search) : Prop where
  ranked : Ranked succ s.done
  path : ∀ r ∈ s.pathNodes, ∀ x, Through succ s.done x r → Reach succ r x

/-- A fresh node is reached through nodes done with by itself only. -/
theorem Coherent.eq_of_through {s : Search} (h : Coherent succ size s) {w x : Nat}
    (hw : s.mark w = .fresh) (hx : Through succ s.done x w) : x = w := by
  rcases ReflTransGen.cases_tail hx with rfl | ⟨y, -, hy, hyw⟩
  · rfl
  · exact absurd hw (h.closed y hy w hyw)

/-- The nodes of the path reach the innermost one. -/
theorem Coherent.reach_head {marks : Array Mark} {f : Frame} {path : List Frame}
    {roots : List Nat} {trees : List (List Nat)} {loop : Option (List Nat)}
    (h : Coherent succ size ⟨marks, f :: path, roots, trees, loop⟩) {r : Nat}
    (hr : r ∈ path.map (·.node)) : Reach succ r f.node := by
  have hchain : (f.node :: path.map (·.node)).IsChain fun a b => a ∈ succ b :=
    (List.isChain_map (R := fun a b => a ∈ succ b) Frame.node (l := f :: path)).mpr h.chain
  exact (transGen_swap.mp (transGen_of_isChain hchain r hr)).to_reflTransGen

theorem Nested.step {s s' : Search} (hc : Coherent succ size s) (hs : Step succ s s')
    (h : Nested succ s) : Nested succ s' := by
  cases hs with
  | skip hr => exact ⟨h.ranked, h.path⟩
  | root hr =>
    refine ⟨h.ranked, fun r hr' x hx => ?_⟩
    obtain rfl := List.mem_singleton.mp hr'
    rw [hc.eq_of_through hr hx]
    exact .refl
  | enter hw =>
    refine ⟨h.ranked, fun r hr x hx => ?_⟩
    rcases List.mem_cons.mp hr with rfl | hr
    · rw [hc.eq_of_through hw hx]
      exact .refl
    · exact h.path r hr x hx
  | close hw => exact ⟨h.ranked, h.path⟩
  | pass hw => exact ⟨h.ranked, h.path⟩
  | @leave marks v path roots trees loop =>
    have hv := h.path v List.mem_cons_self
    have hdone : done ⟨marks.setIfInBounds v .finished, path, roots, addToTree v trees, loop⟩ =
        v :: trees.flatten := flatten_addToTree v trees
    refine ⟨?_, fun r hr x hx => ?_⟩
    · rw [hdone]
      exact ⟨hv, h.ranked⟩
    · rw [hdone] at hx
      rcases through_cons hx with hx | hx
      · exact h.path r (List.mem_cons_of_mem _ hr) x hx
      · exact (hc.reach_head hr).trans (hv x hx)

/-- **A search ranks the nodes it is done with.** -/
theorem ranked_explore {roots : List Nat} (hroots : ∀ v < size, v ∈ roots) :
    Ranked succ (explore succ size roots).done := by
  have hkeep := run_keeps (P := fun s => Coherent succ size s ∧ Nested succ s)
    (fun s s' h hs => ⟨h.1.step hs, h.2.step h.1 hs⟩) (bound succ size roots)
    (s := start size roots)
    ⟨coherent_start hroots, trivial, fun r hr => absurd hr List.not_mem_nil⟩
  exact hkeep.2.ranked

/-! ## 2. The second search -/

/-- What a search against the edges `succ` keeps that takes its roots by rank; `pred` lists the
    sources of the edges into a node. -/
structure Grouped (succ pred : Nat → List Nat) (size : Nat) (ranks : List Nat) (s : Search) :
    Prop where
  roots : s.roots <:+ ranks
  current : s.path ≠ [] → ∃ r, r :: s.roots <:+ ranks ∧
    (∀ x ∈ s.pathNodes, Through succ s.roots x r) ∧
    ∀ x ∈ s.trees.headD [], Through succ s.roots x r
  together : ∀ t ∈ s.trees, ∀ a ∈ t, ∀ b ∈ t, Reach succ a b
  closed : ∀ ts, ts <:+ s.trees.tail → ∀ v ∈ ts.flatten, ∀ w ∈ pred v, w < size → w ∈ ts.flatten

section Grouped

variable {pred : Nat → List Nat} {ranks : List Nat}

/-- Between two roots the nodes done with are closed. -/
theorem Coherent.closed_done {s : Search} (h : Coherent pred size s) (hpath : s.path = []) {v w : Nat}
    (hv : v ∈ s.done) (hw : w ∈ pred v) (hlt : w < size) : w ∈ s.done := by
  cases hm : s.mark w with
  | fresh => exact absurd hm (h.closed v hv w hw)
  | onPath =>
    have := (h.onPath w).mp hm
    rw [pathNodes, hpath] at this
    cases this
  | finished => exact (h.finished w hlt).mp hm

/-- Between two roots all trees from one on are closed, not only those before the latest. -/
theorem Grouped.closed_all {s : Search} (hc : Coherent pred size s) (hpath : s.path = [])
    (h : Grouped succ pred size ranks s) {ts : List (List Nat)} (hts : ts <:+ s.trees) {v w : Nat}
    (hv : v ∈ ts.flatten) (hw : w ∈ pred v) (hlt : w < size) : w ∈ ts.flatten := by
  cases htrees : s.trees with
  | nil =>
    rw [htrees, List.suffix_nil] at hts
    rw [hts] at hv
    cases hv
  | cons t rest =>
    rw [htrees] at hts
    rcases List.suffix_cons_iff.mp hts with rfl | hts
    · rw [← htrees] at hv ⊢
      exact hc.closed_done hpath hv hw hlt
    · exact h.closed ts (by rw [htrees]; exact hts) v hv w hw hlt

theorem Grouped.step {s s' : Search} (hedge : ∀ a b, b ∈ succ a ↔ a ∈ pred b)
    (hranks : Ranked succ ranks) (hc : Coherent pred size s) (hs : Step pred s s')
    (h : Grouped succ pred size ranks s) : Grouped succ pred size ranks s' := by
  cases hs with
  | skip hr =>
    exact ⟨(List.suffix_cons _ _).trans h.roots, fun hp => absurd rfl hp, h.together, h.closed⟩
  | @root marks r roots trees loop hr =>
    refine ⟨(List.suffix_cons _ _).trans h.roots, fun _ => ⟨r, h.roots, fun x hx => ?_,
      fun x hx => absurd hx List.not_mem_nil⟩, fun t ht => ?_, fun ts hts v hv w hw hlt => ?_⟩
    · rw [List.mem_singleton.mp hx]
      exact .refl
    · rcases List.mem_cons.mp ht with rfl | ht
      · exact fun a ha => absurd ha List.not_mem_nil
      · exact h.together t ht
    · exact h.closed_all hc rfl hts hv hw hlt
  | @enter marks v w rest path roots trees loop hw =>
    obtain ⟨r, hr, hpath, htree⟩ := h.current (List.cons_ne_nil _ _)
    refine ⟨h.roots, fun _ => ⟨r, hr, fun x hx => ?_, htree⟩, h.together, h.closed⟩
    rcases List.mem_cons.mp hx with rfl | hx
    · -- a fresh node is a root not yet taken
      have hv : v ∈ succ x :=
        (hedge x v).mpr (hc.pending _ List.mem_cons_self x List.mem_cons_self)
      exact .head ⟨hc.rooted x hw, hv⟩ (hpath v List.mem_cons_self)
    · exact hpath x hx
  | close hw =>
    exact ⟨h.roots, fun _ => h.current (List.cons_ne_nil _ _), h.together, h.closed⟩
  | pass hw =>
    exact ⟨h.roots, fun _ => h.current (List.cons_ne_nil _ _), h.together, h.closed⟩
  | @leave marks v path roots trees loop =>
    obtain ⟨r, hr, hpath, htree⟩ := h.current (List.cons_ne_nil _ _)
    obtain ⟨t, older, rfl⟩ := List.exists_cons_of_ne_nil (hc.tree (List.cons_ne_nil _ _))
    have hnew : ∀ x ∈ v :: t, Through succ roots x r := by
      intro x hx
      rcases List.mem_cons.mp hx with rfl | hx
      · exact hpath x List.mem_cons_self
      · exact htree x hx
    obtain ⟨before, hbefore⟩ := hr
    have hrank : Ranked succ (r :: roots) := Ranked.of_append (hbefore ▸ hranks)
    refine ⟨h.roots, fun _ => ⟨r, ⟨before, hbefore⟩, fun x hx => hpath x (List.mem_cons_of_mem _ hx),
      hnew⟩, fun t' ht' a ha b hb => ?_, h.closed⟩
    rcases List.mem_cons.mp ht' with rfl | ht'
    · exact (hnew a ha).reach.trans (hrank.1 b (hnew b hb))
    · exact h.together t' (List.mem_cons_of_mem _ ht') a ha b hb

theorem grouped_explore (hedge : ∀ a b, b ∈ succ a ↔ a ∈ pred b) (hranks : Ranked succ ranks)
    (hall : ∀ v < size, v ∈ ranks) : Grouped succ pred size ranks (explore pred size ranks) := by
  have hkeep := run_keeps
    (P := fun s => Coherent pred size s ∧ Grouped succ pred size ranks s)
    (fun s s' h hs => ⟨h.1.step hs, h.2.step hedge hranks h.1 hs⟩) (bound pred size ranks)
    (s := start size ranks)
    ⟨coherent_start hall, List.suffix_refl _, fun h => absurd rfl h,
      fun t ht => absurd ht List.not_mem_nil, fun ts hts v hv => ?_⟩
  · exact hkeep.2
  · rw [show ts = [] from List.suffix_nil.mp hts] at hv
    cases hv

end Grouped

/-! ## 3. Numbers of trees -/

/-- Writing one number at several places. -/
theorem getD_foldl_set (tree : List Nat) (k : Nat) (numbers : Array Nat)
    (hlt : ∀ v ∈ tree, v < numbers.size) (v : Nat) :
    (tree.foldl (fun ns u => ns.setIfInBounds u k) numbers).getD v 0 =
      if v ∈ tree then k else numbers.getD v 0 := by
  induction tree generalizing numbers with
  | nil => simp
  | cons u tree ih =>
    have hu : u < numbers.size := hlt u List.mem_cons_self
    have htree : ∀ w ∈ tree, w < (numbers.setIfInBounds u k).size := by
      intro w hw
      rw [Array.size_setIfInBounds]
      exact hlt w (List.mem_cons_of_mem _ hw)
    rw [List.foldl_cons, ih _ htree]
    by_cases hv : v ∈ tree
    · simp [hv]
    · by_cases hvu : v = u
      · subst hvu
        simp [hv, Array.getD_eq_getD_getElem?, hu]
      · have huv : ¬ u = v := fun e => hvu e.symm
        simp [hv, hvu, huv, Array.getD_eq_getD_getElem?]

theorem size_foldl_set (tree : List Nat) (k : Nat) (numbers : Array Nat) :
    (tree.foldl (fun ns u => ns.setIfInBounds u k) numbers).size = numbers.size := by
  induction tree generalizing numbers with
  | nil => rfl
  | cons u tree ih => rw [List.foldl_cons, ih, Array.size_setIfInBounds]

/-- The numbers of trees, latest first, in an array. -/
def numberTrees (size : Nat) (trees : List (List Nat)) : Array Nat :=
  (trees.reverse.zipIdx).foldl
    (fun numbers tree => tree.1.foldl (fun ns v => ns.setIfInBounds v tree.2) numbers)
    (Array.replicate size 0)

theorem numberTrees_cons (size : Nat) (tree : List Nat) (trees : List (List Nat)) :
    numberTrees size (tree :: trees) =
      tree.foldl (fun ns v => ns.setIfInBounds v trees.length) (numberTrees size trees) := by
  simp [numberTrees, List.zipIdx_append]

theorem size_numberTrees (size : Nat) (trees : List (List Nat)) :
    (numberTrees size trees).size = size := by
  induction trees with
  | nil => simp [numberTrees]
  | cons tree trees ih => rw [numberTrees_cons, size_foldl_set, ih]

/-- **The number of a node is the number of the trees before its own.** -/
theorem getD_numberTrees {trees : List (List Nat)} (hnodup : trees.flatten.Nodup)
    (hlt : ∀ v ∈ trees.flatten, v < size) {tree : List Nat} {older : List (List Nat)}
    (hsuffix : tree :: older <:+ trees) {v : Nat} (hv : v ∈ tree) :
    (numberTrees size trees).getD v 0 = older.length := by
  induction trees with
  | nil => cases List.suffix_nil.mp hsuffix
  | cons t trees ih =>
    rw [List.flatten_cons] at hnodup hlt
    have htree : ∀ u ∈ t, u < (numberTrees size trees).size := by
      intro u hu
      rw [size_numberTrees]
      exact hlt u (List.mem_append_left _ hu)
    rw [numberTrees_cons, getD_foldl_set t _ _ htree]
    rcases List.suffix_cons_iff.mp hsuffix with he | hsuffix
    · obtain ⟨rfl, rfl⟩ := List.cons.inj he
      exact if_pos hv
    · have hmem : v ∈ trees.flatten :=
        List.mem_flatten_of_mem (hsuffix.subset List.mem_cons_self) hv
      have hvt : v ∉ t := fun h => (List.nodup_append.mp hnodup).2.2 v h v hmem rfl
      rw [if_neg hvt]
      exact ih (List.nodup_append.mp hnodup).2.1 (fun u hu => hlt u (List.mem_append_right _ hu))
        hsuffix

/-- A node of the trees stands in a tree, behind which are the older ones. -/
theorem exists_tree {trees : List (List Nat)} {v : Nat} (hv : v ∈ trees.flatten) :
    ∃ tree older, tree :: older <:+ trees ∧ v ∈ tree := by
  obtain ⟨tree, htree, hmem⟩ := List.mem_flatten.mp hv
  obtain ⟨newer, older, rfl⟩ := List.append_of_mem htree
  exact ⟨tree, older, ⟨newer, rfl⟩, hmem⟩

/-- **Two nodes get the same number exactly when each reaches the other.** -/
theorem treeNumbers_eq_iff {pred : Nat → List Nat} {ranks : List Nat}
    (hedge : ∀ a b, b ∈ succ a ↔ a ∈ pred b) (hlt : ∀ a b, b ∈ succ a → a < size)
    (hranks : Ranked succ ranks) (hall : ∀ v < size, v ∈ ranks) {a b : Nat} (ha : a < size)
    (hb : b < size) :
    (explore pred size ranks).treeNumbers.getD a 0 = (explore pred size ranks).treeNumbers.getD b 0
      ↔ Reach succ a b ∧ Reach succ b a := by
  have hc := coherent_explore hall pred
  have hg := grouped_explore hedge hranks hall
  have hpath := (explore_over pred size ranks).1
  have hnum : ∀ {tree older v}, tree :: older <:+ (explore pred size ranks).trees → v ∈ tree →
      (explore pred size ranks).treeNumbers.getD v 0 = older.length := fun hs hv => by
    have hsize : (explore pred size ranks).treeNumbers =
        numberTrees size (explore pred size ranks).trees := by
      rw [treeNumbers, hc.size_marks]
      rfl
    rw [hsize]
    exact getD_numberTrees hc.nodup_done hc.done_lt hs hv
  -- what reaches a node of the trees from one on is among them
  have hclosed : ∀ {ts x y}, ts <:+ (explore pred size ranks).trees → Reach succ x y →
      y ∈ ts.flatten → x ∈ ts.flatten := by
    intro ts x y hts hxy hy
    induction hxy using ReflTransGen.head_induction_on with
    | refl => exact hy
    | head hab _ ih => exact hg.closed_all hc hpath hts ih ((hedge _ _).mp hab) (hlt _ _ hab)
  have hle : ∀ {tree older v}, tree :: older <:+ (explore pred size ranks).trees →
      v ∈ (tree :: older).flatten →
      (explore pred size ranks).treeNumbers.getD v 0 ≤ older.length := by
    intro tree older v hs hv
    obtain ⟨tree', older', hs', hv'⟩ := exists_tree hv
    rw [hnum (hs'.trans hs) hv']
    have := hs'.length_le
    simp only [List.length_cons] at this
    omega
  obtain ⟨ta, olda, hsa, hta⟩ := exists_tree ((mem_done_explore hall pred a).mpr ha)
  obtain ⟨tb, oldb, hsb, htb⟩ := exists_tree ((mem_done_explore hall pred b).mpr hb)
  constructor
  · intro hlen
    rw [hnum hsa hta, hnum hsb htb] at hlen
    have he : ta :: olda = tb :: oldb :=
      (List.suffix_of_suffix_length_le hsa hsb (by simp [hlen])).eq_of_length (by simp [hlen])
    obtain ⟨rfl, rfl⟩ := List.cons.inj he
    have hmem : ta ∈ (explore pred size ranks).trees := hsa.subset List.mem_cons_self
    exact ⟨hg.together ta hmem a hta b htb, hg.together ta hmem b htb a hta⟩
  · intro hreach
    obtain ⟨hab, hba⟩ := hreach
    have hb' := hle hsa (hclosed hsa hba (List.mem_flatten_of_mem List.mem_cons_self hta))
    have ha' := hle hsb (hclosed hsb hab (List.mem_flatten_of_mem List.mem_cons_self htb))
    rw [hnum hsb htb] at hb'
    rw [hnum hsa hta] at ha'
    rw [hnum hsa hta, hnum hsb htb]
    omega

end LogicSim.Search

namespace LogicSim.Dependencies

open Search

variable {size : Nat}

/-! ## 4. The lists of edges -/

theorem getD_modify (lists : Array (List Nat)) (i j : Nat) (f : List Nat → List Nat) :
    (lists.modify i f).getD j [] =
      if i = j ∧ j < lists.size then f (lists.getD j []) else lists.getD j [] := by
  simp only [Array.getD_eq_getD_getElem?, Array.getElem?_modify]
  by_cases h : i = j
  · by_cases hj : j < lists.size
    · simp [h, hj]
    · simp [h, hj]
  · simp [h]

/-- Lists of sources with those of more edges. -/
def addSources (edges : List (Nat × Nat)) (lists : Array (List Nat)) : Array (List Nat) :=
  edges.foldl
    (fun lists edge =>
      lists.modify edge.2 fun l => if l.contains edge.1 then l else l ++ [edge.1]) lists

theorem size_addSources (edges : List (Nat × Nat)) (lists : Array (List Nat)) :
    (addSources edges lists).size = lists.size := by
  induction edges generalizing lists with
  | nil => rfl
  | cons e edges ih => exact (ih _).trans (Array.size_modify ..)

theorem mem_addSources {edges : List (Nat × Nat)} {lists : Array (List Nat)} {a b : Nat}
    (hb : b < lists.size) :
    a ∈ (addSources edges lists).getD b [] ↔ a ∈ lists.getD b [] ∨ (a, b) ∈ edges := by
  induction edges generalizing lists with
  | nil => simp [addSources]
  | cons e edges ih =>
    obtain ⟨u, v⟩ := e
    have hstep : a ∈ (lists.modify v fun l => if l.contains u then l else l ++ [u]).getD b [] ↔
        a ∈ lists.getD b [] ∨ (a, b) = (u, v) := by
      rw [getD_modify]
      by_cases hv : v = b
      · subst hv
        by_cases hu : u ∈ lists.getD v []
        · simp only [hb, and_self, if_true, List.contains_iff_mem, hu, Prod.mk.injEq, and_true]
          exact ⟨Or.inl, fun h => h.elim id fun e => e ▸ hu⟩
        · simp only [hb, and_self, if_true, List.contains_iff_mem, hu, if_false, List.mem_append,
            List.mem_singleton, Prod.mk.injEq, and_true]
      · simp [hv, show ¬ b = v from fun e => hv e.symm]
    refine (ih (by rw [Array.size_modify]; exact hb)).trans ?_
    rw [hstep, List.mem_cons, or_assoc]

theorem size_sources (size : Nat) (edges : List (Nat × Nat)) : (sources size edges).size = size :=
  (size_addSources edges _).trans (Array.size_replicate ..)

/-- **The sources of a node are those of the edges into it.** -/
theorem mem_sources {edges : List (Nat × Nat)} {a b : Nat} (hb : b < size) :
    a ∈ (sources size edges).getD b [] ↔ (a, b) ∈ edges := by
  refine (mem_addSources (by rw [Array.size_replicate]; exact hb)).trans ?_
  simp [hb]

/-- Lists of targets with one target more for some sources. -/
def addTarget (target : Nat) (sources : List Nat) (lists : Array (List Nat)) : Array (List Nat) :=
  sources.foldl (fun ls source => ls.modify source (target :: ·)) lists

theorem size_addTarget (target : Nat) (sources : List Nat) (lists : Array (List Nat)) :
    (addTarget target sources lists).size = lists.size := by
  induction sources generalizing lists with
  | nil => rfl
  | cons u sources ih => exact (ih _).trans (Array.size_modify ..)

theorem mem_addTarget {target : Nat} {sources : List Nat} {lists : Array (List Nat)} {a b : Nat}
    (ha : a < lists.size) :
    b ∈ (addTarget target sources lists).getD a [] ↔
      b ∈ lists.getD a [] ∨ b = target ∧ a ∈ sources := by
  induction sources generalizing lists with
  | nil => simp [addTarget]
  | cons u sources ih =>
    have hstep : b ∈ (lists.modify u (target :: ·)).getD a [] ↔
        b ∈ lists.getD a [] ∨ b = target ∧ a = u := by
      rw [getD_modify]
      by_cases hu : u = a
      · simp [hu, ha, or_comm]
      · simp [hu, show ¬ a = u from fun e => hu e.symm]
    refine (ih (by rw [Array.size_modify]; exact ha)).trans ?_
    rw [hstep, List.mem_cons, or_assoc, ← and_or_left]

/-- **The targets of a node are those of the edges out of it.** -/
theorem mem_targets {incoming : Array (List Nat)} {a b : Nat} (ha : a < incoming.size) :
    b ∈ (targets incoming).getD a [] ↔ b < incoming.size ∧ a ∈ incoming.getD b [] := by
  have hkeep : ∀ (nodes : List Nat) (lists : Array (List Nat)), a < lists.size →
      (b ∈ (nodes.foldl (fun lists target => addTarget target (incoming.getD target []) lists)
        lists).getD a [] ↔ b ∈ lists.getD a [] ∨ b ∈ nodes ∧ a ∈ incoming.getD b []) := by
    intro nodes
    induction nodes with
    | nil => simp
    | cons v nodes ih =>
      intro lists hlt
      rw [List.foldl_cons, ih _ (by rw [size_addTarget]; exact hlt), mem_addTarget hlt,
        List.mem_cons, or_assoc]
      constructor
      · rintro (h | ⟨rfl, h⟩ | ⟨h, h'⟩)
        · exact Or.inl h
        · exact Or.inr ⟨Or.inl rfl, h⟩
        · exact Or.inr ⟨Or.inr h, h'⟩
      · rintro (h | ⟨rfl | h, h'⟩)
        · exact Or.inl h
        · exact Or.inr (Or.inl ⟨rfl, h'⟩)
        · exact Or.inr (Or.inr ⟨h, h'⟩)
  refine (hkeep _ _ (by rw [Array.size_replicate]; exact ha)).trans ?_
  simp [ha]

theorem size_targets (incoming : Array (List Nat)) : (targets incoming).size = incoming.size := by
  have hkeep : ∀ (nodes : List Nat) (lists : Array (List Nat)),
      (nodes.foldl (fun lists target => addTarget target (incoming.getD target []) lists) lists).size
        = lists.size := by
    intro nodes
    induction nodes with
    | nil => exact fun _ => rfl
    | cons v nodes ih => exact fun lists => (ih _).trans (size_addTarget ..)
  exact (hkeep _ _).trans (Array.size_replicate ..)

theorem lt_size_of_mem_getD {lists : Array (List Nat)} {a b : Nat} (h : a ∈ lists.getD b []) :
    b < lists.size := by
  refine Classical.byContradiction fun hb => ?_
  rw [Array.getD_eq_getD_getElem?, Array.getElem?_eq_none (Nat.le_of_not_lt hb)] at h
  cases h

/-! ## 5. Components -/

/-- **Two nodes have the same component exactly when each reaches the other.** -/
theorem components_eq_iff {incoming : Array (List Nat)}
    (hin : ∀ a b, a ∈ incoming.getD b [] → a < incoming.size) {a b : Nat} (ha : a < incoming.size)
    (hb : b < incoming.size) :
    (components incoming).getD a 0 = (components incoming).getD b 0 ↔
      Relation.ReflTransGen (fun x y => x ∈ incoming.getD y []) a b ∧
        Relation.ReflTransGen (fun x y => x ∈ incoming.getD y []) b a := by
  have hedge : ∀ x y, y ∈ (targets incoming).getD x [] ↔ x ∈ incoming.getD y [] := by
    intro x y
    constructor
    · intro h
      have hx := lt_size_of_mem_getD h
      rw [size_targets] at hx
      exact ((mem_targets hx).mp h).2
    · intro h
      exact (mem_targets (hin x y h)).mpr ⟨lt_size_of_mem_getD h, h⟩
  have hlt : ∀ x y, y ∈ (targets incoming).getD x [] → x < incoming.size := by
    intro x y h
    exact hin x y ((hedge x y).mp h)
  have hrange : ∀ v < incoming.size, v ∈ List.range incoming.size := fun v => List.mem_range.mpr
  have hranks : (explore ((targets incoming).getD · []) incoming.size
      (List.range incoming.size)).order.reverse =
      (explore ((targets incoming).getD · []) incoming.size (List.range incoming.size)).done :=
    List.reverse_reverse _
  have hrel : Reach ((targets incoming).getD · []) =
      Relation.ReflTransGen fun x y => x ∈ incoming.getD y [] := by
    unfold Reach
    congr 1
    funext x y
    exact propext (hedge x y)
  rw [← hrel, components, hranks]
  exact treeNumbers_eq_iff hedge hlt (ranked_explore hrange)
    (fun v hv => (mem_done_explore hrange _ v).mpr hv) ha hb

end LogicSim.Dependencies
