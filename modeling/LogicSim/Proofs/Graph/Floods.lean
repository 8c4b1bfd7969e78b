import LogicSim.Proofs.Graph.Tours

/-!
# Groups gathered from roots

Going through a list of roots, a search gathers from each root that no earlier group holds a group of
nodes of its own: what the root reaches, without what lies in earlier groups (`Gathered`). This
decides the groups, up to the order in them (`Gathered.unique`), so that any way to gather them will
do. The second search for the components does it with a list of nodes whose entries are still to be
read (`Flood`). It ends (`Flood.exists_endsBy`), meets each node once, and numbers the nodes as
the trees of a search do (`Flood.Sound.numbers_eq`).
-/

namespace LogicSim

open Search

variable {lists : Array (List Nat)}

/-! ## 1. Groups -/

/-- Reachability along the entries of lists. -/
abbrev Leads (lists : Array (List Nat)) : Nat → Nat → Prop := Reach (lists.getD · [])

/-- **Groups gathered from roots**, both latest first. A root that lies in a group is left out. What is
    gathered from another one is reached from it, was not gathered before, and completes the groups:
    no entry leads out of them. -/
inductive Gathered (lists : Array (List Nat)) : List Nat → List (List Nat) → Prop where
  | nil : Gathered lists [] []
  | skip {r : Nat} {roots : List Nat} {groups : List (List Nat)} (h : Gathered lists roots groups)
      (hr : r ∈ groups.flatten) : Gathered lists (r :: roots) groups
  | gather {r : Nat} {roots group : List Nat} {groups : List (List Nat)}
      (h : Gathered lists roots groups) (hr : r ∈ group) (hreach : ∀ v ∈ group, Leads lists r v)
      (hnew : ∀ v ∈ group, v ∉ groups.flatten)
      (hclosed : ∀ v ∈ (group :: groups).flatten, ∀ w ∈ lists.getD v [],
        w ∈ (group :: groups).flatten) : Gathered lists (r :: roots) (group :: groups)

/-- Nothing leads out of a closed list. -/
theorem mem_of_leads {l : List Nat} (hclosed : ∀ v ∈ l, ∀ w ∈ lists.getD v [], w ∈ l) {v w : Nat}
    (hv : v ∈ l) (h : Leads lists v w) : w ∈ l := by
  induction h with
  | refl => exact hv
  | tail _ hw ih => exact hclosed _ ih _ hw

/-- A group is what its root reaches, without the earlier groups. -/
theorem mem_group_iff {r v : Nat} {group : List Nat} {groups : List (List Nat)} (hr : r ∈ group)
    (hreach : ∀ v ∈ group, Leads lists r v) (hnew : ∀ v ∈ group, v ∉ groups.flatten)
    (hclosed : ∀ v ∈ (group :: groups).flatten, ∀ w ∈ lists.getD v [],
      w ∈ (group :: groups).flatten) :
    v ∈ group ↔ Leads lists r v ∧ v ∉ groups.flatten := by
  constructor
  · exact fun hv => ⟨hreach v hv, hnew v hv⟩
  · rintro ⟨hv, hout⟩
    have hmem := mem_of_leads hclosed (List.mem_append_left _ hr) hv
    exact (List.mem_append.mp hmem).resolve_right hout

/-- Lists of groups with the same nodes in each. -/
abbrev SameGroups : List (List Nat) → List (List Nat) → Prop :=
  List.Forall₂ fun g g' => ∀ v, v ∈ g ↔ v ∈ g'

theorem SameGroups.mem_flatten {groups groups' : List (List Nat)} (h : SameGroups groups groups')
    (v : Nat) : v ∈ groups.flatten ↔ v ∈ groups'.flatten := by
  induction h with
  | nil => exact Iff.rfl
  | cons hsame _ ih =>
    rw [List.flatten_cons, List.flatten_cons, List.mem_append, List.mem_append, hsame, ih]

/-- **The roots decide the groups.** -/
theorem Gathered.unique {roots : List Nat} {groups groups' : List (List Nat)}
    (h : Gathered lists roots groups) (h' : Gathered lists roots groups') :
    SameGroups groups groups' := by
  induction h generalizing groups' with
  | nil =>
    cases h'
    exact .nil
  | skip h hr ih =>
    -- the root lies in an earlier group on both sides or on neither
    cases h' with
    | skip h' _ => exact ih h'
    | gather h' hr' _ hnew' _ => exact absurd (((ih h').mem_flatten _).mp hr) (hnew' _ hr')
  | gather h hr hreach hnew hclosed ih =>
    cases h' with
    | skip h' hr' => exact absurd (((ih h').mem_flatten _).mpr hr') (hnew _ hr)
    | gather h' hr' hreach' hnew' hclosed' =>
      refine .cons (fun v => ?_) (ih h')
      rw [mem_group_iff hr hreach hnew hclosed, mem_group_iff hr' hreach' hnew' hclosed',
        (ih h').mem_flatten]

/-- Every root lies in a group. -/
theorem Gathered.mem_root {roots : List Nat} {groups : List (List Nat)}
    (h : Gathered lists roots groups) : ∀ r ∈ roots, r ∈ groups.flatten := by
  induction h with
  | nil => exact fun r hr => absurd hr List.not_mem_nil
  | skip h hr ih =>
    intro r hmem
    rcases List.mem_cons.mp hmem with rfl | hmem
    · exact hr
    · exact ih r hmem
  | gather h hr hreach hnew hclosed ih =>
    intro r hmem
    rcases List.mem_cons.mp hmem with rfl | hmem
    · exact List.mem_append_left _ hr
    · exact List.mem_append_right _ (ih r hmem)

/-- **A group in the making**: all of it was reached from the root taken last. -/
inductive Making (lists : Array (List Nat)) (members : List Nat) (older : List (List Nat)) :
    List Nat → Prop where
  | intro {r : Nat} {roots : List Nat} (h : Gathered lists roots older) (hr : r ∈ members)
      (hreach : ∀ v ∈ members, Leads lists r v) : Making lists members older (r :: roots)

namespace Making

variable {members members' taken : List Nat} {older : List (List Nat)}

theorem start (h : Gathered lists taken older) (r : Nat) : Making lists [r] older (r :: taken) :=
  ⟨h, List.mem_cons_self, fun v hv => by rw [List.mem_singleton.mp hv]; exact .refl⟩

theorem of_mem_iff (h : Making lists members older taken) (hsame : ∀ v, v ∈ members' ↔ v ∈ members) :
    Making lists members' older taken := by
  obtain ⟨h, hr, hreach⟩ := h
  exact ⟨h, (hsame _).mpr hr, fun v hv => hreach v ((hsame v).mp hv)⟩

theorem add (h : Making lists members older taken) {v w : Nat} (hv : v ∈ members)
    (hw : w ∈ lists.getD v []) : Making lists (w :: members) older taken := by
  obtain ⟨h, hr, hreach⟩ := h
  refine ⟨h, List.mem_cons_of_mem _ hr, fun u hu => ?_⟩
  rcases List.mem_cons.mp hu with rfl | hu
  · exact (hreach v hv).tail hw
  · exact hreach u hu

/-- A group is made when nothing leads out of it. -/
theorem gathered (h : Making lists members older taken)
    (hnodup : (members :: older).flatten.Nodup)
    (hclosed : ∀ v ∈ (members :: older).flatten, ∀ w ∈ lists.getD v [],
      w ∈ (members :: older).flatten) : Gathered lists taken (members :: older) := by
  obtain ⟨h, hr, hreach⟩ := h
  refine .gather h hr hreach (fun v hv hold => ?_) hclosed
  exact (List.nodup_append.mp hnodup).2.2 v hv v hold rfl

end Making

/-! ## 2. The trees of a search -/

namespace Search

/-- The trees of a search are gathered from the roots taken so far, the latest one with the path. -/
def Gathers (lists : Array (List Nat)) (roots : List Nat) (s : Search) : Prop :=
  ∃ taken, roots = taken.reverse ++ s.roots ∧
    (s.path = [] ∧ Gathered lists taken s.trees ∨
      ∃ tree older, s.trees = tree :: older ∧ Making lists (s.pathNodes ++ tree) older taken)

variable {roots : List Nat} {s s' : Search}

/-- Between two roots the trees are complete. -/
theorem Gathers.gathered (hclosed : Closed lists) (hc : Coherent (lists.getD · []) lists.size s)
    (h : Gathers lists roots s) (hpath : s.path = []) :
    ∃ taken, roots = taken.reverse ++ s.roots ∧ Gathered lists taken s.trees := by
  obtain ⟨taken, hroots, ⟨-, hgathered⟩ | ⟨tree, older, htrees, hmaking⟩⟩ := h
  · exact ⟨taken, hroots, hgathered⟩
  · -- nothing of the latest group is on the path any more
    have hnodes : s.pathNodes = [] := by rw [pathNodes, hpath, List.map_nil]
    rw [hnodes, List.nil_append] at hmaking
    have hdone : s.done = (tree :: older).flatten := by rw [done, htrees]
    refine ⟨taken, hroots, ?_⟩
    rw [htrees]
    refine hmaking.gathered (hdone ▸ hc.nodup_done) fun v hv w hw => ?_
    rw [← hdone] at hv ⊢
    exact hc.closed_done hpath hv hw (hclosed v w hw)

theorem Gathers.step (hclosed : Closed lists) (hlt : ∀ r ∈ roots, r < lists.size)
    (hc : Coherent (lists.getD · []) lists.size s) (hs : Step (lists.getD · []) s s')
    (h : Gathers lists roots s) : Gathers lists roots s' := by
  cases hs with
  | @skip marks r rest trees loop hr =>
    obtain ⟨taken, hroots, hgathered⟩ := h.gathered hclosed hc rfl
    have hmem : r ∈ roots := hroots ▸ List.mem_append_right _ List.mem_cons_self
    have hdone : r ∈ trees.flatten := by
      refine (hc.finished r (hlt r hmem)).mp ?_
      cases hmark : marks.getD r .finished with
      | fresh => exact absurd hmark hr
      | onPath => exact absurd ((hc.onPath r).mp hmark) List.not_mem_nil
      | finished => exact hmark
    exact ⟨r :: taken, by simpa using hroots, Or.inl ⟨rfl, hgathered.skip hdone⟩⟩
  | @root marks r rest trees loop hr =>
    obtain ⟨taken, hroots, hgathered⟩ := h.gathered hclosed hc rfl
    exact ⟨r :: taken, by simpa using hroots, Or.inr ⟨[], trees, rfl, .start hgathered r⟩⟩
  | @enter marks v w rest path roots trees loop hw =>
    obtain ⟨taken, hroots, ⟨hpath, -⟩ | ⟨tree, older, htrees, hmaking⟩⟩ := h
    · cases hpath
    · have hentry := hc.pending _ List.mem_cons_self w List.mem_cons_self
      exact ⟨taken, hroots, Or.inr ⟨tree, older, htrees,
        hmaking.add (List.mem_append_left _ List.mem_cons_self) hentry⟩⟩
  | close hw =>
    obtain ⟨taken, hroots, ⟨hpath, -⟩ | hmaking⟩ := h
    · cases hpath
    · exact ⟨taken, hroots, Or.inr hmaking⟩
  | pass hw =>
    obtain ⟨taken, hroots, ⟨hpath, -⟩ | hmaking⟩ := h
    · cases hpath
    · exact ⟨taken, hroots, Or.inr hmaking⟩
  | @leave marks v path roots trees loop =>
    obtain ⟨taken, hroots, ⟨hpath, -⟩ | ⟨tree, older, htrees, hmaking⟩⟩ := h
    · cases hpath
    · refine ⟨taken, hroots, Or.inr ⟨v :: tree, older, ?_, hmaking.of_mem_iff fun u => ?_⟩⟩
      · rw [show trees = tree :: older from htrees]
        rfl
      · simp only [pathNodes, List.map_cons, List.mem_append, List.mem_cons]
        exact or_left_comm.trans or_assoc.symm

/-- **The trees of a search are gathered from its roots.** -/
theorem gathered_explore (hclosed : Closed lists) (hroots : ∀ v, v ∈ roots ↔ v < lists.size) :
    Gathered lists roots.reverse (explore (lists.getD · []) lists.size roots).trees := by
  have hkeep : Coherent (lists.getD · []) lists.size (explore (lists.getD · []) lists.size roots) ∧
      Gathers lists roots (explore (lists.getD · []) lists.size roots) :=
    run_keeps (P := fun s => Coherent (lists.getD · []) lists.size s ∧ Gathers lists roots s)
      (fun s s' h hs => ⟨h.1.step hs, h.2.step hclosed (fun r => (hroots r).mp) h.1 hs⟩) _
      ⟨coherent_start fun v => (hroots v).mpr, [], rfl, Or.inl ⟨rfl, .nil⟩⟩
  obtain ⟨hpath, hnone⟩ := explore_over (lists.getD · []) lists.size roots
  obtain ⟨taken, htaken, hgathered⟩ := hkeep.2.gathered hclosed hkeep.1 hpath
  rw [hnone, List.append_nil] at htaken
  have hreverse : roots.reverse = taken := by rw [htaken, List.reverse_reverse]
  exact hreverse ▸ hgathered

end Search

/-! ## 3. Floods -/

/-- A search with a list of nodes whose entries are still to be read. -/
structure Flood where
  /-- the number of the group of each node that was met -/
  numbers : Array (Option Nat)
  /-- the number of groups begun -/
  begun : Nat := 0
  /-- the nodes whose entries are still to be read, latest first -/
  todo : List Nat := []
  /-- the entries still to be looked at of the node taken last -/
  pending : List Nat := []
  roots : List Nat
  /-- record: the nodes pushed in each group, all latest first -/
  groups : List (List Nat) := []

namespace Flood

/-- The nodes pushed, latest first. -/
def pushed (f : Flood) : List Nat := f.groups.flatten

/-- Whether a node was never met. Nodes outside of the graph count as met. -/
def isNew (f : Flood) (v : Nat) : Bool := f.numbers.getD v (some 0) = none

/-- A node is met, and belongs to the group begun last. -/
def meet (w : Nat) (f : Flood) : Flood :=
  { f with
    numbers := f.numbers.setIfInBounds w (some (f.begun - 1))
    todo := w :: f.todo
    groups := Search.addToTree w f.groups }

/-- A root begins a group. -/
def begin (r : Nat) (f : Flood) : Flood :=
  { f with
    numbers := f.numbers.setIfInBounds r (some f.begun)
    begun := f.begun + 1
    todo := [r]
    groups := [r] :: f.groups }

/-- An entry is looked at, or a node or a root is taken; none when the flood has ended. -/
def step (lists : Array (List Nat)) (f : Flood) : Option Flood :=
  match f.pending with
  | w :: pending => if f.isNew w then some ({ f with pending }.meet w) else some { f with pending }
  | [] =>
    match f.todo with
    | v :: todo => some { f with todo, pending := lists.getD v [] }
    | [] =>
      match f.roots with
      | [] => none
      | r :: roots => if f.isNew r then some ({ f with roots }.begin r) else some { f with roots }

/-- A flood from some roots before it begins. -/
def start (lists : Array (List Nat)) (roots : List Nat) : Flood :=
  { numbers := Array.replicate lists.size none, roots }

/-- **What a step can do.** -/
inductive Turn (lists : Array (List Nat)) (f : Flood) : Flood → Prop where
  /-- an entry that was never met -/
  | meet {w : Nat} {pending : List Nat} (hpending : f.pending = w :: pending)
      (hnew : f.isNew w = true) : Turn lists f ({ f with pending }.meet w)
  /-- an entry that was met before -/
  | pass {w : Nat} {pending : List Nat} (hpending : f.pending = w :: pending)
      (hnew : ¬ f.isNew w = true) : Turn lists f { f with pending }
  /-- the next node -/
  | take {v : Nat} {todo : List Nat} (hpending : f.pending = []) (htodo : f.todo = v :: todo) :
      Turn lists f { f with todo, pending := lists.getD v [] }
  /-- a root that was never met -/
  | root {r : Nat} {roots : List Nat} (hpending : f.pending = []) (htodo : f.todo = [])
      (hroots : f.roots = r :: roots) (hnew : f.isNew r = true) :
      Turn lists f ({ f with roots }.begin r)
  /-- a root that was met before -/
  | skip {r : Nat} {roots : List Nat} (hpending : f.pending = []) (htodo : f.todo = [])
      (hroots : f.roots = r :: roots) (hnew : ¬ f.isNew r = true) : Turn lists f { f with roots }

theorem turn_of_step {f f' : Flood} (h : f.step lists = some f') : Turn lists f f' := by
  rw [step] at h
  split at h
  next hpending =>
    split at h
    next hnew => exact Option.some.inj h ▸ .meet hpending hnew
    next hnew => exact Option.some.inj h ▸ .pass hpending hnew
  next hpending =>
    split at h
    next htodo => exact Option.some.inj h ▸ .take hpending htodo
    next htodo =>
      split at h
      · cases h
      next hroots =>
        split at h
        next hnew => exact Option.some.inj h ▸ .root hpending htodo hroots hnew
        next hnew => exact Option.some.inj h ▸ .skip hpending htodo hroots hnew

/-- A flood that has ended has nothing left to do. -/
theorem idle_of_step {f : Flood} (h : f.step lists = none) :
    f.pending = [] ∧ f.todo = [] ∧ f.roots = [] := by
  rw [step] at h
  split at h
  · split at h <;> cases h
  next hpending =>
    split at h
    · cases h
    next htodo =>
      split at h
      next hroots => exact ⟨hpending, htodo, hroots⟩
      · split at h <;> cases h

/-! ## 4. The end of a flood -/

theorem isNew_iff {f : Flood} {v : Nat} :
    f.isNew v = true ↔ f.numbers.getD v (some 0) = none := decide_eq_true_iff

section Numbers

variable {numbers : Array (Option Nat)} {w : Nat}

/-- A node without a number is in the graph. -/
theorem lt_of_getD_eq_none (hw : numbers.getD w (some 0) = none) : w < numbers.size := by
  by_contra hout
  rw [Array.getD_eq_getD_getElem?, Array.getElem?_eq_none (Nat.le_of_not_lt hout)] at hw
  cases hw

/-- What a node costs that has no number. -/
def cost (lists : Array (List Nat)) (numbers : Array (Option Nat)) (v : Nat) : Nat :=
  if numbers.getD v (some 0) = none then (lists.getD v []).length + 1 else 0

/-- Numbering a node takes its cost off. -/
theorem sum_cost_set (lists : Array (List Nat)) (hw : numbers.getD w (some 0) = none) (n : Nat) :
    ∑ v ∈ Finset.range (numbers.setIfInBounds w (some n)).size,
        cost lists (numbers.setIfInBounds w (some n)) v + ((lists.getD w []).length + 1) =
      ∑ v ∈ Finset.range numbers.size, cost lists numbers v := by
  have hlt := lt_of_getD_eq_none hw
  have hcost : cost lists numbers w = (lists.getD w []).length + 1 := if_pos hw
  rw [Array.size_setIfInBounds, ← hcost]
  refine sum_range_drop hlt ?_ fun v hv => ?_
  · simp [cost, getD_setIfInBounds hlt]
  · simp [cost, getD_setIfInBounds hlt, hv]

end Numbers

/-- The number of steps that are left. -/
def work (lists : Array (List Nat)) (f : Flood) : Nat :=
  f.roots.length + f.pending.length + (f.todo.map fun v => (lists.getD v []).length + 1).sum
    + ∑ v ∈ Finset.range f.numbers.size, cost lists f.numbers v

/-- **Each step leaves fewer steps.** -/
theorem work_lt {f f' : Flood} (h : Turn lists f f') : work lists f' < work lists f := by
  cases h with
  | meet hpending hnew =>
    have hcost := sum_cost_set lists (isNew_iff.mp hnew) (f.begun - 1)
    simp only [work, hpending, meet, List.length_cons, List.map_cons, List.sum_cons]
    omega
  | pass hpending hnew =>
    simp only [work, hpending, List.length_cons]
    omega
  | take hpending htodo =>
    simp only [work, hpending, htodo, List.length_nil, List.map_cons, List.sum_cons]
    omega
  | root hpending htodo hroots hnew =>
    have hcost := sum_cost_set lists (isNew_iff.mp hnew) f.begun
    simp only [work, hpending, htodo, hroots, begin, List.length_cons, List.length_nil,
      List.map_cons, List.map_nil, List.sum_cons, List.sum_nil]
    omega
  | skip hpending htodo hroots hnew =>
    simp only [work, hroots, List.length_cons]
    omega

/-! ## 5. The groups of a flood -/

/-- A number written before or after the same number elsewhere. -/
theorem foldl_set_comm (tree : List Nat) (k w : Nat) (numbers : Array Nat) :
    tree.foldl (fun ns v => ns.setIfInBounds v k) (numbers.setIfInBounds w k) =
      (tree.foldl (fun ns v => ns.setIfInBounds v k) numbers).setIfInBounds w k := by
  induction tree generalizing numbers with
  | nil => rfl
  | cons u tree ih =>
    have hcomm : (numbers.setIfInBounds w k).setIfInBounds u k =
        (numbers.setIfInBounds u k).setIfInBounds w k := by
      by_cases h : w = u
      · rw [h]
      · exact Array.setIfInBounds_comm _ _ h
    rw [List.foldl_cons, List.foldl_cons, hcomm, ih]

/-- One node more in the latest tree. -/
theorem numberTrees_add (size w : Nat) (tree : List Nat) (trees : List (List Nat)) :
    numberTrees size ((w :: tree) :: trees) =
      (numberTrees size (tree :: trees)).setIfInBounds w trees.length := by
  rw [numberTrees_cons, numberTrees_cons, List.foldl_cons, foldl_set_comm]

/-- Where one number is written is all that counts. -/
theorem foldl_set_congr {tree tree' : List Nat} (hsame : ∀ v, v ∈ tree ↔ v ∈ tree') (k : Nat)
    {numbers : Array Nat} (hlt : ∀ v ∈ tree, v < numbers.size) :
    tree.foldl (fun ns v => ns.setIfInBounds v k) numbers =
      tree'.foldl (fun ns v => ns.setIfInBounds v k) numbers := by
  have hget : ∀ (a : Array Nat) (i : Nat) (hi : i < a.size), a[i] = a.getD i 0 := fun a i hi => by
    rw [Array.getD_eq_getD_getElem?, Array.getElem?_eq_getElem hi, Option.getD_some]
  refine Array.ext (by rw [size_foldl_set, size_foldl_set]) fun i hi hi' => ?_
  rw [hget _ i hi, hget _ i hi', getD_foldl_set tree k numbers hlt,
    getD_foldl_set tree' k numbers fun v hv => hlt v ((hsame v).mpr hv)]
  simp only [hsame]

/-- The same groups give the same numbers. -/
theorem numberTrees_congr {size : Nat} {trees trees' : List (List Nat)}
    (h : SameGroups trees trees') (hlt : ∀ v ∈ trees.flatten, v < size) :
    numberTrees size trees = numberTrees size trees' := by
  induction h with
  | nil => rfl
  | @cons tree tree' trees trees' hsame hrest ih =>
    rw [numberTrees_cons, numberTrees_cons, ih fun v hv => hlt v (List.mem_append_right _ hv),
      hrest.length_eq]
    refine foldl_set_congr hsame _ fun v hv => ?_
    rw [size_numberTrees]
    exact hlt v (List.mem_append_left _ hv)

/-- **What a flood keeps.** -/
structure Sound (lists : Array (List Nat)) (roots : List Nat) (f : Flood) : Prop where
  size : f.numbers.size = lists.size
  begun : f.begun = f.groups.length
  numbers : f.numbers.map (·.getD 0) = numberTrees lists.size f.groups
  met : ∀ v < lists.size, f.numbers.getD v (some 0) = none ↔ v ∉ f.pushed
  nodup : f.pushed.Nodup
  lt : ∀ v ∈ f.pushed, v < lists.size
  /-- the entries of what is not to be read any more -/
  looked : ∀ v ∈ f.pushed, v ∉ f.todo → ∀ w ∈ lists.getD v [], w ∈ f.pending ∨ w ∈ f.pushed
  gathers : ∃ taken, roots = taken.reverse ++ f.roots ∧
    (f.todo = [] ∧ f.pending = [] ∧ Gathered lists taken f.groups ∨
      ∃ group older, f.groups = group :: older ∧ Making lists group older taken ∧
        (∀ v ∈ f.todo, v ∈ group) ∧ ∀ w ∈ f.pending, ∃ v ∈ group, w ∈ lists.getD v [])

namespace Sound

variable {roots : List Nat} {f f' : Flood}

theorem start (lists : Array (List Nat)) (roots : List Nat) :
    Sound lists roots (Flood.start lists roots) where
  size := Array.size_replicate ..
  begun := rfl
  numbers := by simp [Flood.start, numberTrees]
  met v hv := by simp [Flood.start, pushed, hv]
  nodup := List.nodup_nil
  lt v hv := absurd hv List.not_mem_nil
  looked v hv := absurd hv List.not_mem_nil
  gathers := ⟨[], rfl, Or.inl ⟨rfl, rfl, .nil⟩⟩

/-- Where nothing is left to be read the groups are complete. -/
theorem gathered (h : Sound lists roots f) (hpending : f.pending = []) (htodo : f.todo = []) :
    ∃ taken, roots = taken.reverse ++ f.roots ∧ Gathered lists taken f.groups := by
  obtain ⟨taken, hroots, ⟨-, -, hgathered⟩ | ⟨group, older, hgroups, hmaking, -, -⟩⟩ := h.gathers
  · exact ⟨taken, hroots, hgathered⟩
  · have hpushed : f.pushed = (group :: older).flatten := by rw [pushed, hgroups]
    refine ⟨taken, hroots, ?_⟩
    rw [hgroups]
    refine hmaking.gathered (hpushed ▸ h.nodup) fun v hv w hw => ?_
    rw [← hpushed] at hv ⊢
    have hlooked := h.looked v hv (htodo ▸ List.not_mem_nil) w hw
    rw [hpending] at hlooked
    exact hlooked.resolve_left List.not_mem_nil

/-- While something is left to be read a group is being made. -/
theorem making (h : Sound lists roots f) (hbusy : f.todo ≠ [] ∨ f.pending ≠ []) :
    ∃ taken group older, roots = taken.reverse ++ f.roots ∧ f.groups = group :: older ∧
      Making lists group older taken ∧ (∀ v ∈ f.todo, v ∈ group) ∧
      ∀ w ∈ f.pending, ∃ v ∈ group, w ∈ lists.getD v [] := by
  obtain ⟨taken, hroots, ⟨htodo, hpending, -⟩ | ⟨group, older, hmaking⟩⟩ := h.gathers
  · rcases hbusy with hbusy | hbusy
    · exact absurd htodo hbusy
    · exact absurd hpending hbusy
  · exact ⟨taken, group, older, hroots, hmaking⟩

/-- A node that gets a number is pushed. -/
theorem met_push (h : Sound lists roots f) {w : Nat} (hw : w < lists.size) (n : Nat) :
    ∀ v < lists.size, (f.numbers.setIfInBounds w (some n)).getD v (some 0) = none ↔
      v ∉ w :: f.pushed := by
  intro v hv
  rw [getD_setIfInBounds (h.size ▸ hw), List.mem_cons, not_or, ← h.met v hv]
  by_cases hvw : v = w <;> simp [hvw]

/-- A new node in the group begun last. -/
theorem meet {w : Nat} {pending : List Nat} (hclosed : Closed lists) (h : Sound lists roots f)
    (hpending : f.pending = w :: pending) (hnew : f.isNew w = true) :
    Sound lists roots ({ f with pending }.meet w) := by
  obtain ⟨taken, group, older, hroots, hgroups, hmaking, htodo, hentries⟩ :=
    h.making (Or.inr (hpending ▸ List.cons_ne_nil _ _))
  -- the node is an entry of one of the group
  obtain ⟨u, hu, hentry⟩ := hentries w (hpending ▸ List.mem_cons_self)
  have hlt : w < lists.size := hclosed u w hentry
  have hw : w ∉ f.pushed := (h.met w hlt).mp (isNew_iff.mp hnew)
  have hbegun : f.begun - 1 = older.length := by
    rw [h.begun, hgroups, List.length_cons, Nat.add_sub_cancel]
  have hpushed : ({ f with pending }.meet w).pushed = w :: f.pushed := flatten_addToTree w f.groups
  have hgroups' : ({ f with pending }.meet w).groups = (w :: group) :: older := by
    rw [Flood.meet, hgroups]
    rfl
  refine
    { size := by rw [Flood.meet, Array.size_setIfInBounds]; exact h.size
      begun := by rw [hgroups']; exact h.begun.trans (by rw [hgroups]; rfl)
      numbers := ?_
      met := by rw [hpushed]; exact h.met_push hlt _
      nodup := by rw [hpushed]; exact List.nodup_cons.mpr ⟨hw, h.nodup⟩
      lt := by rw [hpushed]; exact List.forall_mem_cons.mpr ⟨hlt, h.lt⟩
      looked := fun v hv hout x hx => ?_
      gathers := ⟨taken, hroots, Or.inr ⟨w :: group, older, hgroups', hmaking.add hu hentry,
        fun v hv => ?_, fun x hx => ?_⟩⟩ }
  · rw [hgroups', numberTrees_add, ← hgroups, ← h.numbers, ← hbegun]
    exact Array.map_setIfInBounds ..
  · rw [hpushed] at hv ⊢
    obtain ⟨hvw, hvtodo⟩ := List.ne_and_not_mem_of_not_mem_cons hout
    have hold := (List.mem_cons.mp hv).resolve_left hvw
    rcases h.looked v hold hvtodo x hx with hx | hx
    · rw [hpending] at hx
      rcases List.mem_cons.mp hx with rfl | hx
      · exact Or.inr List.mem_cons_self
      · exact Or.inl hx
    · exact Or.inr (List.mem_cons_of_mem _ hx)
  · rcases List.mem_cons.mp hv with rfl | hv
    · exact List.mem_cons_self
    · exact List.mem_cons_of_mem _ (htodo v hv)
  · obtain ⟨v, hv, hmem⟩ := hentries x (hpending ▸ List.mem_cons_of_mem _ hx)
    exact ⟨v, List.mem_cons_of_mem _ hv, hmem⟩

/-- A root begins a group. -/
theorem root {r : Nat} {rest : List Nat} (hlt : r < lists.size) (h : Sound lists roots f)
    (hpending : f.pending = []) (htodo : f.todo = []) (hroots : f.roots = r :: rest)
    (hnew : f.isNew r = true) : Sound lists roots ({ f with roots := rest }.begin r) := by
  obtain ⟨taken, htaken, hgathered⟩ := h.gathered hpending htodo
  have hr : r ∉ f.pushed := (h.met r hlt).mp (isNew_iff.mp hnew)
  refine
    { size := by rw [Flood.begin, Array.size_setIfInBounds]; exact h.size
      begun := congrArg (· + 1) h.begun
      numbers := ?_
      met := h.met_push hlt _
      nodup := List.nodup_cons.mpr ⟨hr, h.nodup⟩
      lt := List.forall_mem_cons.mpr ⟨hlt, h.lt⟩
      looked := fun v hv hout x hx => ?_
      gathers := ⟨r :: taken, ?_, Or.inr ⟨[r], f.groups, rfl, .start hgathered r, fun v hv => hv,
        fun x hx => ?_⟩⟩ }
  · refine (Array.map_setIfInBounds ..).trans ?_
    rw [h.numbers, Option.getD_some, h.begun]
    exact (numberTrees_cons lists.size [r] f.groups).symm
  · have hvr : v ≠ r := fun he => hout (he ▸ List.mem_cons_self)
    have hold := (List.mem_cons.mp hv).resolve_left hvr
    have hlooked := h.looked v hold (htodo ▸ List.not_mem_nil) x hx
    rw [hpending] at hlooked
    exact Or.inr (List.mem_cons_of_mem _ (hlooked.resolve_left List.not_mem_nil))
  · rw [htaken, hroots, List.reverse_cons, List.append_assoc]
    rfl
  · have hmem : x ∈ f.pending := hx
    rw [hpending] at hmem
    cases hmem

theorem step (hclosed : Closed lists) (hlt : ∀ r ∈ roots, r < lists.size) (hs : Turn lists f f')
    (h : Sound lists roots f) : Sound lists roots f' := by
  have hroot : ∀ r ∈ f.roots, r < lists.size := by
    obtain ⟨taken, hroots, -⟩ := h.gathers
    exact fun r hr => hlt r (hroots ▸ List.mem_append_right _ hr)
  have hold : ∀ {v}, v < lists.size → ¬ f.isNew v = true → v ∈ f.pushed := by
    intro v hv hnew
    by_contra hout
    exact hnew (isNew_iff.mpr ((h.met v hv).mpr hout))
  cases hs with
  | meet hpending hnew => exact h.meet hclosed hpending hnew
  | @pass w pending hpending hnew =>
    obtain ⟨taken, group, older, hroots, hgroups, hmaking, htodo, hentries⟩ :=
      h.making (Or.inr (hpending ▸ List.cons_ne_nil _ _))
    obtain ⟨u, -, hentry⟩ := hentries w (hpending ▸ List.mem_cons_self)
    have hw : w ∈ f.pushed := hold (hclosed u w hentry) hnew
    refine { h with
      looked := fun v hv hout x hx => ?_
      gathers := ⟨taken, hroots, Or.inr ⟨group, older, hgroups, hmaking, htodo, fun x hx =>
        hentries x (hpending ▸ List.mem_cons_of_mem _ hx)⟩⟩ }
    rcases h.looked v hv hout x hx with hx | hx
    · rw [hpending] at hx
      rcases List.mem_cons.mp hx with rfl | hx
      · exact Or.inr hw
      · exact Or.inl hx
    · exact Or.inr hx
  | @take v todo hpending htodo =>
    obtain ⟨taken, group, older, hroots, hgroups, hmaking, hmem, -⟩ :=
      h.making (Or.inl (htodo ▸ List.cons_ne_nil _ _))
    have hv : v ∈ group := hmem v (htodo ▸ List.mem_cons_self)
    refine { h with
      looked := fun u hu hout x hx => ?_
      gathers := ⟨taken, hroots, Or.inr ⟨group, older, hgroups, hmaking, fun u hu =>
        hmem u (htodo ▸ List.mem_cons_of_mem _ hu), fun x hx => ⟨v, hv, hx⟩⟩⟩ }
    -- what was pending is looked at, so that only entries of the node taken are pending now
    by_cases huv : u = v
    · exact Or.inl (huv ▸ hx)
    · have hout' : u ∉ f.todo := by
        rw [htodo, List.mem_cons, not_or]
        exact ⟨huv, hout⟩
      have hlooked := h.looked u hu hout' x hx
      rw [hpending] at hlooked
      exact Or.inr (hlooked.resolve_left List.not_mem_nil)
  | @root r rest hpending htodo hroots hnew =>
    exact h.root (hroot r (hroots ▸ List.mem_cons_self)) hpending htodo hroots hnew
  | @skip r rest hpending htodo hroots hnew =>
    obtain ⟨taken, htaken, hgathered⟩ := h.gathered hpending htodo
    have hr : r ∈ f.pushed := hold (hroot r (hroots ▸ List.mem_cons_self)) hnew
    exact { h with
      gathers := ⟨r :: taken, by simpa [hroots] using htaken,
        Or.inl ⟨htodo, hpending, hgathered.skip hr⟩⟩ }

/-- **The groups of a flood that has ended are the trees of a search** from the same roots. -/
theorem sameGroups (hclosed : Closed lists) (hroots : ∀ v, v ∈ roots ↔ v < lists.size)
    (h : Sound lists roots f) (hend : f.step lists = none) :
    SameGroups f.groups (explore (lists.getD · []) lists.size roots).trees := by
  obtain ⟨hpending, htodo, hnone⟩ := idle_of_step hend
  obtain ⟨taken, htaken, hgathered⟩ := h.gathered hpending htodo
  rw [hnone, List.append_nil] at htaken
  have hreverse : roots.reverse = taken := by rw [htaken, List.reverse_reverse]
  exact hgathered.unique (hreverse ▸ gathered_explore hclosed hroots)

/-- **In the end each node was pushed once.** -/
theorem pushed_perm (hroots : ∀ v, v ∈ roots ↔ v < lists.size) (h : Sound lists roots f)
    (hend : f.step lists = none) : f.pushed.Perm (List.range lists.size) := by
  obtain ⟨hpending, htodo, hnone⟩ := idle_of_step hend
  obtain ⟨taken, htaken, hgathered⟩ := h.gathered hpending htodo
  rw [hnone, List.append_nil] at htaken
  refine (List.perm_ext_iff_of_nodup h.nodup List.nodup_range).mpr fun v => ?_
  rw [List.mem_range]
  refine ⟨h.lt v, fun hv => hgathered.mem_root v ?_⟩
  exact List.mem_reverse.mp (htaken ▸ (hroots v).mpr hv)

/-- **In the end the nodes are numbered as the trees of a search are.** -/
theorem numbers_eq (hclosed : Closed lists) (hroots : ∀ v, v ∈ roots ↔ v < lists.size)
    (h : Sound lists roots f) (hend : f.step lists = none) :
    f.numbers = (explore (lists.getD · []) lists.size roots).treeNumbers.map some := by
  have hc := coherent_explore (fun v => (hroots v).mpr) (lists.getD · [])
  have htrees : (explore (lists.getD · []) lists.size roots).treeNumbers =
      numberTrees lists.size (explore (lists.getD · []) lists.size roots).trees := by
    rw [treeNumbers, hc.size_marks]
    rfl
  have hnumbered : ∀ v (hv : v < f.numbers.size), f.numbers[v] ≠ none := by
    intro v hv hnone
    have hlt : v < lists.size := h.size ▸ hv
    have hpushed := (h.pushed_perm hroots hend).mem_iff.mpr (List.mem_range.mpr hlt)
    refine (h.met v hlt).mp ?_ hpushed
    rw [Array.getD_eq_getD_getElem?, Array.getElem?_eq_getElem hv, Option.getD_some, hnone]
  rw [htrees, ← numberTrees_congr (h.sameGroups hclosed hroots hend) h.lt, ← h.numbers]
  refine Array.ext (by simp) fun v hv hv' => ?_
  obtain ⟨n, hn⟩ := Option.ne_none_iff_exists'.mp (hnumbered v hv)
  simp [hn]

end Sound

/-! ## 6. Whole floods -/

variable {roots : List Nat}

/-- A flood after some steps. -/
def after (lists : Array (List Nat)) (roots : List Nat) (k : Nat) : Flood :=
  runFor (step lists) k (start lists roots)

/-- Whether a flood has ended after some steps. -/
def EndsBy (lists : Array (List Nat)) (roots : List Nat) (k : Nat) : Prop :=
  (after lists roots k).step lists = none

/-- **A flood ends, pushes no node twice and in the end has pushed each node.** -/
structure IsThrifty (lists : Array (List Nat)) (roots : List Nat) : Prop where
  ends : ∃ k, EndsBy lists roots k
  always : ∀ k, (after lists roots k).pushed.Nodup
  once : ∀ k, EndsBy lists roots k → (after lists roots k).pushed.Perm (List.range lists.size)

/-- **A flood ends.** -/
theorem exists_endsBy (lists : Array (List Nat)) (roots : List Nat) : ∃ k, EndsBy lists roots k :=
  ⟨_, step_runFor_eq_none (P := fun f n => work lists f = n)
    (fun _ f' _ hleft hf => ⟨work lists f', hleft ▸ work_lt (turn_of_step hf), rfl⟩) rfl
    (Nat.le_refl _)⟩

theorem sound_after (hclosed : Closed lists) (hroots : ∀ v, v ∈ roots ↔ v < lists.size) (k : Nat) :
    Sound lists roots (after lists roots k) :=
  runFor_keeps (fun _ _ h hf => h.step hclosed (fun r => (hroots r).mp) (turn_of_step hf)) k
    (.start lists roots)

theorem isThrifty (hclosed : Closed lists) (hroots : ∀ v, v ∈ roots ↔ v < lists.size) :
    IsThrifty lists roots where
  ends := exists_endsBy lists roots
  always k := (sound_after hclosed hroots k).nodup
  once k hend := (sound_after hclosed hroots k).pushed_perm hroots hend

end Flood

end LogicSim
