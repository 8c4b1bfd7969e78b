import LogicSim.Proofs.Graph.Components

/-!
# Strict searches

A *strict* computation reads a list or an array only at positions that exist. It is in `Option`, and
none as soon as a position is out of bounds. The strict counterpart of a function takes the place of
each reading with a default, of each change that has no effect out of bounds, and of each step that
needs a list not to be empty; where it is some, it has the value of the function.

This file does so for searches:

* `foldlM_eq_some`, `mapM_eq_some` -- a strict loop whose steps are in bounds is the plain loop;
* `Search.strictStep_eq` -- in a graph whose edges end at nodes, each step of a search is in bounds,
  and the loop that an edge closes is not empty;
* `Search.strictExplore_eq`, `Search.strictTreeNumbers_eq` -- so is a whole search, and the numbering
  of its trees.
-/

namespace LogicSim

/-! ## 1. Strict access -/

section Access

variable {α β : Type}

/-- Overwrites a position that exists. -/
def strictSet (a : Array α) (i : Nat) (x : α) : Option (Array α) :=
  if i < a.size then some (a.setIfInBounds i x) else none

/-- Changes what stands at a position that exists. -/
def strictModify (a : Array α) (i : Nat) (f : α → α) : Option (Array α) :=
  if i < a.size then some (a.modify i f) else none

/-- A list without its last entry, which exists. -/
def strictDropLast (l : List α) : Option (List α) := if l = [] then none else some l.dropLast

/-- The entries of a list that pass a test. -/
def strictFilter (test : α → Option Bool) (l : List α) : Option (List α) :=
  l.foldlM (fun kept a => do return if ← test a then kept ++ [a] else kept) []

theorem strictSet_eq {a : Array α} {i : Nat} (h : i < a.size) (x : α) :
    strictSet a i x = some (a.setIfInBounds i x) := if_pos h

theorem strictModify_eq {a : Array α} {i : Nat} (h : i < a.size) (f : α → α) :
    strictModify a i f = some (a.modify i f) := if_pos h

theorem getElem?_eq_getD {a : Array α} {i : Nat} (h : i < a.size) (x : α) :
    a[i]? = some (a.getD i x) := by
  rw [Array.getD_eq_getD_getElem?, Array.getElem?_eq_getElem h, Option.getD_some]

/-- What follows a step in bounds. -/
theorem some_bind (a : α) (f : α → Option β) : some a >>= f = f a := rfl

/-- **A strict loop whose steps are in bounds is the plain loop**, if each step keeps what the next
    one needs. -/
theorem foldlM_eq_some {f : β → α → Option β} {g : β → α → β} {P : β → Prop} {l : List α}
    (hstep : ∀ b, P b → ∀ a ∈ l, f b a = some (g b a) ∧ P (g b a)) {b : β} (hb : P b) :
    l.foldlM f b = some (l.foldl g b) := by
  induction l generalizing b with
  | nil => rfl
  | cons a l ih =>
    obtain ⟨hfirst, hkept⟩ := hstep b hb a List.mem_cons_self
    rw [List.foldlM_cons, hfirst]
    exact ih (fun b hb x hx => hstep b hb x (List.mem_cons_of_mem a hx)) hkept

/-- The entries of a list, each mapped in bounds. -/
theorem mapM_eq_some {f : α → Option β} {g : α → β} {l : List α} (h : ∀ a ∈ l, f a = some (g a)) :
    l.mapM f = some (l.map g) := by
  induction l with
  | nil => rfl
  | cons a l ih =>
    rw [List.mapM_cons, h a List.mem_cons_self, ih fun x hx => h x (List.mem_cons_of_mem a hx)]
    rfl

/-- Where every entry of a list is mapped in bounds, none is left out. -/
theorem mapM_eq_filterMap {f : α → Option β} {l : List α} (h : ∀ a ∈ l, (f a).isSome) :
    l.mapM f = some (l.filterMap f) := by
  induction l with
  | nil => rfl
  | cons a l ih =>
    obtain ⟨b, hb⟩ := Option.isSome_iff_exists.mp (h a List.mem_cons_self)
    rw [List.mapM_cons, hb, ih fun x hx => h x (List.mem_cons_of_mem a hx),
      List.filterMap_cons_some hb]
    rfl

/-- The entries of a list, each tested in bounds. -/
theorem strictFilter_eq {test : α → Option Bool} {p : α → Bool} {l : List α}
    (h : ∀ a ∈ l, test a = some (p a)) : strictFilter test l = some (l.filter p) := by
  have hfold : strictFilter test l =
      some (l.foldl (fun kept a => if p a then kept ++ [a] else kept) []) :=
    foldlM_eq_some (P := fun _ => True) (fun kept _ a ha => ⟨by rw [h a ha]; rfl, trivial⟩) trivial
  rw [hfold]
  clear hfold h
  induction l using List.reverseRecOn with
  | nil => rfl
  | append_singleton l a ih =>
    rw [List.foldl_append, Option.some.inj ih, List.filter_append]
    by_cases ha : p a <;> simp [ha]

/-- The entries of a list, tested in bounds until one passes. -/
theorem anyM_eq_some {test : α → Option Bool} {p : α → Bool} {l : List α}
    (h : ∀ a ∈ l, test a = some (p a)) : l.anyM test = some (l.any p) := by
  induction l with
  | nil => rfl
  | cons a l ih =>
    rw [List.anyM_cons, h a List.mem_cons_self, ih fun x hx => h x (List.mem_cons_of_mem a hx),
      List.any_cons]
    cases p a <;> rfl

end Access

namespace Search

/-! ## 2. Strict steps -/

/-- The loop closed by the edge from the innermost node, which exists, to a node of the path. -/
def strictLoop (path : List Nat) (v : Nat) : Option (List Nat) := do
  let innermost ← path.head?
  if v ∈ path then return path.takeWhile (· ≠ v) ++ [v, innermost] else none

/-- One step in the graph with the given lists of successors. -/
def strictStep (lists : Array (List Nat)) (s : Search) : Option (Option Search) :=
  match s.path with
  | ⟨v, w :: rest⟩ :: path => do
    match ← s.marks[w]? with
    | .fresh =>
      let marks ← strictSet s.marks w .onPath
      let pending ← lists[w]?
      return some { s with marks, path := ⟨w, pending⟩ :: ⟨v, rest⟩ :: path }
    | .onPath =>
      let loop ← strictLoop s.pathNodes w
      return some { s with path := ⟨v, rest⟩ :: path, loop := s.loop.or (some loop) }
    | .finished => return some { s with path := ⟨v, rest⟩ :: path }
  | ⟨v, []⟩ :: path => do
    let marks ← strictSet s.marks v .finished
    return some { s with marks, path, trees := addToTree v s.trees }
  | [] =>
    match s.roots with
    | [] => some none
    | r :: roots => do
      if (← s.marks[r]?) = .fresh then
        let marks ← strictSet s.marks r .onPath
        let pending ← lists[r]?
        return some { s with marks, path := [⟨r, pending⟩], roots, trees := [] :: s.trees }
      else return some { s with roots }

/-- At most so many steps. -/
def strictRun (lists : Array (List Nat)) : Nat → Search → Option Search
  | 0, s => some s
  | fuel + 1, s => do
    match ← s.strictStep lists with
    | none => return s
    | some s => strictRun lists fuel s

/-- The search of a graph from the given roots, one after the other. -/
def strictExplore (lists : Array (List Nat)) (roots : List Nat) : Option Search :=
  strictRun lists (bound (lists.getD · []) lists.size roots) (start lists.size roots)

/-- The number of the tree of each node. -/
def strictTreeNumbers (s : Search) : Option (Array Nat) :=
  (s.trees.reverse.zipIdx).foldlM
    (fun numbers tree => tree.1.foldlM (fun ns v => strictSet ns v tree.2) numbers)
    (Array.replicate s.marks.size 0)

/-! ## 3. Searches in bounds -/

section Bounds

variable {lists : Array (List Nat)} {roots : List Nat}

/-- The successors of all nodes are nodes. -/
def Closed (lists : Array (List Nat)) : Prop := ∀ v, ∀ w ∈ lists.getD v [], w < lists.size

/-- What a search that stays in bounds keeps. -/
structure Within (lists : Array (List Nat)) (s : Search) : Prop where
  coherent : Coherent (lists.getD · []) lists.size s
  roots : ∀ r ∈ s.roots, r < lists.size

theorem Within.step {s s' : Search} (h : Within lists s) (hs : Step (lists.getD · []) s s') :
    Within lists s' := by
  refine ⟨h.coherent.step hs, ?_⟩
  cases hs with
  | skip hr => exact fun r hr => h.roots r (List.mem_cons_of_mem _ hr)
  | root hr => exact fun r hr => h.roots r (List.mem_cons_of_mem _ hr)
  | _ => exact h.roots

/-- A node of the path is a node of the graph. -/
theorem Coherent.lt_of_mem_path {succ : Nat → List Nat} {size : Nat} {s : Search}
    (h : Coherent succ size s) {v : Nat} (hv : v ∈ s.pathNodes) : v < size := by
  have hmark : s.marks.getD v .finished = .onPath := (h.onPath v).mpr hv
  exact h.size_marks ▸ lt_of_getD_ne (by rw [hmark]; decide)

/-- The loop through a node of the path is not empty. -/
theorem strictLoop_eq {path : List Nat} {v : Nat} (hv : v ∈ path) :
    strictLoop path v = some (loopThrough path v) := by
  cases path with
  | nil => cases hv
  | cons u path => exact if_pos hv

example : strictLoop [] 0 = none := rfl

/-- **Each step of a search is in bounds.** -/
theorem strictStep_eq (hclosed : Closed lists) {s : Search} (h : Within lists s) :
    s.strictStep lists = some (s.step (lists.getD · [])) := by
  obtain ⟨marks, path, roots, trees, loop⟩ := s
  have hsize : marks.size = lists.size := h.coherent.size_marks
  have hmark : ∀ {v}, v < lists.size → marks[v]? = some (marks.getD v .finished) := fun hv =>
    getElem?_eq_getD (hsize.symm ▸ hv) _
  have hset : ∀ {v} (m : Mark), v < lists.size → strictSet marks v m = some (marks.setIfInBounds v m) :=
    fun m hv => strictSet_eq (hsize.symm ▸ hv) m
  match path, roots with
  | [], [] => rfl
  | [], r :: roots =>
    have hr : r < lists.size := h.roots r List.mem_cons_self
    simp only [strictStep, step, mark, hmark hr, hset _ hr, getElem?_eq_getD hr [],
      Option.bind_eq_bind, Option.bind_some, Option.pure_def]
    split <;> rfl
  | ⟨v, []⟩ :: path, roots =>
    have hv : v < lists.size := h.coherent.lt_of_mem_path List.mem_cons_self
    simp only [strictStep, step, hset _ hv]
    rfl
  | ⟨v, w :: rest⟩ :: path, roots =>
    have hw : w < lists.size :=
      hclosed v w (h.coherent.pending ⟨v, w :: rest⟩ List.mem_cons_self w List.mem_cons_self)
    have hloop : marks.getD w .finished = .onPath → w ∈ v :: path.map (·.node) :=
      (h.coherent.onPath w).mp
    simp only [strictStep, step, mark, hmark hw, hset _ hw, getElem?_eq_getD hw []]
    cases hm : marks.getD w .finished with
    | fresh => rfl
    | onPath =>
      simp only [pathNodes, List.map_cons, strictLoop_eq (hloop hm)]
      rfl
    | finished => rfl

/-- A run is in bounds when it begins so. -/
theorem strictRun_eq (hclosed : Closed lists) (fuel : Nat) {s : Search} (h : Within lists s) :
    strictRun lists fuel s = some (run (lists.getD · []) fuel s) := by
  induction fuel generalizing s with
  | zero => rfl
  | succ fuel ih =>
    rw [strictRun, run, strictStep_eq hclosed h]
    cases hs : s.step (lists.getD · []) with
    | none => rfl
    | some s' => exact ih (h.step (step_of_eq_some hs))

/-- **A search is in bounds**, from roots in any order, each node of the graph among them. -/
theorem strictExplore_eq (hclosed : Closed lists) (hroots : ∀ v, v ∈ roots ↔ v < lists.size) :
    strictExplore lists roots = some (explore (lists.getD · []) lists.size roots) :=
  strictRun_eq hclosed _ ⟨coherent_start fun v => (hroots v).mpr, fun v => (hroots v).mp⟩

/-- **The nodes of the trees are in bounds.** -/
theorem strictTreeNumbers_eq {succ : Nat → List Nat} {size : Nat} {s : Search}
    (h : Coherent succ size s) : s.strictTreeNumbers = some s.treeNumbers := by
  refine foldlM_eq_some (P := fun numbers => numbers.size = size) (fun numbers hn tree htree => ?_)
    (by rw [Array.size_replicate, h.size_marks])
  refine ⟨foldlM_eq_some (P := fun numbers => numbers.size = size) (fun ns hns v hv => ?_) hn, ?_⟩
  · have hmem : tree.1 ∈ s.trees := List.mem_reverse.mp (List.fst_mem_of_mem_zipIdx htree)
    have hlt : v < size := h.done_lt v (List.mem_flatten_of_mem hmem hv)
    exact ⟨strictSet_eq (hns.symm ▸ hlt) _, by rw [Array.size_setIfInBounds, hns]⟩
  · rw [size_foldl_set, hn]

theorem size_treeNumbers {succ : Nat → List Nat} {size : Nat} {s : Search}
    (h : Coherent succ size s) : s.treeNumbers.size = size :=
  (size_numberTrees ..).trans h.size_marks

end Bounds

end Search

end LogicSim
