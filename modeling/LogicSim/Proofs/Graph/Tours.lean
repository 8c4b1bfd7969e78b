import LogicSim.Proofs.Strict.Search

/-!
# Searches as loops

A `Search` keeps with each node of its path what is still to be looked at, and marks of its own. A
loop that searches the lists of a graph keeps a stack of nodes with the number of entries read, and
writes down about the nodes what it needs (`Account`). For that it may look once more at the entries
of a node that it is done with. This file runs such a loop (`Tour`) with a record of all it does, and
shows that it follows the search turn by turn (`Tour.Follows.step`).

From what the search keeps follows what the record says at any moment (`Tour.Follows.thrifty`): no
node was pushed twice, the counters of the stack read no entry twice, and the loop over the stack took
no more turns than there are nodes and entries. An entry was looked at twice only if its node was done
with, and the loop looks at the entries of such a node again (`Tour.Thrifty.count_examined_le`).
-/

namespace LogicSim

/-! ## 1. Machines -/

section Machine

variable {α : Type} {step : α → Option α} {s : α}

/-- At most so many steps of a machine. -/
def runFor (step : α → Option α) : Nat → α → α
  | 0, s => s
  | k + 1, s =>
    match step s with
    | none => s
    | some s => runFor step k s

/-- What every step keeps, a run keeps. -/
theorem runFor_keeps {P : α → Prop} (hstep : ∀ s s', P s → step s = some s' → P s') (k : Nat)
    (h : P s) : P (runFor step k s) := by
  induction k generalizing s with
  | zero => exact h
  | succ k ih =>
    unfold runFor
    split
    · exact h
    next s' hs => exact ih (hstep s s' h hs)

/-- **A machine ends** if each step leaves fewer steps. Of a state `P` says how many are left. -/
theorem step_runFor_eq_none {P : α → Nat → Prop}
    (hstep : ∀ s s' n, P s n → step s = some s' → ∃ m < n, P s' m) {n k : Nat} (h : P s n)
    (hk : n ≤ k) : step (runFor step k s) = none := by
  induction k generalizing s n with
  | zero =>
    cases hs : step s with
    | none => exact hs
    | some s' =>
      obtain ⟨m, hm, -⟩ := hstep s s' n h hs
      omega
  | succ k ih =>
    unfold runFor
    split
    next hs => exact hs
    next s' hs =>
      obtain ⟨m, hm, h'⟩ := hstep s s' n h hs
      exact ih h' (by omega)

end Machine

/-! ## 2. Loops -/

variable {σ : Type}

/-- What a loop writes down about the nodes. -/
structure Account (σ : Type) where
  /-- whether a root was met before -/
  isOld : σ → Nat → Bool
  /-- whether an entry of a list was never met -/
  isNew : σ → Nat → Bool
  /-- whether an entry that was met before ends the loop -/
  halts : σ → Nat → Bool
  enter : σ → Nat → σ
  /-- whether the entries of a node are looked at once more when the node is done with -/
  rereads : Nat → Bool
  /-- a node is done with; the list has the entries looked at once more -/
  leave : σ → Nat → List Nat → σ

/-- The entries that are looked at once more when a node is done with: all of its list, or none. -/
def Account.reread (a : Account σ) (lists : Array (List Nat)) (v : Nat) : List Nat :=
  if a.rereads v then lists.getD v [] else []

theorem Account.length_reread_le (a : Account σ) (lists : Array (List Nat)) (v : Nat) :
    (a.reread lists v).length ≤ (lists.getD v []).length := by
  unfold reread
  split
  · exact Nat.le_refl _
  · exact Nat.zero_le _

/-- The state of a loop, with a record of what it did. -/
structure Tour (σ : Type) where
  account : σ
  /-- the path from the current root, innermost node first, each with the number of entries read -/
  stack : List (Nat × Nat)
  /-- the roots still to be taken -/
  roots : List Nat
  /-- what ended the loop before it was through -/
  cycle : Option (List Nat) := none
  /-- record: the nodes pushed, latest first -/
  pushed : List Nat := []
  /-- record: the entries read by the counters, latest first, by node and number -/
  read : List (Nat × Nat) := []
  /-- record: the entries looked at once more, latest node first -/
  reread : List (Nat × Nat) := []
  /-- record: the nodes done with, latest first -/
  popped : List Nat := []
  /-- record: the turns of the loop over the stack -/
  turns : Nat := 0

namespace Tour

/-- The nodes of the stack, innermost first. -/
def nodes (t : Tour σ) : List Nat := t.stack.map Prod.fst

/-- The place of a node on a stack, from the bottom. -/
def position (nodes : List Nat) (w : Nat) : Option Nat := nodes.reverse.idxOf? w

/-- The cycle that an entry of the innermost node closes: from the innermost node down to the place of
    the entry, and once more the innermost node. Without a place it is taken for the bottom. -/
def closing (nodes : List Nat) (w : Nat) : List Nat :=
  let cycle := (nodes.reverse.drop ((position nodes w).getD 0)).reverse
  cycle ++ cycle.head?.toList

/-- A node is met for the first time. -/
def push (a : Account σ) (w : Nat) (t : Tour σ) : Tour σ :=
  { t with
    account := a.enter t.account w
    stack := (w, 0) :: t.stack
    pushed := w :: t.pushed }

/-- The next entry of the innermost node is read. -/
def advance (v i : Nat) (rest : List (Nat × Nat)) (t : Tour σ) : Tour σ :=
  { t with stack := (v, i + 1) :: rest, read := (v, i) :: t.read, turns := t.turns + 1 }

/-- The first entries of the list of a node, by number. -/
def firstEntries (v i : Nat) : List (Nat × Nat) := (List.range i).map ((v, ·))

/-- The innermost node is done with. What the account is given of the list of the node is recorded. -/
def pop (a : Account σ) (lists : Array (List Nat)) (v : Nat) (rest : List (Nat × Nat))
    (t : Tour σ) : Tour σ :=
  { t with
    account := a.leave t.account v (a.reread lists v)
    stack := rest
    reread := firstEntries v (a.reread lists v).length ++ t.reread
    popped := v :: t.popped
    turns := t.turns + 1 }

/-- All entries looked at, by node and number. -/
def examined (t : Tour σ) : List (Nat × Nat) := t.reread ++ t.read

/-- One turn of the loop over the stack, or the next root; none when the loop has ended. -/
def step (a : Account σ) (lists : Array (List Nat)) (t : Tour σ) : Option (Tour σ) :=
  match t.cycle with
  | some _ => none
  | none =>
    match t.stack with
    | (v, i) :: rest =>
      match (lists.getD v [])[i]? with
      | some w =>
        if a.isNew t.account w then some ((t.advance v i rest).push a w)
        else if a.halts t.account w then
          some { t.advance v i rest with cycle := some (closing t.nodes w) }
        else some (t.advance v i rest)
      | none => some (t.pop a lists v rest)
    | [] =>
      match t.roots with
      | [] => none
      | r :: roots =>
        if a.isOld t.account r then some { t with roots }
        else some ({ t with roots }.push a r)

/-- **What a step can do.** -/
inductive Turn (a : Account σ) (lists : Array (List Nat)) (t : Tour σ) : Tour σ → Prop where
  /-- a root that was met before -/
  | skip {r : Nat} {roots : List Nat} (hstack : t.stack = []) (hroots : t.roots = r :: roots)
      (hold : a.isOld t.account r = true) : Turn a lists t { t with roots }
  /-- a new root -/
  | root {r : Nat} {roots : List Nat} (hstack : t.stack = []) (hroots : t.roots = r :: roots)
      (hold : ¬ a.isOld t.account r = true) : Turn a lists t ({ t with roots }.push a r)
  /-- an entry that was never met -/
  | enter {v i w : Nat} {rest : List (Nat × Nat)} (hstack : t.stack = (v, i) :: rest)
      (hentry : (lists.getD v [])[i]? = some w) (hnew : a.isNew t.account w = true) :
      Turn a lists t ((t.advance v i rest).push a w)
  /-- an entry that ends the loop -/
  | halt {v i w : Nat} {rest : List (Nat × Nat)} (hstack : t.stack = (v, i) :: rest)
      (hentry : (lists.getD v [])[i]? = some w) (hnew : ¬ a.isNew t.account w = true)
      (hhalts : a.halts t.account w = true) :
      Turn a lists t { t.advance v i rest with cycle := some (closing t.nodes w) }
  /-- an entry that was met before -/
  | pass {v i w : Nat} {rest : List (Nat × Nat)} (hstack : t.stack = (v, i) :: rest)
      (hentry : (lists.getD v [])[i]? = some w) (hnew : ¬ a.isNew t.account w = true)
      (hhalts : ¬ a.halts t.account w = true) : Turn a lists t (t.advance v i rest)
  /-- a node is done with -/
  | leave {v i : Nat} {rest : List (Nat × Nat)} (hstack : t.stack = (v, i) :: rest)
      (hentry : (lists.getD v [])[i]? = none) : Turn a lists t (t.pop a lists v rest)

theorem turn_of_step {a : Account σ} {lists : Array (List Nat)} {t t' : Tour σ}
    (h : t.step a lists = some t') : t.cycle = none ∧ Turn a lists t t' := by
  rw [step] at h
  split at h
  · cases h
  next hcycle =>
    refine ⟨hcycle, ?_⟩
    split at h
    next hstack =>
      split at h
      next hentry =>
        split at h
        next hnew => exact Option.some.inj h ▸ .enter hstack hentry hnew
        next hnew =>
          split at h
          next hhalts => exact Option.some.inj h ▸ .halt hstack hentry hnew hhalts
          next hhalts => exact Option.some.inj h ▸ .pass hstack hentry hnew hhalts
      next hentry => exact Option.some.inj h ▸ .leave hstack hentry
    next hstack =>
      split at h
      · cases h
      next hroots =>
        split at h
        next hold => exact Option.some.inj h ▸ .skip hstack hroots hold
        next hold => exact Option.some.inj h ▸ .root hstack hroots hold

/-- A loop that is through has an empty stack, and no roots left. -/
theorem stack_roots_of_step {a : Account σ} {lists : Array (List Nat)} {t : Tour σ}
    (h : t.step a lists = none) (hcycle : t.cycle = none) : t.stack = [] ∧ t.roots = [] := by
  simp only [step, hcycle] at h
  split at h
  · split at h
    · split at h
      · cases h
      · split at h <;> cases h
    · cases h
  next hstack =>
    split at h
    next hroots => exact ⟨hstack, hroots⟩
    · split at h <;> cases h

/-- The loop over all nodes as roots, before it begins. -/
def start (account : σ) (lists : Array (List Nat)) : Tour σ :=
  { account, stack := [], roots := List.range lists.size }

/-- The number of entries in all lists. -/
def entryCount (lists : Array (List Nat)) : Nat :=
  ((List.range lists.size).map fun v => (lists.getD v []).length).sum

/-! ## 3. The record -/

/-- How far the list of each node was read: of a node of the stack as far as it says there, of a node
    that is done with to the end. -/
def extents (lists : Array (List Nat)) (stack : List (Nat × Nat)) (done : List Nat) :
    List (Nat × Nat) :=
  stack ++ done.map fun v => (v, (lists.getD v []).length)

/-- **The record tells what the stack and the nodes done with tell.** -/
structure Logged (a : Account σ) (lists : Array (List Nat)) (t : Tour σ) (done : List Nat) :
    Prop where
  counters : ∀ f ∈ t.stack, f.2 ≤ (lists.getD f.1 []).length
  pushed : t.pushed.Perm ((extents lists t.stack done).map Prod.fst)
  read : t.read.Perm ((extents lists t.stack done).flatMap fun f => firstEntries f.1 f.2)
  reread : t.reread = done.flatMap fun v => firstEntries v (a.reread lists v).length
  popped : t.popped = done
  turns : t.turns = t.read.length + t.popped.length

section Logged

variable {a : Account σ} {lists : Array (List Nat)} {t : Tour σ} {done : List Nat}

theorem map_fst_extents (lists : Array (List Nat)) (stack : List (Nat × Nat)) (done : List Nat) :
    (extents lists stack done).map Prod.fst = stack.map Prod.fst ++ done := by
  rw [extents, List.map_append, List.map_map]
  exact congrArg _ (List.map_id' done)

theorem Logged.push (h : Logged a lists t done) (w : Nat) : Logged a lists (t.push a w) done where
  counters f hf := by
    rcases List.mem_cons.mp hf with rfl | hf
    · exact Nat.zero_le _
    · exact h.counters f hf
  pushed := h.pushed.cons w
  read := h.read
  reread := h.reread
  popped := h.popped
  turns := h.turns

theorem Logged.advance {v i w : Nat} {rest : List (Nat × Nat)} (h : Logged a lists t done)
    (hstack : t.stack = (v, i) :: rest) (hw : (lists.getD v [])[i]? = some w) :
    Logged a lists (t.advance v i rest) done where
  counters f hf := by
    rcases List.mem_cons.mp hf with rfl | hf
    · exact (List.getElem?_eq_some_iff.mp hw).1
    · exact h.counters f (hstack ▸ List.mem_cons_of_mem _ hf)
  pushed := by
    have hpushed := h.pushed
    rw [hstack] at hpushed
    exact hpushed
  read := by
    have hread := h.read
    rw [hstack] at hread
    have hnext : firstEntries v (i + 1) = firstEntries v i ++ [(v, i)] := by
      rw [firstEntries, List.range_succ, List.map_append]
      rfl
    refine (hread.cons (v, i)).trans ?_
    simp only [Tour.advance, extents, List.cons_append, List.flatMap_cons, hnext, List.append_assoc,
      List.nil_append]
    exact List.perm_middle.symm
  reread := h.reread
  popped := h.popped
  turns := by
    simp only [Tour.advance, h.turns, List.length_cons]
    omega

theorem Logged.pop {v i : Nat} {rest : List (Nat × Nat)} (h : Logged a lists t done)
    (hstack : t.stack = (v, i) :: rest) (hend : (lists.getD v [])[i]? = none) :
    Logged a lists (t.pop a lists v rest) (v :: done) := by
  -- a node is popped when its list was read to the end
  have hi : i = (lists.getD v []).length := by
    have hle := h.counters (v, i) (hstack ▸ List.mem_cons_self)
    have hge := List.getElem?_eq_none_iff.mp hend
    exact Nat.le_antisymm hle hge
  have hmoved : (extents lists t.stack done).Perm (extents lists rest (v :: done)) := by
    rw [hstack, hi]
    exact List.perm_middle.symm
  refine ⟨fun f hf => h.counters f (hstack ▸ List.mem_cons_of_mem _ hf),
    h.pushed.trans (hmoved.map _), h.read.trans (hmoved.flatMap_right _), ?_,
    congrArg (v :: ·) h.popped, ?_⟩
  · rw [List.flatMap_cons, ← h.reread]
    rfl
  · simp only [Tour.pop, h.turns, List.length_cons]
    omega

theorem mem_firstEntries {v i : Nat} {e : Nat × Nat} :
    e ∈ firstEntries v i ↔ e.1 = v ∧ e.2 < i := by
  rw [firstEntries, List.mem_map]
  constructor
  · rintro ⟨j, hj, rfl⟩
    exact ⟨rfl, List.mem_range.mp hj⟩
  · rintro ⟨rfl, hlt⟩
    exact ⟨e.2, List.mem_range.mpr hlt, rfl⟩

/-- Entries of different nodes differ. -/
theorem nodup_flatMap_firstEntries {l : List (Nat × Nat)} (h : (l.map Prod.fst).Nodup) :
    (l.flatMap fun f => firstEntries f.1 f.2).Nodup := by
  rw [List.nodup_flatMap]
  refine ⟨fun f _ => List.nodup_range.map fun i j hij => (Prod.mk.inj hij).2, ?_⟩
  refine (List.pairwise_map.mp h).imp fun hne e he he' => ?_
  exact hne ((mem_firstEntries.mp he).1.symm.trans (mem_firstEntries.mp he').1)

/-- What different nodes sum up to is not more than all nodes do. -/
theorem sum_le_entryCount {l : List Nat} (hnodup : l.Nodup) (hlt : ∀ v ∈ l, v < lists.size) :
    (l.map fun v => (lists.getD v []).length).sum ≤ entryCount lists := by
  obtain ⟨l', hperm, hsub⟩ := hnodup.subperm fun v hv => List.mem_range.mpr (hlt v hv)
  rw [← (hperm.map _).sum_eq]
  exact (hsub.map _).sum_le_sum fun _ _ => Nat.zero_le _

end Logged

/-- **A moment of a thrifty loop**: no node was pushed or popped twice, and no entry was read twice by
    the counters. Each turn read an entry or popped a node, so that there were no more turns than there
    are nodes and entries. A node was popped when its list was read to the end, and beside the counters
    only what the account was given then was looked at. -/
structure Thrifty (a : Account σ) (lists : Array (List Nat)) (t : Tour σ) : Prop where
  pushed : t.pushed.Nodup
  nodes : ∀ v ∈ t.pushed, v < lists.size
  read : t.read.Nodup
  read_popped : ∀ v ∈ t.popped, ∀ i < (lists.getD v []).length, (v, i) ∈ t.read
  reread : t.reread = t.popped.flatMap fun v => firstEntries v (a.reread lists v).length
  entries : ∀ e ∈ t.examined, e.2 < (lists.getD e.1 []).length
  popped : t.popped.Nodup
  turns : t.turns = t.read.length + t.popped.length
  turns_le : t.turns ≤ lists.size + entryCount lists

section Thrifty

variable {a : Account σ} {lists : Array (List Nat)} {t : Tour σ} {done : List Nat}

/-- No list was read beyond its end. -/
theorem Logged.le_of_mem_extents (h : Logged a lists t done) {f : Nat × Nat}
    (hf : f ∈ extents lists t.stack done) : f.2 ≤ (lists.getD f.1 []).length := by
  rcases List.mem_append.mp hf with hf | hf
  · exact h.counters f hf
  · obtain ⟨v, -, rfl⟩ := List.mem_map.mp hf
    exact Nat.le_refl _

theorem Logged.lt_of_mem_examined (h : Logged a lists t done) {e : Nat × Nat}
    (he : e ∈ t.examined) : e.2 < (lists.getD e.1 []).length := by
  rcases List.mem_append.mp he with he | he
  · obtain ⟨v, -, hmem⟩ := List.mem_flatMap.mp (h.reread ▸ he)
    obtain ⟨rfl, hi⟩ := mem_firstEntries.mp hmem
    exact Nat.lt_of_lt_of_le hi (a.length_reread_le lists e.1)
  · obtain ⟨f, hf, hmem⟩ := List.mem_flatMap.mp (h.read.mem_iff.mp he)
    obtain ⟨hv, hi⟩ := mem_firstEntries.mp hmem
    exact hv ▸ Nat.lt_of_lt_of_le hi (h.le_of_mem_extents hf)

/-- The list of a node that is done with was read to the end. -/
theorem Logged.mem_read (h : Logged a lists t done) {v i : Nat} (hv : v ∈ done)
    (hi : i < (lists.getD v []).length) : (v, i) ∈ t.read := by
  have hmem : (v, (lists.getD v []).length) ∈ extents lists t.stack done :=
    List.mem_append_right _ (List.mem_map_of_mem hv)
  exact h.read.mem_iff.mpr (List.mem_flatMap.mpr ⟨_, hmem, mem_firstEntries.mpr ⟨rfl, hi⟩⟩)

/-- What was read of each list is a part of it, and no list counts twice. -/
theorem Logged.length_read_le (h : Logged a lists t done) (hnodup : (t.nodes ++ done).Nodup)
    (hlt : ∀ v ∈ t.nodes ++ done, v < lists.size) :
    t.read.length ≤ entryCount lists := by
  calc t.read.length
      = ((extents lists t.stack done).map Prod.snd).sum := by
        rw [h.read.length_eq, List.length_flatMap]
        simp [firstEntries]
    _ ≤ ((extents lists t.stack done).map fun f => (lists.getD f.1 []).length).sum :=
        List.sum_le_sum fun _ => h.le_of_mem_extents
    _ = ((t.nodes ++ done).map fun v => (lists.getD v []).length).sum := by
        rw [nodes, ← map_fst_extents lists, List.map_map]
        rfl
    _ ≤ entryCount lists := sum_le_entryCount hnodup hlt

theorem Logged.thrifty (h : Logged a lists t done) (hnodup : (t.nodes ++ done).Nodup)
    (hlt : ∀ v ∈ t.nodes ++ done, v < lists.size) : Thrifty a lists t := by
  have hfst := map_fst_extents lists t.stack done
  have hread := h.length_read_le hnodup hlt
  have hdone : done.Nodup := (List.nodup_append.mp hnodup).2.1
  have hpopped : t.popped.length ≤ lists.size := by
    have hsub : done ⊆ List.range lists.size := fun v hv =>
      List.mem_range.mpr (hlt v (List.mem_append_right _ hv))
    simpa [h.popped] using (hdone.subperm hsub).length_le
  refine ⟨h.pushed.nodup_iff.mpr (hfst ▸ hnodup), fun v hv => hlt v ?_,
    h.read.nodup_iff.mpr (nodup_flatMap_firstEntries (hfst ▸ hnodup)),
    fun v hv i hi => h.mem_read (h.popped ▸ hv) hi, h.popped ▸ h.reread,
    fun e he => h.lt_of_mem_examined he, h.popped ▸ hdone, h.turns, ?_⟩
  · have hmem := h.pushed.mem_iff.mp hv
    rwa [hfst] at hmem
  · rw [h.turns]
    omega

namespace Thrifty

theorem nodup_reread (h : Thrifty a lists t) : t.reread.Nodup := by
  have hfst : (t.popped.map fun v => (v, (a.reread lists v).length)).map Prod.fst = t.popped := by
    rw [List.map_map]
    exact List.map_id' t.popped
  have hnodup := nodup_flatMap_firstEntries (hfst.symm ▸ h.popped)
  rwa [List.flatMap_map, ← h.reread] at hnodup

/-- Only entries of nodes whose lists are looked at again are looked at beside the counters. -/
theorem rereads_of_mem (h : Thrifty a lists t) {e : Nat × Nat} (he : e ∈ t.reread) :
    a.rereads e.1 = true := by
  rw [h.reread] at he
  obtain ⟨v, -, hmem⟩ := List.mem_flatMap.mp he
  obtain ⟨rfl, hlt⟩ := mem_firstEntries.mp hmem
  by_contra hrereads
  rw [Account.reread, if_neg hrereads] at hlt
  exact absurd hlt (Nat.not_lt_zero _)

/-- **No entry is looked at more than twice**, and only entries of nodes whose lists are looked at again
    more than once. -/
theorem count_examined_le (h : Thrifty a lists t) (e : Nat × Nat) :
    t.examined.count e ≤ if a.rereads e.1 then 2 else 1 := by
  have hread : t.read.count e ≤ 1 := List.nodup_iff_count_le_one.mp h.read e
  rw [examined, List.count_append]
  split
  · have hreread : t.reread.count e ≤ 1 := List.nodup_iff_count_le_one.mp h.nodup_reread e
    omega
  next hrereads =>
    have hreread : t.reread.count e = 0 :=
      List.count_eq_zero.mpr fun he => hrereads (h.rereads_of_mem he)
    omega

/-- Of a node that is done with each entry was looked at once, or twice if its list is looked at
    again. -/
theorem count_examined_of_mem (h : Thrifty a lists t) {v i : Nat} (hv : v ∈ t.popped)
    (hi : i < (lists.getD v []).length) :
    t.examined.count (v, i) = if a.rereads v then 2 else 1 := by
  have hread : t.read.count (v, i) = 1 :=
    List.count_eq_one_of_mem h.read (h.read_popped v hv i hi)
  rw [examined, List.count_append, hread]
  split
  next hrereads =>
    have hmem : (v, i) ∈ t.reread := by
      rw [h.reread]
      refine List.mem_flatMap.mpr ⟨v, hv, mem_firstEntries.mpr ⟨rfl, ?_⟩⟩
      rwa [Account.reread, if_pos hrereads]
    rw [List.count_eq_one_of_mem h.nodup_reread hmem]
  next hrereads =>
    rw [List.count_eq_zero.mpr fun he => hrereads (h.rereads_of_mem he)]

/-- Where no list is looked at again no entry is looked at twice. -/
theorem nodup_examined (h : Thrifty a lists t) (ha : ∀ v, a.rereads v = false) :
    t.examined.Nodup := by
  rw [List.nodup_iff_count_le_one]
  intro e
  simpa [ha] using h.count_examined_le e

end Thrifty

end Thrifty

end Tour

/-! ## 4. Where a search ends -/

namespace Search

variable {succ : Nat → List Nat} {size : Nat} {s s' : Search}

/-- Where a search ends. -/
def finish (succ : Nat → List Nat) (s : Search) : Search := run succ (work succ s) s

theorem finish_start (roots : List Nat) :
    finish succ (start size roots) = explore succ size roots := by
  rw [finish, work_start]
  rfl

theorem run_of_none (h : s.step succ = none) (k : Nat) : run succ k s = s := by
  cases k with
  | zero => rfl
  | succ k => rw [run, h]

theorem finish_of_none (h : s.step succ = none) : finish succ s = s := run_of_none h _

theorem run_succ_of_some (h : s.step succ = some s') (k : Nat) :
    run succ (k + 1) s = run succ k s' := by
  rw [run, h]

/-- Steps beyond the end do nothing. -/
theorem run_of_le {m n : Nat} (hend : (run succ m s).step succ = none) (hle : m ≤ n) :
    run succ n s = run succ m s := by
  induction m generalizing s n with
  | zero => exact run_of_none hend n
  | succ m ih =>
    cases hs : s.step succ with
    | none => rw [run_of_none hs, run_of_none hs]
    | some s' =>
      obtain ⟨n, rfl⟩ : ∃ k, n = k + 1 := ⟨n - 1, by omega⟩
      rw [run_succ_of_some hs] at hend ⊢
      rw [run_succ_of_some hs, ih hend (Nat.le_of_succ_le_succ hle)]

theorem step_of_over (h : s.path = [] ∧ s.roots = []) : s.step succ = none := by
  rw [step, h.1, h.2]

/-- **Each step leads to the same end.** -/
theorem finish_of_some (h : s.step succ = some s') : finish succ s' = finish succ s := by
  have hlt := work_lt (step_of_eq_some h)
  obtain ⟨k, hk⟩ : ∃ k, work succ s = k + 1 := ⟨work succ s - 1, by omega⟩
  rw [finish, finish, hk, run_succ_of_some h]
  exact (run_of_le (step_of_over (run_over _ (Nat.le_refl _))) (by omega)).symm

/-- The first loop met is kept to the end. -/
theorem loop_finish {cycle : List Nat} (h : s.loop = some cycle) :
    (finish succ s).loop = some cycle := by
  refine run_keeps (P := fun s => s.loop = some cycle) (fun s s' hs hstep => ?_) _ h
  cases hstep with
  | close hw => exact Option.or_eq_some_iff.mpr (Or.inl hs)
  | _ => exact hs

end Search

/-! ## 5. A loop follows the search -/

/-- **What an account tells about the nodes agrees with marks and with the nodes done with.** -/
structure Account.Faithful (a : Account σ) (lists : Array (List Nat))
    (agrees : σ → Array Mark → List Nat → Prop) : Prop where
  /-- roots are taken when no node is on the path -/
  isOld : ∀ {x marks done r}, agrees x marks done → marks.getD r .finished ≠ .onPath →
    (a.isOld x r = true ↔ marks.getD r .finished ≠ .fresh)
  isNew : ∀ {x marks done w}, agrees x marks done →
    (a.isNew x w = true ↔ marks.getD w .finished = .fresh)
  halts : ∀ {x marks done w}, agrees x marks done → a.halts x w = true →
    marks.getD w .finished = .onPath
  enter : ∀ {x marks done w}, agrees x marks done → marks.getD w .finished = .fresh →
    agrees (a.enter x w) (marks.setIfInBounds w .onPath) done
  leave : ∀ {x marks done v}, agrees x marks done → marks.getD v .finished = .onPath →
    agrees (a.leave x v (a.reread lists v)) (marks.setIfInBounds v .finished) (v :: done)

/-- Whether every entry on the path ends the loop. -/
def Account.Stops (a : Account σ) (agrees : σ → Array Mark → List Nat → Prop) : Prop :=
  ∀ {x marks done w}, agrees x marks done → marks.getD w .finished = .onPath → a.halts x w = true

namespace Tour

/-- A node of the stack as a frame of a path. -/
def frame (lists : Array (List Nat)) (f : Nat × Nat) : Frame := ⟨f.1, (lists.getD f.1 []).drop f.2⟩

/-- The node that an entry closes a cycle through stands on the stack, so that its place is known. -/
theorem closing_eq {nodes : List Nat} {w : Nat} (hw : w ∈ nodes) (hnodup : nodes.Nodup) :
    closing nodes w = Search.loopThrough nodes w := by
  obtain ⟨l, r, rfl⟩ := List.append_of_mem hw
  obtain ⟨-, hr, hdisjoint⟩ := List.nodup_append.mp hnodup
  have hl : ∀ u ∈ l, u ≠ w := fun u hu he => hdisjoint u hu w List.mem_cons_self he
  have hreverse : (l ++ w :: r).reverse = r.reverse ++ w :: l.reverse := by simp
  -- the node comes only once, so that its place from the bottom is what lies below it
  have hposition : position (l ++ w :: r) w = some r.length := by
    rw [position, hreverse, List.idxOf?_eq_some_iff]
    refine ⟨by simp, by simp, fun j hj hsame => ?_⟩
    rw [List.getElem_append_left (by simpa using hj)] at hsame
    have hmem : w ∈ r := List.mem_reverse.mp (hsame ▸ List.getElem_mem _)
    exact (List.nodup_cons.mp hr).1 hmem
  have hcycle : ((l ++ w :: r).reverse.drop r.length).reverse = l ++ [w] := by
    rw [hreverse, List.drop_left' (List.length_reverse ..)]
    simp
  have htake : (l ++ w :: r).takeWhile (· ≠ w) = l := by
    rw [List.takeWhile_append_of_pos (by simpa using hl)]
    simp
  rw [closing, hposition, Option.getD_some, hcycle, Search.loopThrough, htake]
  cases l <;> simp

variable {a : Account σ} {agrees : σ → Array Mark → List Nat → Prop} {lists : Array (List Nat)}
  {t t' : Tour σ} {s s' : Search}

/-- **A loop stands where a search stands.** -/
structure Follows (a : Account σ) (agrees : σ → Array Mark → List Nat → Prop)
    (lists : Array (List Nat)) (t : Tour σ) (s : Search) : Prop where
  coherent : s.Coherent (lists.getD · []) lists.size
  ends : s.finish (lists.getD · []) =
    Search.explore (lists.getD · []) lists.size (List.range lists.size)
  path : s.path = t.stack.map (frame lists)
  roots : s.roots = t.roots
  account : agrees t.account s.marks s.done
  logged : Logged a lists t s.done
  loop : a.Stops agrees → s.loop = t.cycle

namespace Follows

theorem start {x : σ} (hx : agrees x (Array.replicate lists.size .fresh) []) :
    Follows a agrees lists (Tour.start x lists)
      (Search.start lists.size (List.range lists.size)) where
  coherent := Search.coherent_start fun _ => List.mem_range.mpr
  ends := Search.finish_start _
  path := rfl
  roots := rfl
  account := hx
  logged := ⟨fun _ hf => absurd hf List.not_mem_nil, .nil, .nil, rfl, rfl, rfl⟩
  loop _ := rfl

/-- What a step of the search leads to follows from where it stood. -/
theorem next (h : Follows a agrees lists t s) (hs : s.step (lists.getD · []) = some s')
    (path : s'.path = t'.stack.map (frame lists)) (roots : s'.roots = t'.roots)
    (account : agrees t'.account s'.marks s'.done) (logged : Logged a lists t' s'.done)
    (loop : a.Stops agrees → s'.loop = t'.cycle) : Follows a agrees lists t' s' where
  coherent := h.coherent.step (Search.step_of_eq_some hs)
  ends := (Search.finish_of_some hs).trans h.ends
  path := path
  roots := roots
  account := account
  logged := logged
  loop := loop

/-- The nodes of the stack are those of the path. -/
theorem nodes_eq (h : Follows a agrees lists t s) : t.nodes = s.pathNodes := by
  rw [nodes, Search.pathNodes, h.path, List.map_map]
  rfl

/-- Between two roots the search stands between two roots. -/
theorem path_of_nil (h : Follows a agrees lists t s) (hstack : t.stack = []) : s.path = [] := by
  rw [h.path, hstack, List.map_nil]

/-- The path of the search where an entry is to be read. -/
theorem path_of_some (h : Follows a agrees lists t s) {v i w : Nat} {rest : List (Nat × Nat)}
    (hstack : t.stack = (v, i) :: rest) (hentry : (lists.getD v [])[i]? = some w) :
    s.path = ⟨v, w :: (lists.getD v []).drop (i + 1)⟩ :: rest.map (frame lists) := by
  obtain ⟨hi, hw⟩ := List.getElem?_eq_some_iff.mp hentry
  rw [h.path, hstack, List.map_cons, frame, List.drop_eq_getElem_cons hi, hw]

/-- The path of the search where no entry is left. -/
theorem path_of_none (h : Follows a agrees lists t s) {v i : Nat} {rest : List (Nat × Nat)}
    (hstack : t.stack = (v, i) :: rest) (hentry : (lists.getD v [])[i]? = none) :
    s.path = ⟨v, []⟩ :: rest.map (frame lists) := by
  rw [h.path, hstack, List.map_cons, frame,
    List.drop_eq_nil_of_le (List.getElem?_eq_none_iff.mp hentry)]

theorem mark_root (h : Follows a agrees lists t s) (hstack : t.stack = []) (r : Nat) :
    s.marks.getD r .finished ≠ .onPath := by
  intro hmark
  have hmem := (h.coherent.onPath r).mp hmark
  rw [Search.pathNodes, h.path_of_nil hstack] at hmem
  cases hmem

/-- **Each step of the loop is a step of the search.** -/
theorem step (ha : a.Faithful lists agrees) (h : Follows a agrees lists t s)
    (ht : t.step a lists = some t') :
    ∃ s', s.step (lists.getD · []) = some s' ∧ Follows a agrees lists t' s' := by
  obtain ⟨hcycle, hturn⟩ := turn_of_step ht
  cases hturn with
  | @skip r roots hstack hroots hold =>
    have hmark := (ha.isOld h.account (h.mark_root hstack r)).mp hold
    have hs : s.step (lists.getD · []) = some { s with roots := roots } := by
      simp only [Search.step, h.path_of_nil hstack, h.roots, hroots, Search.mark, hmark, if_false]
    exact ⟨_, hs, h.next hs h.path rfl h.account { h.logged with } h.loop⟩
  | @root r roots hstack hroots hold =>
    have hmark : s.marks.getD r .finished = .fresh := by
      by_contra hne
      exact hold ((ha.isOld h.account (h.mark_root hstack r)).mpr hne)
    have hs : s.step (lists.getD · []) = some
        { s with
          marks := s.marks.setIfInBounds r .onPath
          path := [⟨r, lists.getD r []⟩]
          roots := roots
          trees := [] :: s.trees } := by
      simp only [Search.step, h.path_of_nil hstack, h.roots, hroots, Search.mark, hmark, if_true]
    have hlogged : Logged a lists { t with roots } s.done := { h.logged with }
    exact ⟨_, hs, h.next hs (by simp [push, frame, hstack]) rfl (ha.enter h.account hmark)
      (hlogged.push r) h.loop⟩
  | @enter v i w rest hstack hentry hnew =>
    have hmark := (ha.isNew h.account).mp hnew
    have hs : s.step (lists.getD · []) = some
        { s with
          marks := s.marks.setIfInBounds w .onPath
          path := ⟨w, lists.getD w []⟩ :: ⟨v, (lists.getD v []).drop (i + 1)⟩ ::
            rest.map (frame lists) } := by
      simp only [Search.step, h.path_of_some hstack hentry, Search.mark, hmark]
    exact ⟨_, hs, h.next hs rfl h.roots (ha.enter h.account hmark)
      ((h.logged.advance hstack hentry).push w) h.loop⟩
  | @halt v i w rest hstack hentry hnew hhalts =>
    have hmark := ha.halts h.account hhalts
    have hs : s.step (lists.getD · []) = some
        { s with
          path := ⟨v, (lists.getD v []).drop (i + 1)⟩ :: rest.map (frame lists)
          loop := s.loop.or (some (Search.loopThrough s.pathNodes w)) } := by
      simp only [Search.step, h.path_of_some hstack hentry, Search.mark, hmark]
    refine ⟨_, hs, h.next hs rfl h.roots h.account { h.logged.advance hstack hentry with }
      fun hstops => ?_⟩
    have hmem : w ∈ s.pathNodes := (h.coherent.onPath w).mp hmark
    rw [h.loop hstops, hcycle, h.nodes_eq, closing_eq hmem h.coherent.nodup_path]
    rfl
  | @pass v i w rest hstack hentry hnew hhalts =>
    have hlogged := h.logged.advance hstack hentry
    cases hmark : s.marks.getD w .finished with
    | fresh => exact absurd ((ha.isNew h.account).mpr hmark) hnew
    | onPath =>
      -- the search keeps a loop here that an account which does not stop knows nothing of
      have hs : s.step (lists.getD · []) = some
          { s with
            path := ⟨v, (lists.getD v []).drop (i + 1)⟩ :: rest.map (frame lists)
            loop := s.loop.or (some (Search.loopThrough s.pathNodes w)) } := by
        simp only [Search.step, h.path_of_some hstack hentry, Search.mark, hmark]
      exact ⟨_, hs, h.next hs rfl h.roots h.account hlogged fun hstops =>
        absurd (hstops h.account hmark) hhalts⟩
    | finished =>
      have hs : s.step (lists.getD · []) = some
          { s with path := ⟨v, (lists.getD v []).drop (i + 1)⟩ :: rest.map (frame lists) } := by
        simp only [Search.step, h.path_of_some hstack hentry, Search.mark, hmark]
      exact ⟨_, hs, h.next hs rfl h.roots h.account hlogged h.loop⟩
  | @leave v i rest hstack hentry =>
    have hpath := h.path_of_none hstack hentry
    have hmark : s.marks.getD v .finished = .onPath :=
      (h.coherent.onPath v).mpr (by simp [Search.pathNodes, hpath])
    have hs : s.step (lists.getD · []) = some
        { s with
          marks := s.marks.setIfInBounds v .finished
          path := rest.map (frame lists)
          trees := Search.addToTree v s.trees } := by
      simp only [Search.step, hpath]
    refine ⟨_, hs, h.next hs rfl h.roots ?_ ?_ h.loop⟩
    · rw [Search.done, Search.flatten_addToTree]
      exact ha.leave h.account hmark
    · rw [Search.done, Search.flatten_addToTree]
      exact h.logged.pop hstack hentry

/-! ## 6. Whole loops -/

/-- At any moment the loop stands where a search stands. -/
theorem run (ha : a.Faithful lists agrees) (h : Follows a agrees lists t s) (k : Nat) :
    ∃ s, Follows a agrees lists (runFor (Tour.step a lists) k t) s := by
  refine runFor_keeps (P := fun t => ∃ s, Follows a agrees lists t s) (fun t t' hfollows ht => ?_) k
    ⟨s, h⟩
  obtain ⟨s, h⟩ := hfollows
  obtain ⟨s', -, h'⟩ := h.step ha ht
  exact ⟨s', h'⟩

/-- The loop ends with the search, or before. -/
theorem step_run_eq_none (ha : a.Faithful lists agrees) (h : Follows a agrees lists t s) {k : Nat}
    (hk : s.work (lists.getD · []) ≤ k) :
    (runFor (Tour.step a lists) k t).step a lists = none := by
  refine step_runFor_eq_none
    (P := fun t n => ∃ s, Follows a agrees lists t s ∧ s.work (lists.getD · []) = n)
    (fun t t' n hleft ht => ?_) ⟨s, h, rfl⟩ hk
  obtain ⟨s, h, rfl⟩ := hleft
  obtain ⟨s', hs, h'⟩ := h.step ha ht
  exact ⟨_, Search.work_lt (Search.step_of_eq_some hs), s', h', rfl⟩

/-- **Marks and stack agree.** -/
theorem mark_iff (h : Follows a agrees lists t s) (v : Nat) :
    s.marks.getD v .finished = .onPath ↔ v ∈ t.nodes := by
  rw [h.nodes_eq]
  exact h.coherent.onPath v

theorem thrifty (h : Follows a agrees lists t s) : Thrifty a lists t := by
  have hc := h.coherent
  refine h.logged.thrifty ?_ fun v hv => ?_
  · rw [h.nodes_eq, List.nodup_append]
    refine ⟨hc.nodup_path, hc.nodup_done, fun v hv w hw heq => ?_⟩
    have hmark := (hc.finished w (hc.done_lt w hw)).mpr hw
    rw [← heq, (hc.onPath v).mpr hv] at hmark
    cases hmark
  · rw [h.nodes_eq] at hv
    exact (List.mem_append.mp hv).elim hc.lt_of_mem_path (hc.done_lt v)

/-- A loop that is through stands where the search ends. -/
theorem eq_explore (h : Follows a agrees lists t s) (ht : t.step a lists = none)
    (hcycle : t.cycle = none) :
    s = Search.explore (lists.getD · []) lists.size (List.range lists.size) := by
  obtain ⟨hstack, hroots⟩ := stack_roots_of_step ht hcycle
  rw [← h.ends]
  exact (Search.finish_of_none
    (Search.step_of_over ⟨h.path_of_nil hstack, h.roots.trans hroots⟩)).symm

/-- The cycle that ends a loop is the loop that the search keeps. -/
theorem loop_explore (h : Follows a agrees lists t s) (hstops : a.Stops agrees) {cycle : List Nat}
    (hcycle : t.cycle = some cycle) :
    (Search.explore (lists.getD · []) lists.size (List.range lists.size)).loop = some cycle := by
  rw [← h.ends]
  exact Search.loop_finish ((h.loop hstops).trans hcycle)

end Follows

end Tour

/-! ## 7. The loop over all nodes -/

namespace Account

variable {a : Account σ} {account : σ} {lists : Array (List Nat)}

/-- The loop after some steps. -/
def after (a : Account σ) (account : σ) (lists : Array (List Nat)) (k : Nat) : Tour σ :=
  runFor (Tour.step a lists) k (Tour.start account lists)

/-- Whether the loop has ended after some steps. -/
def EndsBy (a : Account σ) (account : σ) (lists : Array (List Nat)) (k : Nat) : Prop :=
  (a.after account lists k).step a lists = none

/-- **A loop over the lists of a graph ends, and is thrifty at every moment.** -/
structure IsThrifty (a : Account σ) (account : σ) (lists : Array (List Nat)) : Prop where
  ends : ∃ k ≤ 2 * lists.size + Tour.entryCount lists, a.EndsBy account lists k
  always : ∀ k, Tour.Thrifty a lists (a.after account lists k)

/-- Where no entry ends the loop there is no cycle. -/
theorem cycle_after (hhalts : ∀ x w, a.halts x w = false) (k : Nat) :
    (a.after account lists k).cycle = none := by
  refine runFor_keeps (P := fun t : Tour σ => t.cycle = none) (fun t t' ht hstep => ?_) k rfl
  cases (Tour.turn_of_step hstep).2 with
  | halt _ _ _ hhalt =>
    rw [hhalts] at hhalt
    cases hhalt
  | _ => exact ht

namespace Faithful

variable {agrees : σ → Array Mark → List Nat → Prop} (ha : a.Faithful lists agrees)
  (hstart : agrees account (Array.replicate lists.size .fresh) [])
include ha hstart

theorem follows_after (k : Nat) : ∃ s, Tour.Follows a agrees lists (a.after account lists k) s :=
  (Tour.Follows.start hstart).run ha k

theorem isThrifty : a.IsThrifty account lists where
  ends := by
    have hstarts := Tour.Follows.start (a := a) hstart
    refine ⟨_, ?_, hstarts.step_run_eq_none ha (Nat.le_refl _)⟩
    rw [Search.work_start, Search.bound, List.length_range, Nat.two_mul]
    exact Nat.le_refl _
  always k := by
    obtain ⟨s, h⟩ := follows_after ha hstart k
    exact h.thrifty

/-- **A loop that is through tells what the search tells.** -/
theorem agrees_explore {k : Nat} (hend : a.EndsBy account lists k)
    (hcycle : (a.after account lists k).cycle = none) :
    agrees (a.after account lists k).account
      (Search.explore (lists.getD · []) lists.size (List.range lists.size)).marks
      (Search.explore (lists.getD · []) lists.size (List.range lists.size)).done := by
  obtain ⟨s, h⟩ := follows_after ha hstart k
  rw [← h.eq_explore hend hcycle]
  exact h.account

/-- A loop that stops at the first cycle keeps the one that the search keeps. -/
theorem loop_explore (hstops : a.Stops agrees) {k : Nat} (hend : a.EndsBy account lists k) :
    (Search.explore (lists.getD · []) lists.size (List.range lists.size)).loop =
      (a.after account lists k).cycle := by
  obtain ⟨s, h⟩ := follows_after ha hstart k
  cases hcycle : (a.after account lists k).cycle with
  | some cycle => exact h.loop_explore hstops hcycle
  | none => rw [← h.eq_explore hend hcycle, h.loop hstops, hcycle]

end Faithful

end Account

end LogicSim
