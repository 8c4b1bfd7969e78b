import LogicSim.Proofs.Json.Lexing

/-!
# The draft of a written value

Reading the tokens of a value puts its draft (`Json.draft`) into the container that is open. The text
of a value is therefore read completely, and with nothing after it (`ofText_pretty`).

What a decoder can make of a draft also depends on how many containers stand one inside the other
(`Json.nesting`).
-/

namespace LogicSim.Json

/-! ## 1. Drafts of values -/

mutual

/-- The draft of a value. -/
def draft : Json → Draft
  | .null => .null
  | .bool b => .bool b
  | .number n => .number (numeral n)
  | .string s => .string (some s)
  | .array items => .array (itemDrafts items) true
  | .object members => .object (memberDrafts members) true

/-- The drafts of the items of an array. -/
def itemDrafts : List Json → List Draft
  | [] => []
  | v :: rest => draft v :: itemDrafts rest

/-- The drafts of the members of an object. -/
def memberDrafts : List (String × Json) → List (Option String × Draft)
  | [] => []
  | (k, v) :: rest => (some k, draft v) :: memberDrafts rest

end

theorem itemDrafts_eq (items : List Json) : itemDrafts items = items.map draft := by
  induction items with
  | nil => rfl
  | cons v rest ih => rw [itemDrafts, ih, List.map_cons]

/-! ## 2. Reading -/

mutual

/-- **The tokens of a value put its draft into the open container.** -/
theorem foldl_spelling : ∀ (v : Json) (containers : List OpenContainer) {expected : Expected},
    expected = .value ∨ expected = .item →
      v.spelling.foldl Reading.step (.inside containers expected) = .put v.draft containers
  | .null, _, _, h | .bool _, _, _, h | .number _, _, _, h | .string _, _, _, h => by
    rcases h with rfl | rfl <;> rfl
  | .array [], _, _, h => by
    rcases h with rfl | rfl <;> rfl
  | .array (v :: rest), containers, _, h => by
    have hopen : ∀ expected, expected = .value ∨ expected = .item →
        Reading.step (.inside containers expected) .openArray =
          .inside (.array [] :: containers) .item := by
      rintro _ (rfl | rfl) <;> rfl
    rw [spelling, List.foldl_cons, hopen _ h, itemSpellings, separated, List.append_assoc,
      List.foldl_append, foldl_spelling v _ (.inr rfl), List.foldl_append]
    rw [Reading.put, foldl_items rest, draft, itemDrafts]
    simp [Reading.step]
  | .object [], _, _, h => by
    rcases h with rfl | rfl <;> rfl
  | .object ((k, v) :: rest), containers, _, h => by
    have hopen : ∀ expected, expected = .value ∨ expected = .item →
        Reading.step (.inside containers expected) .openObject =
          .inside (.object [] :: containers) .firstKey := by
      rintro _ (rfl | rfl) <;> rfl
    have hkey : Reading.step (Reading.step (.inside (.object [] :: containers) .firstKey)
        (.string (some k))) .colon = .inside (.member [] (some k) :: containers) .value := rfl
    rw [spelling, List.foldl_cons, hopen _ h, memberSpellings, separated, List.cons_append,
      List.cons_append, List.cons_append, List.cons_append, List.foldl_cons, List.foldl_cons, hkey,
      List.append_assoc, List.foldl_append, foldl_spelling v _ (.inl rfl), List.foldl_append]
    rw [Reading.put, foldl_members rest, draft, memberDrafts]
    simp [Reading.step]

/-- Further items go into the open array. -/
theorem foldl_items : ∀ (items : List Json) (earlier : List Draft) (outer : List OpenContainer),
    ((itemSpellings items).flatMap (.comma :: ·)).foldl Reading.step
        (.inside (.array earlier :: outer) .next) =
      .inside (.array ((itemDrafts items).reverse ++ earlier) :: outer) .next
  | [], _, _ => rfl
  | v :: rest, earlier, outer => by
    have hcomma : Reading.step (.inside (.array earlier :: outer) .next) .comma =
        .inside (.array earlier :: outer) .value := rfl
    rw [itemSpellings, List.flatMap_cons, List.cons_append, List.foldl_cons, hcomma,
      List.foldl_append, foldl_spelling v _ (.inl rfl), Reading.put, foldl_items rest, itemDrafts]
    simp

/-- Further members go into the open object. -/
theorem foldl_members : ∀ (members : List (String × Json))
    (earlier : List (Option String × Draft)) (outer : List OpenContainer),
    ((memberSpellings members).flatMap (.comma :: ·)).foldl Reading.step
        (.inside (.object earlier :: outer) .next) =
      .inside (.object ((memberDrafts members).reverse ++ earlier) :: outer) .next
  | [], _, _ => rfl
  | (k, v) :: rest, earlier, outer => by
    have hkey : Reading.step (Reading.step (Reading.step (.inside (.object earlier :: outer) .next)
        .comma) (.string (some k))) .colon =
          .inside (.member earlier (some k) :: outer) .value := rfl
    rw [memberSpellings, List.flatMap_cons, List.cons_append, List.cons_append, List.cons_append,
      List.foldl_cons, List.foldl_cons, List.foldl_cons, hkey, List.foldl_append,
      foldl_spelling v _ (.inl rfl), Reading.put, foldl_members rest, memberDrafts]
    simp

end

/-- **A written value is read completely.** -/
theorem ofText_pretty (v : Json) (h : ∀ x ∈ v.doubles, Numeric (.double x)) :
    Reading.ofText v.pretty = .complete v.draft true := by
  rw [Reading.ofText, tokens_pretty v h, foldl_spelling v [] (.inl rfl)]
  rfl

/-! ## 3. Nesting -/

mutual

/-- How many containers stand one inside the other in a value. -/
def nesting : Json → Nat
  | .array items => itemNesting items + 1
  | .object members => memberNesting members + 1
  | _ => 0

/-- The deepest nesting of the items of an array. -/
def itemNesting : List Json → Nat
  | [] => 0
  | v :: rest => max (nesting v) (itemNesting rest)

/-- The deepest nesting of the members of an object. -/
def memberNesting : List (String × Json) → Nat
  | [] => 0
  | (_, v) :: rest => max (nesting v) (memberNesting rest)

end

theorem itemNesting_le {items : List Json} {levels : Nat} (h : itemNesting items ≤ levels) :
    ∀ v ∈ items, v.nesting ≤ levels := by
  induction items with
  | nil => exact fun _ hv => by cases hv
  | cons w rest ih =>
    rw [itemNesting, Nat.max_le] at h
    exact List.forall_mem_cons.mpr ⟨h.1, ih h.2⟩

theorem memberNesting_le {members : List (String × Json)} {levels : Nat}
    (h : memberNesting members ≤ levels) : ∀ m ∈ members, m.2.nesting ≤ levels := by
  induction members with
  | nil => exact fun _ hm => by cases hm
  | cons m rest ih =>
    rw [memberNesting, Nat.max_le] at h
    exact List.forall_mem_cons.mpr ⟨h.1, ih h.2⟩

theorem itemDoubles_eq (items : List Json) : itemDoubles items = items.flatMap doubles := by
  induction items with
  | nil => rfl
  | cons v rest ih => rw [itemDoubles, ih, List.flatMap_cons]

theorem memberDoubles_eq (members : List (String × Json)) :
    memberDoubles members = members.flatMap fun m => m.2.doubles := by
  induction members with
  | nil => rfl
  | cons m rest ih => rw [memberDoubles, ih, List.flatMap_cons]

end LogicSim.Json
