import LogicSim.Document.Circuit
import LogicSim.Proofs.Json.Drafting

/-!
# Decoders that restore what was written

A decoder *restores* a value if it reads it from the draft of the text in which it is written, where
as many levels of containers are left as the text takes (`Decoder.Restores`). Scalars are restored if
their texts are read as them, which for a double is a condition on its text (`Json.ReadsBack`); lists
and records are restored if their parts are.

* `Decoder.Takes` -- a record on the way through the members of its object, field by field;
* `Decoder.restores_record` -- the record at the end of it;
* `Decoder.Restores.text_pretty` -- from a draft to a text.
-/

namespace LogicSim

open Json (Draft)
open Decimal (Number)

/-! ## 1. Doubles -/

/-- **A double that reads back**: the document that consists of it alone is read as the same
    double. -/
def Json.ReadsBack (x : Float) : Prop := Decoder.float.text (Json.ofFloat x).pretty = .ok x

instance (x : Float) : Decidable (Json.ReadsBack x) :=
  decidable_of_iff ((Decoder.float.text (Json.ofFloat x).pretty).toOption = some x) <| by
    rw [Json.ReadsBack]
    cases Decoder.float.text (Json.ofFloat x).pretty <;> simp [Except.toOption]

namespace Json

/-- Reading that has begun with a container does not end with a number. -/
def Reading.Enclosed : Reading → Prop
  | .inside containers _ => containers ≠ []
  | .complete root _ => ∀ n, root ≠ .number n
  | .broken _ => True

theorem Reading.enclosed_put {d : Draft} (hd : ∀ n, d ≠ .number n) (containers : List OpenContainer) :
    (Reading.put d containers).Enclosed := by
  match containers with
  | [] => exact hd
  | .array _ :: _ | .member _ _ :: _ => exact List.cons_ne_nil _ _
  | .object _ :: _ => trivial

theorem Reading.enclosed_value {containers : List OpenContainer} (h : containers ≠ []) (t : Token) :
    (Reading.value containers t).Enclosed := by
  have hput : ∀ d, (Reading.put d containers).Enclosed := by
    intro d
    match containers, h with
    | .array _ :: _, _ | .member _ _ :: _, _ => exact List.cons_ne_nil _ _
    | .object _ :: _, _ => trivial
  cases t with
  | null | bool b | number n | string s => exact hput _
  | openArray | openObject => exact List.cons_ne_nil _ _
  | _ => trivial

theorem Reading.Enclosed.step {r : Reading} (h : r.Enclosed) (t : Token) : (r.step t).Enclosed := by
  cases r with
  | complete root alone => exact h
  | broken root => trivial
  | inside containers expected =>
    have hkey : (Reading.key containers t).Enclosed := by
      unfold Reading.key
      split
      · split
        · exact List.cons_ne_nil _ _
        · trivial
      · trivial
    unfold Reading.step
    dsimp only
    split
    · exact enclosed_put (fun _ h => by cases h) _
    · exact enclosed_put (fun _ h => by cases h) _
    · exact enclosed_put (fun _ h => by cases h) _
    · exact enclosed_put (fun _ h => by cases h) _
    · exact h
    · exact h
    · trivial
    · exact h
    · trivial
    · exact enclosed_value h t
    · exact enclosed_value h t
    · exact hkey
    · exact hkey

theorem Reading.Enclosed.foldl {r : Reading} (h : r.Enclosed) (ts : List Token) :
    (ts.foldl Reading.step r).Enclosed := by
  induction ts generalizing r with
  | nil => exact h
  | cons t ts ih => exact ih (h.step t)

/-- After a complete value only its draft is kept. -/
theorem foldl_complete (root : Draft) (ts : List Token) :
    ts.foldl Reading.step (.complete root true) = .complete root ts.isEmpty := by
  have hlater : ∀ ts : List Token,
      ts.foldl Reading.step (.complete root false) = .complete root false := by
    intro ts
    induction ts with
    | nil => rfl
    | cons t ts ih => exact ih
  cases ts with
  | nil => rfl
  | cons t ts => exact hlater ts

/-- **A text that consists of a number has one token.** -/
theorem tokens_of_number {text : String} {n : Decimal.Numeral}
    (h : Reading.ofText text = .complete (.number n) true) : tokens text = [.number n] := by
  have henclosed : ∀ {r : Reading}, r.Enclosed → r.finish ≠ .complete (.number n) true := by
    intro r hr hfinish
    cases r with
    | inside containers expected => cases hfinish
    | complete root alone =>
      obtain ⟨hroot, -⟩ := Reading.complete.inj hfinish
      exact hr n hroot
    | broken root => cases hfinish
  rw [Reading.ofText] at h
  cases hts : tokens text with
  | nil => rw [hts] at h; cases h
  | cons t ts =>
    rw [hts, List.foldl_cons] at h
    cases t with
    | null | bool b | string s =>
      rw [show Reading.step (.inside [] .value) _ = .complete _ true from rfl, foldl_complete] at h
      cases h
    | number m =>
      rw [show Reading.step (.inside [] .value) (.number m) = .complete (.number m) true from rfl,
        foldl_complete] at h
      obtain ⟨hm, hts⟩ := Reading.complete.inj h
      rw [Draft.number.inj hm, List.isEmpty_iff.mp hts]
    | openArray =>
      have hstep : (Reading.step (.inside [] .value) .openArray).Enclosed := List.cons_ne_nil _ _
      exact absurd h (henclosed (hstep.foldl ts))
    | openObject =>
      have hstep : (Reading.step (.inside [] .value) .openObject).Enclosed := List.cons_ne_nil _ _
      exact absurd h (henclosed (hstep.foldl ts))
    | closeArray | closeObject | comma | colon | bad =>
      have hstep : (Reading.stop []).Enclosed := trivial
      exact absurd h (henclosed (hstep.foldl ts))

/-- The text of a double that reads back is a numeral with its value. -/
theorem ReadsBack.exists_numeral {x : Float} (h : ReadsBack x) :
    ∃ m, tokens (writeNumber (.double x)) = [.number m] ∧ m.value?.map Number.toFloat = some x := by
  rw [ReadsBack, Decoder.text] at h
  have hfloat : ∀ {root : Draft}, Decoder.float maxLevels root = .ok x →
      ∃ m, root = .number m ∧ m.value?.map Number.toFloat = some x := by
    intro root hroot
    cases root with
    | number m =>
      rw [Decoder.float] at hroot
      cases hm : m.value? with
      | none => rw [hm] at hroot; cases hroot
      | some v =>
        rw [hm] at hroot
        exact ⟨m, rfl, by rw [hm, Option.map_some, Except.ok.inj hroot]⟩
    | _ => cases hroot
  split at h
  · rename_i root alone hreading
    cases hroot : Decoder.float maxLevels root with
    | error e => rw [hroot] at h; cases h
    | ok y =>
      rw [hroot] at h
      cases alone with
      | false => cases h
      | true =>
        obtain rfl : y = x := Except.ok.inj h
        obtain ⟨m, rfl, hm⟩ := hfloat hroot
        exact ⟨m, tokens_of_number hreading, hm⟩
  · rename_i root hreading
    cases hroot : Decoder.float maxLevels root with
    | error e => rw [hroot] at h; cases h
    | ok y => rw [hroot] at h; cases h
  · cases h

theorem ReadsBack.numeric {x : Float} (h : ReadsBack x) : Numeric (.double x) := by
  obtain ⟨m, hm, -⟩ := h.exists_numeral
  exact numeric_of_tokens hm

theorem ReadsBack.value?_numeral {x : Float} (h : ReadsBack x) :
    (numeral (.double x)).value?.map Number.toFloat = some x := by
  obtain ⟨m, hm, hvalue⟩ := h.exists_numeral
  rw [numeral_eq hm]
  exact hvalue

/-- A double that reads back is finite: any other one is written as `null`. -/
theorem ReadsBack.exists_finite {x : Float} (h : ReadsBack x) :
    ∃ b, Decimal.magnitude x.toBits.toNat = .finite b := by
  obtain ⟨m, hm, -⟩ := h.exists_numeral
  have hnull : tokens "null" = [.null] := rfl
  rw [writeNumber, Decimal.Layout.write, Decimal.Layout.writeBits] at hm
  cases hb : Decimal.magnitude x.toBits.toNat with
  | finite b => exact ⟨b, rfl⟩
  | infinite | notANumber =>
    rw [hb] at hm
    cases hnull.symm.trans hm

/-- Reading is done in double arithmetic, so that not every finite double reads back. -/
theorem not_readsBack : ¬ ReadsBack 9.038978862819015 := by decide +kernel

/-! ## 2. Values that can be read -/

/-- **A value that can be read** where some levels of containers are left. -/
structure Readable (levels : Nat) (v : Json) : Prop where
  nesting : v.nesting ≤ levels
  numbers : ∀ x ∈ v.doubles, ReadsBack x

/-- An array takes a level, and its items are read within it. -/
theorem Readable.items {levels : Nat} {items : List Json} (h : Readable levels (.array items)) :
    ∃ inner, levels = inner + 1 ∧ ∀ v ∈ items, Readable inner v := by
  have hnesting := h.nesting
  rw [Json.nesting] at hnesting
  refine ⟨levels - 1, by omega, fun v hv => ⟨itemNesting_le (by omega) v hv, fun x hx => ?_⟩⟩
  refine h.numbers x ?_
  rw [doubles, itemDoubles_eq]
  exact List.mem_flatMap.mpr ⟨v, hv, hx⟩

/-- So does an object. -/
theorem Readable.members {levels : Nat} {members : List (String × Json)}
    (h : Readable levels (.object members)) :
    ∃ inner, levels = inner + 1 ∧ ∀ m ∈ members, Readable inner m.2 := by
  have hnesting := h.nesting
  rw [Json.nesting] at hnesting
  refine ⟨levels - 1, by omega, fun m hm => ⟨memberNesting_le (by omega) m hm, fun x hx => ?_⟩⟩
  refine h.numbers x ?_
  rw [doubles, memberDoubles_eq]
  exact List.mem_flatMap.mpr ⟨m, hm, hx⟩

end Json

/-! ## 3. Scalars and lists -/

namespace Decoder

open Json (Readable)

variable {α β : Type} {levels : Nat}

/-- **A decoder restores a value.** -/
def Restores (levels : Nat) (decoder : Decoder α) (write : α → Json) (a : α) : Prop :=
  Readable levels (write a) → decoder levels (write a).draft = .ok a

theorem restores_string (s : String) : Restores levels string .string s := fun _ => rfl

theorem restores_bool (b : Bool) : Restores levels bool .bool b := fun _ => rfl

theorem restores_signal (b : Bool) : Restores levels signal .bool b := fun _ => rfl

theorem restores_float (x : Float) : Restores levels float .ofFloat x := by
  intro h
  have hvalue := (h.numbers x (List.mem_singleton_self x)).value?_numeral
  rw [Json.ofFloat, Json.draft, float]
  cases hv : (Json.numeral (.double x)).value? with
  | none => rw [hv] at hvalue; cases hvalue
  | some v =>
    rw [hv, Option.map_some, Option.some.injEq] at hvalue
    exact congrArg Except.ok hvalue

/-- A whole number within the bounds of its field, which are within 64 bits. -/
theorem int_draft {least greatest i : Int} (hleast : -(2 ^ 63) ≤ least)
    (hgreatest : greatest ≤ Decimal.maxWhole) (hi : least ≤ i ∧ i ≤ greatest) :
    int least greatest levels (Json.ofInt i).draft = .ok i := by
  rw [Json.ofInt, Json.draft, int, Json.value?_numeral_whole (by omega) (by omega)]
  simp [hi]

theorem restores_int32 (i : Int32) : Restores levels int32 (fun i => .ofInt i.toInt) i := by
  intro _
  have hdraft : int Int32.minValue.toInt Int32.maxValue.toInt levels (Json.ofInt i.toInt).draft =
      .ok i.toInt :=
    int_draft (by decide) (by decide) ⟨i.minValue_le_toInt, i.toInt_le⟩
  rw [int32, hdraft]
  exact congrArg Except.ok (Int32.ofInt_toInt i)

theorem restores_uint64 (t : UInt64) : Restores levels uint64 (fun t => .ofNat t.toNat) t := by
  intro _
  have hbounds : (0 : Int) ≤ t.toNat ∧ (t.toNat : Int) ≤ UInt64.size - 1 := by
    have ht := t.toNat_lt
    have hsize : (UInt64.size : Int) = 2 ^ 64 := rfl
    omega
  have hdraft : int 0 (UInt64.size - 1) levels (Json.ofNat t.toNat).draft = .ok (t.toNat : Int) :=
    int_draft (by decide) (by decide) hbounds
  rw [uint64, natural, hdraft]
  exact congrArg Except.ok UInt64.ofNat_toNat

/-- A field that may be `null` is restored if it is never written as `null`. -/
theorem Restores.optional {decoder : Decoder α} {write : α → Json} {a : α}
    (h : Restores levels decoder write a) (hnull : (write a).draft ≠ .null)
    (hreadable : Readable levels (write a)) :
    optional decoder levels (write a).draft = .ok (some a) := by
  have hdecoder := h hreadable
  cases hd : (write a).draft with
  | null => exact absurd hd hnull
  | _ =>
    rw [hd] at hdecoder
    rw [Decoder.optional, hdecoder]
    · rfl
    · exact fun hd => by cases hd

theorem items_draft {decoder : Decoder α} {write : α → Json} {l : List α}
    (h : ∀ a ∈ l, Restores levels decoder write a)
    (hreadable : ∀ v ∈ l.map write, Readable levels v) :
    items decoder levels ((l.map write).map Json.draft) = .ok l := by
  induction l with
  | nil => rfl
  | cons a l ih =>
    rw [List.map_cons, List.forall_mem_cons] at hreadable
    rw [List.map_cons, List.map_cons, items, h a List.mem_cons_self hreadable.1,
      ih (fun b hb => h b (List.mem_cons_of_mem _ hb)) hreadable.2]
    rfl

/-- **A list of restored values is restored.** -/
theorem restores_list {decoder : Decoder α} {write : α → Json} {l : List α}
    (h : ∀ inner < levels, ∀ a ∈ l, Restores inner decoder write a) :
    Restores levels (list decoder) (fun l => .array (l.map write)) l := by
  intro hreadable
  obtain ⟨inner, rfl, hitems⟩ := hreadable.items
  dsimp only
  rw [Json.draft, Json.itemDrafts_eq, list, items_draft (h inner (Nat.lt_succ_self _)) hitems]
  rfl

theorem restores_signals (l : List Bool) : Restores levels signals Signal.toJson l := by
  intro hreadable
  exact restores_list (fun _ _ b _ => restores_signal b) hreadable

/-! ## 4. Records -/

/-- **A record takes in members**: reading them leads from the fields `a` to the fields `a'`. -/
def Takes (read : String → Draft → α → Option (Except DocumentError α)) (levels : Nat) (a : α)
    (members : List (String × Json)) (a' : α) : Prop :=
  (∀ m ∈ members, Readable levels m.2) → readMembers read a (Json.memberDrafts members) = .ok a'

namespace Takes

variable {read : String → Draft → α → Option (Except DocumentError α)} {a a' : α} {key : String}
  {decoder : Decoder β} {write : β → Json}

theorem nil : Takes read levels a [] a := fun _ => rfl

theorem cons {v : Json} {d : α} {rest : List (String × Json)}
    (hread : Readable levels v → read key v.draft a = some (.ok d)) (h : Takes read levels d rest a') :
    Takes read levels a ((key, v) :: rest) a' := by
  intro hreadable
  rw [List.forall_mem_cons] at hreadable
  rw [Json.memberDrafts, readMembers, hread hreadable.1]
  exact h hreadable.2

/-- **A field that is not there yet is taken in.** -/
theorem field {put : Option β → α} {b : β} {v : Json} {rest : List (String × Json)}
    (hb : Restores levels decoder write b)
    (hread : ∀ d, read key d a = Decoder.field decoder levels d none put)
    (h : Takes read levels (put (some b)) rest a') (hwrite : write b = v := by rfl) :
    Takes read levels a ((key, v) :: rest) a' := by
  subst hwrite
  exact cons (fun hreadable => by rw [hread, Decoder.field, hb hreadable]; rfl) h

/-- **A field that may be absent is taken in if it is there.** -/
theorem optional {put : Option (Option β) → α} {o : Option β} {rest : List (String × Option Json)}
    (hb : ∀ b, o = some b → Restores levels decoder write b)
    (hnull : ∀ b, (write b).draft ≠ .null)
    (hread : ∀ d, read key d a = Decoder.field (Decoder.optional decoder) levels d none put)
    (h : Takes read levels (put (o.map some)) (rest.filterMap fun (k, v) => v.map (k, ·)) a')
    (hput : put none = a := by rfl) :
    Takes read levels a (((key, o.map write) :: rest).filterMap fun (k, v) => v.map (k, ·)) a' := by
  cases o with
  | none =>
    subst hput
    exact h
  | some b =>
    refine cons (fun hreadable => ?_) h
    rw [hread, Decoder.field, (hb b rfl).optional (hnull b) hreadable]
    rfl

end Takes

/-- **A record whose fields are restored is restored.** -/
theorem restores_record {fields : List String}
    {read : Nat → String → Draft → α → Option (Except DocumentError α)} {empty a : α}
    {finish : α → Option β} {write : β → Json} {b : β} {members : List (String × Json)}
    (hwrite : write b = .object members)
    (h : ∀ inner < levels, Takes (read inner) inner empty members a) (hfinish : finish a = some b) :
    Restores levels (record fields read empty finish) write b := by
  intro hreadable
  rw [hwrite] at hreadable ⊢
  obtain ⟨inner, rfl, hmembers⟩ := hreadable.members
  have hread := h inner (Nat.lt_succ_self _) hmembers
  rw [Json.draft, record, membersOf]
  dsimp only
  rw [hread]
  simp only [bind, Except.bind, hfinish]
  rfl

/-! ## 5. Texts -/

/-- **What is restored from a draft is restored from a text.** -/
theorem Restores.text_pretty {decoder : Decoder α} {write : α → Json} {a : α}
    (h : Restores Json.maxLevels decoder write a) (hreadable : Readable Json.maxLevels (write a)) :
    decoder.text (write a).pretty = .ok a := by
  rw [text, Json.ofText_pretty _ fun x hx => (hreadable.numbers x hx).numeric]
  dsimp only
  rw [h hreadable]
  rfl

end Decoder

end LogicSim
