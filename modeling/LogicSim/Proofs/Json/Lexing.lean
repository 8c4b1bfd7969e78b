import LogicSim.Json.Draft
import Mathlib.Data.Nat.Digits.Lemmas

/-!
# The tokens of a written value

A written value is split into the tokens of its grammar (`Json.spelling`), whatever its strings
contain and however it is indented.

A number is over only at the character after it. What follows a value in a text is a comma or a new
line, if anything, and such a character ends every token (`LexState.run_append`). A text *spells*
some tokens if they are what it is split into before such a character (`Spells`).

* `spells_of_tokens` -- a text without a bad token spells its tokens;
* `spells_quote` -- a string is one token, with the characters that were escaped;
* `exists_numeral_whole` -- a whole number of 64 bits is one token, with its value;
* `tokens_pretty` -- the tokens of a written value.
-/

namespace LogicSim.Json

open Decimal (Numeral Number)

/-! ## 1. What follows a value -/

/-- A text that is empty, or begins with a character that may follow a value. -/
def Delimited (text : List Char) : Prop := ∀ c ∈ text.head?, c = ',' ∨ c = '\n'

theorem delimited_nil : Delimited [] := fun _ h => by cases h

theorem delimited_comma (text : List Char) : Delimited (',' :: text) :=
  fun _ h => .inl (Option.some.inj h).symm

theorem delimited_newline (text : List Char) : Delimited ('\n' :: text) :=
  fun _ h => .inr (Option.some.inj h).symm

/-- A number that may end is over at a character that follows it. -/
theorem NumberState.step_of_complete {s : NumberState} {n : Numeral} (h : s.complete? = some n)
    {c : Char} (hc : c = ',' ∨ c = '\n') : s.step c = .over n := by
  rcases hc with rfl | rfl
  · cases s <;> cases h <;> rfl
  · cases s <;> cases h <;> rfl

namespace LexState

/-- A step that does not get stuck, or says so. -/
def Tells (r : LexState × List Token) : Prop := r.1 = .stuck → .bad ∈ r.2

theorem tells_stuck : Tells (.stuck, [.bad]) := fun _ => List.mem_singleton_self _

theorem tells_begin (c : Char) : Tells (begin c) := by
  unfold begin
  split
  all_goals first
    | exact fun h => by cases h
    | skip
  split
  · exact fun h => by cases h
  · split
    · exact fun h => by cases h
    · exact tells_stuck

/-- **Where the automaton gets stuck it says so.** -/
theorem tells_step {s : LexState} (hs : s ≠ .stuck) (c : Char) : Tells (s.step c) := by
  cases s with
  | between => exact tells_begin c
  | word letters token =>
    match letters with
    | [] => exact fun h => List.mem_cons_of_mem _ (tells_begin c h)
    | [_] =>
      rw [step]
      split
      · exact fun h => by cases h
      · exact tells_stuck
    | letter :: next :: letters =>
      rw [step]
      · split
        · exact fun h => by cases h
        · exact tells_stuck
      · exact fun h => by cases h
  | number n =>
    rw [step]
    split
    · exact fun h => by cases h
    · exact fun h => List.mem_cons_of_mem _ (tells_begin c h)
    · exact tells_stuck
  | string parts =>
    rw [step]
    split
    · exact fun h => by cases h
    · split
      · exact fun h => by cases h
      · split
        · exact tells_stuck
        · exact fun h => by cases h
  | escape parts =>
    rw [step]
    split
    · exact fun h => by cases h
    · split
      · exact fun h => by cases h
      · exact tells_stuck
  | unit parts missing value =>
    rw [step]
    split
    · split <;> exact fun h => by cases h
    · exact tells_stuck
  | stuck => exact absurd rfl hs

theorem run_cons (s : LexState) (c : Char) (cs : List Char) :
    s.run (c :: cs) = (s.step c).2 ++ (s.step c).1.run cs := rfl

/-- **What follows a text does not change its tokens**, if it is good and what follows is
    delimited. -/
theorem run_append {text rest : List Char} (hrest : Delimited rest) {s : LexState}
    (hs : s ≠ .stuck) (h : .bad ∉ s.run text) :
    s.run (text ++ rest) = s.run text ++ run .between rest := by
  induction text generalizing s with
  | nil =>
    cases s with
    | between => rfl
    | number n =>
      rw [LexState.run, LexState.finish] at h ⊢
      cases hn : n.complete? with
      | none =>
        rw [hn] at h
        exact absurd (List.mem_singleton_self _) h
      | some m =>
        cases rest with
        | nil =>
          rw [List.append_nil, LexState.run, LexState.finish, hn]
          rfl
        | cons c rest =>
          have hstep := NumberState.step_of_complete hn (hrest c rfl)
          rw [List.nil_append, LexState.run, LexState.step, hstep]
          rfl
    | stuck => exact absurd rfl hs
    | _ => exact absurd (List.mem_singleton_self _) h
  | cons c text ih =>
    rw [List.cons_append, run_cons, run_cons]
    rw [run_cons, List.mem_append, not_or] at h
    have hnext : (s.step c).1 ≠ .stuck := fun hstuck => h.1 (tells_step hs c hstuck)
    rw [ih hnext h.2, List.append_assoc]

end LexState

/-- **A text spells some tokens** if it is split into them wherever it stands as a value. -/
def Spells (text : List Char) (ts : List Token) : Prop :=
  ∀ rest, Delimited rest → LexState.run .between (text ++ rest) = ts ++ LexState.run .between rest

theorem spells_of_tokens {text : String} (h : .bad ∉ tokens text) :
    Spells text.toList (tokens text) :=
  fun _ hrest => LexState.run_append hrest (fun hstuck => by cases hstuck) h

/-! ## 2. Strings -/

theorem hexValue?_hexDigit : ∀ n < 16, hexValue? (hexDigit n) = some n := by decide

/-- A written character is read. -/
theorem run_escape (parts : List StringPart) (c : Char) (rest : List Char) :
    LexState.run (.string parts) (escape c ++ rest) =
      LexState.run (.string (.char c :: parts)) rest := by
  unfold escape
  split
  all_goals first
    | rfl
    | skip
  rename_i hquote hescape _ _ _ _ _
  split
  · rename_i hcontrol
    have hhigh := hexValue?_hexDigit (c.toNat / 16) (by omega)
    have hlow := hexValue?_hexDigit (c.toNat % 16) (by omega)
    have hvalue : (c.toNat / 16) * 16 + c.toNat % 16 = c.toNat := by omega
    have hpart : StringPart.ofUnit c.toNat = .char c := by
      have hhalf : ¬ 0xD800 ≤ c.toNat := by omega
      have hhalf' : ¬ 0xDC00 ≤ c.toNat := by omega
      rw [StringPart.ofUnit, isHighHalf, isLowHalf, Char.ofNat_toNat]
      simp [hhalf, hhalf']
    have hunit : ∀ rest, LexState.run (.unit parts 2 0)
        (hexDigit (c.toNat / 16) :: hexDigit (c.toNat % 16) :: rest) =
          LexState.run (.string (.char c :: parts)) rest := by
      intro rest
      simp [LexState.run, LexState.step, hhigh, hlow, hvalue, hpart]
    exact hunit rest
  · rename_i hcontrol
    rw [List.singleton_append, LexState.run, LexState.step, if_neg (by simpa using hquote),
      if_neg (by simpa using hescape), if_neg hcontrol]
    rfl

theorem run_escape_all (parts : List StringPart) (cs rest : List Char) :
    LexState.run (.string parts) (cs.flatMap escape ++ rest) =
      LexState.run (.string ((cs.map StringPart.char).reverse ++ parts)) rest := by
  induction cs generalizing parts with
  | nil => rfl
  | cons c cs ih =>
    rw [List.flatMap_cons, List.append_assoc, run_escape, ih, List.map_cons, List.reverse_cons,
      List.append_assoc, List.singleton_append]

theorem joinHalves_chars (cs : List Char) : joinHalves (cs.map StringPart.char) = some cs := by
  induction cs with
  | nil => rfl
  | cons c cs ih => rw [List.map_cons, joinHalves, ih]; rfl

/-- **A written string is read**, whatever follows it. -/
theorem run_quote (s : String) (rest : List Char) :
    LexState.run .between ((quote s).toList ++ rest) =
      .string (some s) :: LexState.run .between rest := by
  have hchars : joinHalves ((s.toList.map StringPart.char).reverse ++ []).reverse = some s.toList := by
    rw [List.append_nil, List.reverse_reverse, joinHalves_chars]
  have hclose : ∀ parts : List StringPart, LexState.run (.string parts) ('"' :: rest) =
      .string ((joinHalves parts.reverse).map String.ofList) :: LexState.run .between rest :=
    fun _ => rfl
  have hopen : ∀ cs, LexState.run .between ('"' :: cs) = LexState.run (.string []) cs := fun _ => rfl
  rw [quote, String.toList_ofList, List.cons_append, List.cons_append, hopen, List.append_assoc,
    run_escape_all, List.singleton_append, hclose, hchars, Option.map_some, String.ofList_toList]

theorem spells_quote (s : String) : Spells (quote s).toList [.string (some s)] :=
  fun rest _ => run_quote s rest

/-! ## 3. Whole numbers -/

theorem digit?_digitChar : ∀ d < 10, digit? (Nat.digitChar d) = some d := by decide

/-- The state in which the digits of a number begin. -/
def LexState.unsigned (negative : Bool) : LexState := if negative then .number .sign else .between

/-- Digits are read from the leading one on. -/
theorem run_toDigits (negative : Bool) {n : Nat} (hn : 0 < n) (rest : List Char) :
    (LexState.unsigned negative).run (Nat.toDigits 10 n ++ rest) =
      LexState.run (.number (.whole negative (Nat.digits 10 n))) rest := by
  induction n using Nat.strongRecOn generalizing rest with
  | ind n ih =>
    by_cases hlt : n < 10
    · rw [Nat.toDigits_of_lt_base hlt, Nat.digits_of_lt 10 n hn.ne' hlt]
      interval_cases n <;> cases negative <;> rfl
    · have hdigit := digit?_digitChar (n % 10) (Nat.mod_lt n (by decide))
      have hstep : NumberState.step (.whole negative (Nat.digits 10 (n / 10)))
          (Nat.digitChar (n % 10)) = .more (.whole negative (n % 10 :: Nat.digits 10 (n / 10))) := by
        simp only [NumberState.step, hdigit]
      rw [Nat.toDigits_of_base_le (by decide) (by omega), List.append_assoc,
        ih (n / 10) (by omega) (by omega), List.singleton_append, LexState.run_cons, LexState.step,
        hstep, ← Nat.digits_def' (by decide) hn]
      rfl

/-- A digit more, as long as the number fits. -/
theorem appendDigits_concat {a b d : Nat} {l : List Nat} (h : Decimal.appendDigits a l = (b, []))
    (hd : b * 10 + d ≤ Decimal.maxWhole) :
    Decimal.appendDigits a (l ++ [d]) = (b * 10 + d, []) := by
  induction l generalizing a with
  | nil =>
    obtain rfl : a = b := congrArg Prod.fst h
    rw [List.nil_append, Decimal.appendDigits, if_pos hd, Decimal.appendDigits]
  | cons e l ih =>
    rw [Decimal.appendDigits] at h
    rw [List.cons_append, Decimal.appendDigits]
    split at h
    · rename_i hfits
      rw [if_pos hfits]
      exact ih h
    · cases congrArg Prod.snd h

/-- **The digits of a number of 64 bits have its value.** -/
theorem appendDigits_digits {n : Nat} (h : n ≤ Decimal.maxWhole) :
    Decimal.appendDigits 0 (Nat.digits 10 n).reverse = (n, []) := by
  induction n using Nat.strongRecOn with
  | ind n ih =>
    rcases Nat.eq_zero_or_pos n with rfl | hn
    · rfl
    · have hvalue : n / 10 * 10 + n % 10 = n := by omega
      have hlast := appendDigits_concat (d := n % 10) (ih (n / 10) (by omega) (by omega))
        (by rwa [hvalue])
      rw [Nat.digits_def' (by decide) hn, List.reverse_cons, hlast, hvalue]

/-- **A whole number is one token**, which has its value if it fits into 64 bits, signed or
    unsigned. -/
theorem exists_numeral_whole (i : Int) : ∃ m : Numeral,
    tokens (writeNumber (.whole i)) = [.number m] ∧
      (-(2 ^ 63) ≤ i → i ≤ Decimal.maxWhole → m.value? = some (.whole i)) := by
  have htext : (writeNumber (.whole i)).toList = i.repr.toList := rfl
  rw [tokens, htext]
  cases i with
  | ofNat n =>
    rcases Nat.eq_zero_or_pos n with rfl | hn
    · exact ⟨⟨false, [0], none, none⟩, rfl, fun _ _ => rfl⟩
    · refine ⟨⟨false, (Nat.digits 10 n).reverse, none, none⟩, ?_, fun _ hle => ?_⟩
      · have hrun := run_toDigits false hn []
        rw [List.append_nil] at hrun
        rw [Int.repr, Nat.toList_repr]
        exact hrun
      · rw [Numeral.value?, appendDigits_digits (Int.ofNat_le.mp hle)]
        rfl
  | negSucc n =>
    refine ⟨⟨true, (Nat.digits 10 (n + 1)).reverse, none, none⟩, ?_, fun hge _ => ?_⟩
    · have hrun := run_toDigits true n.succ_pos []
      rw [List.append_nil] at hrun
      rw [Int.repr, String.toList_append, Nat.toList_repr]
      exact hrun
    · have hsize : n + 1 ≤ 2 ^ 63 := by omega
      have hfits : n + 1 ≤ Decimal.maxWhole := by
        rw [Decimal.maxWhole, UInt64.size]
        omega
      have hin : ¬ (n + 1 = 0 ∨ Nat.pow 2 63 < n + 1) := by
        have hpow : Nat.pow 2 63 = 2 ^ 63 := rfl
        omega
      rw [Numeral.value?, appendDigits_digits hfits]
      simp only [List.isEmpty_nil, Bool.not_true, Bool.false_eq_true, if_false, Bool.or_eq_true,
        decide_eq_true_eq, if_neg hin]
      rfl

/-! ## 4. Numbers -/

/-- The numeral that the text of a number is, if it is one. -/
def numeral (n : Number) : Numeral :=
  match tokens (writeNumber n) with
  | [.number m] => m
  | _ => ⟨false, [0], none, none⟩

/-- A number whose text is one numeral. -/
def Numeric (n : Number) : Prop := tokens (writeNumber n) = [.number (numeral n)]

theorem numeral_eq {n : Number} {m : Numeral} (h : tokens (writeNumber n) = [.number m]) :
    numeral n = m := by
  rw [numeral, h]

theorem numeric_of_tokens {n : Number} {m : Numeral} (h : tokens (writeNumber n) = [.number m]) :
    Numeric n := by
  rw [Numeric, h, numeral_eq h]

theorem numeric_whole (i : Int) : Numeric (.whole i) := by
  obtain ⟨m, hm, -⟩ := exists_numeral_whole i
  exact numeric_of_tokens hm

/-- A whole number of 64 bits is read as it. -/
theorem value?_numeral_whole {i : Int} (hge : -(2 ^ 63) ≤ i) (hle : i ≤ Decimal.maxWhole) :
    (numeral (.whole i)).value? = some (.whole i) := by
  obtain ⟨m, hm, hvalue⟩ := exists_numeral_whole i
  rw [numeral_eq hm]
  exact hvalue hge hle

theorem spells_writeNumber {n : Number} (h : Numeric n) :
    Spells (writeNumber n).toList [.number (numeral n)] := by
  have hspells : .bad ∉ tokens (writeNumber n) → Spells (writeNumber n).toList
      (tokens (writeNumber n)) := spells_of_tokens
  rw [show tokens (writeNumber n) = [.number (numeral n)] from h] at hspells
  exact hspells (by simp)

/-! ## 5. Values -/

/-- The parts of a list with commas between them. -/
def separated : List (List Token) → List Token
  | [] => []
  | ts :: rest => ts ++ rest.flatMap (.comma :: ·)

mutual

/-- The tokens of a value. -/
def spelling : Json → List Token
  | .null => [.null]
  | .bool b => [.bool b]
  | .number n => [.number (numeral n)]
  | .string s => [.string (some s)]
  | .array items => .openArray :: (separated (itemSpellings items) ++ [.closeArray])
  | .object members => .openObject :: (separated (memberSpellings members) ++ [.closeObject])

/-- The tokens of each item. -/
def itemSpellings : List Json → List (List Token)
  | [] => []
  | v :: rest => spelling v :: itemSpellings rest

/-- The tokens of each member. -/
def memberSpellings : List (String × Json) → List (List Token)
  | [] => []
  | (k, v) :: rest => (.string (some k) :: .colon :: spelling v) :: memberSpellings rest

end

mutual

/-- The doubles in a value. -/
def doubles : Json → List Float
  | .number (.double x) => [x]
  | .array items => itemDoubles items
  | .object members => memberDoubles members
  | _ => []

/-- The doubles in the items of an array. -/
def itemDoubles : List Json → List Float
  | [] => []
  | v :: rest => doubles v ++ itemDoubles rest

/-- The doubles in the members of an object. -/
def memberDoubles : List (String × Json) → List Float
  | [] => []
  | (_, v) :: rest => doubles v ++ memberDoubles rest

end

/-- A new line and its indentation are no tokens. -/
theorem run_newline (level : Nat) (rest : List Char) :
    LexState.run .between ((newline level).toList ++ rest) = LexState.run .between rest := by
  have hspaces : ∀ n, LexState.run .between (List.replicate n ' ' ++ rest) =
      LexState.run .between rest := by
    intro n
    induction n with
    | zero => rfl
    | succ n ih =>
      rw [List.replicate_succ, List.cons_append, LexState.run_cons]
      exact ih
  rw [newline, String.toList_append, String.toList_ofList, String.toList_ofList, List.append_assoc]
  exact hspaces _

theorem delimited_newline_append (level : Nat) (rest : List Char) :
    Delimited ((newline level).toList ++ rest) := by
  rw [newline, String.toList_append, List.append_assoc]
  exact delimited_newline _

theorem intercalate_cons {α : Type} (separator : List α) (p : List α) (parts : List (List α)) :
    separator.intercalate (p :: parts) = p ++ parts.flatMap (separator ++ ·) := by
  induction parts generalizing p with
  | nil => simp [List.intercalate]
  | cons q parts ih =>
    rw [List.flatMap_cons, List.append_assoc, ← ih q]
    simp [List.intercalate]

/-- Further parts, each after a comma and a new line, up to the end of the list. -/
theorem run_parts (level : Nat) {parts : List String} {tss : List (List Token)}
    (h : List.Forall₂ (fun p ts => Spells p.toList ts) parts tss) {rest : List Char}
    (hrest : Delimited rest) :
    LexState.run .between
        (parts.flatMap (fun p => (',' :: (newline level).toList) ++ p.toList) ++ rest) =
      tss.flatMap (.comma :: ·) ++ LexState.run .between rest ∧
    Delimited (parts.flatMap (fun p => (',' :: (newline level).toList) ++ p.toList) ++ rest) := by
  induction h with
  | nil => exact ⟨rfl, hrest⟩
  | cons hp _ ih =>
    obtain ⟨hrun, hnext⟩ := ih
    have hcomma : ∀ cs, LexState.run .between (',' :: cs) = .comma :: LexState.run .between cs :=
      fun _ => rfl
    rw [List.flatMap_cons, List.flatMap_cons, List.append_assoc, List.append_assoc,
      List.cons_append, hcomma, run_newline, hp _ hnext, hrun]
    refine ⟨?_, delimited_comma _⟩
    simp only [List.cons_append, List.append_assoc]

/-- **Parts between brackets.** -/
theorem spells_block {opening closing : String} {o c : Token}
    (hopening : ∀ cs, LexState.run .between (opening.toList ++ cs) = o :: LexState.run .between cs)
    (hclosing : ∀ cs, LexState.run .between (closing.toList ++ cs) = c :: LexState.run .between cs)
    (level : Nat) {parts : List String} {tss : List (List Token)}
    (h : List.Forall₂ (fun p ts => Spells p.toList ts) parts tss) :
    Spells (block opening closing level parts).toList (o :: (separated tss ++ [c])) := by
  intro rest hrest
  cases h with
  | nil =>
    rw [block, String.toList_append, List.append_assoc, hopening, hclosing]
    rfl
  | cons hp htail =>
    rename_i p ts parts tss
    obtain ⟨hrun, hnext⟩ := run_parts (level + 1) htail
      (delimited_newline_append level (closing.toList ++ rest))
    rw [run_newline, hclosing] at hrun
    have htext : (block opening closing level (p :: parts)).toList ++ rest =
        opening.toList ++ ((newline (level + 1)).toList ++ (p.toList ++
          (parts.flatMap (fun p => (',' :: (newline (level + 1)).toList) ++ p.toList) ++
            ((newline level).toList ++ (closing.toList ++ rest))))) := by
      simp [block, String.toList_intercalate, intercalate_cons, List.flatMap_map]
    rw [htext, hopening, run_newline, hp _ hnext, hrun, separated]
    simp

theorem spells_null : Spells "null".toList [.null] := fun _ _ => rfl

theorem spells_bool (b : Bool) : Spells (if b then "true" else "false").toList [.bool b] := by
  intro rest _
  cases b <;> rfl

mutual

/-- **A written value spells its tokens.** -/
theorem spells_prettyAt (level : Nat) :
    ∀ v : Json, (∀ x ∈ v.doubles, Numeric (.double x)) → Spells (v.prettyAt level).toList v.spelling
  | .null, _ => spells_null
  | .bool true, _ => spells_bool true
  | .bool false, _ => spells_bool false
  | .number (.whole i), _ => spells_writeNumber (numeric_whole i)
  | .number (.double x), h => spells_writeNumber (h x (List.mem_singleton_self x))
  | .string s, _ => spells_quote s
  | .array items, h =>
    spells_block (fun _ => rfl) (fun _ => rfl) level (spells_prettyItems (level + 1) items h)
  | .object members, h =>
    spells_block (fun _ => rfl) (fun _ => rfl) level (spells_prettyMembers (level + 1) members h)

theorem spells_prettyItems (level : Nat) :
    ∀ items : List Json, (∀ x ∈ itemDoubles items, Numeric (.double x)) →
      List.Forall₂ (fun p ts => Spells p.toList ts) (prettyItems level items) (itemSpellings items)
  | [], _ => .nil
  | v :: rest, h =>
    .cons (spells_prettyAt level v fun x hx => h x (List.mem_append_left _ hx))
      (spells_prettyItems level rest fun x hx => h x (List.mem_append_right _ hx))

theorem spells_prettyMembers (level : Nat) :
    ∀ members : List (String × Json), (∀ x ∈ memberDoubles members, Numeric (.double x)) →
      List.Forall₂ (fun p ts => Spells p.toList ts) (prettyMembers level members)
        (memberSpellings members)
  | [], _ => .nil
  | (k, v) :: rest, h => by
    refine .cons (fun cs hcs => ?_)
      (spells_prettyMembers level rest fun x hx => h x (List.mem_append_right _ hx))
    have hvalue := spells_prettyAt level v (fun x hx => h x (List.mem_append_left _ hx)) cs hcs
    rw [String.toList_append, String.toList_append, List.append_assoc, List.append_assoc, run_quote]
    exact congrArg (.string (some k) :: .colon :: ·) hvalue

end

/-- **The tokens of a written value.** -/
theorem tokens_pretty (v : Json) (h : ∀ x ∈ v.doubles, Numeric (.double x)) :
    tokens v.pretty = v.spelling := by
  have hspells := spells_prettyAt 0 v h [] delimited_nil
  rwa [List.append_nil, LexState.run, LexState.finish, List.append_nil] at hspells

end LogicSim.Json
