import LogicSim.Text.Blank

/-!
# Signals and their written forms

A signal is a `Bool`, high or low. Two written forms are fixed here:

* a *pattern* lists signals as `0` and `1`, pin 0 first (`Signal.encodeAll`, `Signal.pattern?`);
  reading accepts exactly what writing produces (`Signal.pattern?_eq_some_iff`);
* a *level* is one of the words with which a document may name a signal (`Signal.level?`).

A list of signals is cut or filled to a number of pins by `Signal.resize`.
-/

namespace LogicSim.Signal

/-! ## 1. Patterns -/

/-- The digit of a signal. -/
def encode (b : Bool) : Char := if b then '1' else '0'

/-- The pattern of several signals, pin 0 first. -/
def encodeAll (bs : List Bool) : String := String.ofList (bs.map encode)

/-- The signal of a digit. -/
def bit? : Char → Option Bool
  | '1' => some true
  | '0' => some false
  | _ => none

/-- The signals of a pattern; `none` if any character is not a digit of a signal. -/
def pattern? (s : String) : Option (List Bool) := s.toList.mapM bit?

@[simp] theorem bit?_encode (b : Bool) : bit? (encode b) = some b := by
  cases b <;> rfl

/-- A digit that reads as a signal is the digit of that signal. -/
theorem encode_eq_of_bit? {c : Char} {b : Bool} (h : bit? c = some b) : encode b = c := by
  unfold bit? at h
  split at h <;> simp_all [encode]

/-- **A written pattern reads back.** -/
theorem pattern?_encodeAll (bs : List Bool) : pattern? (encodeAll bs) = some bs := by
  simp only [pattern?, encodeAll, String.toList_ofList]
  induction bs with
  | nil => rfl
  | cons b bs ih => simp [List.mapM_cons, ih]

/-- A text that reads as a pattern is the pattern of what was read. -/
theorem encodeAll_of_pattern? {s : String} {bs : List Bool} (h : pattern? s = some bs) :
    encodeAll bs = s := by
  suffices hs : ∀ (cs : List Char) (bs : List Bool), cs.mapM bit? = some bs → bs.map encode = cs by
    rw [encodeAll, hs s.toList bs h, String.ofList_toList]
  intro cs
  induction cs with
  | nil =>
    intro bs h
    obtain rfl : [] = bs := Option.some.inj h
    rfl
  | cons c cs ih =>
    intro bs h
    simp only [List.mapM_cons, Option.bind_eq_bind, Option.bind_eq_some_iff, Option.pure_def,
      Option.some.injEq] at h
    obtain ⟨b, hb, rest, hrest, rfl⟩ := h
    rw [List.map_cons, encode_eq_of_bit? hb, ih rest hrest]

/-- **Reading accepts exactly what writing produces.** -/
theorem pattern?_eq_some_iff {s : String} {bs : List Bool} :
    pattern? s = some bs ↔ s = encodeAll bs :=
  ⟨fun h => (encodeAll_of_pattern? h).symm, fun h => h ▸ pattern?_encodeAll bs⟩

/-! ## 2. Numbers of pins -/

/-- A list cut or filled with low signals to a length. -/
def resize (signals : List Bool) (length : Nat) : List Bool :=
  signals.take length ++ List.replicate (length - signals.length) false

@[simp] theorem length_resize (signals : List Bool) (length : Nat) :
    (resize signals length).length = length := by
  simp only [resize, List.length_append, List.length_take, List.length_replicate]
  omega

/-- A list of the right length stays as it is. -/
@[simp] theorem resize_length (signals : List Bool) : resize signals signals.length = signals := by
  simp [resize]

/-! ## 3. Levels -/

/-- The words for a high signal, in lower case. -/
def highWords : List String := ["1", "true", "high", "on"]

/-- The words for a low signal, in lower case. Nothing at all is low too. -/
def lowWords : List String := ["0", "false", "low", "off", ""]

/-- The signal named by a word. Blanks around it do not matter, nor does the case of the letters
    `A` to `Z`; no other letter is folded. -/
def level? (s : String) : Option Bool :=
  let word := String.ofList ((Text.trim s.toList).map Char.toLower)
  if highWords.contains word then some true
  else if lowWords.contains word then some false
  else none

end LogicSim.Signal
