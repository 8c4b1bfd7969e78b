import LogicSim.Proofs.Netlist.Loading
import LogicSim.Proofs.Document.RoundTrip

/-!
# Truth tables are lookups

The rows of a definition are pairs of texts; a table in use is one number for each output, with a
bit for each list of inputs. What such a table answers is what the rows say:

* `Rows.ordered_foldl_put` -- rows put together one by one have distinct keys;
* `Definition.pattern?_eq` -- which texts are read as signals, and as which;
* `Definition.read_addRow` -- what one row changes at a list of inputs;
* `Definition.read_foldl_addRow` -- what all rows together say there;
* `Definition.compile_rows` -- the gate compiled from rows with distinct keys answers with the row
  whose key is the pattern of its inputs, leaves out exactly the malformed rows, and never writes
  an entry twice; beyond sixteen inputs there is no gate.
-/

namespace LogicSim

/-! ## 1. Patterns of a length -/

namespace Signal

/-- A text is a pattern of so many signals: that many digits `0` and `1` and nothing else. -/
def IsPattern (length : Nat) (s : String) : Prop :=
  s.toList.length = length ∧ ∀ c ∈ s.toList, c = '0' ∨ c = '1'

-- only the characters of the text are looked at, not all there are
instance (length : Nat) (s : String) : Decidable (IsPattern length s) :=
  @instDecidableAnd _ _ inferInstance (List.decidableBAll _ s.toList)

/-- The signals of a pattern, digit by digit. -/
def decodeAll (s : String) : List Bool := s.toList.map (· == '1')

theorem length_decodeAll {length : Nat} {s : String} (h : IsPattern length s) :
    (decodeAll s).length = length := by
  rw [decodeAll, List.length_map, h.1]

/-- What is written for signals is a pattern, digit by digit those signals. -/
theorem isPattern_encodeAll (bs : List Bool) : IsPattern bs.length (encodeAll bs) := by
  refine ⟨by rw [encodeAll, String.toList_ofList, List.length_map], fun c hc => ?_⟩
  rw [encodeAll, String.toList_ofList, List.mem_map] at hc
  obtain ⟨b, -, rfl⟩ := hc
  cases b
  · exact .inl rfl
  · exact .inr rfl

theorem decodeAll_encodeAll (bs : List Bool) : decodeAll (encodeAll bs) = bs := by
  have hencode : (fun b => encode b == '1') = id := by
    funext b
    cases b <;> rfl
  rw [decodeAll, encodeAll, String.toList_ofList, List.map_map]
  exact (congrArg (fun f => bs.map f) hencode).trans (List.map_id bs)

/-- A pattern is what is written for its signals. -/
theorem encodeAll_decodeAll {length : Nat} {s : String} (h : IsPattern length s) :
    encodeAll (decodeAll s) = s := by
  have hdigits : s.toList.map (fun c => encode (c == '1')) = s.toList := by
    refine (List.map_congr_left fun c hc => ?_).trans (List.map_id s.toList)
    obtain rfl | rfl := h.2 c hc <;> rfl
  rw [encodeAll, decodeAll, List.map_map]
  exact (congrArg String.ofList hdigits).trans String.ofList_toList

end Signal

/-! ## 2. Keys -/

namespace Rows

theorem mem_put {rows : Rows} {inputs outputs : String} {row : String × String}
    (h : row ∈ put inputs outputs rows) : row = (inputs, outputs) ∨ row ∈ rows := by
  induction rows with
  | nil => exact .inl (List.mem_singleton.mp h)
  | cons first rest ih =>
    rw [put] at h
    split at h
    next => exact (List.mem_cons.mp h).imp id (List.mem_cons_of_mem _)
    next =>
      split at h
      next => exact List.mem_cons.mp h
      next =>
        obtain rfl | h := List.mem_cons.mp h
        · exact .inr List.mem_cons_self
        · exact (ih h).imp id (List.mem_cons_of_mem _)

/-- Putting a row in keeps rows in order. -/
theorem Ordered.put {rows : Rows} (h : rows.Ordered) (inputs outputs : String) :
    (put inputs outputs rows).Ordered := by
  induction rows with
  | nil => exact List.pairwise_singleton _ _
  | cons row rest ih =>
    obtain ⟨hfirst, hrest⟩ := List.pairwise_cons.mp h
    rw [Rows.put]
    split
    next heq => exact List.pairwise_cons.mpr ⟨fun r hr => heq ▸ hfirst r hr, hrest⟩
    next hne =>
      split
      next hlt =>
        refine List.pairwise_cons.mpr ⟨fun r hr => ?_, h⟩
        obtain rfl | hr := List.mem_cons.mp hr
        · exact hlt
        · exact String.lt_trans hlt (hfirst r hr)
      next hge =>
        have hlt : row.1 < inputs := Decidable.byContradiction fun hnot =>
          hne (String.le_antisymm (String.not_lt.mp hnot) (String.not_lt.mp hge))
        refine List.pairwise_cons.mpr ⟨fun r hr => ?_, ih hrest⟩
        obtain rfl | hr := mem_put hr
        · exact hlt
        · exact hfirst r hr

/-- **Rows put together one by one are in order**, whatever their order was. -/
theorem ordered_foldl_put (added : List (String × String)) {rows : Rows} (h : rows.Ordered) :
    Ordered (added.foldl (fun acc row => put row.1 row.2 acc) rows) := by
  induction added generalizing rows with
  | nil => exact h
  | cons row added ih => exact ih (h.put row.1 row.2)

/-- Rows in order have distinct keys. -/
theorem Ordered.nodup_keys {rows : Rows} (h : rows.Ordered) : (rows.map Prod.fst).Nodup := by
  refine List.pairwise_map.mpr (List.Pairwise.imp ?_ h)
  intro r s hlt heq
  exact String.lt_irrefl _ (heq ▸ hlt)

end Rows

namespace Definition

open Signal

/-- **A text is read exactly if it is a pattern of the length, digit by digit.** -/
theorem pattern?_eq (length : Nat) (s : String) :
    pattern? length s = if IsPattern length s then some (decodeAll s) else none := by
  by_cases h : IsPattern length s
  · rw [if_pos h, pattern?, pattern?_eq_some_iff.mpr (encodeAll_decodeAll h).symm,
      Option.filter_some, if_pos (decide_eq_true (length_decodeAll h))]
  · rw [if_neg h, pattern?, Option.filter_eq_none_iff]
    intro bs hbs
    rw [decide_eq_true_eq]
    rintro rfl
    exact h (pattern?_eq_some_iff.mp hbs ▸ isPattern_encodeAll bs)

/-! ## 3. One row -/

/-- A row is entered in a table: its key is a pattern of the inputs and its value one of the
    outputs. -/
def Accepts (inputCount outputCount : Nat) (row : String × String) : Prop :=
  IsPattern inputCount row.1 ∧ IsPattern outputCount row.2

instance (inputCount outputCount : Nat) (row : String × String) :
    Decidable (Accepts inputCount outputCount row) :=
  inferInstanceAs (Decidable (_ ∧ _))

/-- Why a row that is not entered is left out. The key is looked at first. -/
def refusal (inputCount : Nat) (row : String × String) : String :=
  if IsPattern inputCount row.1 then
    "ignored row with invalid output pattern " ++ Text.quoted row.2
  else
    "ignored row with invalid input pattern " ++ Text.quoted row.1

/-- The entry of a key in the column of each output. -/
def entry (key : String) : Nat := TruthTable.inputNumber (decodeAll key)

/-- Columns with the value of a row put in at the entry of its key, for each output, and otherwise
    as they were. -/
def writeRow (columns : List Nat) (row : String × String) : List Nat :=
  List.zipWith (fun column value => TruthTable.putBit column (entry row.1) value) columns
    (decodeAll row.2)

variable {inputCount outputCount : Nat} {row : String × String}

/-- A row of patterns is written. -/
theorem addRow_of_accepts (h : Accepts inputCount outputCount row) (t : TruthTable) :
    addRow inputCount outputCount t row = { t with columns := writeRow t.columns row } := by
  rw [addRow, pattern?_eq, pattern?_eq, if_pos h.1, if_pos h.2]
  rfl

/-- Any other row is left out with its reason. -/
theorem addRow_of_refused (h : ¬ Accepts inputCount outputCount row) (t : TruthTable) :
    addRow inputCount outputCount t row =
      { t with skipped := t.skipped ++ [refusal inputCount row] } := by
  rw [addRow, pattern?_eq, pattern?_eq, refusal]
  by_cases hkey : IsPattern inputCount row.1
  · rw [if_pos hkey, if_neg fun hvalue => h ⟨hkey, hvalue⟩, if_pos hkey]
  · rw [if_neg hkey, if_neg hkey]

theorem length_columns_addRow (t : TruthTable) (h : t.columns.length = outputCount) :
    (addRow inputCount outputCount t row).columns.length = outputCount := by
  by_cases haccepts : Accepts inputCount outputCount row
  · rw [addRow_of_accepts haccepts, writeRow, List.length_zipWith, length_decodeAll haccepts.2, h,
      Nat.min_self]
  · rw [addRow_of_refused haccepts]
    exact h

/-- Keys that are patterns of one length have different entries. -/
theorem entry_inj {key key' : String} (h : IsPattern inputCount key)
    (h' : IsPattern inputCount key') (heq : entry key = entry key') : key = key' := by
  have hdecoded : decodeAll key = decodeAll key' :=
    TruthTable.inputNumber_inj ((length_decodeAll h).trans (length_decodeAll h').symm) heq
  rw [← encodeAll_decodeAll h, hdecoded, encodeAll_decodeAll h']

/-- The entry of the pattern of inputs is their number. -/
theorem entry_encodeAll (inputs : List Bool) :
    entry (encodeAll inputs) = TruthTable.inputNumber inputs := by
  rw [entry, decodeAll_encodeAll]

/-- The outputs at an entry, after a row was written there or elsewhere. -/
theorem map_testBit_writeRow {columns : List Nat}
    (hlength : columns.length = (decodeAll row.2).length) (i : Nat) :
    (writeRow columns row).map (·.testBit i) =
      if i = entry row.1 then decodeAll row.2 else columns.map (·.testBit i) := by
  suffices hall : ∀ (columns : List Nat) (values : List Bool), columns.length = values.length →
      (List.zipWith (fun column value => TruthTable.putBit column (entry row.1) value)
        columns values).map (·.testBit i) =
        if i = entry row.1 then values else columns.map (·.testBit i) from hall _ _ hlength
  intro columns
  induction columns with
  | nil =>
    intro values hlength
    obtain rfl : values = [] := List.length_eq_zero_iff.mp hlength.symm
    exact (ite_self _).symm
  | cons column columns ih =>
    intro values hlength
    obtain ⟨value, values, rfl⟩ : ∃ value rest, values = value :: rest :=
      List.exists_cons_of_length_eq_add_one hlength.symm
    rw [List.zipWith_cons_cons, List.map_cons, TruthTable.testBit_putBit,
      ih values (Nat.succ.inj hlength)]
    split <;> rfl

/-- **What a row changes at a list of inputs**: all outputs if its key is the pattern of these
    inputs and its value a pattern of the outputs, and otherwise nothing. -/
theorem read_addRow {t : TruthTable} (hcolumns : t.columns.length = outputCount)
    {inputs : List Bool} (hinputs : inputs.length = inputCount) :
    (addRow inputCount outputCount t row).columns.map
        (·.testBit (TruthTable.inputNumber inputs)) =
      if row.1 = encodeAll inputs ∧ IsPattern outputCount row.2 then decodeAll row.2
      else t.columns.map (·.testBit (TruthTable.inputNumber inputs)) := by
  have hpattern : IsPattern inputCount (encodeAll inputs) := hinputs ▸ isPattern_encodeAll inputs
  by_cases haccepts : Accepts inputCount outputCount row
  · have hlength : t.columns.length = (decodeAll row.2).length :=
      hcolumns.trans (length_decodeAll haccepts.2).symm
    rw [addRow_of_accepts haccepts, map_testBit_writeRow hlength, ← entry_encodeAll]
    exact if_congr ⟨fun hentry => ⟨(entry_inj hpattern haccepts.1 hentry).symm, haccepts.2⟩,
      fun h => congrArg entry h.1.symm⟩ rfl rfl
  · rw [addRow_of_refused haccepts, if_neg]
    rintro ⟨hkey, hvalue⟩
    exact haccepts ⟨hkey ▸ hpattern, hvalue⟩

/-! ## 4. All rows -/

/-- The outputs that the rows give for inputs: the value of the row whose key is the pattern of the
    inputs, if it is a pattern of so many outputs. -/
def lookup? (outputCount : Nat) (rows : Rows) (inputs : List Bool) : Option (List Bool) :=
  match rows.lookup (encodeAll inputs) with
  | some value => if IsPattern outputCount value then some (decodeAll value) else none
  | none => none

theorem lookup?_cons_self {rows : Rows} {inputs : List Bool} (h : row.1 = encodeAll inputs) :
    lookup? outputCount (row :: rows) inputs =
      if IsPattern outputCount row.2 then some (decodeAll row.2) else none := by
  rw [lookup?, List.lookup_cons, h, beq_self_eq_true]

theorem lookup?_cons_of_ne {rows : Rows} {inputs : List Bool} (h : row.1 ≠ encodeAll inputs) :
    lookup? outputCount (row :: rows) inputs = lookup? outputCount rows inputs := by
  rw [lookup?, List.lookup_cons, beq_false_of_ne h.symm, lookup?]

/-- A key that no row has gives no outputs. -/
theorem lookup?_eq_none {rows : Rows} {inputs : List Bool}
    (h : encodeAll inputs ∉ rows.map Prod.fst) : lookup? outputCount rows inputs = none := by
  have hnone : rows.lookup (encodeAll inputs) = none := by
    rw [List.lookup_eq_none_iff]
    intro row hrow
    exact bne_iff_ne.mpr fun heq => h (heq ▸ List.mem_map_of_mem hrow)
  rw [lookup?, hnone]

/-- **What all rows say at a list of inputs**, over what the table says without them. Distinct keys
    make the first row of a key also the last one written. -/
theorem read_foldl_addRow {rows : Rows} (hkeys : (rows.map Prod.fst).Nodup) {t : TruthTable}
    (hcolumns : t.columns.length = outputCount) {inputs : List Bool}
    (hinputs : inputs.length = inputCount) :
    (rows.foldl (addRow inputCount outputCount) t).columns.map
        (·.testBit (TruthTable.inputNumber inputs)) =
      (lookup? outputCount rows inputs).getD
        (t.columns.map (·.testBit (TruthTable.inputNumber inputs))) := by
  induction rows generalizing t with
  | nil => rfl
  | cons row rows ih =>
    rw [List.map_cons, List.nodup_cons] at hkeys
    rw [List.foldl_cons, ih hkeys.2 (length_columns_addRow t hcolumns),
      read_addRow hcolumns hinputs]
    by_cases hkey : row.1 = encodeAll inputs
    · rw [lookup?_eq_none (hkey ▸ hkeys.1), lookup?_cons_self hkey]
      by_cases hvalue : IsPattern outputCount row.2
      · rw [if_pos ⟨hkey, hvalue⟩, if_pos hvalue]
        rfl
      · rw [if_neg fun h => hvalue h.2, if_neg hvalue]
    · rw [lookup?_cons_of_ne hkey, if_neg fun h => hkey h.1]

/-- Only the rows accepted are written, in order. -/
theorem columns_foldl_addRow (rows : Rows) (t : TruthTable) :
    (rows.foldl (addRow inputCount outputCount) t).columns =
      (rows.filter fun row => Accepts inputCount outputCount row).foldl writeRow t.columns := by
  induction rows generalizing t with
  | nil => rfl
  | cons row rows ih =>
    rw [List.foldl_cons, ih]
    by_cases haccepts : Accepts inputCount outputCount row
    · rw [addRow_of_accepts haccepts, List.filter_cons_of_pos (by simpa using haccepts),
        List.foldl_cons]
    · rw [addRow_of_refused haccepts, List.filter_cons_of_neg (by simpa using haccepts)]

/-- The rows left out are noted in order, after those noted before. -/
theorem skipped_foldl_addRow (rows : Rows) (t : TruthTable) :
    (rows.foldl (addRow inputCount outputCount) t).skipped =
      t.skipped ++ (rows.filter fun row => ¬ Accepts inputCount outputCount row).map
        (refusal inputCount) := by
  induction rows generalizing t with
  | nil => exact (List.append_nil _).symm
  | cons row rows ih =>
    rw [List.foldl_cons, ih]
    by_cases haccepts : Accepts inputCount outputCount row
    · rw [addRow_of_accepts haccepts, List.filter_cons_of_neg (by simpa using haccepts)]
    · rw [addRow_of_refused haccepts, List.filter_cons_of_pos (by simpa using haccepts),
        List.map_cons, List.append_assoc, List.singleton_append]

/-- The name and the number of inputs stay as they are. -/
theorem foldl_addRow_frame (rows : Rows) (t : TruthTable) :
    (rows.foldl (addRow inputCount outputCount) t).name = t.name ∧
      (rows.foldl (addRow inputCount outputCount) t).inputCount = t.inputCount := by
  induction rows generalizing t with
  | nil => exact ⟨rfl, rfl⟩
  | cons row rows ih =>
    rw [List.foldl_cons]
    obtain ⟨hname, hcount⟩ := ih (addRow inputCount outputCount t row)
    rw [hname, hcount]
    by_cases haccepts : Accepts inputCount outputCount row
    · rw [addRow_of_accepts haccepts]
      exact ⟨rfl, rfl⟩
    · rw [addRow_of_refused haccepts]
      exact ⟨rfl, rfl⟩

/-- Rows with distinct keys write distinct entries. -/
theorem nodup_entries {rows : Rows} (hkeys : (rows.map Prod.fst).Nodup) :
    ((rows.filter fun row => Accepts inputCount outputCount row).map fun row =>
      entry row.1).Nodup := by
  have hdistinct : (rows.filter fun row => Accepts inputCount outputCount row).Pairwise
      fun row row' => row.1 ≠ row'.1 :=
    (List.pairwise_map.mp hkeys).filter _
  refine List.pairwise_map.mpr (hdistinct.imp_of_mem fun {row row'} hrow hrow' hne heq => hne ?_)
  exact entry_inj (of_decide_eq_true (List.mem_filter.mp hrow).2).1
    (of_decide_eq_true (List.mem_filter.mp hrow').2).1 heq

/-! ## 5. The gate of a definition -/

/-- A table answers what the rows of a definition say. -/
structure Tabulates (d : Definition) (rows : Rows) (t : TruthTable) : Prop where
  /-- one signal for each input: the outputs of the row for them, or all low, with a note on each
      row left out -/
  answers : ∀ (instant : Instant) (inputs : List Bool), inputs.length = d.inputs.length →
    (Expansion.table t).react instant inputs = .ok {
      outputs := (lookup? d.outputs.length rows inputs).getD
        (List.replicate d.outputs.length false)
      notes := t.skipped.map fun reason => s!"in {d.name}, {reason}" }
  /-- any other number of signals is a fault -/
  refuses : ∀ (instant : Instant) (inputs : List Bool), inputs.length ≠ d.inputs.length →
    (Expansion.table t).react instant inputs =
      .error (.arity .custom d.inputs.length inputs.length)
  /-- the rows left out are those whose key or value is not a pattern of the pins -/
  skipped : t.skipped =
    (rows.filter fun row => ¬ Accepts d.inputs.length d.outputs.length row).map
      (refusal d.inputs.length)
  /-- the table is all low but for what the other rows write -/
  written : t.columns =
    (rows.filter fun row => Accepts d.inputs.length d.outputs.length row).foldl writeRow
      (List.replicate d.outputs.length 0)
  /-- no two of these rows write the same entry -/
  entries : ((rows.filter fun row => Accepts d.inputs.length d.outputs.length row).map fun row =>
    entry row.1).Nodup

/-- The table of a definition before its first row. -/
def blankTable (d : Definition) : TruthTable :=
  { name := d.name
    inputCount := d.inputs.length
    columns := List.replicate d.outputs.length 0
    skipped := [] }

/-- The rows of a definition make a table that answers what they say. -/
theorem tabulates_foldl_addRow (d : Definition) {rows : Rows}
    (hkeys : (rows.map Prod.fst).Nodup) :
    d.Tabulates rows (rows.foldl (addRow d.inputs.length d.outputs.length) d.blankTable) := by
  have hlow : ∀ i, d.blankTable.columns.map (·.testBit i) =
      List.replicate d.outputs.length false := fun i => by
    rw [blankTable, List.map_replicate, Nat.zero_testBit]
  obtain ⟨hname, hcount⟩ : _ ∧ _ := foldl_addRow_frame rows d.blankTable
  refine ⟨fun instant inputs hinputs => ?_, fun instant inputs hinputs => ?_,
    skipped_foldl_addRow rows _, columns_foldl_addRow rows _, nodup_entries hkeys⟩
  · rw [Expansion.react, Expansion.fold_table, TruthTable.evaluate, hname, hcount,
      show checkArity d.blankTable.inputCount inputs = .ok () from if_pos hinputs,
      read_foldl_addRow hkeys List.length_replicate hinputs, hlow]
    rfl
  · rw [Expansion.react, Expansion.fold_table, TruthTable.evaluate, hcount,
      show checkArity d.blankTable.inputCount inputs =
        .error (.arity .custom d.inputs.length inputs.length) from if_neg hinputs]
    rfl

/-- **Compiled tables are lookups.** The gate of a definition without a circuit answers with the row
    whose key is the pattern of its inputs, or low; it leaves out exactly the malformed rows, and no
    two others write the same entry. With more than sixteen inputs there is no gate. -/
theorem compile_rows {d : Definition} {rows : Rows} (deepest levels : Nat)
    (hcircuit : d.body.circuit = none) (hrows : d.body.rows = some rows)
    (hkeys : (rows.map Prod.fst).Nodup) :
    (d.inputs.length ≤ 16 →
      ∃ t, d.compile deepest (levels + 1) = .ok (.table t) ∧ d.Tabulates rows t) ∧
    (16 < d.inputs.length → ∃ reason, d.compile deepest levels = .error reason) := by
  have hcompile : ∀ levels, d.compile deepest (levels + 1) = (d.linkTable rows).map .table :=
    fun levels => by rw [compile, hcircuit, hrows]
  constructor
  · intro hfew
    refine ⟨_, ?_, tabulates_foldl_addRow d hkeys⟩
    rw [hcompile, linkTable, if_neg (show ¬ d.inputs.length > maxTableInputs from Nat.not_lt.mpr hfew)]
    rfl
  · intro hmany
    cases levels with
    | zero => exact ⟨_, rfl⟩
    | succ levels =>
      rw [hcompile, linkTable, if_pos (show d.inputs.length > maxTableInputs from hmany)]
      exact ⟨_, rfl⟩

/-- The row of an `AND` gate, after a row with a malformed value and one with a malformed key. -/
def patchyRows : Rows := [("01", "10"), ("1", "1"), ("11", "1")]

/-- A definition by `patchyRows` with so many inputs. -/
def patchyAnd (inputCount : Nat) : Definition :=
  .mk { name := "AND"
        inputs := List.replicate inputCount { name := "A" }
        outputs := [{ name := "X" }]
        rows := some patchyRows }

/-- With two inputs the one row is found, a malformed row and a missing one give low, and the
    malformed rows are left out; with seventeen inputs there is no gate. -/
theorem compile_patchyAnd :
    (∃ t, (patchyAnd 2).compile 16 16 = .ok (.table t) ∧
      t.skipped.length = 2 ∧
      ∀ instant, ∀ inputs ∈ [[true, true], [false, true], [false, false]],
        ((Expansion.table t).react instant inputs).toOption.map (·.outputs) =
          some [inputs == [true, true]]) ∧
    ∃ reason, (patchyAnd 17).compile 16 16 = .error reason := by
  have hordered : patchyRows.Ordered := by decide
  have hkeys : (patchyRows.map Prod.fst).Nodup := hordered.nodup_keys
  constructor
  · obtain ⟨t, ht, htable⟩ := (compile_rows (d := patchyAnd 2) 16 15 rfl rfl hkeys).1 (by decide)
    refine ⟨t, ht, by rw [htable.skipped]; decide, fun instant inputs hinputs => ?_⟩
    have hlookup : ∀ inputs ∈ [[true, true], [false, true], [false, false]],
        inputs.length = 2 ∧
          (lookup? 1 patchyRows inputs).getD [false] = [inputs == [true, true]] := by decide
    obtain ⟨hlength, houtputs⟩ := hlookup inputs hinputs
    rw [htable.answers instant inputs hlength]
    exact congrArg some houtputs
  · exact (compile_rows (d := patchyAnd 17) 16 16 rfl rfl hkeys).2 (by decide)

end Definition

end LogicSim
