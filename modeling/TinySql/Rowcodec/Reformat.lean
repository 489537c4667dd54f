import TinySql.Rowcodec.Encoder
import TinySql.Lib.Slices

/-!
# Placing and sorting the columns of a small row

What `reformatCols` in `util/rowcodec/encoder.go` makes of a small row. Its loop writes each
not-null column's ID and value at the next place from the front and each NULL column's ID at the
next place from `numCols - numNullCols`; `Placed` is what the loop has done after a prefix of the
columns, one step keeps it, and the run lemma `Placed.foldlM` carries it over all of them. The two
sorts then order the not-null IDs, each with its value, and the NULL IDs after them.
-/

namespace TinySql.Rowcodec

open TinySql.Lib TinySql.Types

/-- The byte `reformatCols` keeps a column ID of a small row as, `byte(colID)`. -/
def idByte (colID : Int64) : Fin 256 := Fin.ofNat 256 colID.toUInt64.toNat

/-- The not-null columns of a row, in the order given. -/
def notNullCols (cols : List (Int64 × Datum)) : List (Int64 × Datum) := cols.filter (·.2 != .null)

/-- The NULL columns of a row, in the order given. -/
def nullCols (cols : List (Int64 × Datum)) : List (Int64 × Datum) := cols.filter (·.2 == .null)

section Split

variable {p : List (Int64 × Datum)} {col : Int64 × Datum}

theorem notNullCols_append_of_null (h : col.2 = .null) : notNullCols (p ++ [col]) = notNullCols p := by
  simp [notNullCols, h]

theorem nullCols_append_of_null (h : col.2 = .null) : nullCols (p ++ [col]) = nullCols p ++ [col] := by
  simp [nullCols, h]

theorem notNullCols_append_of_ne (h : col.2 ≠ .null) : notNullCols (p ++ [col]) = notNullCols p ++ [col] := by
  simp [notNullCols, h]

theorem nullCols_append_of_ne (h : col.2 ≠ .null) : nullCols (p ++ [col]) = nullCols p := by
  simp [nullCols, h]

theorem length_notNullCols_append (l₁ l₂ : List (Int64 × Datum)) :
    (notNullCols (l₁ ++ l₂)).length = (notNullCols l₁).length + (notNullCols l₂).length := by
  simp [notNullCols]

theorem length_nullCols_append (l₁ l₂ : List (Int64 × Datum)) :
    (nullCols (l₁ ++ l₂)).length = (nullCols l₁).length + (nullCols l₂).length := by
  simp [nullCols]

theorem length_notNullCols_add_length_nullCols (cols : List (Int64 × Datum)) :
    (notNullCols cols).length + (nullCols cols).length = cols.length := by
  rw [List.length_eq_length_filter_add (fun c : Int64 × Datum => c.2 == .null) (l := cols), Nat.add_comm]
  rfl

end Split

/-- The not-null columns as `reformatCols` sorts them: by the byte of the ID, each with its value. -/
def sortedNotNull (cols : List (Int64 × Datum)) : List (Fin 256 × Datum) :=
  ((notNullCols cols).map fun c => (idByte c.1, c.2)).insertionSort fun a b => a.1 ≤ b.1

theorem Row.setColID_of_small {r : Row} (hsmall : r.large = false) (i : Nat) (colID : Int64) :
    r.setColID i colID = (fun s => { r with colIDs := s }) <$> orPanic (r.colIDs.set? i (idByte colID)) := by
  rw [Row.setColID, if_neg (by simp [hsmall])]
  rfl

/-- What the loop of `reformatCols` has done after the columns `p` on a small row: the not-null IDs
and values of `p` at the front, its NULL IDs from `start` on, and the rest as it was. -/
structure Placed (r₀ : Row) (values₀ : List Datum) (start : Nat) (p : List (Int64 × Datum))
    (st : Placing) : Prop where
  row_eq : st.row = { r₀ with colIDs := st.row.colIDs }
  len_eq : st.row.colIDs.len = r₀.colIDs.len
  ids_eq : ∀ j, st.row.colIDs.toList[j]? =
    if j < (notNullCols p).length then ((notNullCols p).map (idByte ·.1))[j]?
    else if start ≤ j ∧ j < start + (nullCols p).length then ((nullCols p).map (idByte ·.1))[j - start]?
    else r₀.colIDs.toList[j]?
  values_length : st.values.length = values₀.length
  values_eq : ∀ j, st.values[j]? =
    if j < (notNullCols p).length then ((notNullCols p).map (·.2))[j]? else values₀[j]?
  nullIdx_eq : st.nullIdx = start + (nullCols p).length
  notNullIdx_eq : st.notNullIdx = (notNullCols p).length

theorem Row.with_colIDs_eq {s r₀ : Row} (h : s = { r₀ with colIDs := s.colIDs }) (ids : GoSlice (Fin 256)) :
    { s with colIDs := ids } = { r₀ with colIDs := ids } := by
  rw [h]

theorem placed_nil (r₀ : Row) (values₀ : List Datum) (start : Nat) :
    Placed r₀ values₀ start [] ⟨r₀, values₀, start, 0⟩ :=
  ⟨rfl, rfl, fun j => by simp [notNullCols, nullCols], rfl, fun j => by simp [notNullCols], by simp [nullCols], rfl⟩

theorem Placed.step {r₀ : Row} {values₀ : List Datum} {start : Nat} {p : List (Int64 × Datum)}
    {st : Placing} (h : Placed r₀ values₀ start p st) (hsmall : r₀.large = false) (col : Int64 × Datum)
    (hnn : (notNullCols (p ++ [col])).length ≤ start)
    (hnull : start + (nullCols (p ++ [col])).length ≤ r₀.colIDs.len)
    (hvals : (notNullCols (p ++ [col])).length ≤ values₀.length) :
    ∃ st', placeCol st col = .ok st' ∧ Placed r₀ values₀ start (p ++ [col]) st' := by
  have hlarge : st.row.large = false := by rw [h.row_eq]; exact hsmall
  by_cases hd : col.2 = .null
  · -- a NULL column: its ID goes to `nullIdx`
    rw [nullCols_append_of_null hd] at hnull
    rw [notNullCols_append_of_null hd] at hnn hvals
    obtain ⟨ids, hset, hl, hlen⟩ := GoSlice.set?_of_lt (s := st.row.colIDs) (i := st.nullIdx)
      (by rw [h.nullIdx_eq, h.len_eq]; simp at hnull; omega) (idByte col.1)
    refine ⟨⟨{ st.row with colIDs := ids }, st.values, st.nullIdx + 1, st.notNullIdx⟩, ?_, ?_⟩
    · simp only [placeCol, hd, if_true, Row.setColID_of_small hlarge, hset, orPanic, bind, Except.bind,
        Functor.map, Except.map, pure, Except.pure]
    · refine ⟨Row.with_colIDs_eq h.row_eq ids, hlen.trans h.len_eq, fun j => ?_, h.values_length,
        fun j => by rw [notNullCols_append_of_null hd]; exact h.values_eq j,
        by rw [nullCols_append_of_null hd, h.nullIdx_eq]; simp [Nat.add_assoc],
        by rw [notNullCols_append_of_null hd]; exact h.notNullIdx_eq⟩
      -- the round wrote `nullIdx`, the first place after the NULL IDs so far
      have hi : start + (nullCols p).length < st.row.colIDs.toList.length := by
        rw [GoSlice.length_toList, h.len_eq]; simp at hnull; omega
      simp only
      rw [hl, List.getElem?_set, h.ids_eq j, notNullCols_append_of_null hd, nullCols_append_of_null hd,
        h.nullIdx_eq]
      by_cases hj : start + (nullCols p).length = j
      · subst hj
        rw [if_pos rfl, if_pos hi, if_neg (by omega), if_pos (by simp), List.map_append,
          List.getElem?_append_right (by simp), List.length_map, Nat.add_sub_cancel_left, Nat.sub_self]
        rfl
      · rw [if_neg hj]
        by_cases hnn' : j < (notNullCols p).length
        · simp only [if_pos hnn']
        · simp only [if_neg hnn', List.length_append, List.length_singleton, List.map_append]
          by_cases hin : start ≤ j ∧ j < start + (nullCols p).length
          · rw [if_pos hin, if_pos (by omega), List.getElem?_append_left (by simp; omega)]
          · rw [if_neg hin, if_neg (by omega)]
  · -- a not-null column: its ID and value go to `notNullIdx`
    rw [nullCols_append_of_ne hd] at hnull
    rw [notNullCols_append_of_ne hd] at hnn hvals
    simp only [List.length_append, List.length_singleton] at hnn hvals
    have hi : (notNullCols p).length < st.row.colIDs.toList.length := by
      rw [GoSlice.length_toList, h.len_eq]; omega
    obtain ⟨ids, hset, hl, hlen⟩ := GoSlice.set?_of_lt (s := st.row.colIDs) (i := st.notNullIdx)
      (by rw [h.notNullIdx_eq]; simpa using hi) (idByte col.1)
    refine ⟨⟨{ st.row with colIDs := ids }, st.values.set st.notNullIdx col.2, st.nullIdx, st.notNullIdx + 1⟩,
      ?_, ?_⟩
    · simp only [placeCol, hd, if_false, Row.setColID_of_small hlarge, hset, orPanic, bind, Except.bind,
        Functor.map, Except.map, pure, Except.pure]
    · refine ⟨Row.with_colIDs_eq h.row_eq ids, hlen.trans h.len_eq, fun j => ?_,
        by simp [h.values_length], fun j => ?_,
        by rw [nullCols_append_of_ne hd]; exact h.nullIdx_eq,
        by rw [notNullCols_append_of_ne hd, h.notNullIdx_eq]; simp⟩
      -- both the ID and the value are written right after the not-null ones so far
      · simp only [hl, notNullCols_append_of_ne hd, nullCols_append_of_ne hd, h.notNullIdx_eq,
          List.length_append, List.length_singleton, List.map_append, List.map_cons, List.map_nil]
        exact getElem?_set_of_prefix (by simp) hi h.ids_eq (idByte col.1) j
      · simp only [notNullCols_append_of_ne hd, h.notNullIdx_eq, List.length_append,
          List.length_singleton, List.map_append, List.map_cons, List.map_nil]
        exact getElem?_set_of_prefix (by simp) (by rw [h.values_length]; omega) h.values_eq col.2 j

section Full

variable {r₀ : Row} {values₀ : List Datum} {cols : List (Int64 × Datum)} {st : Placing}

/-- Once every column is placed, the not-null IDs fill the front and the NULL IDs the rest. -/
theorem Placed.ids_of_all (h : Placed r₀ values₀ (notNullCols cols).length cols st)
    (hlen : (notNullCols cols).length + (nullCols cols).length = r₀.colIDs.len) :
    st.row.colIDs.toList = (notNullCols cols).map (idByte ·.1) ++ (nullCols cols).map (idByte ·.1) := by
  apply List.ext_getElem?
  intro j
  rw [h.ids_eq j]
  by_cases hnn : j < (notNullCols cols).length
  · rw [if_pos hnn, List.getElem?_append_left (by simpa using hnn)]
  · rw [if_neg hnn, List.getElem?_append_right (by simpa using hnn), List.length_map]
    by_cases hnull : (notNullCols cols).length ≤ j ∧ j < (notNullCols cols).length + (nullCols cols).length
    · rw [if_pos hnull]
    · rw [if_neg hnull, List.getElem?_eq_none (by simp; omega), List.getElem?_eq_none (by simp; omega)]

/-- Once every column is placed, the not-null values fill the front. -/
theorem Placed.values_take_of_all (h : Placed r₀ values₀ (notNullCols cols).length cols st) :
    st.values.take (notNullCols cols).length = (notNullCols cols).map (·.2) := by
  apply List.ext_getElem?
  intro j
  rw [List.getElem?_take]
  by_cases hj : j < (notNullCols cols).length
  · rw [if_pos hj, h.values_eq j, if_pos hj]
  · rw [if_neg hj, List.getElem?_eq_none (by simpa using hj)]

end Full

section Sorting

variable {κ : Type} [LE κ] [DecidableRel (α := κ) (· ≤ ·)]

/-- Sorting the not-null part puts its IDs in order at the front, each value with its ID. -/
theorem sortNotNull_eq (ids : GoSlice κ) (values : List Datum) {n : Nat} (hn : n ≤ ids.len)
    (hv : n ≤ values.length) :
    ∃ ids', sortNotNull ids values n =
        .ok (ids', (((ids.toList.take n).zip (values.take n)).insertionSort fun a b => a.1 ≤ b.1).map
          Prod.snd ++ values.drop n) ∧
      ids'.len = ids.len ∧
      ids'.toList = (((ids.toList.take n).zip (values.take n)).insertionSort fun a b => a.1 ≤ b.1).map
        Prod.fst ++ ids.toList.drop n := by
  have hlen : (((ids.toList.take n).zip (values.take n)).insertionSort fun a b => a.1 ≤ b.1).length = n := by
    rw [List.length_insertionSort, List.length_zip, List.length_take, List.length_take, GoSlice.length_toList]
    omega
  obtain ⟨ids', hcopy, hl, hids⟩ := GoSlice.copyInto_eq Prod.fst
    (.ofList (((ids.toList.take n).zip (values.take n)).insertionSort fun a b => a.1 ≤ b.1)) ids
    (show n ≤ (GoSlice.ofList _).len by simp [hlen]) (show 0 + n ≤ ids.len by omega)
  refine ⟨ids', ?_, hl, ?_⟩
  · simp only [sortNotNull, hcopy, orPanic, bind, Except.bind, pure, Except.pure]
  · rw [hids, List.take_zero, List.nil_append, Nat.zero_add, GoSlice.toList_ofList,
      List.take_of_length_le (by omega)]

/-- Sorting the NULL part puts its IDs in order after the not-null ones. -/
theorem sortNull_eq (ids : GoSlice κ) {off n : Nat} (h : off + n ≤ ids.len) :
    ∃ ids', sortNull ids off n = .ok ids' ∧ ids'.len = ids.len ∧
      ids'.toList = ids.toList.take off ++ ((ids.toList.drop off).take n).insertionSort (· ≤ ·) ++
        ids.toList.drop (off + n) := by
  have hlen : (((ids.toList.drop off).take n).insertionSort (· ≤ ·)).length = n := by
    rw [List.length_insertionSort, List.length_take, List.length_drop, GoSlice.length_toList]
    omega
  obtain ⟨ids', hcopy, hl, hids⟩ := GoSlice.copyInto_eq id
    (.ofList (((ids.toList.drop off).take n).insertionSort (· ≤ ·))) ids
    (show n ≤ (GoSlice.ofList _).len by simp [hlen]) (show off + n ≤ ids.len from h)
  refine ⟨ids', ?_, hl, ?_⟩
  · simp only [sortNull, if_neg (show ¬ ids.len < off by omega), hcopy, orPanic, bind, Except.bind]
  · rw [hids, GoSlice.toList_ofList, List.take_of_length_le (l := List.insertionSort _ _) (by omega),
      List.map_id]

end Sorting

/-- The whole loop, by induction on the columns still to place. -/
theorem Placed.foldlM {r₀ : Row} {values₀ : List Datum} {start : Nat} (hsmall : r₀.large = false) :
    ∀ (rest p : List (Int64 × Datum)) (st : Placing), Placed r₀ values₀ start p st →
      (notNullCols (p ++ rest)).length ≤ start → start + (nullCols (p ++ rest)).length ≤ r₀.colIDs.len →
      (notNullCols (p ++ rest)).length ≤ values₀.length →
      ∃ st', rest.foldlM placeCol st = .ok st' ∧ Placed r₀ values₀ start (p ++ rest) st'
  | [], p, st, h, _, _, _ => ⟨st, rfl, by simpa using h⟩
  | col :: rest, p, st, h, hnn, hnull, hvals => by
    have hsplit : p ++ col :: rest = p ++ [col] ++ rest := by simp
    rw [hsplit, length_notNullCols_append] at hnn hvals
    rw [hsplit, length_nullCols_append] at hnull
    obtain ⟨st₁, hstep, h₁⟩ := h.step hsmall col (by omega) (by omega) (by omega)
    obtain ⟨st₂, hrest, h₂⟩ := Placed.foldlM hsmall rest (p ++ [col]) st₁ h₁
      (by rw [length_notNullCols_append]; omega) (by rw [length_nullCols_append]; omega)
      (by rw [length_notNullCols_append]; omega)
    refine ⟨st₂, ?_, by rwa [hsplit]⟩
    rw [List.foldlM_cons, hstep]
    exact hrest

namespace Encoder

/-- `reformatCols` on a small row of fewer than 65536 columns whose counts are right: the IDs
are the sorted not-null ones and then the sorted NULL ones, and the values of the not-null ones
come first, in the same order. -/
theorem reformatCols_of_small (e : Encoder) (hlarge : e.row.large = false)
    (hlen : e.tempColIDs.length = e.values.length) (hcount : e.tempColIDs.length < 65536)
    (hnn : e.row.numNotNullCols.toNat = (notNullCols (e.tempColIDs.zip e.values)).length)
    (hnull : e.row.numNullCols.toNat = (nullCols (e.tempColIDs.zip e.values)).length) :
    ∃ ids values, e.reformatCols = .ok (⟨{ e.row with
          colIDs := ids
          offsets := e.row.offsets.reuse e.row.numNotNullCols.toNat }, e.tempColIDs, values⟩,
        e.tempColIDs.length, e.row.numNotNullCols.toNat) ∧
      ids.len = e.tempColIDs.length ∧
      ids.toList = (sortedNotNull (e.tempColIDs.zip e.values)).map Prod.fst ++
        ((nullCols (e.tempColIDs.zip e.values)).map (idByte ·.1)).insertionSort (· ≤ ·) ∧
      values.take e.row.numNotNullCols.toNat = (sortedNotNull (e.tempColIDs.zip e.values)).map Prod.snd ∧
      values.length = e.values.length := by
  set cols := e.tempColIDs.zip e.values with hcols
  have hcols_len : cols.length = e.tempColIDs.length := by simp [cols, hlen]
  have hsplit := length_notNullCols_add_length_nullCols cols
  have hsum : (e.row.numNotNullCols + e.row.numNullCols).toNat = e.tempColIDs.length := by
    rw [UInt16.toNat_add, hnn, hnull, hsplit, hcols_len, Nat.mod_eq_of_lt hcount]
  -- the row the loop starts from
  set r := e.row.initColIDs.initOffsets with hr
  have hr_large : r.large = false := hlarge
  have hr_len : r.colIDs.len = e.tempColIDs.length := by simp [r, Row.initOffsets, Row.initColIDs, hsum]
  have hstart : e.tempColIDs.length - e.row.numNullCols.toNat = (notNullCols cols).length := by omega
  obtain ⟨st, hfold, hst⟩ := Placed.foldlM hr_large cols [] ⟨r, e.values, (notNullCols cols).length, 0⟩
    (placed_nil r e.values (notNullCols cols).length) (by simp) (by simp; omega) (by simp; omega)
  rw [List.nil_append] at hst
  -- what the loop leaves: the IDs in place, the not-null values at the front
  have hX := hst.ids_of_all (by rw [hr_len]; omega)
  have hV := hst.values_take_of_all
  have hrow := hst.row_eq
  have hst_large : st.row.large = false := by rw [hrow]; exact hr_large
  have hst_nn : st.row.numNotNullCols = e.row.numNotNullCols := by rw [hrow]; rfl
  have hst_null : st.row.numNullCols = e.row.numNullCols := by rw [hrow]; rfl
  have hzip : (st.row.colIDs.toList.take e.row.numNotNullCols.toNat).zip
      (st.values.take e.row.numNotNullCols.toNat) = (notNullCols cols).map fun c => (idByte c.1, c.2) := by
    rw [hX, hnn, List.take_left' (by simp), hV, List.zip_map']
  obtain ⟨ids₁, hsort, hlen₁, hids₁⟩ := sortNotNull_eq st.row.colIDs st.values
    (show e.row.numNotNullCols.toNat ≤ st.row.colIDs.len by rw [hst.len_eq, hr_len]; omega)
    (show e.row.numNotNullCols.toNat ≤ st.values.length by rw [hst.values_length]; omega)
  have hsorted : (((notNullCols cols).map fun c => (idByte c.1, c.2)).insertionSort
      fun a b => a.1 ≤ b.1) = sortedNotNull cols := rfl
  rw [hzip, hsorted] at hsort hids₁
  have hdrop : st.row.colIDs.toList.drop e.row.numNotNullCols.toNat =
      (nullCols cols).map (idByte ·.1) := by
    rw [hX, hnn, List.drop_left' (by simp)]
  rw [hdrop] at hids₁
  -- the NULL IDs after them are sorted in place, when there are any
  obtain ⟨ids₂, hsort₂, hlen₂, hids₂⟩ : ∃ ids₂,
      (if e.row.numNullCols > 0 then sortNull ids₁ e.row.numNotNullCols.toNat e.row.numNullCols.toNat
        else pure ids₁) = .ok ids₂ ∧ ids₂.len = e.tempColIDs.length ∧
      ids₂.toList = (sortedNotNull cols).map Prod.fst ++
        ((nullCols cols).map (idByte ·.1)).insertionSort (· ≤ ·) := by
    have hlen_fst : ((sortedNotNull cols).map Prod.fst).length = e.row.numNotNullCols.toNat := by
      simp [sortedNotNull, hnn]
    by_cases hz : e.row.numNullCols > 0
    · obtain ⟨ids₂, h₂, hl₂, hi₂⟩ := sortNull_eq ids₁
        (show e.row.numNotNullCols.toNat + e.row.numNullCols.toNat ≤ ids₁.len by
          rw [hlen₁, hst.len_eq, hr_len]; omega)
      refine ⟨ids₂, by rw [if_pos hz, h₂], by rw [hl₂, hlen₁, hst.len_eq, hr_len], ?_⟩
      have hlen_null : ((nullCols cols).map (idByte ·.1)).length = e.row.numNullCols.toNat := by
        rw [List.length_map, hnull]
      rw [hi₂, hids₁, List.take_left' hlen_fst, List.drop_left' hlen_fst,
        List.take_of_length_le hlen_null.le,
        List.drop_eq_nil_of_le (by rw [List.length_append, hlen_fst, hlen_null]), List.append_nil]
    · have hnil : nullCols cols = [] := by
        rw [← List.length_eq_zero_iff, ← hnull]
        simpa [UInt16.lt_iff_toNat_lt] using hz
      refine ⟨ids₁, if_neg hz, by rw [hlen₁, hst.len_eq, hr_len], ?_⟩
      rw [hids₁, hnil]
      simp [sortedNotNull]
  refine ⟨ids₂, (sortedNotNull cols).map Prod.snd ++ st.values.drop e.row.numNotNullCols.toNat, ?_,
    hlen₂, hids₂, ?_, ?_⟩
  · rw [reformatCols]
    simp only [hlarge, Bool.false_eq_true, if_false, hstart]
    rw [← hr, hfold]
    obtain ⟨h_off, h_data, h_ids32, h_off32⟩ : st.row.offsets = e.row.offsets.reuse e.row.numNotNullCols.toNat ∧
        st.row.data = e.row.data ∧ st.row.colIDs32 = e.row.colIDs32 ∧ st.row.offsets32 = e.row.offsets32 := by
      rw [hrow]
      exact ⟨rfl, rfl, rfl, rfl⟩
    simp only [bind, Except.bind, hst_large, Bool.false_eq_true, if_false, hst_nn, hst_null, hsort,
      hst.notNullIdx_eq, ← hnn, h_off, h_data, h_ids32, h_off32]
    -- the NULL IDs are sorted only when there are some
    split_ifs at hsort₂ ⊢
    · rw [hsort₂]
      rfl
    · cases hsort₂
      rfl
  · exact List.take_left' (by simp [sortedNotNull, hnn])
  · have hsv := hst.values_length
    simp only [List.length_append, List.length_map, List.length_drop, sortedNotNull,
      List.length_insertionSort] at hsv ⊢
    omega

end Encoder

end TinySql.Rowcodec
