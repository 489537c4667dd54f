import TinySql.Rowcodec.Row

/-!
# The row encoder

`Encoder.Encode` in `util/rowcodec/encoder.go` gathers the columns (`appendColVal`), places their
IDs, not-null ones first, into the ID slice of the layout and sorts both parts (`reformatCols`),
and then appends each not-null value to `data` with its end as its offset (`encodeRowCols`). The
row starts small unless an ID is above 255; the loop turns it large when `data` passes 65535
bytes, and the fix-up after the loop turns it large when `data` has at least 65535 bytes, or else
copies `offsets32` over `offsets`.

A session keeps one `Encoder` for every row it writes (`SessionVars.RowEncoder`), and `reset`
clears only the counts, `data` and the gathered columns: the four slices of the row keep their
arrays, so what one call writes depends on the calls before it. The model threads the encoder
through `encode` to say so.
-/

namespace TinySql.Rowcodec

open TinySql.Lib TinySql.Types

/-- `EncodeValueDatum`. Each kind of datum of the model has its case: an integer as `encodeInt` or
`encodeUint` writes it, a string as its bytes, a float as `codec.EncodeFloat` writes it, and nothing
for `NULL` and the two bounds. The binary literals and the kinds that end in "unsupport encode type"
are not datums of the model. -/
def encodeValueDatum (d : Datum) (buffer : List (Fin 256)) : List (Fin 256) :=
  match d with
  | .int64 i => encodeInt buffer i
  | .uint64 u => encodeUint buffer u
  | .bytes b => buffer ++ b
  | .float32 f | .float64 f => buffer ++ Codec.encodeFloat f
  | .null | .minNotNull | .maxValue => buffer

/-- `Encoder`. -/
structure Encoder where
  row : Row
  tempColIDs : List Int64
  values : List Datum

/-- `colIDs32[i] = uint32(colID)` or `colIDs[i] = byte(colID)`, in the layout in use. -/
def Row.setColID (r : Row) (i : Nat) (colID : Int64) : Except String Row :=
  if r.large then
    (fun s => { r with colIDs32 := s }) <$> orPanic (r.colIDs32.set? i colID.toUInt64.toUInt32)
  else
    (fun s => { r with colIDs := s }) <$> orPanic (r.colIDs.set? i (Fin.ofNat 256 colID.toUInt64.toNat))

/-- What the loop of `reformatCols` carries: the row, the values, and the next places of a NULL and
of a not-null column. -/
structure Placing where
  row : Row
  values : List Datum
  nullIdx : Nat
  notNullIdx : Nat

/-- One round of the loop of `reformatCols`: a NULL column's ID goes to the next place after the
not-null ones, a not-null column's ID and value to the next place from the start. The value at
`notNullIdx` has been read already, since `notNullIdx` is at most the round's index. -/
def placeCol (st : Placing) (col : Int64 × Datum) : Except String Placing :=
  if col.2 = .null then do
    let row ← st.row.setColID st.nullIdx col.1
    return { st with row := row, nullIdx := st.nullIdx + 1 }
  else do
    let row ← st.row.setColID st.notNullIdx col.1
    return { st with row := row, values := st.values.set st.notNullIdx col.2, notNullIdx := st.notNullIdx + 1 }

/-- `sort.Sort` with `smallNotNullSorter` or `largeNotNullSorter`: the first `n` IDs by ID, each
value moving with its ID. `sort.Sort` is not stable; on the distinct IDs of a row every sort gives
this order. -/
def sortNotNull {κ : Type} [LE κ] [DecidableRel (α := κ) (· ≤ ·)] (ids : GoSlice κ)
    (values : List Datum) (n : Nat) : Except String (GoSlice κ × List Datum) := do
  let sorted := ((ids.toList.take n).zip (values.take n)).insertionSort fun a b => a.1 ≤ b.1
  let ids ← orPanic (GoSlice.copyInto Prod.fst (.ofList sorted) n 0 ids)
  return (ids, sorted.map Prod.snd ++ values.drop n)

/-- `sort.Sort` with `smallNullSorter` or `largeNullSorter`: the `n` IDs of `ids[off:]` by ID. -/
def sortNull {κ : Type} [LE κ] [DecidableRel (α := κ) (· ≤ ·)] (ids : GoSlice κ) (off n : Nat) :
    Except String (GoSlice κ) := do
  if ids.len < off then throw errSliceBoundsOutOfRange
  let sorted := ((ids.toList.drop off).take n).insertionSort (· ≤ ·)
  orPanic (GoSlice.copyInto id (.ofList sorted) n off ids)

/-- The body of the loop of `encodeRowCols` for the `i`-th not-null value: its bytes go after
`data`, the row turns large once `data` passes 65535 bytes, copying the IDs and the offsets so far,
and the end of the value is the `i`-th offset. -/
def encodeCol (values : List Datum) (numCols : Nat) (r : Row) (i : Nat) : Except String Row := do
  let d ← orPanic values[i]?
  let r := { r with data := encodeValueDatum d r.data }
  -- handle convert to large
  let r ← if r.data.length > 65535 ∧ r.large = false then do
      let r := r.initColIDs32
      let colIDs32 ← orPanic (GoSlice.copyInto (fun b : Fin 256 => UInt32.ofNat b.val) r.colIDs numCols 0
        r.colIDs32)
      let r := { r with colIDs32 := colIDs32 }.initOffsets32
      let offsets32 ← orPanic (GoSlice.copyInto UInt16.toUInt32 r.offsets (i + 1) 0 r.offsets32)
      pure { r with offsets32 := offsets32, large := true }
    else pure r
  if r.large then
    (fun s => { r with offsets32 := s }) <$> orPanic (r.offsets32.set? i (UInt32.ofNat r.data.length))
  else
    (fun s => { r with offsets := s }) <$> orPanic (r.offsets.set? i (UInt16.ofNat r.data.length))

/-- The fix-up after the loop of `encodeRowCols`, on a row the loop left small. -/
def fixUpSmall (r : Row) : Except String Row :=
  if r.data.length ≥ 65535 then do
    let r := { r with large := true }.initColIDs32
    let colIDs32 ← orPanic (GoSlice.copyInto (fun b : Fin 256 => UInt32.ofNat b.val) r.colIDs r.colIDs.len 0
      r.colIDs32)
    return { r with colIDs32 := colIDs32 }
  else do
    let r := r.initOffsets
    let offsets ← orPanic (GoSlice.copyInto UInt32.toUInt16 r.offsets32 r.offsets32.len 0 r.offsets)
    return { r with offsets := offsets }

namespace Encoder

/-- A fresh `Encoder`, as a session holds it before its first row. -/
def zero : Encoder := ⟨.zero, [], []⟩

/-- `reset`. -/
def reset (e : Encoder) : Encoder :=
  { row := { e.row with large := false, numNotNullCols := 0, numNullCols := 0, data := [] }
    tempColIDs := []
    values := [] }

/-- `appendColVal`. -/
def appendColVal (e : Encoder) (colID : Int64) (d : Datum) : Encoder :=
  let r := if colID > 255 then { e.row with large := true } else e.row
  { row := if d = .null then { r with numNullCols := r.numNullCols + 1 }
      else { r with numNotNullCols := r.numNotNullCols + 1 }
    tempColIDs := e.tempColIDs ++ [colID]
    values := e.values ++ [d] }

/-- `appendColVals`: `values[i]` panics when there are fewer values than IDs. -/
def appendColVals (e : Encoder) : List Int64 → List Datum → Except String Encoder
  | [], _ => .ok e
  | _ :: _, [] => .error errIndexOutOfRange
  | colID :: colIDs, d :: values => (e.appendColVal colID d).appendColVals colIDs values

/-- `reformatCols`, with the number of columns and of not-null ones. -/
def reformatCols (e : Encoder) : Except String (Encoder × Nat × Nat) := do
  let numCols := e.tempColIDs.length
  let r := if e.row.large then e.row.initColIDs32.initOffsets32 else e.row.initColIDs.initOffsets
  let st ← (e.tempColIDs.zip e.values).foldlM placeCol
    ⟨r, e.values, numCols - e.row.numNullCols.toNat, 0⟩
  let r := st.row
  let nn := r.numNotNullCols.toNat
  if r.large then do
    let sorted ← sortNotNull r.colIDs32 st.values nn
    let ids ← if r.numNullCols > 0 then sortNull sorted.1 nn r.numNullCols.toNat else pure sorted.1
    return (⟨{ r with colIDs32 := ids }, e.tempColIDs, sorted.2⟩, numCols, st.notNullIdx)
  else do
    let sorted ← sortNotNull r.colIDs st.values nn
    let ids ← if r.numNullCols > 0 then sortNull sorted.1 nn r.numNullCols.toNat else pure sorted.1
    return (⟨{ r with colIDs := ids }, e.tempColIDs, sorted.2⟩, numCols, st.notNullIdx)

/-- `encodeRowCols`. -/
def encodeRowCols (e : Encoder) (numCols notNullIdx : Nat) : Except String Encoder := do
  let r ← (List.range notNullIdx).foldlM (encodeCol e.values numCols) e.row
  -- handle convert to large
  let r ← if r.large then pure r else fixUpSmall r
  return { e with row := r }

/-- `Encode`: the bytes of the row, and the encoder as the next call finds it. -/
def encode (e : Encoder) (colIDs : List Int64) (values : List Datum) :
    Except String (Encoder × List (Fin 256)) := do
  let e ← e.reset.appendColVals colIDs values
  let formatted ← e.reformatCols
  let e ← formatted.1.encodeRowCols formatted.2.1 formatted.2.2
  return (e, e.row.toBytes [])

/-! ### Gathering the columns -/

theorem appendColVal_null (e : Encoder) {c : Int64} (hc : ¬ c > 255) :
    e.appendColVal c .null =
      ⟨{ e.row with numNullCols := e.row.numNullCols + 1 }, e.tempColIDs ++ [c], e.values ++ [.null]⟩ := by
  simp [appendColVal, hc]

theorem appendColVal_of_ne_null (e : Encoder) {c : Int64} (hc : ¬ c > 255) {d : Datum} (hd : d ≠ .null) :
    e.appendColVal c d =
      ⟨{ e.row with numNotNullCols := e.row.numNotNullCols + 1 }, e.tempColIDs ++ [c], e.values ++ [d]⟩ := by
  simp [appendColVal, hc, hd]

/-- Gathering the columns of a row whose IDs fit a byte: the counts grow by the not-null and NULL
values, and the row stays as it was otherwise. -/
theorem appendColVals_of_small (e : Encoder) {colIDs : List Int64} {values : List Datum}
    (hlen : colIDs.length = values.length) (hsmall : ∀ c ∈ colIDs, ¬ c > 255) :
    e.appendColVals colIDs values = .ok
      ⟨{ e.row with
          numNotNullCols := e.row.numNotNullCols + UInt16.ofNat (values.countP (· != .null))
          numNullCols := e.row.numNullCols + UInt16.ofNat (values.count .null) },
        e.tempColIDs ++ colIDs, e.values ++ values⟩ := by
  induction colIDs generalizing e values with
  | nil =>
    obtain rfl : values = [] := List.eq_nil_of_length_eq_zero hlen.symm
    simp [appendColVals]
  | cons c cs ih =>
    obtain _ | ⟨d, ds⟩ := values
    · simp at hlen
    have hc : ¬ c > 255 := hsmall c (by simp)
    have hrest := fun e' => ih e' (show cs.length = ds.length by simpa using hlen)
      (fun c' hc' => hsmall c' (by simp [hc']))
    rw [appendColVals]
    by_cases hd : d = .null
    · subst hd
      rw [appendColVal_null e hc, hrest]
      simp only [Except.ok.injEq, Encoder.mk.injEq, Row.mk.injEq, List.append_assoc, List.cons_append,
        List.nil_append, List.countP_cons, List.count_cons_self, bne_self_eq_false, Bool.false_eq_true,
        if_false, Nat.add_zero, UInt16.ofNat_add, show UInt16.ofNat 1 = 1 from rfl, true_and, and_true]
      ac_rfl
    · rw [appendColVal_of_ne_null e hc hd, hrest]
      have hne : (d != .null) = true := by simpa using hd
      simp only [Except.ok.injEq, Encoder.mk.injEq, Row.mk.injEq, List.append_assoc, List.cons_append,
        List.nil_append, List.countP_cons, hne, if_true, List.count_cons, beq_iff_eq, hd, if_false,
        Nat.add_zero, UInt16.ofNat_add, show UInt16.ofNat 1 = 1 from rfl, true_and, and_true]
      ac_rfl

/-! ### The loop of `encodeRowCols` on a row that stays small -/

/-- The data after the first `k` not-null values. -/
def dataAfter (values : List Datum) (data : List (Fin 256)) (k : Nat) : List (Fin 256) :=
  data ++ (values.take k).flatMap (encodeValueDatum · [])

/-- The ends of the first `k` not-null values, the offsets the loop computes. -/
def valueEnds (values : List Datum) (data : List (Fin 256)) (k : Nat) : List Nat :=
  (List.range k).map fun j => (dataAfter values data (j + 1)).length

end Encoder

theorem encodeValueDatum_eq_append (d : Datum) (buffer : List (Fin 256)) :
    encodeValueDatum d buffer = buffer ++ encodeValueDatum d [] := by
  cases d <;> simp only [encodeValueDatum, encodeInt, encodeUint, List.nil_append, List.append_nil]
  all_goals split_ifs <;> rfl

namespace Encoder

theorem dataAfter_succ {values : List Datum} (data : List (Fin 256)) {k : Nat} (hk : k < values.length) :
    dataAfter values data (k + 1) = encodeValueDatum values[k] (dataAfter values data k) := by
  rw [dataAfter, dataAfter, List.take_add_one, List.getElem?_eq_getElem hk, Option.toList_some,
    List.flatMap_append, List.flatMap_singleton, ← List.append_assoc, ← encodeValueDatum_eq_append]

theorem length_dataAfter_le {values : List Datum} (data : List (Fin 256)) {k l : Nat} (hkl : k ≤ l) :
    (dataAfter values data k).length ≤ (dataAfter values data l).length := by
  obtain ⟨m, rfl⟩ := Nat.exists_eq_add_of_le hkl
  simp only [dataAfter, List.length_append, List.take_add, List.flatMap_append]
  omega

theorem valueEnds_succ (values : List Datum) (data : List (Fin 256)) (k : Nat) :
    valueEnds values data (k + 1) = valueEnds values data k ++ [(dataAfter values data (k + 1)).length] := by
  rw [valueEnds, valueEnds, List.range_succ, List.map_append, List.map_singleton]

/-- One round on a small row whose data stays within 65535 bytes: the value goes after `data` and
its end into `offsets[i]`, and nothing else changes. -/
theorem encodeCol_of_small {values : List Datum} (numCols : Nat) {r : Row} {i : Nat}
    (hi : i < values.length) (hlarge : r.large = false) (hoff : i < r.offsets.len)
    (hfit : (encodeValueDatum values[i] r.data).length ≤ 65535) :
    ∃ o, encodeCol values numCols r i = .ok { r with data := encodeValueDatum values[i] r.data, offsets := o } ∧
      o.len = r.offsets.len ∧
      o.toList = r.offsets.toList.set i (UInt16.ofNat (encodeValueDatum values[i] r.data).length) := by
  obtain ⟨o, ho, hl, hlen⟩ :=
    GoSlice.set?_of_lt hoff (UInt16.ofNat (encodeValueDatum values[i] r.data).length)
  refine ⟨o, ?_, hlen, hl⟩
  have hno : ¬ (encodeValueDatum values[i] r.data).length > 65535 := by omega
  simp only [encodeCol, List.getElem?_eq_getElem hi, orPanic, bind, Except.bind, hno, false_and,
    if_false, pure, Except.pure, hlarge, Bool.false_eq_true, ho, Functor.map, Except.map]

/-- The loop on a small row whose data stays within 65535 bytes: `data` gets the values, `offsets`
their ends, and nothing else changes. -/
theorem encodeCols_of_small (values : List Datum) (numCols : Nat) (r : Row) {k : Nat}
    (hk : k ≤ values.length) (hlarge : r.large = false) (hoff : k ≤ r.offsets.len)
    (hfit : (dataAfter values r.data k).length ≤ 65535) :
    ∃ o, (List.range k).foldlM (encodeCol values numCols) r =
        .ok { r with data := dataAfter values r.data k, offsets := o } ∧
      o.len = r.offsets.len ∧
      o.toList = (valueEnds values r.data k).map UInt16.ofNat ++ r.offsets.toList.drop k := by
  induction k with
  | zero => exact ⟨r.offsets, by simp only [dataAfter, List.take_zero, List.flatMap_nil, List.append_nil]; rfl, rfl,
      by simp [valueEnds]⟩
  | succ k ih =>
    have hfit' : (dataAfter values r.data k).length ≤ 65535 :=
      (length_dataAfter_le r.data (Nat.le_succ k)).trans hfit
    obtain ⟨o, hfold, hlen, hl⟩ := ih (by omega) (by omega) hfit'
    rw [dataAfter_succ r.data (by omega)] at hfit
    obtain ⟨o', hstep, hlen', hl'⟩ := encodeCol_of_small numCols
      (r := { r with data := dataAfter values r.data k, offsets := o }) (show k < values.length by omega)
      hlarge (show k < o.len by omega) hfit
    refine ⟨o', ?_, hlen'.trans hlen, ?_⟩
    · rw [List.range_succ, List.foldlM_append, hfold, dataAfter_succ r.data (show k < values.length by omega)]
      simp only [List.foldlM_cons, List.foldlM_nil]
      exact congrArg (· >>= pure) hstep
    · -- the round writes the end of value `k` at the first place past the ends so far
      have hlk : ((valueEnds values r.data k).map UInt16.ofNat).length = k := by simp [valueEnds]
      simp only at hl'
      rw [hl', hl, List.set_append_right _ _ (by omega), hlk, Nat.sub_self,
        List.drop_eq_getElem_cons (by simp; omega), List.set_cons_zero, valueEnds_succ,
        dataAfter_succ r.data (show k < values.length by omega)]
      simp

/-- The loop and the fix-up on a row that stays small through the loop. -/
theorem encodeRowCols_of_small (e : Encoder) (numCols notNullIdx : Nat)
    (hk : notNullIdx ≤ e.values.length) (hlarge : e.row.large = false)
    (hoff : notNullIdx ≤ e.row.offsets.len)
    (hfit : (dataAfter e.values e.row.data notNullIdx).length ≤ 65535) :
    ∃ o, e.encodeRowCols numCols notNullIdx =
        (fun r => { e with row := r }) <$> fixUpSmall { e.row with data := dataAfter e.values e.row.data notNullIdx, offsets := o } ∧
      o.len = e.row.offsets.len ∧
      o.toList = (valueEnds e.values e.row.data notNullIdx).map UInt16.ofNat ++ e.row.offsets.toList.drop notNullIdx := by
  obtain ⟨o, hloop, hlen, hl⟩ := encodeCols_of_small e.values numCols e.row hk hlarge hoff hfit
  refine ⟨o, ?_, hlen, hl⟩
  rw [encodeRowCols, hloop]
  simp only [bind, Except.bind, hlarge, Bool.false_eq_true, if_false]
  cases fixUpSmall { e.row with data := dataAfter e.values e.row.data notNullIdx, offsets := o } <;> rfl

end Encoder

/-! ### The fix-up after the loop -/

/-- Below 65535 bytes the fix-up copies `offsets32` over the offsets the loop wrote: on a fresh
encoder `offsets32` is empty, but after a large row it holds that row's offsets. -/
theorem fixUpSmall_of_lt {r : Row} (hdata : r.data.length < 65535)
    (hnn : r.numNotNullCols.toNat ≤ r.offsets.len) (h32 : r.offsets32.len ≤ r.numNotNullCols.toNat) :
    ∃ o, fixUpSmall r = .ok { r with offsets := o } ∧ o.len = r.numNotNullCols.toNat ∧
      o.toList = r.offsets32.toList.map UInt32.toUInt16 ++
        (r.offsets.toList.take r.numNotNullCols.toNat).drop r.offsets32.len := by
  have hreuse := GoSlice.toList_reuse_of_le_len hnn
  obtain ⟨o, hcopy, hlen, hl⟩ := GoSlice.copyInto_eq UInt32.toUInt16 r.offsets32
    (r.offsets.reuse r.numNotNullCols.toNat) le_rfl
    (show 0 + r.offsets32.len ≤ (r.offsets.reuse r.numNotNullCols.toNat).len by simpa using h32)
  refine ⟨o, ?_, by simpa using hlen, ?_⟩
  · have hno : ¬ r.data.length ≥ 65535 := by omega
    simp only [fixUpSmall, if_neg hno, Row.initOffsets, hcopy, orPanic, bind, Except.bind, pure, Except.pure]
  · rw [hl, hreuse]
    simp

/-- Below 65535 bytes, the fix-up panics when `offsets32` holds more offsets than the row has
not-null values. -/
theorem fixUpSmall_of_lt_of_lt {r : Row} (hdata : r.data.length < 65535)
    (h32 : r.numNotNullCols.toNat < r.offsets32.len) : fixUpSmall r = .error errIndexOutOfRange := by
  have hnone := GoSlice.copyInto_eq_none UInt32.toUInt16 r.offsets32
    (r.offsets.reuse r.numNotNullCols.toNat) le_rfl
    (show 0 ≤ (r.offsets.reuse r.numNotNullCols.toNat).len by simp)
    (show (r.offsets.reuse r.numNotNullCols.toNat).len < 0 + r.offsets32.len by simpa using h32)
  have hno : ¬ r.data.length ≥ 65535 := by omega
  simp only [fixUpSmall, if_neg hno, Row.initOffsets, hnone, orPanic, bind, Except.bind]

/-- From 65535 bytes on, the fix-up turns the row large with the IDs copied, and leaves `offsets32`
as it was: the offsets the loop wrote are not the ones a large row is written with. -/
theorem fixUpSmall_of_ge {r : Row} (hdata : 65535 ≤ r.data.length)
    (hcols : r.colIDs.len = (r.numNotNullCols + r.numNullCols).toNat) :
    ∃ ids, fixUpSmall r = .ok { r with large := true, colIDs32 := ids } ∧
      ids.toList = r.colIDs.toList.map fun b => UInt32.ofNat b.val := by
  obtain ⟨ids, hcopy, hlen, hl⟩ := GoSlice.copyInto_eq (fun b : Fin 256 => UInt32.ofNat b.val) r.colIDs
    (r.colIDs32.reuse (r.numNotNullCols + r.numNullCols).toNat) le_rfl
    (show 0 + r.colIDs.len ≤ (r.colIDs32.reuse (r.numNotNullCols + r.numNullCols).toNat).len by
      simp [hcols])
  refine ⟨ids, ?_, ?_⟩
  · simp only [fixUpSmall, if_pos hdata, Row.initColIDs32, hcopy, orPanic, bind, Except.bind, pure,
      Except.pure]
  · rw [hl, List.take_zero, List.nil_append, Nat.zero_add, List.take_of_length_le (by simp),
      List.drop_eq_nil_of_le (by simp [hcols]), List.append_nil]

/-! ### A fresh encoder on one column -/

namespace Encoder

theorem appendColVals_zero_single {c : Int64} {d : Datum} (hc : ¬ c > 255) (hd : d ≠ .null) :
    Encoder.zero.reset.appendColVals [c] [d] = .ok ⟨{ Row.zero with numNotNullCols := 1 }, [c], [d]⟩ := by
  simp [Encoder.zero, Row.zero, reset, appendColVals, appendColVal, hc, hd]

theorem reformatCols_single (c : Int64) {d : Datum} (hd : d ≠ .null) :
    reformatCols ⟨{ Row.zero with numNotNullCols := 1 }, [c], [d]⟩ =
      .ok (⟨{ Row.zero with
          numNotNullCols := 1
          colIDs := .ofList [Fin.ofNat 256 c.toUInt64.toNat]
          offsets := .make 1 }, [c], [d]⟩, 1, 1) := by
  simp [Row.zero, hd, reformatCols, Row.initColIDs, Row.initOffsets, placeCol, Row.setColID,
    GoSlice.nil_reuse, sortNotNull, GoSlice.make, GoSlice.set?, orPanic, GoSlice.copyInto,
    GoSlice.copyStep, GoSlice.get?, GoSlice.toList, bind, Except.bind, pure, Except.pure, GoSlice.ofList]

/-- A fresh encoder on one not-null value of exactly 65535 bytes and an ID of one byte writes a
large row with the ID and no offset at all: the loop wrote the offset into `offsets`, the fix-up
turned the row large, and the fresh `offsets32` is empty. -/
theorem encode_zero_single_of_eq {c : Int64} {d : Datum} (hc : ¬ c > 255) (hd : d ≠ .null)
    (hlen : (encodeValueDatum d []).length = 65535) :
    Prod.snd <$> Encoder.zero.encode [c] [d] = .ok ([codecVer, 1] ++ digitsLE 2 1 ++ digitsLE 2 0 ++
      digitsLE 4 (c.toUInt64.toNat % 256) ++ encodeValueDatum d []) := by
  let e₁ : Encoder := ⟨{ Row.zero with
      numNotNullCols := 1
      colIDs := .ofList [Fin.ofNat 256 c.toUInt64.toNat]
      offsets := .make 1 }, [c], [d]⟩
  have hdata : dataAfter [d] [] 1 = encodeValueDatum d [] := by simp [dataAfter]
  -- the loop leaves the row small, with all 65535 bytes in `data`
  obtain ⟨o, hrc, -, -⟩ := encodeRowCols_of_small e₁ 1 1 (by simp [e₁]) rfl
    (by simp [e₁, GoSlice.make]) (by simp only [e₁, Row.zero]; rw [hdata, hlen])
  -- and the fix-up turns it large
  obtain ⟨ids, hfix, hids⟩ := fixUpSmall_of_ge
    (r := { e₁.row with data := dataAfter e₁.values e₁.row.data 1, offsets := o })
    (by simp only [e₁, Row.zero]; rw [hdata, hlen]) rfl
  have henc : Encoder.zero.encode [c] [d] = (fun e => (e, e.row.toBytes [])) <$> e₁.encodeRowCols 1 1 := by
    simp only [encode, appendColVals_zero_single hc hd, reformatCols_single c hd, bind, Except.bind]
    cases e₁.encodeRowCols 1 1 <;> rfl
  have hbyte : c.toUInt64.toNat % 256 % 4294967296 = c.toUInt64.toNat % 256 := by omega
  rw [henc, hrc, hfix]
  simp only at hids
  simp [Row.toBytes, hids, hdata, hbyte, e₁, Row.zero, u32SliceToBytes, Functor.map, Except.map]

end Encoder

end TinySql.Rowcodec
