import TinySql.Rowcodec.Decoder
import TinySql.Rowcodec.Reformat
import TinySql.Lib.SortedAssoc

/-!
# Small rows read back

What `Encoder.Encode` writes for a row the small layout holds, distinct IDs of one byte and fewer
than 65535 bytes of data, is `Writes`: the counts, the not-null IDs sorted and then the NULL ones
sorted, and the values of the not-null columns in the order of their IDs, each offset the end of its
value. `DatumMapDecoder.DecodeToDatumMap` reads such a row back column by column: the binary search
of `findColID` finds a not-null ID at its place and a NULL one among the NULL IDs, and `getData`
cuts a value between the offsets around it, which `decodeColDatum` reads back when the column's type
is one that reads the datum's kind (`readable`).

The encoder keeps its slices from one row to the next, and the fix-up after the loop copies
`offsets32` over the offsets it wrote. A small row never writes `offsets32`, so along a session's
rows, from a fresh encoder, it stays empty, and every small row reads back
(`Encoder.encodeRows_of_small`); a large row in between is what breaks this.
-/

namespace TinySql.Rowcodec

open TinySql.Lib TinySql.Types

/-- The datums a column reads back as they were written: an integer in an integer column whose flag
has the integer's signedness, a double that is neither NaN nor minus zero in a double column, and a
string in a string column. -/
def readable (col : ColInfo) : Datum → Bool
  | .int64 _ => col.tp ∈ [.longlong, .long, .int24, .short, .tiny, .year] && !hasUnsignedFlag col.flag
  | .uint64 _ => col.tp ∈ [.longlong, .long, .int24, .short, .tiny, .year] && hasUnsignedFlag col.flag
  | .float64 f => col.tp = .double && !Float64.isNaN f && f != Codec.signMask
  | .bytes _ => col.tp ∈ [.varString, .varchar, .string, .blob, .tinyBlob, .mediumBlob, .longBlob]
  | _ => false

theorem decodeColDatum_encodeValueDatum {col : ColInfo} {d : Datum} (h : readable col d = true) :
    decodeColDatum col (encodeValueDatum d []) = .ok d := by
  cases d with
  | int64 i =>
    simp only [readable, Bool.and_eq_true, Bool.not_eq_true'] at h
    obtain ⟨htp, hsigned⟩ := h
    rcases col with ⟨id, tp, flag⟩
    simp only [List.mem_cons, List.not_mem_nil, or_false, decide_eq_true_eq] at htp
    rcases htp with rfl | rfl | rfl | rfl | rfl | rfl <;>
      simp [decodeColDatum, encodeValueDatum, hsigned, decodeInt_encodeInt, Functor.map, Except.map]
  | uint64 u =>
    simp only [readable, Bool.and_eq_true] at h
    obtain ⟨htp, hunsigned⟩ := h
    rcases col with ⟨id, tp, flag⟩
    simp only [List.mem_cons, List.not_mem_nil, or_false, decide_eq_true_eq] at htp
    rcases htp with rfl | rfl | rfl | rfl | rfl | rfl <;>
      simp [decodeColDatum, encodeValueDatum, hunsigned, decodeUint_encodeUint, Functor.map, Except.map]
  | float64 f =>
    simp only [readable, Bool.and_eq_true, Bool.not_eq_true', decide_eq_true_eq, bne_iff_ne, ne_eq] at h
    obtain ⟨⟨htp, hnan⟩, hneg⟩ := h
    -- `DecodeFloat` turns minus zero into zero, which `readable` leaves out
    have hdec := Codec.decodeFloat_encodeFloat [] hnan
    rw [List.append_nil, if_neg hneg] at hdec
    rcases col with ⟨id, tp, flag⟩
    simp only at htp
    subst htp
    simp [decodeColDatum, encodeValueDatum, hdec, bind, Except.bind, pure, Except.pure]
  | bytes b =>
    simp only [readable, List.mem_cons, List.not_mem_nil, or_false, decide_eq_true_eq] at h
    rcases col with ⟨id, tp, flag⟩
    rcases h with rfl | rfl | rfl | rfl | rfl | rfl | rfl <;> rfl
  | null | float32 | minNotNull | maxValue => simp [readable] at h

/-! ### IDs of one byte -/

section IDs

variable {c : Int64}

/-- An ID of one byte is kept as its value. -/
theorem ofNat_idByte (h0 : 0 ≤ c) (h255 : c ≤ 255) : Int64.ofNat (idByte c).val = c := by
  have hlo : (0 : Int64).toInt ≤ c.toInt := Int64.le_iff_toInt_le.mp h0
  have hhi : c.toInt ≤ (255 : Int64).toInt := Int64.le_iff_toInt_le.mp h255
  simp only [Int64.toInt_zero] at hlo
  have hhi' : c.toInt ≤ 255 := hhi
  have hlt := c.toUInt64.toNat_lt
  -- the bits of a nonnegative ID are its value
  have hval : (idByte c).val = c.toUInt64.toNat := by
    simp only [idByte, Fin.val_ofNat]
    rcases toInt_cases c with ⟨_, h⟩ | ⟨_, h⟩ <;> omega
  apply Int64.toInt_inj.mp
  rw [Int64.toInt_ofNat_of_lt (by omega), hval]
  rcases toInt_cases c with ⟨_, h⟩ | ⟨_, h⟩ <;> omega

theorem idByte_inj {a b : Int64} (ha : 0 ≤ a ∧ a ≤ 255) (hb : 0 ≤ b ∧ b ≤ 255) (h : idByte a = idByte b) :
    a = b := by
  rw [← ofNat_idByte ha.1 ha.2, h, ofNat_idByte hb.1 hb.2]

theorem ofNat_val_inj {x y : Fin 256} (h : Int64.ofNat x.val = Int64.ofNat y.val) : x = y := by
  have := congrArg Int64.toInt h
  rw [Int64.toInt_ofNat_of_lt (by omega), Int64.toInt_ofNat_of_lt (by omega)] at this
  exact Fin.ext (by exact_mod_cast this)

theorem ofNat_lt_ofNat_of_lt {x y : Fin 256} (h : x < y) : Int64.ofNat x.val < Int64.ofNat y.val := by
  rw [Int64.lt_iff_toInt_lt, Int64.toInt_ofNat_of_lt (by omega), Int64.toInt_ofNat_of_lt (by omega)]
  exact_mod_cast h

/-- Distinct IDs of one byte are at most 256. -/
theorem length_le_of_nodup {colIDs : List Int64} (hnodup : colIDs.Nodup)
    (hrange : ∀ c ∈ colIDs, 0 ≤ c ∧ c ≤ 255) : colIDs.length ≤ 256 := by
  have := (hnodup.map_on fun a ha b hb => idByte_inj (hrange a ha) (hrange b hb)).length_le_card
  simpa using this

end IDs

/-! ### Counting the columns -/

section Counts

variable {colIDs : List Int64} {values : List Datum}

theorem length_notNullCols_zip (hlen : colIDs.length = values.length) :
    (notNullCols (colIDs.zip values)).length = values.countP (· != .null) := by
  rw [notNullCols, ← List.countP_eq_length_filter]
  have hsnd : (colIDs.zip values).map Prod.snd = values := List.map_snd_zip (by omega)
  conv_rhs => rw [← hsnd, List.countP_map]
  rfl

theorem length_nullCols_zip (hlen : colIDs.length = values.length) :
    (nullCols (colIDs.zip values)).length = values.count .null := by
  rw [nullCols, ← List.countP_eq_length_filter, List.count_eq_countP]
  have hsnd : (colIDs.zip values).map Prod.snd = values := List.map_snd_zip (by omega)
  conv_rhs => rw [← hsnd, List.countP_map]
  rfl

theorem sum_map_zip (hlen : colIDs.length = values.length) :
    ((colIDs.zip values).map fun c => (encodeValueDatum c.2 []).length).sum =
      (values.map fun d => (encodeValueDatum d []).length).sum := by
  have hsnd : (colIDs.zip values).map Prod.snd = values := List.map_snd_zip (by omega)
  conv_rhs => rw [← hsnd, List.map_map]
  rfl

/-- The NULL columns add no bytes. -/
theorem sum_map_notNullCols (cols : List (Int64 × Datum)) :
    ((notNullCols cols).map fun c => (encodeValueDatum c.2 []).length).sum =
      (cols.map fun c => (encodeValueDatum c.2 []).length).sum := by
  induction cols with
  | nil => rfl
  | cons c cs ih =>
    by_cases hc : c.2 = .null
    · simp only [notNullCols, List.filter_cons, hc, bne_self_eq_false, Bool.false_eq_true, if_false,
        List.map_cons, List.sum_cons] at ih ⊢
      rw [ih]
      simp [encodeValueDatum]
    · simp only [notNullCols, List.filter_cons, bne_iff_ne, ne_eq, hc, not_false_eq_true, if_true,
        List.map_cons, List.sum_cons] at ih ⊢
      rw [ih]

end Counts

/-! ### The data of the not-null values -/

namespace Encoder

theorem dataAfter_take (values : List Datum) (data : List (Fin 256)) {k n : Nat} (hk : k ≤ n) :
    dataAfter (values.take n) data k = dataAfter values data k := by
  rw [dataAfter, dataAfter, List.take_take, Nat.min_eq_left hk]

theorem valueEnds_take (values : List Datum) (data : List (Fin 256)) {k n : Nat} (hk : k ≤ n) :
    valueEnds (values.take n) data k = valueEnds values data k := by
  simp only [valueEnds]
  apply List.map_congr_left
  intro j hj
  rw [dataAfter_take values data (by simp at hj; omega)]

theorem getElem_valueEnds (values : List Datum) (data : List (Fin 256)) {k j : Nat}
    (hj : j < (valueEnds values data k).length) :
    (valueEnds values data k)[j] = (dataAfter values data (j + 1)).length := by
  simp [valueEnds]

/-- The data of the first `n` values begins with that of the first `k`. -/
theorem dataAfter_eq_append (values : List Datum) (data : List (Fin 256)) {k n : Nat} (hkn : k ≤ n) :
    ∃ rest, dataAfter values data n = dataAfter values data k ++ rest := by
  obtain ⟨m, rfl⟩ := Nat.exists_eq_add_of_le hkn
  exact ⟨((values.drop k).take m).flatMap (encodeValueDatum · []), by
    simp only [dataAfter, List.take_add, List.flatMap_append, List.append_assoc]⟩

/-- Value `h` is cut from the data at the ends of the values before it and of itself. -/
theorem sliceBytes_dataAfter (values : List Datum) {h n : Nat} (hh : h < n) (hn : n ≤ values.length) :
    sliceBytes (dataAfter values [] n) (dataAfter values [] h).length (dataAfter values [] (h + 1)).length =
      .ok (encodeValueDatum values[h] []) := by
  obtain ⟨rest, hrest⟩ := dataAfter_eq_append values [] (show h + 1 ≤ n by omega)
  have hsucc : dataAfter values [] (h + 1) = dataAfter values [] h ++ encodeValueDatum values[h] [] := by
    rw [dataAfter_succ [] (by omega), encodeValueDatum_eq_append]
  rw [hrest, hsucc, List.length_append]
  exact sliceBytes_append _ _ _

end Encoder

/-- A small row whose offsets are the ends of the values its data holds gives back each value. -/
theorem Row.getData_of_valueEnds {r : Row} (hlarge : r.large = false) {values : List Datum} {n h : Nat}
    (hoffs : r.offsets.toList = (Encoder.valueEnds values [] n).map UInt16.ofNat)
    (hdata : r.data = Encoder.dataAfter values [] n) (hfit : r.data.length < 65536)
    (hn : n ≤ values.length) (hh : h < n) :
    r.getData h = .ok (encodeValueDatum values[h] []) := by
  have hlen : (Encoder.valueEnds values [] n).length = n := by simp [Encoder.valueEnds]
  have hbound : ∀ e ∈ Encoder.valueEnds values [] n, e < 65536 := by
    intro e he
    obtain ⟨j, hj, rfl⟩ := List.getElem_of_mem he
    have hle : (Encoder.dataAfter values [] (j + 1)).length ≤ (Encoder.dataAfter values [] n).length :=
      Encoder.length_dataAfter_le [] (by omega)
    rw [Encoder.getElem_valueEnds]
    rw [hdata] at hfit
    omega
  have hh' : h < (Encoder.valueEnds values [] n).length := by omega
  have hstart : (if h = 0 then 0 else (Encoder.valueEnds values [] n)[h - 1]) =
      (Encoder.dataAfter values [] h).length := by
    split_ifs with h0
    · simp [h0, Encoder.dataAfter]
    · rw [Encoder.getElem_valueEnds, Nat.sub_add_cancel (by omega)]
  rw [Row.getData_small hlarge hoffs hbound hh', hstart, Encoder.getElem_valueEnds, hdata]
  exact Encoder.sliceBytes_dataAfter values hh hn

/-- The data of a small row holds the bytes of every value. -/
theorem length_dataAfter_sortedNotNull (cols : List (Int64 × Datum)) :
    (Encoder.dataAfter ((sortedNotNull cols).map Prod.snd) [] (notNullCols cols).length).length =
      (cols.map fun c => (encodeValueDatum c.2 []).length).sum := by
  have hperm : ((sortedNotNull cols).map Prod.snd).Perm ((notNullCols cols).map Prod.snd) := by
    have := (List.perm_insertionSort (fun a b : Fin 256 × Datum => a.1 ≤ b.1)
      ((notNullCols cols).map fun c => (idByte c.1, c.2))).map Prod.snd
    simpa [sortedNotNull, Function.comp_def] using this
  have hlen : ((sortedNotNull cols).map Prod.snd).length = (notNullCols cols).length := by
    simp [sortedNotNull]
  rw [Encoder.dataAfter, List.nil_append, List.take_of_length_le hlen.le, List.length_flatMap,
    (hperm.map _).sum_eq, List.map_map, ← sum_map_notNullCols]
  rfl

/-! ### What a small row is written as -/

/-- The row `encode` leaves for the columns `cols` of a small row: the counts, the IDs sorted in
their two parts, and the values of the not-null columns in the order of their IDs with their ends as
offsets. -/
structure Writes (cols : List (Int64 × Datum)) (r : Row) : Prop where
  large_eq : r.large = false
  numNotNullCols_eq : r.numNotNullCols.toNat = (notNullCols cols).length
  numNullCols_eq : r.numNullCols.toNat = (nullCols cols).length
  colIDs_eq : r.colIDs.toList = (sortedNotNull cols).map Prod.fst ++
    ((nullCols cols).map (idByte ·.1)).insertionSort (· ≤ ·)
  offsets_eq : r.offsets.toList =
    (Encoder.valueEnds ((sortedNotNull cols).map Prod.snd) [] (notNullCols cols).length).map UInt16.ofNat
  data_eq : r.data = Encoder.dataAfter ((sortedNotNull cols).map Prod.snd) [] (notNullCols cols).length

namespace Writes

variable {cols : List (Int64 × Datum)} {r : Row}

theorem toNat_add (hw : Writes cols r) (hcount : cols.length < 65536) :
    (r.numNotNullCols + r.numNullCols).toNat = (notNullCols cols).length + (nullCols cols).length := by
  have := length_notNullCols_add_length_nullCols cols
  rw [UInt16.toNat_add, hw.numNotNullCols_eq, hw.numNullCols_eq, Nat.mod_eq_of_lt (by omega)]

theorem colIDs_len (hw : Writes cols r) (hcount : cols.length < 65536) :
    r.colIDs.len = (r.numNotNullCols + r.numNullCols).toNat := by
  rw [hw.toNat_add hcount, ← GoSlice.length_toList, hw.colIDs_eq]
  simp [sortedNotNull]

theorem offsets_len (hw : Writes cols r) : r.offsets.len = r.numNotNullCols.toNat := by
  rw [← GoSlice.length_toList, hw.offsets_eq, hw.numNotNullCols_eq]
  simp [Encoder.valueEnds]

theorem length_data (hw : Writes cols r) :
    r.data.length = (cols.map fun c => (encodeValueDatum c.2 []).length).sum := by
  rw [hw.data_eq, length_dataAfter_sortedNotNull]

end Writes

/-! ### Encoding -/

namespace Encoder

/-- `reset` and `appendColVal` on IDs of one byte: the row stays small, with the counts of the
not-null and the NULL values. -/
theorem reset_appendColVals_of_small (e : Encoder) {colIDs : List Int64} {values : List Datum}
    (hlen : colIDs.length = values.length) (hsmall : ∀ c ∈ colIDs, ¬ c > 255) :
    e.reset.appendColVals colIDs values = .ok ⟨{ e.row with
      large := false
      numNotNullCols := UInt16.ofNat (notNullCols (colIDs.zip values)).length
      numNullCols := UInt16.ofNat (nullCols (colIDs.zip values)).length
      data := [] }, colIDs, values⟩ := by
  rw [appendColVals_of_small e.reset hlen hsmall, length_notNullCols_zip hlen, length_nullCols_zip hlen]
  simp [reset]

/-- The loop and the fix-up on a small row with no data yet, offsets for its `n` not-null values
and an empty `offsets32`: the values go to the data with their ends as the offsets. -/
theorem encodeRowCols_of_empty (e : Encoder) (numCols : Nat) {n : Nat} (hlarge : e.row.large = false)
    (hdata : e.row.data = []) (h32 : e.row.offsets32.len = 0) (hoffs : e.row.offsets.len = n)
    (hnn : e.row.numNotNullCols.toNat = n) (hn : n ≤ e.values.length)
    (hfit : (dataAfter e.values [] n).length < 65535) :
    ∃ o, e.encodeRowCols numCols n = .ok { e with row := { e.row with
        data := dataAfter e.values [] n
        offsets := o } } ∧
      o.toList = (valueEnds e.values [] n).map UInt16.ofNat := by
  obtain ⟨o, hloop, ho_len, ho⟩ := encodeRowCols_of_small e numCols n hn hlarge (by omega)
    (by rw [hdata]; exact hfit.le)
  rw [hdata] at hloop ho
  obtain ⟨o', hfix, -, ho'⟩ := fixUpSmall_of_lt
    (r := { e.row with data := dataAfter e.values [] n, offsets := o }) hfit
    (show e.row.numNotNullCols.toNat ≤ o.len by omega) (show e.row.offsets32.len ≤ _ by omega)
  refine ⟨o', ?_, ?_⟩
  · rw [hloop, hfix]
    rfl
  · -- `offsets32` is empty, so the fix-up only cuts the offsets at the not-null count
    have h32nil : e.row.offsets32.toList = [] := List.eq_nil_of_length_eq_zero (by simp [h32])
    have hends_len : ((valueEnds e.values [] n).map UInt16.ofNat).length = n := by simp [valueEnds]
    simp only [h32nil, h32, hnn, List.map_nil, List.nil_append, List.drop_zero] at ho'
    rw [ho', ho, List.take_left' hends_len]

/-- `encode` on a small row, distinct IDs of one byte and fewer than 65535 bytes of data, from an
encoder whose `offsets32` is empty: the row is written as `Writes` says, and `offsets32` stays as it
was. -/
theorem encode_of_small (e : Encoder) (h32 : e.row.offsets32.len = 0) {colIDs : List Int64}
    {values : List Datum} (hlen : colIDs.length = values.length) (hnodup : colIDs.Nodup)
    (hrange : ∀ c ∈ colIDs, 0 ≤ c ∧ c ≤ 255)
    (hfit : (values.map fun d => (encodeValueDatum d []).length).sum < 65535) :
    ∃ e', e.encode colIDs values = .ok (e', e'.row.toBytes []) ∧ Writes (colIDs.zip values) e'.row ∧
      e'.row.offsets32 = e.row.offsets32 := by
  set cols := colIDs.zip values with hcols
  have hcount : colIDs.length ≤ 256 := length_le_of_nodup hnodup hrange
  have hsmall : ∀ c ∈ colIDs, ¬ c > 255 := by
    intro c hc h
    have h₁ := Int64.lt_iff_toInt_lt.mp h
    have h₂ := Int64.le_iff_toInt_le.mp (hrange c hc).2
    simp at h₁ h₂
    omega
  have hsplit := length_notNullCols_add_length_nullCols cols
  have hcols_len : cols.length = colIDs.length := by simp [cols, hlen]
  have hnn : (UInt16.ofNat (notNullCols cols).length).toNat = (notNullCols cols).length := by
    simp only [UInt16.toNat_ofNat']
    exact Nat.mod_eq_of_lt (by omega)
  have hnull : (UInt16.ofNat (nullCols cols).length).toNat = (nullCols cols).length := by
    simp only [UInt16.toNat_ofNat']
    exact Nat.mod_eq_of_lt (by omega)
  -- gathering the columns
  have happend := reset_appendColVals_of_small e hlen hsmall
  rw [← hcols] at happend
  set e₁ : Encoder := ⟨{ e.row with
      large := false
      numNotNullCols := UInt16.ofNat (notNullCols cols).length
      numNullCols := UInt16.ofNat (nullCols cols).length
      data := [] }, colIDs, values⟩ with he₁
  -- placing and sorting them
  obtain ⟨ids, values', hrf, -, hids, hvals, hvals_len⟩ :=
    reformatCols_of_small e₁ rfl hlen (show colIDs.length < 65536 by omega) hnn hnull
  simp only [e₁, hnn] at hids hvals hvals_len
  rw [← hcols] at hids hvals
  rw [show e₁.row.numNotNullCols.toNat = (notNullCols cols).length from hnn,
    show e₁.tempColIDs = colIDs from rfl, show e₁.row.offsets = e.row.offsets from rfl] at hrf
  set e₂ : Encoder := ⟨{ e₁.row with
      colIDs := ids
      offsets := e.row.offsets.reuse (notNullCols cols).length }, colIDs, values'⟩ with he₂
  -- the loop reads the not-null values, the sorted ones, which stay within 65535 bytes
  have hdata : dataAfter values' [] (notNullCols cols).length =
      dataAfter ((sortedNotNull cols).map Prod.snd) [] (notNullCols cols).length := by
    rw [← dataAfter_take values' [] le_rfl, hvals]
  have hends : valueEnds values' [] (notNullCols cols).length =
      valueEnds ((sortedNotNull cols).map Prod.snd) [] (notNullCols cols).length := by
    rw [← valueEnds_take values' [] le_rfl, hvals]
  have hfit' : (dataAfter values' [] (notNullCols cols).length).length < 65535 := by
    rw [hdata, length_dataAfter_sortedNotNull, sum_map_zip hlen]
    exact hfit
  obtain ⟨o, hloop, ho⟩ := encodeRowCols_of_empty e₂ colIDs.length rfl rfl (by simpa [e₂, e₁] using h32)
    (by simp [e₂]) hnn (by rw [hvals_len]; omega) hfit'
  refine ⟨{ e₂ with row := { e₂.row with
      data := dataAfter values' [] (notNullCols cols).length
      offsets := o } }, ?_, ⟨rfl, hnn, hnull, hids, by rw [ho, hends], hdata⟩, rfl⟩
  simp only [encode, happend, bind, Except.bind, hrf, hloop, pure, Except.pure]
  rfl

end Encoder

/-! ### Reading back -/

/-- A small row whose slices have the lengths its counts give reads back as it was written. -/
theorem Row.fromBytes_toBytes_small (r₀ r : Row) (hlarge : r.large = false)
    (hids : r.colIDs.len = (r.numNotNullCols + r.numNullCols).toNat)
    (hoffs : r.offsets.len = r.numNotNullCols.toNat) :
    r₀.fromBytes (r.toBytes []) = .ok { r₀ with
      large := false
      numNotNullCols := r.numNotNullCols
      numNullCols := r.numNullCols
      colIDs := .ofList r.colIDs.toList
      offsets := .ofList r.offsets.toList
      data := r.data } := by
  have h := Row.fromBytes_small r₀ r.numNotNullCols r.numNullCols r.data
    (show r.colIDs.toList.length = _ by rw [GoSlice.length_toList, hids])
    (show r.offsets.toList.length = _ by rw [GoSlice.length_toList, hoffs])
  rw [← h, Row.toBytes, hlarge]
  rfl

/-- A small row whose IDs are two strictly ascending parts, the not-null ones and then the NULL
ones, holds them as `findColID` reads them. -/
theorem Row.holdsIDs_of_small {r : Row} (hlarge : r.large = false) {S N : List (Fin 256)}
    (hids : r.colIDs.toList = S ++ N) (hS : S.length = r.numNotNullCols.toNat)
    (hcount : (r.numNotNullCols + r.numNullCols).toNat = S.length + N.length)
    (hSs : S.Pairwise (· < ·)) (hNs : N.Pairwise (· < ·)) :
    Row.HoldsIDs r ((S ++ N).map fun b => Int64.ofNat b.val) where
  colIDAt_eq h hh := by
    simp only [List.length_map] at hh
    rw [Row.colIDAt, if_neg (by simp [hlarge]), GoSlice.get?_eq_getElem?, hids, List.getElem?_eq_getElem hh,
      List.getElem_map]
    rfl
  length_eq := by simp [hcount]
  notNull_le := by simp; omega
  sorted a b hab hb hpart := by
    simp only [List.length_map, List.length_append] at hb
    simp only [List.getElem_map]
    apply ofNat_lt_ofNat_of_lt
    rcases hpart with hlt | hle
    · rw [List.getElem_append_left (by omega), List.getElem_append_left (by omega)]
      exact List.pairwise_iff_getElem.mp hSs a b (by omega) (by omega) hab
    · rw [List.getElem_append_right (by omega), List.getElem_append_right (by omega)]
      exact List.pairwise_iff_getElem.mp hNs _ _ (by omega) (by omega) (by omega)

/-! ### The sorted IDs -/

theorem map_fst_sortedNotNull (cols : List (Int64 × Datum)) :
    (sortedNotNull cols).map Prod.fst = ((notNullCols cols).map (idByte ·.1)).insertionSort (· ≤ ·) := by
  rw [sortedNotNull, List.map_insertionSort _ (· ≤ ·) Prod.fst _ (fun _ _ _ _ => Iff.rfl), List.map_map]
  rfl

/-- A not-null column is among the sorted ones, with its value. -/
theorem mem_sortedNotNull {cols : List (Int64 × Datum)} {c : Int64} {v : Datum} (hc : (c, v) ∈ cols)
    (hv : v ≠ .null) :
    (idByte c, v) ∈ sortedNotNull cols := by
  rw [sortedNotNull, List.mem_insertionSort, List.mem_map]
  exact ⟨(c, v), List.mem_filter.mpr ⟨hc, by simpa using hv⟩, rfl⟩

theorem idByte_mem_null {cols : List (Int64 × Datum)} {c : Int64} (hc : (c, Datum.null) ∈ cols) :
    idByte c ∈ ((nullCols cols).map (idByte ·.1)).insertionSort (· ≤ ·) := by
  rw [List.mem_insertionSort, List.mem_map]
  exact ⟨(c, .null), List.mem_filter.mpr ⟨hc, by simp⟩, rfl⟩

section Cols

variable {cols : List (Int64 × Datum)} (hnodup : (cols.map Prod.fst).Nodup)
  (hrange : ∀ c ∈ cols, 0 ≤ c.1 ∧ c.1 ≤ 255)
include hnodup hrange

theorem nodup_map_idByte : (cols.map (idByte ·.1)).Nodup := by
  have hinj : ∀ a ∈ cols.map Prod.fst, ∀ b ∈ cols.map Prod.fst, idByte a = idByte b → a = b := by
    simp only [List.mem_map]
    rintro _ ⟨a, ha, rfl⟩ _ ⟨b, hb, rfl⟩ h
    exact idByte_inj (hrange a ha) (hrange b hb) h
  have := hnodup.map_on hinj
  rwa [List.map_map] at this

theorem pairwise_lt_notNull : ((sortedNotNull cols).map Prod.fst).Pairwise (· < ·) := by
  rw [map_fst_sortedNotNull]
  exact pairwise_lt_insertionSort ((nodup_map_idByte hnodup hrange).sublist
    ((List.filter_sublist).map _))

theorem pairwise_lt_null : (((nullCols cols).map (idByte ·.1)).insertionSort (· ≤ ·)).Pairwise (· < ·) :=
  pairwise_lt_insertionSort ((nodup_map_idByte hnodup hrange).sublist ((List.filter_sublist).map _))

/-- A NULL column's ID is not among the not-null ones. -/
theorem idByte_not_mem_notNull {c : Int64} (hc : (c, Datum.null) ∈ cols) :
    idByte c ∉ (sortedNotNull cols).map Prod.fst := by
  rw [map_fst_sortedNotNull, List.mem_insertionSort, List.mem_map]
  rintro ⟨a, ha, hac⟩
  have ha' := List.mem_filter.mp ha
  have hinj := List.inj_on_of_nodup_map (nodup_map_idByte hnodup hrange) ha'.1 hc hac
  rw [hinj] at ha'
  simp at ha'

/-- Each column of a row written as `Writes` says is read back by `decodeCol`: a not-null one as
its value, a NULL one as `NULL`. -/
theorem Writes.decodeCol {r : Row} (hw : Writes cols r) (hfit : r.data.length < 65536) {col : ColInfo}
    {v : Datum} (hmem : (col.id, v) ∈ cols) (hread : v ≠ .null → readable col v = true)
    {handleColID : Int64} (hhandle : col.id ≠ handleColID) (handle : Int64) (m : List (Int64 × Datum)) :
    DatumMapDecoder.decodeCol r handleColID handle m col = .ok (setDatum m col.id v) := by
  set S := (sortedNotNull cols).map Prod.fst with hS
  set N := ((nullCols cols).map (idByte ·.1)).insertionSort (· ≤ ·) with hN
  have hS_len : S.length = (notNullCols cols).length := by simp [S, sortedNotNull]
  have hN_len : N.length = (nullCols cols).length := by simp [N]
  have hcount : cols.length ≤ 256 := by
    simpa using length_le_of_nodup hnodup (by simpa using hrange)
  have hr := Row.holdsIDs_of_small hw.large_eq hw.colIDs_eq (by rw [hS_len, hw.numNotNullCols_eq])
    (by rw [hw.toNat_add (by omega), hS_len, hN_len])
    (pairwise_lt_notNull hnodup hrange) (pairwise_lt_null hnodup hrange)
  have hid : Int64.ofNat (idByte col.id).val = col.id := ofNat_idByte (hrange _ hmem).1 (hrange _ hmem).2
  by_cases hv : v = .null
  · -- a NULL column is found among the NULL IDs only
    subst hv
    have hnot : col.id ∉ ((S ++ N).map fun b => Int64.ofNat b.val).take r.numNotNullCols.toNat := by
      rw [List.map_append, List.take_left' (by simp [hS_len, hw.numNotNullCols_eq]), List.mem_map]
      rintro ⟨s, hs, hsc⟩
      rw [← hid] at hsc
      exact idByte_not_mem_notNull hnodup hrange hmem (ofNat_val_inj hsc ▸ hs)
    have hin : col.id ∈ ((S ++ N).map fun b => Int64.ofNat b.val).drop r.numNotNullCols.toNat := by
      rw [List.map_append, List.drop_left' (by simp [hS_len, hw.numNotNullCols_eq]), List.mem_map]
      exact ⟨idByte col.id, idByte_mem_null hmem, hid⟩
    simp only [DatumMapDecoder.decodeCol, hhandle, if_false, hr.findColID_of_null hnot hin, bind,
      Except.bind, pure, Except.pure]
    rfl
  · -- a not-null column is found at its place among the sorted ones, and its bytes decode
    obtain ⟨h, hh, hget⟩ := List.getElem_of_mem (mem_sortedNotNull hmem hv)
    have hh' : h < r.numNotNullCols.toNat := by
      rw [hw.numNotNullCols_eq, ← hS_len]
      simpa [S] using hh
    have hat : ((S ++ N).map fun b => Int64.ofNat b.val)[h]? = some col.id := by
      rw [List.getElem?_map, List.getElem?_append_left (by simpa [S] using hh), hS, List.getElem?_map,
        List.getElem?_eq_getElem hh, hget]
      simp [hid]
    have hdata : r.getData h = .ok (encodeValueDatum v []) := by
      rw [Row.getData_of_valueEnds hw.large_eq hw.offsets_eq hw.data_eq hfit (by simp [sortedNotNull])
        (by rwa [← hw.numNotNullCols_eq])]
      simp [hget]
    simp only [DatumMapDecoder.decodeCol, hhandle, if_false, hr.findColID_of_lt hh' hat, bind,
      Except.bind, and_self, if_true, hdata, decodeColDatum_encodeValueDatum (hread hv), pure,
      Except.pure]

end Cols

/-! ### Decoding -/

/-- The row `fromBytes` reads off what `encode` wrote is written as the encoder's was. -/
theorem Writes.fromBytes {cols : List (Int64 × Datum)} {r : Row} (hw : Writes cols r)
    (hcount : cols.length < 65536) (r₀ : Row) :
    ∃ r', r₀.fromBytes (r.toBytes []) = .ok r' ∧ Writes cols r' ∧ r'.data = r.data := by
  refine ⟨_, Row.fromBytes_toBytes_small r₀ r hw.large_eq (hw.colIDs_len hcount) hw.offsets_len, ?_, rfl⟩
  exact ⟨rfl, hw.numNotNullCols_eq, hw.numNullCols_eq, by simpa using hw.colIDs_eq,
    by simpa using hw.offsets_eq, hw.data_eq⟩

/-- The loop of `decodeToDatumMap` over columns each of which `decodeCol` sets to a value of its own,
with distinct IDs not yet in the map: each column's pair goes in front, the last one first. -/
theorem foldlM_decodeCol {r : Row} {handleColID handle : Int64} :
    ∀ (cols : List ColInfo) (values : List Datum) (m : List (Int64 × Datum)),
      cols.length = values.length → (cols.map (·.id)).Nodup → (∀ col ∈ cols, col.id ∉ m.map Prod.fst) →
      (∀ p ∈ cols.zip values, ∀ m,
        DatumMapDecoder.decodeCol r handleColID handle m p.1 = .ok (setDatum m p.1.id p.2)) →
      cols.foldlM (DatumMapDecoder.decodeCol r handleColID handle) m =
        .ok (((cols.map (·.id)).zip values).reverse ++ m)
  | [], _, m, _, _, _, _ => rfl
  | _ :: _, [], _, hlen, _, _, _ => by simp at hlen
  | col :: cols, v :: values, m, hlen, hnodup, hfresh, hdec => by
    rw [List.map_cons, List.nodup_cons] at hnodup
    -- the column's ID is new, so `setDatum` only puts its pair in front
    have hset : setDatum m col.id v = (col.id, v) :: m := by
      rw [setDatum, List.filter_eq_self.mpr]
      intro e he
      have hne : e.1 ≠ col.id := fun h => hfresh col (by simp) (h ▸ List.mem_map_of_mem he)
      simpa using hne
    have hfresh' : ∀ c ∈ cols, c.id ∉ ((col.id, v) :: m).map Prod.fst := by
      intro c hc
      simp only [List.map_cons, List.mem_cons, not_or]
      exact ⟨fun h => hnodup.1 (h ▸ List.mem_map_of_mem hc), hfresh c (by simp [hc])⟩
    have hrest := foldlM_decodeCol cols values ((col.id, v) :: m) (by simpa using hlen) hnodup.2 hfresh'
      (fun p hp => hdec p (List.mem_cons_of_mem _ hp))
    rw [List.foldlM_cons, hdec (col, v) (by simp) m, hset]
    simp only [bind, Except.bind, hrest, List.map_cons, List.zip_cons_cons, List.reverse_cons,
      List.append_assoc, List.singleton_append]

/-! ### Small rows -/

/-- The bytes `b` read back as the values of the row: every decoder of its columns whose handle
column is none of them gives each column's value, the last column first. -/
def ReadsBack (row : List ColInfo × List Datum) (b : List (Fin 256)) : Prop :=
  ∀ (r₀ : Row) (handleColID : Int64), handleColID ∉ row.1.map (·.id) → ∀ handle : Int64,
    (⟨r₀, row.1, handleColID⟩ : DatumMapDecoder).decodeToDatumMap b handle [] =
      .ok ((row.1.map (·.id)).zip row.2).reverse

/-- A row the small layout holds and the columns' types read back: a value for each column,
distinct IDs of one byte, each not-null value one its column reads back, and fewer than 65535
bytes of data in all. -/
structure SmallRow (cols : List ColInfo) (values : List Datum) : Prop where
  length_eq : cols.length = values.length
  nodup : (cols.map (·.id)).Nodup
  id_range : ∀ col ∈ cols, 0 ≤ col.id ∧ col.id ≤ 255
  readable_of_ne : ∀ p ∈ cols.zip values, p.2 ≠ .null → readable p.1 p.2 = true
  data_lt : (values.map fun d => (encodeValueDatum d []).length).sum < 65535

namespace SmallRow

variable {cols : List ColInfo} {values : List Datum}

theorem mem_zip_id {p : ColInfo × Datum} (hp : p ∈ cols.zip values) :
    (p.1.id, p.2) ∈ (cols.map (·.id)).zip values := by
  rw [List.zip_map_left]
  exact List.mem_map_of_mem hp

theorem length_le (h : SmallRow cols values) : cols.length ≤ 256 := by
  have := length_le_of_nodup h.nodup (by simpa using h.id_range)
  simpa using this

theorem nodup_fst (h : SmallRow cols values) : (((cols.map (·.id)).zip values).map Prod.fst).Nodup := by
  rw [List.map_fst_zip (by simp [h.length_eq])]
  exact h.nodup

theorem range_fst (h : SmallRow cols values) :
    ∀ c ∈ (cols.map (·.id)).zip values, 0 ≤ c.1 ∧ c.1 ≤ 255 := by
  intro c hc
  obtain ⟨col, hcol, hid⟩ := List.mem_map.mp (List.of_mem_zip hc).1
  rw [← hid]
  exact h.id_range col hcol

/-- Decoding a row written as `Writes` says gives back every column, a not-null one as its value
and a NULL one as `NULL`. -/
theorem readsBack (h : SmallRow cols values) {r : Row} (hw : Writes ((cols.map (·.id)).zip values) r) :
    ReadsBack (cols, values) (r.toBytes []) := by
  intro r₀ handleColID hhandle handle
  have hcount : ((cols.map (·.id)).zip values).length < 65536 := by
    have := h.length_le
    simp only [List.length_zip, List.length_map]
    omega
  obtain ⟨r', hread, hw', hdata⟩ := hw.fromBytes hcount r₀
  have hfit : r'.data.length < 65536 := by
    have := h.data_lt
    rw [hdata, hw.length_data, sum_map_zip (by simp [h.length_eq])]
    omega
  -- each column on its own, then the loop over them
  have hdec : ∀ p ∈ cols.zip values, ∀ m,
      DatumMapDecoder.decodeCol r' handleColID handle m p.1 = .ok (setDatum m p.1.id p.2) := by
    intro p hp m
    exact hw'.decodeCol h.nodup_fst h.range_fst hfit (mem_zip_id hp) (h.readable_of_ne p hp)
      (fun heq => hhandle (by rw [← heq]; exact List.mem_map_of_mem (List.of_mem_zip hp).1)) handle m
  rw [DatumMapDecoder.decodeToDatumMap]
  simp only [hread, bind, Except.bind]
  rw [foldlM_decodeCol cols values [] h.length_eq h.nodup (by simp) hdec, List.append_nil]

/-- One call of `encode` on a small row, from an encoder whose `offsets32` is empty: the bytes it
writes read back, and `offsets32` is still empty for the next call. -/
theorem encode_readsBack (h : SmallRow cols values) (e : Encoder) (h32 : e.row.offsets32.len = 0) :
    ∃ e', e.encode (cols.map (·.id)) values = .ok (e', e'.row.toBytes []) ∧ e'.row.offsets32.len = 0 ∧
      ReadsBack (cols, values) (e'.row.toBytes []) := by
  obtain ⟨e', henc, hw, h32'⟩ := Encoder.encode_of_small e h32 (by simp [h.length_eq]) h.nodup
    (by simpa using h.id_range) h.data_lt
  exact ⟨e', henc, by rw [h32', h32], h.readsBack hw⟩

end SmallRow

/-! ### A session's rows -/

/-- A session writing rows one after another with the one `Encoder` it keeps
(`SessionVars.RowEncoder`): each row is encoded by the encoder the row before left. -/
def Encoder.encodeRows (e : Encoder) :
    List (List Int64 × List Datum) → Except String (Encoder × List (List (Fin 256)))
  | [] => .ok (e, [])
  | (colIDs, values) :: rows => do
    let (e, b) ← e.encode colIDs values
    let (e, bs) ← e.encodeRows rows
    return (e, b :: bs)

/-- Every row of a run of small rows, from an encoder whose `offsets32` is empty, reads back: no row
of the run leaves anything in `offsets32` for the next. -/
theorem Encoder.encodeRows_of_small (rows : List (List ColInfo × List Datum))
    (hrows : ∀ row ∈ rows, SmallRow row.1 row.2) :
    ∀ e : Encoder, e.row.offsets32.len = 0 →
      ∃ e' bs, e.encodeRows (rows.map fun row => (row.1.map (·.id), row.2)) = .ok (e', bs) ∧
        List.Forall₂ ReadsBack rows bs := by
  induction rows with
  | nil => exact fun e _ => ⟨e, [], rfl, .nil⟩
  | cons row rows ih =>
    intro e h32
    -- the row reads back, and the encoder it leaves still has an empty `offsets32`
    obtain ⟨e₁, henc, h32₁, hrow⟩ := (hrows row (by simp)).encode_readsBack e h32
    obtain ⟨e₂, bs, hrest, hall⟩ := ih (fun r hr => hrows r (by simp [hr])) e₁ h32₁
    refine ⟨e₂, e₁.row.toBytes [] :: bs, ?_, .cons hrow hall⟩
    simp only [List.map_cons, encodeRows, henc, hrest, bind, Except.bind, pure, Except.pure]

theorem encodeRows_of_small_twoRows :
    (∀ row ∈ [([(⟨1, .varchar, 0⟩ : ColInfo), ⟨2, .longlong, 0⟩, ⟨3, .varchar, 0⟩],
          [.bytes [97], .int64 5, .null]),
        ([⟨2, .longlong, 0⟩, ⟨1, .varchar, 0⟩], [.int64 (-3), .bytes [98, 99]])],
      SmallRow row.1 row.2) ∧
    Encoder.zero.row.offsets32.len = 0 ∧
    ∃ e' bs, Encoder.zero.encodeRows
        [([1, 2, 3], [.bytes [97], .int64 5, .null]), ([2, 1], [.int64 (-3), .bytes [98, 99]])] =
          .ok (e', bs) ∧
      List.Forall₂ ReadsBack
        [([(⟨1, .varchar, 0⟩ : ColInfo), ⟨2, .longlong, 0⟩, ⟨3, .varchar, 0⟩], [.bytes [97], .int64 5, .null]),
          ([⟨2, .longlong, 0⟩, ⟨1, .varchar, 0⟩], [.int64 (-3), .bytes [98, 99]])] bs := by
  have hrows : ∀ row ∈ [([(⟨1, .varchar, 0⟩ : ColInfo), ⟨2, .longlong, 0⟩, ⟨3, .varchar, 0⟩],
        [Datum.bytes [97], .int64 5, .null]),
      ([⟨2, .longlong, 0⟩, ⟨1, .varchar, 0⟩], [.int64 (-3), .bytes [98, 99]])],
      SmallRow row.1 row.2 := by
    intro row hrow
    simp only [List.mem_cons, List.not_mem_nil, or_false] at hrow
    rcases hrow with rfl | rfl <;> exact ⟨by decide, by decide, by decide, by decide, by decide⟩
  exact ⟨hrows, rfl, Encoder.encodeRows_of_small _ hrows Encoder.zero rfl⟩

end TinySql.Rowcodec
