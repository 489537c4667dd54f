import TinySql.Rowcodec.Encoder
import TinySql.Lib.ExceptList

/-!
# Reading a row back into datums

`DatumMapDecoder.DecodeToDatumMap` in `util/rowcodec/decoder.go`, which `tablecodec.DecodeRowToDatumMap`
calls with no handle column (`-1`): the row is read with `fromBytes`, and each requested column is
looked up with `findColID`; a not-null one is decoded from its bytes by its type, a NULL one is
`NULL`, and a missing one is left out. The map is a list of pairs, the latest entry of an ID first.
-/

namespace TinySql.Rowcodec

open TinySql.Lib TinySql.Types

/-- The fields of `ColInfo` that `decodeColDatum` reads. -/
structure ColInfo where
  id : Int64
  tp : FieldTp
  flag : Nat
  deriving DecidableEq, Repr

/-- `float64(float32(f))`, as `SetFloat32` keeps a `float32`: the double rounded to single precision,
as bits. -/
def roundToFloat32 (f : UInt64) : UInt64 :=
  (Float.ofBits f).toFloat32.toFloat.toBits

/-- `DatumMapDecoder.decodeColDatum`. A duration column ends in "unknown type", with the code of
`mysql.TypeDuration`. -/
def decodeColDatum (col : ColInfo) (colData : List (Fin 256)) : Except String Datum :=
  match col.tp with
  | .longlong | .long | .int24 | .short | .tiny | .year =>
    if hasUnsignedFlag col.flag then .uint64 <$> decodeUint colData
    else .int64 <$> decodeInt colData
  | .float => do
    let (_, fVal) ← Codec.decodeFloat colData
    return .float32 (roundToFloat32 fVal)
  | .double => do
    let (_, fVal) ← Codec.decodeFloat colData
    return .float64 fVal
  | .varString | .varchar | .string | .blob | .tinyBlob | .mediumBlob | .longBlob => .ok (.bytes colData)
  | .duration => .error "unknown type 11"

/-- `row[colID] = d`. -/
def setDatum (m : List (Int64 × Datum)) (colID : Int64) (d : Datum) : List (Int64 × Datum) :=
  (colID, d) :: m.filter (·.1 ≠ colID)

/-- `DatumMapDecoder`: the columns it reads and the ID of the handle column. -/
structure DatumMapDecoder where
  row : Row
  columns : List ColInfo
  handleColID : Int64

namespace DatumMapDecoder

/-- One round of the loop of `DecodeToDatumMap`, over the row `r` that `fromBytes` read. -/
def decodeCol (r : Row) (handleColID handle : Int64) (m : List (Int64 × Datum)) (col : ColInfo) :
    Except String (List (Int64 × Datum)) := do
  if col.id = handleColID then return setDatum m col.id (.int64 handle)
  let found ← r.findColID col.id
  if found.2.2 = false ∧ found.2.1 = false then
    let colData ← r.getData found.1
    let d ← decodeColDatum col colData
    return setDatum m col.id d
  if found.2.1 then return setDatum m col.id .null
  return m

/-- `DecodeToDatumMap`. The decoder's own row is read over by `fromBytes`, and the fields it keeps
from before are those of the layout the row does not use, which nothing reads. -/
def decodeToDatumMap (decoder : DatumMapDecoder) (rowData : List (Fin 256)) (handle : Int64)
    (row : List (Int64 × Datum)) : Except String (List (Int64 × Datum)) := do
  let r ← decoder.row.fromBytes rowData
  decoder.columns.foldlM (decodeCol r decoder.handleColID handle) row

end DatumMapDecoder

/-- The decoder `tablecodec.DecodeRowToDatumMap` builds for string columns of the given IDs. -/
def varcharDecoder (ids : List Int64) : DatumMapDecoder :=
  ⟨.zero, ids.map fun id => ⟨id, .varchar, 0⟩, -1⟩

/-! ### Reading a large row of one column -/

theorem bytesToU32Slice_of_length_eq_four {ids : List (Fin 256)} (hids : ids.length = 4) :
    bytesToU32Slice ids = [UInt32.ofNat (ofDigitsLE ids)] := by
  match ids, hids with
  | [_, _, _, _], _ => rfl

namespace Row

/-- The header of a large row with one not-null column: the ID is the four bytes after it, and the
offset the four after those, whatever they are. -/
theorem fromBytes_large_single (r₀ : Row) {ids v : List (Fin 256)} (hids : ids.length = 4)
    (hv : 4 ≤ v.length) :
    r₀.fromBytes ([128, 1, 1, 0, 0, 0] ++ ids ++ v) = .ok { r₀ with
      large := true
      numNotNullCols := 1
      numNullCols := 0
      colIDs32 := .ofList [UInt32.ofNat (ofDigitsLE ids)]
      offsets32 := .ofList [UInt32.ofNat (ofDigitsLE (v.take 4))]
      data := v.drop 4 } := by
  have h8 : 8 ≤ 4 + v.length := by omega
  rw [← bytesToU32Slice_of_length_eq_four hids,
    ← bytesToU32Slice_of_length_eq_four (show (v.take 4).length = 4 by simp; omega)]
  simp [fromBytes, orPanic, uint16At, sliceFrom, sliceBytes, hids, codecVer, bind, Except.bind, pure,
    Except.pure, ofDigitsLE, h8, List.drop_append]

theorem findColID_single {r : Row} {colID : Int64} (hnn : r.numNotNullCols = 1)
    (hat : r.colIDAt 0 = .ok colID) : r.findColID colID = .ok (0, false, false) := by
  simp [findColID, hnn, searchColID, hat, bind, Except.bind, pure, Except.pure]

theorem getData_large_zero {r : Row} (hlarge : r.large = true) {stop : UInt32}
    (hstop : r.offsets32.get? 0 = some stop) : r.getData 0 = sliceBytes r.data 0 stop.toNat := by
  simp [getData, hlarge, dataBounds, hstop, orPanic, bind, Except.bind, pure, Except.pure, Functor.map,
    Except.map]

end Row

/-- Decoding a large row of one not-null column: the value is cut at the number its first four
bytes spell, since the row holds no offset of its own there. -/
theorem decodeToDatumMap_large_single (r₀ : Row) (col : ColInfo) (handleColID handle : Int64)
    {ids v : List (Fin 256)} (hids : ids.length = 4) (hv : 4 ≤ v.length)
    (hid : (UInt32.ofNat (ofDigitsLE ids)).toUInt64.toInt64 = col.id) (hh : col.id ≠ handleColID) :
    (⟨r₀, [col], handleColID⟩ : DatumMapDecoder).decodeToDatumMap ([128, 1, 1, 0, 0, 0] ++ ids ++ v) handle [] =
      (fun d => [(col.id, d)]) <$>
        (sliceBytes (v.drop 4) 0 (ofDigitsLE (v.take 4)) >>= decodeColDatum col) := by
  have hstop : (UInt32.ofNat (ofDigitsLE (v.take 4))).toNat = ofDigitsLE (v.take 4) := by
    have := ofDigitsLE_lt (v.take 4)
    simp only [List.length_take, Nat.min_eq_left hv] at this
    simp only [UInt32.toNat_ofNat']
    exact Nat.mod_eq_of_lt this
  rw [DatumMapDecoder.decodeToDatumMap, Row.fromBytes_large_single r₀ hids hv]
  set r : Row := { r₀ with
    large := true
    numNotNullCols := 1
    numNullCols := 0
    colIDs32 := .ofList [UInt32.ofNat (ofDigitsLE ids)]
    offsets32 := .ofList [UInt32.ofNat (ofDigitsLE (v.take 4))]
    data := v.drop 4 }
  have hfind : r.findColID col.id = .ok (0, false, false) :=
    Row.findColID_single rfl (by simp [r, Row.colIDAt, hid, orPanic, GoSlice.get?, GoSlice.ofList,
      Functor.map, Except.map])
  have hdata : r.getData 0 = sliceBytes (v.drop 4) 0 (ofDigitsLE (v.take 4)) := by
    rw [Row.getData_large_zero rfl
      (show r.offsets32.get? 0 = some (UInt32.ofNat (ofDigitsLE (v.take 4))) by
        simp [r, GoSlice.get?, GoSlice.ofList]), hstop]
  simp only [bind, Except.bind, List.foldlM_cons, List.foldlM_nil, DatumMapDecoder.decodeCol, hh,
    if_false, hfind, hdata, pure, Except.pure, and_self, if_true, setDatum, List.filter_nil]
  cases sliceBytes (v.drop 4) 0 (ofDigitsLE (v.take 4)) with
  | error e => rfl
  | ok colData =>
    dsimp only
    cases decodeColDatum col colData <;> rfl

/-! ### Encoding then decoding -/

theorem encode_decode_depends_on_history :
    (∀ (s : List (Fin 256)) (c : Nat), s.length = 65535 → c < 256 →
      Prod.snd <$> Encoder.zero.encode [Int64.ofNat c] [.bytes s] =
          .ok ([128, 1, 1, 0, 0, 0] ++ digitsLE 4 c ++ s) ∧
        OkOr (· = errSliceBoundsOutOfRange) (fun m => m.lookup (Int64.ofNat c) ≠ some (.bytes s))
          ((varcharDecoder [Int64.ofNat c]).decodeToDatumMap ([128, 1, 1, 0, 0, 0] ++ digitsLE 4 c ++ s)
            (-1) [])) ∧
    (Encoder.zero.encode [1, 2] [.bytes [97], .bytes [98, 99]] >>= fun p =>
        (varcharDecoder [1, 2]).decodeToDatumMap p.2 (-1) []) =
      .ok [(2, .bytes [98, 99]), (1, .bytes [97])] ∧
    ((Encoder.zero.encode [256, 257] [.bytes [97, 98], .bytes [99]] >>= fun p =>
        p.1.encode [1, 2] [.bytes [97], .bytes [98, 99]]) >>= fun p =>
        (varcharDecoder [1, 2]).decodeToDatumMap p.2 (-1) []) =
      .ok [(2, .bytes [99]), (1, .bytes [97, 98])] := by
  refine ⟨fun s c hs hc => ⟨?enc, ?dec⟩, by decide, by decide⟩
  case enc =>
    have hnot : ¬ Int64.ofNat c > 255 := by
      rw [gt_iff_lt, Int64.lt_iff_toInt_lt, not_lt, Int64.toInt_ofNat_of_lt (by omega)]
      simp
      omega
    have hbyte : (Int64.ofNat c).toUInt64.toNat % 256 = c := by simp; omega
    rw [Encoder.encode_zero_single_of_eq hnot (by simp) (by simpa [encodeValueDatum] using hs), hbyte]
    rfl
  case dec =>
    have hid : (UInt32.ofNat (ofDigitsLE (digitsLE 4 c))).toUInt64.toInt64 = Int64.ofNat c := by
      apply Int64.toInt_inj.mp
      rw [Int64.toInt_ofNat_of_lt (by omega), toInt_toInt64 _ (by simp [ofDigitsLE_digitsLE]; omega)]
      simp [ofDigitsLE_digitsLE]
      omega
    have hneg : Int64.ofNat c ≠ -1 := by
      intro h
      have := congrArg Int64.toInt h
      rw [Int64.toInt_ofNat_of_lt (by omega)] at this
      simp at this
    rw [varcharDecoder, List.map_singleton,
      decodeToDatumMap_large_single _ _ _ _ (length_digitsLE 4 c) (by omega) hid hneg]
    -- the value read back is cut from the 65531 bytes after the first four
    unfold sliceBytes
    split_ifs with hfit
    · simp only [bind, Except.bind, decodeColDatum, Functor.map, Except.map, okOr_ok]
      intro hlook
      simp only [List.lookup, beq_self_eq_true, Option.some.injEq, Datum.bytes.injEq] at hlook
      have hlen := congrArg List.length hlook
      simp at hlen
      omega
    · rfl

end TinySql.Rowcodec
