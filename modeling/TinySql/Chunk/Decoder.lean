import TinySql.Chunk.Codec
import TinySql.Lib.Slices

/-!
# The streaming chunk decoder

`Decoder` of `util/chunk/codec.go`. `Reset` reads a whole encoded chunk into the intermediate chunk
with `DecodeToChunk`; each `Decode(chk)` then moves the next rows of every column to the end of the
same column of `chk`, as many as `chk` still asks for rounded up to a multiple of 8, and at most
what is left. The null bits of the rows moved are appended whole bytes at a time when the rows of
`chk` end on a byte boundary, and otherwise ORed into the destination bytes across the boundary;
the offsets of a variable-length column are moved by the distance between the two columns' data.
`ReuseIntermChk` hands the rows left over to a chunk by swapping its columns with the intermediate
chunk's.

The OR assumes the bits of the destination past its last row are clear (`Column.Tidy`). That is
how the appending functions leave a column, but `resize` with `isNull = false` and `setAllNotNull`
set whole bytes, and a row moved after such a column can turn from null to not null
(`decode_garbage_null_bit`). For a tidy destination, each call keeps `StreamInv`: column by column,
the rows of the destination followed by those left in the intermediate chunk are the same, so a run
of calls appends the rows of the encoded chunk (`decoder_appends_src_rows`).
-/

namespace TinySql.Chunk

open TinySql.Lib TinySql.Types

set_option linter.dupNamespace false

structure Decoder where
  intermChk : Chunk
  codec : Codec
  remainedRows : Nat
  deriving DecidableEq, Repr

def newDecoder (chk : Chunk) (colTypes : List FieldType) : Decoder :=
  ⟨chk, ⟨colTypes⟩, 0⟩

namespace Decoder

def reset (d : Decoder) (data : List UInt8) : Decoder :=
  let intermChk := (d.codec.decodeToChunk data d.intermChk).2
  { d with intermChk, remainedRows := intermChk.numRows }

def isFinished (d : Decoder) : Bool :=
  d.remainedRows == 0

/-- The offsets `decodeColumn` leaves in a variable-length `destCol`: those after the first of
the `requiredRows` source rows appended, and moved by the distance from the first source offset
to the last destination offset. -/
def decodeOffsets (requiredRows : Nat) (srcOffsets : List Nat) (destCol : Column) : List Nat :=
  let deltaOffset : Int := (destCol.offsets.getD destCol.length 0 : Int) - srcOffsets.getD 0 0
  let offsets := destCol.offsets ++ (srcOffsets.drop 1).take requiredRows
  offsets.mapIdx fun i (o : Nat) =>
    if destCol.length + 1 ≤ i ∧ i ≤ destCol.length + requiredRows then ((o : Int) + deltaOffset).toNat
    else o

/-- One turn of the loop of `decodeColumn` over the source bitmap: byte `i` ORed into the
destination `bitOffset` bits into byte `startIdx + i`, and its high bits into the next byte when
that byte is below `bitMapLen`. -/
def orNullBitmapByte (srcBitmap : List UInt8) (bitOffset startIdx bitMapLen : Nat)
    (nullBitmap : List UInt8) (i : Nat) : List UInt8 :=
  let nullBitmap :=
    nullBitmap.modify (startIdx + i) (· ||| srcBitmap.getD i 0 <<< bitOffset.toUInt8)
  if startIdx + i + 1 < bitMapLen then
    nullBitmap.modify (startIdx + i + 1) (· ||| srcBitmap.getD i 0 >>> (8 - bitOffset).toUInt8)
  else nullBitmap

/-- The null bitmap `decodeColumn` leaves in `destCol`: the source bytes of `requiredRows` rows
appended when its rows end on a byte boundary, and otherwise zero bytes appended and the source
bytes ORed in at the bit offset; then the bits past the last row cleared. -/
def decodeNullBitmap (requiredRows : Nat) (srcBitmap : List UInt8) (destCol : Column) :
    List UInt8 :=
  let numNullBitmapBytes := (requiredRows + 7) / 8
  let nullBitmap := if destCol.length % 8 = 0 then
      destCol.nullBitmap ++ srcBitmap.take numNullBitmapBytes
    else
      let nullBitmap := (destCol.appendMultiSameNullBitmap false requiredRows).nullBitmap
      (List.range numNullBitmapBytes).foldl
        (orNullBitmapByte srcBitmap (destCol.length % 8) ((destCol.length - 1) / 8)
          nullBitmap.length)
        nullBitmap
  clearRedundantBits nullBitmap (destCol.length + requiredRows)

/-- `decodeColumn` on the column pair of one ordinal, of width `elemLen`: `requiredRows` rows of
`srcCol` appended to `destCol`, and `srcCol` advanced past them. The length of `srcCol` is left as
it is. -/
def decodeColumn (elemLen : Int) (requiredRows : Nat) (srcCol destCol : Column) :
    Column × Column :=
  let (srcOffsets, offsets, numDataBytes) : List Nat × List Nat × Int :=
    if elemLen = varElemLen then
      (srcCol.offsets.drop requiredRows, decodeOffsets requiredRows srcCol.offsets destCol,
        (srcCol.offsets.getD requiredRows 0 : Int) - srcCol.offsets.getD 0 0)
    else (srcCol.offsets, destCol.offsets, elemLen * requiredRows)
  let numNullBitmapBytes := (requiredRows + 7) / 8
  ({ srcCol with
      offsets := srcOffsets
      nullBitmap := srcCol.nullBitmap.drop numNullBitmapBytes
      data := srcCol.data.drop numDataBytes.toNat },
    { destCol with
      offsets
      nullBitmap := decodeNullBitmap requiredRows srcCol.nullBitmap destCol
      length := destCol.length + requiredRows
      data := destCol.data ++ srcCol.data.take numDataBytes.toNat })

/-- The loop of `Decode` over the columns of `chk`, with the column and the type of each ordinal;
the code indexes past the end of `colTypes` or of the intermediate chunk and panics where the
model stops. -/
def decodeColumns (requiredRows : Nat) :
    List FieldType → List Column → List Column → List Column × List Column
  | colType :: colTypes, srcCol :: srcCols, destCol :: destCols =>
    let (srcCol, destCol) := decodeColumn (getFixedLen colType) requiredRows srcCol destCol
    let (srcCols, destCols) := decodeColumns requiredRows colTypes srcCols destCols
    (srcCol :: srcCols, destCol :: destCols)
  | _, srcCols, destCols => (srcCols, destCols)

/-- `Decode`. A negative count, on which the code panics, is read as 0. -/
def decode (d : Decoder) (chk : Chunk) : Decoder × Chunk :=
  let requiredRows : Int := (chk.requiredRows : Int) - chk.numRows
  -- `>> 3 << 3` divides rounding down, on a negative count as well
  let requiredRows := (requiredRows + 7) / 8 * 8
  let requiredRows := if requiredRows > d.remainedRows then (d.remainedRows : Int) else requiredRows
  let (srcCols, destCols) :=
    decodeColumns requiredRows.toNat d.codec.colTypes d.intermChk.columns chk.columns
  ({ d with
      intermChk := { d.intermChk with columns := srcCols }
      remainedRows := ((d.remainedRows : Int) - requiredRows).toNat },
    { chk with columns := destCols })

/-- `ReuseIntermChk` on one column: its length set to the rows left, and the offsets of a
variable-length one moved to start at 0. -/
def reuseColumn (remainedRows : Nat) (elemLen : Int) (col : Column) : Column :=
  let col := { col with length := remainedRows }
  if elemLen = varElemLen then
    let deltaOffset := col.offsets.getD 0 0
    if deltaOffset ≠ 0 then { col with offsets := col.offsets.map (· - deltaOffset) } else col
  else col

def reuseColumns (remainedRows : Nat) : List FieldType → List Column → List Column
  | colType :: colTypes, col :: cols =>
    reuseColumn remainedRows (getFixedLen colType) col :: reuseColumns remainedRows colTypes cols
  | _, cols => cols

def reuseIntermChk (d : Decoder) (chk : Chunk) : Decoder × Chunk :=
  let intermChk := { d.intermChk with
    columns := reuseColumns d.remainedRows d.codec.colTypes d.intermChk.columns }
  let (chk, intermChk) := chk.swapColumns intermChk
  ({ d with intermChk, remainedRows := 0 }, chk)

/-! ### The null bits a step moves -/

@[simp] theorem length_orNullBitmapByte (src : List UInt8) (bitOffset startIdx bitMapLen : Nat)
    (bm : List UInt8) (i : Nat) :
    (orNullBitmapByte src bitOffset startIdx bitMapLen bm i).length = bm.length := by
  unfold orNullBitmapByte
  split_ifs <;> simp

theorem bitAt_orNullBitmapByte {src bm : List UInt8} {bitOffset startIdx bitMapLen : Nat}
    (hoff : 0 < bitOffset) (hoff8 : bitOffset < 8) (hlen : bm.length = bitMapLen) (i p : Nat) :
    bitAt (orNullBitmapByte src bitOffset startIdx bitMapLen bm i) p =
      (bitAt bm p || (decide (8 * startIdx + bitOffset + 8 * i ≤ p) && decide (p < 8 * bitMapLen) &&
        decide (p < 8 * startIdx + bitOffset + 8 * i + 8) &&
        bitAt src (p - (8 * startIdx + bitOffset)))) := by
  have hlow : 8 - bitOffset < 8 := by omega
  unfold orNullBitmapByte
  have hbyte := Nat.mod_lt p (by omega : 0 < 8)
  rw [bitAt_eq_testBit_getD src]
  split_ifs with hnext
  · rw [bitAt_modify_or, bitAt_modify_or, List.length_modify, testBit_shiftLeft_of_lt _ hoff8,
      testBit_shiftRight_of_lt _ hlow, hlen]
    by_cases hA : p / 8 = startIdx + i
    · have hB : ¬p / 8 = startIdx + i + 1 := by omega
      by_cases hbt : bitOffset ≤ p % 8
      · -- the low bits of the source byte land in byte `startIdx + i`
        have h1 : 8 * startIdx + bitOffset + 8 * i ≤ p := by omega
        have h2 : p < 8 * bitMapLen := by omega
        have h3 : p < 8 * startIdx + bitOffset + 8 * i + 8 := by omega
        have hdiv : (p - (8 * startIdx + bitOffset)) / 8 = i := by omega
        have hmod : (p - (8 * startIdx + bitOffset)) % 8 = p % 8 - bitOffset := by omega
        simp [hA, hbt, h1, h2, h3, hdiv, hmod, hbyte, show startIdx + i < bitMapLen by omega]
      · have h1 : ¬8 * startIdx + bitOffset + 8 * i ≤ p := by omega
        simp [hA, hbt, h1]
    · by_cases hB : p / 8 = startIdx + i + 1
      · by_cases hbt : p % 8 < bitOffset
        · -- the high bits of the source byte land in the next byte
          have h1 : 8 * startIdx + bitOffset + 8 * i ≤ p := by omega
          have h2 : p < 8 * bitMapLen := by omega
          have h3 : p < 8 * startIdx + bitOffset + 8 * i + 8 := by omega
          have hdiv : (p - (8 * startIdx + bitOffset)) / 8 = i := by omega
          have hmod : (p - (8 * startIdx + bitOffset)) % 8 = p % 8 + (8 - bitOffset) := by omega
          simp [hB, hnext, h1, h2, h3, hdiv, hmod]
        · have h3 : ¬p < 8 * startIdx + bitOffset + 8 * i + 8 := by omega
          simp [hB, h3, testBit_ge_eight _ (by omega : 8 ≤ p % 8 + (8 - bitOffset))]
      · have hout : ¬(8 * startIdx + bitOffset + 8 * i ≤ p ∧ p < 8 * startIdx + bitOffset + 8 * i + 8) := by
          omega
        simp only [hA, hB, decide_false, Bool.false_and, Bool.or_false]
        by_cases h1 : 8 * startIdx + bitOffset + 8 * i ≤ p
        · have h3 : ¬p < 8 * startIdx + bitOffset + 8 * i + 8 := fun h3 => hout ⟨h1, h3⟩
          simp [h3]
        · simp [h1]
  · rw [bitAt_modify_or, testBit_shiftLeft_of_lt _ hoff8, hlen]
    by_cases hA : p / 8 = startIdx + i
    · by_cases hbt : bitOffset ≤ p % 8
      · have h1 : 8 * startIdx + bitOffset + 8 * i ≤ p := by omega
        have h3 : p < 8 * startIdx + bitOffset + 8 * i + 8 := by omega
        have hdiv : (p - (8 * startIdx + bitOffset)) / 8 = i := by omega
        have hmod : (p - (8 * startIdx + bitOffset)) % 8 = p % 8 - bitOffset := by omega
        by_cases hin : startIdx + i < bitMapLen
        · simp [hA, hbt, h1, h3, hdiv, hmod, hbyte, hin, show p < 8 * bitMapLen by omega]
        · simp [hA, hin, show ¬p < 8 * bitMapLen by omega]
      · have h1 : ¬8 * startIdx + bitOffset + 8 * i ≤ p := by omega
        simp [hA, hbt, h1]
    · -- the next byte is past the bitmap, and every other byte is out of reach
      have hout : ¬(8 * startIdx + bitOffset + 8 * i ≤ p ∧ p < 8 * bitMapLen ∧
          p < 8 * startIdx + bitOffset + 8 * i + 8) := by omega
      simp only [hA, decide_false, Bool.false_and, Bool.or_false]
      by_cases h1 : 8 * startIdx + bitOffset + 8 * i ≤ p
      · by_cases h2 : p < 8 * bitMapLen
        · have h3 : ¬p < 8 * startIdx + bitOffset + 8 * i + 8 := fun h3 => hout ⟨h1, h2, h3⟩
          simp [h3]
        · simp [h2]
      · simp [h1]

theorem length_foldl_orNullBitmapByte (src : List UInt8) (bitOffset startIdx bitMapLen : Nat)
    (l : List Nat) (bm : List UInt8) :
    (l.foldl (orNullBitmapByte src bitOffset startIdx bitMapLen) bm).length = bm.length := by
  induction l generalizing bm with
  | nil => rfl
  | cons i l ih => rw [List.foldl_cons, ih, length_orNullBitmapByte]

/-- The loop over `n` source bytes ORs source bit `q` into destination bit `base + q` for every
`q < 8 * n` that lands inside the bitmap, `base` being `8 * startIdx + bitOffset`. -/
theorem bitAt_foldl_orNullBitmapByte {src bm : List UInt8} {bitOffset startIdx bitMapLen : Nat}
    (hoff : 0 < bitOffset) (hoff8 : bitOffset < 8) (hlen : bm.length = bitMapLen) (n p : Nat) :
    bitAt ((List.range n).foldl (orNullBitmapByte src bitOffset startIdx bitMapLen) bm) p =
      (bitAt bm p || (decide (8 * startIdx + bitOffset ≤ p) && decide (p < 8 * bitMapLen) &&
        decide (p < 8 * startIdx + bitOffset + 8 * n) &&
        bitAt src (p - (8 * startIdx + bitOffset)))) := by
  induction n with
  | zero =>
    by_cases h : 8 * startIdx + bitOffset ≤ p
    · simp [Nat.not_lt.mpr h]
    · simp [h]
  | succ n ih =>
    have hlen' : ((List.range n).foldl (orNullBitmapByte src bitOffset startIdx bitMapLen) bm).length =
        bitMapLen := by
      rw [length_foldl_orNullBitmapByte, hlen]
    rw [List.range_succ, List.foldl_append, List.foldl_cons, List.foldl_nil,
      bitAt_orNullBitmapByte hoff hoff8 hlen', ih]
    -- the new byte's bits continue the range of the bytes before
    cases bitAt bm p <;> cases bitAt src (p - (8 * startIdx + bitOffset)) <;>
      simp only [Bool.true_or, Bool.and_false, Bool.or_false, Bool.false_or, Bool.and_true,
        ← Bool.decide_and, ← Bool.decide_or, decide_eq_decide]
    omega

theorem length_decodeNullBitmap {r : Nat} {src : List UInt8} {dst : Column}
    (hlen : dst.nullBitmap.length = (dst.length + 7) / 8) (hsrc : (r + 7) / 8 ≤ src.length) :
    (decodeNullBitmap r src dst).length = (dst.length + r + 7) / 8 := by
  unfold decodeNullBitmap
  rw [length_clearRedundantBits]
  split_ifs with halign
  · simp only [List.length_append, List.length_take, hlen]
    omega
  · simp only [length_foldl_orNullBitmapByte, Column.appendMultiSameNullBitmap_false,
      List.length_append, List.length_replicate, hlen]
    omega

/-- The bits `decodeColumn` leaves in the destination: its own below its rows, then those of the
`r` source rows, then none. -/
theorem bitAt_decodeNullBitmap {r : Nat} {src : List UInt8} {dst : Column}
    (hlen : dst.nullBitmap.length = (dst.length + 7) / 8)
    (hclean : ∀ i, dst.length ≤ i → bitAt dst.nullBitmap i = false)
    (hsrc : (r + 7) / 8 ≤ src.length) (p : Nat) :
    bitAt (decodeNullBitmap r src dst) p =
      if p < dst.length then bitAt dst.nullBitmap p
      else (decide (p < dst.length + r) && bitAt src (p - dst.length)) := by
  have hpre := length_decodeNullBitmap hlen hsrc
  unfold decodeNullBitmap at hpre ⊢
  rw [length_clearRedundantBits] at hpre
  rw [bitAt_clearRedundantBits hpre]
  split_ifs with halign hp hp
  · -- rows ending on a byte boundary: the source bytes follow
    rw [bitAt_append, if_pos (by omega)]
    simp [show p < dst.length + r by omega]
  · rw [bitAt_append, if_neg (by omega), bitAt_take, show 8 * dst.nullBitmap.length = dst.length by omega]
    by_cases hr : p < dst.length + r
    · simp [hr, show (p - dst.length) / 8 < (r + 7) / 8 by omega]
    · simp [hr]
  · -- rows ending inside a byte: the source bits are ORed in from bit `dst.length` on
    have hbase : 8 * ((dst.length - 1) / 8) + dst.length % 8 = dst.length := by omega
    rw [bitAt_foldl_orNullBitmapByte (by omega) (Nat.mod_lt _ (by omega)) rfl, hbase]
    simp only [Column.appendMultiSameNullBitmap_false, bitAt_append,
      if_pos (show p < 8 * dst.nullBitmap.length by omega)]
    simp [show ¬dst.length ≤ p by omega, show p < dst.length + r by omega]
  · have hbase : 8 * ((dst.length - 1) / 8) + dst.length % 8 = dst.length := by omega
    have hzero : bitAt ((dst.appendMultiSameNullBitmap false r).nullBitmap) p = false := by
      rw [Column.appendMultiSameNullBitmap_false, bitAt_append]
      split_ifs
      · exact hclean p (by omega)
      · simp [bitAt_replicate]
    have hL : (dst.appendMultiSameNullBitmap false r).nullBitmap.length = (dst.length + r + 7) / 8 := by
      rw [Column.appendMultiSameNullBitmap_false, List.length_append, List.length_replicate, hlen]
      omega
    rw [bitAt_foldl_orNullBitmapByte (by omega) (Nat.mod_lt _ (by omega)) rfl, hbase, hzero,
      Bool.false_or, hL]
    by_cases hr : p < dst.length + r
    · simp [hr, show dst.length ≤ p by omega, show p < 8 * ((dst.length + r + 7) / 8) by omega,
        show p < dst.length + 8 * ((r + 7) / 8) by omega]
    · simp [hr]

end Decoder

/-- A column as the appending functions leave it: laid out for its width, with a null bitmap of
exactly the bytes its rows need and no bit set past its last row. -/
structure Column.Tidy (c : Column) (elemLen : Int) : Prop where
  layout : c.Layout elemLen
  nullBitmap_length : c.nullBitmap.length = (c.length + 7) / 8
  bitAt_of_le : ∀ i, c.length ≤ i → bitAt c.nullBitmap i = false

namespace Decoder

/-- The intermediate column of a decoder with `m` rows left, for width `elemLen`: the column
`ReuseIntermChk` would hand over is laid out for the width, the offsets are in order, and the
bitmap has a byte for every eight rows left. -/
structure Pending (elemLen : Int) (m : Nat) (src : Column) : Prop where
  layout : (reuseColumn m elemLen src).Layout elemLen
  offsets_sorted : elemLen = varElemLen → src.offsets.Pairwise (· ≤ ·)
  nullBitmap_length : (m + 7) / 8 ≤ src.nullBitmap.length

theorem reuseColumn_of_ne {elemLen : Int} (hw : elemLen ≠ varElemLen) (m : Nat) (col : Column) :
    reuseColumn m elemLen col = { col with length := m } := by
  rw [reuseColumn, if_neg hw]

theorem reuseColumn_var (m : Nat) (col : Column) :
    reuseColumn m varElemLen col =
      { col with length := m, offsets := col.offsets.map (· - col.offsets.getD 0 0) } := by
  rw [reuseColumn, if_pos rfl]
  dsimp only
  split_ifs with h
  · rfl
  · simp only [ne_eq, Decidable.not_not] at h
    rw [h]
    simp

theorem decodeColumn_of_ne {elemLen : Int} (hw : elemLen ≠ varElemLen) (r : Nat) (src dst : Column) :
    decodeColumn elemLen r src dst =
      ({ src with
          nullBitmap := src.nullBitmap.drop ((r + 7) / 8)
          data := src.data.drop (elemLen * r).toNat },
        { dst with
          nullBitmap := decodeNullBitmap r src.nullBitmap dst
          length := dst.length + r
          data := dst.data ++ src.data.take (elemLen * r).toNat }) := by
  rw [decodeColumn, if_neg hw]

theorem decodeColumn_var (r : Nat) (src dst : Column) :
    decodeColumn varElemLen r src dst =
      ({ src with
          offsets := src.offsets.drop r
          nullBitmap := src.nullBitmap.drop ((r + 7) / 8)
          data := src.data.drop ((src.offsets.getD r 0 : Int) - src.offsets.getD 0 0).toNat },
        { dst with
          offsets := decodeOffsets r src.offsets dst
          nullBitmap := decodeNullBitmap r src.nullBitmap dst
          length := dst.length + r
          data := dst.data ++
            src.data.take ((src.offsets.getD r 0 : Int) - src.offsets.getD 0 0).toNat }) := by
  rw [decodeColumn, if_pos rfl]

theorem decodeOffsets_eq {r : Nat} {srcOffsets : List Nat} {dst : Column}
    (hlen : dst.offsets.length = dst.length + 1) (hge : ∀ o ∈ srcOffsets, srcOffsets.getD 0 0 ≤ o) :
    decodeOffsets r srcOffsets dst = dst.offsets ++ ((srcOffsets.drop 1).take r).map fun o =>
      dst.offsets.getD dst.length 0 + (o - srcOffsets.getD 0 0) := by
  unfold decodeOffsets
  apply List.ext_getElem (by simp)
  intro k h₁ h₂
  have hk₁ : k < dst.length + 1 + min r (srcOffsets.length - 1) := by simpa [hlen] using h₂
  rw [List.getElem_mapIdx]
  by_cases hk : k < dst.offsets.length
  · rw [List.getElem_append_left hk, List.getElem_append_left hk, if_neg (by omega)]
  · have hk' : k - dst.offsets.length < ((srcOffsets.drop 1).take r).length := by simp; omega
    rw [List.getElem_append_right (by omega), List.getElem_append_right (by omega), List.getElem_map,
      if_pos ⟨by omega, by omega⟩]
    have hmem := List.mem_of_mem_drop (List.mem_of_mem_take (List.getElem_mem hk'))
    have hle := hge _ hmem
    omega

/-! ### One column of a step -/

variable {elemLen : Int} {r : Nat} {src dst : Column}

@[simp] theorem decodeColumn_dst_nullBitmap :
    (decodeColumn elemLen r src dst).2.nullBitmap = decodeNullBitmap r src.nullBitmap dst := by
  rfl

@[simp] theorem decodeColumn_dst_length : (decodeColumn elemLen r src dst).2.length = dst.length + r := by
  rfl

@[simp] theorem decodeColumn_dst_elemBuf : (decodeColumn elemLen r src dst).2.elemBuf = dst.elemBuf := by
  rfl

@[simp] theorem decodeColumn_src_nullBitmap :
    (decodeColumn elemLen r src dst).1.nullBitmap = src.nullBitmap.drop ((r + 7) / 8) := by
  rfl

@[simp] theorem decodeColumn_src_elemBuf : (decodeColumn elemLen r src dst).1.elemBuf = src.elemBuf := by
  rfl

@[simp] theorem reuseColumn_nullBitmap (m : Nat) (col : Column) :
    (reuseColumn m elemLen col).nullBitmap = col.nullBitmap := by
  unfold reuseColumn; dsimp only; split_ifs <;> rfl

@[simp] theorem reuseColumn_length (m : Nat) (col : Column) : (reuseColumn m elemLen col).length = m := by
  unfold reuseColumn; dsimp only; split_ifs <;> rfl

@[simp] theorem reuseColumn_elemBuf (m : Nat) (col : Column) :
    (reuseColumn m elemLen col).elemBuf = col.elemBuf := by
  unfold reuseColumn; dsimp only; split_ifs <;> rfl

@[simp] theorem reuseColumn_data (m : Nat) (col : Column) : (reuseColumn m elemLen col).data = col.data := by
  unfold reuseColumn; dsimp only; split_ifs <;> rfl

/-- The first `r` rows left are what `ReuseIntermChk` would hand over with `r` rows left. -/
theorem rows_reuseColumn_take {m : Nat} (hr : r ≤ m) (col : Column) :
    (reuseColumn m elemLen col).rows.take r = (reuseColumn r elemLen col).rows := by
  rw [Column.rows_take _ (by simpa using hr)]
  unfold reuseColumn
  dsimp only
  split_ifs <;> rfl

theorem getD_decodeOffsets {S : List Nat} (hlen : dst.offsets.length = dst.length + 1)
    (hsorted : S.Pairwise (· ≤ ·)) (hS : r < S.length) {j : Nat} (hj : j ≤ r) :
    (decodeOffsets r S dst).getD (dst.length + j) 0 =
      dst.offsets.getD dst.length 0 + (S.getD j 0 - S.getD 0 0) := by
  rw [decodeOffsets_eq hlen (fun o ho => getD_zero_le_of_pairwise hsorted ho)]
  rcases Nat.eq_zero_or_pos j with rfl | hpos
  · rw [List.getD_append _ _ _ _ (by omega)]
    simp
  · rw [List.getD_append_right _ _ _ _ (by omega), hlen,
      show dst.length + j - (dst.length + 1) = j - 1 by omega]
    simp only [List.getD_eq_getElem?_getD, List.getElem?_map, List.getElem?_take, List.getElem?_drop,
      if_pos (show j - 1 < r by omega), show 1 + (j - 1) = j by omega]
    rw [List.getElem?_eq_getElem (by omega : j < S.length)]
    simp

variable {m : Nat}

/-- A step leaves the bytes of the destination's own rows. -/
theorem getRaw_decodeColumn_of_lt (hdst : dst.Tidy elemLen) (hsrc : Pending elemLen m src)
    {i : Nat} (hi : i < dst.length) :
    (decodeColumn elemLen r src dst).2.getRaw i = dst.getRaw i := by
  by_cases hw : elemLen = varElemLen
  · subst hw
    obtain ⟨helem, hoffsets, hsorted, hdata⟩ := Column.layout_var_iff.mp hdst.layout
    have hle : dst.offsets.getD (i + 1) 0 ≤ dst.data.length :=
      hdata ▸ getD_le_getD_of_pairwise hsorted (by omega) (by omega)
    rw [decodeColumn_var]
    simp only [Column.getRaw, helem]
    rw [decodeOffsets_eq hoffsets (fun o ho => getD_zero_le_of_pairwise (hsrc.offsets_sorted rfl) ho),
      List.getD_append _ _ _ _ (by omega), List.getD_append _ _ _ _ (by omega),
      extract_append_left _ hle]
  · obtain ⟨buf, hbuf, hwidth, hdata⟩ := (Column.layout_fixed_iff hw).mp hdst.layout
    have hle : i * buf.length + buf.length ≤ dst.data.length := by
      have hmul := Nat.mul_le_mul_right buf.length (Nat.succ_le_of_lt hi)
      rw [Nat.succ_mul] at hmul
      rw [hdata, Nat.mul_comm buf.length dst.length]
      exact hmul
    rw [decodeColumn_of_ne hw]
    simp only [Column.getRaw, hbuf]
    rw [extract_append_left _ hle]

/-- A step puts the bytes of the `j`-th row left after the destination's rows. -/
theorem getRaw_decodeColumn_add (hdst : dst.Tidy elemLen) (hsrc : Pending elemLen m src)
    (hr : r ≤ m) {j : Nat} (hj : j < r) :
    (decodeColumn elemLen r src dst).2.getRaw (dst.length + j) = (reuseColumn r elemLen src).getRaw j := by
  by_cases hw : elemLen = varElemLen
  · subst hw
    obtain ⟨helem, hoffsets, hsorted, hdata⟩ := Column.layout_var_iff.mp hdst.layout
    have hsorted' := hsrc.offsets_sorted rfl
    obtain ⟨hselem, hsoffsets, -, hsdata⟩ := Column.layout_var_iff.mp hsrc.layout
    rw [reuseColumn_var] at hselem hsoffsets hsdata ⊢
    replace hselem : src.elemBuf = none := hselem
    simp only [List.length_map] at hsoffsets
    have hle : src.offsets.getD (j + 1) 0 ≤ src.offsets.getD r 0 :=
      getD_le_getD_of_pairwise hsorted' (by omega) (by omega)
    have hbytes : ((src.offsets.getD r 0 : Int) - src.offsets.getD 0 0).toNat =
        src.offsets.getD r 0 - src.offsets.getD 0 0 := by omega
    rw [decodeColumn_var, hbytes]
    simp only [Column.getRaw, helem, hselem]
    rw [Nat.add_assoc, getD_decodeOffsets hoffsets hsorted' (by omega) (by omega),
      getD_decodeOffsets hoffsets hsorted' (by omega) (by omega), getD_map_sub, getD_map_sub, ← hdata,
      extract_append_right, extract_take _ (by omega)]
  · obtain ⟨buf, hbuf, hwidth, hdata⟩ := (Column.layout_fixed_iff hw).mp hdst.layout
    obtain ⟨sbuf, hsbuf, hswidth, hsdata⟩ := (Column.layout_fixed_iff hw).mp hsrc.layout
    rw [reuseColumn_of_ne hw] at hsbuf hsdata ⊢
    replace hsbuf : src.elemBuf = some sbuf := hsbuf
    have hsame : sbuf.length = buf.length := by omega
    have hbytes : (elemLen * r).toNat = buf.length * r := by
      rw [← hwidth]
      omega
    have hend : j * buf.length + buf.length ≤ buf.length * r := by
      have hmul := Nat.mul_le_mul_right buf.length (Nat.succ_le_of_lt hj)
      rw [Nat.succ_mul, Nat.mul_comm r] at hmul
      exact hmul
    have hstart : (dst.length + j) * buf.length = dst.data.length + j * buf.length := by
      rw [hdata, Nat.add_mul, Nat.mul_comm buf.length]
    rw [decodeColumn_of_ne hw, hbytes]
    simp only [Column.getRaw, hbuf, hsbuf, hsame]
    rw [hstart, Nat.add_assoc, extract_append_right, extract_take _ hend]

/-- A step appends to the destination the first `r` rows left. -/
theorem rows_decodeColumn (hdst : dst.Tidy elemLen) (hsrc : Pending elemLen m src) (hr : r ≤ m) :
    (decodeColumn elemLen r src dst).2.rows =
      dst.rows ++ (reuseColumn m elemLen src).rows.take r := by
  have hbits := bitAt_decodeNullBitmap (r := r) hdst.nullBitmap_length hdst.bitAt_of_le
    (le_trans (Nat.div_le_div_right (by omega)) hsrc.nullBitmap_length)
  rw [rows_reuseColumn_take hr]
  apply Column.rows_eq_append (by simp)
  · intro i hi
    refine ⟨?_, getRaw_decodeColumn_of_lt hdst hsrc hi⟩
    rw [Column.isNull_eq_not_bitAt, Column.isNull_eq_not_bitAt, decodeColumn_dst_nullBitmap, hbits,
      if_pos hi]
  · intro j hj
    simp only [reuseColumn_length] at hj
    refine ⟨?_, getRaw_decodeColumn_add hdst hsrc hr hj⟩
    rw [Column.isNull_eq_not_bitAt, Column.isNull_eq_not_bitAt, decodeColumn_dst_nullBitmap, hbits,
      if_neg (by omega), reuseColumn_nullBitmap, Nat.add_sub_cancel_left,
      decide_eq_true (by omega : dst.length + j < dst.length + r), Bool.true_and]

theorem getD_drop (l : List Nat) (r j : Nat) : (l.drop r).getD j 0 = l.getD (r + j) 0 := by
  rw [List.getD_eq_getElem?_getD, List.getD_eq_getElem?_getD, List.getElem?_drop]

/-- What is left after a step is what was left without its first `r` rows. -/
theorem rows_reuseColumn_decodeColumn (hsrc : Pending elemLen m src) (hr : r ≤ m)
    (hbatch : r % 8 = 0 ∨ r = m) :
    (reuseColumn (m - r) elemLen (decodeColumn elemLen r src dst).1).rows =
      (reuseColumn m elemLen src).rows.drop r := by
  apply Column.rows_eq_drop (by simp; omega)
  intro j hj
  simp only [reuseColumn_length] at hj
  have hbyte : 8 * ((r + 7) / 8) = r := by omega
  constructor
  · rw [Column.isNull_eq_not_bitAt, Column.isNull_eq_not_bitAt, reuseColumn_nullBitmap,
      reuseColumn_nullBitmap, decodeColumn_src_nullBitmap, bitAt_drop, hbyte]
  · by_cases hw : elemLen = varElemLen
    · subst hw
      have hsorted := hsrc.offsets_sorted rfl
      obtain ⟨hselem, hsoffsets, -, -⟩ := Column.layout_var_iff.mp hsrc.layout
      rw [reuseColumn_var] at hselem hsoffsets
      replace hselem : src.elemBuf = none := hselem
      simp only [List.length_map] at hsoffsets
      have h0 : src.offsets.getD 0 0 ≤ src.offsets.getD r 0 :=
        getD_le_getD_of_pairwise hsorted (Nat.zero_le _) (by omega)
      have h1 : src.offsets.getD r 0 ≤ src.offsets.getD (r + j) 0 :=
        getD_le_getD_of_pairwise hsorted (by omega) (by omega)
      have h2 : src.offsets.getD (r + j) 0 ≤ src.offsets.getD (r + (j + 1)) 0 :=
        getD_le_getD_of_pairwise hsorted (by omega) (by omega)
      have hbytes : ((src.offsets.getD r 0 : Int) - src.offsets.getD 0 0).toNat =
          src.offsets.getD r 0 - src.offsets.getD 0 0 := by omega
      rw [reuseColumn_var, reuseColumn_var, decodeColumn_var, hbytes]
      simp only [Column.getRaw, hselem, getD_map_sub, getD_drop, Nat.add_zero]
      rw [extract_drop, Nat.add_assoc r j 1]
      congr 1 <;> omega
    · obtain ⟨sbuf, hsbuf, hswidth, -⟩ := (Column.layout_fixed_iff hw).mp hsrc.layout
      rw [reuseColumn_of_ne hw] at hsbuf
      replace hsbuf : src.elemBuf = some sbuf := hsbuf
      have hbytes : (elemLen * r).toNat = sbuf.length * r := by
        rw [← hswidth]
        omega
      have hstart : sbuf.length * r + j * sbuf.length = (r + j) * sbuf.length := by
        rw [Nat.add_mul, Nat.mul_comm sbuf.length r]
      rw [reuseColumn_of_ne hw, reuseColumn_of_ne hw, decodeColumn_of_ne hw]
      simp only [Column.getRaw, hsbuf]
      rw [extract_drop, hbytes, ← Nat.add_assoc, hstart]
/-- A step leaves the destination tidy. -/
theorem tidy_decodeColumn (hdst : dst.Tidy elemLen) (hsrc : Pending elemLen m src) (hr : r ≤ m) :
    (decodeColumn elemLen r src dst).2.Tidy elemLen where
  layout := by
    by_cases hw : elemLen = varElemLen
    · subst hw
      obtain ⟨helem, hoffsets, hsorted, hdata⟩ := Column.layout_var_iff.mp hdst.layout
      have hsorted' := hsrc.offsets_sorted rfl
      obtain ⟨-, hsoffsets, -, hsdata⟩ := Column.layout_var_iff.mp hsrc.layout
      rw [reuseColumn_var] at hsoffsets hsdata
      simp only [List.length_map, getD_map_sub] at hsoffsets hsdata
      have hle : src.offsets.getD r 0 ≤ src.offsets.getD m 0 :=
        getD_le_getD_of_pairwise hsorted' hr (by omega)
      have hge : ∀ o ∈ src.offsets, src.offsets.getD 0 0 ≤ o :=
        fun o ho => getD_zero_le_of_pairwise hsorted' ho
      have hbytes : ((src.offsets.getD r 0 : Int) - src.offsets.getD 0 0).toNat =
          src.offsets.getD r 0 - src.offsets.getD 0 0 := by omega
      rw [decodeColumn_var, hbytes]
      apply Column.layout_var_iff.mpr
      refine ⟨helem, ?_, ?_, ?_⟩
      · rw [decodeOffsets_eq hoffsets hge]
        simp only [List.length_append, List.length_map, List.length_take, List.length_drop]
        omega
      · -- the appended offsets continue in order from the destination's last
        rw [decodeOffsets_eq hoffsets hge]
        refine List.pairwise_append.mpr ⟨hsorted, ?_, ?_⟩
        · apply List.pairwise_map.mpr
          exact (hsorted'.sublist ((List.take_sublist _ _).trans (List.drop_sublist _ _))).imp
            fun hab => by omega
        · intro a ha b hb
          obtain ⟨o, -, rfl⟩ := List.mem_map.mp hb
          have := le_getD_of_pairwise hsorted hoffsets ha
          omega
      · have hend := getD_decodeOffsets (r := r) (j := r) hoffsets hsorted' (by omega) (Nat.le_refl r)
        simp only [List.length_append, List.length_take, hend, hdata]
        omega
    · obtain ⟨buf, hbuf, hwidth, hdata⟩ := (Column.layout_fixed_iff hw).mp hdst.layout
      obtain ⟨sbuf, hsbuf, hswidth, hsdata⟩ := (Column.layout_fixed_iff hw).mp hsrc.layout
      rw [reuseColumn_of_ne hw] at hsdata
      have hbytes : (elemLen * r).toNat = buf.length * r := by
        rw [← hwidth]
        omega
      have hsome : buf.length * r ≤ src.data.length := by
        rw [hsdata, ← Nat.cast_inj.mp (hswidth.trans hwidth.symm)]
        exact Nat.mul_le_mul_left _ hr
      rw [decodeColumn_of_ne hw, hbytes]
      apply (Column.layout_fixed_iff hw).mpr
      refine ⟨buf, hbuf, hwidth, ?_⟩
      simp only [List.length_append, List.length_take, hdata, Nat.min_eq_left hsome, Nat.mul_add]
  nullBitmap_length := by
    rw [decodeColumn_dst_nullBitmap, decodeColumn_dst_length,
      length_decodeNullBitmap hdst.nullBitmap_length
        (le_trans (Nat.div_le_div_right (by omega)) hsrc.nullBitmap_length), Nat.add_assoc]
  bitAt_of_le := by
    intro i hi
    rw [decodeColumn_dst_length] at hi
    rw [decodeColumn_dst_nullBitmap, bitAt_decodeNullBitmap hdst.nullBitmap_length hdst.bitAt_of_le
      (le_trans (Nat.div_le_div_right (by omega)) hsrc.nullBitmap_length), if_neg (by omega),
      decide_eq_false (by omega), Bool.false_and]

/-- A step leaves the intermediate column with the rest of its rows to hand over. -/
theorem pending_decodeColumn (hsrc : Pending elemLen m src) (hr : r ≤ m)
    (hbatch : r % 8 = 0 ∨ r = m) : Pending elemLen (m - r) (decodeColumn elemLen r src dst).1 where
  layout := by
    by_cases hw : elemLen = varElemLen
    · subst hw
      have hsorted := hsrc.offsets_sorted rfl
      obtain ⟨hselem, hsoffsets, -, hsdata⟩ := Column.layout_var_iff.mp hsrc.layout
      rw [reuseColumn_var] at hselem hsoffsets hsdata
      simp only [List.length_map, getD_map_sub] at hsoffsets hsdata
      have h0 : src.offsets.getD 0 0 ≤ src.offsets.getD r 0 :=
        getD_le_getD_of_pairwise hsorted (Nat.zero_le _) (by omega)
      have h1 : src.offsets.getD r 0 ≤ src.offsets.getD m 0 :=
        getD_le_getD_of_pairwise hsorted hr (by omega)
      have hbytes : ((src.offsets.getD r 0 : Int) - src.offsets.getD 0 0).toNat =
          src.offsets.getD r 0 - src.offsets.getD 0 0 := by omega
      rw [decodeColumn_var, hbytes, reuseColumn_var]
      apply Column.layout_var_iff.mpr
      refine ⟨hselem, by simp; omega, ?_, ?_⟩
      · -- the offsets left stay in order once moved to start at 0
        apply List.pairwise_map.mpr
        exact (hsorted.sublist (List.drop_sublist _ _)).imp fun hab => by omega
      · simp only [List.length_drop, hsdata, getD_map_sub, getD_drop, Nat.add_zero,
          show r + (m - r) = m by omega]
        omega
    · obtain ⟨sbuf, hsbuf, hswidth, hsdata⟩ := (Column.layout_fixed_iff hw).mp hsrc.layout
      rw [reuseColumn_of_ne hw] at hsbuf hsdata
      have hbytes : (elemLen * r).toNat = sbuf.length * r := by
        rw [← hswidth]
        omega
      rw [decodeColumn_of_ne hw, hbytes, reuseColumn_of_ne hw]
      apply (Column.layout_fixed_iff hw).mpr
      refine ⟨sbuf, hsbuf, hswidth, ?_⟩
      simp only [List.length_drop, hsdata, Nat.mul_sub]
  offsets_sorted := by
    intro hw
    subst hw
    rw [decodeColumn_var]
    exact (hsrc.offsets_sorted rfl).sublist (List.drop_sublist _ _)
  nullBitmap_length := by
    have := hsrc.nullBitmap_length
    rw [decodeColumn_src_nullBitmap, List.length_drop]
    omega

/-- A step moves rows from the intermediate column to the destination and loses none. -/
theorem rows_append_decodeColumn (hdst : dst.Tidy elemLen) (hsrc : Pending elemLen m src)
    (hr : r ≤ m) (hbatch : r % 8 = 0 ∨ r = m) :
    (decodeColumn elemLen r src dst).2.rows ++
        (reuseColumn (m - r) elemLen (decodeColumn elemLen r src dst).1).rows =
      dst.rows ++ (reuseColumn m elemLen src).rows := by
  rw [rows_decodeColumn hdst hsrc hr, rows_reuseColumn_decodeColumn hsrc hr hbatch, List.append_assoc,
    List.take_append_drop]

/-! ### A step over all the columns -/

/-- The columns of a decoder with `m` rows left and of a chunk of `a` rows it decodes into, ordinal
by ordinal: each destination column has the chunk's rows and is tidy, and each intermediate column
is pending, at the width of the ordinal's type. -/
def ColumnsInv (a m : Nat) : List FieldType → List Column → List Column → Prop
  | colType :: colTypes, src :: srcs, dst :: dsts =>
    (dst.length = a ∧ dst.Tidy (getFixedLen colType) ∧ Pending (getFixedLen colType) m src) ∧
      ColumnsInv a m colTypes srcs dsts
  | [], [], [] => True
  | _, _, _ => False

@[simp] theorem decodeColumns_cons (r : Nat) (colType : FieldType) (colTypes : List FieldType)
    (src dst : Column) (srcs dsts : List Column) :
    decodeColumns r (colType :: colTypes) (src :: srcs) (dst :: dsts) =
      ((decodeColumn (getFixedLen colType) r src dst).1 :: (decodeColumns r colTypes srcs dsts).1,
        (decodeColumn (getFixedLen colType) r src dst).2 :: (decodeColumns r colTypes srcs dsts).2) :=
  rfl

@[simp] theorem reuseColumns_cons (m : Nat) (colType : FieldType) (colTypes : List FieldType)
    (col : Column) (cols : List Column) :
    reuseColumns m (colType :: colTypes) (col :: cols) =
      reuseColumn m (getFixedLen colType) col :: reuseColumns m colTypes cols :=
  rfl

variable {a : Nat}

theorem columnsInv_decodeColumns (hr : r ≤ m) (hbatch : r % 8 = 0 ∨ r = m) {colTypes : List FieldType}
    {srcs dsts : List Column} (h : ColumnsInv a m colTypes srcs dsts) :
    ColumnsInv (a + r) (m - r) colTypes (decodeColumns r colTypes srcs dsts).1
      (decodeColumns r colTypes srcs dsts).2 := by
  induction colTypes generalizing srcs dsts with
  | nil =>
    cases srcs <;> cases dsts <;> exact h
  | cons colType colTypes ih =>
    cases srcs with
    | nil => exact h.elim
    | cons src srcs =>
      cases dsts with
      | nil => exact h.elim
      | cons dst dsts =>
        obtain ⟨⟨hlen, hdst, hsrc⟩, hrest⟩ := h
        rw [decodeColumns_cons]
        exact ⟨⟨by simp [hlen], tidy_decodeColumn hdst hsrc hr, pending_decodeColumn hsrc hr hbatch⟩,
          ih hrest⟩

theorem rows_decodeColumns (hr : r ≤ m) (hbatch : r % 8 = 0 ∨ r = m) {colTypes : List FieldType}
    {srcs dsts : List Column} (h : ColumnsInv a m colTypes srcs dsts) :
    List.zipWith (· ++ ·) ((decodeColumns r colTypes srcs dsts).2.map Column.rows)
        ((reuseColumns (m - r) colTypes (decodeColumns r colTypes srcs dsts).1).map Column.rows) =
      List.zipWith (· ++ ·) (dsts.map Column.rows) ((reuseColumns m colTypes srcs).map Column.rows) := by
  induction colTypes generalizing srcs dsts with
  | nil =>
    cases srcs <;> cases dsts <;> rfl
  | cons colType colTypes ih =>
    cases srcs with
    | nil => exact h.elim
    | cons src srcs =>
      cases dsts with
      | nil => exact h.elim
      | cons dst dsts =>
        obtain ⟨⟨-, hdst, hsrc⟩, hrest⟩ := h
        rw [decodeColumns_cons, reuseColumns_cons, reuseColumns_cons, List.map_cons, List.map_cons,
          List.map_cons, List.map_cons, List.zipWith_cons_cons, List.zipWith_cons_cons,
          rows_append_decodeColumn hdst hsrc hr hbatch, ih hrest]

/-- The rows `Decode` moves: what `chk` still asks for rounded up to a multiple of 8, and at most
the rows left. -/
def batchRows (remainedRows numRows requiredRows : Nat) : Nat :=
  min remainedRows ((requiredRows - numRows + 7) / 8 * 8)

theorem batchRows_le (m a req : Nat) : batchRows m a req ≤ m :=
  Nat.min_le_left _ _

theorem batchRows_batch (m a req : Nat) : batchRows m a req % 8 = 0 ∨ batchRows m a req = m := by
  unfold batchRows
  omega

theorem decode_eq (d : Decoder) {chk : Chunk} (h : chk.numRows < chk.requiredRows) :
    d.decode chk =
      ({ d with
          intermChk := { d.intermChk with
            columns := (decodeColumns (batchRows d.remainedRows chk.numRows chk.requiredRows)
              d.codec.colTypes d.intermChk.columns chk.columns).1 }
          remainedRows := d.remainedRows - batchRows d.remainedRows chk.numRows chk.requiredRows },
        { chk with
          columns := (decodeColumns (batchRows d.remainedRows chk.numRows chk.requiredRows)
            d.codec.colTypes d.intermChk.columns chk.columns).2 }) := by
  have hround : ((chk.requiredRows : Int) - chk.numRows + 7) / 8 * 8 =
      (((chk.requiredRows - chk.numRows + 7) / 8 * 8 : Nat) : Int) := by
    omega
  have hr : (if ((chk.requiredRows : Int) - chk.numRows + 7) / 8 * 8 > d.remainedRows then
      (d.remainedRows : Int) else ((chk.requiredRows : Int) - chk.numRows + 7) / 8 * 8) =
      (batchRows d.remainedRows chk.numRows chk.requiredRows : Int) := by
    rw [hround, batchRows]
    split_ifs <;> omega
  simp only [decode, hr, Int.toNat_natCast]
  congr
  omega

theorem ColumnsInv.length_of_mem {colTypes : List FieldType} {srcs dsts : List Column}
    (h : ColumnsInv a m colTypes srcs dsts) {col : Column} (hcol : col ∈ dsts) : col.length = a := by
  induction colTypes generalizing srcs dsts with
  | nil => cases srcs <;> cases dsts <;> first | exact h.elim | cases hcol
  | cons colType colTypes ih =>
    cases srcs with
    | nil => exact h.elim
    | cons src srcs =>
      cases dsts with
      | nil => cases hcol
      | cons dst dsts =>
        obtain ⟨⟨hlen, -, -⟩, hrest⟩ := h
        rcases List.mem_cons.mp hcol with rfl | hmem
        · exact hlen
        · exact ih hrest hmem

theorem ColumnsInv.length_of_mem_reuseColumns {colTypes : List FieldType} {srcs dsts : List Column}
    (h : ColumnsInv a m colTypes srcs dsts) {col : Column} (hcol : col ∈ reuseColumns m colTypes srcs) :
    col.length = m := by
  induction colTypes generalizing srcs dsts with
  | nil => cases srcs <;> cases dsts <;> first | exact h.elim | cases hcol
  | cons colType colTypes ih =>
    cases srcs with
    | nil => exact h.elim
    | cons src srcs =>
      cases dsts with
      | nil => exact h.elim
      | cons dst dsts =>
        rw [reuseColumns_cons] at hcol
        rcases List.mem_cons.mp hcol with rfl | hmem
        · exact reuseColumn_length _ _
        · exact ih h.2 hmem

theorem ColumnsInv.length_eq {colTypes : List FieldType} {srcs dsts : List Column}
    (h : ColumnsInv a m colTypes srcs dsts) : dsts.length = (reuseColumns m colTypes srcs).length := by
  induction colTypes generalizing srcs dsts with
  | nil => cases srcs <;> cases dsts <;> first | rfl | exact h.elim
  | cons colType colTypes ih =>
    cases srcs with
    | nil => exact h.elim
    | cons src srcs =>
      cases dsts with
      | nil => exact h.elim
      | cons dst dsts =>
        rw [reuseColumns_cons, List.length_cons, List.length_cons, ih h.2]

theorem ColumnsInv.ne_nil {colTypes : List FieldType} {srcs dsts : List Column}
    (h : ColumnsInv a m colTypes srcs dsts) (hne : colTypes ≠ []) :
    dsts ≠ [] ∧ reuseColumns m colTypes srcs ≠ [] := by
  cases colTypes with
  | nil => exact absurd rfl hne
  | cons colType colTypes =>
    cases srcs with
    | nil => exact h.elim
    | cons src srcs =>
      cases dsts with
      | nil => exact h.elim
      | cons dst dsts => exact ⟨List.cons_ne_nil _ _, by simp⟩

/-! ### Runs of `Decode` -/

/-- What a decoder and the chunk it decodes into hold between two calls, for a stream of `n` rows
that ends as the columns `table`: their columns as `ColumnsInv` has them, at least one, the rows
decoded and the rows left adding up to `n`, and, ordinal by ordinal, the rows of the destination
column followed by those left in the intermediate one are the column of `table`. -/
structure StreamInv (n : Nat) (table : List (List (Option (List UInt8)))) (d : Decoder) (chk : Chunk) :
    Prop where
  columns : ColumnsInv chk.numRows d.remainedRows d.codec.colTypes d.intermChk.columns chk.columns
  ne_nil : d.codec.colTypes ≠ []
  total : chk.numRows + d.remainedRows = n
  rows : List.zipWith (· ++ ·) (chk.columns.map Column.rows)
    ((reuseColumns d.remainedRows d.codec.colTypes d.intermChk.columns).map Column.rows) = table

variable {n : Nat} {table : List (List (Option (List UInt8)))}

/-- A `Decode` call that `chk` asks rows of keeps the invariant. -/
theorem streamInv_decode {d : Decoder} {chk : Chunk} (h : StreamInv n table d chk)
    (hprogress : chk.numRows < chk.requiredRows) :
    StreamInv n table (d.decode chk).1 (d.decode chk).2 := by
  have hr := batchRows_le d.remainedRows chk.numRows chk.requiredRows
  have hbatch := batchRows_batch d.remainedRows chk.numRows chk.requiredRows
  have hinv := columnsInv_decodeColumns hr hbatch h.columns
  have hnum : Chunk.numRows { chk with columns := (decodeColumns
      (batchRows d.remainedRows chk.numRows chk.requiredRows) d.codec.colTypes d.intermChk.columns
      chk.columns).2 } = chk.numRows + batchRows d.remainedRows chk.numRows chk.requiredRows :=
    Chunk.numRows_of_length (hinv.ne_nil h.ne_nil).1 fun _ hcol => hinv.length_of_mem hcol
  rw [decode_eq d hprogress]
  refine ⟨?_, h.ne_nil, ?_, ?_⟩ <;> dsimp only
  · rw [hnum]
    exact hinv
  · have := h.total
    rw [hnum]
    omega
  · rw [← h.rows]
    exact rows_decodeColumns hr hbatch h.columns

/-- The rows a chunk holds followed by those `ReuseIntermChk` would hand over are the rows of the
stream. -/
theorem rows_append_reuseIntermChk {d : Decoder} {chk : Chunk} (h : StreamInv n table d chk)
    (other : Chunk) : chk.rows ++ (d.reuseIntermChk other).2.rows = rowsOfColumns n table none := by
  have hne := h.columns.ne_nil h.ne_nil
  have hleft : (d.reuseIntermChk other).2.numRows = d.remainedRows :=
    Chunk.numRows_of_length hne.2 fun _ hcol => h.columns.length_of_mem_reuseColumns hcol
  rw [Chunk.rows_eq_rowsOfColumns, Chunk.rows_eq_rowsOfColumns, hleft, ← h.total, ← h.rows]
  apply (rowsOfColumns_zipWith_append _ _ _ _).symm
  · intro rows hrows
    obtain ⟨col, hcol, rfl⟩ := List.mem_map.mp hrows
    rw [Column.length_rows, h.columns.length_of_mem hcol]
  · rw [List.length_map, List.length_map]
    exact h.columns.length_eq

/-- A column with all its rows left, and offsets from 0 when it is of variable length, is handed
over as it is. -/
theorem reuseColumn_self {col : Column} (hoffsets : elemLen = varElemLen → col.offsets.getD 0 0 = 0) :
    reuseColumn col.length elemLen col = col := by
  by_cases hw : elemLen = varElemLen
  · subst hw
    rw [reuseColumn_var, hoffsets rfl]
    simp
  · rw [reuseColumn_of_ne hw]

/-- `Reset` reads the columns `Encode` writes into the intermediate columns, each pending with all
its rows, beside destination columns of `a` rows each. -/
theorem columnsInv_reset (c : Codec) {colTypes : List FieldType} {srcs : List Column} {n : Nat}
    (hsrc : List.Forall₂ (fun colType col => col.Encodable (getFixedLen colType) ∧
      (getFixedLen colType = varElemLen → col.offsets.getD 0 0 = 0)) colTypes srcs)
    (hsrcLen : ∀ col ∈ srcs, col.length = n) {ordinal : Nat} (hc : c.colTypes.drop ordinal = colTypes)
    {intos : List Column} (hinto : List.Forall₂ (fun colType col => col.Fits (getFixedLen colType)) colTypes intos)
    {dsts : List Column} (hdst : List.Forall₂ (fun colType col => col.Tidy (getFixedLen colType)) colTypes dsts)
    (hdstLen : ∀ col ∈ dsts, col.length = a) :
    ∃ cols', c.decodeColumns ordinal (srcs.flatMap (Codec.encodeColumn [])) intos = ([], cols') ∧
      ColumnsInv a n colTypes cols' dsts ∧ cols'.map Column.rows = srcs.map Column.rows ∧
      reuseColumns n colTypes cols' = cols' := by
  induction hsrc generalizing ordinal intos dsts with
  | nil =>
    cases hinto
    cases hdst
    exact ⟨[], rfl, trivial, rfl, rfl⟩
  | @cons colType src colTypes srcs hcol hrest ih =>
    obtain ⟨henc, hoffsets⟩ := hcol
    cases hinto with
    | cons hfits hinto =>
    cases hdst with
    | cons htidy hdst =>
    rename_i into intos dst dsts
    have hty : c.colTypes[ordinal]? = some colType := by
      rw [← Nat.add_zero ordinal, ← List.getElem?_drop, hc]
      rfl
    have hc' : c.colTypes.drop (ordinal + 1) = colTypes := by
      rw [← List.drop_drop, hc]
      rfl
    obtain ⟨col', hdecode, hrows, hlayout, hbitmap, hoffsets'⟩ :=
      c.decodeColumn_encodeColumn hty henc hfits (srcs.flatMap (Codec.encodeColumn []))
    obtain ⟨cols', hloop, hinv, hrows', hreuse⟩ := ih (List.forall_mem_cons.mp hsrcLen).2 hc' hinto hdst
      (List.forall_mem_cons.mp hdstLen).2
    have hlen : col'.length = n := by
      rw [← Column.length_rows, hrows, Column.length_rows, (List.forall_mem_cons.mp hsrcLen).1]
    have hself : reuseColumn n (getFixedLen colType) col' = col' := by
      rw [← hlen]
      exact reuseColumn_self fun hw => hoffsets' hw ▸ hoffsets hw
    refine ⟨col' :: cols', ?_, ⟨⟨(List.forall_mem_cons.mp hdstLen).1, htidy, ?_⟩, hinv⟩, ?_, ?_⟩
    · rw [List.flatMap_cons, Codec.decodeColumns, hdecode]
      dsimp only
      rw [hloop]
    · refine ⟨by rw [hself]; exact hlayout, fun hw => ?_, by rw [hbitmap, hlen]⟩
      rw [hw] at hlayout
      exact (Column.layout_var_iff.mp hlayout).2.2.1
    · rw [List.map_cons, List.map_cons, hrows, hrows']
    · rw [reuseColumns_cons, hself, hreuse]

theorem numRows_reuseIntermChk {d : Decoder} {chk : Chunk} (h : StreamInv n table d chk) (other : Chunk) :
    (d.reuseIntermChk other).2.numRows = d.remainedRows :=
  Chunk.numRows_of_length (h.columns.ne_nil h.ne_nil).2 fun _ hcol =>
    h.columns.length_of_mem_reuseColumns hcol

/-- `Reset` on the bytes of `src` starts a stream of the rows of the destination followed by those
of `src`. -/
theorem streamInv_reset {colTypes : List FieldType} (hne : colTypes ≠ []) {src : Chunk}
    (hsrc : List.Forall₂ (fun colType col => col.Encodable (getFixedLen colType) ∧
      (getFixedLen colType = varElemLen → col.offsets.getD 0 0 = 0)) colTypes src.columns)
    (hsrcRect : ∀ col ∈ src.columns, col.length = src.numRows) {d : Decoder}
    (hcodec : d.codec.colTypes = colTypes)
    (hinterm : List.Forall₂ (fun colType col => col.Fits (getFixedLen colType)) colTypes
      d.intermChk.columns) {dst : Chunk}
    (hdst : List.Forall₂ (fun colType col => col.Tidy (getFixedLen colType)) colTypes dst.columns)
    (hdstRect : ∀ col ∈ dst.columns, col.length = dst.numRows) :
    StreamInv (dst.numRows + src.numRows)
      (List.zipWith (· ++ ·) (dst.columns.map Column.rows) (src.columns.map Column.rows))
      (d.reset (Codec.encode src)) dst := by
  have hc : d.codec.colTypes.drop 0 = colTypes := by rw [List.drop_zero, hcodec]
  obtain ⟨cols', hloop, hinv, hrows, hreuse⟩ :=
    columnsInv_reset d.codec hsrc hsrcRect hc hinterm hdst hdstRect
  have hlen : ∀ col ∈ cols', col.length = src.numRows := by
    intro col hcol
    rw [← hreuse] at hcol
    exact hinv.length_of_mem_reuseColumns hcol
  have hnum : Chunk.numRows { d.intermChk with columns := cols' } = src.numRows :=
    Chunk.numRows_of_length (hreuse ▸ (hinv.ne_nil hne).2) hlen
  have hreset : d.reset (Codec.encode src) =
      { d with intermChk := { d.intermChk with columns := cols' }, remainedRows := src.numRows } := by
    rw [reset, Codec.decodeToChunk, Codec.encode_eq, hloop]
    dsimp only
    rw [hnum]
  rw [hreset]
  refine ⟨?_, hcodec ▸ hne, ?_, ?_⟩ <;> dsimp only
  · rw [hcodec, Chunk.numRows_of_length (hinv.ne_nil hne).1 (fun _ hcol => hinv.length_of_mem hcol)]
    exact hinv
  · rw [hcodec, hreuse, hrows]

/-- `Decode` called on `chk` again and again, each time while the decoder has rows left and after
the reader asked for more rows than `chk` holds, until the decoder is `d'` and the chunk `chk'`. -/
inductive DecodeRun : Decoder → Chunk → Decoder → Chunk → Prop
  | stop (d : Decoder) (chk : Chunk) : DecodeRun d chk d chk
  | decode {d : Decoder} {chk : Chunk} {d' : Decoder} {chk' : Chunk} (requiredRows : Nat)
      (hleft : d.isFinished = false) (hprogress : chk.numRows < requiredRows)
      (hrest : DecodeRun (d.decode { chk with requiredRows }).1 (d.decode { chk with requiredRows }).2
        d' chk') :
      DecodeRun d chk d' chk'

theorem streamInv_run {d d' : Decoder} {chk chk' : Chunk} (hrun : DecodeRun d chk d' chk')
    (h : StreamInv n table d chk) : StreamInv n table d' chk' := by
  induction hrun with
  | stop => exact h
  | @decode d chk d' chk' requiredRows _ hprogress _ ih =>
    have hasked : StreamInv n table d { chk with requiredRows } :=
      ⟨h.columns, h.ne_nil, h.total, h.rows⟩
    exact ih (streamInv_decode hasked hprogress)

end Decoder

open Decoder in
/-- A chunk laid out for the codec's types is read back by `Decode`, and a `Reset` on its bytes
followed by `Decode` calls that make progress appends its rows to a tidy chunk: the rows of the
chunk, followed by those `ReuseIntermChk` would hand over, are its old rows and then those of `src`,
and once the decoder is finished they are the chunk's. -/
theorem decoder_appends_src_rows {colTypes : List FieldType} {src : Chunk} (hne : src.columns ≠ [])
    (hsrc : List.Forall₂ (fun colType col => col.Encodable (getFixedLen colType) ∧
      (getFixedLen colType = varElemLen → col.offsets.getD 0 0 = 0)) colTypes src.columns)
    (hsrcRect : ∀ col ∈ src.columns, col.length = src.numRows) {d : Decoder}
    (hcodec : d.codec.colTypes = colTypes)
    (hinterm : List.Forall₂ (fun colType col => col.Fits (getFixedLen colType)) colTypes
      d.intermChk.columns) {dst : Chunk}
    (hdst : List.Forall₂ (fun colType col => col.Tidy (getFixedLen colType)) colTypes dst.columns)
    (hdstRect : ∀ col ∈ dst.columns, col.length = dst.numRows) {d' : Decoder} {dst' : Chunk}
    (hrun : DecodeRun (d.reset (Codec.encode src)) dst d' dst') (chk : Chunk) :
    (∃ chk', (Codec.mk colTypes).decode (Codec.encode src) = (chk', []) ∧ chk'.rows = src.rows) ∧
      dst'.rows ++ (d'.reuseIntermChk chk).2.rows = dst.rows ++ src.rows ∧
      (d'.isFinished = true → dst'.rows = dst.rows ++ src.rows) := by
  have htypes : colTypes ≠ [] := by
    rintro rfl
    exact hne (List.forall₂_nil_left_iff.mp hsrc)
  have hinv := streamInv_run hrun
    (streamInv_reset htypes hsrc hsrcRect hcodec hinterm hdst hdstRect)
  -- the stream's rows, read row by row, are the destination's and then the source's
  have hstream : rowsOfColumns (dst.numRows + src.numRows)
      (List.zipWith (· ++ ·) (dst.columns.map Column.rows) (src.columns.map Column.rows)) none =
      dst.rows ++ src.rows := by
    rw [Chunk.rows_eq_rowsOfColumns dst, Chunk.rows_eq_rowsOfColumns src]
    apply rowsOfColumns_zipWith_append
    · intro rows hrows
      obtain ⟨col, hcol, rfl⟩ := List.mem_map.mp hrows
      rw [Column.length_rows, hdstRect col hcol]
    · rw [List.length_map, List.length_map, ← hdst.length_eq, hsrc.length_eq]
  have happend : dst'.rows ++ (d'.reuseIntermChk chk).2.rows = dst.rows ++ src.rows := by
    rw [rows_append_reuseIntermChk hinv, hstream]
  refine ⟨(Codec.mk colTypes).decode_encode_rows hne (hsrc.imp fun _ _ h => h.1), happend, ?_⟩
  intro hfinished
  have hleft : (d'.reuseIntermChk chk).2.rows = [] := by
    apply List.eq_nil_of_length_eq_zero
    rw [Chunk.length_rows, numRows_reuseIntermChk hinv]
    simpa [isFinished] using hfinished
  rw [← happend, hleft, List.append_nil]

/-- The type of a `BIGINT` column. -/
def longlongType : FieldType := ⟨.longlong, 0, unspecifiedLength, "", ""⟩

def oneColumnChunk (col : Column) : Chunk := ⟨[col], 0, 1024⟩

/-- A `BIGINT` column whose one row is NULL. -/
def nullRowChunk : Chunk := oneColumnChunk (newColumn 8).appendNull

/-- The type of a `VARCHAR` column. -/
def varcharType : FieldType := ⟨.varchar, 0, unspecifiedLength, "", ""⟩

/-- A `BIGINT` and a `VARCHAR` column of three rows, a count that is no multiple of eight, with the
middle row NULL in both. -/
def threeRowChunk : Chunk :=
  ⟨[(((newColumn 8).appendInt64 1).appendNull).appendInt64 3,
    ((newVarLenColumn.appendBytes [97]).appendNull).appendBytes [98, 99]], 0, 1024⟩

/-- Two rows of the same columns, NULL in the first column and then in the second. -/
def twoRowChunk : Chunk :=
  ⟨[((newColumn 8).appendNull).appendInt64 7, (newVarLenColumn.appendBytes [100]).appendNull], 0, 1024⟩

/-- An empty chunk of the two columns, for the decoder to read into. -/
def bigintVarcharChunk : Chunk := ⟨[newColumn 8, newVarLenColumn], 0, 1024⟩

/-- The bits past the last row of a column whose null bitmap is one byte. -/
theorem bitAt_singleton_of_le {b : UInt8} {n : Nat} (hb : ∀ i, n ≤ i → i < 8 → b.toNat.testBit i = false)
    (i : Nat) (hi : n ≤ i) : bitAt [b] i = false := by
  by_cases h8 : i < 8
  · rw [bitAt, Nat.div_eq_of_lt h8, Nat.mod_eq_of_lt h8]
    exact hb i hi h8
  · exact bitAt_eq_false_of_length_le (by simp; omega)

open Decoder in
theorem decoder_appends_src_rows_threeRows :
    ∃ d' dst', DecodeRun ((newDecoder bigintVarcharChunk [longlongType, varcharType]).reset
        (Codec.encode twoRowChunk)) threeRowChunk d' dst' ∧
      (∃ chk', (Codec.mk [longlongType, varcharType]).decode (Codec.encode twoRowChunk) = (chk', []) ∧
        chk'.rows = twoRowChunk.rows) ∧
      dst'.rows ++ (d'.reuseIntermChk bigintVarcharChunk).2.rows =
        threeRowChunk.rows ++ twoRowChunk.rows ∧
      (d'.isFinished = true → dst'.rows = threeRowChunk.rows ++ twoRowChunk.rows) := by
  have hsrc : List.Forall₂ (fun colType col => col.Encodable (getFixedLen colType) ∧
      (getFixedLen colType = varElemLen → col.offsets.getD 0 0 = 0))
      [longlongType, varcharType] twoRowChunk.columns := by
    refine .cons ⟨⟨?_, by decide, by decide, by decide⟩, fun h => absurd h (by decide)⟩
      (.cons ⟨⟨?_, by decide, by decide, by decide⟩, fun _ => rfl⟩ .nil)
    · exact (Column.layout_fixed_iff (by decide)).mpr ⟨_, rfl, by decide, by decide⟩
    · exact Column.layout_var_iff.mpr ⟨rfl, by decide, by decide, by decide⟩
  have hinterm : List.Forall₂ (fun colType col => col.Fits (getFixedLen colType))
      [longlongType, varcharType] bigintVarcharChunk.columns := by
    refine .cons (Column.fits_of_layout ?_) (.cons (Column.fits_of_layout ?_) .nil)
    · exact (Column.layout_fixed_iff (by decide)).mpr ⟨_, rfl, by decide, by decide⟩
    · exact Column.layout_var_iff.mpr ⟨rfl, by decide, by decide, by decide⟩
  have hdst : List.Forall₂ (fun colType col => col.Tidy (getFixedLen colType))
      [longlongType, varcharType] threeRowChunk.columns := by
    refine .cons ⟨?_, by decide, bitAt_singleton_of_le (by decide)⟩
      (.cons ⟨?_, by decide, bitAt_singleton_of_le (by decide)⟩ .nil)
    · exact (Column.layout_fixed_iff (by decide)).mpr ⟨_, rfl, by decide, by decide⟩
    · exact Column.layout_var_iff.mpr ⟨rfl, by decide, by decide, by decide⟩
  have hrun : DecodeRun ((newDecoder bigintVarcharChunk [longlongType, varcharType]).reset
      (Codec.encode twoRowChunk)) threeRowChunk _ _ :=
    .decode 1024 (by decide) (by decide) (.stop _ _)
  exact ⟨_, _, hrun, decoder_appends_src_rows (List.cons_ne_nil _ _) hsrc (by decide) rfl hinterm hdst
    (by decide) hrun bigintVarcharChunk⟩

/-- A destination made by `ResizeInt64(1, false)`, all of whose null bitmap byte is set, takes the
NULL row of `nullRowChunk` as a row of zeros; a chunk without columns is read back without its
rows; and `ReuseIntermChk` drops the rows of the chunk it is given. -/
theorem decode_garbage_null_bit :
    (((newDecoder (oneColumnChunk (newColumn 8)) [longlongType]).reset (Codec.encode nullRowChunk)).decode
        (oneColumnChunk ((newColumn 8).resizeInt64 1 false))).1.isFinished = true ∧
      (((newDecoder (oneColumnChunk (newColumn 8)) [longlongType]).reset (Codec.encode nullRowChunk)).decode
        (oneColumnChunk ((newColumn 8).resizeInt64 1 false))).2.rows ≠
        (oneColumnChunk ((newColumn 8).resizeInt64 1 false)).rows ++ nullRowChunk.rows ∧
      ((Codec.mk []).decode (Codec.encode ⟨[], 1, 0⟩)).1.rows ≠ Chunk.rows ⟨[], 1, 0⟩ ∧
      (((newDecoder (oneColumnChunk (newColumn 8)) [longlongType]).reset (Codec.encode nullRowChunk)).reuseIntermChk
        nullRowChunk).2.rows ≠ nullRowChunk.rows ++ nullRowChunk.rows := by
  decide

end TinySql.Chunk
