import TinySql.Chunk.Column
import TinySql.Lib.Digits
import TinySql.Types.Datum
import TinySql.Lib.Slices
import Mathlib

/-!
# Encoding and decoding chunks

`util/chunk/codec.go`. `Codec.Encode` writes each column as its row count and its null count, four
bytes each, least significant first; the bytes of its null bitmap when a row is null; its offsets,
eight bytes each, when it is of variable length; and its data. `Codec.Decode` reads columns back
until the bytes run out, at the width `getFixedLen` gives for the column's type.

A column read back holds the rows of the column written when the column is laid out for its type
(`Column.Layout`) and its row count fits the four bytes it is written in (`decodeColumn_encodeColumn`).
A chunk without columns is written as no bytes at all, so it is read back without rows, whatever
its `numVirtualRows`.

Where the code reads past the end of its buffer it panics; the model reads zeros and empty slices
there, which no theorem relies on. An offset is an `int64` of the code and a `Nat` here: the bytes
of a negative one read back as a number of `2 ^ 63` or more.
-/

namespace TinySql.Chunk

open TinySql.Lib TinySql.Types

set_option linter.dupNamespace false

def getFixedLen (colType : FieldType) : Int :=
  match colType.tp with
  | .float => 4
  | .tiny | .short | .int24 | .long | .longlong | .double | .year | .duration => 8
  | _ => varElemLen

theorem getFixedLen_ne_zero (colType : FieldType) : getFixedLen colType ≠ 0 := by
  unfold getFixedLen
  split <;> decide

/-- A chunk without `sel`: its columns, the row count of a chunk without columns, and the number of
rows its reader asks for. -/
structure Chunk where
  columns : List Column
  numVirtualRows : Nat
  requiredRows : Nat
  deriving DecidableEq, Repr

namespace Chunk

def numRows (c : Chunk) : Nat :=
  match c.columns with
  | [] => c.numVirtualRows
  | col :: _ => col.length

/-- `SwapColumns`: the two chunks trade their columns and virtual row counts. -/
def swapColumns (c other : Chunk) : Chunk × Chunk :=
  ({ c with columns := other.columns, numVirtualRows := other.numVirtualRows },
    { other with columns := c.columns, numVirtualRows := c.numVirtualRows })

/-- What a chunk holds: its rows, each the values of its columns in that row. -/
def rows (c : Chunk) : List (List (Option (List UInt8))) :=
  (List.range c.numRows).map fun i => c.columns.map fun col => col.rows.getD i none

end Chunk

/-! ### Words -/

/-- `binary.LittleEndian.PutUint32` of `uint32(n)`. -/
def putUint32 (n : Nat) : List UInt8 :=
  (digitsLE 4 n).map UInt8.ofFin

/-- `binary.LittleEndian.Uint32`. -/
def uint32 (b : List UInt8) : Nat :=
  ofDigitsLE ((b.take 4).map UInt8.toFin)

/-- `i64SliceToBytes`: the memory of the offsets, eight bytes each, least significant first. -/
def i64SliceToBytes (i64s : List Nat) : List UInt8 :=
  i64s.flatMap fun o => (digitsLE 8 o).map UInt8.ofFin

/-- `bytesToI64Slice`: an offset for each eight bytes; the bytes after the last eight are left. -/
def bytesToI64Slice : List UInt8 → List Nat
  | b₀ :: b₁ :: b₂ :: b₃ :: b₄ :: b₅ :: b₆ :: b₇ :: b =>
    ofDigitsLE ([b₀, b₁, b₂, b₃, b₄, b₅, b₆, b₇].map UInt8.toFin) :: bytesToI64Slice b
  | _ => []

@[simp] theorem length_putUint32 (n : Nat) : (putUint32 n).length = 4 := by
  simp [putUint32]

theorem uint32_putUint32_append (n : Nat) (rest : List UInt8) :
    uint32 (putUint32 n ++ rest) = n % 2 ^ 32 := by
  have hroundtrip : (putUint32 n).map UInt8.toFin = digitsLE 4 n := by
    simp [putUint32, Function.comp_def]
  rw [uint32, List.take_append_of_le_length (by simp), List.take_of_length_le (by simp),
    hroundtrip, ofDigitsLE_digitsLE]
  rfl

@[simp] theorem length_i64SliceToBytes (i64s : List Nat) :
    (i64SliceToBytes i64s).length = 8 * i64s.length := by
  induction i64s with
  | nil => rfl
  | cons o os ih =>
    simp only [i64SliceToBytes, List.flatMap_cons, List.length_append, List.length_map,
      length_digitsLE] at ih ⊢
    rw [ih, List.length_cons]
    omega

theorem bytesToI64Slice_append {word : List UInt8} (hword : word.length = 8) (rest : List UInt8) :
    bytesToI64Slice (word ++ rest) = ofDigitsLE (word.map UInt8.toFin) :: bytesToI64Slice rest := by
  match word, hword with
  | [_, _, _, _, _, _, _, _], _ => rfl

/-- The offsets read back are those written, taken modulo `2 ^ 64`. -/
theorem bytesToI64Slice_i64SliceToBytes (i64s : List Nat) :
    bytesToI64Slice (i64SliceToBytes i64s) = i64s.map (· % 2 ^ 64) := by
  induction i64s with
  | nil => rfl
  | cons o os ih =>
    have hword : ((digitsLE 8 o).map UInt8.ofFin).length = 8 := by simp
    have hroundtrip : ((digitsLE 8 o).map UInt8.ofFin).map UInt8.toFin = digitsLE 8 o := by
      simp [Function.comp_def]
    rw [i64SliceToBytes, List.flatMap_cons, bytesToI64Slice_append hword, hroundtrip,
      ofDigitsLE_digitsLE, ← i64SliceToBytes, ih, List.map_cons]
    rfl

/-! ### The codec -/

structure Codec where
  colTypes : List FieldType
  deriving DecidableEq, Repr

namespace Codec

def encodeColumn (buffer : List UInt8) (col : Column) : List UInt8 :=
  let buffer := buffer ++ putUint32 col.length
  let buffer := buffer ++ putUint32 col.nullCount
  let buffer := if 0 < col.nullCount then
      buffer ++ col.nullBitmap.take ((col.length + 7) / 8)
    else buffer
  let buffer := if !col.isFixed then
      buffer ++ (i64SliceToBytes col.offsets).take ((col.length + 1) * 8)
    else buffer
  buffer ++ col.data

/-- `Encode`, which reads nothing of the codec. -/
def encode (chk : Chunk) : List UInt8 :=
  chk.columns.foldl encodeColumn []

/-- `setAllNotNull`: a byte of `allNotNullBitmap`, all bits set, for every eight rows. -/
def setAllNotNull (col : Column) : Column :=
  { col with nullBitmap := List.replicate ((col.length + 7) / 8) 0xFF }

/-- `decodeColumn`: the column at the front of `buffer` read into `col`, and the bytes after it. The
type is `colTypes[ordinal]`. -/
def decodeColumn (c : Codec) (buffer : List UInt8) (col : Column) (ordinal : Nat) :
    List UInt8 × Column :=
  let length := uint32 buffer
  let buffer := buffer.drop 4
  let nullCount := uint32 buffer
  let buffer := buffer.drop 4
  let col := { col with length }
  let numNullBitmapBytes := (length + 7) / 8
  let (col, buffer) := if 0 < nullCount then
      ({ col with nullBitmap := buffer.take numNullBitmapBytes }, buffer.drop numNullBitmapBytes)
    else (setAllNotNull col, buffer)
  let numFixedBytes := (c.colTypes[ordinal]?.map getFixedLen).getD varElemLen
  let (col, buffer, numDataBytes) := if numFixedBytes = varElemLen then
      let numOffsetBytes := (length + 1) * 8
      let offsets := bytesToI64Slice (buffer.take numOffsetBytes)
      ({ col with offsets }, buffer.drop numOffsetBytes, offsets.getD length 0)
    else
      let elemBuf := if ((col.elemBuf.getD []).length : Int) < numFixedBytes then
          some (List.replicate numFixedBytes.toNat 0)
        else col.elemBuf
      ({ col with elemBuf }, buffer, numFixedBytes.toNat * length)
  (buffer.drop numDataBytes, { col with data := buffer.take numDataBytes })

/-- The loop of `Decode`: a new column for each ordinal while bytes are left. A column read takes
four bytes at least, so `buffer.length` turns are enough. -/
def decodeLoop (c : Codec) : Nat → Nat → List UInt8 → List Column → List Column × List UInt8
  | 0, _, buffer, columns => (columns, buffer)
  | fuel + 1, ordinal, buffer, columns =>
    if 0 < buffer.length then
      let (buffer, col) := c.decodeColumn buffer ⟨0, [], [], [], none⟩ ordinal
      c.decodeLoop fuel (ordinal + 1) buffer (columns ++ [col])
    else (columns, buffer)

def decode (c : Codec) (buffer : List UInt8) : Chunk × List UInt8 :=
  let (columns, buffer) := c.decodeLoop buffer.length 0 buffer []
  (⟨columns, 0, 0⟩, buffer)

/-- The loop of `DecodeToChunk`: each column of the chunk read in turn, from ordinal `ordinal`
on. -/
def decodeColumns (c : Codec) : Nat → List UInt8 → List Column → List UInt8 × List Column
  | _, buffer, [] => (buffer, [])
  | ordinal, buffer, col :: cols =>
    let (buffer, col) := c.decodeColumn buffer col ordinal
    let (buffer, cols) := c.decodeColumns (ordinal + 1) buffer cols
    (buffer, col :: cols)

def decodeToChunk (c : Codec) (buffer : List UInt8) (chk : Chunk) : List UInt8 × Chunk :=
  let (buffer, columns) := c.decodeColumns 0 buffer chk.columns
  (buffer, { chk with columns })

end Codec

/-! ### Columns the codec reads back -/

/-- A column laid out for values of width `elemLen`, `varElemLen` for values of variable length: a
fixed-width column has an `elemBuf` of that width and the data of its rows at that width; a
variable-length one has no `elemBuf`, an offset before each row and one after the last, in order,
and data up to the last offset. -/
inductive Column.Layout : Column → Int → Prop
  | fixed {c : Column} {buf : List UInt8} (hbuf : c.elemBuf = some buf)
      (hdata : c.data.length = buf.length * c.length) : Column.Layout c buf.length
  | var {c : Column} (helem : c.elemBuf = none) (hoffsets : c.offsets.length = c.length + 1)
      (hsorted : c.offsets.Pairwise (· ≤ ·)) (hdata : c.data.length = c.offsets.getD c.length 0) :
      Column.Layout c varElemLen

theorem Column.layout_var_iff {c : Column} :
    c.Layout varElemLen ↔ c.elemBuf = none ∧ c.offsets.length = c.length + 1 ∧
      c.offsets.Pairwise (· ≤ ·) ∧ c.data.length = c.offsets.getD c.length 0 := by
  constructor
  · intro h
    generalize hw : varElemLen = w at h
    cases h with
    | fixed hbuf hdata => simp [varElemLen] at hw
    | var helem hoffsets hsorted hdata => exact ⟨helem, hoffsets, hsorted, hdata⟩
  · rintro ⟨helem, hoffsets, hsorted, hdata⟩
    exact .var helem hoffsets hsorted hdata

theorem Column.layout_fixed_iff {c : Column} {w : Int} (hw : w ≠ varElemLen) :
    c.Layout w ↔ ∃ buf, c.elemBuf = some buf ∧ (buf.length : Int) = w ∧
      c.data.length = buf.length * c.length := by
  constructor
  · intro h
    cases h with
    | fixed hbuf hdata => exact ⟨_, hbuf, rfl, hdata⟩
    | var => exact absurd rfl hw
  · rintro ⟨buf, hbuf, rfl, hdata⟩
    exact .fixed hbuf hdata

/-- A column that `Encode` writes so that `decodeColumn` reads it back: laid out for its type, with
a byte of null bitmap for every eight rows, a row count that fits in the four bytes it is written
in and offsets that fit in eight. -/
structure Column.Encodable (col : Column) (elemLen : Int) : Prop where
  layout : col.Layout elemLen
  nullBitmap_length : (col.length + 7) / 8 ≤ col.nullBitmap.length
  length_lt : col.length < 2 ^ 32
  offsets_lt : ∀ o ∈ col.offsets, o < 2 ^ 64

/-- A column that `decodeColumn` can read a column of width `elemLen` into: one for variable-length
values has no `elemBuf`, and the `elemBuf` of a fixed-width one is not longer than the width. -/
def Column.Fits (into : Column) (elemLen : Int) : Prop :=
  if elemLen = varElemLen then into.elemBuf = none else ((into.elemBuf.getD []).length : Int) ≤ elemLen

/-- A column laid out for a width is one that a column of that width can be read into. -/
theorem Column.fits_of_layout {c : Column} {w : Int} (h : c.Layout w) : c.Fits w := by
  cases h with
  | fixed hbuf hdata => simp [Column.Fits, hbuf, varElemLen]
  | var helem => simp [Column.Fits, helem]

namespace Codec

theorem encodeColumn_eq (buffer : List UInt8) (col : Column) :
    encodeColumn buffer col = buffer ++ (putUint32 col.length ++ putUint32 col.nullCount ++
      (if 0 < col.nullCount then col.nullBitmap.take ((col.length + 7) / 8) else []) ++
      (if col.isFixed then [] else (i64SliceToBytes col.offsets).take ((col.length + 1) * 8)) ++
      col.data) := by
  unfold encodeColumn
  split_ifs <;> simp_all

theorem encode_eq (chk : Chunk) : encode chk = chk.columns.flatMap (encodeColumn []) := by
  suffices h : ∀ (buffer : List UInt8) (cols : List Column),
      cols.foldl encodeColumn buffer = buffer ++ cols.flatMap (encodeColumn []) from h [] chk.columns
  intro buffer cols
  induction cols generalizing buffer with
  | nil => simp
  | cons col cols ih =>
    rw [List.foldl_cons, ih, encodeColumn_eq buffer col, List.flatMap_cons, encodeColumn_eq [] col,
      List.nil_append, List.append_assoc]

theorem drop_putUint32_append (n : Nat) (rest : List UInt8) : (putUint32 n ++ rest).drop 4 = rest :=
  List.drop_left' (length_putUint32 n)

/-- The bitmap read for a column with a null row has the column's null bits. -/
theorem bitAt_take_nullBitmap (col : Column) {i : Nat} (hi : i < col.length) :
    bitAt (col.nullBitmap.take ((col.length + 7) / 8)) i = bitAt col.nullBitmap i := by
  rw [bitAt_take, decide_eq_true (by omega), Bool.true_and]

/-- The bitmap `setAllNotNull` makes for a column without a null row has the column's null bits. -/
theorem bitAt_setAllNotNull {col : Column} (hnull : ¬0 < col.nullCount) {i : Nat}
    (hi : i < col.length) :
    bitAt (List.replicate ((col.length + 7) / 8) 0xFF) i = bitAt col.nullBitmap i := by
  have hnotnull := Column.nullCount_eq_zero (Nat.eq_zero_of_not_pos hnull) i hi
  rw [Column.isNull_eq_not_bitAt, Bool.not_eq_false'] at hnotnull
  have hbyte : i / 8 < (col.length + 7) / 8 := by omega
  have hbit : i % 8 < 8 := Nat.mod_lt i (by omega)
  rw [bitAt_replicate, testBit_allOnes, hnotnull, decide_eq_true hbyte,
    decide_eq_true hbit, Bool.and_self]

/-- The `elemBuf` `decodeColumn` leaves in a column it fits has the width. -/
theorem elemBuf_of_fits {into : Column} {w : Nat} (hfits : into.Fits w) (hw : w ≠ 0) :
    ∃ e, (if ((into.elemBuf.getD []).length : Int) < w then some (List.replicate w 0)
      else into.elemBuf) = some e ∧ e.length = w := by
  have hle : ((into.elemBuf.getD []).length : Int) ≤ w := by
    simpa [Column.Fits, varElemLen] using hfits
  split_ifs with hshort
  · exact ⟨_, rfl, List.length_replicate⟩
  · cases h : into.elemBuf with
    | none => simp [h] at hshort; omega
    | some e =>
      simp only [h, Option.getD_some] at hshort hle
      exact ⟨e, rfl, by omega⟩

/-- `decodeColumn` reads back, into any column it fits, the column `encodeColumn` writes, and leaves
the bytes after it. -/
theorem decodeColumn_encodeColumn (c : Codec) {ordinal : Nat} {colType : FieldType}
    (hty : c.colTypes[ordinal]? = some colType) {col : Column}
    (hcol : col.Encodable (getFixedLen colType)) {into : Column}
    (hinto : into.Fits (getFixedLen colType)) (rest : List UInt8) :
    ∃ col', c.decodeColumn (encodeColumn [] col ++ rest) into ordinal = (rest, col') ∧
      col'.rows = col.rows ∧ col'.Layout (getFixedLen colType) ∧
      col'.nullBitmap.length = (col'.length + 7) / 8 ∧
      (getFixedLen colType = varElemLen → col'.offsets = col.offsets) := by
  have hlen : col.length % 2 ^ 32 = col.length := Nat.mod_eq_of_lt hcol.length_lt
  have hnc : col.nullCount % 2 ^ 32 = col.nullCount :=
    Nat.mod_eq_of_lt (lt_of_le_of_lt col.nullCount_le hcol.length_lt)
  have hwidth : (c.colTypes[ordinal]?.map getFixedLen).getD varElemLen = getFixedLen colType := by
    rw [hty]; rfl
  have hbm : (col.nullBitmap.take ((col.length + 7) / 8)).length = (col.length + 7) / 8 := by
    simpa using hcol.nullBitmap_length
  have hw0 := getFixedLen_ne_zero colType
  have hlay := hcol.layout
  generalize getFixedLen colType = w at hlay hwidth hinto hw0 ⊢
  rw [encodeColumn_eq, List.nil_append]
  cases hlay with
  | @fixed buf hbuf hdata =>
    have hfixed : col.isFixed = true := by simp [Column.isFixed, hbuf]
    have hnotvar : ¬(buf.length : Int) = varElemLen := by simp [varElemLen]
    obtain ⟨e, helem, helemLen⟩ := elemBuf_of_fits hinto (by exact_mod_cast hw0)
    have hwidth' : (some e).map List.length = col.elemBuf.map List.length := by
      rw [hbuf, Option.map_some, Option.map_some, helemLen]
    by_cases hnull : 0 < col.nullCount
    · simp only [if_pos hnull, hfixed, if_true, List.append_nil, decodeColumn, List.append_assoc,
        uint32_putUint32_append, drop_putUint32_append, hlen, hnc, hwidth, List.take_left' hbm,
        List.drop_left' hbm, if_neg hnotvar, Int.toNat_natCast, ← hdata, List.take_left, List.drop_left, helem]
      refine ⟨_, rfl, Column.rows_eq_of_bits rfl (fun i hi => bitAt_take_nullBitmap col hi)
        (fun i _ => Column.getRaw_congr (by rfl) hwidth' (by simp [hbuf]) i), ?_, hbm, by simp [varElemLen]⟩
      rw [← helemLen]
      exact .fixed rfl (by rw [helemLen, hdata])
    · simp only [if_neg hnull, hfixed, if_true, List.append_nil, decodeColumn,
        List.append_assoc, uint32_putUint32_append, drop_putUint32_append, hlen, hnc, hwidth,
        if_neg hnotvar, Int.toNat_natCast, ← hdata, List.take_left, List.drop_left, setAllNotNull, helem]
      refine ⟨_, rfl, Column.rows_eq_of_bits rfl (fun i hi => bitAt_setAllNotNull hnull hi)
        (fun i _ => Column.getRaw_congr (by rfl) hwidth' (by simp [hbuf]) i), ?_, by simp,
        by simp [varElemLen]⟩
      rw [← helemLen]
      exact .fixed rfl (by rw [helemLen, hdata])
  | var helem hoffsets hsorted hdata =>
    have hvar : col.isFixed = false := by simp [Column.isFixed, helem]
    have hmod : col.offsets.map (· % 2 ^ 64) = col.offsets := by
      conv_rhs => rw [← List.map_id col.offsets]
      exact List.map_congr_left fun o ho => Nat.mod_eq_of_lt (hcol.offsets_lt o ho)
    have hoffBytes : (i64SliceToBytes col.offsets).length = (col.length + 1) * 8 := by
      rw [length_i64SliceToBytes, hoffsets, Nat.mul_comm]
    have hinto' : into.elemBuf = none := by simpa [Column.Fits] using hinto
    have hwidth' : into.elemBuf.map List.length = col.elemBuf.map List.length := by
      rw [hinto', helem]
    by_cases hnull : 0 < col.nullCount
    · simp only [if_pos hnull, hvar, Bool.false_eq_true, if_false, decodeColumn, List.append_assoc,
        uint32_putUint32_append, drop_putUint32_append, hlen, hnc, hwidth, List.take_left' hbm,
        List.drop_left' hbm, List.take_of_length_le (le_of_eq hoffBytes), List.take_left' hoffBytes,
        List.drop_left' hoffBytes, bytesToI64Slice_i64SliceToBytes, hmod, ← hdata, List.take_left,
        List.drop_left, if_true]
      refine ⟨_, rfl, ?_, .var hinto' hoffsets hsorted hdata, hbm, fun _ => rfl⟩
      exact Column.rows_eq_of_bits rfl (fun i hi => bitAt_take_nullBitmap col hi)
        (fun i _ => Column.getRaw_congr (by rfl) (by exact hwidth') (fun _ => by rfl) i)
    · simp only [if_neg hnull, hvar, Bool.false_eq_true, if_false, decodeColumn, List.append_assoc,
        List.nil_append, uint32_putUint32_append, drop_putUint32_append, hlen, hnc, hwidth,
        List.take_of_length_le (le_of_eq hoffBytes), List.take_left' hoffBytes,
        List.drop_left' hoffBytes, bytesToI64Slice_i64SliceToBytes, hmod, ← hdata, List.take_left,
        List.drop_left, if_true, setAllNotNull]
      refine ⟨_, rfl, ?_, .var hinto' hoffsets hsorted hdata, by simp, fun _ => rfl⟩
      exact Column.rows_eq_of_bits rfl (fun i hi => bitAt_setAllNotNull hnull hi)
        (fun i _ => Column.getRaw_congr (by rfl) (by exact hwidth') (fun _ => by rfl) i)

theorem eight_le_length_encodeColumn (col : Column) : 8 ≤ (encodeColumn [] col).length := by
  rw [encodeColumn_eq]
  simp only [List.nil_append, List.length_append, length_putUint32]
  omega

/-- The new column `Decode` reads each column into fits every type. -/
theorem fits_zero (colType : FieldType) : Column.Fits ⟨0, [], [], [], none⟩ (getFixedLen colType) := by
  unfold Column.Fits getFixedLen
  split <;> simp [varElemLen]

/-- `Decode`'s loop reads back columns written one after another, as long as there is a turn for
each byte. -/
theorem decodeLoop_encodeColumns (c : Codec) {cols : List Column} {ordinal : Nat}
    (htypes : List.Forall₂ (fun colType col => col.Encodable (getFixedLen colType))
      (c.colTypes.drop ordinal) cols)
    {fuel : Nat} (hfuel : (cols.flatMap (encodeColumn [])).length ≤ fuel) (acc : List Column) :
    ∃ cols', c.decodeLoop fuel ordinal (cols.flatMap (encodeColumn [])) acc = (acc ++ cols', []) ∧
      cols'.map Column.rows = cols.map Column.rows := by
  induction cols generalizing ordinal fuel acc with
  | nil =>
    refine ⟨[], ?_, rfl⟩
    cases fuel <;> simp [decodeLoop]
  | cons col cols ih =>
    obtain ⟨colType, colTypes, hcol, hrest, hdrop⟩ := List.forall₂_cons_right_iff.mp htypes
    have hty : c.colTypes[ordinal]? = some colType := by
      rw [← Nat.add_zero ordinal, ← List.getElem?_drop, hdrop]
      rfl
    have hdrop' : c.colTypes.drop (ordinal + 1) = colTypes := by
      rw [← List.drop_drop, hdrop]
      rfl
    obtain ⟨col', hdecode, hrows, -⟩ :=
      decodeColumn_encodeColumn c hty hcol (fits_zero colType) (cols.flatMap (encodeColumn []))
    have height := eight_le_length_encodeColumn col
    rw [List.flatMap_cons, List.length_append] at hfuel
    obtain ⟨fuel, rfl⟩ : ∃ f, fuel = f + 1 := ⟨fuel - 1, by omega⟩
    obtain ⟨cols', hloop, hrows'⟩ := ih (hdrop' ▸ hrest) (by omega : _ ≤ fuel) (acc ++ [col'])
    refine ⟨col' :: cols', ?_, by rw [List.map_cons, List.map_cons, hrows, hrows']⟩
    rw [List.flatMap_cons, decodeLoop, if_pos (by rw [List.length_append]; omega), hdecode]
    simpa using hloop

end Codec

@[simp] theorem Chunk.length_rows (c : Chunk) : c.rows.length = c.numRows := by
  simp [Chunk.rows]

theorem Chunk.rows_congr {c c' : Chunk} (hnum : c'.numRows = c.numRows)
    (hcols : c'.columns.map Column.rows = c.columns.map Column.rows) : c'.rows = c.rows := by
  unfold Chunk.rows
  rw [hnum]
  apply List.map_congr_left
  intro i _
  have hrow := congrArg (List.map fun rows => rows.getD i none) hcols
  simpa only [List.map_map, Function.comp_def] using hrow

theorem Chunk.numRows_eq_of_rows {c c' : Chunk} (hne : c.columns ≠ [])
    (hcols : c'.columns.map Column.rows = c.columns.map Column.rows) : c'.numRows = c.numRows := by
  obtain ⟨col, cols, hc⟩ := List.exists_cons_of_ne_nil hne
  rw [hc, List.map_cons] at hcols
  obtain ⟨col', cols', hc'⟩ : ∃ col' cols', c'.columns = col' :: cols' := by
    cases h : c'.columns with
    | nil => rw [h] at hcols; cases hcols
    | cons col' cols' => exact ⟨col', cols', rfl⟩
  rw [hc', List.map_cons, List.cons.injEq] at hcols
  have hlen : c.numRows = col.length := by rw [Chunk.numRows, hc]
  have hlen' : c'.numRows = col'.length := by rw [Chunk.numRows, hc']
  rw [hlen, hlen', ← Column.length_rows, hcols.1, Column.length_rows]

theorem Chunk.numRows_of_length {c : Chunk} (hne : c.columns ≠ []) {a : Nat}
    (h : ∀ col ∈ c.columns, col.length = a) : c.numRows = a := by
  obtain ⟨col, cols, hc⟩ := List.exists_cons_of_ne_nil hne
  rw [Chunk.numRows, hc]
  exact h col (hc ▸ List.mem_cons_self)

theorem Chunk.rows_eq_rowsOfColumns (c : Chunk) :
    c.rows = rowsOfColumns c.numRows (c.columns.map Column.rows) none := by
  rw [Chunk.rows, rowsOfColumns]
  simp only [List.map_map, Function.comp_def]

/-- A chunk with a column, laid out for the codec's types, is read back with its rows and no bytes
left. -/
theorem Codec.decode_encode_rows (c : Codec) {chk : Chunk} (hne : chk.columns ≠ [])
    (htypes : List.Forall₂ (fun colType col => col.Encodable (getFixedLen colType)) c.colTypes
      chk.columns) :
    ∃ chk', c.decode (Codec.encode chk) = (chk', []) ∧ chk'.rows = chk.rows := by
  have htypes' : List.Forall₂ (fun colType col => col.Encodable (getFixedLen colType))
      (c.colTypes.drop 0) chk.columns := by
    simpa using htypes
  obtain ⟨cols', hloop, hrows⟩ := c.decodeLoop_encodeColumns htypes' (le_refl _) []
  refine ⟨⟨cols', 0, 0⟩, ?_, Chunk.rows_congr (Chunk.numRows_eq_of_rows hne hrows) hrows⟩
  rw [Codec.decode, Codec.encode_eq, hloop]
  rfl

end TinySql.Chunk
