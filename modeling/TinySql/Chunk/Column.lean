import TinySql.Lib.Bitmap

/-!
# Columns of a chunk

`util/chunk/column.go`. A column keeps its values in the Arrow layout: a null bitmap with bit `i`
set when row `i` is not null, and the values either at a fixed width in `data`, the width being
that of `elemBuf`, or at the byte positions `offsets` for variable-length values. A fixed-width
value is written into `elemBuf` and appended from there, so a null row of a fixed-width column gets
whatever value was written last.

What the column holds is `Column.rows`: for each row, `none` when it is null and its raw bytes
otherwise. The code reads a row's bit in the byte the row falls into, and `appendNullBitmap`
appends a zero byte only at a byte boundary: a null row appended inside a byte is null only if its
bit was already clear. `resize` with `isNull = false` sets whole bytes to `0xFF`, the bits past
the last row included.

A slice's capacity is not modelled: the bytes that reslicing within the capacity exposes past the
old end are taken as zero, and they only ever lie in null rows.
-/

namespace TinySql.Chunk

open TinySql.Lib

structure Column where
  length : Nat
  nullBitmap : List UInt8
  offsets : List Nat
  data : List UInt8
  /-- `nil` for a variable-length column. -/
  elemBuf : Option (List UInt8)
  deriving DecidableEq, Repr

def varElemLen : Int := -1

def newFixedLenColumn (elemLen : Nat) : Column :=
  ⟨0, [], [], [], some (List.replicate elemLen 0)⟩

def newVarLenColumn : Column :=
  ⟨0, [], [0], [], none⟩

def newColumn (typeSize : Int) : Column :=
  if typeSize = varElemLen then newVarLenColumn else newFixedLenColumn typeSize.toNat

/-- `copy(l[pos:], src)`: as many bytes of `src` as fit from `pos` on. -/
def overwrite (l : List UInt8) (pos : Nat) (src : List UInt8) : List UInt8 :=
  l.take pos ++ src.take (l.length - pos) ++ l.drop (pos + src.length)

/-- The eight bytes of a 64-bit number, least significant first, as `unsafe.Pointer` writes it. -/
def le64 (u : UInt64) : List UInt8 :=
  (List.range 8).map fun k => (u >>> (8 * k).toUInt64).toUInt8

/-- "Set all the redundant bits in the last slot to 0", which `appendMultiSameNullBitmap` and
`Decoder.decodeColumn` both end with: the bits of the last byte from bit `numBits` of the bitmap
on. -/
def clearRedundantBits (nullBitmap : List UInt8) (numBits : Nat) : List UInt8 :=
  let numRedundantBits := UInt64.ofInt ((nullBitmap.length * 8 : Nat) - (numBits : Int))
  let bitMask := shl 1 (8 - numRedundantBits) - 1
  nullBitmap.modify (nullBitmap.length - 1) (· &&& bitMask)

namespace Column

def isFixed (c : Column) : Bool :=
  c.elemBuf.isSome

def isNull (c : Column) (rowIdx : Nat) : Bool :=
  ((c.nullBitmap[rowIdx / 8]?.getD 0) &&& ((1 : UInt8) <<< (rowIdx % 8).toUInt8)) == 0

/-- `nullCount`: the null rows of each whole byte from the bits not set in it, then the rows after
the last whole byte one at a time. -/
def nullCount (c : Column) : Nat :=
  let full := c.length / 8
  let cnt := ((List.range full).map fun k => 8 - onesCount8 (c.nullBitmap.getD k 0)).sum
  cnt + ((List.range' (8 * full) (c.length - 8 * full)).filter c.isNull).length

/-- `GetRaw`: the bytes of a row. -/
def getRaw (c : Column) (rowID : Nat) : List UInt8 :=
  match c.elemBuf with
  | some buf => c.data.extract (rowID * buf.length) (rowID * buf.length + buf.length)
  | none => c.data.extract (c.offsets.getD rowID 0) (c.offsets.getD (rowID + 1) 0)

/-- What the column holds: each row's bytes, or `none` for a null row. -/
def rows (c : Column) : List (Option (List UInt8)) :=
  (List.range c.length).map fun i => if c.isNull i then none else some (c.getRaw i)

def appendNullBitmap (c : Column) (notNull : Bool) : Column :=
  let idx := c.length / 8
  let nullBitmap := if c.nullBitmap.length ≤ idx then c.nullBitmap ++ [0] else c.nullBitmap
  let nullBitmap := if notNull then
      nullBitmap.modify idx (· ||| (1 : UInt8) <<< (c.length % 8).toUInt8)
    else nullBitmap
  { c with nullBitmap }

/-- `appendMultiSameNullBitmap`: the bytes `num` more rows need, all null or all not null; for
not-null rows the bits of the old last byte from the first new row on are set, and the bits past
the last new row cleared. -/
def appendMultiSameNullBitmap (c : Column) (notNull : Bool) (num : Nat) : Column :=
  let numNewBytes := (c.length + num + 7) / 8 - c.nullBitmap.length
  let b : UInt8 := if notNull then 0xff else 0
  let nullBitmap := c.nullBitmap ++ List.replicate numNewBytes b
  if !notNull then { c with nullBitmap }
  else
    let numRemainingBits := c.length % 8
    let bitMask : UInt8 := ~~~(((1 : UInt8) <<< numRemainingBits.toUInt8) - 1)
    let nullBitmap := nullBitmap.modify (c.length / 8) (· ||| bitMask)
    { c with nullBitmap := clearRedundantBits nullBitmap (c.length + num) }

/-- Null rows only get zero bytes. -/
theorem appendMultiSameNullBitmap_false (c : Column) (num : Nat) :
    c.appendMultiSameNullBitmap false num =
      { c with nullBitmap := c.nullBitmap ++ List.replicate ((c.length + num + 7) / 8 - c.nullBitmap.length) 0 } :=
  rfl

def appendNull (c : Column) : Column :=
  let c := c.appendNullBitmap false
  let c := match c.elemBuf with
    | some buf => { c with data := c.data ++ buf }
    | none => { c with offsets := c.offsets ++ [c.offsets.getD c.length 0] }
  { c with length := c.length + 1 }

def finishAppendFixed (c : Column) : Column :=
  let c := { c with data := c.data ++ c.elemBuf.getD [] }
  let c := c.appendNullBitmap true
  { c with length := c.length + 1 }

/-- `AppendInt64` and `AppendUint64`: the value goes into `elemBuf` and from there into `data`. -/
def appendUint64 (c : Column) (u : UInt64) : Column :=
  finishAppendFixed { c with elemBuf := c.elemBuf.map fun buf => le64 u ++ buf.drop 8 }

def appendInt64 (c : Column) (i : Int64) : Column :=
  c.appendUint64 i.toUInt64

def finishAppendVar (c : Column) : Column :=
  let c := c.appendNullBitmap true
  let c := { c with offsets := c.offsets ++ [c.data.length] }
  { c with length := c.length + 1 }

def appendBytes (c : Column) (b : List UInt8) : Column :=
  finishAppendVar { c with data := c.data ++ b }

/-- `resize`: `n` rows of a fixed width, all null or all not null. -/
def resize (c : Column) (n typeSize : Nat) (isNull : Bool) : Column :=
  let sizeData := n * typeSize
  let data := if isNull then (c.data ++ List.replicate sizeData 0).take sizeData
    else List.replicate sizeData 0
  let nullBitmap := List.replicate ((n + 7) / 8) (if isNull then 0 else 0xFF)
  let elemBuf := some ((c.elemBuf.getD [] ++ List.replicate typeSize 0).take typeSize)
  { c with data, nullBitmap, elemBuf, length := n }

def resizeInt64 (c : Column) (n : Nat) (isNull : Bool) : Column := c.resize n 8 isNull
def resizeUint64 (c : Column) (n : Nat) (isNull : Bool) : Column := c.resize n 8 isNull
def resizeFloat32 (c : Column) (n : Nat) (isNull : Bool) : Column := c.resize n 4 isNull
def resizeFloat64 (c : Column) (n : Nat) (isNull : Bool) : Column := c.resize n 8 isNull

/-- `reserve`: an empty variable-length column; the estimated size only sets capacities. -/
def reserve (c : Column) : Column :=
  { c with
    data := [], nullBitmap := [], offsets := [c.offsets.headD 0], elemBuf := none, length := 0 }

def reserveString (c : Column) (_n : Nat) : Column := c.reserve
def reserveBytes (c : Column) (_n : Nat) : Column := c.reserve

/-- `reset`: no rows, the first offset kept. -/
def reset (c : Column) : Column :=
  { c with
    length := 0, nullBitmap := [], data := []
    offsets := if 0 < c.offsets.length then c.offsets.take 1 else c.offsets }

def setNull (c : Column) (rowIdx : Nat) (isNull : Bool) : Column :=
  { c with
    nullBitmap := c.nullBitmap.modify (rowIdx / 8) fun b =>
      if isNull then b &&& ~~~((1 : UInt8) <<< (rowIdx % 8).toUInt8)
      else b ||| (1 : UInt8) <<< (rowIdx % 8).toUInt8 }

/-- `SetNulls(begin, end, isNull)`: the rows up to a byte boundary one at a time, then whole bytes,
then the rest one at a time. -/
def setNulls (c : Column) (begin stop : Nat) (isNull : Bool) : Column :=
  let b1 := if begin < stop then max begin (min ((begin + 7) / 8 * 8) stop) else begin
  let c := (List.range' begin (b1 - begin)).foldl (fun c r => c.setNull r isNull) c
  let wholeBytes := (stop - b1) / 8
  let v : UInt8 := if isNull then 0 else 0xFF
  let c := (List.range' (b1 / 8) wholeBytes).foldl
    (fun c k => { c with nullBitmap := c.nullBitmap.set k v }) c
  let b2 := b1 + 8 * wholeBytes
  (List.range' b2 (stop - b2)).foldl (fun c r => c.setNull r isNull) c

/-- One selected row of `reconstruct` on a fixed-width column: row `src` moves to row `dst`, its
value only when it is not null. -/
def reconstructFixedStep (elemLen : Nat) (c : Column) (p : Nat × Nat) : Column :=
  let (src, dst) := p
  if c.isNull src then
    { c with
      nullBitmap := c.nullBitmap.modify (dst / 8) (· &&& ~~~((1 : UInt8) <<< (dst % 8).toUInt8)) }
  else
    { c with
      data := overwrite c.data (dst * elemLen)
        (c.data.extract (src * elemLen) (src * elemLen + elemLen))
      nullBitmap := c.nullBitmap.modify (dst / 8) (· ||| (1 : UInt8) <<< (dst % 8).toUInt8) }

/-- One selected row of `reconstruct` on a variable-length column: the bytes of a row that is not
null move down to `tail`, and `offsets[dst+1]` is set, in the array the later rows' offsets are
still read from. -/
def reconstructVarStep (acc : Column × Nat) (p : Nat × Nat) : Column × Nat :=
  let (c, tail) := acc
  let (src, dst) := p
  if c.isNull src then
    ({ c with
      nullBitmap := c.nullBitmap.modify (dst / 8) (· &&& ~~~((1 : UInt8) <<< (dst % 8).toUInt8))
      offsets := c.offsets.set (dst + 1) tail }, tail)
  else
    let start := c.offsets.getD src 0
    let stop := c.offsets.getD (src + 1) 0
    let tail' := tail + (stop - start)
    ({ c with
      data := overwrite c.data tail (c.data.extract start stop)
      offsets := c.offsets.set (dst + 1) tail'
      nullBitmap := c.nullBitmap.modify (dst / 8) (· ||| (1 : UInt8) <<< (dst % 8).toUInt8) }, tail')

/-- `reconstruct(sel)` for a non-nil `sel`: the selected rows moved to the front in place, and the
bits past the last one cleared. -/
def reconstruct (c : Column) (sel : List Nat) : Column :=
  let c := match c.elemBuf with
    | some buf =>
      let c := sel.zipIdx.foldl (reconstructFixedStep buf.length) c
      { c with data := c.data.take (sel.length * buf.length) }
    | none =>
      let (c, tail) := sel.zipIdx.foldl reconstructVarStep (c, 0)
      { c with data := c.data.take tail, offsets := c.offsets.take (sel.length + 1) }
  let n := sel.length
  let nullBitmap := c.nullBitmap.take ((n + 7) / 8)
  let nullBitmap := if n / 8 < nullBitmap.length then
      nullBitmap.modify (n / 8) (· &&& (((1 : UInt8) <<< (n % 8).toUInt8) - 1))
    else nullBitmap
  { c with length := n, nullBitmap }

/-- `CopyConstruct(nil)`. -/
def copyConstruct (c : Column) : Column := c

/-- One selected row of `CopyReconstruct`: appended to the new column, value and null bit. -/
def copyReconstructStep (c dst : Column) (i : Nat) : Column :=
  let dst := dst.appendNullBitmap (!c.isNull i)
  let dst := match c.elemBuf with
    | some buf =>
      { dst with data := dst.data ++ c.data.extract (i * buf.length) (i * buf.length + buf.length) }
    | none =>
      let data := dst.data ++ c.data.extract (c.offsets.getD i 0) (c.offsets.getD (i + 1) 0)
      { dst with data, offsets := dst.offsets ++ [data.length] }
  { dst with length := dst.length + 1 }

/-- `CopyReconstruct(sel, nil)` for a non-nil `sel`: a copy when `sel` selects every row in order,
and otherwise a new column the selected rows are appended to. -/
def copyReconstruct (c : Column) (sel : List Nat) : Column :=
  if sel.length = c.length ∧ sel.Pairwise (· ≤ ·) then c.copyConstruct
  else
    let dst : Column := match c.elemBuf with
      | some buf => { newFixedLenColumn buf.length with elemBuf := some (List.replicate buf.length 0) }
      | none => newVarLenColumn
    sel.foldl (copyReconstructStep c) dst

/-! ### What the rows are made of -/

theorem isNull_eq_not_bitAt (c : Column) (i : Nat) : c.isNull i = !bitAt c.nullBitmap i := by
  have hbit := and_one_shiftLeft_eq_zero (c.nullBitmap[i / 8]?.getD 0) (Nat.mod_lt i (by omega : 0 < 8))
  rw [isNull, bitAt]
  cases h : (c.nullBitmap[i / 8]?.getD 0).toNat.testBit (i % 8)
  · simpa using hbit.mpr h
  · simpa [h] using hbit

theorem sum_nullBytes (c : Column) (k : Nat) :
    ((List.range k).map fun k => 8 - onesCount8 (c.nullBitmap.getD k 0)).sum =
      ((List.range (8 * k)).filter c.isNull).length := by
  induction k with
  | zero => rfl
  | succ k ih =>
    rw [List.range_succ, List.map_append, List.sum_append, ih, List.map_singleton, List.sum_singleton,
      show 8 * (k + 1) = 8 * k + 8 by omega, List.range_add,
      List.filter_append, List.length_append, List.filter_map, List.length_map, eight_sub_onesCount8]
    -- the rows of byte `k` are null where its bits are clear
    congr 2
    apply List.filter_congr
    intro q hq
    have hq8 : q < 8 := List.mem_range.mp hq
    have hdiv : (8 * k + q) / 8 = k := by omega
    have hmod : (8 * k + q) % 8 = q := by omega
    rw [Function.comp_apply, isNull_eq_not_bitAt, bitAt, hdiv, hmod, List.getD_eq_getElem?_getD]

/-- The count the code writes is the number of null rows. -/
theorem nullCount_eq (c : Column) : c.nullCount = ((List.range c.length).filter c.isNull).length := by
  have hsplit : c.length = 8 * (c.length / 8) + (c.length - 8 * (c.length / 8)) := by omega
  rw [nullCount, sum_nullBytes]
  conv_rhs => rw [hsplit, List.range_add, List.filter_append, List.length_append,
    ← List.range'_eq_map_range]

theorem nullCount_le (c : Column) : c.nullCount ≤ c.length := by
  rw [nullCount_eq]
  exact (List.length_filter_le _ _).trans (List.length_range ▸ le_refl _)

theorem nullCount_eq_zero {c : Column} (h : c.nullCount = 0) (i : Nat) (hi : i < c.length) :
    c.isNull i = false := by
  rw [nullCount_eq, List.length_eq_zero_iff, List.filter_eq_nil_iff] at h
  simpa using h i (List.mem_range.mpr hi)

@[simp] theorem length_rows (c : Column) : c.rows.length = c.length := by
  simp [rows]

theorem getElem_rows (c : Column) {i : Nat} (h : i < c.rows.length) :
    c.rows[i] = if c.isNull i then none else some (c.getRaw i) := by
  simp [rows]

/-- Two columns hold the same rows when they have as many rows, the same null bits on them, and
the same bytes in the rows that are not null. -/
theorem rows_eq_of {c c' : Column} (hlen : c'.length = c.length)
    (hnull : ∀ i < c.length, c'.isNull i = c.isNull i)
    (hraw : ∀ i < c.length, c.isNull i = false → c'.getRaw i = c.getRaw i) : c'.rows = c.rows := by
  apply List.ext_getElem (by simp [hlen])
  intro i h' h
  rw [getElem_rows, getElem_rows, hnull i (by simpa using h)]
  cases hi : c.isNull i
  · rw [hraw i (by simpa using h) hi]
  · rfl

/-- The first rows of a column are the rows of the column cut short. -/
theorem rows_take (c : Column) {r : Nat} (hr : r ≤ c.length) :
    c.rows.take r = ({ c with length := r } : Column).rows := by
  simp only [rows, ← List.map_take, List.take_range, Nat.min_eq_left hr]
  rfl

/-- A column holds the rows of `a` followed by those of `b` when it has their null bits and bytes
at those places. -/
theorem rows_eq_append {c a b : Column} (hlen : c.length = a.length + b.length)
    (hleft : ∀ i < a.length, c.isNull i = a.isNull i ∧ c.getRaw i = a.getRaw i)
    (hright : ∀ j < b.length,
      c.isNull (a.length + j) = b.isNull j ∧ c.getRaw (a.length + j) = b.getRaw j) :
    c.rows = a.rows ++ b.rows := by
  apply List.ext_getElem (by simp [hlen])
  intro i h h'
  rw [getElem_rows]
  by_cases hi : i < a.length
  · rw [List.getElem_append_left (by simpa using hi), getElem_rows, (hleft i hi).1, (hleft i hi).2]
  · have hj : i - a.length < b.length := by simp at h; omega
    have hi' : i = a.length + (i - a.length) := by omega
    rw [List.getElem_append_right (by simpa using hi), getElem_rows]
    simp only [length_rows]
    rw [hi', (hright _ hj).1, (hright _ hj).2, ← hi']

/-- A column holds the rows of `a` after the first `k` when it has their null bits and bytes. -/
theorem rows_eq_drop {c a : Column} {k : Nat} (hlen : c.length + k = a.length)
    (h : ∀ j < c.length, c.isNull j = a.isNull (k + j) ∧ c.getRaw j = a.getRaw (k + j)) :
    c.rows = a.rows.drop k := by
  apply List.ext_getElem (by simp; omega)
  intro j h₁ h₂
  rw [getElem_rows, List.getElem_drop, getElem_rows, (h j (by simpa using h₁)).1,
    (h j (by simpa using h₁)).2]

theorem getRaw_of_elemBuf_some {c : Column} {buf : List UInt8} (h : c.elemBuf = some buf) (i : Nat) :
    c.getRaw i = c.data.extract (i * buf.length) (i * buf.length + buf.length) := by
  rw [getRaw, h]

theorem getRaw_of_elemBuf_none {c : Column} (h : c.elemBuf = none) (i : Nat) :
    c.getRaw i = c.data.extract (c.offsets.getD i 0) (c.offsets.getD (i + 1) 0) := by
  rw [getRaw, h]

theorem getRaw_congr {c c' : Column} (hdata : c'.data = c.data)
    (hwidth : c'.elemBuf.map List.length = c.elemBuf.map List.length)
    (hoffsets : c.elemBuf = none → c'.offsets = c.offsets) (i : Nat) : c'.getRaw i = c.getRaw i := by
  cases h : c.elemBuf with
  | none =>
    have h' : c'.elemBuf = none := by simpa [h] using hwidth
    rw [getRaw_of_elemBuf_none h', getRaw_of_elemBuf_none h, hdata, hoffsets h]
  | some buf =>
    obtain ⟨buf', h', hlen⟩ : ∃ buf', c'.elemBuf = some buf' ∧ buf'.length = buf.length := by
      cases h'' : c'.elemBuf <;> simp_all
    rw [getRaw_of_elemBuf_some h', getRaw_of_elemBuf_some h, hdata, hlen]

theorem rows_eq_of_bits {c c' : Column} (hlen : c'.length = c.length)
    (hbits : ∀ i < c.length, bitAt c'.nullBitmap i = bitAt c.nullBitmap i)
    (hraw : ∀ i < c.length, c'.getRaw i = c.getRaw i) : c'.rows = c.rows :=
  rows_eq_of hlen (fun i hi => by rw [isNull_eq_not_bitAt, isNull_eq_not_bitAt, hbits i hi])
    (fun i hi _ => hraw i hi)

end Column

@[simp] theorem length_clearRedundantBits (bm : List UInt8) (numBits : Nat) :
    (clearRedundantBits bm numBits).length = bm.length := by
  simp [clearRedundantBits]

/-- On a bitmap of exactly the bytes `numBits` bits need, the bits from `numBits` on are cleared
and no other. -/
theorem bitAt_clearRedundantBits {bm : List UInt8} {numBits : Nat}
    (hlen : bm.length = (numBits + 7) / 8) (i : Nat) :
    bitAt (clearRedundantBits bm numBits) i = (bitAt bm i && decide (i < numBits)) := by
  rcases Nat.eq_zero_or_pos bm.length with hnil | hpos
  · rw [List.eq_nil_of_length_eq_zero hnil]
    simp [clearRedundantBits, bitAt]
  · rw [clearRedundantBits, bitAt_modify _ _ _ _ (by omega)]
    split_ifs with hlast
    · -- the last byte: its mask keeps the bits below `numBits`
      have hi : i % 8 < 8 := Nat.mod_lt i (by omega)
      rw [testBit_and, testBit_shl_one_sub_ofInt (by omega) (by omega) hi, bitAt, hlast]
      have hkeep : i % 8 + ((bm.length * 8 : Nat) - (numBits : Int)).toNat < 8 ↔ i < numBits := by
        omega
      simp only [hkeep]
    · rcases Nat.lt_or_ge (i / 8) (bm.length - 1) with hbelow | hpast
      · -- an earlier byte, all of whose bits are below `numBits`
        have : i < numBits := by omega
        simp [this]
      · rw [bitAt_eq_false_of_length_le (by omega), Bool.false_and]

end TinySql.Chunk

namespace TinySql.Chunk

/-! ### Two ways the rows get lost -/

/-- A row of `"ab"` made null, and a row of `"cd"`. -/
def nullRowWithBytes : Column :=
  ((newColumn varElemLen).appendBytes [0x61, 0x62]).appendBytes [0x63, 0x64] |>.setNull 0 true

/-- `AppendNull` after `ResizeInt64(1, false)` appends a row that is not null; and `reconstruct`
selecting both rows of `nullRowWithBytes` gives the second row the bytes of the first as well,
where `CopyReconstruct` keeps the rows. -/
theorem appendNull_reconstruct_lose_rows :
    ((newColumn 8).resizeInt64 1 false).rows = [some (List.replicate 8 0)] ∧
      ((newColumn 8).resizeInt64 1 false).appendNull.rows ≠
        ((newColumn 8).resizeInt64 1 false).rows ++ [none] ∧
      nullRowWithBytes.rows = [none, some [0x63, 0x64]] ∧
      (nullRowWithBytes.copyReconstruct [0, 1]).rows = nullRowWithBytes.rows ∧
      (nullRowWithBytes.reconstruct [0, 1]).rows ≠ nullRowWithBytes.rows := by
  decide

end TinySql.Chunk
