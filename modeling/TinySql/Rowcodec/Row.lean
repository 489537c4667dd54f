import TinySql.Rowcodec.Common
import TinySql.Lib.GoSlice

/-!
# The row layout

`util/rowcodec/row.go` lays a row out as

    CodecVer | flag | numNotNullCols (2) | numNullCols (2) | colIDs | offsets | data

with the IDs of the not-null columns first and then those of the NULL ones, each part sorted, and
`offsets[i]` the end of the `i`-th not-null value in `data`. A small row keeps IDs in one byte and
offsets in two; a large one (`flag & 1`) keeps both in four. The `row` struct holds the slices of
both layouts, and `large` says which one `toBytes`, `getData` and `findColID` read: the other
keeps whatever it held. The slices are `GoSlice`s, since the encoder reuses them from one row to
the next.

`toBytes` and `fromBytes` reinterpret the `uint16` and `uint32` slices as bytes in place
(`u16SliceToBytes` and its siblings in `common.go`); the model takes the machine's order to be
little-endian. A panic is the error of its runtime message. `rowData`'s capacity is taken to be its
length, as it is for a value read from the store.
-/

namespace TinySql.Rowcodec

open TinySql.Lib

/-- `CodecVer`. -/
def codecVer : Fin 256 := 128

/-- `errInvalidCodecVer`. -/
def errInvalidCodecVer : String := "invalid codec version"

def errSliceBoundsOutOfRange : String := "runtime error: slice bounds out of range"

/-- An index into a slice: `none` is the panic of an index out of range. -/
def orPanic {α : Type} : Option α → Except String α
  | some a => .ok a
  | none => .error errIndexOutOfRange

/-- `b[lo:hi]`. -/
def sliceBytes (b : List (Fin 256)) (lo hi : Nat) : Except String (List (Fin 256)) :=
  if lo ≤ hi ∧ hi ≤ b.length then .ok (b.extract lo hi) else .error errSliceBoundsOutOfRange

/-- `b[lo:]`. -/
def sliceFrom (b : List (Fin 256)) (lo : Nat) : Except String (List (Fin 256)) :=
  if lo ≤ b.length then .ok (b.drop lo) else .error errSliceBoundsOutOfRange

/-- `binary.LittleEndian.Uint16(b[i:])`, which reads `b[i+1]` first. -/
def uint16At (b : List (Fin 256)) (i : Nat) : Except String UInt16 := do
  let rest ← sliceFrom b i
  if rest.length < 2 then throw errIndexOutOfRange
  return UInt16.ofNat (ofDigitsLE (rest.take 2))

/-- `u16SliceToBytes`. -/
def u16SliceToBytes (u16s : List UInt16) : List (Fin 256) :=
  u16s.flatMap fun u => digitsLE 2 u.toNat

/-- `u32SliceToBytes`. -/
def u32SliceToBytes (u32s : List UInt32) : List (Fin 256) :=
  u32s.flatMap fun u => digitsLE 4 u.toNat

/-- `bytes2U16Slice`: `len(b) / 2` numbers; a trailing odd byte is not read. -/
def bytes2U16Slice : List (Fin 256) → List UInt16
  | b₀ :: b₁ :: rest => UInt16.ofNat (ofDigitsLE [b₀, b₁]) :: bytes2U16Slice rest
  | _ => []

/-- `bytesToU32Slice`. -/
def bytesToU32Slice : List (Fin 256) → List UInt32
  | b₀ :: b₁ :: b₂ :: b₃ :: rest => UInt32.ofNat (ofDigitsLE [b₀, b₁, b₂, b₃]) :: bytesToU32Slice rest
  | _ => []

/-- `row`. -/
structure Row where
  large : Bool
  numNotNullCols : UInt16
  numNullCols : UInt16
  colIDs : GoSlice (Fin 256)
  offsets : GoSlice UInt16
  data : List (Fin 256)
  colIDs32 : GoSlice UInt32
  offsets32 : GoSlice UInt32

namespace Row

/-- The zero value of `row`, as a fresh `Encoder` or decoder holds it. -/
def zero : Row := ⟨false, 0, 0, .nil, .nil, [], .nil, .nil⟩

/-! ### Reading a row -/

/-- The start and end in `data` of the `i`-th not-null value, from offsets of either width. -/
def dataBounds {τ : Type} (offsets : GoSlice τ) (toNat : τ → Nat) (i : Nat) :
    Except String (Nat × Nat) := do
  let start ← if i > 0 then toNat <$> orPanic (offsets.get? (i - 1)) else pure 0
  let stop ← toNat <$> orPanic (offsets.get? i)
  return (start, stop)

/-- `getData`. -/
def getData (r : Row) (i : Nat) : Except String (List (Fin 256)) := do
  let bounds ← if r.large then dataBounds r.offsets32 UInt32.toNat i
    else dataBounds r.offsets UInt16.toNat i
  sliceBytes r.data bounds.1 bounds.2

/-- The column ID at `h`, read as `int64` from the layout in use. -/
def colIDAt (r : Row) (h : Nat) : Except String Int64 :=
  if r.large then (fun v : UInt32 => v.toUInt64.toInt64) <$> orPanic (r.colIDs32.get? h)
  else (fun v : Fin 256 => Int64.ofNat v.val) <$> orPanic (r.colIDs.get? h)

/-- One binary search of `findColID` over the IDs in `[i, j)`, with the place it finds `colID` at.
Every round shrinks `[i, j)`, so `j - i` rounds of fuel are enough. -/
def searchColID (colIDAt : Nat → Except String Int64) (colID : Int64) :
    Nat → Nat → Nat → Except String (Option Nat)
  | 0, _, _ => pure none
  | fuel + 1, i, j =>
    if i < j then do
      let h := (i + j) / 2
      let v ← colIDAt h
      if v < colID then searchColID colIDAt colID fuel (h + 1) j
      else if v > colID then searchColID colIDAt colID fuel i h
      else pure (some h)
    else pure none

/-- `findColID`: the place of `colID` among the not-null columns, or whether it is NULL or
missing. The number of columns is the `uint16` sum of the two counts. -/
def findColID (r : Row) (colID : Int64) : Except String (Nat × Bool × Bool) := do
  let n := r.numNotNullCols.toNat
  match ← searchColID r.colIDAt colID n 0 n with
  | some idx => return (idx, false, false)
  | none =>
    let m := (r.numNotNullCols + r.numNullCols).toNat
    match ← searchColID r.colIDAt colID (m - n) n m with
    | some _ => return (0, true, false)
    | none => return (0, false, true)

/-- `fromBytes`: the fields of the layout the flag names are read off `rowData`; the others keep
what `r` held. -/
def fromBytes (r : Row) (rowData : List (Fin 256)) : Except String Row := do
  let ver ← orPanic rowData[0]?
  if ver ≠ codecVer then throw errInvalidCodecVer
  let flag ← orPanic rowData[1]?
  let large := flag.val &&& 1 > 0
  let numNotNullCols ← uint16At rowData 2
  let numNullCols ← uint16At rowData 4
  let cursor := 6
  if large then
    let colIDsLen := (numNotNullCols + numNullCols).toNat * 4
    let colIDs32 ← sliceBytes rowData cursor (cursor + colIDsLen)
    let cursor := cursor + colIDsLen
    let offsetsLen := numNotNullCols.toNat * 4
    let offsets32 ← sliceBytes rowData cursor (cursor + offsetsLen)
    let data ← sliceFrom rowData (cursor + offsetsLen)
    return { r with
      large := large
      numNotNullCols := numNotNullCols
      numNullCols := numNullCols
      data := data
      colIDs32 := .ofList (bytesToU32Slice colIDs32)
      offsets32 := .ofList (bytesToU32Slice offsets32) }
  else
    let colIDsLen := (numNotNullCols + numNullCols).toNat
    let colIDs ← sliceBytes rowData cursor (cursor + colIDsLen)
    let cursor := cursor + colIDsLen
    let offsetsLen := numNotNullCols.toNat * 2
    let offsets ← sliceBytes rowData cursor (cursor + offsetsLen)
    let data ← sliceFrom rowData (cursor + offsetsLen)
    return { r with
      large := large
      numNotNullCols := numNotNullCols
      numNullCols := numNullCols
      data := data
      colIDs := .ofList colIDs
      offsets := .ofList (bytes2U16Slice offsets) }

/-! ### Writing a row -/

/-- `toBytes`: the header, the IDs and offsets of the layout `large` names, and the data. -/
def toBytes (r : Row) (buf : List (Fin 256)) : List (Fin 256) :=
  buf ++ [codecVer, if r.large then 1 else 0] ++ digitsLE 2 r.numNotNullCols.toNat ++
    digitsLE 2 r.numNullCols.toNat ++
    (if r.large then u32SliceToBytes r.colIDs32.toList ++ u32SliceToBytes r.offsets32.toList
      else r.colIDs.toList ++ u16SliceToBytes r.offsets.toList) ++ r.data

/-- `initColIDs`. -/
def initColIDs (r : Row) : Row :=
  { r with colIDs := r.colIDs.reuse (r.numNotNullCols + r.numNullCols).toNat }

/-- `initColIDs32`. -/
def initColIDs32 (r : Row) : Row :=
  { r with colIDs32 := r.colIDs32.reuse (r.numNotNullCols + r.numNullCols).toNat }

/-- `initOffsets`. -/
def initOffsets (r : Row) : Row :=
  { r with offsets := r.offsets.reuse r.numNotNullCols.toNat }

/-- `initOffsets32`. -/
def initOffsets32 (r : Row) : Row :=
  { r with offsets32 := r.offsets32.reuse r.numNotNullCols.toNat }

/-! ### Finding a column -/

/-- The binary search over IDs that increase strictly: it finds `colID` in `[i, j)` exactly where
it is, and nowhere else, given as many rounds as the range is long. -/
theorem searchColID_spec {colIDAt : Nat → Except String Int64} {ids : List Int64}
    (hat : ∀ h (hh : h < ids.length), colIDAt h = .ok ids[h]) (lo hi : Nat)
    (hlt : ∀ a b (ha : a < b) (hb : b < ids.length), lo ≤ a → b < hi → ids[a] < ids[b])
    (colID : Int64) :
    ∀ (fuel i j : Nat), j - i ≤ fuel → lo ≤ i → j ≤ hi → j ≤ ids.length →
      ∃ res, searchColID colIDAt colID fuel i j = .ok res ∧
        ∀ h, res = some h ↔ i ≤ h ∧ h < j ∧ ids[h]? = some colID := by
  intro fuel
  induction fuel with
  | zero =>
    intro i j hfuel _ _ _
    refine ⟨none, rfl, fun h => ⟨nofun, fun ⟨h₁, h₂, _⟩ => by omega⟩⟩
  | succ fuel ih =>
    intro i j hfuel hlo hhi hj
    by_cases hij : i < j
    · -- one round: compare the middle ID and keep the half that can hold `colID`
      have hmid : (i + j) / 2 < ids.length := by omega
      have hv := hat ((i + j) / 2) hmid
      by_cases hless : ids[(i + j) / 2] < colID
      · obtain ⟨res, hres, hspec⟩ := ih ((i + j) / 2 + 1) j (by omega) (by omega) hhi hj
        refine ⟨res, ?_, fun h => ?_⟩
        · simp [searchColID, hij, hv, hless, bind, Except.bind, hres]
        · rw [hspec]
          constructor
          · rintro ⟨h₁, h₂, h₃⟩; exact ⟨by omega, h₂, h₃⟩
          · rintro ⟨h₁, h₂, h₃⟩
            refine ⟨?_, h₂, h₃⟩
            by_contra hle
            rw [List.getElem?_eq_getElem (by omega), Option.some.injEq] at h₃
            rcases Nat.lt_or_ge h ((i + j) / 2) with hlt' | hge
            · exact Int64.lt_asymm (h₃ ▸ hlt _ _ hlt' hmid (by omega) (by omega)) hless
            · have : h = (i + j) / 2 := by omega
              subst this
              exact Int64.lt_irrefl (h₃ ▸ hless)
      · by_cases hgreater : ids[(i + j) / 2] > colID
        · obtain ⟨res, hres, hspec⟩ := ih i ((i + j) / 2) (by omega) hlo (by omega) (by omega)
          refine ⟨res, ?_, fun h => ?_⟩
          · simp [searchColID, hij, hv, hless, hgreater, bind, Except.bind, hres]
          · rw [hspec]
            constructor
            · rintro ⟨h₁, h₂, h₃⟩; exact ⟨h₁, by omega, h₃⟩
            · rintro ⟨h₁, h₂, h₃⟩
              refine ⟨h₁, ?_, h₃⟩
              by_contra hle
              rw [List.getElem?_eq_getElem (by omega), Option.some.injEq] at h₃
              rcases Nat.lt_or_ge ((i + j) / 2) h with hlt' | hge
              · exact Int64.lt_asymm (h₃ ▸ hlt _ _ hlt' (by omega) (by omega) (by omega)) hgreater
              · have : h = (i + j) / 2 := by omega
                subst this
                exact Int64.lt_irrefl (h₃ ▸ hgreater)
        · -- neither below nor above: the middle ID is `colID`
          have heq : ids[(i + j) / 2] = colID := by
            by_contra hne
            rcases Int64.lt_or_lt_of_ne hne with h | h
            · exact hless h
            · exact hgreater h
          refine ⟨some ((i + j) / 2), ?_, fun h => ?_⟩
          · simp [searchColID, hij, hv, hless, hgreater, bind, Except.bind, pure, Except.pure]
          · constructor
            · rintro ⟨⟩
              exact ⟨by omega, by omega, by rw [List.getElem?_eq_getElem hmid, heq]⟩
            · rintro ⟨h₁, h₂, h₃⟩
              rw [List.getElem?_eq_getElem (by omega), Option.some.injEq] at h₃
              -- two places of one ID in a strictly increasing list are the same place
              rcases Nat.lt_trichotomy h ((i + j) / 2) with hlt' | rfl | hgt
              · exact absurd (hlt _ _ hlt' hmid (by omega) (by omega)) (by rw [h₃, heq]; exact Int64.lt_irrefl)
              · rfl
              · exact absurd (hlt _ _ hgt (by omega) (by omega) (by omega)) (by rw [h₃, heq]; exact Int64.lt_irrefl)
    · refine ⟨none, ?_, fun h => ⟨nofun, fun ⟨h₁, h₂, _⟩ => by omega⟩⟩
      simp [searchColID, hij, pure, Except.pure]

/-- The IDs a row holds, as `findColID` reads them: the not-null ones and then the NULL ones, each
part increasing. -/
structure HoldsIDs (r : Row) (ids : List Int64) : Prop where
  colIDAt_eq : ∀ h (hh : h < ids.length), r.colIDAt h = .ok ids[h]
  length_eq : ids.length = (r.numNotNullCols + r.numNullCols).toNat
  notNull_le : r.numNotNullCols.toNat ≤ ids.length
  sorted : ∀ a b (ha : a < b) (hb : b < ids.length),
    (b < r.numNotNullCols.toNat ∨ r.numNotNullCols.toNat ≤ a) → ids[a] < ids[b]

section HoldsIDs

variable {r : Row} {ids : List Int64}

theorem HoldsIDs.searchNotNull (hr : HoldsIDs r ids) (colID : Int64) :
    ∃ res, searchColID r.colIDAt colID r.numNotNullCols.toNat 0 r.numNotNullCols.toNat = .ok res ∧
      ∀ h, res = some h ↔ h < r.numNotNullCols.toNat ∧ ids[h]? = some colID := by
  obtain ⟨res, hres, hspec⟩ := searchColID_spec hr.colIDAt_eq 0 r.numNotNullCols.toNat
    (fun a b ha hb _ hhi => hr.sorted a b ha hb (.inl hhi)) colID r.numNotNullCols.toNat 0
    r.numNotNullCols.toNat (by omega) le_rfl le_rfl hr.notNull_le
  exact ⟨res, hres, fun h => by rw [hspec]; simp⟩

theorem HoldsIDs.searchNull (hr : HoldsIDs r ids) (colID : Int64) :
    ∃ res, searchColID r.colIDAt colID ((r.numNotNullCols + r.numNullCols).toNat - r.numNotNullCols.toNat)
        r.numNotNullCols.toNat (r.numNotNullCols + r.numNullCols).toNat = .ok res ∧
      ∀ h, res = some h ↔ r.numNotNullCols.toNat ≤ h ∧ h < ids.length ∧ ids[h]? = some colID := by
  obtain ⟨res, hres, hspec⟩ := searchColID_spec hr.colIDAt_eq r.numNotNullCols.toNat ids.length
    (fun a b ha hb hlo _ => hr.sorted a b ha hb (.inr hlo)) colID (ids.length - r.numNotNullCols.toNat)
    r.numNotNullCols.toNat ids.length
    (by omega) le_rfl le_rfl le_rfl
  rw [← hr.length_eq]
  exact ⟨res, hres, hspec⟩

/-- A not-null column is found at its place. -/
theorem HoldsIDs.findColID_of_lt (hr : HoldsIDs r ids) {h : Nat} (hh : h < r.numNotNullCols.toNat)
    {colID : Int64} (hid : ids[h]? = some colID) : r.findColID colID = .ok (h, false, false) := by
  obtain ⟨res, hres, hspec⟩ := hr.searchNotNull colID
  have : res = some h := (hspec h).mpr ⟨hh, hid⟩
  simp only [findColID, hres, this, bind, Except.bind, pure, Except.pure]

/-- A NULL column is found among the NULL ones. -/
theorem HoldsIDs.findColID_of_null (hr : HoldsIDs r ids) {colID : Int64}
    (hnot : colID ∉ ids.take r.numNotNullCols.toNat) (hin : colID ∈ ids.drop r.numNotNullCols.toNat) :
    r.findColID colID = .ok (0, true, false) := by
  obtain ⟨res₁, hres₁, hspec₁⟩ := hr.searchNotNull colID
  obtain ⟨res₂, hres₂, hspec₂⟩ := hr.searchNull colID
  have h₁ : res₁ = none := by
    cases res₁ with
    | none => rfl
    | some h =>
      obtain ⟨hh, hid⟩ := (hspec₁ h).mp rfl
      exact absurd (List.mem_iff_getElem?.mpr ⟨h, by rw [List.getElem?_take_of_lt hh, hid]⟩) hnot
  obtain ⟨k, hk⟩ := List.mem_iff_getElem?.mp hin
  rw [List.getElem?_drop] at hk
  have hklen : r.numNotNullCols.toNat + k < ids.length := by
    by_contra hge
    rw [List.getElem?_eq_none (by omega)] at hk
    cases hk
  have h₂ : res₂ = some (r.numNotNullCols.toNat + k) := (hspec₂ _).mpr ⟨by omega, hklen, hk⟩
  simp only [findColID, hres₁, h₁, hres₂, h₂, bind, Except.bind, pure, Except.pure]

/-- A column the row does not hold is missing. -/
theorem HoldsIDs.findColID_of_not_mem (hr : HoldsIDs r ids) {colID : Int64} (hnot : colID ∉ ids) :
    r.findColID colID = .ok (0, false, true) := by
  obtain ⟨res₁, hres₁, hspec₁⟩ := hr.searchNotNull colID
  obtain ⟨res₂, hres₂, hspec₂⟩ := hr.searchNull colID
  have hnone : ∀ {res : Option Nat} {P : Nat → Prop}, (∀ h, res = some h ↔ P h ∧ ids[h]? = some colID) →
      res = none := by
    intro res P hspec
    cases res with
    | none => rfl
    | some h => exact absurd (List.mem_iff_getElem?.mpr ⟨h, ((hspec h).mp rfl).2⟩) hnot
  have h₁ : res₁ = none := hnone (P := fun h => h < r.numNotNullCols.toNat) (fun h => by rw [hspec₁ h])
  have h₂ : res₂ = none := hnone (P := fun h => r.numNotNullCols.toNat ≤ h ∧ h < ids.length)
    (fun h => by rw [hspec₂ h, and_assoc])
  simp only [findColID, hres₁, h₁, hres₂, h₂, bind, Except.bind, pure, Except.pure]

end HoldsIDs

end Row

/-! ### Reading back a small row -/

theorem ofDigitsLE_two_uint16 (u : UInt16) : UInt16.ofNat (ofDigitsLE (digitsLE 2 u.toNat)) = u := by
  rw [ofDigitsLE_digitsLE]
  apply UInt16.toNat_inj.mp
  simp

theorem bytes2U16Slice_u16SliceToBytes (offs : List UInt16) :
    bytes2U16Slice (u16SliceToBytes offs) = offs := by
  induction offs with
  | nil => rfl
  | cons u us ih =>
    have h := ofDigitsLE_two_uint16 u
    simp only [u16SliceToBytes, List.flatMap_cons] at ih ⊢
    rw [show digitsLE 2 u.toNat = [Fin.ofNat 256 u.toNat, Fin.ofNat 256 (u.toNat / 256)] from rfl] at h ⊢
    rw [List.cons_append, List.cons_append, List.nil_append, bytes2U16Slice, h, ih]

@[simp] theorem length_u16SliceToBytes (offs : List UInt16) : (u16SliceToBytes offs).length = 2 * offs.length := by
  induction offs with
  | nil => rfl
  | cons u us ih => simp [u16SliceToBytes] at ih ⊢; omega

theorem sliceBytes_append (pre mid post : List (Fin 256)) :
    sliceBytes (pre ++ mid ++ post) pre.length (pre.length + mid.length) = .ok mid := by
  rw [sliceBytes, if_pos (by simp), List.append_assoc, List.extract_eq_take_drop,
    Nat.add_sub_cancel_left, List.drop_left, List.take_left]

theorem sliceFrom_append (pre post : List (Fin 256)) : sliceFrom (pre ++ post) pre.length = .ok post := by
  rw [sliceFrom, if_pos (by simp), List.drop_left]

theorem uint16At_append (pre post : List (Fin 256)) (u : UInt16) :
    uint16At (pre ++ digitsLE 2 u.toNat ++ post) pre.length = .ok u := by
  have hu := ofDigitsLE_two_uint16 u
  rw [show digitsLE 2 u.toNat = [Fin.ofNat 256 u.toNat, Fin.ofNat 256 (u.toNat / 256)] from rfl] at hu ⊢
  rw [uint16At, List.append_assoc, sliceFrom_append]
  simp only [bind, Except.bind, List.cons_append, List.nil_append, List.length_cons, List.take_succ_cons,
    List.take_zero]
  rw [if_neg (by omega)]
  exact congrArg Except.ok hu

namespace Row

/-- A small row reads back with the counts, IDs, offsets and data it was written with. -/
theorem fromBytes_small (r₀ : Row) (nn nnull : UInt16) {ids : List (Fin 256)} {offs : List UInt16}
    (data : List (Fin 256)) (hids : ids.length = (nn + nnull).toNat) (hoffs : offs.length = nn.toNat) :
    r₀.fromBytes ([128, 0] ++ digitsLE 2 nn.toNat ++ digitsLE 2 nnull.toNat ++ ids ++
        u16SliceToBytes offs ++ data) = .ok { r₀ with
      large := false
      numNotNullCols := nn
      numNullCols := nnull
      colIDs := .ofList ids
      offsets := .ofList offs
      data := data } := by
  -- the header, then each part of the row at the place the one before it ends
  have hu₂ := uint16At_append [128, 0] (digitsLE 2 nnull.toNat ++ ids ++ u16SliceToBytes offs ++ data) nn
  have hu₄ := uint16At_append ([128, 0] ++ digitsLE 2 nn.toNat) (ids ++ u16SliceToBytes offs ++ data) nnull
  have hids' := sliceBytes_append ([128, 0] ++ digitsLE 2 nn.toNat ++ digitsLE 2 nnull.toNat) ids
    (u16SliceToBytes offs ++ data)
  have hoffs' := sliceBytes_append ([128, 0] ++ digitsLE 2 nn.toNat ++ digitsLE 2 nnull.toNat ++ ids)
    (u16SliceToBytes offs) data
  have hdata := sliceFrom_append ([128, 0] ++ digitsLE 2 nn.toNat ++ digitsLE 2 nnull.toNat ++ ids ++
    u16SliceToBytes offs) data
  simp only [List.append_assoc, List.cons_append, List.nil_append, List.length_append, List.length_cons,
    List.length_nil, length_digitsLE, hids, length_u16SliceToBytes, hoffs] at hu₂ hu₄ hids' hoffs' hdata
  have hpos₁ : 2 + (2 + (nn + nnull).toNat) + 1 + 1 = 6 + (nn + nnull).toNat := by omega
  have hpos₂ : 2 + (2 + ((nn + nnull).toNat + 2 * nn.toNat)) + 1 + 1 =
      6 + (nn + nnull).toNat + nn.toNat * 2 := by omega
  rw [hpos₁, show 6 + (nn + nnull).toNat + 2 * nn.toNat = 6 + (nn + nnull).toNat + nn.toNat * 2 by omega]
    at hoffs'
  rw [hpos₂] at hdata
  simp only [fromBytes, List.append_assoc, List.cons_append, List.nil_append, List.getElem?_cons_zero,
    List.getElem?_cons_succ, orPanic, codecVer, bind, Except.bind, ne_eq, not_true_eq_false, if_false]
  have hu₂' : uint16At _ 2 = .ok nn := hu₂
  have hu₄' : uint16At _ 4 = .ok nnull := hu₄
  have hids'' : sliceBytes _ 6 (6 + (nn + nnull).toNat) = .ok ids := hids'
  have hflag : ¬ ((0 : Fin 256).val &&& 1 > 0) := by decide
  simp only [hu₂', hu₄', hflag, if_false, decide_false, hids'', hoffs', hdata, pure, Except.pure,
    bytes2U16Slice_u16SliceToBytes]

/-- A value of a small row: its bytes run from the end of the one before to its own end. -/
theorem getData_small {r : Row} (hlarge : r.large = false) {ends : List Nat}
    (hoffs : r.offsets.toList = ends.map UInt16.ofNat) (hbound : ∀ e ∈ ends, e < 65536) {h : Nat}
    (hh : h < ends.length) :
    r.getData h = sliceBytes r.data (if h = 0 then 0 else ends[h - 1]) ends[h] := by
  have hat : ∀ k (hk : k < ends.length), (UInt16.toNat <$> orPanic (r.offsets.get? k)) = .ok ends[k] := by
    intro k hk
    rw [GoSlice.get?_eq_getElem?, hoffs, List.getElem?_map, List.getElem?_eq_getElem hk]
    have := hbound _ (List.getElem_mem hk)
    simp only [Option.map_some, orPanic, Functor.map, Except.map, UInt16.toNat_ofNat']
    rw [Nat.mod_eq_of_lt this]
  rcases Nat.eq_zero_or_pos h with rfl | hpos
  · simp only [getData, hlarge, dataBounds, Bool.false_eq_true, if_false, gt_iff_lt, Nat.lt_irrefl,
      bind, Except.bind, hat 0 hh, pure, Except.pure, if_true]
  · simp only [getData, hlarge, dataBounds, Bool.false_eq_true, if_false, gt_iff_lt, hpos, if_true,
      bind, Except.bind, hat (h - 1) (by omega), hat h hh, pure, Except.pure, Nat.pos_iff_ne_zero.mp hpos]

end Row

end TinySql.Rowcodec
