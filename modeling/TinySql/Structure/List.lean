import TinySql.Structure.TxStructure

/-!
# Lists over a transaction

`structure/list.go`. A list key keeps its elements at the data keys
`prefix + EncodeBytes(key) + 'l' + EncodeInt(index)` for the indices of `[LIndex, RIndex)`, and the
two bounds in the meta key `prefix + EncodeBytes(key) + 'L'`, eight bytes big-endian each. `LPush`
moves `LIndex` down and `RPush` moves `RIndex` up; the pops move them back, and an emptied list
loses its meta key, so that the next push starts again at index `0`.

The errors of the list operations are those of the store and of the structure, `kv.ErrNotExist`
from a `Get` of a missing element, and `ErrInvalidListIndex` from `LSet`.
-/

namespace TinySql.Structure

open TinySql.Codec TinySql.Lib

/-- The list type flags, as `uint64`. -/
def listMeta : UInt64 := 76
def listData : UInt64 := 108

inductive ListError
  | structure (e : StructureError)
  | notExist
  | invalidListIndex (index : Int64)
  deriving DecidableEq, Repr

/-- The errors of the size limits of the membuffer. -/
def ListError.isTooLarge : ListError → Bool
  | .structure e => e.isTooLarge
  | _ => false

/-- `listMeta`. -/
structure ListMeta where
  lIndex : Int64
  rIndex : Int64
  deriving DecidableEq, Repr

namespace ListMeta

/-- `listMeta.Value`: both indices, eight bytes big-endian each. -/
def value (lm : ListMeta) : List (Fin 256) :=
  bigEndian lm.lIndex.toUInt64 ++ bigEndian lm.rIndex.toUInt64

/-- `listMeta.IsEmpty`. -/
def isEmpty (lm : ListMeta) : Bool :=
  decide (lm.rIndex ≤ lm.lIndex)

end ListMeta

/-- `adjustIndex`: a negative index counts from the right end. -/
def adjustIndex (index min max : Int64) : Int64 :=
  if index ≥ 0 then index + min else index + max

namespace TxStructure

variable (t : TxStructure)

def encodeListMetaKey (key : List (Fin 256)) : Key :=
  t.keyPrefix ++ encodeBytes key ++ encodeUint listMeta

def encodeListDataKey (key : List (Fin 256)) (index : Int64) : Key :=
  t.keyPrefix ++ encodeBytes key ++ encodeUint listData ++ encodeInt index

/-- `Set` on the store, with the error of the list operations. -/
def setListKey (k : Key) (v : List (Fin 256)) : Except ListError TxStructure :=
  (t.setKey k v).mapError .structure

def loadListMeta (metaKey : Key) : Except ListError ListMeta :=
  match t.store.get metaKey with
  | none => .ok ⟨0, 0⟩
  | some v =>
    if v.length ≠ 16 then .error (.structure .invalidMetaData)
    else .ok ⟨(readBigEndian (v.take 8)).toInt64, (readBigEndian (v.drop 8)).toInt64⟩

/-- `Get` of a list element: `kv.ErrNotExist` when it is missing. -/
def getListData (dataKey : Key) : Except ListError (List (Fin 256)) :=
  match t.store.get dataKey with
  | none => .error .notExist
  | some v => .ok v

/-- One round of the loop of `listPush`: the index of the value, and the bounds after it. -/
def pushIndex (left : Bool) (lm : ListMeta) : Int64 × ListMeta :=
  if left then (lm.lIndex - 1, { lm with lIndex := lm.lIndex - 1 })
  else (lm.rIndex, { lm with rIndex := lm.rIndex + 1 })

/-- The loop of `listPush` over the values. -/
def listPushLoop (key : List (Fin 256)) (left : Bool) :
    List (List (Fin 256)) → TxStructure × ListMeta → Except ListError (TxStructure × ListMeta)
  | [], acc => .ok acc
  | v :: values, (t, lm) => do
    let (index, lm) := pushIndex left lm
    let t ← t.setListKey (t.encodeListDataKey key index) v
    listPushLoop key left values (t, lm)

def listPush (key : List (Fin 256)) (left : Bool) (values : List (List (Fin 256))) :
    Except ListError TxStructure :=
  if !t.writable then .error (.structure .writeOnSnapshot)
  else if values = [] then .ok t
  else do
    let metaKey := t.encodeListMetaKey key
    let lm ← t.loadListMeta metaKey
    let (t, lm) ← listPushLoop key left values (t, lm)
    t.setListKey metaKey lm.value

def lPush (key : List (Fin 256)) (values : List (List (Fin 256))) : Except ListError TxStructure :=
  t.listPush key true values

def rPush (key : List (Fin 256)) (values : List (List (Fin 256))) : Except ListError TxStructure :=
  t.listPush key false values

/-- The index `listPop` takes, and the bounds after it. -/
def popIndex (left : Bool) (lm : ListMeta) : Int64 × ListMeta :=
  if left then (lm.lIndex, { lm with lIndex := lm.lIndex + 1 })
  else (lm.rIndex - 1, { lm with rIndex := lm.rIndex - 1 })

/-- `listPop`: the element taken, `nil` for an empty list. -/
def listPop (key : List (Fin 256)) (left : Bool) :
    Except ListError (Option (List (Fin 256)) × TxStructure) :=
  if !t.writable then .error (.structure .writeOnSnapshot)
  else do
    let metaKey := t.encodeListMetaKey key
    let lm ← t.loadListMeta metaKey
    if lm.isEmpty then return (none, t)
    let (index, lm) := popIndex left lm
    let dataKey := t.encodeListDataKey key index
    let data ← t.getListData dataKey
    let t := t.deleteKey dataKey
    if !lm.isEmpty then return (some data, ← t.setListKey metaKey lm.value)
    else return (some data, t.deleteKey metaKey)

def lPop (key : List (Fin 256)) : Except ListError (Option (List (Fin 256)) × TxStructure) :=
  t.listPop key true

def rPop (key : List (Fin 256)) : Except ListError (Option (List (Fin 256)) × TxStructure) :=
  t.listPop key false

def lLen (key : List (Fin 256)) : Except ListError Int64 := do
  let lm ← t.loadListMeta (t.encodeListMetaKey key)
  return lm.rIndex - lm.lIndex

/-- The loop of `LGetAll`, from `index` down while it is at least `lIndex`, for at most `fuel`
rounds. -/
def lGetAllLoop (key : List (Fin 256)) (lIndex : Int64) :
    Nat → Int64 → List (List (Fin 256)) → Except ListError (List (List (Fin 256)))
  | 0, _, elements => .ok elements
  | fuel + 1, index, elements =>
    if index ≥ lIndex then do
      let e ← t.getListData (t.encodeListDataKey key index)
      lGetAllLoop key lIndex fuel (index - 1) (elements ++ [e])
    else .ok elements

/-- `LGetAll`: the elements from the right end to the left. The loop runs `RIndex - LIndex`
rounds; at `LIndex = MinInt64` the index of the source wraps past it instead of stopping. -/
def lGetAll (key : List (Fin 256)) : Except ListError (List (List (Fin 256))) := do
  let lm ← t.loadListMeta (t.encodeListMetaKey key)
  if lm.isEmpty then return []
  t.lGetAllLoop key lm.lIndex (lm.rIndex.toInt - lm.lIndex.toInt).toNat (lm.rIndex - 1) []

/-- `LIndex`: `nil` for an empty list or an index out of it. -/
def lIndex (key : List (Fin 256)) (index : Int64) : Except ListError (Option (List (Fin 256))) := do
  let lm ← t.loadListMeta (t.encodeListMetaKey key)
  if lm.isEmpty then return none
  let index := adjustIndex index lm.lIndex lm.rIndex
  if index ≥ lm.lIndex ∧ index < lm.rIndex then
    some <$> t.getListData (t.encodeListDataKey key index)
  else return none

/-- `LSet`: nothing for an empty list, `ErrInvalidListIndex` for an index out of it. -/
def lSet (key : List (Fin 256)) (index : Int64) (value : List (Fin 256)) :
    Except ListError TxStructure :=
  if !t.writable then .error (.structure .writeOnSnapshot)
  else do
    let lm ← t.loadListMeta (t.encodeListMetaKey key)
    if lm.isEmpty then return t
    let index := adjustIndex index lm.lIndex lm.rIndex
    if index ≥ lm.lIndex ∧ index < lm.rIndex then
      t.setListKey (t.encodeListDataKey key index) value
    else .error (.invalidListIndex index)

/-- The loop of `LClear`, deleting up from `index` while it is below `rIndex`, for at most `fuel`
rounds. -/
def lClearLoop (key : List (Fin 256)) (rIndex : Int64) : Nat → Int64 → TxStructure → TxStructure
  | 0, _, t => t
  | fuel + 1, index, t =>
    if index < rIndex then lClearLoop key rIndex fuel (index + 1) (t.deleteKey (t.encodeListDataKey key index))
    else t

/-- `LClear`. Its loop stops after `RIndex - LIndex` rounds, since the index cannot pass
`MaxInt64` before it reaches `RIndex`. -/
def lClear (key : List (Fin 256)) : Except ListError TxStructure :=
  if !t.writable then .error (.structure .writeOnSnapshot)
  else do
    let metaKey := t.encodeListMetaKey key
    let lm ← t.loadListMeta metaKey
    if lm.isEmpty then return t
    let t := lClearLoop key lm.rIndex (lm.rIndex.toInt - lm.lIndex.toInt).toNat lm.lIndex t
    return t.deleteKey metaKey

end TxStructure

end TinySql.Structure
