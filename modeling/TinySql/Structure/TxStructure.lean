import TinySql.Types.Convert
import TinySql.Expression.Scalar
import TinySql.Codec.Key

/-!
# Strings and hashes over a transaction

`structure/type.go`, `string.go` and `hash.go`. A `TxStructure` keeps its data in the key-value
store of a transaction under its prefix: a string key at `prefix + EncodeBytes(key) + 's'`, the
fields of a hash key at `prefix + EncodeBytes(key) + 'h' + EncodeBytes(field)`, and the number of
fields in a meta key `prefix + EncodeBytes(key) + 'H'`, each flag as a `uint64` of eight bytes.
The fields of a hash are read by iterating over the data prefix.

A structure runs in a transaction: `store` is the transaction's view, its pairs in ascending key
order, read by `Get`, `Iter` and `IterReverse`, and `memBuffer` holds the transaction's own writes,
which `memDbBuffer.Set` checks against the limits the buffer was made with (`kv.go`). A write
refuses an empty value and a key and value longer than `entrySizeLimit` together
(`ErrEntryTooLarge`), and answers `ErrTxnTooLarge` after a write that takes the buffer past
`bufferSizeLimit`, which it keeps. So a call that fails may have written: `setKeyState` and
`hDelState` return the transaction they leave with their error, and `setKey` and `hDel` are what
the callers that return the error see (`errorOr`). `RemoveDDLReorgHandle` drops the errors of two
`HDel`s and goes on with what they wrote.

`HGetLastN` makes its result with capacity `num`, which panics for a negative `num`. It appends a
pair before it compares the count with `num`, so for `num = 0` it returns the last field instead
of none.
-/

namespace TinySql.Structure

open TinySql.Codec TinySql.Lib

inductive StructureError
  | writeOnSnapshot
  | cannotSetNilValue
  /-- `ErrEntryTooLarge`, with the limit and the size of the entry. -/
  | entryTooLarge (limit size : Nat)
  /-- `ErrTxnTooLarge`, with the size of the buffer. -/
  | txnTooLarge (size : Nat)
  /-- The panic of `make` with a negative capacity. -/
  | makesliceCapOutOfRange
  | invalidMetaData
  | invalidHashKeyPrefix
  | invalidHashKeyFlag
  | decode (msg : String)
  | parse
  deriving DecidableEq, Repr

/-- The errors of the size limits of the membuffer. -/
def StructureError.isTooLarge : StructureError → Bool
  | .entryTooLarge .. | .txnTooLarge _ => true
  | _ => false

/-- A transaction's view of the store: its pairs, by ascending key. -/
structure Store where
  pairs : List (Key × List (Fin 256))
  deriving DecidableEq, Repr

namespace Store

def get (s : Store) (k : Key) : Option (List (Fin 256)) :=
  (s.pairs.find? (·.1 == k)).map (·.2)

/-- The pair put in its place, over the one of its key. -/
def insertPair (k : Key) (v : List (Fin 256)) : List (Key × List (Fin 256)) → List (Key × List (Fin 256))
  | [] => [(k, v)]
  | p :: ps =>
    match compare k p.1 with
    | .lt => (k, v) :: p :: ps
    | .eq => (k, v) :: ps
    | .gt => p :: insertPair k v ps

def delete (s : Store) (k : Key) : Store :=
  ⟨s.pairs.filter (·.1 != k)⟩

/-- `Iter(k, upperBound)`: the pairs from `k` on and below the bound, ascending. -/
def iter (s : Store) (k upperBound : Key) : List (Key × List (Fin 256)) :=
  s.pairs.filter fun p => compare p.1 k != .lt && compare p.1 upperBound == .lt

/-- `IterReverse(k)`: the pairs below `k`, descending. -/
def iterReverse (s : Store) (k : Key) : List (Key × List (Fin 256)) :=
  (s.pairs.filter fun p => compare p.1 k == .lt).reverse

end Store

/-- `memDbBuffer`: the writes of a transaction by ascending key, a deletion as the key with an
empty value, and the limits `NewMemDbBuffer` reads. -/
structure MemBuffer where
  entries : List (Key × List (Fin 256))
  entrySizeLimit : Nat
  bufferSizeLimit : Nat
  deriving DecidableEq, Repr

/-- `TxnEntrySizeLimit`. -/
def txnEntrySizeLimit : Nat := 6 * 1024 * 1024

/-- `config.DefTxnTotalSizeLimit`, the default of `TxnTotalSizeLimit`. -/
def defTxnTotalSizeLimit : Nat := 1024 * 1024 * 1024

def newMemDbBuffer : MemBuffer :=
  ⟨[], txnEntrySizeLimit, defTxnTotalSizeLimit⟩

namespace MemBuffer

/-- `memdb.DB.Size`: the lengths of the keys and values it holds. -/
def size (m : MemBuffer) : Nat :=
  (m.entries.map fun p => p.1.length + p.2.length).sum

/-- `memdb.DB.Put`, over the entry of the key. -/
def put (m : MemBuffer) (k : Key) (v : List (Fin 256)) : MemBuffer :=
  { m with entries := Store.insertPair k v m.entries }

/-- `memDbBuffer.Set`: refused before the put, or the buffer after it, with `ErrTxnTooLarge` when it
has grown past its limit. -/
def set (m : MemBuffer) (k : Key) (v : List (Fin 256)) :
    Except StructureError (MemBuffer × Option StructureError) :=
  if v = [] then .error .cannotSetNilValue
  else if m.entrySizeLimit < k.length + v.length then
    .error (.entryTooLarge m.entrySizeLimit (k.length + v.length))
  else
    let m := m.put k v
    .ok (m, if m.bufferSizeLimit < m.size then some (.txnTooLarge m.size) else none)

/-- `memDbBuffer.Delete`. -/
def delete (m : MemBuffer) (k : Key) : MemBuffer :=
  m.put k []

end MemBuffer

/-- The type flags, as `uint64`. -/
def stringData : UInt64 := 115
def hashMeta : UInt64 := 72
def hashData : UInt64 := 104

structure TxStructure where
  store : Store
  memBuffer : MemBuffer
  keyPrefix : List (Fin 256)
  /-- `readWriter != nil`: the structure is not over a snapshot. -/
  writable : Bool
  deriving DecidableEq, Repr

namespace TxStructure

variable (t : TxStructure)

def encodeStringDataKey (key : List (Fin 256)) : Key :=
  t.keyPrefix ++ encodeBytes key ++ encodeUint stringData

def encodeHashMetaKey (key : List (Fin 256)) : Key :=
  t.keyPrefix ++ encodeBytes key ++ encodeUint hashMeta

def hashDataKeyPrefix (key : List (Fin 256)) : Key :=
  t.keyPrefix ++ encodeBytes key ++ encodeUint hashData

def encodeHashDataKey (key field : List (Fin 256)) : Key :=
  t.hashDataKeyPrefix key ++ encodeBytes field

/-- `decodeHashDataKey`: the key and the field of a hash data key. -/
def decodeHashDataKey (ek : Key) : Except StructureError (List (Fin 256) × List (Fin 256)) := do
  if !t.keyPrefix.isPrefixOf ek then throw .invalidHashKeyPrefix
  let (ek, key) ← (decodeBytes (ek.drop t.keyPrefix.length)).mapError .decode
  let (ek, tp) ← (decodeUint ek).mapError .decode
  if tp ≠ hashData then throw .invalidHashKeyFlag
  let (_, field) ← (decodeBytes ek).mapError .decode
  return (key, field)

/-- The structure over the transaction with the view `s` and the membuffer `memBuffer`. -/
def withStore (s : Store) (memBuffer : MemBuffer) : TxStructure :=
  { t with store := s, memBuffer }

/-- `Set` of the transaction, with the transaction it leaves: a pair the membuffer takes the view
shows, also when the buffer then answers `ErrTxnTooLarge`. -/
def setKeyState (k : Key) (v : List (Fin 256)) : TxStructure × Option StructureError :=
  match t.memBuffer.set k v with
  | .error e => (t, some e)
  | .ok (memBuffer, err) => (t.withStore ⟨Store.insertPair k v t.store.pairs⟩ memBuffer, err)

def setKey (k : Key) (v : List (Fin 256)) : Except StructureError TxStructure :=
  errorOr (t.setKeyState k v)

/-- `Delete` of the transaction: a deletion in the membuffer, and the key gone from the view. -/
def deleteKey (k : Key) : TxStructure :=
  t.withStore (t.store.delete k) (t.memBuffer.delete k)

/-! ### Strings -/

def set (key value : List (Fin 256)) : Except StructureError TxStructure :=
  if !t.writable then .error .writeOnSnapshot else t.setKey (t.encodeStringDataKey key) value

def get (key : List (Fin 256)) : Option (List (Fin 256)) :=
  t.store.get (t.encodeStringDataKey key)

/-- `GetInt64`: a missing key reads as `0`. -/
def getInt64 (key : List (Fin 256)) : Except StructureError Int64 :=
  match t.get key with
  | none => .ok 0
  | some v =>
    match Types.parseInt10 v with
    | (n, none) => .ok n
    | (_, some _) => .error .parse

/-- `kv.IncInt64` on the string key. -/
def inc (key : List (Fin 256)) (step : Int64) : Except StructureError (Int64 × TxStructure) :=
  if !t.writable then .error .writeOnSnapshot
  else
    let ek := t.encodeStringDataKey key
    match t.store.get ek with
    | none => do return (step, ← t.setKey ek (Expression.formatInt step.toInt))
    | some val =>
      match Types.parseInt10 val with
      | (intVal, none) =>
        let intVal := intVal + step
        do return (intVal, ← t.setKey ek (Expression.formatInt intVal.toInt))
      | (_, some _) => .error .parse

def clear (key : List (Fin 256)) : Except StructureError TxStructure :=
  if !t.writable then .error .writeOnSnapshot else .ok (t.deleteKey (t.encodeStringDataKey key))

/-! ### Hashes -/

/-- `hashMeta.Value`: the field count, eight bytes big-endian. -/
def hashMetaValue (fieldCount : Int64) : List (Fin 256) :=
  bigEndian fieldCount.toUInt64

def loadHashMeta (metaKey : Key) : Except StructureError Int64 :=
  match t.store.get metaKey with
  | none => .ok 0
  | some v => if v.length ≠ 8 then .error .invalidMetaData else .ok (readBigEndian v).toInt64

/-- `updateHash`: the new value of the field from its old one; the field count grows when the field
was missing. -/
def updateHash (key field : List (Fin 256))
    (fn : Option (List (Fin 256)) → Except StructureError (List (Fin 256))) :
    Except StructureError TxStructure := do
  let dataKey := t.encodeHashDataKey key field
  let oldValue := t.store.get dataKey
  let newValue ← fn oldValue
  -- `bytes.Equal` reads a missing value as empty
  if oldValue.getD [] = newValue then return t
  let t ← t.setKey dataKey newValue
  let metaKey := t.encodeHashMetaKey key
  let fieldCount ← t.loadHashMeta metaKey
  if oldValue.isNone then t.setKey metaKey (hashMetaValue (fieldCount + 1)) else return t

def hSet (key field value : List (Fin 256)) : Except StructureError TxStructure :=
  if !t.writable then .error .writeOnSnapshot else t.updateHash key field fun _ => .ok value

def hGet (key field : List (Fin 256)) : Option (List (Fin 256)) :=
  t.store.get (t.encodeHashDataKey key field)

/-- `EncodeHashAutoIDKeyValue`: the data key of a field, and an integer as `HInc` writes it. -/
def encodeHashAutoIDKeyValue (key field : List (Fin 256)) (val : Int64) : Key × List (Fin 256) :=
  (t.encodeHashDataKey key field, Expression.formatInt val.toInt)

def hInc (key field : List (Fin 256)) (step : Int64) : Except StructureError (Int64 × TxStructure) :=
  if !t.writable then .error .writeOnSnapshot
  else
    let base : Except StructureError Int64 := match t.hGet key field with
      | none => .ok step
      | some old =>
        match Types.parseInt10 old with
        | (v, none) => .ok (v + step)
        | (_, some _) => .error .parse
    do
      let base ← base
      return (base, ← t.updateHash key field fun _ => .ok (Expression.formatInt base.toInt))

def hGetInt64 (key field : List (Fin 256)) : Except StructureError Int64 :=
  match t.hGet key field with
  | none => .ok 0
  | some value =>
    match Types.parseInt10 value with
    | (n, none) => .ok n
    | (_, some _) => .error .parse

def hLen (key : List (Fin 256)) : Except StructureError Int64 :=
  t.loadHashMeta (t.encodeHashMetaKey key)

/-- The loop of `HDel` over the fields, with the field count. -/
def hDelLoop (key : List (Fin 256)) : List (List (Fin 256)) → TxStructure × Int64 → TxStructure × Int64
  | [], acc => acc
  | field :: fields, (t, fieldCount) =>
    let dataKey := t.encodeHashDataKey key field
    hDelLoop key fields
      (if (t.store.get dataKey).isSome then (t.deleteKey dataKey, fieldCount - 1) else (t, fieldCount))

/-- `HDel`, with the transaction it leaves: the deletions stay when the count it writes back
fails. -/
def hDelState (key : List (Fin 256)) (fields : List (List (Fin 256))) :
    TxStructure × Option StructureError :=
  if !t.writable then (t, some .writeOnSnapshot)
  else
    let metaKey := t.encodeHashMetaKey key
    match t.loadHashMeta metaKey with
    | .error e => (t, some e)
    | .ok fieldCount =>
      if fieldCount ≤ 0 then (t, none)
      else
        let (t, fieldCount) := hDelLoop key fields (t, fieldCount)
        if fieldCount ≤ 0 then (t.deleteKey metaKey, none)
        else t.setKeyState metaKey (hashMetaValue fieldCount)

def hDel (key : List (Fin 256)) (fields : List (List (Fin 256))) : Except StructureError TxStructure :=
  errorOr (t.hDelState key fields)

/-- The field of a hash data key, with its value: what the iterators pass to their callback. -/
def decodeHashPair (p : Key × List (Fin 256)) :
    Except StructureError (List (Fin 256) × List (Fin 256)) := do
  return ((← t.decodeHashDataKey p.1).2, p.2)

/-- The pairs `iterateHash` visits: from the data prefix on, while the keys start with it. -/
def hashDataAsc (key : List (Fin 256)) : List (Key × List (Fin 256)) :=
  let dataPrefix := t.hashDataKeyPrefix key
  (t.store.iter dataPrefix (prefixNext dataPrefix)).takeWhile (dataPrefix.isPrefixOf ·.1)

/-- The pairs `iterReverseHash` visits: down from `PrefixNext` of the data prefix, while the keys
start with it. -/
def hashDataDesc (key : List (Fin 256)) : List (Key × List (Fin 256)) :=
  let dataPrefix := t.hashDataKeyPrefix key
  (t.store.iterReverse (prefixNext dataPrefix)).takeWhile (dataPrefix.isPrefixOf ·.1)

/-- `iterateHash`: the fields of the hash and their values, ascending. -/
def iterateHash (key : List (Fin 256)) : Except StructureError (List (List (Fin 256) × List (Fin 256))) :=
  (t.hashDataAsc key).mapM t.decodeHashPair

def hKeys (key : List (Fin 256)) : Except StructureError (List (List (Fin 256))) :=
  (·.map Prod.fst) <$> t.iterateHash key

def hGetAll (key : List (Fin 256)) : Except StructureError (List (List (Fin 256) × List (Fin 256))) :=
  t.iterateHash key

/-- The loop of `iterReverseHash` with the callback of `HGetLastN`: a pair is appended, and the loop
stops once `num` pairs are there. -/
def hGetLastNLoop (num : Int) :
    List (Key × List (Fin 256)) → List (List (Fin 256) × List (Fin 256)) →
      Except StructureError (List (List (Fin 256) × List (Fin 256)))
  | [], res => .ok res
  | p :: rest, res => do
    let res := res ++ [← t.decodeHashPair p]
    if num ≤ res.length then return res else hGetLastNLoop num rest res

def hGetLastN (key : List (Fin 256)) (num : Int) :
    Except StructureError (List (List (Fin 256) × List (Fin 256))) :=
  -- `make([]HashPair, 0, num)`
  if num < 0 then .error .makesliceCapOutOfRange
  else t.hGetLastNLoop num (t.hashDataDesc key) []

/-- One round of the loop: the pair is appended, and the loop stops when `num` pairs are there. -/
theorem hGetLastNLoop_cons {num : Int} {p : Key × List (Fin 256)} {q : List (Fin 256) × List (Fin 256)}
    (hq : t.decodeHashPair p = .ok q) (rest : List (Key × List (Fin 256)))
    (res : List (List (Fin 256) × List (Fin 256))) :
    t.hGetLastNLoop num (p :: rest) res =
      if num ≤ (res.length + 1 : Nat) then .ok (res ++ [q]) else t.hGetLastNLoop num rest (res ++ [q]) := by
  simp only [hGetLastNLoop, hq, except_bind_ok, List.length_append, List.length_singleton]
  split <;> rfl

/-- For a positive count the loop adds the first pairs until it holds `num`, or all of them. -/
theorem hGetLastNLoop_of_pos {num : Nat} (ps : List (Key × List (Fin 256)))
    {qs : List (List (Fin 256) × List (Fin 256))} (h : ps.mapM t.decodeHashPair = .ok qs)
    (res : List (List (Fin 256) × List (Fin 256))) (hres : res.length < num) :
    t.hGetLastNLoop num ps res = .ok (res ++ qs.take (num - res.length)) := by
  induction ps generalizing qs res with
  | nil =>
    cases h
    simp [hGetLastNLoop]
  | cons p ps ih =>
    rw [List.mapM_cons] at h
    obtain ⟨q, hq, hrest⟩ := bind_eq_ok h
    obtain ⟨qs', hqs', hqs⟩ := bind_eq_ok hrest
    cases hqs
    obtain ⟨n, hn⟩ : ∃ n, num - res.length = n + 1 := ⟨num - res.length - 1, by omega⟩
    rw [t.hGetLastNLoop_cons hq, hn, List.take_succ_cons]
    split
    · next hle =>
      have hle' : num ≤ res.length + 1 := by exact_mod_cast hle
      have hn0 : n = 0 := by omega
      simp [hn0]
    · next hlt =>
      have hlt' : res.length + 1 < num := by
        rw [not_le] at hlt
        exact_mod_cast hlt
      rw [ih hqs' (res ++ [q]) (by simpa using hlt')]
      simp only [List.length_append, List.length_singleton, List.append_assoc, List.singleton_append]
      rw [show num - (res.length + 1) = n by omega]

/-- `HGetLastN` with a count that is not negative returns the first `num` pairs the reverse
iteration visits, and at least one: the loop appends a pair before it compares the count. -/
theorem hGetLastN_of_nonneg (key : List (Fin 256)) (num : Nat)
    {qs : List (List (Fin 256) × List (Fin 256))}
    (h : (t.hashDataDesc key).mapM t.decodeHashPair = .ok qs) :
    t.hGetLastN key num = .ok (qs.take (max num 1)) := by
  rw [hGetLastN, if_neg (by omega)]
  cases num with
  | succ n =>
    rw [t.hGetLastNLoop_of_pos _ h [] (by simp)]
    simp
  | zero =>
    -- a count of zero stops after the first pair, as a count of one does
    cases hdesc : t.hashDataDesc key with
    | nil =>
      rw [hdesc] at h
      cases h
      rfl
    | cons p rest =>
      rw [hdesc, List.mapM_cons] at h
      obtain ⟨q, hq, hrest⟩ := bind_eq_ok h
      obtain ⟨qs', -, hqs⟩ := bind_eq_ok hrest
      cases hqs
      rw [t.hGetLastNLoop_cons hq, if_pos (by simp)]
      rfl

/-- `HGetLastN` with a negative count panics in `make`, whatever the hash holds. -/
theorem hGetLastN_of_neg (key : List (Fin 256)) {num : Int} (hnum : num < 0) :
    t.hGetLastN key num = .error .makesliceCapOutOfRange := by
  rw [hGetLastN, if_pos hnum]

def hClear (key : List (Fin 256)) : Except StructureError TxStructure := do
  let metaKey := t.encodeHashMetaKey key
  let fieldCount ← t.loadHashMeta metaKey
  if fieldCount ≤ 0 then return t
  let fields ← t.iterateHash key
  let t := fields.foldl (fun t (field, _) => t.deleteKey (t.encodeHashDataKey key field)) t
  return t.deleteKey metaKey

end TxStructure

/-- A structure with the prefix `"m"` over an empty transaction. -/
def emptyTx : TxStructure :=
  ⟨⟨[]⟩, newMemDbBuffer, [109], true⟩

/-- After `HSet(h, f, v)`, `HGetLastN(h, 0)` returns the field. -/
theorem hGetLastN_zero_returns_field :
    (do
      let t ← emptyTx.hSet [104] [102] [118]
      t.hGetLastN [104] 0) = .ok [([102], [118])] := by
  decide

end TinySql.Structure
