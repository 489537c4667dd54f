import TinySql.Codec.Bytes

/-!
# The key layout of the MVCC store

`store/mockstore/mocktikv/mvcc_leveldb.go` stores the lock and the values of a key under
`mvccEncode(key, ver)`: the key in the memcomparable bytes format, then the version inverted.
leveldb keeps its keys in byte order, which is then the order of keys first and of versions
newest first (`compare_mvccEncode`): a key's lock, at `lockVer`, comes first, its values follow
newest first, and all of them come before anything of a greater key. This is the order in which
`Entry` lists a key's lock and values.
-/

namespace TinySql.Mocktikv

open TinySql.Lib TinySql.Codec

/-- `lockVer`, `math.MaxUint64`. -/
def lockVer : UInt64 := 0xFFFFFFFFFFFFFFFF

def errInvalidEncodedKey : String := "invalid encoded key"

/-- `mvccEncode`. -/
def mvccEncode (key : List (Fin 256)) (ver : UInt64) : Key :=
  encodeBytes key ++ encodeUintDesc ver

/-- `mvccDecode`: the key and the version; a key with nothing after it is a meta key, at
version `0`. -/
def mvccDecode (encodedKey : List (Fin 256)) : Except String (List (Fin 256) × UInt64) := do
  let (remainBytes, key) ← decodeBytes encodedKey
  if remainBytes.length = 0 then return (key, 0)
  let (remainBytes, ver) ← decodeUintDesc remainBytes
  if remainBytes.length ≠ 0 then throw errInvalidEncodedKey
  return (key, ver)

theorem mvccDecode_mvccEncode (key : List (Fin 256)) (ver : UInt64) :
    mvccDecode (mvccEncode key ver) = .ok (key, ver) := by
  have hver := decodeUintDesc_encodeUintDesc [] ver
  rw [List.append_nil] at hver
  have hlen : (encodeUintDesc ver).length ≠ 0 := by simp [encodeUintDesc]
  simp only [mvccDecode, mvccEncode, decodeBytes_encodeBytes, hver, hlen, bind, Except.bind,
    pure, Except.pure, if_false, List.length_nil, ne_eq, not_true_eq_false]

/-- Encoded keys compare as their keys, and then as their versions the other way round. -/
theorem compare_mvccEncode (key₁ key₂ : List (Fin 256)) (ver₁ ver₂ : UInt64) :
    compare (mvccEncode key₁ ver₁) (mvccEncode key₂ ver₂) =
      (compare key₁ key₂).then (compare ver₂ ver₁) := by
  rw [mvccEncode, mvccEncode, encodeBytes_encodesAt, compare_encodeUintDesc]

theorem compare_mvccEncode_of_lt {key₁ key₂ : List (Fin 256)} (h : compare key₁ key₂ = .lt)
    (ver₁ ver₂ : UInt64) : compare (mvccEncode key₁ ver₁) (mvccEncode key₂ ver₂) = .lt := by
  rw [compare_mvccEncode, h, Ordering.lt_then]

theorem compare_mvccEncode_self (key : List (Fin 256)) (ver₁ ver₂ : UInt64) :
    compare (mvccEncode key ver₁) (mvccEncode key ver₂) = compare ver₂ ver₁ := by
  rw [compare_mvccEncode, Std.compare_self, Ordering.eq_then]

/-- The layout of the store: an encoded key holds its key and version, the lock of a key comes
before its values, the values come newest first, and everything of a key comes before everything
of a greater key. -/
theorem mvccEncode_layout :
    (∀ key ver, mvccDecode (mvccEncode key ver) = .ok (key, ver)) ∧
    (∀ key₁ key₂ ver₁ ver₂, compare (mvccEncode key₁ ver₁) (mvccEncode key₂ ver₂) =
      (compare key₁ key₂).then (compare ver₂ ver₁)) ∧
    (∀ key ver, ver ≠ lockVer → compare (mvccEncode key lockVer) (mvccEncode key ver) = .lt) ∧
    (∀ key (ver₁ ver₂ : UInt64), ver₂ < ver₁ →
      compare (mvccEncode key ver₁) (mvccEncode key ver₂) = .lt) ∧
    (∀ key₁ key₂ ver₁ ver₂, compare key₁ key₂ = .lt →
      compare (mvccEncode key₁ ver₁) (mvccEncode key₂ ver₂) = .lt) := by
  refine ⟨mvccDecode_mvccEncode, compare_mvccEncode, ?lock, ?newest, ?grouped⟩
  case lock =>
    intro key ver hver
    -- every version is at most `lockVer`
    have hlt : ver.toNat < lockVer.toNat := by
      have hle := ver.toNat_lt
      have hne : ver.toNat ≠ lockVer.toNat := fun h => hver (UInt64.toNat_inj.mp h)
      simp only [lockVer, UInt64.reduceToNat] at hne ⊢
      omega
    rw [compare_mvccEncode_self, UInt64.compare_eq_toNat_compare_toNat]
    exact Nat.compare_eq_lt.mpr hlt
  case newest =>
    intro key ver₁ ver₂ h
    rw [compare_mvccEncode_self, UInt64.compare_eq_toNat_compare_toNat]
    exact Nat.compare_eq_lt.mpr (UInt64.lt_iff_toNat_lt.mp h)
  case grouped =>
    intro key₁ key₂ ver₁ ver₂ h
    exact compare_mvccEncode_of_lt h ver₁ ver₂

theorem mvccEncode_layout_lock :
    compare (mvccEncode [7] lockVer) (mvccEncode [7] 3) = .lt ∧
      compare (mvccEncode [7] 3) (mvccEncode [7] 2) = .lt ∧
      compare (mvccEncode [7] 0) (mvccEncode [7, 0] lockVer) = .lt :=
  ⟨mvccEncode_layout.2.2.1 _ _ (by decide), mvccEncode_layout.2.2.2.1 _ _ _ (by decide),
    mvccEncode_layout.2.2.2.2 _ _ _ _ (by decide)⟩

end TinySql.Mocktikv
