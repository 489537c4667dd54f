import TinySql.Codec.Bytes
import TinySql.Types.Datum

/-!
# Keys and values of datums

`util/codec/codec.go`: `encode` writes each datum as a flag byte and the datum's encoding, the
comparable one of a key (`EncodeKey`) or the compact one of a value (`EncodeValue`); and
`kv.Key.PrefixNext`.

The comparable encoding of a datum, and whatever follows it, compare as the datums do under
`CompareDatum` when the two are of one kind among `Int64`, `Uint64` and strings or one of them is
`NULL` (`encodeDatum_encodesAt`), so keys of such datums compare lexicographically. The bounds
`MinNotNull` and `MaxValue` are one byte each, and only compare as datums at the end of a key: the
flag of `MinNotNull` is that of a string.
-/

namespace TinySql.Codec

open TinySql.Lib TinySql.Types

def nilFlag : Fin 256 := 0
def bytesFlag : Fin 256 := 1
def compactBytesFlag : Fin 256 := 2
def intFlag : Fin 256 := 3
def uintFlag : Fin 256 := 4
def floatFlag : Fin 256 := 5
def varintFlag : Fin 256 := 8
def uvarintFlag : Fin 256 := 9
def maxFlag : Fin 256 := 250

/-- `encodeSignedInt`. -/
def encodeSignedInt (v : Int64) (comparable : Bool) : Key :=
  if comparable then intFlag :: encodeInt v else varintFlag :: encodeVarint v

/-- `encodeUnsignedInt`. -/
def encodeUnsignedInt (v : UInt64) (comparable : Bool) : Key :=
  if comparable then uintFlag :: encodeUint v else uvarintFlag :: encodeUvarint v

/-- `encodeBytes` of `codec.go`, the flag and the string (`EncodeBytes` is `encodeBytes`). -/
def encodeFlaggedBytes (v : List (Fin 256)) (comparable : Bool) : Key :=
  if comparable then bytesFlag :: encodeBytes v else compactBytesFlag :: encodeCompactBytes v

/-- One datum of the loop of `encode`. -/
def encodeDatum (comparable : Bool) : Datum → Key
  | .int64 i => encodeSignedInt i comparable
  | .uint64 u => encodeUnsignedInt u comparable
  | .float32 f | .float64 f => floatFlag :: encodeFloat f
  | .bytes b => encodeFlaggedBytes b comparable
  | .null => [nilFlag]
  | .minNotNull => [bytesFlag]
  | .maxValue => [maxFlag]

/-- `encode`. -/
def encode (vals : List Datum) (comparable : Bool) : Key :=
  vals.flatMap (encodeDatum comparable)

/-- `EncodeKey`. -/
def encodeKey (vals : List Datum) : Key :=
  encode vals true

/-- `EncodeValue`. -/
def encodeValue (vals : List Datum) : Key :=
  encode vals false

/-- The last byte incremented with carry, on the bytes of a key last first; `none` when every byte
wraps to zero. -/
def incrementLast : List (Fin 256) → Option (List (Fin 256))
  | [] => none
  | b :: bs => if b + 1 ≠ 0 then some ((b + 1) :: bs) else (incrementLast bs).map (0 :: ·)

/-- `kv.Key.PrefixNext`: a key of only `0xFF` bytes gets a zero byte appended. -/
def prefixNext (k : Key) : Key :=
  match incrementLast k.reverse with
  | some r => r.reverse
  | none => k ++ [0]

example : encodeBytes [1, 2, 3] = [1, 2, 3, 0, 0, 0, 0, 0, 0xFA] := by decide
example : prefixNext [1, 0xFF] = [2, 0] := by decide
example : prefixNext [0xFF, 0xFF] = [0xFF, 0xFF, 0] := by decide

/-! ### The order of keys -/

/-- The datums a key holds where the kinds of two compared keys must agree. -/
def isKeyScalar : Datum → Bool
  | .null | .int64 _ | .uint64 _ | .bytes _ => true
  | _ => false

/-- Two datums at one place of two keys: of one kind among `Int64`, `Uint64` and strings, or
`NULL` on either side. -/
def kindsAgree : Datum → Datum → Bool
  | .int64 _, .int64 _ | .uint64 _, .uint64 _ | .bytes _, .bytes _ => true
  | .null, d | d, .null => isKeyScalar d
  | _, _ => false

/-- The bounds of a range, allowed only as the last datum of a key. -/
def isBound : Datum → Bool
  | .minNotNull | .maxValue => true
  | _ => false

/-- Two keys whose datums agree in kind place by place, with a bound allowed at the end. -/
def keysComparable : List Datum → List Datum → Bool
  | [], [] => true
  | [x], [y] => kindsAgree x y || isBound x && (isKeyScalar y || isBound y) ||
      isBound y && isKeyScalar x
  | x :: xs, y :: ys => kindsAgree x y && keysComparable xs ys
  | _, _ => false

theorem compare_cons_of_lt {a b : Fin 256} (h : a < b) (u v : List (Fin 256)) :
    compare (a :: u) (b :: v) = .lt := by
  have hab : compare a b = .lt := Nat.compare_eq_lt.mpr h
  rw [List.compare_cons_cons, hab, Ordering.lt_then]

theorem compare_cons_of_gt {a b : Fin 256} (h : b < a) (u v : List (Fin 256)) :
    compare (a :: u) (b :: v) = .gt := by
  have hab : compare a b = .gt := Nat.compare_eq_gt.mpr h
  rw [List.compare_cons_cons, hab, Ordering.gt_then]

/-- The comparable encoding of a datum is a code for `CompareDatum` at datums whose kinds agree. -/
theorem encodeDatum_encodesAt {x y : Datum} (h : kindsAgree x y) :
    EncodesAt (encodeDatum true) compareDatum x y := by
  intro s t
  cases x <;> cases y <;> simp only [kindsAgree, isKeyScalar, Bool.false_eq_true] at h
  case null.null => rfl
  case null.int64 => exact compare_cons_of_lt (by decide) _ _
  case null.uint64 => exact compare_cons_of_lt (by decide) _ _
  case null.bytes => exact compare_cons_of_lt (by decide) _ _
  case int64.null => exact compare_cons_of_gt (by decide) _ _
  case uint64.null => exact compare_cons_of_gt (by decide) _ _
  case bytes.null => exact compare_cons_of_gt (by decide) _ _
  case int64.int64 a b =>
    change compare (intFlag :: (encodeInt a ++ s)) (intFlag :: (encodeInt b ++ t)) =
      (compare a b).then (compare s t)
    rw [List.compare_cons_cons, Std.compare_self, Ordering.eq_then,
      compare_append_of_length_eq (by simp [encodeInt]), compare_encodeInt]
  case uint64.uint64 a b =>
    change compare (uintFlag :: (encodeUint a ++ s)) (uintFlag :: (encodeUint b ++ t)) =
      (compare a b).then (compare s t)
    rw [List.compare_cons_cons, Std.compare_self, Ordering.eq_then,
      compare_append_of_length_eq (by simp [encodeUint]), encodeUint, encodeUint, compare_bigEndian]
  case bytes.bytes a b =>
    change compare (bytesFlag :: (encodeBytes a ++ s)) (bytesFlag :: (encodeBytes b ++ t)) =
      (compare a b).then (compare s t)
    rw [List.compare_cons_cons, Std.compare_self, Ordering.eq_then, encodeBytes_encodesAt]

/-- At the end of a key a bound compares with any datum as `CompareDatum` says. -/
theorem compare_encodeDatum_of_bound {x y : Datum} (h : isBound x ∧ (isKeyScalar y ∨ isBound y)) :
    compare (encodeDatum true x) (encodeDatum true y) = compareDatum x y ∧
      compare (encodeDatum true y) (encodeDatum true x) = compareDatum y x := by
  obtain ⟨hx, hy⟩ := h
  cases x <;> simp only [isBound, Bool.false_eq_true] at hx <;>
    cases y <;> simp only [isKeyScalar, isBound, Bool.false_eq_true, or_self] at hy
  case minNotNull.bytes b =>
    have hne : encodeBytes b ≠ [] := List.ne_nil_of_length_pos (by rw [length_encodeBytes]; simp)
    have hlt : compare [bytesFlag] ([bytesFlag] ++ encodeBytes b) = .lt :=
      compare_append_of_ne_nil hne _
    have hgt : compare ([bytesFlag] ++ encodeBytes b) [bytesFlag] = .gt := by
      rw [Std.OrientedOrd.eq_swap, hlt]
      rfl
    exact ⟨hlt, hgt⟩
  -- the other pairs are equal bounds or differ in the flag byte, which orders them as the datums
  all_goals exact ⟨rfl, rfl⟩

theorem compare_encodeDatum_of_last {x y : Datum}
    (h : kindsAgree x y ∨ isBound x ∧ (isKeyScalar y ∨ isBound y) ∨ isBound y ∧ isKeyScalar x) :
    compare (encodeDatum true x) (encodeDatum true y) = compareDatum x y := by
  rcases h with hxy | hx | ⟨hy, hx⟩
  · simpa using encodeDatum_encodesAt hxy [] []
  · exact (compare_encodeDatum_of_bound hx).1
  · exact (compare_encodeDatum_of_bound ⟨hy, .inl hx⟩).2

/-- Keys whose datums agree in kind compare as the lists of datums do, lexicographically. -/
theorem compare_encodeKey_of_keysComparable {xs ys : List Datum} (h : keysComparable xs ys) :
    compare (encodeKey xs) (encodeKey ys) = List.compareLex compareDatum xs ys := by
  induction xs generalizing ys with
  | nil =>
    cases ys with
    | nil => rfl
    | cons y ys => exact absurd h (by simp [keysComparable])
  | cons x xs ih =>
    cases ys with
    | nil => cases xs <;> exact absurd h (by simp [keysComparable])
    | cons y ys =>
      cases xs with
      | nil =>
        cases ys with
        | nil =>
          -- the last datums, where a bound may stand
          simp only [keysComparable, Bool.or_eq_true, Bool.and_eq_true, or_assoc] at h
          simpa [encodeKey, encode, List.compareLex_cons_cons, List.compareLex_nil_nil] using
            compare_encodeDatum_of_last h
        | cons y' ys => exact absurd h (by simp [keysComparable])
      | cons x' xs =>
        have h' : kindsAgree x y ∧ keysComparable (x' :: xs) ys := by
          cases ys with
          | nil => exact absurd h (by simp [keysComparable])
          | cons y' ys => simpa [keysComparable] using h
        have htail := ih h'.2
        simp only [encodeKey, encode, List.flatMap_cons] at htail ⊢
        rw [encodeDatum_encodesAt h'.1, htail, List.compareLex_cons_cons]

theorem encodeDatum_ne_nil (comparable : Bool) (d : Datum) : encodeDatum comparable d ≠ [] := by
  cases d <;> cases comparable <;>
    simp [encodeDatum, encodeSignedInt, encodeUnsignedInt, encodeFlaggedBytes]

/-- `EncodeKey` preserves the order of datums: keys whose datums agree in kind compare as the
lists of datums under `CompareDatum`, and a key extended by more datums extends its bytes and sorts
after it. -/
theorem encodeKey_compare_lexicographic :
    (∀ xs ys : List Datum, keysComparable xs ys →
      compare (encodeKey xs) (encodeKey ys) = List.compareLex compareDatum xs ys) ∧
    ∀ xs zs : List Datum, zs ≠ [] →
      encodeKey (xs ++ zs) = encodeKey xs ++ encodeKey zs ∧ encodeKey zs ≠ [] ∧
        compare (encodeKey xs) (encodeKey (xs ++ zs)) = .lt := by
  refine ⟨fun _ _ h => compare_encodeKey_of_keysComparable h, fun xs zs hzs => ?_⟩
  obtain ⟨z, zs', rfl⟩ := List.exists_cons_of_ne_nil hzs
  have happend : encodeKey (xs ++ z :: zs') = encodeKey xs ++ encodeKey (z :: zs') := by
    simp [encodeKey, encode]
  have hne : encodeKey (z :: zs') ≠ [] := by
    simp [encodeKey, encode, encodeDatum_ne_nil]
  exact ⟨happend, hne, by rw [happend]; exact compare_append_of_ne_nil hne _⟩

theorem encodeKey_compare_lexicographic_int_null :
    keysComparable [.int64 (-1), .null] [.int64 (-1), .minNotNull] ∧
      compare (encodeKey [.int64 (-1), .null]) (encodeKey [.int64 (-1), .minNotNull]) = .lt ∧
      compare (encodeKey [.bytes [1]]) (encodeKey ([.bytes [1]] ++ [.null])) = .lt :=
  ⟨by decide,
    (encodeKey_compare_lexicographic.1 _ _ (by decide)).trans (by decide),
    (encodeKey_compare_lexicographic.2 _ _ (List.cons_ne_nil _ _)).2.2⟩

/-! ### Value sizes

`EstimateValueSize` counts the bytes `EncodeValue` writes without writing them: the flag byte, and
for an integer one byte for each seven bits of its varint, counted by shifting. A signed integer
is measured as the word its zig-zag code halves to, `v` or `-v - 1`. -/

/-- The loop `for v > 0 { size++; v = v >> 7 }` of `valueSizeOfSignedInt` and
`valueSizeOfUnsignedInt`, on the value of a word that is not negative; `fuel` bounds its rounds,
and ten cover 64 bits. -/
def valueSizeLoop : Nat → Nat → Nat → Nat
  | 0, size, _ => size
  | fuel + 1, size, v => if v > 0 then valueSizeLoop fuel (size + 1) (v >>> 7) else size

/-- `valueSizeOfSignedInt`: the flag byte and the bytes of the varint of `v`. -/
def valueSizeOfSignedInt (v : Int64) : Nat :=
  let v := if v < 0 then 0 - v - 1 else v
  -- `v` is not negative now, so its shifts are those of its value
  valueSizeLoop 10 2 (v.toInt.toNat >>> 6)

/-- `valueSizeOfUnsignedInt`. -/
def valueSizeOfUnsignedInt (v : UInt64) : Nat :=
  valueSizeLoop 10 2 (v.toNat >>> 7)

/-- `valueSizeOfBytes`. -/
def valueSizeOfBytes (v : List (Fin 256)) : Nat :=
  valueSizeOfSignedInt (Int64.ofNat v.length) + v.length

/-- `EstimateValueSize`. Every kind of `Datum` here has a size; the error branch is for the kinds
the model leaves out. -/
def estimateValueSize : Datum → Nat
  | .int64 i => valueSizeOfSignedInt i
  | .uint64 u => valueSizeOfUnsignedInt u
  | .float32 _ | .float64 _ => 9
  | .bytes b => valueSizeOfBytes b
  | .null | .minNotNull | .maxValue => 1

example : valueSizeOfSignedInt (-65) = 3 := by decide
example : valueSizeOfSignedInt (-64) = 2 := by decide

theorem valueSizeLoop_succ (fuel size v : Nat) :
    valueSizeLoop fuel (size + 1) v = valueSizeLoop fuel size v + 1 := by
  induction fuel generalizing size v with
  | zero => rfl
  | succ fuel ih =>
    simp only [valueSizeLoop]
    split_ifs
    · exact ih (size + 1) _
    · rfl

/-- `PutUvarint` writes a byte more for each further seven bits, as the size loop counts. -/
theorem length_putUvarintLoop (fuel : Nat) {x : Nat} (hx : x < 128 ^ (fuel + 1)) :
    (putUvarintLoop fuel x).length = valueSizeLoop fuel 1 (x >>> 7) := by
  induction fuel generalizing x with
  | zero => rfl
  | succ fuel ih =>
    have hshift : x >>> 7 = x / 128 := Nat.shiftRight_eq_div_pow x 7
    rw [putUvarintLoop, valueSizeLoop]
    by_cases hbig : x ≥ 0x80
    · have hnext : x >>> 7 < 128 ^ (fuel + 1) := by
        rw [hshift, pow_succ] at *
        omega
      rw [if_pos hbig, if_pos (by omega), List.length_cons, ih hnext, valueSizeLoop_succ fuel 1]
    · rw [if_neg hbig, if_neg (by omega)]
      rfl

theorem length_putUvarint (x : UInt64) :
    (putUvarint x).length = valueSizeLoop 10 1 (x.toNat >>> 7) :=
  length_putUvarintLoop 10 (lt_of_lt_of_le x.toNat_lt (by decide))

/-- The zig-zag code of `v` is twice the word `valueSizeOfSignedInt` measures, plus the sign. -/
theorem toNat_zigzag_shiftRight (v : Int64) :
    (zigzag v).toNat >>> 7 = (if v < 0 then 0 - v - 1 else v).toInt.toNat >>> 6 := by
  have hlt := v.le_toInt
  have hup := v.toInt_lt
  have hbits : (v.toUInt64.toNat : Int) = if v.toInt < 0 then v.toInt + 2 ^ 64 else v.toInt := by
    have := v.toUInt64.toNat_lt
    rcases toInt_cases v with ⟨h, e⟩ | ⟨h, e⟩ <;> split_ifs <;> omega
  rw [toNat_zigzag, Nat.shiftRight_eq_div_pow, Nat.shiftRight_eq_div_pow]
  by_cases hneg : v < 0
  · have hneg' : v.toInt < 0 := Int64.lt_iff_toInt_lt.mp hneg
    -- `0 - v` wraps at `MinInt64`, and `- 1` wraps back
    have hflip : (0 - v - 1).toInt = -v.toInt - 1 := by
      rw [Int64.toInt_sub, Int64.toInt_sub, Int64.toInt_zero, Int64.toInt_one, Int.bmod_sub_bmod,
        Int.bmod_eq_of_le (by push_cast; omega) (by push_cast; omega)]
      omega
    rw [if_pos hneg, if_pos hneg, hflip]
    rw [if_pos hneg'] at hbits
    omega
  · have hpos : 0 ≤ v.toInt := by
      have := Int64.lt_iff_toInt_lt.not.mp hneg
      simpa using this
    rw [if_neg hneg, if_neg hneg]
    rw [if_neg (by omega)] at hbits
    omega

/-- `EstimateValueSize` is the length of what `EncodeValue` writes. -/
theorem estimateValueSize_eq_length (d : Datum) :
    estimateValueSize d = (encodeValue [d]).length := by
  have hsigned : ∀ i : Int64, valueSizeOfSignedInt i = (varintFlag :: encodeVarint i).length := by
    intro i
    rw [List.length_cons, encodeVarint, putVarint, length_putUvarint, toNat_zigzag_shiftRight,
      ← valueSizeLoop_succ]
    rfl
  cases d with
  | int64 i =>
    rw [estimateValueSize, hsigned]
    simp [encodeValue, encode, encodeDatum, encodeSignedInt]
  | uint64 u =>
    rw [estimateValueSize, valueSizeOfUnsignedInt, encodeValue, encode, List.flatMap_singleton]
    simp [encodeDatum, encodeUnsignedInt, encodeUvarint, length_putUvarint, valueSizeLoop_succ]
  | bytes b =>
    rw [estimateValueSize, valueSizeOfBytes, hsigned]
    simp [encodeValue, encode, encodeDatum, encodeFlaggedBytes, encodeCompactBytes]
    omega
  | float32 f | float64 f =>
    simp [estimateValueSize, encodeValue, encode, encodeDatum, encodeFloat, encodeUint]
  | null | minNotNull | maxValue => rfl

end TinySql.Codec
