import TinySql.Lib.Digits
import TinySql.Lib.GoInt
import TinySql.Lib.GoVarint
import TinySql.Lib.Float64Bits

/-!
# Numbers in keys and values

`util/codec/number.go` and `float.go`. In a key a number is eight bytes, most significant first,
after a map that makes the order of the bytes that of the numbers: the sign bit of an `int64` is
flipped, the bits of a `uint64` are inverted for the descending order, and a double has its sign
bit set when it is not below zero and all its bits inverted when it is. In a value a number is a
varint of `encoding/binary`. Each decoder returns what follows the number, or the error text the
code returns.
-/

namespace TinySql.Codec

open TinySql.Lib

abbrev Key := List (Fin 256)

def signMask : UInt64 := 0x8000000000000000

/-- `binary.BigEndian.PutUint64`. -/
def bigEndian (u : UInt64) : Key :=
  [7, 6, 5, 4, 3, 2, 1, 0].map fun i => Fin.ofNat 256 (u.toNat / 256 ^ i)

/-- `binary.BigEndian.Uint64`. -/
def readBigEndian (b : List (Fin 256)) : UInt64 :=
  (ofDigitsBE b).toUInt64

def errInsufficient : String := "insufficient bytes to decode value"

/-- `EncodeIntToCmpUint`. -/
def encodeIntToCmpUint (v : Int64) : UInt64 :=
  v.toUInt64 ^^^ signMask

/-- `DecodeCmpUintToInt`. -/
def decodeCmpUintToInt (u : UInt64) : Int64 :=
  (u ^^^ signMask).toInt64

/-- `EncodeInt`. -/
def encodeInt (v : Int64) : Key :=
  bigEndian (encodeIntToCmpUint v)

/-- `DecodeInt`. -/
def decodeInt (b : List (Fin 256)) : Except String (List (Fin 256) × Int64) :=
  if b.length < 8 then .error errInsufficient
  else .ok (b.drop 8, decodeCmpUintToInt (readBigEndian (b.take 8)))

/-- `EncodeIntDesc`. -/
def encodeIntDesc (v : Int64) : Key :=
  bigEndian (~~~(encodeIntToCmpUint v))

/-- `DecodeIntDesc`. -/
def decodeIntDesc (b : List (Fin 256)) : Except String (List (Fin 256) × Int64) :=
  if b.length < 8 then .error errInsufficient
  else .ok (b.drop 8, decodeCmpUintToInt (~~~(readBigEndian (b.take 8))))

/-- `EncodeUint`. -/
def encodeUint (v : UInt64) : Key :=
  bigEndian v

/-- `DecodeUint`. -/
def decodeUint (b : List (Fin 256)) : Except String (List (Fin 256) × UInt64) :=
  if b.length < 8 then .error errInsufficient
  else .ok (b.drop 8, readBigEndian (b.take 8))

/-- `EncodeUintDesc`. -/
def encodeUintDesc (v : UInt64) : Key :=
  bigEndian (~~~v)

/-- `DecodeUintDesc`. -/
def decodeUintDesc (b : List (Fin 256)) : Except String (List (Fin 256) × UInt64) :=
  if b.length < 8 then .error errInsufficient
  else .ok (b.drop 8, ~~~(readBigEndian (b.take 8)))

/-- `EncodeVarint`. -/
def encodeVarint (v : Int64) : Key :=
  putVarint v

/-- `DecodeVarint`. -/
def decodeVarint (b : List (Fin 256)) : Except String (List (Fin 256) × Int64) :=
  let (v, n) := varint b
  if n > 0 then .ok (b.drop n.toNat, v)
  else if n < 0 then .error "value larger than 64 bits"
  else .error errInsufficient

/-- `EncodeUvarint`. -/
def encodeUvarint (v : UInt64) : Key :=
  putUvarint v

/-- `DecodeUvarint`. -/
def decodeUvarint (b : List (Fin 256)) : Except String (List (Fin 256) × UInt64) :=
  let (v, n) := uvarint b
  if n > 0 then .ok (b.drop n.toNat, v)
  else if n < 0 then .error "value larger than 64 bits"
  else .error errInsufficient

/-- `encodeFloatToCmpUint64` on the bits of a double. -/
def encodeFloatToCmpUint64 (f : UInt64) : UInt64 :=
  if Float64.geZero f then f ||| signMask else ~~~f

/-- `decodeCmpUintToFloat`. -/
def decodeCmpUintToFloat (u : UInt64) : UInt64 :=
  if u &&& signMask > 0 then u &&& ~~~signMask else ~~~u

/-- `EncodeFloat`. -/
def encodeFloat (f : UInt64) : Key :=
  encodeUint (encodeFloatToCmpUint64 f)

/-- `DecodeFloat`. -/
def decodeFloat (b : List (Fin 256)) : Except String (List (Fin 256) × UInt64) := do
  let (b, u) ← decodeUint b
  return (b, decodeCmpUintToFloat u)

/-! ### Eight bytes, most significant first -/

theorem bigEndian_eq_digitsBE (u : UInt64) : bigEndian u = digitsBE 8 u.toNat := by
  simp [bigEndian, digitsBE]

@[simp] theorem length_bigEndian (u : UInt64) : (bigEndian u).length = 8 := by
  rw [bigEndian_eq_digitsBE, length_digitsBE]

theorem readBigEndian_bigEndian (u : UInt64) : readBigEndian (bigEndian u) = u := by
  rw [readBigEndian, bigEndian_eq_digitsBE, ofDigitsBE_digitsBE,
    Nat.mod_eq_of_lt (by simpa using u.toNat_lt)]
  exact UInt64.ofNat_toNat

theorem compare_bigEndian (a b : UInt64) : compare (bigEndian a) (bigEndian b) = compare a b := by
  rw [bigEndian_eq_digitsBE, bigEndian_eq_digitsBE,
    compare_digitsBE (by simpa using a.toNat_lt) (by simpa using b.toNat_lt),
    UInt64.compare_eq_toNat_compare_toNat]

/-! ### Signed and descending numbers -/

/-- Flipping the sign bit adds `2 ^ 63` to the signed reading: `int64` order becomes `uint64` order. -/
theorem toNat_encodeIntToCmpUint (v : Int64) :
    ((encodeIntToCmpUint v).toNat : Int) = v.toInt + 2 ^ 63 := by
  have hn := v.toUInt64.toNat_lt
  have hdiv : (v.toUInt64.toNat ^^^ 2 ^ 63) / 2 ^ 63 = v.toUInt64.toNat / 2 ^ 63 ^^^ 1 := by
    rw [Nat.xor_div_two_pow, Nat.div_self (by positivity)]
  have hmod : (v.toUInt64.toNat ^^^ 2 ^ 63) % 2 ^ 63 = v.toUInt64.toNat % 2 ^ 63 := by
    rw [Nat.xor_mod_two_pow, Nat.mod_self, Nat.xor_zero]
  have hsplit := Nat.div_add_mod (v.toUInt64.toNat ^^^ 2 ^ 63) (2 ^ 63)
  rw [encodeIntToCmpUint, UInt64.toNat_xor, show signMask.toNat = 2 ^ 63 from rfl, toInt_eq_toNat]
  split_ifs with h
  · have hhigh : v.toUInt64.toNat / 2 ^ 63 = 0 := Nat.div_eq_of_lt h
    rw [hhigh, show (0 : Nat) ^^^ 1 = 1 from rfl] at hdiv
    omega
  · have hhigh : v.toUInt64.toNat / 2 ^ 63 = 1 := by omega
    rw [hhigh, show (1 : Nat) ^^^ 1 = 0 from rfl] at hdiv
    omega

theorem decodeCmpUintToInt_encodeIntToCmpUint (v : Int64) :
    decodeCmpUintToInt (encodeIntToCmpUint v) = v := by
  rw [decodeCmpUintToInt, encodeIntToCmpUint, UInt64.xor_assoc, UInt64.xor_self, UInt64.xor_zero,
    Int64.toInt64_toUInt64]

theorem compare_encodeInt (a b : Int64) : compare (encodeInt a) (encodeInt b) = compare a b := by
  have ha := toNat_encodeIntToCmpUint a
  have hb := toNat_encodeIntToCmpUint b
  rw [encodeInt, encodeInt, compare_bigEndian, UInt64.compare_eq_toNat_compare_toNat,
    compare_eq_compare_toInt]
  rcases Int.lt_trichotomy a.toInt b.toInt with h | h | h
  · rw [Nat.compare_eq_lt.mpr (by omega), compare_lt_iff_lt.mpr h]
  · rw [Nat.compare_eq_eq.mpr (by omega), h, Std.compare_self]
  · rw [Nat.compare_eq_gt.mpr (by omega), compare_gt_iff_gt.mpr h]

theorem compare_encodeUintDesc (a b : UInt64) :
    compare (encodeUintDesc a) (encodeUintDesc b) = compare b a := by
  rw [encodeUintDesc, encodeUintDesc, compare_bigEndian, UInt64.compare_eq_toNat_compare_toNat,
    UInt64.compare_eq_toNat_compare_toNat, UInt64.toNat_not, UInt64.toNat_not]
  have ha := a.toNat_lt
  have hb := b.toNat_lt
  simp only [UInt64.size] at ha hb ⊢
  rcases Nat.lt_trichotomy a.toNat b.toNat with h | h | h
  · rw [Nat.compare_eq_gt.mpr (by omega), Nat.compare_eq_gt.mpr h]
  · rw [Nat.compare_eq_eq.mpr (by omega), Nat.compare_eq_eq.mpr h.symm]
  · rw [Nat.compare_eq_lt.mpr (by omega), Nat.compare_eq_lt.mpr h]

theorem compare_encodeIntDesc (a b : Int64) :
    compare (encodeIntDesc a) (encodeIntDesc b) = compare b a := by
  rw [show encodeIntDesc a = encodeUintDesc (encodeIntToCmpUint a) from rfl,
    show encodeIntDesc b = encodeUintDesc (encodeIntToCmpUint b) from rfl, compare_encodeUintDesc,
    ← compare_bigEndian]
  exact compare_encodeInt b a

/-! ### Doubles -/

theorem toNat_or_signMask (u : UInt64) : (u ||| signMask).toNat = 2 ^ 63 + u.toNat % 2 ^ 63 := by
  have hn := u.toNat_lt
  have hq : (u.toNat ||| 2 ^ 63) / 2 ^ 63 = 1 := by
    rw [Nat.or_div_two_pow, Nat.div_self (by positivity)]
    rcases Nat.lt_or_ge u.toNat (2 ^ 63) with h | h
    · rw [Nat.div_eq_of_lt h]; rfl
    · rw [show u.toNat / 2 ^ 63 = 1 by omega]; rfl
  have hr : (u.toNat ||| 2 ^ 63) % 2 ^ 63 = u.toNat % 2 ^ 63 := by
    rw [Nat.or_mod_two_pow, Nat.mod_self, Nat.or_zero]
  have hsplit := Nat.div_add_mod (u.toNat ||| 2 ^ 63) (2 ^ 63)
  rw [UInt64.toNat_or, show signMask.toNat = 2 ^ 63 from rfl]
  omega

theorem toNat_and_signMask (u : UInt64) : (u &&& signMask).toNat = u.toNat / 2 ^ 63 * 2 ^ 63 := by
  have hn := u.toNat_lt
  have hq : (u.toNat &&& 2 ^ 63) / 2 ^ 63 = u.toNat / 2 ^ 63 := by
    rw [Nat.and_div_two_pow, Nat.div_self (by positivity)]
    rcases Nat.lt_or_ge u.toNat (2 ^ 63) with h | h
    · rw [Nat.div_eq_of_lt h]; rfl
    · rw [show u.toNat / 2 ^ 63 = 1 by omega]; rfl
  have hr : (u.toNat &&& 2 ^ 63) % 2 ^ 63 = 0 := by
    rw [Nat.and_mod_two_pow, Nat.mod_self, Nat.and_zero]
  have hsplit := Nat.div_add_mod (u.toNat &&& 2 ^ 63) (2 ^ 63)
  rw [UInt64.toNat_and, show signMask.toNat = 2 ^ 63 from rfl]
  rw [hq, hr] at hsplit
  omega

theorem toNat_and_not_signMask (u : UInt64) : (u &&& ~~~signMask).toNat = u.toNat % 2 ^ 63 := by
  rw [UInt64.toNat_and, show (~~~signMask).toNat = 2 ^ 63 - 1 from rfl,
    Nat.and_two_pow_sub_one_eq_mod]

/-- Decoding a double gives back its bits, except that `-0` comes back as `+0`; for doubles that are
no NaN. -/
theorem decodeCmpUintToFloat_encodeFloatToCmpUint64 {f : UInt64} (hf : Float64.isNaN f = false) :
    decodeCmpUintToFloat (encodeFloatToCmpUint64 f) = if f = signMask then 0 else f := by
  have hn := f.toNat_lt
  have hsign : f = signMask ↔ f.toNat = 2 ^ 63 := by
    rw [← UInt64.toNat_inj]
    rfl
  unfold encodeFloatToCmpUint64 decodeCmpUintToFloat
  rw [Float64.geZero_of_not_isNaN hf]
  by_cases hpos : f.toNat < 2 ^ 63 ∨ f.toNat = 2 ^ 63
  · -- the sign bit is set, and clearing it leaves the magnitude
    have hset : (f ||| signMask) &&& signMask > 0 := by
      rw [gt_iff_lt, UInt64.lt_iff_toNat_lt, toNat_and_signMask, toNat_or_signMask]
      simp only [UInt64.toNat_zero]
      omega
    rw [decide_eq_true hpos, if_pos rfl, if_pos hset]
    apply UInt64.toNat_inj.mp
    rw [toNat_and_not_signMask, toNat_or_signMask]
    split_ifs with h
    · rw [hsign] at h
      simp only [h, UInt64.toNat_zero]
      omega
    · rw [hsign] at h
      omega
  · -- a negative double has all its bits inverted, and the sign bit is then clear
    have hclear : ¬ (~~~f &&& signMask > 0) := by
      rw [gt_iff_lt, UInt64.lt_iff_toNat_lt, toNat_and_signMask, UInt64.toNat_not]
      simp only [UInt64.toNat_zero, UInt64.size]
      have : (2 ^ 64 - 1 - f.toNat) / 2 ^ 63 = 0 := Nat.div_eq_of_lt (by omega)
      omega
    rw [decide_eq_false hpos, if_neg Bool.false_ne_true, if_neg hclear, UInt64.not_not,
      if_neg (by rw [hsign]; omega)]

/-- A double that is no NaN maps to `2 ^ 63` plus its place on the line, less one below zero. -/
theorem toNat_encodeFloatToCmpUint64 {f : UInt64} (hf : Float64.isNaN f = false) :
    ((encodeFloatToCmpUint64 f).toNat : Int) =
      if 0 ≤ Float64.orderKey f then 2 ^ 63 + Float64.orderKey f
      else 2 ^ 63 - 1 + Float64.orderKey f := by
  have hn := f.toNat_lt
  rw [encodeFloatToCmpUint64, Float64.geZero_of_not_isNaN hf, Float64.orderKey, Float64.isNeg]
  split_ifs <;>
    simp only [decide_eq_true_eq, toNat_or_signMask, UInt64.toNat_not, UInt64.size] at * <;> omega

/-- Two doubles that are no NaN map to one word exactly when they are equal, `+0` and `-0`
included. -/
theorem encodeFloatToCmpUint64_eq_iff {f g : UInt64} (hf : Float64.isNaN f = false)
    (hg : Float64.isNaN g = false) :
    encodeFloatToCmpUint64 f = encodeFloatToCmpUint64 g ↔ Float64.beq f g = true := by
  have hkf := toNat_encodeFloatToCmpUint64 hf
  have hkg := toNat_encodeFloatToCmpUint64 hg
  rw [Float64.beq, hf, hg, ← UInt64.toNat_inj]
  simp only [Bool.not_false, Bool.true_and, decide_eq_true_eq]
  constructor
  · intro h
    split_ifs at hkf hkg <;> omega
  · intro h
    rw [h] at hkf
    omega

/-! ### Decoding what was encoded -/

section Decode

variable (rest : List (Fin 256))

theorem decodeInt_encodeInt (v : Int64) : decodeInt (encodeInt v ++ rest) = .ok (rest, v) := by
  have hlen : (encodeInt v).length = 8 := length_bigEndian _
  rw [decodeInt, if_neg (by simp [hlen]), List.drop_left' hlen, List.take_left' hlen, encodeInt,
    readBigEndian_bigEndian, decodeCmpUintToInt_encodeIntToCmpUint]

theorem decodeIntDesc_encodeIntDesc (v : Int64) :
    decodeIntDesc (encodeIntDesc v ++ rest) = .ok (rest, v) := by
  have hlen : (encodeIntDesc v).length = 8 := length_bigEndian _
  rw [decodeIntDesc, if_neg (by simp [hlen]), List.drop_left' hlen, List.take_left' hlen,
    encodeIntDesc, readBigEndian_bigEndian, UInt64.not_not, decodeCmpUintToInt_encodeIntToCmpUint]

theorem decodeUint_encodeUint (v : UInt64) : decodeUint (encodeUint v ++ rest) = .ok (rest, v) := by
  have hlen : (encodeUint v).length = 8 := length_bigEndian _
  rw [decodeUint, if_neg (by simp [hlen]), List.drop_left' hlen, List.take_left' hlen, encodeUint,
    readBigEndian_bigEndian]

theorem decodeUintDesc_encodeUintDesc (v : UInt64) :
    decodeUintDesc (encodeUintDesc v ++ rest) = .ok (rest, v) := by
  have hlen : (encodeUintDesc v).length = 8 := length_bigEndian _
  rw [decodeUintDesc, if_neg (by simp [hlen]), List.drop_left' hlen, List.take_left' hlen,
    encodeUintDesc, readBigEndian_bigEndian, UInt64.not_not]

theorem decodeVarint_encodeVarint (v : Int64) :
    decodeVarint (encodeVarint v ++ rest) = .ok (rest, v) := by
  have hpos : 0 < (putVarint v).length := List.length_pos_iff.mpr (putVarint_ne_nil v)
  simp only [decodeVarint, encodeVarint, varint_putVarint]
  rw [if_pos (by omega), Int.toNat_natCast, List.drop_left]

theorem decodeUvarint_encodeUvarint (v : UInt64) :
    decodeUvarint (encodeUvarint v ++ rest) = .ok (rest, v) := by
  have hpos : 0 < (putUvarint v).length := List.length_pos_iff.mpr (putUvarintLoop_ne_nil _ _)
  simp only [decodeUvarint, encodeUvarint, uvarint_putUvarint]
  rw [if_pos (by omega), Int.toNat_natCast, List.drop_left]

theorem decodeFloat_encodeFloat {f : UInt64} (hf : Float64.isNaN f = false) :
    decodeFloat (encodeFloat f ++ rest) = .ok (rest, if f = signMask then 0 else f) := by
  simp only [decodeFloat, encodeFloat, decodeUint_encodeUint, bind, Except.bind, pure, Except.pure,
    decodeCmpUintToFloat_encodeFloatToCmpUint64 hf]

end Decode

/-! ### Comparable varints

`EncodeComparableUvarint` writes a number up to `239` as one byte, the number plus
`negativeTagEnd`, and a larger one as the tag `positiveTagStart + l` and its last `l` bytes, `l` the
fewest that hold it (`varintLength`). `EncodeComparableVarint` writes a negative number `v` as the
tag `negativeTagEnd - l` and the last `l` bytes of its two's complement, `l` the fewest that hold
`-v`, and a number not below zero as the unsigned code. So the tag grows with the number and, on
equal tags, the bytes after it compare as the numbers do.

`DecodeComparableVarint` returns a one-byte number with the input as it was given: it slices the
tag off only after that branch. -/

def negativeTagEnd : Nat := 8
def positiveTagStart : Nat := 0xff - 8
def errDecodeInvalid : String := "invalid bytes to decode value"

/-- A tag byte and the last `length` bytes of `v`, most significant first:
`append(b, tag, byte(v>>8*(length-1)), ..., byte(v))`. -/
def tagged (tag length v : Nat) : Key :=
  Fin.ofNat 256 tag :: digitsBE length v

/-- The number of bytes the encoders write after the tag of a number `m` above `239`, or of a
negative number `-m`: the branch of their chain `0xff`, `0xffff`, ... that `m` falls in. -/
def varintLength (m : Nat) : Nat :=
  if m ≤ 0xff then 1 else if m ≤ 0xffff then 2 else if m ≤ 0xffffff then 3
  else if m ≤ 0xffffffff then 4 else if m ≤ 0xffffffffff then 5
  else if m ≤ 0xffffffffffff then 6 else if m ≤ 0xffffffffffffff then 7 else 8

/-- `EncodeComparableUvarint`. Its eight branches for numbers above `239` differ only in the
length, which is `varintLength`. -/
def encodeComparableUvarint (v : UInt64) : Key :=
  if v.toNat ≤ positiveTagStart - negativeTagEnd then
    [Fin.ofNat 256 v.toNat + Fin.ofNat 256 negativeTagEnd]
  else tagged (positiveTagStart + varintLength v.toNat) (varintLength v.toNat) v.toNat

/-- `EncodeComparableVarint`. The chain `v >= -0xff`, `v >= -0xffff`, ... of a negative `v` is
`varintLength` of `-v`, and `byte(v>>k)` is a byte of the two's complement. -/
def encodeComparableVarint (v : Int64) : Key :=
  if v < 0 then
    let length := varintLength (-v.toInt).toNat
    tagged (negativeTagEnd - length) length v.toUInt64.toNat
  else encodeComparableUvarint v.toUInt64

/-- The loop `v = (v << 8) | uint64(c)` of the decoders over the bytes after the tag. -/
def shiftInBytes (v : UInt64) (bytes : List (Fin 256)) : UInt64 :=
  bytes.foldl (fun v c => (v <<< 8) ||| c.val.toUInt64) v

/-- `DecodeComparableUvarint`. -/
def decodeComparableUvarint : List (Fin 256) → Except String (List (Fin 256) × UInt64)
  | [] => .error errInsufficient
  | first :: b =>
    if first.val < negativeTagEnd then .error errDecodeInvalid
    else if first.val ≤ positiveTagStart then
      .ok (b, first.val.toUInt64 - negativeTagEnd.toUInt64)
    else
      let length := first.val - positiveTagStart
      if b.length < length then .error errInsufficient
      else .ok (b.drop length, shiftInBytes 0 (b.take length))

/-- `DecodeComparableVarint`. A one-byte number is returned with the input as it was given, its
tag byte not consumed. -/
def decodeComparableVarint : List (Fin 256) → Except String (List (Fin 256) × Int64)
  | [] => .error errInsufficient
  | first :: b =>
    if negativeTagEnd ≤ first.val ∧ first.val ≤ positiveTagStart then
      .ok (first :: b, first.val.toInt64 - negativeTagEnd.toInt64)
    else
      -- a negative number starts from all bits set
      let (length, v) : Nat × UInt64 :=
        if first.val < negativeTagEnd then (negativeTagEnd - first.val, maxUint64)
        else (first.val - positiveTagStart, 0)
      if b.length < length then .error errInsufficient
      else
        let v := shiftInBytes v (b.take length)
        if positiveTagStart < first.val ∧ maxInt64.toUInt64 < v then .error errDecodeInvalid
        else if first.val < negativeTagEnd ∧ v ≤ maxInt64.toUInt64 then .error errDecodeInvalid
        else .ok (b.drop length, v.toInt64)

example : encodeComparableVarint (-256) = [6, 0xFF, 0] := by decide

/-! ### The length after the tag -/

theorem varintLength_bounds (m : Nat) :
    0 < varintLength m ∧ varintLength m ≤ 8 ∧ (m < 256 ^ varintLength m ∨ varintLength m = 8) ∧
      (1 < varintLength m → 256 ^ (varintLength m - 1) ≤ m) := by
  unfold varintLength
  repeat' split
  all_goals omega

theorem lt_pow_varintLength {m : Nat} (hm : m < 2 ^ 64) : m < 256 ^ varintLength m := by
  rcases (varintLength_bounds m).2.2.1 with h | h
  · exact h
  · rw [h]
    omega

theorem varintLength_mono : Monotone varintLength := by
  intro m m' h
  -- a shorter length for `m'` would put `m'` below a power of 256 that `m` reaches
  obtain ⟨-, hle, -, hmin⟩ := varintLength_bounds m
  obtain ⟨hpos', -, hfit, -⟩ := varintLength_bounds m'
  by_contra hlt
  rw [not_le] at hlt
  have hfit' : m' < 256 ^ varintLength m' := hfit.resolve_right (by omega)
  have hpow : 256 ^ varintLength m' ≤ 256 ^ (varintLength m - 1) :=
    Nat.pow_le_pow_right (by norm_num) (by omega)
  have hreach := hmin (by omega)
  omega

/-! ### Order -/

/-- The tag of `EncodeComparableUvarint` for `n`. -/
def uvarintTag (n : Nat) : Nat :=
  if n ≤ positiveTagStart - negativeTagEnd then n + negativeTagEnd
  else positiveTagStart + varintLength n

/-- The bytes of `EncodeComparableUvarint` after the tag. -/
def uvarintBody (n : Nat) : Key :=
  if n ≤ positiveTagStart - negativeTagEnd then [] else digitsBE (varintLength n) n

/-- The tag of `EncodeComparableVarint` for `z`. -/
def varintTag (z : Int) : Nat :=
  if z < 0 then negativeTagEnd - varintLength (-z).toNat else uvarintTag z.toNat

/-- The bytes of `EncodeComparableVarint` after the tag. -/
def varintBody (z : Int) : Key :=
  if z < 0 then digitsBE (varintLength (-z).toNat) (z + 2 ^ 64).toNat else uvarintBody z.toNat

theorem encodeComparableUvarint_eq (v : UInt64) :
    encodeComparableUvarint v = Fin.ofNat 256 (uvarintTag v.toNat) :: uvarintBody v.toNat := by
  rw [encodeComparableUvarint, uvarintTag, uvarintBody]
  split_ifs
  · -- `byte(v) + negativeTagEnd` does not wrap
    exact congrArg (· :: []) (Fin.ext (by simp [Fin.val_add, Nat.add_mod]))
  · rfl

theorem encodeComparableVarint_eq (v : Int64) :
    encodeComparableVarint v = Fin.ofNat 256 (varintTag v.toInt) :: varintBody v.toInt := by
  have hlt := v.toUInt64.toNat_lt
  rw [encodeComparableVarint, varintTag, varintBody]
  by_cases hneg : v.toInt < 0
  · -- the bytes of a negative number are those of its two's complement
    have hbits : v.toUInt64.toNat = (v.toInt + 2 ^ 64).toNat := by
      rcases toInt_cases v with ⟨h, e⟩ | ⟨h, e⟩ <;> omega
    rw [if_pos (Int64.lt_iff_toInt_lt.mpr hneg), if_pos hneg, if_pos hneg, hbits]
    rfl
  · have hbits : v.toUInt64.toNat = v.toInt.toNat := by
      rcases toInt_cases v with ⟨h, e⟩ | ⟨h, e⟩ <;> omega
    rw [if_neg (fun h => hneg (Int64.lt_iff_toInt_lt.mp h)), if_neg hneg, if_neg hneg,
      encodeComparableUvarint_eq, hbits]

theorem uvarintTag_bounds (n : Nat) : negativeTagEnd ≤ uvarintTag n ∧ uvarintTag n < 256 := by
  have := varintLength_bounds n
  unfold uvarintTag
  split_ifs <;> simp only [negativeTagEnd, positiveTagStart] at * <;> omega

theorem uvarintTag_mono : Monotone uvarintTag := by
  intro n m h
  have hlen := varintLength_mono h
  have := (varintLength_bounds m).1
  unfold uvarintTag
  split_ifs <;> simp only [negativeTagEnd, positiveTagStart] at * <;> omega

theorem varintTag_lt (z : Int) : varintTag z < 256 := by
  unfold varintTag
  split_ifs
  · simp only [negativeTagEnd]
    omega
  · exact (uvarintTag_bounds _).2

/-- Negative numbers take the tags below `negativeTagEnd`, and more bytes the further from zero. -/
theorem varintTag_mono : Monotone varintTag := by
  intro z w h
  unfold varintTag
  split_ifs with hz hw hw
  · have := varintLength_mono (show (-w).toNat ≤ (-z).toNat by omega)
    omega
  · have := (uvarintTag_bounds w.toNat).1
    omega
  · omega
  · exact uvarintTag_mono (by omega)

theorem ofNat_monotone {f : α → Nat} [Preorder α] (hf : Monotone f) (hlt : ∀ a, f a < 256) :
    Monotone fun a => Fin.ofNat 256 (f a) := by
  intro a b h
  change Fin.ofNat 256 (f a) ≤ Fin.ofNat 256 (f b)
  rw [Fin.le_def, Fin.val_ofNat, Fin.val_ofNat, Nat.mod_eq_of_lt (hlt a), Nat.mod_eq_of_lt (hlt b)]
  exact hf h

theorem eq_of_ofNat_eq {a b : Nat} (ha : a < 256) (hb : b < 256)
    (h : Fin.ofNat 256 a = Fin.ofNat 256 b) : a = b := by
  have := congrArg Fin.val h
  rwa [Fin.val_ofNat, Fin.val_ofNat, Nat.mod_eq_of_lt ha, Nat.mod_eq_of_lt hb] at this

/-- Shifting two numbers by one amount keeps their order. -/
theorem compare_toNat_add {z w : Int} (c : Int) (hz : 0 ≤ z + c) (hw : 0 ≤ w + c) :
    compare (z + c).toNat (w + c).toNat = compare z w := by
  rcases lt_trichotomy z w with h | h | h
  · rw [Nat.compare_eq_lt.mpr (by omega), compare_lt_iff_lt.mpr h]
  · rw [h, compare_eq_iff_eq.mpr rfl, compare_eq_iff_eq.mpr rfl]
  · rw [Nat.compare_eq_gt.mpr (by omega), compare_gt_iff_gt.mpr h]

/-- On equal tags the bytes after them compare as the numbers. -/
theorem compare_uvarintBody {n m : Nat} (hn : n < 2 ^ 64) (hm : m < 2 ^ 64)
    (htag : uvarintTag n = uvarintTag m) : compare (uvarintBody n) (uvarintBody m) = compare n m := by
  have hlen := (varintLength_bounds n).1
  have hlen' := (varintLength_bounds m).1
  unfold uvarintTag at htag
  unfold uvarintBody
  split_ifs at htag ⊢ with hn' hm' hm'
  · -- one byte: equal tags are equal numbers
    rw [show n = m by omega, compare_eq_iff_eq.mpr rfl]
    rfl
  · simp only [negativeTagEnd, positiveTagStart] at *
    omega
  · simp only [negativeTagEnd, positiveTagStart] at *
    omega
  · have hlen : varintLength n = varintLength m := by omega
    rw [hlen, compare_digitsBE (hlen ▸ lt_pow_varintLength hn) (lt_pow_varintLength hm)]

/-- `EncodeComparableUvarint` is a comparable encoding of `uint64`. -/
theorem compare_encodeComparableUvarint (a b : UInt64) :
    compare (encodeComparableUvarint a) (encodeComparableUvarint b) = compare a b := by
  rw [encodeComparableUvarint_eq, encodeComparableUvarint_eq, compare_eq_compare_toNat]
  exact compare_cons_of_monotone (ofNat_monotone uvarintTag_mono fun n => (uvarintTag_bounds n).2)
    fun h => compare_uvarintBody a.toNat_lt b.toNat_lt
      (eq_of_ofNat_eq (uvarintTag_bounds _).2 (uvarintTag_bounds _).2 h)

/-- A negative `z` above `-k`, for `k` dividing `2 ^ 64`, is its two's complement modulo `k`
shifted by `k`. -/
theorem twos_complement_mod {z : Int} {k : Nat} (hk : k ∣ 2 ^ 64) (hz : -(k : Int) < z)
    (hneg : z < 0) : (z + 2 ^ 64).toNat % k = (z + k).toNat := by
  obtain ⟨c, hc⟩ := hk
  have hpos : 0 < c := Nat.pos_of_ne_zero (by rintro rfl; simp at hc)
  have hle : k ≤ k * c := Nat.le_mul_of_pos_right _ hpos
  have hsplit : (z + 2 ^ 64).toNat = (z + k).toNat + k * (c - 1) := by
    rw [Nat.mul_sub_one]
    omega
  rw [hsplit, Nat.add_mul_mod_self_left, Nat.mod_eq_of_lt (by omega)]

/-- The last `l` bytes of a negative number that fits them are those of `z + 256 ^ l`. -/
theorem digitsBE_twos_complement {z : Int} {l : Nat} (hl : l ≤ 8) (hz : -(256 ^ l : Int) < z)
    (hneg : z < 0) : digitsBE l (z + 2 ^ 64).toNat = digitsBE l (z + 256 ^ l).toNat := by
  have hdvd : 256 ^ l ∣ 2 ^ 64 := (Nat.pow_dvd_pow 256 hl).trans (by norm_num)
  rw [← digitsBE_mod, twos_complement_mod hdvd (by exact_mod_cast hz) hneg, Nat.cast_pow,
    Nat.cast_ofNat]

theorem compare_varintBody {z w : Int} (hz : -2 ^ 63 ≤ z ∧ z < 2 ^ 63) (hw : -2 ^ 63 ≤ w ∧ w < 2 ^ 63)
    (htag : varintTag z = varintTag w) : compare (varintBody z) (varintBody w) = compare z w := by
  unfold varintTag at htag
  unfold varintBody
  split_ifs at htag ⊢ with hz' hw' hw'
  · -- both negative: the same length, and the bytes are `z` modulo `256 ^ length`
    set l := varintLength (-z).toNat with hl
    have hlw : varintLength (-w).toNat = l := by
      have := (varintLength_bounds (-z).toNat).2.1
      have := (varintLength_bounds (-w).toNat).2.1
      simp only [negativeTagEnd] at htag
      omega
    have hzl : (-z).toNat < 256 ^ l := lt_pow_varintLength (by omega)
    have hwl : (-w).toNat < 256 ^ l := hlw ▸ lt_pow_varintLength (by omega)
    have hle : l ≤ 8 := (varintLength_bounds _).2.1
    have hzl' : -(256 ^ l : Int) < z := by
      have : ((-z).toNat : Int) < ((256 ^ l : Nat) : Int) := by exact_mod_cast hzl
      push_cast at this
      omega
    have hwl' : -(256 ^ l : Int) < w := by
      have : ((-w).toNat : Int) < ((256 ^ l : Nat) : Int) := by exact_mod_cast hwl
      push_cast at this
      omega
    have hcast : ((256 ^ l : Nat) : Int) = 256 ^ l := by norm_num
    rw [hlw, digitsBE_twos_complement hle hzl' hz', digitsBE_twos_complement hle hwl' hw',
      compare_digitsBE (by omega) (by omega), compare_toNat_add _ (by omega) (by omega)]
  · -- a negative tag is below every other
    have := (uvarintTag_bounds w.toNat).1
    have := (varintLength_bounds (-z).toNat).1
    simp only [negativeTagEnd] at *
    omega
  · have := (uvarintTag_bounds z.toNat).1
    have := (varintLength_bounds (-w).toNat).1
    simp only [negativeTagEnd] at *
    omega
  · rw [compare_uvarintBody (by omega) (by omega) htag, ← compare_toNat_add 0 (by omega) (by omega)]
    simp

/-- `EncodeComparableVarint` is a comparable encoding of `int64`. -/
theorem compare_encodeComparableVarint (a b : Int64) :
    compare (encodeComparableVarint a) (encodeComparableVarint b) = compare a b := by
  have ha := a.toInt_lt
  have ha' := a.le_toInt
  have hb := b.toInt_lt
  have hb' := b.le_toInt
  rw [encodeComparableVarint_eq, encodeComparableVarint_eq, compare_eq_compare_toInt]
  exact compare_cons_of_monotone (ofNat_monotone varintTag_mono varintTag_lt)
    fun h => compare_varintBody ⟨by omega, by omega⟩ ⟨by omega, by omega⟩
      (eq_of_ofNat_eq (varintTag_lt _) (varintTag_lt _) h)

/-! ### Decoding what was encoded -/

theorem toNat_shiftInByte (v : UInt64) (c : Fin 256) :
    ((v <<< 8) ||| c.val.toUInt64).toNat = (v.toNat * 256 + c.val) % 2 ^ 64 := by
  have hc := c.isLt
  have hshift : v.toNat <<< 8 % 2 ^ 64 = (v.toNat % 2 ^ 56) <<< 8 := by
    rw [Nat.shiftLeft_eq, Nat.shiftLeft_eq, show 2 ^ 64 = 2 ^ 56 * 2 ^ 8 by norm_num,
      Nat.mul_mod_mul_right]
  -- the low byte of the shifted word is clear, so the `or` adds `c`
  rw [UInt64.toNat_or, UInt64.toNat_shiftLeft, show (8 : UInt64).toNat % 64 = 8 from rfl, hshift,
    Nat.toUInt64_eq, UInt64.toNat_ofNat', Nat.mod_eq_of_lt (by omega : c.val < 2 ^ 64),
    ← Nat.shiftLeft_add_eq_or_of_lt (by omega : c.val < 2 ^ 8), Nat.shiftLeft_eq]
  omega

theorem ofDigitsBE_cons (c : Fin 256) (bytes : List (Fin 256)) :
    ofDigitsBE (c :: bytes) = c.val * 256 ^ bytes.length + ofDigitsBE bytes := by
  rw [show c :: bytes = [c] ++ bytes from rfl, ofDigitsBE_append]
  simp [ofDigitsBE]

/-- The decoders' loop reads the bytes as a big-endian number after the bits it starts from. -/
theorem toNat_shiftInBytes (v : UInt64) (bytes : List (Fin 256)) :
    (shiftInBytes v bytes).toNat = (v.toNat * 256 ^ bytes.length + ofDigitsBE bytes) % 2 ^ 64 := by
  induction bytes generalizing v with
  | nil => simp [shiftInBytes, ofDigitsBE, Nat.mod_eq_of_lt v.toNat_lt]
  | cons c bytes ih =>
    have hstep : shiftInBytes v (c :: bytes) = shiftInBytes ((v <<< 8) ||| c.val.toUInt64) bytes :=
      rfl
    rw [hstep, ih, toNat_shiftInByte, Nat.add_mod, Nat.mul_mod, Nat.mod_mod, ← Nat.mul_mod,
      ← Nat.add_mod, ofDigitsBE_cons, List.length_cons, pow_succ]
    congr 1
    ring

theorem decodeComparableUvarint_encodeComparableUvarint (v : UInt64) (rest : List (Fin 256)) :
    decodeComparableUvarint (encodeComparableUvarint v ++ rest) = .ok (rest, v) := by
  have hv := v.toNat_lt
  rw [encodeComparableUvarint_eq, uvarintTag, uvarintBody]
  split_ifs with hsmall
  · -- one byte: the tag less `negativeTagEnd`
    simp only [negativeTagEnd, positiveTagStart] at hsmall
    have htag : (Fin.ofNat 256 (v.toNat + negativeTagEnd)).val = v.toNat + 8 :=
      Nat.mod_eq_of_lt (by simp only [negativeTagEnd]; omega)
    rw [List.cons_append, List.nil_append, decodeComparableUvarint, htag,
      if_neg (by simp only [negativeTagEnd]; omega), if_pos (by simp only [positiveTagStart]; omega)]
    congr
    apply UInt64.toNat_inj.mp
    rw [UInt64.toNat_sub_of_le]
    · simp [negativeTagEnd]
      omega
    · rw [UInt64.le_iff_toNat_le]
      simp [negativeTagEnd]
      omega
  · -- the tag `positiveTagStart + length`, then `length` bytes read back as the number
    set l := varintLength v.toNat with hl
    obtain ⟨hpos, hle, -, -⟩ := varintLength_bounds v.toNat
    have htag : (Fin.ofNat 256 (positiveTagStart + l)).val = positiveTagStart + l :=
      Nat.mod_eq_of_lt (by simp only [positiveTagStart]; omega)
    have hlen : (digitsBE l v.toNat).length = l := length_digitsBE _ _
    have hvalue : shiftInBytes 0 (digitsBE l v.toNat) = v := by
      apply UInt64.toNat_inj.mp
      rw [toNat_shiftInBytes, ofDigitsBE_digitsBE, Nat.mod_eq_of_lt (lt_pow_varintLength hv)]
      simp [Nat.mod_eq_of_lt hv]
    rw [List.cons_append, decodeComparableUvarint, htag,
      if_neg (by simp only [negativeTagEnd, positiveTagStart]; omega),
      if_neg (by simp only [positiveTagStart]; omega), Nat.add_sub_cancel_left,
      if_neg (by simp only [List.length_append, hlen]; omega), List.drop_left' hlen,
      List.take_left' hlen, hvalue]

section Varint

variable (v : Int64) (rest : List (Fin 256))

theorem decodeComparableVarint_of_neg (hneg : v.toInt < 0) :
    decodeComparableVarint (encodeComparableVarint v ++ rest) = .ok (rest, v) := by
  have hbits : v.toUInt64.toNat = (v.toInt + 2 ^ 64).toNat := by
    have := v.toUInt64.toNat_lt
    rcases toInt_cases v with ⟨h, e⟩ | ⟨h, e⟩ <;> omega
  have hmin := v.le_toInt
  set l := varintLength (-v.toInt).toNat with hl
  obtain ⟨hpos, hle, -, -⟩ := varintLength_bounds (-v.toInt).toNat
  have hfit : (-v.toInt).toNat < 256 ^ l := lt_pow_varintLength (by omega)
  have hcast : ((256 ^ l : Nat) : Int) = 256 ^ l := by norm_num
  have htag : (Fin.ofNat 256 (negativeTagEnd - l)).val = 8 - l :=
    Nat.mod_eq_of_lt (by simp only [negativeTagEnd]; omega)
  have hlen : (digitsBE l (v.toInt + 2 ^ 64).toNat).length = l := length_digitsBE _ _
  -- from all bits set, the bytes read give back the two's complement
  have hvalue : shiftInBytes maxUint64 (digitsBE l (v.toInt + 2 ^ 64).toNat) = v.toUInt64 := by
    apply UInt64.toNat_inj.mp
    have hdvd : 256 ^ l ∣ 2 ^ 64 := (Nat.pow_dvd_pow 256 hle).trans (by norm_num)
    rw [toNat_shiftInBytes, ofDigitsBE_digitsBE, twos_complement_mod hdvd (by omega) hneg, hlen,
      toNat_maxUint64, hbits]
    omega
  rw [encodeComparableVarint_eq, varintTag, varintBody, if_pos hneg, if_pos hneg, ← hl,
    List.cons_append, decodeComparableVarint, htag, if_neg (by simp only [negativeTagEnd]; omega)]
  simp only [negativeTagEnd, if_pos (show 8 - l < 8 by omega), show 8 - (8 - l) = l by omega]
  rw [if_neg (by simp only [List.length_append, hlen]; omega), List.take_left' hlen,
    List.drop_left' hlen, hvalue, if_neg (by simp only [positiveTagStart]; omega),
    if_neg (fun h => by
      have := UInt64.le_iff_toNat_le.mp h.2
      simp only [toNat_toUInt64_maxInt64] at this
      omega),
    Int64.toInt64_toUInt64]

/-- A number up to `239` is read from its one byte, and the byte is left in place. -/
theorem decodeComparableVarint_of_small (hv : 0 ≤ v.toInt ∧ v.toInt ≤ 239) :
    decodeComparableVarint (encodeComparableVarint v ++ rest) =
      .ok (encodeComparableVarint v ++ rest, v) := by
  have hbits : v.toUInt64.toNat = v.toInt.toNat := by
    have := v.toUInt64.toNat_lt
    rcases toInt_cases v with ⟨h, e⟩ | ⟨h, e⟩ <;> omega
  have hsmall : v.toInt.toNat ≤ positiveTagStart - negativeTagEnd := by
    simp only [positiveTagStart, negativeTagEnd]
    omega
  have htag : (Fin.ofNat 256 (v.toInt.toNat + negativeTagEnd)).val = v.toInt.toNat + 8 :=
    Nat.mod_eq_of_lt (by simp only [negativeTagEnd]; omega)
  rw [encodeComparableVarint_eq, varintTag, varintBody, if_neg (by omega), if_neg (by omega),
    uvarintTag, uvarintBody, if_pos hsmall, if_pos hsmall, List.cons_append,
    decodeComparableVarint, htag, if_pos (by simp only [negativeTagEnd, positiveTagStart]; omega)]
  congr
  apply Int64.toInt_inj.mp
  -- `int64(first) - negativeTagEnd` wraps nowhere
  change (Int64.ofNat (v.toInt.toNat + 8) - Int64.ofNat 8).toInt = v.toInt
  have hsize : Int64.size = 2 ^ 64 := rfl
  rw [Int64.toInt_sub, Int64.toInt_ofNat', Int64.toInt_ofNat', hsize,
    Int.bmod_eq_of_le (n := ((v.toInt.toNat + 8 : Nat) : Int)) (by omega) (by omega),
    Int.bmod_eq_of_le (n := ((8 : Nat) : Int)) (by omega) (by omega),
    Int.bmod_eq_of_le (by omega) (by omega)]
  omega

theorem decodeComparableVarint_of_large (hv : 239 < v.toInt) :
    decodeComparableVarint (encodeComparableVarint v ++ rest) = .ok (rest, v) := by
  have hlt := v.toInt_lt
  have hbits : v.toUInt64.toNat = v.toInt.toNat := by
    have := v.toUInt64.toNat_lt
    rcases toInt_cases v with ⟨h, e⟩ | ⟨h, e⟩ <;> omega
  have hlarge : ¬ v.toInt.toNat ≤ positiveTagStart - negativeTagEnd := by
    simp only [positiveTagStart, negativeTagEnd]
    omega
  set l := varintLength v.toInt.toNat with hl
  obtain ⟨hpos, hle, -, -⟩ := varintLength_bounds v.toInt.toNat
  have htag : (Fin.ofNat 256 (positiveTagStart + l)).val = positiveTagStart + l :=
    Nat.mod_eq_of_lt (by simp only [positiveTagStart]; omega)
  have hlen : (digitsBE l v.toInt.toNat).length = l := length_digitsBE _ _
  have hvalue : shiftInBytes 0 (digitsBE l v.toInt.toNat) = v.toUInt64 := by
    apply UInt64.toNat_inj.mp
    rw [toNat_shiftInBytes, ofDigitsBE_digitsBE,
      Nat.mod_eq_of_lt (lt_pow_varintLength (by omega)), hbits]
    simp only [UInt64.toNat_zero, Nat.zero_mul, Nat.zero_add]
    omega
  rw [encodeComparableVarint_eq, varintTag, varintBody, if_neg (by omega), if_neg (by omega),
    uvarintTag, uvarintBody, if_neg hlarge, if_neg hlarge, ← hl, List.cons_append,
    decodeComparableVarint, htag, if_neg (by simp only [negativeTagEnd, positiveTagStart]; omega)]
  simp only [if_neg (show ¬ positiveTagStart + l < negativeTagEnd by
    simp only [positiveTagStart, negativeTagEnd]; omega), Nat.add_sub_cancel_left]
  -- a positive number read back is at most `MaxInt64`
  rw [if_neg (by simp only [List.length_append, hlen]; omega), List.take_left' hlen,
    List.drop_left' hlen, hvalue,
    if_neg (fun h => by
      have := UInt64.lt_iff_toNat_lt.mp h.2
      simp only [toNat_toUInt64_maxInt64] at this
      omega),
    if_neg (by simp only [positiveTagStart, negativeTagEnd]; omega), Int64.toInt64_toUInt64]

/-- `DecodeComparableVarint` reads back what `EncodeComparableVarint` wrote, but leaves a
one-byte number's byte in place. -/
theorem decodeComparableVarint_encodeComparableVarint :
    decodeComparableVarint (encodeComparableVarint v ++ rest) =
      .ok (if 0 ≤ v ∧ v ≤ 239 then encodeComparableVarint v ++ rest else rest, v) := by
  have hsmall : (0 ≤ v ∧ v ≤ 239) ↔ 0 ≤ v.toInt ∧ v.toInt ≤ 239 := by
    rw [Int64.le_iff_toInt_le, Int64.le_iff_toInt_le]
    rfl
  by_cases hneg : v.toInt < 0
  · rw [if_neg (fun h => absurd (hsmall.mp h).1 (by omega)),
      decodeComparableVarint_of_neg v rest hneg]
  · by_cases hle : v.toInt ≤ 239
    · rw [if_pos (hsmall.mpr ⟨by omega, hle⟩), decodeComparableVarint_of_small v rest ⟨by omega, hle⟩]
    · rw [if_neg (fun h => hle (hsmall.mp h).2), decodeComparableVarint_of_large v rest (by omega)]

end Varint

/-- The comparable varints and the eight-byte codes keep the order of the numbers (the descending
ones reverse it), and every decoder reads back what its encoder wrote, except that
`DecodeComparableVarint` leaves the byte of a number from `0` to `239` unread. -/
theorem comparableVarint_tag_left_unread :
    (∀ x y : Int64, compare (encodeComparableVarint x) (encodeComparableVarint y) = compare x y) ∧
    (∀ u v : UInt64,
      compare (encodeComparableUvarint u) (encodeComparableUvarint v) = compare u v) ∧
    (∀ (u : UInt64) (r : List (Fin 256)),
      decodeComparableUvarint (encodeComparableUvarint u ++ r) = .ok (r, u)) ∧
    (∀ (x : Int64) (r : List (Fin 256)),
      decodeComparableVarint (encodeComparableVarint x ++ r) =
        .ok (if 0 ≤ x ∧ x ≤ 239 then encodeComparableVarint x ++ r else r, x)) ∧
    decodeComparableVarint (encodeComparableVarint 0) = .ok ([8], 0) ∧
    (∀ x y : Int64, compare (encodeInt x) (encodeInt y) = compare x y ∧
      compare (encodeIntDesc x) (encodeIntDesc y) = compare y x) ∧
    (∀ u v : UInt64, compare (encodeUint u) (encodeUint v) = compare u v ∧
      compare (encodeUintDesc u) (encodeUintDesc v) = compare v u) ∧
    ∀ (x : Int64) (u : UInt64) (r : List (Fin 256)),
      decodeInt (encodeInt x ++ r) = .ok (r, x) ∧ decodeIntDesc (encodeIntDesc x ++ r) = .ok (r, x) ∧
        decodeUint (encodeUint u ++ r) = .ok (r, u) ∧
        decodeUintDesc (encodeUintDesc u ++ r) = .ok (r, u) := by
  refine ⟨compare_encodeComparableVarint, compare_encodeComparableUvarint,
    decodeComparableUvarint_encodeComparableUvarint, decodeComparableVarint_encodeComparableVarint,
    by decide, fun x y => ⟨compare_encodeInt x y, compare_encodeIntDesc x y⟩,
    fun u v => ⟨compare_bigEndian u v, compare_encodeUintDesc u v⟩, ?_⟩
  intro x u r
  exact ⟨decodeInt_encodeInt r x, decodeIntDesc_encodeIntDesc r x, decodeUint_encodeUint r u,
    decodeUintDesc_encodeUintDesc r u⟩

end TinySql.Codec
