import TinySql.Codec.Decode

/-!
# Integers in the row format

`util/rowcodec/common.go` stores an integer column in the fewest of 1, 2, 4 and 8 little-endian
bytes that read back to it: a signed one as two's complement, sign-extended on the way back, an
unsigned one zero-extended. `BytesDecoder.encodeOldDatum` in `decoder.go` turns such a column
back into the format of `util/codec` for the callers that read datums with `DecodeOne`.

Both codecs read back what they wrote (`decodeInt_encodeInt`, `decodeUint_encodeUint`), the width
is the least that holds the value (`isLeastWidth_encodeInt`), and a column converted to the old
format is the non-comparable encoding of its datum (`encodeOldDatum_encodeInt`).
-/

namespace TinySql.Rowcodec

open TinySql.Lib TinySql.Types

/-! ### Widths -/

/-- The widths, in bytes, rowcodec stores an integer in. -/
def intWidths : List Nat := [1, 2, 4, 8]

/-- `w` is the least width of `intWidths` at which `fits` holds. -/
def IsLeastWidth (fits : Nat → Prop) (w : Nat) : Prop :=
  w ∈ intWidths ∧ fits w ∧ ∀ w' ∈ intWidths, fits w' → w ≤ w'

/-- `v` is a signed integer of `w` bytes. -/
def FitsSigned (w : Nat) (v : Int) : Prop :=
  -2 ^ (8 * w - 1) ≤ v ∧ v < 2 ^ (8 * w - 1)

/-- `u` is an unsigned integer of `w` bytes. -/
def FitsUnsigned (w u : Nat) : Prop :=
  u < 2 ^ (8 * w)

theorem mem_intWidths {w : Nat} : w ∈ intWidths ↔ w = 1 ∨ w = 2 ∨ w = 4 ∨ w = 8 := by
  simp [intWidths]

theorem isLeastWidth_of {fits : Nat → Prop} {w : Nat} (hw : w ∈ intWidths) (hfit : fits w)
    (hbelow : ∀ w' ∈ intWidths, w' < w → ¬ fits w') : IsLeastWidth fits w :=
  ⟨hw, hfit, fun w' hw' hf => Nat.le_of_not_lt fun hlt => hbelow w' hw' hlt hf⟩

/-- The chain of width tests of `encodeInt` and `encodeUint` picks the least width that fits. -/
theorem exists_isLeastWidth_ite {α : Type} {fits : Nat → Prop} {p₁ p₂ p₄ : Prop} [Decidable p₁]
    [Decidable p₂] [Decidable p₄] (h₁ : p₁ ↔ fits 1) (h₂ : p₂ ↔ fits 2) (h₄ : p₄ ↔ fits 4)
    (h₈ : fits 8) (f : Nat → α) :
    ∃ w, IsLeastWidth fits w ∧
      (if p₁ then f 1 else if p₂ then f 2 else if p₄ then f 4 else f 8) = f w := by
  -- each branch is taken when the smaller widths fail
  split_ifs with hp₁ hp₂ hp₄
  · refine ⟨1, isLeastWidth_of (by decide) (h₁.mp hp₁) fun w' hw' hlt => ?_, rfl⟩
    rcases mem_intWidths.mp hw' with rfl | rfl | rfl | rfl <;> omega
  · refine ⟨2, isLeastWidth_of (by decide) (h₂.mp hp₂) fun w' hw' hlt => ?_, rfl⟩
    rcases mem_intWidths.mp hw' with rfl | rfl | rfl | rfl
    · exact mt h₁.mpr hp₁
    all_goals omega
  · refine ⟨4, isLeastWidth_of (by decide) (h₄.mp hp₄) fun w' hw' hlt => ?_, rfl⟩
    rcases mem_intWidths.mp hw' with rfl | rfl | rfl | rfl
    · exact mt h₁.mpr hp₁
    · exact mt h₂.mpr hp₂
    all_goals omega
  · refine ⟨8, isLeastWidth_of (by decide) h₈ fun w' hw' hlt => ?_, rfl⟩
    rcases mem_intWidths.mp hw' with rfl | rfl | rfl | rfl
    · exact mt h₁.mpr hp₁
    · exact mt h₂.mpr hp₂
    · exact mt h₄.mpr hp₄
    · omega

/-! ### The codec -/

def errIndexOutOfRange : String := "runtime error: index out of range"

/-- `encodeInt`. -/
def encodeInt (buf : List (Fin 256)) (iVal : Int64) : List (Fin 256) :=
  if iVal.toInt8.toInt64 = iVal then buf ++ [Fin.ofNat 256 iVal.toUInt64.toNat]
  else if iVal.toInt16.toInt64 = iVal then buf ++ digitsLE 2 iVal.toUInt64.toNat
  else if iVal.toInt32.toInt64 = iVal then buf ++ digitsLE 4 iVal.toUInt64.toNat
  else buf ++ digitsLE 8 iVal.toUInt64.toNat

/-- `decodeInt`. `binary.LittleEndian.Uint64` panics on fewer than eight bytes. -/
def decodeInt (val : List (Fin 256)) : Except String Int64 :=
  match val with
  | [b] => .ok (UInt8.ofNat b.val).toInt8.toInt64
  | [_, _] => .ok (UInt16.ofNat (ofDigitsLE val)).toInt16.toInt64
  | [_, _, _, _] => .ok (UInt32.ofNat (ofDigitsLE val)).toInt32.toInt64
  | _ => if val.length < 8 then .error errIndexOutOfRange else .ok (UInt64.ofNat (ofDigitsLE (val.take 8))).toInt64

/-- `encodeUint`. -/
def encodeUint (buf : List (Fin 256)) (uVal : UInt64) : List (Fin 256) :=
  if uVal.toUInt8.toUInt64 = uVal then buf ++ [Fin.ofNat 256 uVal.toNat]
  else if uVal.toUInt16.toUInt64 = uVal then buf ++ digitsLE 2 uVal.toNat
  else if uVal.toUInt32.toUInt64 = uVal then buf ++ digitsLE 4 uVal.toNat
  else buf ++ digitsLE 8 uVal.toNat

/-- `decodeUint`. -/
def decodeUint (val : List (Fin 256)) : Except String UInt64 :=
  match val with
  | [b] => .ok (UInt64.ofNat b.val)
  | [_, _] => .ok (UInt16.ofNat (ofDigitsLE val)).toUInt64
  | [_, _, _, _] => .ok (UInt32.ofNat (ofDigitsLE val)).toUInt64
  | _ => if val.length < 8 then .error errIndexOutOfRange else .ok (UInt64.ofNat (ofDigitsLE (val.take 8)))

/-- `BytesDecoder.encodeOldDatum`: a column of type flag `tp` in the format of `util/codec`. -/
def encodeOldDatum (tp : Fin 256) (val : List (Fin 256)) : Except String (List (Fin 256)) :=
  if tp = Codec.bytesFlag then .ok (Codec.compactBytesFlag :: Codec.encodeCompactBytes val)
  else if tp = Codec.intFlag then do
    let v ← decodeInt val
    return Codec.varintFlag :: Codec.encodeVarint v
  else if tp = Codec.uintFlag then do
    let v ← decodeUint val
    return Codec.uvarintFlag :: Codec.encodeUvarint v
  else .ok (tp :: val)

/-! ### Reading back -/

theorem toInt8_toInt64_eq_iff (v : Int64) : v.toInt8.toInt64 = v ↔ FitsSigned 1 v.toInt := by
  rw [← Int64.toInt_inj, Int8.toInt_toInt64, Int64.toInt_toInt8]
  exact bmod_two_pow_eq_self_iff (k := 7)

theorem toInt16_toInt64_eq_iff (v : Int64) : v.toInt16.toInt64 = v ↔ FitsSigned 2 v.toInt := by
  rw [← Int64.toInt_inj, Int16.toInt_toInt64, Int64.toInt_toInt16]
  exact bmod_two_pow_eq_self_iff (k := 15)

theorem toInt32_toInt64_eq_iff (v : Int64) : v.toInt32.toInt64 = v ↔ FitsSigned 4 v.toInt := by
  rw [← Int64.toInt_inj, Int32.toInt_toInt64, Int64.toInt_toInt32]
  exact bmod_two_pow_eq_self_iff (k := 31)

theorem toUInt8_toUInt64_eq_iff (u : UInt64) : u.toUInt8.toUInt64 = u ↔ FitsUnsigned 1 u.toNat := by
  rw [← UInt64.toNat_inj, UInt8.toNat_toUInt64, UInt64.toNat_toUInt8]
  exact Nat.mod_eq_iff_lt (by decide)

theorem toUInt16_toUInt64_eq_iff (u : UInt64) : u.toUInt16.toUInt64 = u ↔ FitsUnsigned 2 u.toNat := by
  rw [← UInt64.toNat_inj, UInt16.toNat_toUInt64, UInt64.toNat_toUInt16]
  exact Nat.mod_eq_iff_lt (by decide)

theorem toUInt32_toUInt64_eq_iff (u : UInt64) : u.toUInt32.toUInt64 = u ↔ FitsUnsigned 4 u.toNat := by
  rw [← UInt64.toNat_inj, UInt32.toNat_toUInt64, UInt64.toNat_toUInt32]
  exact Nat.mod_eq_iff_lt (by decide)

theorem decodeInt_digitsLE {w : Nat} (hw : w ∈ intWidths) (n : Nat) :
    ∃ d, decodeInt (digitsLE w n) = .ok d ∧ d.toInt = (n : Int).bmod (2 ^ (8 * w)) := by
  simp only [intWidths, List.mem_cons, List.mem_nil_iff, or_false] at hw
  rcases hw with rfl | rfl | rfl | rfl
  · refine ⟨_, rfl, ?_⟩
    rw [Int8.toInt_toInt64, UInt8.toInt8_ofNat', Int8.toInt_ofNat', Fin.val_ofNat]
    rw [bmod_natCast_mod]
    rfl
  · refine ⟨_, rfl, ?_⟩
    rw [Int16.toInt_toInt64, UInt16.toInt16_ofNat', Int16.toInt_ofNat', ofDigitsLE_digitsLE]
    simp only [Int16.size, Nat.reducePow, Nat.reduceMul]
    rw [bmod_natCast_mod]
  · refine ⟨_, rfl, ?_⟩
    rw [Int32.toInt_toInt64, UInt32.toInt32_ofNat', Int32.toInt_ofNat', ofDigitsLE_digitsLE]
    simp only [Int32.size, Nat.reducePow, Nat.reduceMul]
    rw [bmod_natCast_mod]
  · refine ⟨_, rfl, ?_⟩
    rw [List.take_of_length_le (by simp), UInt64.toInt64_ofNat', Int64.toInt_ofNat',
      ofDigitsLE_digitsLE]
    simp only [Int64.size, Nat.reducePow, Nat.reduceMul]
    rw [bmod_natCast_mod]

theorem decodeUint_digitsLE {w : Nat} (hw : w ∈ intWidths) (n : Nat) :
    ∃ d, decodeUint (digitsLE w n) = .ok d ∧ d.toNat = n % 2 ^ (8 * w) := by
  simp only [intWidths, List.mem_cons, List.mem_nil_iff, or_false] at hw
  rcases hw with rfl | rfl | rfl | rfl
  · refine ⟨_, rfl, ?_⟩
    simp only [UInt64.toNat_ofNat', Fin.val_ofNat]
    omega
  · refine ⟨_, rfl, ?_⟩
    simp [ofDigitsLE_digitsLE]
  · refine ⟨_, rfl, ?_⟩
    simp [ofDigitsLE_digitsLE]
  · refine ⟨_, rfl, ?_⟩
    rw [List.take_of_length_le (by simp)]
    simp [ofDigitsLE_digitsLE]

theorem encodeInt_eq (v : Int64) :
    ∃ w, IsLeastWidth (FitsSigned · v.toInt) w ∧ encodeInt [] v = digitsLE w v.toUInt64.toNat :=
  exists_isLeastWidth_ite (toInt8_toInt64_eq_iff v) (toInt16_toInt64_eq_iff v)
    (toInt32_toInt64_eq_iff v) ⟨v.le_toInt, v.toInt_lt⟩ (fun w => digitsLE w v.toUInt64.toNat)

theorem encodeUint_eq (u : UInt64) :
    ∃ w, IsLeastWidth (FitsUnsigned · u.toNat) w ∧ encodeUint [] u = digitsLE w u.toNat :=
  exists_isLeastWidth_ite (toUInt8_toUInt64_eq_iff u) (toUInt16_toUInt64_eq_iff u)
    (toUInt32_toUInt64_eq_iff u) u.toNat_lt (fun w => digitsLE w u.toNat)

theorem FitsSigned.bmod_eq {w : Nat} {x : Int} (hw : w ∈ intWidths) (h : FitsSigned w x) :
    x.bmod (2 ^ (8 * w)) = x := by
  have hpos : 8 * w = 8 * w - 1 + 1 := by
    rcases mem_intWidths.mp hw with rfl | rfl | rfl | rfl <;> rfl
  rw [hpos]
  exact bmod_two_pow_eq_self_iff.mpr h

theorem decodeInt_encodeInt (v : Int64) : decodeInt (encodeInt [] v) = .ok v := by
  obtain ⟨w, ⟨hw, hfit, -⟩, henc⟩ := encodeInt_eq v
  obtain ⟨d, hd, hdInt⟩ := decodeInt_digitsLE hw v.toUInt64.toNat
  rw [henc, hd]
  congr 1
  apply Int64.toInt_inj.mp
  -- the decoded bytes are the low `w` bytes of `v`, which hold all of it
  have hdvd : 2 ^ (8 * w) ∣ 2 ^ 64 :=
    Nat.pow_dvd_pow 2 (by rcases mem_intWidths.mp hw with rfl | rfl | rfl | rfl <;> decide)
  rw [hdInt, ← Int.bmod_bmod_of_dvd hdvd, ← toInt_eq_bmod_toNat_toUInt64]
  exact hfit.bmod_eq hw

theorem decodeUint_encodeUint (u : UInt64) : decodeUint (encodeUint [] u) = .ok u := by
  obtain ⟨w, ⟨hw, hfit, -⟩, henc⟩ := encodeUint_eq u
  obtain ⟨d, hd, hdNat⟩ := decodeUint_digitsLE hw u.toNat
  rw [henc, hd]
  congr 1
  exact UInt64.toNat_inj.mp (hdNat.trans (Nat.mod_eq_of_lt hfit))

theorem isLeastWidth_encodeInt (v : Int64) :
    IsLeastWidth (FitsSigned · v.toInt) (encodeInt [] v).length := by
  obtain ⟨w, hw, henc⟩ := encodeInt_eq v
  rwa [henc, length_digitsLE]

theorem isLeastWidth_encodeUint (u : UInt64) :
    IsLeastWidth (FitsUnsigned · u.toNat) (encodeUint [] u).length := by
  obtain ⟨w, hw, henc⟩ := encodeUint_eq u
  rwa [henc, length_digitsLE]

example : (encodeInt [] (-128)).length = 1 ∧ (encodeInt [] (-129)).length = 2 ∧
    (encodeInt [] 32768).length = 4 ∧ (encodeInt [] (2 ^ 31)).length = 8 := by
  decide

/-! ### Back to the old format -/

theorem encodeOldDatum_encodeInt (v : Int64) :
    encodeOldDatum Codec.intFlag (encodeInt [] v) = .ok (Codec.encodeDatum false (.int64 v)) := by
  simp [encodeOldDatum, decodeInt_encodeInt, Codec.encodeDatum, Codec.encodeSignedInt,
    Codec.bytesFlag, Codec.intFlag]

theorem encodeOldDatum_encodeUint (u : UInt64) :
    encodeOldDatum Codec.uintFlag (encodeUint [] u) = .ok (Codec.encodeDatum false (.uint64 u)) := by
  simp [encodeOldDatum, decodeUint_encodeUint, Codec.encodeDatum, Codec.encodeUnsignedInt,
    Codec.bytesFlag, Codec.intFlag, Codec.uintFlag]

theorem encodeOldDatum_bytes (val : List (Fin 256)) :
    encodeOldDatum Codec.bytesFlag val = .ok (Codec.encodeDatum false (.bytes val)) := by
  simp [encodeOldDatum, Codec.encodeDatum, Codec.encodeFlaggedBytes]

/-- A datum in the old format, written without the comparable encoding, reads back alone. -/
theorem decodeOne_encodeDatum_alone {d : Datum} (hd : Codec.roundTrips d) (hdec : Codec.decodedDatum d = d) :
    Codec.decodeOne (Codec.encodeDatum false d) = .ok ([], d) := by
  simpa [hdec] using Codec.decodeOne_encodeDatum false hd []

theorem rowcodec_int_roundTrip :
    (∀ v : Int64, decodeInt (encodeInt [] v) = .ok v) ∧
    (∀ u : UInt64, decodeUint (encodeUint [] u) = .ok u) ∧
    (∀ v : Int64, IsLeastWidth (FitsSigned · v.toInt) (encodeInt [] v).length) ∧
    (∀ u : UInt64, IsLeastWidth (FitsUnsigned · u.toNat) (encodeUint [] u).length) ∧
    (∀ v : Int64, ∃ b, encodeOldDatum Codec.intFlag (encodeInt [] v) = .ok b ∧
      Codec.decodeOne b = .ok ([], .int64 v)) ∧
    (∀ u : UInt64, ∃ b, encodeOldDatum Codec.uintFlag (encodeUint [] u) = .ok b ∧
      Codec.decodeOne b = .ok ([], .uint64 u)) ∧
    (∀ val : List (Fin 256), val.length < 2 ^ 63 → ∃ b, encodeOldDatum Codec.bytesFlag val = .ok b ∧
      Codec.decodeOne b = .ok ([], .bytes val)) := by
  refine ⟨decodeInt_encodeInt, decodeUint_encodeUint, isLeastWidth_encodeInt, isLeastWidth_encodeUint,
    fun v => ?int, fun u => ?uint, fun val hval => ?bytes⟩
  case int => exact ⟨_, encodeOldDatum_encodeInt v, decodeOne_encodeDatum_alone rfl rfl⟩
  case uint => exact ⟨_, encodeOldDatum_encodeUint u, decodeOne_encodeDatum_alone rfl rfl⟩
  case bytes =>
    exact ⟨_, encodeOldDatum_bytes val, decodeOne_encodeDatum_alone (by simpa [Codec.roundTrips]) rfl⟩

theorem rowcodec_int_roundTrip_abc :
    ∃ b, encodeOldDatum Codec.bytesFlag [97, 98, 99] = .ok b ∧
      Codec.decodeOne b = .ok ([], .bytes [97, 98, 99]) :=
  rowcodec_int_roundTrip.2.2.2.2.2.2 _ (by decide)

end TinySql.Rowcodec
