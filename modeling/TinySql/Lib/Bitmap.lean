import Mathlib

/-!
# Bitmaps of bytes

A bitmap keeps bit `i` in bit `i % 8` of byte `i / 8`, as Arrow's validity bitmaps do. The byte
operations that set, clear, mask and fill bits are those of the code, on `UInt8`; what each does to
the bits is said once here, and the bitmap lemmas reduce a change of one byte to its bits.
-/

namespace TinySql.Lib

/-- Bit `i` of the bitmap, `false` past its end. -/
def bitAt (bm : List UInt8) (i : Nat) : Bool :=
  (bm[i / 8]?.getD 0).toNat.testBit (i % 8)

/-! ### Bits of one byte -/

theorem toNat_toUInt8_mod {p : Nat} (hp : p < 8) : p.toUInt8.toNat % 8 = p := by
  simp only [Nat.toUInt8, UInt8.toNat_ofNat']
  omega

theorem testBit_one_shiftLeft {p : Nat} (hp : p < 8) (q : Nat) :
    ((1 : UInt8) <<< p.toUInt8).toNat.testBit q = decide (p = q) := by
  rw [UInt8.toNat_shiftLeft, toNat_toUInt8_mod hp, UInt8.toNat_one, Nat.one_shiftLeft,
    Nat.testBit_mod_two_pow, Nat.testBit_two_pow]
  by_cases h : p = q
  · subst h
    simp [hp]
  · simp [h]

theorem testBit_or (a b : UInt8) (q : Nat) :
    (a ||| b).toNat.testBit q = (a.toNat.testBit q || b.toNat.testBit q) := by
  rw [UInt8.toNat_or, Nat.testBit_or]

theorem testBit_and (a b : UInt8) (q : Nat) :
    (a &&& b).toNat.testBit q = (a.toNat.testBit q && b.toNat.testBit q) := by
  rw [UInt8.toNat_and, Nat.testBit_and]

theorem testBit_ge_eight (b : UInt8) {q : Nat} (hq : 8 ≤ q) : b.toNat.testBit q = false :=
  Nat.testBit_lt_two_pow (lt_of_lt_of_le b.toNat_lt (Nat.pow_le_pow_right (by omega) hq))

@[simp] theorem testBit_zero (q : Nat) : (0 : UInt8).toNat.testBit q = false := by
  simp

theorem testBit_allOnes (q : Nat) : (0xFF : UInt8).toNat.testBit q = decide (q < 8) := by
  rw [show (0xFF : UInt8).toNat = 2 ^ 8 - 1 from rfl, Nat.testBit_two_pow_sub_one]

/-- `(1 << p) - 1` keeps the bits below `p`. -/
theorem testBit_lowMask {p : Nat} (hp : p < 8) (q : Nat) :
    (((1 : UInt8) <<< p.toUInt8) - 1).toNat.testBit q = decide (q < p) := by
  have hpow : ((1 : UInt8) <<< p.toUInt8).toNat = 2 ^ p := by
    rw [UInt8.toNat_shiftLeft, toNat_toUInt8_mod hp, UInt8.toNat_one, Nat.one_shiftLeft,
      Nat.mod_eq_of_lt (Nat.pow_lt_pow_right (by omega) hp)]
  rw [UInt8.toNat_sub_of_le _ _ (by rw [UInt8.le_iff_toNat_le, hpow]; exact Nat.one_le_two_pow),
    hpow, UInt8.toNat_one, Nat.testBit_two_pow_sub_one]

theorem testBit_shiftLeft_of_lt (b : UInt8) {p : Nat} (hp : p < 8) (q : Nat) :
    (b <<< p.toUInt8).toNat.testBit q = (decide (q < 8) && decide (p ≤ q) && b.toNat.testBit (q - p)) := by
  rw [UInt8.toNat_shiftLeft, toNat_toUInt8_mod hp, Nat.testBit_mod_two_pow, Nat.testBit_shiftLeft]
  simp only [ge_iff_le, Bool.and_assoc]

theorem testBit_shiftRight_of_lt (b : UInt8) {p : Nat} (hp : p < 8) (q : Nat) :
    (b >>> p.toUInt8).toNat.testBit q = b.toNat.testBit (q + p) := by
  rw [UInt8.toNat_shiftRight, toNat_toUInt8_mod hp, Nat.testBit_shiftRight, Nat.add_comm]

/-- `x << s` on a byte with an unsigned count, as Go shifts: zero once the count reaches the
width. -/
def shl (x : UInt8) (s : UInt64) : UInt8 :=
  if s < 8 then x <<< s.toUInt8 else 0

/-- `byte(1 << s) - 1` keeps the bits below `s`, up to a count of `8`. -/
theorem testBit_shl_one_sub_one {s : Nat} (hs : s ≤ 8) {q : Nat} (hq : q < 8) :
    (shl 1 s.toUInt64 - 1).toNat.testBit q = decide (q < s) := by
  have hsmall : s.toUInt64.toNat = s := by
    simp only [Nat.toUInt64, UInt64.toNat_ofNat']
    omega
  rcases Nat.lt_or_ge s 8 with hlt | hge
  · have hcount : s.toUInt64 < 8 := by
      rw [UInt64.lt_iff_toNat_lt, hsmall]
      exact hlt
    have hbyte : s.toUInt64.toUInt8 = s.toUInt8 := by
      apply UInt8.toNat_inj.mp
      simp only [UInt64.toNat_toUInt8, hsmall, Nat.toUInt8, UInt8.toNat_ofNat']
    rw [shl, if_pos hcount, hbyte, testBit_lowMask hlt]
  · have hcount : ¬s.toUInt64 < 8 := by
      rw [UInt64.lt_iff_toNat_lt, hsmall]
      exact Nat.not_lt.mpr hge
    rw [shl, if_neg hcount, show (0 : UInt8) - 1 = 0xFF from rfl, testBit_allOnes]
    simp only [decide_eq_decide]
    omega

/-- The same mask with the count `8 - uint(k)` of the code, for `0 ≤ k ≤ 8`. -/
theorem testBit_shl_one_sub_ofInt {k : Int} (h0 : 0 ≤ k) (h8 : k ≤ 8) {q : Nat} (hq : q < 8) :
    (shl 1 (8 - UInt64.ofInt k) - 1).toNat.testBit q = decide (q + k.toNat < 8) := by
  have hk : (UInt64.ofInt k).toNat = k.toNat := by
    rw [UInt64.ofInt, UInt64.toNat_ofNat']
    omega
  have hcount : 8 - UInt64.ofInt k = (8 - k.toNat).toUInt64 := by
    apply UInt64.toNat_inj.mp
    rw [UInt64.toNat_sub_of_le _ _ (by rw [UInt64.le_iff_toNat_le, hk]; simp only [UInt64.reduceToNat]; omega),
      hk, Nat.toUInt64, UInt64.toNat_ofNat']
    simp only [UInt64.reduceToNat]
    omega
  rw [hcount, testBit_shl_one_sub_one (by omega) hq, decide_eq_decide]
  omega

/-- A byte is zero at bit `p` exactly when its and with `1 << p` is zero. -/
theorem and_one_shiftLeft_eq_zero (b : UInt8) {p : Nat} (hp : p < 8) :
    (b &&& ((1 : UInt8) <<< p.toUInt8)) = 0 ↔ b.toNat.testBit p = false := by
  constructor
  · intro h
    have := congrArg (fun x : UInt8 => x.toNat.testBit p) h
    simp only [testBit_and, testBit_one_shiftLeft hp, decide_true, Bool.and_true, testBit_zero] at this
    exact this
  · intro h
    apply UInt8.toNat_inj.mp
    apply Nat.eq_of_testBit_eq
    intro q
    rw [testBit_and, testBit_one_shiftLeft hp]
    by_cases hq : p = q
    · subst hq
      simp [h]
    · simp [hq]

/-- `bits.OnesCount8`: the bits set in a byte. -/
def onesCount8 (x : UInt8) : Nat :=
  ((List.range 8).filter fun q => x.toNat.testBit q).length

/-- The bits of a byte that are not set. -/
theorem eight_sub_onesCount8 (x : UInt8) :
    8 - onesCount8 x = ((List.range 8).filter fun q => !x.toNat.testBit q).length := by
  have hsplit := List.length_eq_countP_add_countP (fun q => x.toNat.testBit q) (l := List.range 8)
  have hnot : (fun q => decide ¬x.toNat.testBit q = true) = fun q => !x.toNat.testBit q := by
    funext q
    simp
  simp only [List.length_range, List.countP_eq_length_filter, hnot] at hsplit
  rw [onesCount8]
  omega

/-! ### Bits of a bitmap -/

theorem bitAt_eq_false_of_length_le {bm : List UInt8} {i : Nat} (h : bm.length ≤ i / 8) :
    bitAt bm i = false := by
  simp [bitAt, List.getElem?_eq_none h]

/-- Bits past the end of a bitmap are read from what is appended to it. -/
theorem bitAt_append (bm ext : List UInt8) (i : Nat) :
    bitAt (bm ++ ext) i = if i < 8 * bm.length then bitAt bm i else bitAt ext (i - 8 * bm.length) := by
  split_ifs with h
  · simp [bitAt, List.getElem?_append_left (by omega : i / 8 < bm.length)]
  · have hdiv : (i - 8 * bm.length) / 8 = i / 8 - bm.length := by omega
    have hmod : (i - 8 * bm.length) % 8 = i % 8 := by omega
    simp [bitAt, List.getElem?_append_right (by omega : bm.length ≤ i / 8), hdiv, hmod]

theorem bitAt_append_of_lt (bm ext : List UInt8) {i : Nat} (h : i / 8 < bm.length) :
    bitAt (bm ++ ext) i = bitAt bm i := by
  simp [bitAt, List.getElem?_append_left h]

@[simp] theorem bitAt_append_zero (bm : List UInt8) (i : Nat) :
    bitAt (bm ++ [0]) i = bitAt bm i := by
  by_cases h : i / 8 < bm.length
  · exact bitAt_append_of_lt bm [0] h
  · -- past the old end the byte is the new zero byte or none at all
    have hbyte : (bm ++ [0])[i / 8]?.getD 0 = 0 := by
      rw [List.getElem?_append_right (by omega)]
      rcases Nat.eq_zero_or_pos (i / 8 - bm.length) with hk | hk
      · simp [hk]
      · simp [List.getElem?_eq_none (by simp; omega : [(0 : UInt8)].length ≤ i / 8 - bm.length)]
    rw [@bitAt_eq_false_of_length_le bm i (by omega), bitAt, hbyte, testBit_zero]

/-- Changing the byte of bit `i` changes bit `i` as the byte's function says, and no byte else. -/
theorem bitAt_modify (bm : List UInt8) (k : Nat) (f : UInt8 → UInt8) (i : Nat) (hk : k < bm.length) :
    bitAt (bm.modify k f) i =
      if i / 8 = k then (f (bm[k]?.getD 0)).toNat.testBit (i % 8) else bitAt bm i := by
  simp only [bitAt, List.getElem?_modify]
  by_cases h : i / 8 = k
  · subst h
    simp [List.getElem?_eq_getElem hk]
  · rw [if_neg h]
    cases bm[i / 8]? <;> simp [Ne.symm h]

/-- ORing a byte into byte `k` sets its bits there, and nothing past the end of the bitmap. -/
theorem bitAt_modify_or (bm : List UInt8) (k : Nat) (y : UInt8) (i : Nat) :
    bitAt (bm.modify k (· ||| y)) i =
      (bitAt bm i || (decide (i / 8 = k) && decide (k < bm.length) && y.toNat.testBit (i % 8))) := by
  by_cases hk : k < bm.length
  · rw [bitAt_modify _ _ _ _ hk]
    split_ifs with hi
    · subst hi
      rw [testBit_or, bitAt, decide_eq_true rfl, decide_eq_true hk]
      simp [List.getElem?_eq_getElem hk]
    · simp [hi]
  · rw [List.modify_eq_self (by omega)]
    simp [hk]

/-- A bit of a bitmap is bit `i % 8` of byte `i / 8`. -/
theorem bitAt_eq_testBit_getD (bm : List UInt8) (i : Nat) :
    bitAt bm i = (bm.getD (i / 8) 0).toNat.testBit (i % 8) := by
  rw [bitAt, List.getD_eq_getElem?_getD]

theorem bitAt_replicate (n : Nat) (v : UInt8) (i : Nat) :
    bitAt (List.replicate n v) i = (decide (i / 8 < n) && v.toNat.testBit (i % 8)) := by
  simp only [bitAt, List.getElem?_replicate]
  by_cases h : i / 8 < n <;> simp [h]

theorem bitAt_drop (bm : List UInt8) (k i : Nat) : bitAt (bm.drop k) i = bitAt bm (8 * k + i) := by
  have hdiv : (8 * k + i) / 8 = k + i / 8 := by omega
  have hmod : (8 * k + i) % 8 = i % 8 := by omega
  rw [bitAt, bitAt, List.getElem?_drop, hdiv, hmod]

theorem bitAt_take (bm : List UInt8) (k i : Nat) :
    bitAt (bm.take k) i = (decide (i / 8 < k) && bitAt bm i) := by
  simp only [bitAt, List.getElem?_take]
  by_cases h : i / 8 < k <;> simp [h]

end TinySql.Lib
