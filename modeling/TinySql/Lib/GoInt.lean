import Mathlib

/-!
# Go's fixed-width integers

Go's `int64` and `uint64` are Lean's `Int64` and `UInt64`: both wrap modulo `2^64`, and a
conversion between them keeps the bits. Proofs read them through `Int64.toInt` and
`UInt64.toNat`; the lemmas here say when an operation does not wrap, so that it is the operation
on `Int` or `Nat`, and how the two readings of the same bits relate.
-/

namespace TinySql.Lib

/-- Go's `byte` is `Fin 256`. The instance is named so that each byte literal refers to it, not to
a proof of `256 ≠ 0` that every module would otherwise make for itself. -/
instance neZeroByteModulus : NeZero 256 := ⟨by decide⟩

/-- `math.MaxInt64`. -/
def maxInt64 : Int64 := Int64.maxValue

/-- `math.MinInt64`. -/
def minInt64 : Int64 := Int64.minValue

/-- `math.MaxUint64`. -/
def maxUint64 : UInt64 := 18446744073709551615

@[simp] theorem toInt_maxInt64 : maxInt64.toInt = 2 ^ 63 - 1 := rfl

@[simp] theorem toInt_minInt64 : minInt64.toInt = -2 ^ 63 := rfl

@[simp] theorem toNat_maxUint64 : maxUint64.toNat = 2 ^ 64 - 1 := rfl

@[simp] theorem toNat_toUInt64_maxInt64 : maxInt64.toUInt64.toNat = 2 ^ 63 - 1 := rfl

@[simp] theorem toNat_toUInt64_minInt64 : minInt64.toUInt64.toNat = 2 ^ 63 := rfl

@[simp] theorem toNat_toUInt64_zero : (0 : Int64).toUInt64.toNat = 0 := rfl

theorem toInt_add_of_range {a b : Int64} (h1 : -2 ^ 63 ≤ a.toInt + b.toInt)
    (h2 : a.toInt + b.toInt < 2 ^ 63) : (a + b).toInt = a.toInt + b.toInt := by
  rw [Int64.toInt_add]
  exact Int.bmod_eq_of_le (by omega) (by omega)

theorem toInt_sub_of_range {a b : Int64} (h1 : -2 ^ 63 ≤ a.toInt - b.toInt)
    (h2 : a.toInt - b.toInt < 2 ^ 63) : (a - b).toInt = a.toInt - b.toInt := by
  rw [Int64.toInt_sub]
  exact Int.bmod_eq_of_le (by omega) (by omega)

theorem toInt_add_ofNat (a : Int64) (n : Nat) (h1 : -2 ^ 63 ≤ a.toInt + n)
    (h2 : a.toInt + n < 2 ^ 63) : (a + Int64.ofNat n).toInt = a.toInt + n := by
  rw [Int64.toInt_add, Int64.toInt_ofNat', Int64.size, Int.add_bmod_bmod]
  exact Int.bmod_eq_of_le (by omega) (by omega)

theorem toInt_sub_ofNat (a : Int64) (n : Nat) (h1 : -2 ^ 63 ≤ a.toInt - n)
    (h2 : a.toInt - n < 2 ^ 63) : (a - Int64.ofNat n).toInt = a.toInt - n := by
  rw [Int64.toInt_sub, Int64.toInt_ofNat', Int64.size, Int.sub_bmod_bmod]
  exact Int.bmod_eq_of_le (by omega) (by omega)

/-- A sum of two `int64`s wraps at most once, up or down. -/
theorem toInt_add_eq_ite (a b : Int64) :
    (a + b).toInt = if a.toInt + b.toInt < -2 ^ 63 then a.toInt + b.toInt + 2 ^ 64
      else if 2 ^ 63 ≤ a.toInt + b.toInt then a.toInt + b.toInt - 2 ^ 64 else a.toInt + b.toInt := by
  have ha := Int64.le_toInt a
  have ha' := Int64.toInt_lt a
  have hb := Int64.le_toInt b
  have hb' := Int64.toInt_lt b
  rw [Int64.toInt_add, Int.bmod_def]
  push_cast
  split_ifs <;> omega

theorem toInt_min (a b : Int64) : (min a b).toInt = min a.toInt b.toInt := by
  show (if a ≤ b then a else b).toInt = _
  rw [Int.min_def]
  split_ifs with h h' h' <;> rw [Int64.le_iff_toInt_le] at h <;> omega

theorem toInt_max (a b : Int64) : (max a b).toInt = max a.toInt b.toInt := by
  show (if a ≤ b then b else a).toInt = _
  rw [Int.max_def]
  split_ifs with h h' h' <;> rw [Int64.le_iff_toInt_le] at h <;> omega

theorem toNat_add_of_lt {a b : UInt64} (h : a.toNat + b.toNat < 2 ^ 64) :
    (a + b).toNat = a.toNat + b.toNat := by
  rw [UInt64.toNat_add]
  exact Nat.mod_eq_of_lt h

theorem toNat_max (a b : UInt64) : (max a b).toNat = max a.toNat b.toNat := by
  show (if a ≤ b then b else a).toNat = _
  rw [Nat.max_def]
  split_ifs with h h' h' <;> rw [UInt64.le_iff_toNat_le] at h <;> omega

theorem toNat_min (a b : UInt64) : (min a b).toNat = min a.toNat b.toNat := by
  show (if a ≤ b then a else b).toNat = _
  rw [Nat.min_def]
  split_ifs with h h' h' <;> rw [UInt64.le_iff_toNat_le] at h <;> omega

/-- The signed reading of the bits of `x` in terms of the unsigned one. -/
theorem toInt_eq_toNat (x : Int64) :
    x.toInt = if x.toUInt64.toNat < 2 ^ 63 then (x.toUInt64.toNat : Int)
      else x.toUInt64.toNat - 2 ^ 64 := by
  rw [← Int64.toInt_toBitVec, BitVec.toInt_eq_toNat_cond]
  simp only [UInt64.toNat, Int64.toBitVec_toUInt64]
  split_ifs <;> first | rfl | omega

/-- The two readings of the bits of an `int64`, as a disjunction `omega` can split. -/
theorem toInt_cases (x : Int64) :
    (x.toUInt64.toNat < 2 ^ 63 ∧ x.toInt = x.toUInt64.toNat) ∨
      (2 ^ 63 ≤ x.toUInt64.toNat ∧ x.toInt = x.toUInt64.toNat - 2 ^ 64) := by
  rw [toInt_eq_toNat]
  split_ifs with h
  · exact .inl ⟨h, rfl⟩
  · exact .inr ⟨Nat.le_of_not_lt h, rfl⟩

/-- The signed reading of an `int64` from its bits: flipping the sign bit orders the bits as the
signed values, so every comparison and reading becomes arithmetic on the bits modulo `2 ^ 64`. -/
theorem toInt_eq_flip (x : Int64) :
    x.toInt = (((x.toUInt64.toNat + 2 ^ 63) % 2 ^ 64 : Nat) : Int) - 2 ^ 63 := by
  have hlt := x.toUInt64.toNat_lt
  rcases toInt_cases x with ⟨h, e⟩ | ⟨h, e⟩ <;> rw [e] <;> omega

theorem lt_iff_flip (a b : Int64) :
    a < b ↔ (a.toUInt64.toNat + 2 ^ 63) % 2 ^ 64 < (b.toUInt64.toNat + 2 ^ 63) % 2 ^ 64 := by
  rw [Int64.lt_iff_toInt_lt, toInt_eq_flip a, toInt_eq_flip b]
  omega

theorem le_iff_flip (a b : Int64) :
    a ≤ b ↔ (a.toUInt64.toNat + 2 ^ 63) % 2 ^ 64 ≤ (b.toUInt64.toNat + 2 ^ 63) % 2 ^ 64 := by
  rw [Int64.le_iff_toInt_le, toInt_eq_flip a, toInt_eq_flip b]
  omega

theorem eq_iff_flip (a b : Int64) : a = b ↔ a.toUInt64.toNat = b.toUInt64.toNat := by
  have ha := a.toUInt64.toNat_lt
  have hb := b.toUInt64.toNat_lt
  rw [← Int64.toInt_inj, toInt_eq_flip a, toInt_eq_flip b]
  omega

theorem toUInt64_eq_zero_iff (v : Int64) : v.toUInt64 = 0 ↔ v = 0 := by
  rw [eq_iff_flip v 0, toNat_toUInt64_zero, ← UInt64.toNat_inj]
  rfl

theorem toInt_toInt64 (n : UInt64) (h : n.toNat < 2 ^ 63) : n.toInt64.toInt = n.toNat := by
  have h' : n.toInt64.toUInt64.toNat < 2 ^ 63 := by simpa using h
  rw [toInt_eq_toNat, if_pos h']
  simp

/-- `HInc` by `e - g` on a value `g` leaves `e`, whatever wraps on the way. -/
theorem int64_add_sub_cancel (g e : Int64) : g + (e - g) = e := by
  apply Int64.toBitVec_inj.mp
  simp only [Int64.toBitVec_add, Int64.toBitVec_sub]
  bv_omega

/-- The same with the difference taken on the `uint64` reading. -/
theorem add_toInt64_sub (g : Int64) (e : UInt64) : g + (e - g.toUInt64).toInt64 = e.toInt64 := by
  apply Int64.toBitVec_inj.mp
  simp only [Int64.toBitVec_add, UInt64.toBitVec_toInt64, UInt64.toBitVec_sub,
    Int64.toBitVec_toUInt64]
  bv_omega

/-- A `uint64` whose signed reading is positive is below `2^63`, and reads the same both ways. -/
theorem toInt_toInt64_of_pos {x : UInt64} (h : 0 < x.toInt64.toInt) :
    x.toInt64.toInt = x.toNat := by
  have hx := toInt_eq_toNat x.toInt64
  have hlt := x.toNat_lt
  simp only [UInt64.toUInt64_toInt64] at hx
  split_ifs at hx with hlt
  · exact hx
  · omega

/-- `int64` compares as its signed reading. -/
theorem compare_eq_compare_toInt (a b : Int64) : compare a b = compare a.toInt b.toInt := by
  show compareOfLessAndEq a b = compareOfLessAndEq a.toInt b.toInt
  simp only [compareOfLessAndEq, Int64.lt_iff_toInt_lt, Int64.toInt_inj]

/-- `uint64` compares as its value. -/
theorem compare_eq_compare_toNat (a b : UInt64) : compare a b = compare a.toNat b.toNat := by
  show compareOfLessAndEq a b = compareOfLessAndEq a.toNat b.toNat
  simp only [compareOfLessAndEq, UInt64.lt_iff_toNat_lt, UInt64.toNat_inj]

/-- Reading the low `k + 1` bits of `x` as a two's complement integer gives `x` back exactly when
`x` has `k + 1` bits. -/
theorem bmod_two_pow_eq_self_iff {x : Int} {k : Nat} :
    x.bmod (2 ^ (k + 1)) = x ↔ -2 ^ k ≤ x ∧ x < 2 ^ k := by
  have hm : ((2 ^ (k + 1) : Nat) : Int) = 2 * 2 ^ k := by
    rw [Int.natCast_pow, Int.pow_succ, Int.mul_comm]
    rfl
  have hpos : (0 : Int) < 2 ^ k := Int.pow_pos (by decide)
  constructor
  · intro h
    have hle := Int.le_bmod (x := x) (m := 2 ^ (k + 1)) (Nat.pow_pos (by decide))
    have hlt := Int.bmod_lt (x := x) (m := 2 ^ (k + 1)) (Nat.pow_pos (by decide))
    rw [h, hm] at hle hlt
    omega
  · rintro ⟨h1, h2⟩
    exact Int.bmod_eq_of_le (by rw [hm]; omega) (by rw [hm]; omega)

theorem bmod_natCast_mod (n m : Nat) : ((n % m : Nat) : Int).bmod m = (n : Int).bmod m := by
  rw [Int.natCast_emod]
  exact Int.emod_bmod _ _

/-- An `int64` is its bits read as two's complement. -/
theorem toInt_eq_bmod_toNat_toUInt64 (x : Int64) : x.toInt = (x.toUInt64.toNat : Int).bmod (2 ^ 64) :=
  BitVec.toInt_eq_toNat_bmod x.toBitVec

theorem tmod_lt_natAbs (r a : Int) (ha : a ≠ 0) : (r.tmod a).natAbs < a.natAbs := by
  rw [Int.natAbs_tmod]
  exact Nat.mod_lt _ (by omega)

/-- Go's overflow test for `int64` multiplication: dividing the wrapped product back by a non-zero
`a` gives `b` exactly when the product fits, except for `-1 * MinInt64`, whose wrapped product
`MinInt64` divides back by `-1` to `MinInt64` again. -/
theorem mul_div_self_eq_iff (a b : Int64) (ha : a ≠ 0) (hmin : ¬(a = -1 ∧ b = minInt64)) :
    a * b / a = b ↔ -2 ^ 63 ≤ a.toInt * b.toInt ∧ a.toInt * b.toInt < 2 ^ 63 := by
  have hA0 : a.toInt ≠ 0 := fun h => ha (Int64.toInt_inj.mp (by simpa using h))
  constructor
  · intro h
    have hq := congrArg Int64.toInt h
    rw [Int64.toInt_div] at hq
    -- the quotient of the wrapped product `r` by `a`, with remainder `t`
    have hdiv := Int.tdiv_mul_add_tmod (a * b).toInt a.toInt
    have hq_le := Int.natAbs_tdiv_le_natAbs (a * b).toInt a.toInt
    have ht := tmod_lt_natAbs (a * b).toInt a.toInt hA0
    have hcong : (a * b).toInt % 2 ^ 64 = a.toInt * b.toInt % 2 ^ 64 := by
      rw [Int64.toInt_mul]; exact Int.bmod_emod
    have hr1 := Int64.le_toInt (a * b)
    have hr2 := Int64.toInt_lt (a * b)
    have ha1 := Int64.le_toInt a
    have ha2 := Int64.toInt_lt a
    have hb1 := Int64.le_toInt b
    have hb2 := Int64.toInt_lt b
    generalize (a * b).toInt.tdiv a.toInt = q at hq hdiv hq_le
    generalize (a * b).toInt.tmod a.toInt = t at hdiv ht
    rcases Int.lt_or_eq_of_le (show q ≤ 2 ^ 63 by omega) with hlt | heq
    · -- the quotient is in range, so it is `b` and the remainder is the wrap
      rw [Int.bmod_eq_of_le (by omega) (by omega)] at hq
      subst hq
      rw [Int.mul_comm] at hdiv
      omega
    · -- a quotient of `2 ^ 63` needs `a = -1` and the product `MinInt64`
      subst heq
      have ha' : a.toInt = -1 := by omega
      have hb' : b.toInt = -2 ^ 63 := by
        rw [← hq]; decide
      exact (hmin ⟨Int64.toInt_inj.mp (by simpa using ha'),
        Int64.toInt_inj.mp (by simpa using hb')⟩).elim
  · rintro ⟨h1, h2⟩
    have hfit : (a.toInt * b.toInt).bmod (2 ^ 64) = a.toInt * b.toInt :=
      Int.bmod_eq_of_le (by omega) (by omega)
    apply Int64.toInt_inj.mp
    rw [Int64.toInt_div, Int64.toInt_mul, hfit, Int.mul_tdiv_cancel_left _ hA0, Int64.toInt_bmod]

/-- The same test for `uint64`: dividing the wrapped product back by a non-zero `a` gives `b`
exactly when the product is below `2 ^ 64`. -/
theorem uint64_mul_div_self_eq_iff (a b : UInt64) (ha : a ≠ 0) :
    a * b / a = b ↔ a.toNat * b.toNat < 2 ^ 64 := by
  have hA0 : 0 < a.toNat := by
    rcases Nat.eq_zero_or_pos a.toNat with h | h
    · exact (ha (UInt64.toNat_inj.mp (by simpa using h))).elim
    · exact h
  rw [← UInt64.toNat_inj, UInt64.toNat_div, UInt64.toNat_mul]
  constructor
  · intro h
    by_contra hge
    -- the wrapped product is below the product, so its quotient is below `b`
    have hlt : a.toNat * b.toNat % 2 ^ 64 < a.toNat * b.toNat := by
      have := Nat.mod_lt (a.toNat * b.toNat) (show 0 < 2 ^ 64 by decide)
      omega
    have hle := Nat.div_mul_le_self (a.toNat * b.toNat % 2 ^ 64) a.toNat
    rw [h, Nat.mul_comm] at hle
    omega
  · intro h
    rw [Nat.mod_eq_of_lt h, Nat.mul_div_cancel_left _ hA0]

end TinySql.Lib
