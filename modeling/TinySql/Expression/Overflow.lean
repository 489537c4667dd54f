import TinySql.Expression.BuiltinInt

/-!
# The overflow checks of the integer builtins

The row-level `evalInt` of `PlusInt`, `MinusInt`, `MultiplyInt`, `MultiplyIntUnsigned` and
`UnaryMinusInt` test for overflow with inequalities over the wrapped 64-bit values. What they
should decide is whether the exact result of the operands, each read as `int64` or as `uint64` by
the unsigned flag of its type, lies in the range of the builtin's result type: `BIGINT UNSIGNED`
when `getFunction` sets the unsigned flag on it, `BIGINT` otherwise (`Exact`).

Each check is read on the bits of its operands: a value of `int64` is its bits `N < 2 ^ 64`, read
as `N` or as `N - 2 ^ 64`, and every operation of the source is one on `N` modulo `2 ^ 64`.
`PlusInt` and `UnaryMinusInt` are exact for all operands, the others up to four inputs
(`overflow_checks_misjudge`). The signed `MinusInt` reports an overflow for a negative `a` minus
`MinInt64`, whose difference fits, and under `NO_UNSIGNED_SUBTRACTION` for an unsigned operand of
`2 ^ 63` or more; `MultiplyInt` misses the overflow of `-1 * MinInt64`, because the wrapped
product divided back by `-1` wraps to `MinInt64` again (`mul_div_self_eq_iff`); and
`MultiplyIntUnsigned` reads a negative signed operand as a `uint64`.
-/

namespace TinySql.Expression

open TinySql.Lib

/-- An operand as the source reads it: the `uint64` of its bits when its type is unsigned. -/
def readOperand (unsigned : Bool) (a : Int64) : Int :=
  if unsigned then (a.toUInt64.toNat : Int) else a.toInt

/-- The values of `BIGINT UNSIGNED` when `unsigned`, of `BIGINT` otherwise. -/
def InRange (unsigned : Bool) (x : Int) : Prop :=
  if unsigned then 0 ≤ x ∧ x < 2 ^ 64 else -2 ^ 63 ≤ x ∧ x < 2 ^ 63

instance (unsigned : Bool) : DecidablePred (InRange unsigned) := fun x =>
  inferInstanceAs (Decidable (if unsigned then 0 ≤ x ∧ x < 2 ^ 64 else -2 ^ 63 ≤ x ∧ x < 2 ^ 63))

/-- What `evalInt` returns on non-NULL operands decides their exact result `x` for a result type:
an error exactly when `x` is out of the type's range, and otherwise `x` in 64 bits, not NULL. -/
def Exact (unsigned : Bool) (result : Except EvalError (Int64 × Bool)) (x : Int) : Prop :=
  match result with
  | .ok (v, isNull) => isNull = false ∧ InRange unsigned x ∧ readOperand unsigned v = x
  | .error _ => ¬InRange unsigned x

instance (unsigned : Bool) : ∀ result x, Decidable (Exact unsigned result x)
  | .ok (v, isNull), x =>
    inferInstanceAs (Decidable (isNull = false ∧ InRange unsigned x ∧ readOperand unsigned v = x))
  | .error _, x => inferInstanceAs (Decidable ¬InRange unsigned x)

/-- The result type `getFunction` gives `MinusInt`: unsigned when an operand is, unless
`NO_UNSIGNED_SUBTRACTION` is set. -/
def minusIntUnsigned (forceToSigned lhsUnsignedFlag rhsUnsignedFlag : Bool) : Bool :=
  (lhsUnsignedFlag || rhsUnsignedFlag) && !forceToSigned

theorem binaryEvalInt_of_not_null (compute : Int64 → Int64 → Except EvalError Int64) (a b : Int64) :
    binaryEvalInt compute (a, false) (b, false) = (compute a b).map fun v => (v, false) := by
  rfl

@[simp] theorem exact_map_ok (unsigned : Bool) (v : Int64) (x : Int) :
    Exact unsigned ((Except.ok v : Except EvalError Int64).map fun v => (v, false)) x ↔
      InRange unsigned x ∧ readOperand unsigned v = x := by
  simp [Exact, Except.map]

@[simp] theorem exact_map_error (unsigned : Bool) (e : EvalError) (x : Int) :
    Exact unsigned ((Except.error e : Except EvalError Int64).map fun v => (v, false)) x ↔
      ¬InRange unsigned x := by
  simp [Exact, Except.map]

/-- `PlusInt` decides the sum for every pair of operands and flags. -/
theorem plusInt_exact (isLHSUnsigned isRHSUnsigned : Bool) (a b : Int64) :
    Exact (isLHSUnsigned || isRHSUnsigned)
      (builtinArithmeticPlusIntSig.evalInt isLHSUnsigned isRHSUnsigned (a, false) (b, false))
      (readOperand isLHSUnsigned a + readOperand isRHSUnsigned b) := by
  have hA := a.toUInt64.toNat_lt
  have hB := b.toUInt64.toNat_lt
  rw [builtinArithmeticPlusIntSig.evalInt, binaryEvalInt_of_not_null]
  -- each check is arithmetic on the bits of the operands
  cases isLHSUnsigned <;> cases isRHSUnsigned <;> unfold plusIntCompute <;> dsimp only <;>
    split_ifs <;>
    simp only [exact_map_ok, exact_map_error, InRange, readOperand, Bool.or_self, Bool.or_false,
      Bool.false_or, if_true, Bool.false_eq_true, if_false, lt_iff_flip, UInt64.lt_iff_toNat_lt,
      Int64.toUInt64_add, Int64.toUInt64_neg, Int64.toUInt64_sub, UInt64.toNat_add,
      UInt64.toNat_sub, UInt64.toNat_neg, UInt64.size, toNat_maxUint64, toNat_toUInt64_maxInt64,
      toNat_toUInt64_minInt64, toNat_toUInt64_zero, toInt_eq_flip, Bool.and_eq_true,
      decide_eq_true_eq, Bool.or_eq_true, gt_iff_lt] at * <;>
    omega

theorem readOperand_of_nonneg {unsigned : Bool} {a : Int64} (h : unsigned = true → 0 ≤ a.toInt) :
    readOperand unsigned a = a.toInt := by
  cases unsigned
  · rfl
  · have h0 := h rfl
    have hA := a.toUInt64.toNat_lt
    simp only [readOperand, if_true]
    rw [toInt_eq_flip] at h0 ⊢
    omega

/-- Under `NO_UNSIGNED_SUBTRACTION` an operand that is not negative passes the unsigned range
checks, and the subtraction is the signed one. -/
theorem minusIntCompute_force (l r : Bool) (a b : Int64) (hl : l = true → 0 ≤ a.toInt)
    (hr : r = true → 0 ≤ b.toInt) :
    minusIntCompute true l r a b = minusIntCompute false false false a b := by
  have hpass : ∀ x : Int64, 0 ≤ x.toInt → (decide (x < 0) || decide (x > maxInt64)) = false :=
    fun x hx => by
      have := x.toInt_lt
      simp only [Bool.or_eq_false_iff, decide_eq_false_iff_not, Int64.lt_iff_toInt_lt, gt_iff_lt,
        toInt_maxInt64, Int64.toInt_zero]
      omega
  have ha : (l && (decide (a < 0) || decide (a > maxInt64))) = false := by
    cases l
    · rfl
    · exact hpass a (hl rfl)
  have hb : (r && (decide (b < 0) || decide (b > maxInt64))) = false := by
    cases r
    · rfl
    · exact hpass b (hr rfl)
  unfold minusIntCompute
  simp only [Bool.true_and, ha, hb, Bool.not_true, Bool.not_false, Bool.false_and,
    Bool.false_eq_true, if_false]

/-- Without `NO_UNSIGNED_SUBTRACTION`, each pair of flags picks a branch whose checks decide the
difference, but for a negative `a` minus `MinInt64` with both operands signed. -/
theorem minusIntCompute_exact (l r : Bool) (a b : Int64)
    (hmin : l = false → r = false → ¬(a < 0 ∧ b = minInt64)) :
    Exact (minusIntUnsigned false l r) ((minusIntCompute false l r a b).map fun v => (v, false))
      (readOperand l a - readOperand r b) := by
  have hA := a.toUInt64.toNat_lt
  have hB := b.toUInt64.toNat_lt
  -- the flags pick one branch of the match before its checks are split
  cases l <;> cases r <;> unfold minusIntCompute <;>
    simp only [Bool.not_false, Bool.false_and, Bool.true_and, Bool.false_eq_true, if_false] <;>
    split_ifs <;>
    simp only [exact_map_ok, exact_map_error, InRange, readOperand, minusIntUnsigned, Bool.or_self,
      Bool.or_false, Bool.false_or, Bool.not_false, Bool.and_true, if_true, Bool.false_eq_true,
      if_false, lt_iff_flip, le_iff_flip, eq_iff_flip, beq_iff_eq, UInt64.lt_iff_toNat_lt,
      Int64.toUInt64_neg, Int64.toUInt64_sub, UInt64.toNat_sub, UInt64.toNat_neg, UInt64.size,
      toNat_maxUint64, toNat_toUInt64_maxInt64, toNat_toUInt64_minInt64, toNat_toUInt64_zero,
      toInt_eq_flip, Bool.and_eq_true, decide_eq_true_eq, Bool.or_eq_true, gt_iff_lt, ge_iff_le,
      forall_const, not_and] at * <;>
    omega

/-- `MinusInt` decides the difference under both modes, with two exceptions the hypotheses rule
out: under `NO_UNSIGNED_SUBTRACTION` an unsigned operand of `2 ^ 63` or more is an error even
when the difference fits, and with both operands signed a negative `a` minus `MinInt64` is
reported as an overflow. -/
theorem minusInt_exact (forceToSigned lhsUnsignedFlag rhsUnsignedFlag : Bool) (a b : Int64)
    (hforce : forceToSigned = true →
      (lhsUnsignedFlag = true → 0 ≤ a.toInt) ∧ (rhsUnsignedFlag = true → 0 ≤ b.toInt))
    (hmin : lhsUnsignedFlag = false → rhsUnsignedFlag = false → ¬(a < 0 ∧ b = minInt64)) :
    Exact (minusIntUnsigned forceToSigned lhsUnsignedFlag rhsUnsignedFlag)
      (builtinArithmeticMinusIntSig.evalInt forceToSigned lhsUnsignedFlag rhsUnsignedFlag
        (a, false) (b, false))
      (readOperand lhsUnsignedFlag a - readOperand rhsUnsignedFlag b) := by
  rw [builtinArithmeticMinusIntSig.evalInt, binaryEvalInt_of_not_null]
  cases forceToSigned
  · exact minusIntCompute_exact lhsUnsignedFlag rhsUnsignedFlag a b hmin
  · -- under NO_UNSIGNED_SUBTRACTION the operands pass their checks and are read as signed
    obtain ⟨hl, hr⟩ := hforce rfl
    have hsigned : ¬(a < 0 ∧ b = minInt64) := by
      rintro ⟨ha, rfl⟩
      cases lhsUnsignedFlag
      · cases rhsUnsignedFlag
        · exact hmin rfl rfl ⟨ha, rfl⟩
        · have := hr rfl
          simp only [toInt_minInt64] at this
          omega
      · have := hl rfl
        rw [Int64.lt_iff_toInt_lt, Int64.toInt_zero] at ha
        omega
    have hunsigned : minusIntUnsigned true lhsUnsignedFlag rhsUnsignedFlag =
        minusIntUnsigned false false false := by
      simp only [minusIntUnsigned, Bool.not_true, Bool.and_false, Bool.or_self, Bool.not_false,
        Bool.and_true]
    rw [minusIntCompute_force lhsUnsignedFlag rhsUnsignedFlag a b hl hr, hunsigned,
      readOperand_of_nonneg hl, readOperand_of_nonneg hr]
    exact minusIntCompute_exact false false a b fun _ _ => hsigned

/-- `MultiplyInt`, on two signed operands, decides the product except for `-1 * MinInt64`. -/
theorem multiplyInt_exact (a b : Int64) (hmin : ¬(a = -1 ∧ b = minInt64)) :
    Exact false (builtinArithmeticMultiplyIntSig.evalInt (a, false) (b, false))
      (readOperand false a * readOperand false b) := by
  rw [builtinArithmeticMultiplyIntSig.evalInt, binaryEvalInt_of_not_null]
  simp only [readOperand, Bool.false_eq_true, if_false]
  unfold multiplyIntCompute
  dsimp only
  by_cases ha : a = 0
  · -- `0 * b` is checked by nothing and is `0`
    subst ha
    simp [InRange, readOperand]
  · have hfits := mul_div_self_eq_iff a b ha hmin
    split_ifs with hcheck
    · simp only [exact_map_error, InRange, Bool.false_eq_true, if_false]
      simp only [Bool.and_eq_true, bne_iff_ne, ne_eq] at hcheck
      exact fun h => hcheck.2 (hfits.mpr h)
    · simp only [Bool.and_eq_true, bne_iff_ne, ne_eq, not_and, not_not] at hcheck
      have hin := hfits.mp (hcheck ha)
      simp only [exact_map_ok, InRange, readOperand, Bool.false_eq_true, if_false]
      refine ⟨hin, ?_⟩
      rw [Int64.toInt_mul]
      exact Int.bmod_eq_of_le (by omega) (by omega)

theorem readOperand_eq_toNat (unsigned : Bool) (a : Int64) (h : unsigned = false → 0 ≤ a.toInt) :
    readOperand unsigned a = a.toUInt64.toNat := by
  have hA := a.toUInt64.toNat_lt
  cases unsigned
  · have h0 := h rfl
    rw [toInt_eq_flip] at h0
    simp only [readOperand, Bool.false_eq_true, if_false, toInt_eq_flip]
    omega
  · rfl

/-- `MultiplyIntUnsigned`, chosen when an operand is unsigned, decides the product when each signed
operand is non-negative, so that its `uint64` reading is its value. -/
theorem multiplyIntUnsigned_exact (lhsUnsignedFlag rhsUnsignedFlag : Bool) (a b : Int64)
    (hl : lhsUnsignedFlag = false → 0 ≤ a.toInt) (hr : rhsUnsignedFlag = false → 0 ≤ b.toInt) :
    Exact true (builtinArithmeticMultiplyIntUnsignedSig.evalInt (a, false) (b, false))
      (readOperand lhsUnsignedFlag a * readOperand rhsUnsignedFlag b) := by
  rw [readOperand_eq_toNat _ a hl, readOperand_eq_toNat _ b hr,
    builtinArithmeticMultiplyIntUnsignedSig.evalInt, binaryEvalInt_of_not_null]
  unfold multiplyIntUnsignedCompute
  dsimp only
  have hlt := Nat.mod_lt (a.toUInt64.toNat * b.toUInt64.toNat) (show 0 < 2 ^ 64 by decide)
  by_cases ha : a.toUInt64 = 0
  · -- a zero `a` is checked by nothing
    simp only [ha, bne_self_eq_false, Bool.false_and, Bool.false_eq_true, if_false,
      exact_map_ok, InRange, if_true, readOperand, UInt64.toUInt64_toInt64, UInt64.toNat_mul,
      UInt64.toNat_zero, Nat.zero_mul, Nat.zero_mod]
    omega
  · have hfits := uint64_mul_div_self_eq_iff a.toUInt64 b.toUInt64 ha
    split_ifs with hcheck
    · simp only [Bool.and_eq_true, bne_iff_ne, ne_eq] at hcheck
      simp only [exact_map_error, InRange, if_true, not_and]
      intro _
      have := hfits.not.mp hcheck.2
      omega
    · simp only [Bool.and_eq_true, bne_iff_ne, ne_eq, not_and, not_not] at hcheck
      have hin := hfits.mp (hcheck ha)
      simp only [exact_map_ok, InRange, if_true, readOperand, UInt64.toUInt64_toInt64,
        UInt64.toNat_mul, Nat.mod_eq_of_lt hin]
      omega

/-- `UnaryMinusInt` decides the negation for every operand. -/
theorem unaryMinusInt_exact (argUnsigned : Bool) (a : Int64) :
    Exact false (builtinUnaryMinusIntSig.evalInt argUnsigned (a, false)) (-readOperand argUnsigned a) := by
  have hA := a.toUInt64.toNat_lt
  unfold builtinUnaryMinusIntSig.evalInt
  dsimp only
  cases argUnsigned <;> simp only [Bool.false_eq_true, ↓reduceIte] <;> split_ifs <;>
    simp only [Exact, InRange, readOperand, Bool.false_eq_true, if_false, if_true, eq_iff_flip,
      beq_iff_eq, UInt64.lt_iff_toNat_lt, ← UInt64.toNat_inj, gt_iff_lt, Int64.toUInt64_neg, UInt64.toNat_neg,
      UInt64.size, UInt64.toNat_ofNat, toNat_toUInt64_minInt64, toInt_eq_flip, true_and,
      not_and] at * <;>
    omega

/-- The overflow checks of the five integer builtins decide the exact result of their operands
everywhere but at the inputs their hypotheses rule out. -/
theorem overflow_checks_exact :
    (∀ isLHSUnsigned isRHSUnsigned a b, Exact (isLHSUnsigned || isRHSUnsigned)
      (builtinArithmeticPlusIntSig.evalInt isLHSUnsigned isRHSUnsigned (a, false) (b, false))
      (readOperand isLHSUnsigned a + readOperand isRHSUnsigned b)) ∧
    (∀ forceToSigned lhsUnsignedFlag rhsUnsignedFlag a b,
      (forceToSigned = true →
        (lhsUnsignedFlag = true → 0 ≤ a.toInt) ∧ (rhsUnsignedFlag = true → 0 ≤ b.toInt)) →
      (lhsUnsignedFlag = false → rhsUnsignedFlag = false → ¬(a < 0 ∧ b = minInt64)) →
      Exact (minusIntUnsigned forceToSigned lhsUnsignedFlag rhsUnsignedFlag)
        (builtinArithmeticMinusIntSig.evalInt forceToSigned lhsUnsignedFlag rhsUnsignedFlag
          (a, false) (b, false))
        (readOperand lhsUnsignedFlag a - readOperand rhsUnsignedFlag b)) ∧
    (∀ a b, ¬(a = -1 ∧ b = minInt64) →
      Exact false (builtinArithmeticMultiplyIntSig.evalInt (a, false) (b, false))
        (readOperand false a * readOperand false b)) ∧
    (∀ lhsUnsignedFlag rhsUnsignedFlag a b, (lhsUnsignedFlag = false → 0 ≤ a.toInt) →
      (rhsUnsignedFlag = false → 0 ≤ b.toInt) →
      Exact true (builtinArithmeticMultiplyIntUnsignedSig.evalInt (a, false) (b, false))
        (readOperand lhsUnsignedFlag a * readOperand rhsUnsignedFlag b)) ∧
    (∀ argUnsigned a, Exact false (builtinUnaryMinusIntSig.evalInt argUnsigned (a, false))
      (-readOperand argUnsigned a)) :=
  ⟨plusInt_exact, minusInt_exact, multiplyInt_exact, multiplyIntUnsigned_exact, unaryMinusInt_exact⟩

/-- The four inputs at which the checks misjudge: the signed `-1 - MinInt64`, which fits and is
reported as an overflow; `-1 * MinInt64`, which overflows and is returned as `MinInt64`; a signed
`-1` times an unsigned `1`, whose `-1` is out of `BIGINT UNSIGNED` and is returned as
`18446744073709551615`; and under `NO_UNSIGNED_SUBTRACTION` the unsigned `2 ^ 63` minus `1`, which
fits `BIGINT` and is reported as an overflow. -/
theorem overflow_checks_misjudge :
    ¬Exact (minusIntUnsigned false false false)
        (builtinArithmeticMinusIntSig.evalInt false false false (-1, false) (minInt64, false))
        (readOperand false (-1) - readOperand false minInt64) ∧
      ¬Exact false (builtinArithmeticMultiplyIntSig.evalInt (-1, false) (minInt64, false))
        (readOperand false (-1) * readOperand false minInt64) ∧
      ¬Exact true (builtinArithmeticMultiplyIntUnsignedSig.evalInt (-1, false) (1, false))
        (readOperand false (-1) * readOperand true 1) ∧
      ¬Exact (minusIntUnsigned true true false)
        (builtinArithmeticMinusIntSig.evalInt true true false (minInt64, false) (1, false))
        (readOperand true minInt64 - readOperand false 1) := by
  decide

end TinySql.Expression
