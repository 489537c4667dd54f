import Mathlib

/-!
# IEEE 754 doubles by their bits

A `float64` is the 64 bits `math.Float64bits` gives: a sign bit, eleven exponent bits and
52 mantissa bits. A double whose exponent bits are all set and whose mantissa is not zero is a
NaN, unordered with everything and unequal to itself. The other doubles are ordered by their sign
and then by their magnitude, the exponent and mantissa bits read as one number: that is the point
of the format's layout. So `+0` and `-0` are equal, and the infinities lie beyond every finite
double. `ofNat` is the conversion of an integer to the nearest double, ties to even, that Go's
`float64(i)` makes.
-/

namespace TinySql.Lib.Float64

/-- The sign bit, `0x8000000000000000`. -/
def signBit : UInt64 := 0x8000000000000000

def isNaN (f : UInt64) : Bool :=
  f.toNat / 2 ^ 52 % 2 ^ 11 = 2 ^ 11 - 1 && f.toNat % 2 ^ 52 != 0

def isNeg (f : UInt64) : Bool :=
  2 ^ 63 ≤ f.toNat

/-- Where a double that is no NaN lies on the line: its magnitude, negated under a sign. -/
def orderKey (f : UInt64) : Int :=
  if isNeg f then -((f.toNat % 2 ^ 63 : Nat) : Int) else ((f.toNat % 2 ^ 63 : Nat) : Int)

/-- `x < y`. -/
def lt (x y : UInt64) : Bool :=
  !isNaN x && !isNaN y && decide (orderKey x < orderKey y)

/-- `x == y`. -/
def beq (x y : UInt64) : Bool :=
  !isNaN x && !isNaN y && decide (orderKey x = orderKey y)

/-- `x >= 0`. -/
def geZero (f : UInt64) : Bool :=
  !isNaN f && decide (0 ≤ orderKey f)

/-- A double is not below zero when its sign is clear, or when it is `-0`. -/
theorem orderKey_nonneg_iff (f : UInt64) : 0 ≤ orderKey f ↔ f.toNat < 2 ^ 63 ∨ f.toNat = 2 ^ 63 := by
  have hn := f.toNat_lt
  unfold orderKey isNeg
  split_ifs with h <;> simp only [decide_eq_true_eq] at h <;> omega

theorem geZero_of_not_isNaN {f : UInt64} (hf : isNaN f = false) :
    geZero f = decide (f.toNat < 2 ^ 63 ∨ f.toNat = 2 ^ 63) := by
  rw [geZero, hf, Bool.not_false, Bool.true_and]
  exact decide_eq_decide.mpr (orderKey_nonneg_iff f)

/-- The position of the highest set bit; `fuel` bounds the bits looked at. -/
def log2 : Nat → Nat → Nat
  | 0, _ => 0
  | fuel + 1, m => if m < 2 then 0 else log2 fuel (m / 2) + 1

/-- The double nearest to `m` below `2 ^ 64`, negated under `neg`: a mantissa of 53 bits, rounded
to nearest with ties to even, and the exponent biased by 1023. -/
def ofNat (neg : Bool) (m : Nat) : UInt64 :=
  let sign := if neg then 2 ^ 63 else 0
  if m = 0 then (0 : Nat).toUInt64
  else
    let e := log2 64 m
    if e ≤ 52 then (sign + (e + 1023) * 2 ^ 52 + (m - 2 ^ e) * 2 ^ (52 - e)).toUInt64
    else
      let sh := e - 52
      let q := m / 2 ^ sh
      let r := m % 2 ^ sh
      let q := if r > 2 ^ (sh - 1) ∨ r = 2 ^ (sh - 1) ∧ q % 2 = 1 then q + 1 else q
      -- rounding up may carry into the next power of two
      let (e, q) := if q = 2 ^ 53 then (e + 1, 2 ^ 52) else (e, q)
      (sign + (e + 1023) * 2 ^ 52 + (q - 2 ^ 52)).toUInt64

/-- `float64(i)` of an `int64`. -/
def ofInt64 (i : Int64) : UInt64 :=
  ofNat (i < 0) i.toInt.natAbs

/-- `float64(u)` of a `uint64`. -/
def ofUInt64 (u : UInt64) : UInt64 :=
  ofNat false u.toNat

example : ofInt64 1 = 0x3FF0000000000000 := by decide
example : ofInt64 (-2) = 0xC000000000000000 := by decide
example : ofUInt64 0xFFFFFFFFFFFFFFFF = 0x43F0000000000000 := by decide

end TinySql.Lib.Float64
