import TinySql.Lib.Lex
import TinySql.Lib.GoInt
import Mathlib

/-!
# Fixed-width base-256 digits

A number as `w` bytes, most significant first (`binary.BigEndian.PutUint64`) or least
significant first (`binary.LittleEndian.PutUint16` and its siblings), digits above `w` dropped, and
the numbers the bytes are read back as. Big-endian digits of numbers below `256 ^ w` compare as the
numbers do, which is what makes them a comparable encoding.
-/

namespace TinySql.Lib

theorem compare_add_left_cancel (q a b : Nat) : compare (q + a) (q + b) = compare a b := by
  rcases Nat.lt_trichotomy a b with h | h | h
  · rw [Nat.compare_eq_lt.mpr h, Nat.compare_eq_lt.mpr (by omega)]
  · rw [h, Std.compare_self, Std.compare_self]
  · rw [Nat.compare_eq_gt.mpr h, Nat.compare_eq_gt.mpr (by omega)]

/-- Dividing by `B` splits the order of numbers: the quotients first, the remainders on a tie. -/
theorem compare_eq_then_div_mod (a b B : Nat) :
    compare a b = (compare (a / B) (b / B)).then (compare (a % B) (b % B)) := by
  rcases Nat.lt_trichotomy (a / B) (b / B) with h | h | h
  · rw [Nat.compare_eq_lt.mpr h, Nat.compare_eq_lt.mpr (Nat.lt_of_div_lt_div h)]
    rfl
  · have ha := Nat.div_add_mod a B
    have hb := Nat.div_add_mod b B
    rw [h] at ha
    have hcancel := compare_add_left_cancel (B * (b / B)) (a % B) (b % B)
    rw [ha, hb] at hcancel
    rw [Nat.compare_eq_eq.mpr h, Ordering.eq_then, hcancel]
  · rw [Nat.compare_eq_gt.mpr h, Nat.compare_eq_gt.mpr (Nat.lt_of_div_lt_div h)]
    rfl

/-! ### Most significant first -/

/-- The `w` base-256 digits of `n`, most significant first. -/
def digitsBE : Nat → Nat → List (Fin 256)
  | 0, _ => []
  | w + 1, n => Fin.ofNat 256 (n / 256 ^ w) :: digitsBE w n

/-- The number big-endian bytes stand for. -/
def ofDigitsBE (bytes : List (Fin 256)) : Nat :=
  bytes.foldl (fun acc b => acc * 256 + b.val) 0

@[simp] theorem length_digitsBE (w n : Nat) : (digitsBE w n).length = w := by
  induction w with
  | zero => rfl
  | succ w ih => simp [digitsBE, ih]

theorem digitsBE_mod (w n : Nat) : digitsBE w (n % 256 ^ w) = digitsBE w n := by
  induction w generalizing n with
  | zero => rfl
  | succ w ih =>
    have hdigit : n % 256 ^ (w + 1) / 256 ^ w % 256 = n / 256 ^ w % 256 := by
      rw [Nat.mod_pow_succ, Nat.add_mul_div_left _ _ ((Nat.pow_pos (by decide) : 0 < 256 ^ w)),
        Nat.div_eq_of_lt (Nat.mod_lt _ ((Nat.pow_pos (by decide) : 0 < 256 ^ w))), Nat.zero_add, Nat.mod_mod]
    have hlow : n % 256 ^ (w + 1) % 256 ^ w = n % 256 ^ w :=
      Nat.mod_mod_of_dvd n (Nat.pow_dvd_pow 256 (Nat.le_succ w))
    rw [digitsBE, digitsBE, ← ih (n % 256 ^ (w + 1)), hlow, ih]
    congr 1
    exact Fin.ext (by simpa using hdigit)

/-- Reading on from `acc` shifts it past the bytes read. -/
theorem foldl_digitBE (acc : Nat) (bytes : List (Fin 256)) :
    bytes.foldl (fun acc b => acc * 256 + b.val) acc =
      acc * 256 ^ bytes.length + ofDigitsBE bytes := by
  induction bytes generalizing acc with
  | nil => simp [ofDigitsBE]
  | cons b bs ih =>
    have hhead : ofDigitsBE (b :: bs) = b.val * 256 ^ bs.length + ofDigitsBE bs := by
      rw [ofDigitsBE, List.foldl_cons, ih, Nat.zero_mul, Nat.zero_add]
    rw [List.foldl_cons, ih, hhead, List.length_cons, pow_succ]
    ring

theorem ofDigitsBE_append (l₁ l₂ : List (Fin 256)) :
    ofDigitsBE (l₁ ++ l₂) = ofDigitsBE l₁ * 256 ^ l₂.length + ofDigitsBE l₂ := by
  rw [ofDigitsBE, List.foldl_append, foldl_digitBE]
  rfl

theorem ofDigitsBE_digitsBE (w n : Nat) : ofDigitsBE (digitsBE w n) = n % 256 ^ w := by
  induction w with
  | zero => simp [digitsBE, ofDigitsBE, Nat.mod_one]
  | succ w ih =>
    rw [digitsBE, show Fin.ofNat 256 (n / 256 ^ w) :: digitsBE w n =
      [Fin.ofNat 256 (n / 256 ^ w)] ++ digitsBE w n from rfl, ofDigitsBE_append, ih, length_digitsBE]
    simp only [ofDigitsBE, List.foldl_cons, List.foldl_nil, Fin.val_ofNat, Nat.zero_mul,
      Nat.zero_add]
    rw [Nat.mod_pow_succ, Nat.mul_comm, Nat.add_comm]

/-- Digits of numbers below `256 ^ w` compare as the numbers do. -/
theorem compare_digitsBE {w a b : Nat} (ha : a < 256 ^ w) (hb : b < 256 ^ w) :
    compare (digitsBE w a) (digitsBE w b) = compare a b := by
  induction w generalizing a b with
  | zero =>
    have ha0 : a = 0 := by simpa using ha
    have hb0 : b = 0 := by simpa using hb
    subst ha0 hb0
    rfl
  | succ w ih =>
    have hpos : 0 < 256 ^ w := (Nat.pow_pos (by decide) : 0 < 256 ^ w)
    have hqa : a / 256 ^ w < 256 := Nat.div_lt_of_lt_mul (by rwa [← pow_succ])
    have hqb : b / 256 ^ w < 256 := Nat.div_lt_of_lt_mul (by rwa [← pow_succ])
    have hhead : compare (Fin.ofNat 256 (a / 256 ^ w)) (Fin.ofNat 256 (b / 256 ^ w)) =
        compare (a / 256 ^ w) (b / 256 ^ w) := by
      change compare (a / 256 ^ w % 256) (b / 256 ^ w % 256) = _
      rw [Nat.mod_eq_of_lt hqa, Nat.mod_eq_of_lt hqb]
    rw [digitsBE, digitsBE, List.compare_cons_cons, hhead, ← digitsBE_mod w a, ← digitsBE_mod w b,
      ih (Nat.mod_lt _ hpos) (Nat.mod_lt _ hpos), compare_eq_then_div_mod a b (256 ^ w)]

/-! ### Least significant first -/

/-- The `w` base-256 digits of `n`, least significant first. -/
def digitsLE : Nat → Nat → List (Fin 256)
  | 0, _ => []
  | w + 1, n => Fin.ofNat 256 n :: digitsLE w (n / 256)

/-- The number little-endian bytes stand for. -/
def ofDigitsLE : List (Fin 256) → Nat
  | [] => 0
  | b :: bs => b.val + 256 * ofDigitsLE bs

@[simp] theorem length_digitsLE (w n : Nat) : (digitsLE w n).length = w := by
  induction w generalizing n with
  | zero => rfl
  | succ w ih => simp [digitsLE, ih]

theorem ofDigitsLE_digitsLE (w n : Nat) : ofDigitsLE (digitsLE w n) = n % 256 ^ w := by
  induction w generalizing n with
  | zero => simp [digitsLE, ofDigitsLE, Nat.mod_one]
  | succ w ih =>
    rw [digitsLE, ofDigitsLE, ih, Fin.val_ofNat, pow_succ', Nat.mod_mul]

theorem ofDigitsLE_lt (bytes : List (Fin 256)) : ofDigitsLE bytes < 256 ^ bytes.length := by
  induction bytes with
  | nil => simp [ofDigitsLE]
  | cons b bs ih =>
    rw [ofDigitsLE, List.length_cons, pow_succ']
    have := b.isLt
    omega

/-- The last digit split off: `w + 1` digits of `n` are the `w` digits of `n / 256` and `n` mod
`256`. -/
theorem digitsBE_succ_eq_append (w n : Nat) :
    digitsBE (w + 1) n = digitsBE w (n / 256) ++ [Fin.ofNat 256 n] := by
  induction w generalizing n with
  | zero => simp [digitsBE]
  | succ w ih =>
    rw [digitsBE, ih, digitsBE, Nat.div_div_eq_div_mul, ← pow_succ']
    rfl

/-- Read from the last, big-endian digits are little-endian ones. -/
theorem reverse_digitsBE (w n : Nat) : (digitsBE w n).reverse = digitsLE w n := by
  induction w generalizing n with
  | zero => rfl
  | succ w ih =>
    rw [digitsBE_succ_eq_append, List.reverse_append, ih, digitsLE]
    rfl

example : digitsBE 2 0x0102 = [1, 2] := by decide
example : digitsLE 2 0x0102 = [2, 1] := by decide

end TinySql.Lib
