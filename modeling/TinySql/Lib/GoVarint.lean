import TinySql.Lib.GoInt
import Mathlib

/-!
# Varints of `encoding/binary`

`binary.PutUvarint` writes a number seven bits a byte, lowest first, with the high bit set on every
byte but the last. `binary.Uvarint` reads one back with the count of bytes read: `0` when the bytes
end inside the number, `-(i + 1)` when the number overflows 64 bits at byte `i`. `PutVarint` and
`Varint` map signed numbers to unsigned ones by the zig-zag code first: nonnegative numbers to even
ones, negative ones to odd ones. These are the functions of Go 1.13.

What `Uvarint` has read so far is a `Nat` here: in Go the bits of a byte past the 64th are dropped,
but then the loop is past byte 9 and returns no value.
-/

namespace TinySql.Lib

/-- The loop of `binary.PutUvarint`; `fuel` bounds its rounds, and ten cover every 64-bit number. -/
def putUvarintLoop : Nat → Nat → List (Fin 256)
  | 0, x => [Fin.ofNat 256 x]
  | fuel + 1, x =>
    if x ≥ 0x80 then Fin.ofNat 256 (x % 256 ||| 0x80) :: putUvarintLoop fuel (x >>> 7)
    else [Fin.ofNat 256 x]

/-- `binary.PutUvarint`. -/
def putUvarint (x : UInt64) : List (Fin 256) :=
  putUvarintLoop 10 x.toNat

/-- The loop of `binary.Uvarint` at byte `i`, with the bits `x` read so far. -/
def uvarintLoop (i x : Nat) : List (Fin 256) → UInt64 × Int
  | [] => (0, 0)
  | b :: bs =>
    if b.val < 0x80 then
      if i > 9 ∨ i = 9 ∧ b.val > 1 then (0, -((i + 1 : Nat) : Int))
      else ((x ||| (b.val <<< (7 * i))).toUInt64, (i : Int) + 1)
    else uvarintLoop (i + 1) (x ||| ((b.val &&& 0x7f) <<< (7 * i))) bs

/-- `binary.Uvarint`. -/
def uvarint (buf : List (Fin 256)) : UInt64 × Int :=
  uvarintLoop 0 0 buf

/-- The zig-zag code of `binary.PutVarint`. -/
def zigzag (x : Int64) : UInt64 :=
  let ux := x.toUInt64 <<< 1
  if x < 0 then ~~~ux else ux

/-- The decoding of the zig-zag code in `binary.Varint`. -/
def unzigzag (ux : UInt64) : Int64 :=
  let x := (ux >>> 1).toInt64
  if ux &&& 1 ≠ 0 then ~~~x else x

/-- `binary.PutVarint`. -/
def putVarint (x : Int64) : List (Fin 256) :=
  putUvarint (zigzag x)

/-- `binary.Varint`. -/
def varint (buf : List (Fin 256)) : Int64 × Int :=
  let (ux, n) := uvarint buf
  (unzigzag ux, n)

/-! ### Unsigned round trip -/

theorem putUvarintLoop_ne_nil (fuel x : Nat) : putUvarintLoop fuel x ≠ [] := by
  cases fuel with
  | zero => simp [putUvarintLoop]
  | succ fuel =>
    rw [putUvarintLoop]
    split <;> simp

theorem putVarint_ne_nil (x : Int64) : putVarint x ≠ [] :=
  putUvarintLoop_ne_nil _ _

/-- A byte with the high bit set keeps the low seven bits of the number. -/
theorem continuation_byte (y : Nat) :
    (y % 256 ||| 0x80) < 256 ∧ 0x80 ≤ y % 256 ||| 0x80 ∧ (y % 256 ||| 0x80) &&& 0x7f = y % 128 := by
  refine ⟨Nat.or_lt_two_pow (n := 8) (Nat.mod_lt _ (by decide)) (by decide), Nat.right_le_or, ?_⟩
  rw [show (0x80 : Nat) = 2 ^ 7 from rfl, show (0x7f : Nat) = 2 ^ 7 - 1 from rfl,
    show (256 : Nat) = 2 ^ 8 from rfl]
  apply Nat.eq_of_testBit_eq
  intro j
  rw [Nat.testBit_and, Nat.testBit_or, Nat.testBit_two_pow, Nat.testBit_two_pow_sub_one,
    Nat.testBit_mod_two_pow, Nat.testBit_mod_two_pow]
  by_cases hj : j < 7
  · simp [hj, show j < 8 by omega, show ¬ 7 = j by omega]
  · simp [hj]

/-- The bits read so far lie below those of the next byte. -/
theorem or_shiftLeft_eq_add {acc i : Nat} (hacc : acc < 2 ^ i) (c : Nat) :
    acc ||| (c <<< i) = acc + c * 2 ^ i := by
  rw [Nat.lor_comm, ← Nat.shiftLeft_add_eq_or_of_lt hacc, Nat.shiftLeft_eq, Nat.add_comm]

/-- The last byte of a number that fits in 64 bits passes the overflow check. -/
theorem uvarintLoop_last {i acc y : Nat} (rest : List (Fin 256)) (hacc : acc < 2 ^ (7 * i))
    (hy : y < 0x80) (hpos : i = 0 ∨ 0 < y) (hfit : acc + y * 2 ^ (7 * i) < 2 ^ 64) :
    uvarintLoop i acc (Fin.ofNat 256 y :: rest) = ((acc + y * 2 ^ (7 * i)).toUInt64, (i : Int) + 1) := by
  have hval : (Fin.ofNat 256 y).val = y := by simp only [Fin.val_ofNat]; omega
  have hnotover : ¬ (i > 9 ∨ i = 9 ∧ y > 1) := by
    rintro (hi | ⟨rfl, hy1⟩)
    · have hpow : 2 ^ 64 ≤ 2 ^ (7 * i) := Nat.pow_le_pow_right (by decide) (by omega)
      have hy0 : 0 < y := by omega
      have : 2 ^ (7 * i) ≤ y * 2 ^ (7 * i) := Nat.le_mul_of_pos_left _ hy0
      omega
    · have : 2 * 2 ^ 63 ≤ y * 2 ^ 63 := Nat.mul_le_mul_right _ hy1
      omega
  rw [uvarintLoop, hval, if_pos hy, if_neg hnotover, or_shiftLeft_eq_add hacc]

theorem uvarintLoop_putUvarintLoop (fuel : Nat) {i acc y : Nat} (rest : List (Fin 256))
    (hacc : acc < 2 ^ (7 * i)) (hy : y < 128 ^ (fuel + 1)) (hpos : i = 0 ∨ 0 < y)
    (hfit : acc + y * 2 ^ (7 * i) < 2 ^ 64) :
    uvarintLoop i acc (putUvarintLoop fuel y ++ rest) =
      ((acc + y * 2 ^ (7 * i)).toUInt64, (i : Int) + (putUvarintLoop fuel y).length) := by
  induction fuel generalizing i acc y with
  | zero => exact uvarintLoop_last rest hacc (by simpa using hy) hpos hfit
  | succ fuel ih =>
    by_cases hbig : y ≥ 0x80
    · obtain ⟨hlt, hhigh, hlow⟩ := continuation_byte y
      have hval : (Fin.ofNat 256 (y % 256 ||| 0x80)).val = y % 256 ||| 0x80 := by
        rw [Fin.val_ofNat, Nat.mod_eq_of_lt hlt]
      -- the next round reads the rest of `y` seven bits higher
      have hsplit : acc + y * 2 ^ (7 * i) =
          acc + y % 128 * 2 ^ (7 * i) + y / 128 * 2 ^ (7 * (i + 1)) := by
        conv_lhs => rw [← Nat.mod_add_div y 128]
        rw [show 7 * (i + 1) = 7 * i + 7 by omega, pow_add]
        ring
      have hacc' : acc + y % 128 * 2 ^ (7 * i) < 2 ^ (7 * (i + 1)) := by
        rw [show 7 * (i + 1) = 7 * i + 7 by omega, pow_add]
        have : y % 128 < 128 := Nat.mod_lt _ (by decide)
        nlinarith
      rw [putUvarintLoop, if_pos hbig, List.cons_append, uvarintLoop, hval, if_neg (by omega), hlow,
        or_shiftLeft_eq_add hacc, Nat.shiftRight_eq_div_pow,
        ih hacc' (by rw [pow_succ] at hy; omega) (.inr (by omega)) (by rw [← hsplit]; exact hfit),
        ← hsplit, List.length_cons]
      congr 1
      push_cast
      ring
    · rw [putUvarintLoop, if_neg hbig]
      exact uvarintLoop_last rest hacc (by omega) hpos hfit

/-- `Uvarint` reads back what `PutUvarint` wrote, and no more. -/
theorem uvarint_putUvarint (x : UInt64) (rest : List (Fin 256)) :
    uvarint (putUvarint x ++ rest) = (x, ((putUvarint x).length : Int)) := by
  have hx := x.toNat_lt
  have hfuel : x.toNat < 128 ^ (10 + 1) := lt_of_lt_of_le hx (by decide)
  rw [uvarint, putUvarint, uvarintLoop_putUvarintLoop 10 rest (by decide) hfuel (.inl rfl)
    (by simpa using hx)]
  simp

/-! ### Signed round trip -/

theorem toNat_zigzag (x : Int64) :
    (zigzag x).toNat =
      if x < 0 then 2 ^ 65 - 1 - 2 * x.toUInt64.toNat else 2 * x.toUInt64.toNat := by
  have hlt := x.toUInt64.toNat_lt
  have hneg : x < 0 ↔ 2 ^ 63 ≤ x.toUInt64.toNat := by
    rw [Int64.lt_iff_toInt_lt, Int64.toInt_zero, toInt_eq_toNat]
    split_ifs <;> omega
  unfold zigzag
  split_ifs with h
  · rw [UInt64.toNat_not, UInt64.toNat_shiftLeft]
    simp only [UInt64.toNat_one, Nat.one_mod, Nat.shiftLeft_eq, pow_one, UInt64.size]
    have := hneg.mp h
    omega
  · rw [UInt64.toNat_shiftLeft]
    simp only [UInt64.toNat_one, Nat.one_mod, Nat.shiftLeft_eq, pow_one]
    have := hneg.not.mp h
    omega

theorem unzigzag_zigzag (x : Int64) : unzigzag (zigzag x) = x := by
  have hz := toNat_zigzag x
  have hlt := x.toUInt64.toNat_lt
  apply Int64.toBitVec_inj.mp
  rw [← Int64.toBitVec_toUInt64, ← Int64.toBitVec_toUInt64]
  congr 1
  apply UInt64.toNat_inj.mp
  unfold unzigzag
  have hbit : (zigzag x &&& 1 ≠ 0) ↔ x < 0 := by
    rw [ne_eq, ← UInt64.toNat_inj, UInt64.toNat_and, UInt64.toNat_one, Nat.and_one_is_mod,
      UInt64.toNat_zero, hz]
    split_ifs with h <;> simp only [h, iff_true, iff_false, not_not] <;> omega
  by_cases h : x < 0
  · rw [if_pos (hbit.mpr h), Int64.toUInt64_not, UInt64.toUInt64_toInt64, UInt64.toNat_not,
      UInt64.toNat_shiftRight, hz, if_pos h]
    simp only [UInt64.toNat_one, Nat.one_mod, Nat.shiftRight_eq_div_pow, pow_one, UInt64.size]
    omega
  · rw [if_neg (mt hbit.mp h), UInt64.toUInt64_toInt64, UInt64.toNat_shiftRight, hz, if_neg h]
    simp only [UInt64.toNat_one, Nat.one_mod, Nat.shiftRight_eq_div_pow, pow_one]
    omega

/-- `Varint` reads back what `PutVarint` wrote, and no more. -/
theorem varint_putVarint (x : Int64) (rest : List (Fin 256)) :
    varint (putVarint x ++ rest) = (x, ((putVarint x).length : Int)) := by
  rw [varint, putVarint, uvarint_putUvarint]
  dsimp only
  rw [unzigzag_zigzag]

example : putUvarint 300 = [0xAC, 0x02] := by decide
example : putVarint (-1) = [1] := by decide

end TinySql.Lib
