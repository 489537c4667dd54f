import TinySql.Types.Convert
import TinySql.Expression.Scalar

/-!
# Decimal text of an int64 reads back as itself

`strconv.FormatInt(n, 10)` writes the digits of `|n|`, most significant first, after a `-` below
zero, and `strconv.ParseInt(s, 10, 64)` reads them back (`parseInt10_formatInt`). The counters of
`structure/` and `meta/` are kept as such text, so an increment reads the value the last one wrote,
and two int64 are told apart by their text (`formatInt_toInt_inj`).

The digits are those of `Nat.toDigits 10`. The loop of `ParseUint` folds them into a number as
`Nat.ofDigitChars` does; the fold only grows, so its range check never fires on the digits of a
number that fits in `uint64`.
-/

namespace TinySql.Types

open TinySql.Expression

/-- The byte of an ASCII character, as `formatInt` writes it. -/
def charByte (c : Char) : Fin 256 :=
  Fin.ofNat 256 c.toNat

theorem formatInt_ofNat (m : Nat) : formatInt (m : Int) = (Nat.toDigits 10 m).map charByte := by
  simp [formatInt, charByte, toString, Int.repr, Nat.toList_repr]

theorem formatInt_negSucc (m : Nat) :
    formatInt (Int.negSucc m) = 45 :: (Nat.toDigits 10 (m + 1)).map charByte := by
  simp [formatInt, charByte, toString, Int.repr, Nat.toList_repr]

theorem charByte_val {c : Char} (hc : c.isDigit) : (charByte c).val = c.toNat := by
  have : c.toNat ≤ 57 := by
    simp only [Char.isDigit, Bool.and_eq_true, decide_eq_true_eq] at hc
    exact hc.2
  simp only [charByte, Fin.val_ofNat]
  omega

theorem isDigit_charByte {c : Char} (hc : c.isDigit) : isDigit (charByte c) := by
  have hval := charByte_val hc
  simp only [Char.isDigit, Bool.and_eq_true, decide_eq_true_eq] at hc
  simp only [isDigit, Bool.and_eq_true, decide_eq_true_eq, Fin.le_def]
  change 48 ≤ c.val.toNat ∧ c.val.toNat ≤ 57 at hc
  simp only [Char.toNat] at hval
  constructor <;> simp <;> omega

/-- A digit byte is neither of the signs `ParseInt` reads first. -/
theorem charByte_ne_sign {c : Char} (hc : c.isDigit) : charByte c ≠ 45 ∧ charByte c ≠ 43 := by
  have hval := charByte_val hc
  simp only [Char.isDigit, Bool.and_eq_true, decide_eq_true_eq] at hc
  change 48 ≤ c.toNat ∧ c.toNat ≤ 57 at hc
  constructor <;> intro h <;> rw [h] at hval <;> simp at hval <;> omega

theorem le_ofDigitChars (cs : List Char) (acc : Nat) : acc ≤ Nat.ofDigitChars 10 cs acc := by
  induction cs generalizing acc with
  | nil => simp
  | cons c cs ih =>
    rw [Nat.ofDigitChars_cons]
    exact le_trans (by omega) (ih _)

/-- The loop of `ParseUint` reads digits as `Nat.ofDigitChars` while the number fits in `uint64`. -/
theorem parseUintLoop_map_charByte (cs : List Char) (hd : ∀ c ∈ cs, c.isDigit) (acc : Nat)
    (h : Nat.ofDigitChars 10 cs acc < 2 ^ 64) :
    parseUintLoop (cs.map charByte) acc = .ok (Nat.ofDigitChars 10 cs acc) := by
  induction cs generalizing acc with
  | nil => rfl
  | cons c cs ih =>
    have hc : c.isDigit := hd c List.mem_cons_self
    have hval := charByte_val hc
    have hzero : '0'.toNat = 48 := rfl
    rw [Nat.ofDigitChars_cons, hzero] at h ⊢
    have hstep : acc * 10 + ((charByte c).val - 48) = 10 * acc + (c.toNat - 48) := by
      rw [hval]
      ring
    have hfit := le_ofDigitChars cs (10 * acc + (c.toNat - 48))
    rw [List.map_cons, parseUintLoop, if_neg (by simp [isDigit_charByte hc]),
      if_neg (by omega), hstep]
    exact ih (fun c' hc' => hd c' (List.mem_cons_of_mem c hc')) _ h

theorem parseUint10_toDigits {m : Nat} (hm : m < 2 ^ 64) :
    parseUint10 ((Nat.toDigits 10 m).map charByte) = (m.toUInt64, none) := by
  have hd : ∀ c ∈ Nat.toDigits 10 m, c.isDigit := fun c hc =>
    Nat.isDigit_of_mem_toDigits (by omega) (by omega) hc
  have hloop := parseUintLoop_map_charByte (Nat.toDigits 10 m) hd 0
  rw [Nat.ofDigitChars_toDigits (by omega) (by omega)] at hloop
  rw [parseUint10, if_neg (by simp [Nat.toDigits_ne_nil]), hloop hm]

theorem parseInt10_ofNat_toDigits {m : Nat} (hm : m < 2 ^ 63) :
    parseInt10 ((Nat.toDigits 10 m).map charByte) = (Int64.ofNat m, none) := by
  obtain ⟨d, ds, hds⟩ := List.exists_cons_of_ne_nil (Nat.toDigits_ne_nil (b := 10) (n := m))
  have hd : d.isDigit := Nat.isDigit_of_mem_toDigits (by omega) (by omega) (hds ▸ List.mem_cons_self)
  obtain ⟨h45, h43⟩ := charByte_ne_sign hd
  have hu := parseUint10_toDigits (m := m) (by omega)
  have htoNat : m.toUInt64.toNat = m := by
    rw [Nat.toUInt64_eq, UInt64.toNat_ofNat', Nat.mod_eq_of_lt (by omega)]
  have hfits : ¬ 9223372036854775808 ≤ m := by omega
  rw [hds, List.map_cons] at hu ⊢
  simp only [parseInt10, reduceCtorEq, if_false, h45, h43, hu, htoNat]
  simp [hfits]

theorem parseInt10_negSucc_toDigits {m : Nat} (hm : m + 1 ≤ 2 ^ 63) :
    parseInt10 (45 :: (Nat.toDigits 10 (m + 1)).map charByte) =
      (-Int64.ofNat (m + 1), none) := by
  have hu := parseUint10_toDigits (m := m + 1) (by omega)
  have htoNat : (m + 1).toUInt64.toNat = m + 1 := by
    rw [Nat.toUInt64_eq, UInt64.toNat_ofNat', Nat.mod_eq_of_lt (by omega)]
  simp only [parseInt10, reduceCtorEq, if_false, if_true, hu, htoNat]
  simp
  omega

/-- `strconv.ParseInt` reads back every int64 `strconv.FormatInt` writes. -/
theorem parseInt10_formatInt (n : Int64) : parseInt10 (formatInt n.toInt) = (n, none) := by
  have hlo := Int64.le_toInt n
  have hhi := Int64.toInt_lt n
  generalize hi : n.toInt = i at hlo hhi
  cases i with
  | ofNat m =>
    rw [Int.ofNat_eq_natCast] at hi hhi
    rw [Int.ofNat_eq_natCast, formatInt_ofNat, parseInt10_ofNat_toDigits (by omega)]
    congr 1
    apply Int64.toInt_inj.mp
    rw [hi, Int64.toInt_ofNat_of_lt (by omega)]
  | negSucc m =>
    rw [formatInt_negSucc, parseInt10_negSucc_toDigits (by omega)]
    congr 1
    rw [← Int64.ofInt_toInt n, hi, ← Int64.ofInt_eq_ofNat, ← Int64.ofInt_neg]
    rfl

theorem formatInt_toInt_inj {a b : Int64} (h : formatInt a.toInt = formatInt b.toInt) : a = b := by
  have := congrArg parseInt10 h
  rw [parseInt10_formatInt, parseInt10_formatInt] at this
  exact (Prod.mk.inj this).1

end TinySql.Types
