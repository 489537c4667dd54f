import TinySql.Types.Datum
import TinySql.Lib.GoInt

/-!
# Enumerating a small range

`enumRangeValues` of `statistics/scalar.go`. The row-count estimates of a column or an index read a
range of at most nine integers value by value, and fall back to the histogram when it returns nil.
The number of values is computed by 64-bit subtraction, less one for each excluded end, and a wide
range gives nil. For signed values an overflow pre-check covers only the ranges across zero; the
others cannot overflow, as both ends have one sign.

A range whose two ends are one point, both excluded, is empty, but the signed count there is `-1`,
and `make` with a negative capacity panics (`enumRangeValues_int64`). The unsigned count wraps to a
huge number at that input instead and gives nil. Every other range of ordered ends gives nil or the
ascending list of exactly its integers.
-/

namespace TinySql.Statistics

open TinySql.Lib TinySql.Types

def maxNumStep : Nat := 10

def errMakesliceCapOutOfRange : String := "runtime error: makeslice: cap out of range"

/-- `enumRangeValues`. `none` is Go's nil slice, and the error is the panic of `make` with a
negative capacity. -/
def enumRangeValues (low high : Datum) (lowExclude highExclude : Bool) :
    Except String (Option (List Datum)) :=
  let exclude := lowExclude.toNat + highExclude.toNat
  -- different kinds, and kinds other than the two integers, give nil
  match low, high with
  | .int64 lowVal, .int64 highVal =>
    -- Overflow check.
    if lowVal ≤ 0 ∧ highVal ≥ 0 ∧
        (lowVal < -Int64.ofNat maxNumStep ∨ highVal > Int64.ofNat maxNumStep) then .ok none
    else
      let remaining := highVal - lowVal
      if remaining ≥ Int64.ofNat maxNumStep + 1 then .ok none
      else
        let remaining := remaining + 1 - Int64.ofNat exclude
        if remaining ≥ Int64.ofNat maxNumStep then .ok none
        else if remaining < 0 then .error errMakesliceCapOutOfRange
        else
          let startValue := if lowExclude then lowVal + 1 else lowVal
          .ok (some ((List.range remaining.toInt.toNat).map fun i => .int64 (startValue + i.toInt64)))
  | .uint64 lowVal, .uint64 highVal =>
    let remaining := highVal - lowVal
    if remaining ≥ UInt64.ofNat maxNumStep + 1 then .ok none
    else
      let remaining := remaining + 1 - UInt64.ofNat exclude
      if remaining ≥ UInt64.ofNat maxNumStep then .ok none
      else
        let startValue := if lowExclude then lowVal + 1 else lowVal
        .ok (some ((List.range remaining.toNat).map fun i => .uint64 (startValue + i.toUInt64)))
  | _, _ => .ok none

example : enumRangeValues (.int64 (-2)) (.int64 1) true false =
    .ok (some [.int64 (-1), .int64 0, .int64 1]) := by decide

/-! ### Arithmetic progressions of machine integers -/

section Progressions

theorem toInt_add_toInt64 {s : Int64} {i : Nat} (hi : i < 2 ^ 63) (hfit : s.toInt + i < 2 ^ 63) :
    (s + i.toInt64).toInt = s.toInt + i := by
  have hs := s.le_toInt
  have hcast : (i.toInt64).toInt = i := Int64.toInt_ofNat_of_lt (by omega)
  rw [toInt_add_of_range (by rw [hcast]; omega) (by rw [hcast]; omega), hcast]

/-- The `n` signed integers from `s` on, when they do not pass `MaxInt64`. -/
theorem mem_progression_int64_iff {s : Int64} {n : Nat} (hn : n ≤ 2 ^ 63)
    (hfit : s.toInt + n ≤ 2 ^ 63) (x : Int64) :
    x ∈ (List.range n).map (fun i => s + i.toInt64) ↔ s.toInt ≤ x.toInt ∧ x.toInt < s.toInt + n := by
  rw [List.mem_map]
  constructor
  · rintro ⟨i, hi, rfl⟩
    rw [List.mem_range] at hi
    rw [toInt_add_toInt64 (by omega) (by omega)]
    omega
  · rintro ⟨hlo, hhi⟩
    refine ⟨(x.toInt - s.toInt).toNat, List.mem_range.mpr (by omega), ?_⟩
    rw [← Int64.toInt_inj, toInt_add_toInt64 (by omega) (by omega)]
    omega

theorem pairwise_progression_int64 {s : Int64} {n : Nat} (hn : n ≤ 2 ^ 63)
    (hfit : s.toInt + n ≤ 2 ^ 63) :
    ((List.range n).map (fun i => s + i.toInt64)).Pairwise (· < ·) := by
  rw [List.pairwise_map]
  refine List.pairwise_lt_range.imp_of_mem ?_
  intro i j hi hj hij
  rw [List.mem_range] at hi hj
  rw [Int64.lt_iff_toInt_lt, toInt_add_toInt64 (by omega) (by omega), toInt_add_toInt64 (by omega) (by omega)]
  omega

theorem toNat_add_toUInt64 {s : UInt64} {i : Nat} (hfit : s.toNat + i < 2 ^ 64) :
    (s + i.toUInt64).toNat = s.toNat + i := by
  have hsize : UInt64.size = 2 ^ 64 := rfl
  rw [UInt64.toNat_add, UInt64.toNat_ofNat_of_lt' (by omega), Nat.mod_eq_of_lt hfit]

/-- The `n` unsigned integers from `s` on, when they do not pass `MaxUint64`. -/
theorem mem_progression_uint64_iff {s : UInt64} {n : Nat} (hfit : s.toNat + n ≤ 2 ^ 64)
    (x : UInt64) :
    x ∈ (List.range n).map (fun i => s + i.toUInt64) ↔ s.toNat ≤ x.toNat ∧ x.toNat < s.toNat + n := by
  rw [List.mem_map]
  constructor
  · rintro ⟨i, hi, rfl⟩
    rw [List.mem_range] at hi
    rw [toNat_add_toUInt64 (by omega)]
    omega
  · rintro ⟨hlo, hhi⟩
    refine ⟨x.toNat - s.toNat, List.mem_range.mpr (by omega), ?_⟩
    rw [← UInt64.toNat_inj, toNat_add_toUInt64 (by omega)]
    omega

theorem pairwise_progression_uint64 {s : UInt64} {n : Nat} (hfit : s.toNat + n ≤ 2 ^ 64) :
    ((List.range n).map (fun i => s + i.toUInt64)).Pairwise (· < ·) := by
  rw [List.pairwise_map]
  refine List.pairwise_lt_range.imp_of_mem ?_
  intro i j hi hj hij
  rw [List.mem_range] at hi hj
  rw [UInt64.lt_iff_toNat_lt, toNat_add_toUInt64 (by omega), toNat_add_toUInt64 (by omega)]
  omega

end Progressions

/-! ### The signed branch -/

section Int64Branch

variable {lo hi : Int64} {lowExclude highExclude : Bool}

/-- The signed branch in integer arithmetic: below the overflow check no subtraction wraps, and the
count is `hi - lo + 1` less the excluded ends. -/
theorem enumRangeValues_int64_eq (hle : lo ≤ hi) :
    enumRangeValues (.int64 lo) (.int64 hi) lowExclude highExclude =
      if (lo.toInt ≤ 0 ∧ 0 ≤ hi.toInt ∧ (lo.toInt < -10 ∨ 10 < hi.toInt)) ∨
          11 ≤ hi.toInt - lo.toInt ∨
          10 ≤ hi.toInt - lo.toInt + 1 - (lowExclude.toNat + highExclude.toNat : Nat) then .ok none
      else if hi.toInt - lo.toInt + 1 - (lowExclude.toNat + highExclude.toNat : Nat) < 0 then
        .error errMakesliceCapOutOfRange
      else .ok (some ((List.range (hi.toInt - lo.toInt + 1 -
          (lowExclude.toNat + highExclude.toNat : Nat)).toNat).map
        fun i => .int64 ((if lowExclude then lo + 1 else lo) + i.toInt64))) := by
  have hL := lo.le_toInt
  have hH := hi.toInt_lt
  have hLH := Int64.le_iff_toInt_le.mp hle
  have he : lowExclude.toNat + highExclude.toNat ≤ 2 := by
    have := lowExclude.toNat_le
    have := highExclude.toNat_le
    omega
  have hexclude : (Int64.ofNat (lowExclude.toNat + highExclude.toNat)).toInt =
      (lowExclude.toNat + highExclude.toNat : Nat) := Int64.toInt_ofNat_of_lt (by omega)
  have hconst : (Int64.ofNat maxNumStep).toInt = 10 ∧ (-Int64.ofNat maxNumStep).toInt = -10 ∧
      (Int64.ofNat maxNumStep + 1).toInt = 11 ∧ (0 : Int64).toInt = 0 := ⟨rfl, rfl, rfl, rfl⟩
  obtain ⟨hten, hneg, heleven, hzero⟩ := hconst
  simp only [enumRangeValues, ge_iff_le, gt_iff_lt, Int64.le_iff_toInt_le, Int64.lt_iff_toInt_lt,
    hten, hneg, heleven, hzero]
  by_cases hcheck : lo.toInt ≤ 0 ∧ 0 ≤ hi.toInt ∧ (lo.toInt < -10 ∨ 10 < hi.toInt)
  · rw [if_pos hcheck, if_pos (Or.inl hcheck)]
  -- past the overflow check the difference is the integer one
  have hsub : (hi - lo).toInt = hi.toInt - lo.toInt :=
    toInt_sub_of_range (by omega) (by omega)
  rw [if_neg hcheck, hsub]
  by_cases hwider : 11 ≤ hi.toInt - lo.toInt
  · rw [if_pos hwider, if_pos (Or.inr (Or.inl hwider))]
  have hone : (hi - lo + 1).toInt = hi.toInt - lo.toInt + 1 := by
    rw [toInt_add_of_range (by rw [hsub]; simp; omega) (by rw [hsub]; simp; omega), hsub]
    rfl
  have hcount : (hi - lo + 1 - Int64.ofNat (lowExclude.toNat + highExclude.toNat)).toInt =
      hi.toInt - lo.toInt + 1 - (lowExclude.toNat + highExclude.toNat : Nat) := by
    rw [toInt_sub_of_range (by rw [hone, hexclude]; omega) (by rw [hone, hexclude]; omega),
      hone, hexclude]
  rw [if_neg hwider, hcount]
  simp only [hcheck, hwider, false_or]

theorem bounds_iff_toInt (x : Int64) :
    ((if lowExclude then lo < x else lo ≤ x) ∧ (if highExclude then x < hi else x ≤ hi)) ↔
      lo.toInt + lowExclude.toNat ≤ x.toInt ∧ x.toInt + highExclude.toNat ≤ hi.toInt := by
  rw [Int64.lt_iff_toInt_lt, Int64.le_iff_toInt_le, Int64.lt_iff_toInt_lt, Int64.le_iff_toInt_le]
  cases lowExclude <;> cases highExclude <;>
    simp only [Bool.false_eq_true, ↓reduceIte, Bool.toNat_true, Bool.toNat_false, Nat.cast_zero,
      Nat.cast_one, add_zero, Int.add_one_le_iff]

/-- Of ordered signed ends, `enumRangeValues` panics exactly at one point with both ends excluded,
and otherwise gives nil or the ascending integers of the range. -/
theorem enumRangeValues_int64 (hle : lo ≤ hi) :
    if lo = hi ∧ lowExclude = true ∧ highExclude = true then
      enumRangeValues (.int64 lo) (.int64 hi) lowExclude highExclude = .error errMakesliceCapOutOfRange
    else
      enumRangeValues (.int64 lo) (.int64 hi) lowExclude highExclude = .ok none ∨
      ∃ xs : List Int64,
        enumRangeValues (.int64 lo) (.int64 hi) lowExclude highExclude = .ok (some (xs.map .int64)) ∧
        xs.Pairwise (· < ·) ∧
        ∀ x, x ∈ xs ↔ (if lowExclude then lo < x else lo ≤ x) ∧ (if highExclude then x < hi else x ≤ hi) := by
  have hL := lo.le_toInt
  have hH := hi.toInt_lt
  have hLH := Int64.le_iff_toInt_le.mp hle
  have hbl := lowExclude.toNat_le
  have hbh := highExclude.toNat_le
  rw [enumRangeValues_int64_eq hle]
  set c : Int := hi.toInt - lo.toInt + 1 - (lowExclude.toNat + highExclude.toNat : Nat) with hc
  -- the count is negative only at one point with both ends excluded
  have hpoint : (lo = hi ∧ lowExclude = true ∧ highExclude = true) ↔ c < 0 := by
    constructor
    · rintro ⟨rfl, rfl, rfl⟩
      rw [hc, Bool.toNat_true]
      omega
    · intro hneg
      have hl : lowExclude.toNat = 1 := by omega
      have hh : highExclude.toNat = 1 := by omega
      exact ⟨Int64.toInt_inj.mp (by omega), Bool.toNat_eq_one.mp hl, Bool.toNat_eq_one.mp hh⟩
  by_cases hneg : c < 0
  · rw [if_pos (hpoint.mpr hneg), if_neg (by omega), if_pos hneg]
  rw [if_neg (mt hpoint.mp hneg)]
  by_cases hnone : (lo.toInt ≤ 0 ∧ 0 ≤ hi.toInt ∧ (lo.toInt < -10 ∨ 10 < hi.toInt)) ∨
      11 ≤ hi.toInt - lo.toInt ∨ 10 ≤ c
  · exact .inl (if_pos hnone)
  right
  rw [if_neg hnone, if_neg hneg]
  set start := if lowExclude then lo + 1 else lo with hstart
  -- `lo + 1` wraps only at `MaxInt64`, where nothing is enumerated
  have hfirst : c.toNat = 0 ∨ start.toInt = lo.toInt + lowExclude.toNat := by
    cases lowExclude
    · exact .inr (by simp [hstart])
    · by_cases hc0 : c ≤ 0
      · exact .inl (by omega)
      · refine .inr ?_
        simp only [Bool.toNat_true] at hc ⊢
        rw [hstart, if_pos rfl, toInt_add_of_range (by simp; omega) (by simp; omega)]
        rfl
  have hS := start.toInt_lt
  have hfit : start.toInt + c.toNat ≤ 2 ^ 63 := by omega
  refine ⟨(List.range c.toNat).map fun i => start + i.toInt64, by rw [List.map_map]; rfl,
    pairwise_progression_int64 (by omega) hfit, fun x => ?_⟩
  rw [mem_progression_int64_iff (by omega) hfit, bounds_iff_toInt]
  omega

end Int64Branch

/-! ### The unsigned branch -/

section Uint64Branch

variable {lo hi : UInt64} {lowExclude highExclude : Bool}

/-- The unsigned branch in natural numbers: the difference of ordered ends does not wrap, and the
count wraps, to a number far above ten, only when more ends are excluded than there are values. -/
theorem enumRangeValues_uint64_eq (hle : lo ≤ hi) :
    enumRangeValues (.uint64 lo) (.uint64 hi) lowExclude highExclude =
      if 11 ≤ hi.toNat - lo.toNat ∨
          hi.toNat - lo.toNat + 1 < lowExclude.toNat + highExclude.toNat ∨
          10 ≤ hi.toNat - lo.toNat + 1 - (lowExclude.toNat + highExclude.toNat) then .ok none
      else .ok (some ((List.range (hi.toNat - lo.toNat + 1 -
          (lowExclude.toNat + highExclude.toNat))).map
        fun i => .uint64 ((if lowExclude then lo + 1 else lo) + i.toUInt64))) := by
  have hLH := UInt64.le_iff_toNat_le.mp hle
  have hsize : UInt64.size = 2 ^ 64 := rfl
  have he : lowExclude.toNat + highExclude.toNat ≤ 2 := by
    have := lowExclude.toNat_le
    have := highExclude.toNat_le
    omega
  have hexclude : (UInt64.ofNat (lowExclude.toNat + highExclude.toNat)).toNat =
      lowExclude.toNat + highExclude.toNat := UInt64.toNat_ofNat_of_lt' (by omega)
  have hconst : (UInt64.ofNat maxNumStep).toNat = 10 ∧ (UInt64.ofNat maxNumStep + 1).toNat = 11 :=
    ⟨rfl, rfl⟩
  obtain ⟨hten, heleven⟩ := hconst
  have hsub : (hi - lo).toNat = hi.toNat - lo.toNat := UInt64.toNat_sub_of_le hi lo hle
  simp only [enumRangeValues, ge_iff_le, UInt64.le_iff_toNat_le, hten, heleven, hsub]
  by_cases hwider : 11 ≤ hi.toNat - lo.toNat
  · rw [if_pos hwider, if_pos (Or.inl hwider)]
  have hone : (hi - lo + 1).toNat = hi.toNat - lo.toNat + 1 := by
    rw [UInt64.toNat_add, hsub, UInt64.toNat_one, Nat.mod_eq_of_lt (by omega)]
  rw [if_neg hwider]
  by_cases hwrap : hi.toNat - lo.toNat + 1 < lowExclude.toNat + highExclude.toNat
  · -- one point with both ends excluded: `0 + 1 - 2` wraps to `MaxUint64`
    have hbig : 10 ≤ (hi - lo + 1 - UInt64.ofNat (lowExclude.toNat + highExclude.toNat)).toNat := by
      rw [UInt64.toNat_sub, hone, hexclude]
      omega
    rw [if_pos hbig, if_pos (Or.inr (Or.inl hwrap))]
  have hcount : (hi - lo + 1 - UInt64.ofNat (lowExclude.toNat + highExclude.toNat)).toNat =
      hi.toNat - lo.toNat + 1 - (lowExclude.toNat + highExclude.toNat) := by
    rw [UInt64.toNat_sub_of_le _ _ (UInt64.le_iff_toNat_le.mpr (by rw [hone, hexclude]; omega)),
      hone, hexclude]
  rw [hcount]
  simp only [hwider, hwrap, false_or]

theorem bounds_iff_toNat (x : UInt64) :
    ((if lowExclude then lo < x else lo ≤ x) ∧ (if highExclude then x < hi else x ≤ hi)) ↔
      lo.toNat + lowExclude.toNat ≤ x.toNat ∧ x.toNat + highExclude.toNat ≤ hi.toNat := by
  rw [UInt64.lt_iff_toNat_lt, UInt64.le_iff_toNat_le, UInt64.lt_iff_toNat_lt, UInt64.le_iff_toNat_le]
  cases lowExclude <;> cases highExclude <;>
    simp only [Bool.false_eq_true, ↓reduceIte, Bool.toNat_true, Bool.toNat_false, add_zero,
      Nat.add_one_le_iff]

/-- Of ordered unsigned ends, `enumRangeValues` never panics: it gives nil or the ascending
integers of the range. -/
theorem enumRangeValues_uint64 (hle : lo ≤ hi) :
    enumRangeValues (.uint64 lo) (.uint64 hi) lowExclude highExclude = .ok none ∨
    ∃ xs : List UInt64,
      enumRangeValues (.uint64 lo) (.uint64 hi) lowExclude highExclude = .ok (some (xs.map .uint64)) ∧
      xs.Pairwise (· < ·) ∧
      ∀ x, x ∈ xs ↔ (if lowExclude then lo < x else lo ≤ x) ∧ (if highExclude then x < hi else x ≤ hi) := by
  have hH := hi.toNat_lt
  have hLH := UInt64.le_iff_toNat_le.mp hle
  have hbl := lowExclude.toNat_le
  have hbh := highExclude.toNat_le
  rw [enumRangeValues_uint64_eq hle]
  by_cases hnone : 11 ≤ hi.toNat - lo.toNat ∨
      hi.toNat - lo.toNat + 1 < lowExclude.toNat + highExclude.toNat ∨
      10 ≤ hi.toNat - lo.toNat + 1 - (lowExclude.toNat + highExclude.toNat)
  · exact .inl (if_pos hnone)
  right
  rw [if_neg hnone]
  set n := hi.toNat - lo.toNat + 1 - (lowExclude.toNat + highExclude.toNat) with hn
  set start := if lowExclude then lo + 1 else lo with hstart
  -- `lo + 1` wraps only at `MaxUint64`, where nothing is enumerated
  have hfirst : n = 0 ∨ start.toNat = lo.toNat + lowExclude.toNat := by
    cases lowExclude
    · exact .inr (by simp [hstart])
    · by_cases hn0 : n = 0
      · exact .inl hn0
      · refine .inr ?_
        simp only [Bool.toNat_true] at hn ⊢
        rw [hstart, if_pos rfl, UInt64.toNat_add, UInt64.toNat_one, Nat.mod_eq_of_lt (by omega)]
  have hS := start.toNat_lt
  have hfit : start.toNat + n ≤ 2 ^ 64 := by omega
  refine ⟨(List.range n).map fun i => start + i.toUInt64, by rw [List.map_map]; rfl,
    pairwise_progression_uint64 hfit, fun x => ?_⟩
  rw [mem_progression_uint64_iff hfit, bounds_iff_toNat]
  omega

end Uint64Branch

end TinySql.Statistics
