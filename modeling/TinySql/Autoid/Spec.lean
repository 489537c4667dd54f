import TinySql.Autoid.Allocator

/-!
# What one call of the allocator does

An allocator compares ids as `int64` or, for an unsigned column, as `uint64`; `key` is that
reading of an id as an integer. Read through `key`, and from an allocator whose cache lies in
`[0, g]`, every call is one of a few moves on the segment `(base, end]` and the global end `g`:
`AllocSpec` and `RebaseSpec` list them. The overflow guards of the source are what make each sum
below exact: no id wraps around. The rest of the development reaches the calls only through
`alloc_spec` and `rebase_spec`.
-/

namespace TinySql.Autoid

open TinySql.Lib

/-- An id as the allocator orders it. -/
def key (isUnsigned : Bool) (x : Int64) : Int :=
  if isUnsigned then x.toUInt64.toNat else x.toInt

/-- The largest id of the column's range. -/
def maxKey (isUnsigned : Bool) : Int :=
  if isUnsigned then 2 ^ 64 - 1 else 2 ^ 63 - 1

@[simp] theorem key_false (x : Int64) : key false x = x.toInt := rfl

@[simp] theorem key_true (x : Int64) : key true x = x.toUInt64.toNat := rfl

theorem key_le_maxKey (u : Bool) (x : Int64) : key u x ≤ maxKey u := by
  cases u
  · simpa [maxKey] using Int.le_sub_one_of_lt x.toInt_lt
  · simpa [maxKey] using Int.le_sub_one_of_lt (Int.ofNat_lt.mpr x.toUInt64.toNat_lt)

/-- The cache of `a` lies in `[0, g]`, as it does on every run. -/
structure Fits (g : Int64) (a : Allocator) : Prop where
  base_nonneg : 0 ≤ key a.isUnsigned a.base
  base_le_end : key a.isUnsigned a.base ≤ key a.isUnsigned a.end
  end_le_global : key a.isUnsigned a.end ≤ key a.isUnsigned g

/-- The moves of `Alloc(n)`: a failure that leaves the cache alone, `n` ids from the bottom of the
cache, or `n` ids from the bottom of a new segment `(g, g']`. -/
inductive AllocSpec (g : Int64) (a : Allocator) (n : Nat) : Outcome (Int64 × Int64) → Prop
  | fail (e : AutoidError) (s : Int64) : AllocSpec g a n ⟨.error e, { a with step := s }, g⟩
  | cached (m : Int64) (hroom : key a.isUnsigned a.base + n ≤ key a.isUnsigned a.end)
      (hm : key a.isUnsigned m = key a.isUnsigned a.base + n) :
      AllocSpec g a n ⟨.ok (a.base, m), { a with base := m }, g⟩
  | refill (m g' s : Int64) (hshort : key a.isUnsigned a.end < key a.isUnsigned a.base + n)
      (hm : key a.isUnsigned m = key a.isUnsigned g + n)
      (hg' : key a.isUnsigned m ≤ key a.isUnsigned g') :
      AllocSpec g a n ⟨.ok (g, m), { a with base := m, «end» := g', step := s }, g'⟩

theorem AllocSpec.isUnsigned_eq {g : Int64} {a : Allocator} {n : Nat} {o : Outcome (Int64 × Int64)}
    (h : AllocSpec g a n o) : o.alloc.isUnsigned = a.isUnsigned := by
  cases h <;> rfl

/-! ### `alloc4Signed` -/

theorem alloc4Signed_spec {g : Int64} {a : Allocator} {n : UInt64} (res : Int64)
    (hu : a.isUnsigned = false) (hfit : Fits g a) (hn : 1 ≤ n.toNat) (hn' : n.toNat < 2 ^ 63) :
    AllocSpec g a n.toNat (alloc4Signed g a n res) := by
  obtain ⟨hbase, hend, hglobal⟩ := hfit
  simp only [hu, key_false] at hbase hend hglobal ⊢
  have hN : n.toInt64.toInt = n.toNat := toInt_toInt64 n hn'
  have hg := g.toInt_lt
  -- the room left below `MaxInt64`, exact since the ids are not negative
  have hroom : (maxInt64 - a.base).toInt = 2 ^ 63 - 1 - a.base.toInt := by
    rw [toInt_sub_of_range] <;> simp <;> omega
  have hgroom : (maxInt64 - g).toInt = 2 ^ 63 - 1 - g.toInt := by
    rw [toInt_sub_of_range] <;> simp <;> omega
  have hsum : ¬maxInt64 - a.base ≤ n.toInt64 →
      (a.base + n.toInt64).toInt = a.base.toInt + n.toNat := by
    rw [Int64.le_iff_toInt_le, hroom, hN]
    intro h1
    rw [toInt_add_of_range] <;> omega
  unfold alloc4Signed
  dsimp only
  -- the new step is whatever `NextStep` and the size of the request make it
  generalize (if nextStep res ≤ n.toInt64 then min (n.toInt64 * 2) maxStep else nextStep res) = s
  split_ifs with h1 h2 h3 h4
  · exact AllocSpec.fail _ a.step
  · exact AllocSpec.fail _ _
  all_goals
    -- the segment `GetAutoTableID` and `GenAutoTableID` reserve: `tmp` ids from `g`
    have htmp : (min (maxInt64 - g) s).toInt ≤ 2 ^ 63 - 1 - g.toInt := by
      rw [toInt_min, hgroom]
      exact Int.min_le_left _ _
  · -- `GetAutoTableID` read `MaxInt64`: no room is left, so the step test above failed already
    rw [Int64.lt_iff_toInt_lt, hN] at h3
    rw [beq_iff_eq] at h4
    subst h4
    simp only [toInt_maxInt64] at htmp
    omega
  · rw [Int64.lt_iff_toInt_lt, hN] at h3
    rw [gt_iff_lt, Int64.lt_iff_toInt_lt, hsum h1] at h2
    -- the new segment holds at least `n` ids and ends below `MaxInt64`
    have hend' : (g + min (maxInt64 - g) s).toInt = g.toInt + (min (maxInt64 - g) s).toInt := by
      rw [toInt_add_of_range] <;> omega
    have hm : (g + n.toInt64).toInt = g.toInt + n.toNat := by
      rw [toInt_add_of_range] <;> omega
    refine AllocSpec.refill _ _ _ ?_ ?_ ?_ <;> simp only [hu, key_false] <;> omega
  · have hm := hsum h1
    rw [gt_iff_lt, Int64.lt_iff_toInt_lt, hm] at h2
    refine AllocSpec.cached _ ?_ ?_ <;> simp only [hu, key_false] <;> omega

/-! ### `alloc4Unsigned` -/


theorem alloc4Unsigned_spec {g : Int64} {a : Allocator} {n : UInt64} (res : Int64)
    (hu : a.isUnsigned = true) (hfit : Fits g a) (hn : 1 ≤ n.toNat) (hn' : n.toNat < 2 ^ 63) :
    AllocSpec g a n.toNat (alloc4Unsigned g a n res) := by
  obtain ⟨-, hend, hglobal⟩ := hfit
  simp only [hu, key_true, Int.ofNat_le] at hend hglobal ⊢
  have hN : n.toInt64.toInt = n.toNat := toInt_toInt64 n hn'
  have hB := a.base.toUInt64.toNat_lt
  have hG := g.toUInt64.toNat_lt
  -- the room left below `MaxUint64`
  have hroom : (maxUint64 - a.base.toUInt64).toNat = 2 ^ 64 - 1 - a.base.toUInt64.toNat := by
    rw [UInt64.toNat_sub_of_le _ _ (UInt64.le_iff_toNat_le.mpr (by simp; omega))]
    simp
  have hgroom : (maxUint64 - g.toUInt64).toNat = 2 ^ 64 - 1 - g.toUInt64.toNat := by
    rw [UInt64.toNat_sub_of_le _ _ (UInt64.le_iff_toNat_le.mpr (by simp; omega))]
    simp
  have hsum : ¬maxUint64 - a.base.toUInt64 ≤ n →
      (a.base.toUInt64 + n).toNat = a.base.toUInt64.toNat + n.toNat := by
    rw [UInt64.le_iff_toNat_le, hroom]
    intro h1
    exact toNat_add_of_lt (by omega)
  unfold alloc4Unsigned
  dsimp only
  generalize (if nextStep res ≤ n.toInt64 then min (n.toInt64 * 2) maxStep else nextStep res) = s
  split_ifs with h1 h2 h3 h4
  · exact AllocSpec.fail _ a.step
  · exact AllocSpec.fail _ _
  all_goals
    -- the segment `GetAutoTableID` and `GenAutoTableID` reserve: `tmp` ids from `g`
    have htmp : (min (maxUint64 - g.toUInt64) s.toUInt64).toNat ≤ 2 ^ 64 - 1 - g.toUInt64.toNat := by
      rw [toNat_min, hgroom]
      exact Nat.min_le_left _ _
  · -- `GetAutoTableID` read `MaxUint64`: no room is left, so the step test above failed already
    rw [Int64.lt_iff_toInt_lt, hN] at h3
    have htmp' : (min (maxUint64 - g.toUInt64) s.toUInt64).toInt64.toInt =
        (min (maxUint64 - g.toUInt64) s.toUInt64).toNat := toInt_toInt64_of_pos (by omega)
    have hGmax : g.toUInt64.toNat = 2 ^ 64 - 1 := by rw [beq_iff_eq.mp h4, toNat_maxUint64]
    omega
  · rw [Int64.lt_iff_toInt_lt, hN] at h3
    have htmp' : (min (maxUint64 - g.toUInt64) s.toUInt64).toInt64.toInt =
        (min (maxUint64 - g.toUInt64) s.toUInt64).toNat := toInt_toInt64_of_pos (by omega)
    have hm := hsum h1
    rw [gt_iff_lt, UInt64.lt_iff_toNat_lt, hm] at h2
    -- the new segment holds at least `n` ids and ends below `MaxUint64`
    have hend' : (g + (min (maxUint64 - g.toUInt64) s.toUInt64).toInt64).toUInt64.toNat =
        g.toUInt64.toNat + (min (maxUint64 - g.toUInt64) s.toUInt64).toNat := by
      rw [Int64.toUInt64_add, UInt64.toUInt64_toInt64]
      exact toNat_add_of_lt (by omega)
    have hm' : (g.toUInt64 + n).toNat = g.toUInt64.toNat + n.toNat := toNat_add_of_lt (by omega)
    refine AllocSpec.refill _ _ _ ?_ ?_ ?_ <;>
      simp only [hu, key_true, UInt64.toUInt64_toInt64, hend', hm'] <;> omega
  · have hm := hsum h1
    rw [gt_iff_lt, UInt64.lt_iff_toNat_lt, hm] at h2
    refine AllocSpec.cached _ ?_ ?_ <;> simp only [hu, key_true, UInt64.toUInt64_toInt64, hm] <;>
      omega

/-! ### `Rebase` -/

/-- The moves of `Rebase` to `rb`: fail without a change, keep a cache already above `rb`, move
`base` up inside the cache, take a new segment `(b, e]` above `g` and make `e` the global end, or
push the global end to `t` with an empty cache. Every successful move leaves `base` at or above
`rb`. -/
inductive RebaseSpec (g : Int64) (a : Allocator) (rb : Int) : Outcome Unit → Prop
  | fail (e : AutoidError) : RebaseSpec g a rb ⟨.error e, a, g⟩
  | keep (h : rb ≤ key a.isUnsigned a.base) : RebaseSpec g a rb ⟨.ok (), a, g⟩
  | advance (b : Int64) (h1 : key a.isUnsigned a.base ≤ key a.isUnsigned b)
      (h2 : key a.isUnsigned b ≤ key a.isUnsigned a.end) (hb : rb ≤ key a.isUnsigned b) :
      RebaseSpec g a rb ⟨.ok (), { a with base := b }, g⟩
  | reserve (b e : Int64) (h1 : key a.isUnsigned g ≤ key a.isUnsigned b)
      (h2 : key a.isUnsigned b ≤ key a.isUnsigned e) (hb : rb ≤ key a.isUnsigned b) :
      RebaseSpec g a rb ⟨.ok (), { a with base := b, «end» := e }, e⟩
  | skip (t : Int64) (h : key a.isUnsigned g ≤ key a.isUnsigned t) (hb : rb ≤ key a.isUnsigned t) :
      RebaseSpec g a rb ⟨.ok (), { a with base := t, «end» := t }, t⟩

theorem RebaseSpec.isUnsigned_eq {g : Int64} {a : Allocator} {rb : Int} {o : Outcome Unit}
    (h : RebaseSpec g a rb o) : o.alloc.isUnsigned = a.isUnsigned := by
  cases h <;> rfl

/-- A successful `Rebase` leaves `base` at or above `rb`. -/
theorem RebaseSpec.le_base {g : Int64} {a : Allocator} {rb : Int} {o : Outcome Unit}
    (h : RebaseSpec g a rb o) (hok : o.result = .ok ()) : rb ≤ key a.isUnsigned o.alloc.base := by
  cases h with
  | fail e => cases hok
  | keep h => exact h
  | advance b _ _ hb => exact hb
  | reserve b e _ _ hb => exact hb
  | skip t _ hb => exact hb

/-- The end of the segment `rebase4Signed` reserves with `allocIDs` is not below its base, for any
step: a negative step, left by an earlier `Alloc` whose `n1 * 2` wrapped, makes it `MaxInt64`. -/
theorem le_rebase4Signed_newEnd (nb s : Int64) (hnb : 0 ≤ nb.toInt) :
    nb.toInt ≤ (min (maxInt64 - s) nb + s).toInt := by
  have h1 := s.toInt_lt
  have h2 := s.le_toInt
  have h3 := nb.toInt_lt
  simp only [Int64.toInt_add, Int64.toInt_sub, toInt_min, toInt_maxInt64, Int.bmod_def]
  split_ifs <;> omega

theorem rebase4Signed_spec {g : Int64} {a : Allocator} (requiredBase : Int64) (allocIDs : Bool)
    (hu : a.isUnsigned = false) (hfit : Fits g a) :
    RebaseSpec g a requiredBase.toInt (rebase4Signed g a requiredBase allocIDs) := by
  obtain ⟨hbase, hend, hglobal⟩ := hfit
  simp only [hu, key_false] at hbase hend hglobal
  unfold rebase4Signed
  dsimp only
  split_ifs with h1 h2 h3 h4
  · exact RebaseSpec.keep (by simpa [hu, Int64.le_iff_toInt_le] using h1)
  all_goals rw [Int64.le_iff_toInt_le] at h1
  · rw [Int64.le_iff_toInt_le] at h2
    exact RebaseSpec.advance _ (by simp [hu]; omega) (by simpa [hu] using h2) (by simp [hu])
  all_goals rw [Int64.le_iff_toInt_le] at h2
  · -- `GenAutoTableID` by `newEnd - currentEnd` leaves the global end at `newEnd`
    rw [int64_add_sub_cancel]
    have hmax := toInt_max g requiredBase
    have hnb : 0 ≤ (max g requiredBase).toInt := by rw [hmax]; omega
    have hnewEnd := le_rebase4Signed_newEnd _ a.step hnb
    refine RebaseSpec.reserve _ _ ?_ ?_ ?_ <;> simp only [hu, key_false]
    · rw [hmax]; omega
    · exact hnewEnd
    · rw [hmax]; omega
  all_goals rw [ge_iff_le, Int64.le_iff_toInt_le] at h4
  · exact RebaseSpec.skip g (by simp) (by simpa [hu] using h4)
  · rw [int64_add_sub_cancel]
    exact RebaseSpec.skip _ (by simp [hu]; omega) (by simp [hu])

/-- `rebase4Unsigned`'s new segment ends at or above its base: the sum is cut at `MaxUint64`. -/
theorem le_rebase4Unsigned_newEnd (nb s : UInt64) :
    nb.toNat ≤ (min (maxUint64 - s) nb + s).toNat := by
  have hs := s.toNat_lt
  have hroom : (maxUint64 - s).toNat = 2 ^ 64 - 1 - s.toNat := by
    rw [UInt64.toNat_sub_of_le _ _ (UInt64.le_iff_toNat_le.mpr (by simp; omega))]
    simp
  have hmin : (min (maxUint64 - s) nb).toNat = min (2 ^ 64 - 1 - s.toNat) nb.toNat := by
    rw [toNat_min, hroom]
  have hnb := nb.toNat_lt
  have hle : (min (maxUint64 - s) nb).toNat ≤ 2 ^ 64 - 1 - s.toNat := by
    rw [hmin]
    exact Nat.min_le_left _ _
  rw [toNat_add_of_lt (by omega), hmin]
  rcases Nat.le_total (2 ^ 64 - 1 - s.toNat) nb.toNat with h | h
  · rw [Nat.min_eq_left h]
    omega
  · rw [Nat.min_eq_right h]
    omega

theorem rebase4Unsigned_spec {g : Int64} {a : Allocator} (requiredBase : UInt64)
    (allocIDs : Bool) (hu : a.isUnsigned = true) (hfit : Fits g a) :
    RebaseSpec g a requiredBase.toNat (rebase4Unsigned g a requiredBase allocIDs) := by
  obtain ⟨-, hend, hglobal⟩ := hfit
  simp only [hu, key_true, Int.ofNat_le] at hend hglobal
  unfold rebase4Unsigned
  dsimp only
  split_ifs with h1 h2 h3 h4
  · exact RebaseSpec.keep (by simpa [hu, UInt64.le_iff_toNat_le] using h1)
  all_goals rw [UInt64.le_iff_toNat_le] at h1
  · rw [UInt64.le_iff_toNat_le] at h2
    exact RebaseSpec.advance _ (by simp [hu]; omega) (by simpa [hu] using h2) (by simp [hu])
  all_goals rw [UInt64.le_iff_toNat_le] at h2
  · -- `GenAutoTableID` by `newEnd - currentEnd` leaves the global end at `newEnd`
    rw [add_toInt64_sub]
    have hmax := toNat_max g.toUInt64 requiredBase
    have hnewEnd := le_rebase4Unsigned_newEnd (max g.toUInt64 requiredBase) a.step.toUInt64
    refine RebaseSpec.reserve _ _ ?_ ?_ ?_ <;>
      simp only [hu, key_true, UInt64.toUInt64_toInt64, Int.ofNat_le]
    · rw [hmax]; omega
    · exact hnewEnd
    · rw [hmax]; omega
  all_goals rw [ge_iff_le, UInt64.le_iff_toNat_le] at h4
  · have hg : g.toUInt64.toInt64 = g := by simp
    rw [hg]
    exact RebaseSpec.skip g (by simp) (by simpa [hu] using h4)
  · rw [add_toInt64_sub]
    exact RebaseSpec.skip _ (by simp [hu]; omega) (by simp [hu])

/-! ### The calls -/

theorem alloc_spec {g : Int64} {a : Allocator} (tableID : Int64) {n : UInt64} (res : Int64)
    (hfit : Fits g a) (hn : 1 ≤ n.toNat) (hn' : n.toNat < 2 ^ 63) :
    AllocSpec g a n.toNat (a.alloc g tableID n res) := by
  have hn0 : (n == 0) = false := by
    rw [beq_eq_false_iff_ne]
    rintro rfl
    simp at hn
  unfold Allocator.alloc
  by_cases htable : tableID = 0
  · simp only [htable, BEq.rfl, if_true]
    exact AllocSpec.fail _ a.step
  simp only [beq_false_of_ne htable, hn0, Bool.false_eq_true, if_false]
  cases hu : a.isUnsigned
  · rw [if_neg Bool.false_ne_true]
    exact alloc4Signed_spec res hu hfit hn hn'
  · rw [if_pos rfl]
    exact alloc4Unsigned_spec res hu hfit hn hn'

theorem rebase_spec {g : Int64} {a : Allocator} (tableID requiredBase : Int64) (allocIDs : Bool)
    (hfit : Fits g a) :
    RebaseSpec g a (key a.isUnsigned requiredBase) (a.rebase g tableID requiredBase allocIDs) := by
  unfold Allocator.rebase
  by_cases htable : tableID = 0
  · simp only [htable, BEq.rfl, if_true]
    exact RebaseSpec.fail _
  simp only [beq_false_of_ne htable, Bool.false_eq_true, if_false]
  cases hu : a.isUnsigned
  · rw [if_neg Bool.false_ne_true]
    exact rebase4Signed_spec requiredBase allocIDs hu hfit
  · rw [if_pos rfl]
    exact rebase4Unsigned_spec requiredBase.toUInt64 allocIDs hu hfit

/-! ### When `Alloc` succeeds -/

theorem nextStep_mem (res : Int64) :
    30000 ≤ (nextStep res).toInt ∧ (nextStep res).toInt ≤ 2000000 := by
  have hmin : minStep.toInt = 30000 := rfl
  have hmax : maxStep.toInt = 2000000 := rfl
  unfold nextStep
  split_ifs with h1 h2
  · simp [hmin]
  · simp [hmax]
  · rw [Int64.lt_iff_toInt_lt, hmin] at h1
    rw [gt_iff_lt, Int64.lt_iff_toInt_lt, hmax] at h2
    omega

/-- A request of at most `maxStep` ids makes the new step at least as large as the request, and
never larger than `maxStep`. -/
theorem allocStep_mem (res : Int64) {n : UInt64} (hn : 1 ≤ n.toNat) (hstep : n.toNat ≤ 2000000) :
    (n.toNat : Int) ≤ (if nextStep res ≤ n.toInt64 then min (n.toInt64 * 2) maxStep
      else nextStep res).toInt ∧
    (if nextStep res ≤ n.toInt64 then min (n.toInt64 * 2) maxStep else nextStep res).toInt ≤
      2000000 := by
  have hN : n.toInt64.toInt = n.toNat := toInt_toInt64 n (by omega)
  have hmax : maxStep.toInt = 2000000 := rfl
  obtain ⟨hlo, hhi⟩ := nextStep_mem res
  split_ifs with h
  · -- the request doubled, which cannot wrap for so small a request
    have hdouble : (n.toInt64 * 2).toInt = 2 * n.toNat := by
      have htwo : (2 : Int64).toInt = 2 := rfl
      rw [Int64.toInt_mul, hN, htwo, Int.bmod_eq_of_le] <;> omega
    rw [toInt_min, hdouble, hmax]
    omega
  · rw [Int64.le_iff_toInt_le, hN] at h
    omega

theorem alloc4Signed_ok {g : Int64} {a : Allocator} {n : UInt64} (res : Int64)
    (hu : a.isUnsigned = false) (hfit : Fits g a) (hn : 1 ≤ n.toNat) (hstep : n.toNat ≤ 2000000)
    (hroom : key a.isUnsigned g + n.toNat < maxKey a.isUnsigned) :
    ∃ r a' g', alloc4Signed g a n res = ⟨.ok r, a', g'⟩ := by
  obtain ⟨hbase, hend, hglobal⟩ := hfit
  simp only [hu, key_false, maxKey, Bool.false_eq_true, if_false] at hbase hend hglobal hroom
  have hN : n.toInt64.toInt = n.toNat := toInt_toInt64 n (by omega)
  have hbroom : (maxInt64 - a.base).toInt = 2 ^ 63 - 1 - a.base.toInt := by
    rw [toInt_sub_of_range] <;> simp <;> omega
  have hgroom : (maxInt64 - g).toInt = 2 ^ 63 - 1 - g.toInt := by
    rw [toInt_sub_of_range] <;> simp <;> omega
  obtain ⟨hs1, hs2⟩ := allocStep_mem res hn hstep
  unfold alloc4Signed
  dsimp only
  generalize (if nextStep res ≤ n.toInt64 then min (n.toInt64 * 2) maxStep else nextStep res) = s
    at hs1 hs2
  split_ifs with h1 h2 h3 h4
  · -- more than `n` ids are left above the global end, hence above `base`
    rw [Int64.le_iff_toInt_le, hbroom, hN] at h1
    omega
  · -- the step covers the request and the room above `g` does too
    rw [Int64.lt_iff_toInt_lt, toInt_min, hgroom, hN] at h3
    omega
  · have hg : g.toInt = 2 ^ 63 - 1 := by rw [beq_iff_eq.mp h4, toInt_maxInt64]
    omega
  all_goals exact ⟨_, _, _, rfl⟩

theorem alloc4Unsigned_ok {g : Int64} {a : Allocator} {n : UInt64} (res : Int64)
    (hu : a.isUnsigned = true) (hfit : Fits g a) (hn : 1 ≤ n.toNat) (hstep : n.toNat ≤ 2000000)
    (hroom : key a.isUnsigned g + n.toNat < maxKey a.isUnsigned) :
    ∃ r a' g', alloc4Unsigned g a n res = ⟨.ok r, a', g'⟩ := by
  obtain ⟨-, hend, hglobal⟩ := hfit
  simp only [hu, key_true, maxKey, if_true, Int.ofNat_le] at hend hglobal hroom
  have hN : n.toInt64.toInt = n.toNat := toInt_toInt64 n (by omega)
  have hbroom : (maxUint64 - a.base.toUInt64).toNat = 2 ^ 64 - 1 - a.base.toUInt64.toNat := by
    rw [UInt64.toNat_sub_of_le _ _ (UInt64.le_iff_toNat_le.mpr (by simp; omega))]
    simp
  have hgroom : (maxUint64 - g.toUInt64).toNat = 2 ^ 64 - 1 - g.toUInt64.toNat := by
    rw [UInt64.toNat_sub_of_le _ _ (UInt64.le_iff_toNat_le.mpr (by simp; omega))]
    simp
  obtain ⟨hs1, hs2⟩ := allocStep_mem res hn hstep
  unfold alloc4Unsigned
  dsimp only
  generalize (if nextStep res ≤ n.toInt64 then min (n.toInt64 * 2) maxStep else nextStep res) = s
    at hs1 hs2
  -- a positive step reads the same as `uint64`
  have hs : (s.toUInt64.toNat : Int) = s.toInt := by
    have hlt := s.toUInt64.toNat_lt
    have hpos : s.toUInt64.toNat < 2 ^ 63 := by
      rw [toInt_eq_toNat s] at hs1
      split_ifs at hs1 <;> omega
    rw [toInt_eq_toNat s, if_pos hpos]
  split_ifs with h1 h2 h3 h4
  · rw [UInt64.le_iff_toNat_le, hbroom] at h1
    omega
  · have hmin : (min (maxUint64 - g.toUInt64) s.toUInt64).toNat =
        min (2 ^ 64 - 1 - g.toUInt64.toNat) s.toUInt64.toNat := by rw [toNat_min, hgroom]
    have hsmall : (min (maxUint64 - g.toUInt64) s.toUInt64).toNat < 2 ^ 63 := by
      rw [hmin]
      omega
    rw [Int64.lt_iff_toInt_lt, toInt_toInt64 _ hsmall, hmin, hN] at h3
    omega
  · have hg : g.toUInt64.toNat = 2 ^ 64 - 1 := by rw [beq_iff_eq.mp h4, toNat_maxUint64]
    omega
  all_goals exact ⟨_, _, _, rfl⟩

/-- `Alloc(n)` succeeds when `n` is at most `maxStep` and more than `n` ids are left above the
global end. -/
theorem alloc_ok {g : Int64} {a : Allocator} {tableID : Int64} {n : UInt64} (res : Int64)
    (htable : tableID ≠ 0) (hfit : Fits g a) (hn : 1 ≤ n.toNat) (hstep : n.toNat ≤ 2000000)
    (hroom : key a.isUnsigned g + n.toNat < maxKey a.isUnsigned) :
    ∃ r, (a.alloc g tableID n res).result = .ok r := by
  have hn0 : (n == 0) = false := by
    rw [beq_eq_false_iff_ne]
    rintro rfl
    simp at hn
  unfold Allocator.alloc
  simp only [beq_false_of_ne htable, hn0, Bool.false_eq_true, if_false]
  cases hu : a.isUnsigned
  · rw [if_neg Bool.false_ne_true]
    obtain ⟨r, a', g', h⟩ := alloc4Signed_ok res hu hfit hn hstep hroom
    exact ⟨r, by rw [h]⟩
  · rw [if_pos rfl]
    obtain ⟨r, a', g', h⟩ := alloc4Unsigned_ok res hu hfit hn hstep hroom
    exact ⟨r, by rw [h]⟩

end TinySql.Autoid
