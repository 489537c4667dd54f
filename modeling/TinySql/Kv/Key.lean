import TinySql.Codec.Key

/-!
# Key successors and point ranges

`kv/key.go`. `Next` appends a zero byte. `PrefixNext` (`prefixNext`, modelled with the key codec)
increments the last byte that is not `0xFF` and clears the bytes after it, and appends a zero byte
to a key of `0xFF` bytes only.

`KeyRange.IsPoint` tells without allocating whether the end of a range is one of the two
successors of its start. Of keys of different lengths it asks whether the end is `Next` of the
start. Of keys of one length it walks the bytes from the last: a `0xFF` of the start must face a
`0x00` of the end, the first other byte must face itself plus one, and the bytes before it must be
equal, which is what `PrefixNext` does to the start read from its last byte (`isPointLoop_iff`).
-/

namespace TinySql.Kv

open TinySql.Codec TinySql.Lib

/-- `Key.Next`. -/
def next (k : Key) : Key :=
  k ++ [0]

structure KeyRange where
  startKey : Key
  endKey : Key
  deriving DecidableEq, Repr

/-- The loop of `IsPoint` over the bytes of two keys of one length, last first. -/
def isPointLoop : List (Fin 256) → List (Fin 256) → Bool
  | s :: ss, e :: es =>
    if s ≠ 255 then s + 1 = e && ss == es
    else if e ≠ 0 then false
    else isPointLoop ss es
  -- every byte of the start is `0xFF`
  | _, _ => false

/-- `KeyRange.IsPoint`. -/
def KeyRange.isPoint (r : KeyRange) : Bool :=
  if r.startKey.length ≠ r.endKey.length then
    let startLen := r.startKey.length
    startLen + 1 = r.endKey.length && r.endKey[startLen]? == some 0 &&
      r.startKey == r.endKey.take startLen
  else isPointLoop r.startKey.reverse r.endKey.reverse

example : KeyRange.isPoint ⟨[1, 0xFF], [2, 0]⟩ = true := by decide
example : KeyRange.isPoint ⟨[0xFF], [0xFF, 0]⟩ = true := by decide

theorem length_of_incrementLast : ∀ {u w : List (Fin 256)}, incrementLast u = some w →
    w.length = u.length
  | [], _, h => by cases h
  | b :: bs, w, h => by
    rw [incrementLast] at h
    split_ifs at h
    · cases h
      rfl
    · obtain ⟨r, hr, rfl⟩ := Option.map_eq_some_iff.mp h
      simp [length_of_incrementLast hr]

/-- The walk of `IsPoint` over reversed keys of one length is the carry of `PrefixNext`. -/
theorem isPointLoop_iff : ∀ {u w : List (Fin 256)}, u.length = w.length →
    (isPointLoop u w = true ↔ incrementLast u = some w)
  | [], [], _ => by simp [isPointLoop, incrementLast]
  | [], _ :: _, h => by simp at h
  | _ :: _, [], h => by simp at h
  | s :: ss, e :: es, h => by
    have hlen : ss.length = es.length := by simpa using h
    -- a byte other than `0xFF` takes the carry; a `0xFF` wraps to zero and passes it on
    have hwrap : s + 1 ≠ 0 ↔ s ≠ 255 := by
      have := s.isLt
      rw [Ne, Ne, Fin.ext_iff, Fin.ext_iff, Fin.val_add]
      simp only [Fin.val_one, Fin.val_zero, Fin.isValue]
      omega
    rw [isPointLoop, incrementLast]
    by_cases hs : s = 255
    · have hcarry : ¬ s + 1 ≠ 0 := by rw [hs]; decide
      rw [if_neg (not_not.mpr hs), if_neg hcarry]
      by_cases he : e = 0
      · rw [if_neg (not_not.mpr he), isPointLoop_iff hlen, he]
        constructor
        · intro h
          rw [h]
          rfl
        · intro h
          obtain ⟨r, hr, hre⟩ := Option.map_eq_some_iff.mp h
          cases hre
          exact hr
      · rw [if_pos he]
        simp only [Bool.false_eq_true, false_iff]
        intro h
        obtain ⟨r, -, hre⟩ := Option.map_eq_some_iff.mp h
        exact he (List.cons.inj hre).1.symm
    · rw [if_pos hs, if_pos (hwrap.mpr hs)]
      simp only [Bool.and_eq_true, decide_eq_true_eq, beq_iff_eq, Option.some.injEq,
        List.cons.injEq]

theorem eq_append_zero_iff {s e : Key} :
    (s.length + 1 = e.length ∧ e[s.length]? = some 0 ∧ s = e.take s.length) ↔ e = s ++ [0] := by
  constructor
  · rintro ⟨hlen, hlast, htake⟩
    obtain ⟨x, hx⟩ : ∃ x, e.drop s.length = [x] :=
      List.length_eq_one_iff.mp (by rw [List.length_drop]; omega)
    have hx0 : x = 0 := by
      have h0 : (e.drop s.length)[0]? = some 0 := by
        rw [List.getElem?_drop]
        simpa using hlast
      rw [hx] at h0
      simpa using h0
    rw [← List.take_append_drop s.length e, ← htake, hx, hx0]
  · rintro rfl
    simp

/-- `IsPoint` holds exactly when the end of the range is `Next` or `PrefixNext` of its start. -/
theorem isPoint_iff (s e : Key) :
    KeyRange.isPoint ⟨s, e⟩ = true ↔ e = next s ∨ e = prefixNext s := by
  unfold KeyRange.isPoint
  by_cases hlen : s.length = e.length
  · -- one length: not `Next`, and `PrefixNext` when the start has a byte other than `0xFF`
    have hnext : e ≠ next s := fun h => by simp [h, next] at hlen
    rw [if_neg (not_not.mpr hlen), isPointLoop_iff (by simpa using hlen)]
    simp only [hnext, false_or, prefixNext]
    cases hinc : incrementLast s.reverse with
    | none =>
      simp only [reduceCtorEq, false_iff]
      rintro rfl
      simp at hlen
    | some r =>
      simp only [Option.some.injEq]
      exact ⟨fun h => by rw [h, List.reverse_reverse], fun h => by rw [h, List.reverse_reverse]⟩
  · -- other lengths: `Next`, which is also `PrefixNext` of a start of `0xFF` bytes
    have hprefix : e = prefixNext s → e = next s := by
      intro h
      unfold prefixNext at h
      split at h
      · rename_i r hr
        have := length_of_incrementLast hr
        rw [h] at hlen
        simp [this] at hlen
      · exact h
    rw [if_pos hlen]
    simp only [Bool.and_eq_true, decide_eq_true_eq, beq_iff_eq, and_assoc,
      eq_append_zero_iff]
    exact ⟨fun h => .inl h, fun h => h.elim id hprefix⟩

/-- Incrementing the last digit with carry adds one, unless every digit wraps. -/
theorem incrementLast_digitsLE (w : Nat) {n : Nat} (hn : n < 256 ^ w) :
    incrementLast (digitsLE w n) = if n + 1 < 256 ^ w then some (digitsLE w (n + 1)) else none := by
  induction w generalizing n with
  | zero => simp [digitsLE, incrementLast]
  | succ w ih =>
    have hpow : 256 ^ (w + 1) = 256 ^ w * 256 := pow_succ 256 w
    rw [digitsLE, incrementLast]
    by_cases hlow : n % 256 = 255
    · -- the last digit wraps and the carry goes on
      have hwrap : ¬ (Fin.ofNat 256 n + 1 ≠ 0) := by
        rw [not_not, Fin.ext_iff, Fin.val_add, Fin.val_ofNat, hlow]
        rfl
      rw [if_neg hwrap, ih (by rw [hpow] at hn; omega)]
      have hcarry : (n + 1) / 256 = n / 256 + 1 := by omega
      by_cases hfit : n / 256 + 1 < 256 ^ w
      · rw [if_pos hfit, if_pos (by omega), digitsLE, hcarry]
        have hzero : Fin.ofNat 256 (n + 1) = 0 := Fin.ext (by simp only [Fin.val_ofNat]; omega)
        rw [hzero]
        rfl
      · rw [if_neg hfit, if_neg (by omega)]
        rfl
    · have hnowrap : Fin.ofNat 256 n + 1 ≠ 0 := by
        rw [Ne, Fin.ext_iff, Fin.val_add, Fin.val_ofNat]
        simp only [Fin.val_one, Fin.val_zero]
        omega
      rw [if_pos hnowrap, if_pos (by omega), digitsLE, show (n + 1) / 256 = n / 256 by omega]
      congr 2
      exact Fin.ext (by simp only [Fin.val_add, Fin.val_ofNat, Fin.val_one]; omega)

/-- `PrefixNext` of eight big-endian bytes: the bytes of the next number, or a zero byte appended
to `0xFF` bytes. -/
theorem prefixNext_bigEndian (u : UInt64) :
    prefixNext (bigEndian u) =
      if u.toNat + 1 < 2 ^ 64 then bigEndian (u + 1) else bigEndian u ++ [0] := by
  have hu := u.toNat_lt
  rw [prefixNext, bigEndian_eq_digitsBE, reverse_digitsBE,
    incrementLast_digitsLE 8 (by simpa using hu), show (256 : Nat) ^ 8 = 2 ^ 64 by norm_num]
  split_ifs with h
  · dsimp only
    rw [← reverse_digitsBE, List.reverse_reverse, bigEndian_eq_digitsBE, UInt64.toNat_add,
      UInt64.toNat_one, Nat.mod_eq_of_lt h]
  · rfl

theorem toInt_add_one_of_ne_maxInt64 {x : Int64} (hx : x ≠ maxInt64) :
    (x + 1).toInt = x.toInt + 1 := by
  have hne : x.toInt ≠ 2 ^ 63 - 1 := fun h => hx (Int64.toInt_inj.mp (h.trans toInt_maxInt64.symm))
  have := x.toInt_lt
  have := x.le_toInt
  exact toInt_add_of_range (by simp; omega) (by simp; omega)

/-- `PrefixNext` of an encoded handle is the encoding of the next handle, and at `MaxInt64`, whose
encoding is all `0xFF`, the encoding with a zero byte appended. -/
theorem prefixNext_encodeInt (x : Int64) :
    prefixNext (encodeInt x) = if x = maxInt64 then encodeInt x ++ [0] else encodeInt (x + 1) := by
  have hx := toNat_encodeIntToCmpUint x
  rw [encodeInt, prefixNext_bigEndian]
  by_cases hmax : x = maxInt64
  · have hval : x.toInt = 2 ^ 63 - 1 := by rw [hmax, toInt_maxInt64]
    rw [if_neg (by omega), if_pos hmax]
  · have hsucc := toInt_add_one_of_ne_maxInt64 hmax
    have hnext := toNat_encodeIntToCmpUint (x + 1)
    have hlt : x.toInt + 1 < 2 ^ 63 := by
      have := (x + 1).toInt_lt
      omega
    rw [if_pos (by omega), if_neg hmax, encodeInt]
    congr 1
    apply UInt64.toNat_inj.mp
    rw [UInt64.toNat_add, UInt64.toNat_one, Nat.mod_eq_of_lt (by omega)]
    omega

theorem compare_encodeInt_prefixNext_eq_lt_iff (x y : Int64) :
    compare (encodeInt x) (prefixNext (encodeInt y)) = .lt ↔ x ≤ y := by
  rw [prefixNext_encodeInt]
  split_ifs with hmax
  · -- the end key of `MaxInt64` is its encoding and a zero byte, above every other encoding
    have hle : x ≤ y := hmax ▸ Int64.le_iff_toInt_le.mpr (by have := x.toInt_lt; simp; omega)
    have hcmp : compare x y ≠ .gt := by
      rwa [Ne, compare_eq_compare_toInt, compare_gt_iff_gt, not_lt, ← Int64.le_iff_toInt_le]
    rw [← List.append_nil (encodeInt x), compare_append_of_length_eq (by simp [encodeInt]),
      compare_encodeInt, iff_true_right hle]
    revert hcmp
    cases compare x y <;> simp [Ordering.then]
  · rw [compare_encodeInt, compare_eq_compare_toInt, toInt_add_one_of_ne_maxInt64 hmax,
      compare_lt_iff_lt, Int64.le_iff_toInt_le]
    omega

theorem compare_prefixNext_encodeInt_ne_gt_iff (x y : Int64) :
    compare (prefixNext (encodeInt x)) (encodeInt y) ≠ .gt ↔ x < y := by
  have hswap : compare (prefixNext (encodeInt x)) (encodeInt y) =
      (compare (encodeInt y) (prefixNext (encodeInt x))).swap := Std.OrientedCmp.eq_swap
  rw [hswap, Ne, Ordering.swap_eq_gt, compare_encodeInt_prefixNext_eq_lt_iff,
    Int64.lt_iff_toInt_lt, Int64.le_iff_toInt_le]
  omega

/-- The range `[StartKey, EndKey)` holds the key. -/
def KeyRange.Contains (r : KeyRange) (k : Key) : Prop :=
  compare r.startKey k ≠ .gt ∧ compare k r.endKey = .lt

instance (r : KeyRange) (k : Key) : Decidable (r.Contains k) :=
  inferInstanceAs (Decidable (_ ∧ _))

/-- Two ranges, the first ending where or before the second starts, share no key. -/
theorem KeyRange.not_contains_of_endKey_le {r s : KeyRange} (hle : compare r.endKey s.startKey ≠ .gt)
    (k : Key) : ¬ (r.Contains k ∧ s.Contains k) := by
  rintro ⟨⟨-, hr⟩, hs, -⟩
  have hend : compare k s.startKey = .lt := Std.TransCmp.lt_of_lt_of_le hr hle
  exact hs (Std.OrientedCmp.gt_iff_lt.mpr hend)

end TinySql.Kv
