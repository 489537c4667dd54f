import TinySql.Codec.Number

/-!
# Byte strings in keys and values

`util/codec/bytes.go`. `EncodeBytes` cuts a byte string into groups of eight, pads the last group
with zeros and ends every group with a marker, `0xFF` less the number of pad bytes. So a group
word compares as the bytes it holds (`compare_groupWord`), a group that ends the string sorts
below one that goes on, and the whole encoding compares as the byte strings do with whatever
follows it deciding a tie (`encodeBytes_encodesAt`): the comparable encoding of strings.
`EncodeCompactBytes` writes the length as a varint and then the bytes; it is not comparable.
-/

namespace TinySql.Codec

open TinySql.Lib

def encGroupSize : Nat := 8
def encMarker : Fin 256 := 0xFF
def encPad : Fin 256 := 0

/-- The groups of `EncodeBytes`: eight bytes and the marker `0xFF`, and last the remaining bytes
padded with zeros to eight and the marker less the number of pad bytes. `fuel` is the number of
groups, one more than there are full groups of eight. -/
def encodeGroups : Nat → List (Fin 256) → Key
  | 0, _ => []
  | n + 1, data =>
    if encGroupSize ≤ data.length then
      data.take encGroupSize ++ encMarker :: encodeGroups n (data.drop encGroupSize)
    else
      let padCount := encGroupSize - data.length
      data ++ List.replicate padCount encPad ++ [encMarker - Fin.ofNat 256 padCount]

/-- `EncodeBytes`. -/
def encodeBytes (data : List (Fin 256)) : Key :=
  encodeGroups (data.length / encGroupSize + 1) data

/-- The loop of `decodeBytes` (not reversed) over groups of nine bytes, appending to `buf`;
`fuel` bounds the groups read. -/
def decodeBytesLoop : Nat → List (Fin 256) → List (Fin 256) →
    Except String (List (Fin 256) × List (Fin 256))
  | 0, _, _ => .error errInsufficient
  | fuel + 1, b, buf =>
    if b.length < encGroupSize + 1 then .error errInsufficient
    else
      let group := b.take encGroupSize
      let marker := (b.drop encGroupSize).headD 0
      let padCount := encMarker - marker
      if padCount.val > encGroupSize then .error "invalid marker byte"
      else
        let realGroupSize := encGroupSize - padCount.val
        let buf := buf ++ group.take realGroupSize
        let b := b.drop (encGroupSize + 1)
        if padCount ≠ 0 then
          if (group.drop realGroupSize).all (· = encPad) then .ok (b, buf)
          else .error "invalid padding byte"
        else decodeBytesLoop fuel b buf

/-- `DecodeBytes`: what follows the string, and the string. -/
def decodeBytes (b : List (Fin 256)) : Except String (List (Fin 256) × List (Fin 256)) :=
  decodeBytesLoop b.length b []

/-- `EncodeCompactBytes`. -/
def encodeCompactBytes (data : List (Fin 256)) : Key :=
  encodeVarint (Int64.ofNat data.length) ++ data

/-- `DecodeCompactBytes`; a negative length makes the slicing of the code panic. -/
def decodeCompactBytes (b : List (Fin 256)) : Except String (List (Fin 256) × List (Fin 256)) := do
  let (b, n) ← decodeVarint b
  if (b.length : Int) < n.toInt then .error "insufficient bytes to decode value, expected length"
  else if n < 0 then .error "runtime error: slice bounds out of range"
  else .ok (b.drop n.toInt.toNat, b.take n.toInt.toNat)

/-! ### Groups -/

/-- The nine bytes of a group holding `u`, at most eight bytes. -/
def groupWord (u : List (Fin 256)) : Key :=
  u ++ List.replicate (encGroupSize - u.length) encPad ++
    [encMarker - Fin.ofNat 256 (encGroupSize - u.length)]

@[simp] theorem length_groupWord {u : List (Fin 256)} (hu : u.length ≤ encGroupSize) :
    (groupWord u).length = encGroupSize + 1 := by
  simp only [groupWord, List.length_append, List.length_replicate, List.length_singleton]
  omega

theorem encodeGroups_succ (n : Nat) (data : List (Fin 256)) :
    encodeGroups (n + 1) data =
      if encGroupSize ≤ data.length then
        groupWord (data.take encGroupSize) ++ encodeGroups n (data.drop encGroupSize)
      else groupWord data := by
  rw [encodeGroups]
  split_ifs with h
  · have htake : (data.take encGroupSize).length = encGroupSize := by simp [h]
    simp [groupWord, htake, encMarker]
  · rfl

/-- Zeros sort first among byte strings of one length. -/
theorem compare_replicate_zero (w : List (Fin 256)) :
    compare (List.replicate w.length 0) w =
      if w = List.replicate w.length 0 then .eq else .lt := by
  induction w with
  | nil => rfl
  | cons b w ih =>
    rw [List.length_cons, List.replicate_succ, List.compare_cons_cons, ih]
    by_cases hb : b = 0
    · subst hb
      simp
    · have hlt : compare (0 : Fin 256) b = .lt := by
        change compare 0 b.val = .lt
        exact Nat.compare_eq_lt.mpr (Nat.pos_of_ne_zero (fun h => hb (Fin.ext h)))
      simp [hlt, hb]

/-- Padded words ending in a marker that grows with the length compare as the unpadded ones. -/
theorem compare_padded {n : Nat} {u v : List (Fin 256)} (hu : u.length ≤ n) (hv : v.length ≤ n)
    (m : Nat → Fin 256) (hm : ∀ i j, i ≤ n → j ≤ n → compare (m i) (m j) = compare i j) :
    compare (u ++ List.replicate (n - u.length) 0 ++ [m u.length])
      (v ++ List.replicate (n - v.length) 0 ++ [m v.length]) = compare u v := by
  induction u generalizing v n m with
  | nil =>
    cases v with
    | nil => simp
    | cons b v =>
      -- the zeros tie with or sort below the bytes of `v`, and the marker decides
      set w := b :: v ++ List.replicate (n - (b :: v).length) 0 with hw
      have hlen : w.length = n := by simp [hw] at hv ⊢; omega
      have hmark : compare (m 0) (m (b :: v).length) = .lt := by
        rw [hm _ _ (by omega) hv]
        exact Nat.compare_eq_lt.mpr (by simp)
      have hzero := compare_replicate_zero w
      rw [hlen] at hzero
      simp only [List.nil_append, List.length_nil, Nat.sub_zero]
      rw [compare_append_of_length_eq (by simp [hlen]), List.compare_cons_cons, hmark, hzero]
      split_ifs <;> rfl
  | cons a u ih =>
    cases v with
    | nil =>
      set w := a :: u ++ List.replicate (n - (a :: u).length) 0 with hw
      have hlen : w.length = n := by simp [hw] at hu ⊢; omega
      have hmark : compare (m (a :: u).length) (m 0) = .gt := by
        rw [hm _ _ hu (by omega)]
        exact Nat.compare_eq_gt.mpr (by simp)
      have hzero := compare_replicate_zero w
      rw [hlen] at hzero
      have hswap : compare w (List.replicate n 0) = (compare (List.replicate n 0) w).swap :=
        Std.OrientedCmp.eq_swap
      simp only [List.nil_append, List.length_nil, Nat.sub_zero]
      rw [compare_append_of_length_eq (by simp [hlen]), List.compare_cons_cons, hmark, hswap, hzero]
      split_ifs <;> rfl
    | cons b v =>
      obtain ⟨n, rfl⟩ : ∃ n', n = n' + 1 := ⟨n - 1, by simp at hu; omega⟩
      have htail := ih (n := n) (v := v) (by simpa using hu) (by simpa using hv) (fun i => m (i + 1))
        (fun i j hi hj => by
          rw [hm _ _ (by omega) (by omega), Nat.add_comm i, Nat.add_comm j, compare_add_left_cancel])
      simp only [List.length_cons, List.cons_append, Nat.add_sub_add_right] at htail ⊢
      rw [List.compare_cons_cons, List.compare_cons_cons, htail]

/-- A group word compares as the bytes it holds. -/
theorem compare_groupWord {u v : List (Fin 256)} (hu : u.length ≤ encGroupSize)
    (hv : v.length ≤ encGroupSize) : compare (groupWord u) (groupWord v) = compare u v := by
  refine compare_padded (m := fun k => encMarker - Fin.ofNat 256 (encGroupSize - k)) hu hv ?_
  intro i j hi hj
  change compare (encMarker - Fin.ofNat 256 (encGroupSize - i)).val
    (encMarker - Fin.ofNat 256 (encGroupSize - j)).val = compare i j
  have hmark : ∀ k ≤ encGroupSize, (encMarker - Fin.ofNat 256 (encGroupSize - k)).val = 247 + k := by
    intro k hk
    simp only [encMarker, encGroupSize, Fin.sub_def, Fin.val_ofNat] at hk ⊢
    omega
  rw [hmark i hi, hmark j hj, compare_add_left_cancel]

/-! ### The comparable encoding -/

theorem encodeBytes_eq (a : List (Fin 256)) :
    encodeBytes a =
      if encGroupSize ≤ a.length then
        groupWord (a.take encGroupSize) ++ encodeBytes (a.drop encGroupSize)
      else groupWord a := by
  rw [encodeBytes, encodeGroups_succ]
  split_ifs with h
  · rw [encodeBytes, List.length_drop]
    congr 3
    simp only [encGroupSize] at h ⊢
    omega
  · rfl

/-- One group of each string decides the order unless both go on with equal full groups, in
which case the rest does. -/
theorem encodeBytes_encodesAt_of_tail {a b : List (Fin 256)}
    (htail : encGroupSize ≤ a.length → encGroupSize ≤ b.length →
      EncodesAt encodeBytes compare (a.drop encGroupSize) (b.drop encGroupSize)) :
    EncodesAt encodeBytes compare a b := by
  intro s t
  have htake : ∀ l : List (Fin 256), encGroupSize ≤ l.length → (l.take encGroupSize).length = encGroupSize :=
    fun l hl => by simp [hl]
  -- a word of a full group and the last, shorter, group of the other string differ
  have hne : ∀ {u v : List (Fin 256)}, u.length ≠ v.length → compare u v ≠ .eq :=
    fun h heq => h (congrArg List.length (Std.compare_eq_iff_eq.mp heq))
  rw [encodeBytes_eq a, encodeBytes_eq b]
  by_cases ha : encGroupSize ≤ a.length <;> by_cases hb : encGroupSize ≤ b.length
  · -- both strings go on past a full group
    rw [if_pos ha, if_pos hb, List.append_assoc, List.append_assoc,
      compare_append_of_length_eq (by rw [length_groupWord (htake a ha).le,
        length_groupWord (htake b hb).le]),
      compare_groupWord (htake a ha).le (htake b hb).le, htail ha hb, ← Ordering.then_assoc,
      ← compare_append_of_length_eq ((htake a ha).trans (htake b hb).symm),
      List.take_append_drop, List.take_append_drop]
  · -- `b` ends within the first group
    have hlen : (a.take encGroupSize).length ≠ b.length := by rw [htake a ha]; omega
    have hab : compare a b = compare (a.take encGroupSize) b := by
      conv_lhs => rw [← List.take_append_drop encGroupSize a]
      exact compare_append_of_ne_eq (by rw [htake a ha]; omega) (hne hlen) _
    rw [if_pos ha, if_neg hb, List.append_assoc,
      compare_append_of_length_eq (by rw [length_groupWord (htake a ha).le,
        length_groupWord (by omega)]),
      compare_groupWord (htake a ha).le (by omega), then_of_ne_eq (hne hlen), hab,
      then_of_ne_eq (hne hlen)]
  · -- `a` ends within the first group
    have hlen : a.length ≠ (b.take encGroupSize).length := by rw [htake b hb]; omega
    have hab : compare a b = compare a (b.take encGroupSize) := by
      conv_lhs => rw [← List.take_append_drop encGroupSize b]
      exact compare_append_right_of_ne_eq (by rw [htake b hb]; omega) (hne hlen) _
    rw [if_neg ha, if_pos hb, List.append_assoc,
      compare_append_of_length_eq (by rw [length_groupWord (by omega),
        length_groupWord (htake b hb).le]),
      compare_groupWord (by omega) (htake b hb).le, then_of_ne_eq (hne hlen), hab,
      then_of_ne_eq (hne hlen)]
  · -- both strings end within the first group
    rw [if_neg ha, if_neg hb,
      compare_append_of_length_eq (by rw [length_groupWord (by omega), length_groupWord (by omega)]),
      compare_groupWord (by omega) (by omega)]

/-- `EncodeBytes` is a comparable encoding: the encoding of a string and whatever follows it
compare as the strings do, and as what follows does when the strings are equal. -/
theorem encodeBytes_encodesAt (a b : List (Fin 256)) : EncodesAt encodeBytes compare a b := by
  -- induction on the number of full groups of `a`
  suffices h : ∀ n (a b : List (Fin 256)), a.length ≤ encGroupSize * n →
      EncodesAt encodeBytes compare a b from h a.length a b (by simp [encGroupSize]; omega)
  intro n
  induction n with
  | zero =>
    intro a b ha
    have ha0 : a.length = 0 := by simpa using ha
    exact encodeBytes_encodesAt_of_tail fun h _ => absurd h (by rw [ha0]; decide)
  | succ n ih =>
    intro a b ha
    exact encodeBytes_encodesAt_of_tail fun _ _ =>
      ih _ _ (by rw [List.length_drop]; simp only [encGroupSize] at ha ⊢; omega)

/-! ### Decoding what was encoded -/

theorem groupWord_append (u r : List (Fin 256)) :
    groupWord u ++ r = (u ++ List.replicate (encGroupSize - u.length) encPad) ++
      (encMarker - Fin.ofNat 256 (encGroupSize - u.length)) :: r := by
  simp [groupWord]

theorem decodeBytesLoop_groupWord (fuel : Nat) {u : List (Fin 256)} (hu : u.length ≤ encGroupSize)
    (r buf : List (Fin 256)) :
    decodeBytesLoop (fuel + 1) (groupWord u ++ r) buf =
      if u.length = encGroupSize then decodeBytesLoop fuel r (buf ++ u) else .ok (r, buf ++ u) := by
  set group := u ++ List.replicate (encGroupSize - u.length) encPad with hgroup
  set padCount := encMarker - (encMarker - Fin.ofNat 256 (encGroupSize - u.length)) with hpadCount
  have hlen : group.length = encGroupSize := by simp [hgroup]; omega
  have hpad : padCount.val = encGroupSize - u.length := by
    simp only [hpadCount, Fin.sub_def, Fin.val_ofNat, encMarker, encGroupSize] at hu ⊢
    omega
  have hsize : encGroupSize - padCount.val = u.length := by omega
  have hrest : (group ++ (encMarker - Fin.ofNat 256 (encGroupSize - u.length)) :: r).drop
      (encGroupSize + 1) = r := by
    rw [List.drop_append, hlen, List.drop_eq_nil_of_le (by omega), List.nil_append,
      show encGroupSize + 1 - encGroupSize = 1 by omega]
    rfl
  have htake : group.take u.length = u := by simp [hgroup]
  have hzeros : (group.drop u.length).all (· = encPad) = true := by simp [hgroup]
  rw [groupWord_append, decodeBytesLoop, if_neg (by simp; omega), List.take_left' hlen,
    List.drop_left' hlen, List.headD_cons]
  simp only
  rw [if_neg (by omega), hsize, hrest, htake]
  by_cases h : u.length = encGroupSize
  · have hzero : padCount = 0 := Fin.ext (by rw [hpad, h, Nat.sub_self]; rfl)
    rw [if_neg (not_not.mpr hzero), if_pos h]
  · have hzero : padCount ≠ 0 := fun h0 => h (by
      have := congrArg Fin.val h0
      rw [hpad] at this
      simp only [Fin.val_zero] at this
      omega)
    rw [if_pos hzero, if_pos hzeros, if_neg h]

theorem length_encodeBytes (data : List (Fin 256)) :
    (encodeBytes data).length = (data.length / encGroupSize + 1) * (encGroupSize + 1) := by
  induction hn : data.length / encGroupSize generalizing data with
  | zero =>
    have hlt : data.length < encGroupSize := by simp only [encGroupSize] at hn ⊢; omega
    rw [encodeBytes_eq, if_neg (by omega), length_groupWord hlt.le, Nat.zero_add, Nat.one_mul]
  | succ n ih =>
    have hge : encGroupSize ≤ data.length := by simp only [encGroupSize] at hn ⊢; omega
    have htake : (data.take encGroupSize).length = encGroupSize := by simp [hge]
    rw [encodeBytes_eq, if_pos hge, List.length_append, length_groupWord htake.le,
      ih (data.drop encGroupSize) (by rw [List.length_drop]; simp only [encGroupSize] at hn ⊢; omega)]
    ring

theorem decodeBytesLoop_encodeBytes {fuel : Nat} {data : List (Fin 256)}
    (hfuel : data.length / encGroupSize < fuel) (rest buf : List (Fin 256)) :
    decodeBytesLoop fuel (encodeBytes data ++ rest) buf = .ok (rest, buf ++ data) := by
  induction fuel generalizing data buf with
  | zero => exact absurd hfuel (Nat.not_lt_zero _)
  | succ fuel ih =>
    rw [encodeBytes_eq data]
    split_ifs with h
    · have htake : (data.take encGroupSize).length = encGroupSize := by simp [h]
      rw [List.append_assoc, decodeBytesLoop_groupWord fuel htake.le, if_pos htake,
        ih (by rw [List.length_drop]; simp only [encGroupSize] at hfuel h ⊢; omega),
        List.append_assoc, List.take_append_drop]
    · rw [decodeBytesLoop_groupWord fuel (by omega), if_neg (by omega)]

theorem decodeBytes_encodeBytes (data rest : List (Fin 256)) :
    decodeBytes (encodeBytes data ++ rest) = .ok (rest, data) := by
  rw [decodeBytes, decodeBytesLoop_encodeBytes]
  · rfl
  · rw [List.length_append, length_encodeBytes]
    simp only [encGroupSize]
    omega

/-! ### The descending code

`EncodeBytesDesc` inverts every bit of the ascending code (`reverseBytes`). `decodeBytes` with
`reverse` set reads a group of the inverted code as the plain loop reads the group it inverts: the
marker is then the number of pad bytes and the pad byte is `0xFF`, and the bytes read are inverted
back at the end. -/

/-- `reverseBytes`: every bit inverted. -/
def reverseBytes (b : List (Fin 256)) : List (Fin 256) :=
  b.map fun x => 0xFF - x

/-- `EncodeBytesDesc`. -/
def encodeBytesDesc (data : List (Fin 256)) : Key :=
  reverseBytes (encodeBytes data)

/-- The loop of `decodeBytes` with its `reverse` flag. -/
def decodeGroupsLoop (reverse : Bool) : Nat → List (Fin 256) → List (Fin 256) →
    Except String (List (Fin 256) × List (Fin 256))
  | 0, _, _ => .error errInsufficient
  | fuel + 1, b, buf =>
    if b.length < encGroupSize + 1 then .error errInsufficient
    else
      let group := b.take encGroupSize
      let marker := (b.drop encGroupSize).headD 0
      let padCount := if reverse then marker else encMarker - marker
      if padCount.val > encGroupSize then .error "invalid marker byte"
      else
        let realGroupSize := encGroupSize - padCount.val
        let buf := buf ++ group.take realGroupSize
        let b := b.drop (encGroupSize + 1)
        if padCount ≠ 0 then
          let padByte := if reverse then encMarker else encPad
          if (group.drop realGroupSize).all (· = padByte) then .ok (b, buf)
          else .error "invalid padding byte"
        else decodeGroupsLoop reverse fuel b buf

/-- `decodeBytes` with its `reverse` flag. -/
def decodeBytesRev (b : List (Fin 256)) (reverse : Bool) :
    Except String (List (Fin 256) × List (Fin 256)) := do
  let (b, buf) ← decodeGroupsLoop reverse b.length b []
  return (b, if reverse then reverseBytes buf else buf)

/-- `DecodeBytesDesc`. -/
def decodeBytesDesc (b : List (Fin 256)) : Except String (List (Fin 256) × List (Fin 256)) :=
  decodeBytesRev b true

@[simp] theorem complement_complement (x : Fin 256) : 0xFF - (0xFF - x) = x := by
  simp

theorem compare_complement (a b : Fin 256) : compare (0xFF - a) (0xFF - b) = compare b a := by
  have hval : ∀ x : Fin 256, (0xFF - x : Fin 256).val = 255 - x.val := by
    intro x
    have := x.isLt
    rw [Fin.sub_def]
    simp
    omega
  change compare (0xFF - a).val (0xFF - b).val = compare b.val a.val
  rw [hval a, hval b]
  have := a.isLt
  have := b.isLt
  rcases lt_trichotomy a.val b.val with h | h | h
  · rw [compare_gt_iff_gt.mpr (by omega), compare_gt_iff_gt.mpr h]
  · rw [h, compare_eq_iff_eq.mpr rfl, compare_eq_iff_eq.mpr rfl]
  · rw [compare_lt_iff_lt.mpr (by omega), compare_lt_iff_lt.mpr h]

@[simp] theorem reverseBytes_reverseBytes (b : List (Fin 256)) :
    reverseBytes (reverseBytes b) = b := by
  simp [reverseBytes]

@[simp] theorem length_reverseBytes (b : List (Fin 256)) : (reverseBytes b).length = b.length :=
  List.length_map _

@[simp] theorem reverseBytes_append (b c : List (Fin 256)) :
    reverseBytes (b ++ c) = reverseBytes b ++ reverseBytes c :=
  List.map_append

theorem take_reverseBytes (n : Nat) (b : List (Fin 256)) :
    (reverseBytes b).take n = reverseBytes (b.take n) :=
  (List.map_take ..).symm

theorem drop_reverseBytes (n : Nat) (b : List (Fin 256)) :
    (reverseBytes b).drop n = reverseBytes (b.drop n) :=
  (List.map_drop ..).symm

/-- Inverted pad bytes are `0xFF` bytes. -/
theorem all_reverseBytes_encMarker (g : List (Fin 256)) :
    ((reverseBytes g).all fun x => x = encMarker) = g.all fun x => x = encPad := by
  simp only [reverseBytes, List.all_map, Function.comp_def]
  congr 1
  funext x
  simp only [decide_eq_decide]
  constructor
  · intro h
    rw [← complement_complement x, h]
    rfl
  · rintro rfl
    rfl

theorem decodeBytesLoop_eq (fuel : Nat) (b buf : List (Fin 256)) :
    decodeBytesLoop fuel b buf = decodeGroupsLoop false fuel b buf := by
  induction fuel generalizing b buf with
  | zero => rfl
  | succ fuel ih =>
    simp only [decodeBytesLoop, decodeGroupsLoop, Bool.false_eq_true, if_false, ih]

/-- The reversed loop over inverted bytes is the plain loop, with what it returns inverted. -/
theorem decodeGroupsLoop_reverseBytes (fuel : Nat) (b buf : List (Fin 256)) :
    decodeGroupsLoop true fuel (reverseBytes b) (reverseBytes buf) =
      (decodeGroupsLoop false fuel b buf).map fun p => (reverseBytes p.1, reverseBytes p.2) := by
  induction fuel generalizing b buf with
  | zero => rfl
  | succ fuel ih =>
    by_cases hlen : b.length < encGroupSize + 1
    · simp [decodeGroupsLoop, hlen, Except.map]
    -- the inverted marker is the number of pad bytes, so both loops compute one `padCount`
    obtain ⟨m, rest, hm⟩ : ∃ m rest, b.drop encGroupSize = m :: rest :=
      List.exists_cons_of_ne_nil (by simp [List.drop_eq_nil_iff]; omega)
    have hmarker : (reverseBytes (m :: rest)).headD 0 = encMarker - m := rfl
    simp only [decodeGroupsLoop, length_reverseBytes, if_neg hlen, if_true, Bool.false_eq_true,
      if_false, hmarker, hm, List.headD_cons, take_reverseBytes, drop_reverseBytes,
      ← reverseBytes_append, all_reverseBytes_encMarker, ih]
    split_ifs <;> rfl

/-- `DecodeBytesDesc` reads back what `EncodeBytesDesc` wrote, whatever follows it. -/
theorem decodeBytesDesc_encodeBytesDesc (data rest : List (Fin 256)) :
    decodeBytesDesc (encodeBytesDesc data ++ rest) = .ok (rest, data) := by
  have hcode : encodeBytesDesc data ++ rest = reverseBytes (encodeBytes data ++ reverseBytes rest) := by
    simp [encodeBytesDesc, reverseBytes]
  have hfuel : data.length / encGroupSize < (encodeBytes data ++ reverseBytes rest).length := by
    rw [List.length_append, length_encodeBytes]
    simp only [encGroupSize]
    omega
  have hplain := decodeBytesLoop_encodeBytes hfuel (reverseBytes rest) []
  rw [decodeBytesLoop_eq] at hplain
  have hrev := decodeGroupsLoop_reverseBytes (encodeBytes data ++ reverseBytes rest).length
    (encodeBytes data ++ reverseBytes rest) []
  rw [hplain] at hrev
  rw [decodeBytesDesc, decodeBytesRev, hcode, length_reverseBytes]
  change (decodeGroupsLoop true _ _ (reverseBytes [])) >>= _ = _
  rw [hrev]
  simp [Except.map, bind, Except.bind, pure, Except.pure]

/-- A code of `EncodeBytes` is never a proper prefix of another: what would follow it is read
back as the rest. -/
theorem encodeBytes_prefix {a b : List (Fin 256)} (h : encodeBytes a <+: encodeBytes b) :
    encodeBytes a = encodeBytes b := by
  obtain ⟨r, hr⟩ := h
  have ha := decodeBytes_encodeBytes a r
  have hb := decodeBytes_encodeBytes b []
  rw [hr] at ha
  rw [List.append_nil, ha] at hb
  obtain ⟨rfl, -⟩ := Prod.mk.inj (Except.ok.inj hb)
  rw [← hr, List.append_nil]

theorem compare_encodeBytesDesc (a b : List (Fin 256)) :
    compare (encodeBytesDesc a) (encodeBytesDesc b) = (compare a b).swap := by
  rw [encodeBytesDesc, encodeBytesDesc, reverseBytes, reverseBytes,
    compare_map_of_swap compare_complement encodeBytes_prefix encodeBytes_prefix,
    (encodeBytes_encodesAt b a).compare_eq]
  exact Std.OrientedCmp.eq_swap

/-- Both codes read back what they wrote, `EncodeBytes` keeps the order of byte strings and
`EncodeBytesDesc` reverses it, and no code is a proper prefix of another. -/
theorem encodeBytes_spec :
    (∀ a r : List (Fin 256), decodeBytes (encodeBytes a ++ r) = .ok (r, a) ∧
      decodeBytesDesc (encodeBytesDesc a ++ r) = .ok (r, a)) ∧
    (∀ a b : List (Fin 256), compare (encodeBytes a) (encodeBytes b) = compare a b ∧
      compare (encodeBytesDesc a) (encodeBytesDesc b) = (compare a b).swap) ∧
    ∀ a b : List (Fin 256), encodeBytes a <+: encodeBytes b → encodeBytes a = encodeBytes b := by
  refine ⟨fun a r => ⟨decodeBytes_encodeBytes a r, decodeBytesDesc_encodeBytesDesc a r⟩,
    fun a b => ⟨(encodeBytes_encodesAt a b).compare_eq, compare_encodeBytesDesc a b⟩, ?_⟩
  intro a b
  exact encodeBytes_prefix

/-- `DecodeCompactBytes` reads back what `EncodeCompactBytes` wrote, for a string whose length is
an `int`. -/
theorem decodeCompactBytes_encodeCompactBytes {data : List (Fin 256)} (hlen : data.length < 2 ^ 63)
    (rest : List (Fin 256)) :
    decodeCompactBytes (encodeCompactBytes data ++ rest) = .ok (rest, data) := by
  have hn : (Int64.ofNat data.length).toInt = data.length := Int64.toInt_ofNat_of_lt hlen
  have hnonneg : ¬ Int64.ofNat data.length < 0 := by
    rw [Int64.lt_iff_toInt_lt, hn, Int64.toInt_zero]
    omega
  rw [decodeCompactBytes, encodeCompactBytes, List.append_assoc, decodeVarint_encodeVarint]
  simp only [bind, Except.bind, hn, List.length_append, hnonneg, if_false, Int.toNat_natCast,
    List.drop_left, List.take_left]
  rw [if_neg (by omega)]

end TinySql.Codec
