import Mathlib

/-!
# Go slices

A Go slice is a window on a backing array: its first `len` elements, which it may grow into up to
the array's length, its capacity. Reslicing within the capacity (`s[:n]`) keeps the array, so the
elements past the old length come back with the values they had; `make([]T, n)` gives a fresh
array of zero values. `GoSlice.reuse` is the pattern that keeps a buffer across calls,

    if cap(s) >= n { s = s[:n] } else { s = make([]T, n) }

so what a reused buffer holds after it depends on what it held before. An index at or past the
length panics; the model answers `none` there, and `copyInto` is the loop
`for j := 0; j < n; j++ { dst[off + j] = f(src[j]) }` with its panics.
-/

namespace TinySql.Lib

/-- A slice of a backing array: the first `len` elements are the slice's, the rest of the array is
its spare capacity. -/
structure GoSlice (α : Type) where
  backing : List α
  len : Nat
  len_le : len ≤ backing.length

namespace GoSlice

variable {α β : Type}

/-- The nil slice. -/
def nil : GoSlice α := ⟨[], 0, le_rfl⟩

/-- A slice over exactly the elements of a list. -/
def ofList (l : List α) : GoSlice α := ⟨l, l.length, le_rfl⟩

/-- The elements of the slice. -/
def toList (s : GoSlice α) : List α := s.backing.take s.len

/-- `make([]T, n)`: `n` zero values. -/
def make [Inhabited α] (n : Nat) : GoSlice α := ⟨List.replicate n default, n, by simp⟩

/-- `s[:n]` when `n` fits the capacity, `make([]T, n)` otherwise. -/
def reuse [Inhabited α] (s : GoSlice α) (n : Nat) : GoSlice α :=
  if h : n ≤ s.backing.length then ⟨s.backing, n, h⟩ else make n

/-- `s[i]`; `none` is the panic of an index out of range. -/
def get? (s : GoSlice α) (i : Nat) : Option α :=
  if i < s.len then s.backing[i]? else none

/-- `s[i] = v`; `none` is the panic of an index out of range. -/
def set? (s : GoSlice α) (i : Nat) (v : α) : Option (GoSlice α) :=
  if i < s.len then some ⟨s.backing.set i v, s.len, by simpa using s.len_le⟩ else none

/-- One round of the copy loop: `dst[off + j] = f(src[j])`. -/
def copyStep (f : α → β) (src : GoSlice α) (off : Nat) (dst : GoSlice β) (j : Nat) :
    Option (GoSlice β) := do
  let v ← src.get? j
  dst.set? (off + j) (f v)

/-- `for j := 0; j < n; j++ { dst[off + j] = f(src[j]) }`. -/
def copyInto (f : α → β) (src : GoSlice α) (n off : Nat) (dst : GoSlice β) : Option (GoSlice β) :=
  (List.range n).foldlM (copyStep f src off) dst

@[simp] theorem length_toList (s : GoSlice α) : s.toList.length = s.len := by
  simp [toList, s.len_le]

@[simp] theorem toList_nil : (nil : GoSlice α).toList = [] := rfl

@[simp] theorem nil_len : (nil : GoSlice α).len = 0 := rfl

@[simp] theorem toList_ofList (l : List α) : (ofList l).toList = l := by
  simp [ofList, toList]

@[simp] theorem ofList_len (l : List α) : (ofList l).len = l.length := rfl

@[simp] theorem toList_make [Inhabited α] (n : Nat) :
    (make n : GoSlice α).toList = List.replicate n default := by
  simp [make, toList]

@[simp] theorem reuse_len [Inhabited α] (s : GoSlice α) (n : Nat) : (s.reuse n).len = n := by
  unfold reuse
  split <;> rfl

/-- A slice reused at no more than its length keeps its first elements. -/
theorem toList_reuse_of_le_len [Inhabited α] {s : GoSlice α} {n : Nat} (h : n ≤ s.len) :
    (s.reuse n).toList = s.toList.take n := by
  rw [reuse, dif_pos (h.trans s.len_le), toList, toList, List.take_take, Nat.min_eq_left h]

/-- The nil slice reused is a fresh one. -/
theorem nil_reuse [Inhabited α] (n : Nat) : (nil : GoSlice α).reuse n = make n := by
  cases n with
  | zero => rfl
  | succ n => rfl

theorem get?_eq_getElem? (s : GoSlice α) (i : Nat) : s.get? i = s.toList[i]? := by
  unfold get? toList
  split
  · rw [List.getElem?_take_of_lt ‹_›]
  · rw [List.getElem?_eq_none]
    simp
    omega

theorem set?_of_lt {s : GoSlice α} {i : Nat} (hi : i < s.len) (v : α) :
    ∃ s', s.set? i v = some s' ∧ s'.toList = s.toList.set i v ∧ s'.len = s.len := by
  refine ⟨_, if_pos hi, ?_, rfl⟩
  simp [toList, List.take_set]

theorem set?_eq_none {s : GoSlice α} {i : Nat} (hi : s.len ≤ i) (v : α) : s.set? i v = none :=
  if_neg (by omega)

theorem copyStep_of_lt (f : α → β) (src : GoSlice α) (dst : GoSlice β) {off j : Nat}
    (hsrc : j < src.toList.length) (hdst : off + j < dst.len) :
    ∃ dst', copyStep f src off dst j = some dst' ∧ dst'.len = dst.len ∧
      dst'.toList = dst.toList.set (off + j) (f src.toList[j]) := by
  obtain ⟨dst', hset, hl, hlen⟩ := set?_of_lt hdst (f src.toList[j])
  refine ⟨dst', ?_, hlen, hl⟩
  rw [copyStep, get?_eq_getElem?, List.getElem?_eq_getElem hsrc]
  exact hset

/-- While both slices hold the indices it reads and writes, the loop copies `f` of the source's
first `n` elements over the destination's from `off` on. -/
theorem copyInto_eq (f : α → β) (src : GoSlice α) (dst : GoSlice β) {n off : Nat}
    (hsrc : n ≤ src.len) (hdst : off + n ≤ dst.len) :
    ∃ dst', copyInto f src n off dst = some dst' ∧ dst'.len = dst.len ∧
      dst'.toList = dst.toList.take off ++ (src.toList.take n).map f ++ dst.toList.drop (off + n) := by
  induction n with
  | zero => exact ⟨dst, rfl, rfl, by simp⟩
  | succ k ih =>
    obtain ⟨d, hd, hlen, hl⟩ := ih (by omega) (by omega)
    obtain ⟨d', hd', hlen', hl'⟩ :=
      copyStep_of_lt f src d (show k < src.toList.length by simp; omega) (show off + k < d.len by omega)
    refine ⟨d', ?_, hlen'.trans hlen, ?_⟩
    · rw [copyInto, List.range_succ, List.foldlM_append, ← copyInto, hd]
      simpa using hd'
    · -- the round writes position `off + k`, the first one past the copied part
      have hk : off + k < dst.toList.length := by simp; omega
      have hsk : k < src.toList.length := by simp; omega
      have hlk : (dst.toList.take off ++ (src.toList.take k).map f).length = off + k := by
        simp; omega
      rw [hl', hl, List.set_append_right _ _ (by omega), hlk, Nat.sub_self,
        List.drop_eq_getElem_cons hk, List.set_cons_zero, List.take_add_one,
        List.getElem?_eq_getElem hsk]
      simp only [Option.toList_some, List.map_append, List.map_cons, List.map_nil, List.append_assoc,
        List.singleton_append, Nat.add_assoc]

/-- The loop panics when the destination ends before the last place it writes. -/
theorem copyInto_eq_none (f : α → β) (src : GoSlice α) (dst : GoSlice β) {n off : Nat}
    (hsrc : n ≤ src.len) (hoff : off ≤ dst.len) (hdst : dst.len < off + n) :
    copyInto f src n off dst = none := by
  -- the rounds before the first place past the end succeed, and that one panics
  obtain ⟨d, hd, hlen, -⟩ :=
    copyInto_eq f src dst (show dst.len - off ≤ src.len by omega) (show off + (dst.len - off) ≤ dst.len by omega)
  have hstep : copyStep f src off d (dst.len - off) = none := by
    rw [copyStep, get?_eq_getElem?, List.getElem?_eq_getElem (by simp; omega)]
    exact set?_eq_none (by omega) _
  obtain ⟨m, rfl⟩ : ∃ m, n = dst.len - off + (m + 1) := ⟨n - (dst.len - off) - 1, by omega⟩
  rw [copyInto, List.range_add, List.foldlM_append, ← copyInto, hd]
  simp [List.range_succ_eq_map, hstep]

end GoSlice

end TinySql.Lib
