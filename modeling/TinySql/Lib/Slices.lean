import Mathlib

/-!
# Slices and tables

A slice `s[a:b]` of a list is `List.extract`; how it meets `take`, `drop` and `++` is said once
here. A table kept as its columns has as rows the entries of every column at one index
(`rowsOfColumns`); appending to each column appends rows.
-/

namespace TinySql.Lib

variable {α : Type}

theorem extract_append_left {l₁ : List α} (l₂ : List α) {a b : Nat} (hb : b ≤ l₁.length) :
    (l₁ ++ l₂).extract a b = l₁.extract a b := by
  simp only [List.extract_eq_take_drop, List.drop_append, List.take_append]
  by_cases ha : a ≤ l₁.length
  · have hrest : b - a - (l₁.drop a).length = 0 := by simp; omega
    rw [hrest, List.take_zero, List.append_nil]
  · simp [List.drop_eq_nil_of_le (by omega : l₁.length ≤ a)]
    omega

theorem extract_append_right (l₁ l₂ : List α) (a b : Nat) :
    (l₁ ++ l₂).extract (l₁.length + a) (l₁.length + b) = l₂.extract a b := by
  simp only [List.extract_eq_take_drop, List.drop_append]
  rw [List.drop_eq_nil_of_le (by omega), List.nil_append, Nat.add_sub_cancel_left,
    Nat.add_sub_add_left]

theorem extract_take (l : List α) {k a b : Nat} (hb : b ≤ k) :
    (l.take k).extract a b = l.extract a b := by
  simp only [List.extract_eq_take_drop, List.drop_take, List.take_take]
  congr 1
  omega

theorem extract_drop (l : List α) (k a b : Nat) :
    (l.drop k).extract a b = l.extract (k + a) (k + b) := by
  simp only [List.extract_eq_take_drop, List.drop_drop, Nat.add_sub_add_left]

/-! ### Offsets in order -/

theorem getD_le_getD_of_pairwise {l : List Nat} (hs : l.Pairwise (· ≤ ·)) {i j : Nat} (hij : i ≤ j)
    (hj : j < l.length) : l.getD i 0 ≤ l.getD j 0 := by
  rw [List.getD_eq_getElem _ _ (by omega), List.getD_eq_getElem _ _ hj]
  rcases Nat.lt_or_eq_of_le hij with hlt | rfl
  · exact List.pairwise_iff_getElem.mp hs i j (by omega) hj hlt
  · exact Nat.le_refl _

theorem getD_zero_le_of_pairwise {l : List Nat} (hs : l.Pairwise (· ≤ ·)) {o : Nat} (ho : o ∈ l) :
    l.getD 0 0 ≤ o := by
  cases l with
  | nil => cases ho
  | cons a t =>
    rcases List.mem_cons.mp ho with rfl | hmem
    · exact Nat.le_refl _
    · exact List.rel_of_pairwise_cons hs hmem

theorem le_getD_of_pairwise {l : List Nat} (hs : l.Pairwise (· ≤ ·)) {n : Nat} (hn : l.length = n + 1)
    {a : Nat} (ha : a ∈ l) : a ≤ l.getD n 0 := by
  obtain ⟨i, hi, rfl⟩ := List.getElem_of_mem ha
  rw [← List.getD_eq_getElem _ 0 hi]
  exact getD_le_getD_of_pairwise hs (by omega) (by omega)

/-- `l[i] = a` on a slice: only index `i` changes, and only when it is in range. -/
theorem getD_set (l : List α) (i r : Nat) (a d : α) :
    (l.set i a).getD r d = if i = r ∧ r < l.length then a else l.getD r d := by
  simp only [List.getD_eq_getElem?_getD, List.getElem?_set]
  by_cases h : i = r
  · subst h
    by_cases hl : i < l.length <;> simp [hl]
  · simp [h]

/-- The loop that writes `l[n] = x` after a prefix `p` of length `n` extends the prefix by `x`; the
places past it read as they did. -/
theorem getElem?_set_of_prefix {l p : List α} {n : Nat} {rest : Nat → Option α} (hn : p.length = n)
    (hl : n < l.length) (h : ∀ j, l[j]? = if j < n then p[j]? else rest j) (x : α) (j : Nat) :
    (l.set n x)[j]? = if j < n + 1 then (p ++ [x])[j]? else rest j := by
  rw [List.getElem?_set, h j]
  by_cases hj : n = j
  · subst hj
    rw [if_pos rfl, if_pos hl, if_pos (by omega), List.getElem?_append_right (by omega), hn, Nat.sub_self]
    rfl
  · rw [if_neg hj]
    by_cases hlt : j < n
    · rw [if_pos hlt, if_pos (by omega), List.getElem?_append_left (by omega)]
    · rw [if_neg hlt, if_neg (by omega)]

theorem getD_map_sub (l : List Nat) (c i : Nat) : (l.map (· - c)).getD i 0 = l.getD i 0 - c := by
  rw [List.getD_eq_getElem?_getD, List.getD_eq_getElem?_getD, List.getElem?_map]
  cases l[i]? <;> simp

/-! ### Tables kept as columns -/

/-- The first `n` rows of a table kept as its columns: row `i` holds entry `i` of each column, `d`
where a column is shorter. -/
def rowsOfColumns (n : Nat) (cols : List (List α)) (d : α) : List (List α) :=
  (List.range n).map fun i => cols.map fun col => col.getD i d

theorem map_getD_zipWith_append_left {cols₁ cols₂ : List (List α)} {a : Nat}
    (hlen : ∀ col ∈ cols₁, col.length = a) (hcount : cols₁.length = cols₂.length) {i : Nat}
    (hi : i < a) (d : α) :
    (List.zipWith (· ++ ·) cols₁ cols₂).map (fun col => col.getD i d) = cols₁.map fun col => col.getD i d := by
  induction cols₁ generalizing cols₂ with
  | nil => rfl
  | cons col₁ cols₁ ih =>
    cases cols₂ with
    | nil => cases hcount
    | cons col₂ cols₂ =>
      have hcol₁ := hlen col₁ List.mem_cons_self
      rw [List.zipWith_cons_cons, List.map_cons, List.map_cons, List.getD_append _ _ _ _ (by omega),
        ih (fun col h => hlen col (List.mem_cons_of_mem _ h)) (by simpa using hcount)]

theorem map_getD_zipWith_append_right {cols₁ cols₂ : List (List α)} {a : Nat}
    (hlen : ∀ col ∈ cols₁, col.length = a) (hcount : cols₁.length = cols₂.length) (j : Nat) (d : α) :
    (List.zipWith (· ++ ·) cols₁ cols₂).map (fun col => col.getD (a + j) d) =
      cols₂.map fun col => col.getD j d := by
  induction cols₁ generalizing cols₂ with
  | nil => cases cols₂ with
    | nil => rfl
    | cons _ _ => cases hcount
  | cons col₁ cols₁ ih =>
    cases cols₂ with
    | nil => cases hcount
    | cons col₂ cols₂ =>
      have hcol₁ := hlen col₁ List.mem_cons_self
      rw [List.zipWith_cons_cons, List.map_cons, List.map_cons, ← hcol₁,
        List.getD_append_right _ _ _ _ (Nat.le_add_right _ _), Nat.add_sub_cancel_left, hcol₁,
        ih (fun col h => hlen col (List.mem_cons_of_mem _ h)) (by simpa using hcount)]

/-- Appending to each column of a table whose columns all have `a` entries appends rows. -/
theorem rowsOfColumns_zipWith_append {cols₁ cols₂ : List (List α)} {a : Nat}
    (hlen : ∀ col ∈ cols₁, col.length = a) (hcount : cols₁.length = cols₂.length) (b : Nat) (d : α) :
    rowsOfColumns (a + b) (List.zipWith (· ++ ·) cols₁ cols₂) d =
      rowsOfColumns a cols₁ d ++ rowsOfColumns b cols₂ d := by
  rw [rowsOfColumns, List.range_add, List.map_append, List.map_map]
  congr 1
  · apply List.map_congr_left
    intro i hi
    exact map_getD_zipWith_append_left hlen hcount (List.mem_range.mp hi) d
  · apply List.map_congr_left
    intro j _
    exact map_getD_zipWith_append_right hlen hcount j d

end TinySql.Lib
