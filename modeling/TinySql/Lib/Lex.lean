import Mathlib

/-!
# Lexicographic comparison of lists

Core's `compare` on lists, the order `bytes.Compare` gives byte strings: over a common prefix,
over a proper extension and over words of one length. A code for an order (`EncodesAt`) is one
whose words compare as the encoded values do whatever follows them, and as what follows does when
the values tie: the words of such a code can be read one after another and still compare as the
lists of values, lexicographically.
-/

namespace TinySql.Lib

variable {α β : Type*} [Ord α]

/-- An order that is decided already ignores what comes after it. -/
theorem then_of_ne_eq {o₁ : Ordering} (h : o₁ ≠ .eq) (o₂ : Ordering) : o₁.then o₂ = o₁ := by
  cases o₁ <;> first | rfl | exact absurd rfl h

section Prefix

variable [Std.ReflOrd α]

@[simp] theorem compare_append_left (l r₁ r₂ : List α) :
    compare (l ++ r₁) (l ++ r₂) = compare r₁ r₂ := by
  induction l with
  | nil => rfl
  | cons a l ih =>
    rw [List.cons_append, List.cons_append, List.compare_cons_cons, Std.compare_self, ih]
    rfl

/-- A proper extension sorts after the list. -/
theorem compare_append_of_ne_nil {r : List α} (hr : r ≠ []) (l : List α) :
    compare l (l ++ r) = .lt := by
  obtain ⟨a, r', rfl⟩ := List.exists_cons_of_ne_nil hr
  simpa using compare_append_left l [] (a :: r')

end Prefix

/-- Words of one length are compared first, and what follows them only on a tie. -/
theorem compare_append_of_length_eq {u v : List α} (h : u.length = v.length) (s t : List α) :
    compare (u ++ s) (v ++ t) = (compare u v).then (compare s t) := by
  induction u generalizing v with
  | nil =>
    rw [List.eq_nil_of_length_eq_zero h.symm]
    rfl
  | cons a u ih =>
    obtain ⟨b, v, rfl⟩ := List.exists_cons_of_length_eq_add_one h.symm
    have hlen : u.length = v.length := by simpa using h
    rw [List.cons_append, List.cons_append, List.compare_cons_cons, List.compare_cons_cons,
      ih hlen, Ordering.then_assoc]

/-- A word that differs from a word no longer than it keeps the order whatever follows it. -/
theorem compare_append_of_ne_eq {u v : List α} (hlen : v.length ≤ u.length)
    (hne : compare u v ≠ .eq) (s : List α) : compare (u ++ s) v = compare u v := by
  induction u generalizing v with
  | nil =>
    rw [List.eq_nil_of_length_eq_zero (Nat.le_zero.mp hlen)] at hne ⊢
    exact absurd rfl hne
  | cons a u ih =>
    cases v with
    | nil => rfl
    | cons b v =>
      rw [List.cons_append, List.compare_cons_cons, List.compare_cons_cons]
      by_cases hab : compare a b = .eq
      · have htail : compare u v ≠ .eq := by
          rwa [List.compare_cons_cons, hab] at hne
        rw [hab, Ordering.eq_then, Ordering.eq_then, ih (by simpa using hlen) htail]
      · rw [then_of_ne_eq hab, then_of_ne_eq hab]

/-- The same with the longer word on the right. -/
theorem compare_append_right_of_ne_eq [Std.OrientedOrd α] {u v : List α}
    (hlen : u.length ≤ v.length) (hne : compare u v ≠ .eq) (t : List α) :
    compare u (v ++ t) = compare u v := by
  have hs : ∀ x y : List α, compare x y = (compare y x).swap := fun _ _ => Std.OrientedCmp.eq_swap
  have hswap : compare v u ≠ .eq := by
    rwa [hs, ne_eq, Ordering.swap_eq_eq] at hne
  rw [hs, compare_append_of_ne_eq hlen hswap, ← hs]

/-- A code that starts with a tag growing with the value compares as the values, when equal tags
leave it to the rest of the code. -/
theorem compare_cons_of_monotone {γ δ : Type*} [LinearOrder γ] [LinearOrder δ] {tag : δ → γ}
    {body : δ → List γ} (hmono : Monotone tag) {x y : δ}
    (htie : tag x = tag y → compare (body x) (body y) = compare x y) :
    compare (tag x :: body x) (tag y :: body y) = compare x y := by
  rw [List.compare_cons_cons]
  rcases lt_trichotomy (tag x) (tag y) with h | h | h
  · have hxy : x < y := lt_of_not_ge fun hyx => (hmono hyx).not_gt h
    rw [compare_lt_iff_lt.mpr h, compare_lt_iff_lt.mpr hxy]
    rfl
  · rw [compare_eq_iff_eq.mpr h, Ordering.eq_then, htie h]
  · have hxy : y < x := lt_of_not_ge fun hxy => (hmono hxy).not_gt h
    rw [compare_gt_iff_gt.mpr h, compare_gt_iff_gt.mpr hxy]
    rfl

/-! ### Codes -/

/-- A map that reverses the order of elements reverses the order of two lists neither of which is
a proper prefix of the other. -/
theorem compare_map_of_swap [Std.LawfulEqOrd α] {f : α → α}
    (hf : ∀ a b, compare (f a) (f b) = compare b a) :
    ∀ {u v : List α}, (u <+: v → u = v) → (v <+: u → v = u) →
      compare (u.map f) (v.map f) = compare v u
  | [], [], _, _ => rfl
  | [], _ :: _, hu, _ => absurd (hu List.nil_prefix) (by simp)
  | _ :: _, [], _, hv => absurd (hv List.nil_prefix) (by simp)
  | a :: u, b :: v, hu, hv => by
    rw [List.map_cons, List.map_cons, List.compare_cons_cons, List.compare_cons_cons, hf]
    by_cases hba : compare b a = .eq
    · -- equal heads: the tails decide, and neither is a proper prefix of the other
      obtain rfl := Std.LawfulEqOrd.eq_of_compare hba
      rw [hba, Ordering.eq_then, Ordering.eq_then]
      refine compare_map_of_swap hf (fun h => ?_) (fun h => ?_)
      · exact List.cons_inj_right _ |>.mp (hu (List.cons_prefix_cons.mpr ⟨rfl, h⟩))
      · exact List.cons_inj_right _ |>.mp (hv (List.cons_prefix_cons.mpr ⟨rfl, h⟩))
    · rw [then_of_ne_eq hba, then_of_ne_eq hba]

/-- `enc` encodes `cmp` at `x` and `y`: `enc x` and whatever follows it compare with `enc y` and
its continuation as `cmp` orders `x` and `y`, and as the continuations do when `x` and `y` tie. -/
def EncodesAt (enc : β → List α) (cmp : β → β → Ordering) (x y : β) : Prop :=
  ∀ s t : List α, compare (enc x ++ s) (enc y ++ t) = (cmp x y).then (compare s t)

theorem EncodesAt.compare_eq {enc : β → List α} {cmp : β → β → Ordering} {x y : β}
    (h : EncodesAt enc cmp x y) : compare (enc x) (enc y) = cmp x y := by
  have hnil := h [] []
  rw [List.append_nil, List.append_nil] at hnil
  rw [hnil]
  cases cmp x y <;> rfl

/-- Concatenations of words that are prefix-free place by place are equal exactly when they are
equal word by word. -/
theorem flatten_map_eq_iff {γ δ : Type*} {f g : γ → List δ} :
    ∀ {cols : List γ}, (∀ c ∈ cols, ∀ s t, f c ++ s = g c ++ t → f c = g c) →
      ((cols.map f).flatten = (cols.map g).flatten ↔ ∀ c ∈ cols, f c = g c)
  | [], _ => by simp
  | c :: cols, h => by
    have htail := flatten_map_eq_iff fun d hd => h d (List.mem_cons_of_mem _ hd)
    simp only [List.map_cons, List.flatten_cons, List.forall_mem_cons]
    constructor
    · intro heq
      have hc := h c List.mem_cons_self _ _ heq
      rw [hc, List.append_cancel_left_eq] at heq
      exact ⟨hc, htail.mp heq⟩
    · rintro ⟨hc, hrest⟩
      rw [hc, htail.mpr hrest]

/-- A word that a reader reads back, with whatever follows it, is determined by the bytes: two
such words that start one byte string are the same word. -/
theorem eq_of_read_append {γ δ ε : Type*} {read : List δ → Except ε (List δ × γ)}
    {enc : γ → List δ} {x y : γ} {s t : List δ} (hx : read (enc x ++ s) = .ok (s, x))
    (hy : read (enc y ++ t) = .ok (t, y)) (h : enc x ++ s = enc y ++ t) : x = y ∧ s = t := by
  rw [h, hy] at hx
  obtain ⟨hs, hxy⟩ := Prod.mk.inj (Except.ok.inj hx)
  exact ⟨hxy.symm, hs.symm⟩

theorem compare_nil_right_ne_lt (r : List α) : compare r [] ≠ .lt := by
  cases r with
  | nil => simp [List.compare_nil_nil]
  | cons a r => simp [List.compare_cons_nil]

section Successor

variable [Std.TransOrd α] [Std.LawfulEqOrd α]

/-- Between a list ending in `c` and the same list ending in the next value `c'` lie exactly the
lists that extend the first. -/
theorem between_snoc_iff {c c' : α} (hlt : compare c c' = .lt)
    (hnext : ∀ x, compare c x = .lt → compare x c' ≠ .lt) :
    ∀ p k : List α, (compare (p ++ [c]) k ≠ .gt ∧ compare k (p ++ [c']) = .lt) ↔ p ++ [c] <+: k
  | [], [] => by simp [List.compare_cons_nil]
  | [], x :: r => by
    rw [List.nil_append, List.nil_append, List.compare_cons_cons, List.compare_cons_cons,
      List.cons_prefix_cons]
    rcases hcx : compare c x with _ | _ | _
    · -- `x` lies above `c`, so at `c'` or beyond it
      have hx := hnext x hcx
      have hne : c ≠ x := fun h => by simp [h, Std.compare_self] at hcx
      have hr := compare_nil_right_ne_lt r
      simp only [hne, false_and, iff_false, not_and]
      intro _
      cases hxc : compare x c' <;> simp_all
    · have hcx' : c = x := Std.compare_eq_iff_eq.mp hcx
      subst hcx'
      simp [hlt, List.nil_prefix]
      cases r <;> simp [List.compare_nil_cons]
    · have hne : c ≠ x := fun h => by simp [h, Std.compare_self] at hcx
      simp [hne]
  | a :: p, [] => by simp [List.compare_cons_nil]
  | a :: p, x :: r => by
    rw [List.cons_append, List.cons_append, List.compare_cons_cons, List.compare_cons_cons,
      List.cons_prefix_cons]
    rcases hax : compare a x with _ | _ | _
    · have hxa : compare x a = .gt := Std.OrientedCmp.gt_iff_lt.mpr hax
      have hne : a ≠ x := fun h => by simp [h, Std.compare_self] at hax
      simp [hxa, hne]
    · have hax' : a = x := Std.compare_eq_iff_eq.mp hax
      subst hax'
      simp [Std.compare_self, between_snoc_iff hlt hnext p r]
    · have hne : a ≠ x := fun h => by simp [h, Std.compare_self] at hax
      simp [hne]

end Successor
end TinySql.Lib
