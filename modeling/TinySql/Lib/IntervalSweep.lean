import Mathlib

/-!
# Merging half-open intervals sorted by their lower end

A sweep over intervals in order of their lower ends keeps the last interval open. The next one is
absorbed when it starts before the last one ends, and the last one is extended to it when it ends
later; otherwise the last one is emitted and the sweep continues from the next. What comes out
covers the same points, is still in order of lower ends, and each interval ends before the next
one begins, so no point lies in two of them.

The items are anything with a lower and an upper end; `extend last next` is the last item grown to
the upper end of the next one.
-/

namespace TinySql.Lib

variable {α β : Type*} [LinearOrder β]

section Sweep

variable (lo hi : α → β) (extend : α → α → α)

def sweep : α → List α → List α
  | last, [] => [last]
  | last, x :: xs =>
    if lo x ≤ hi last then
      if hi last < hi x then sweep (extend last x) xs else sweep last xs
    else last :: sweep x xs

/-- The points the intervals of a list cover. -/
def cover (xs : List α) : Set β :=
  {b | ∃ x ∈ xs, b ∈ Set.Ico (lo x) (hi x)}

variable {lo hi}

@[simp] theorem cover_nil : cover lo hi ([] : List α) = ∅ := by
  simp [cover]

@[simp] theorem cover_cons (x : α) (xs : List α) :
    cover lo hi (x :: xs) = Set.Ico (lo x) (hi x) ∪ cover lo hi xs := by
  ext b
  simp [cover]

variable {extend} (hlo : ∀ a b, lo (extend a b) = lo a) (hhi : ∀ a b, hi (extend a b) = hi b)
include hlo hhi

/-- The sweep's one induction: its result is in order of lower ends, each interval ends before the
next begins, none starts below the first, and it covers what the input covered. -/
theorem sweep_spec (last : α) (xs : List α) (hsorted : xs.Pairwise fun a b => lo a ≤ lo b)
    (hfirst : ∀ x ∈ xs, lo last ≤ lo x) :
    (sweep lo hi extend last xs).Pairwise (fun a b => lo a ≤ lo b ∧ hi a < lo b) ∧
      (∀ y ∈ sweep lo hi extend last xs, lo last ≤ lo y) ∧
      cover lo hi (sweep lo hi extend last xs) = Set.Ico (lo last) (hi last) ∪ cover lo hi xs := by
  induction xs generalizing last with
  | nil => simp [sweep]
  | cons x xs ih =>
    rw [List.pairwise_cons] at hsorted
    have hx : lo last ≤ lo x := hfirst x List.mem_cons_self
    have hxs : ∀ y ∈ xs, lo last ≤ lo y := fun y hy => hfirst y (List.mem_cons_of_mem _ hy)
    unfold sweep
    split_ifs with hstart hend
    · -- the next interval overlaps the last one and ends later: the last one grows to its end
      obtain ⟨hpw, hge, hcov⟩ := ih (extend last x) hsorted.2 fun y hy => hlo last x ▸ hxs y hy
      refine ⟨hpw, fun y hy => hlo last x ▸ hge y hy, ?_⟩
      have hld : lo last ≤ hi x := hx.trans (hstart.trans hend.le)
      rw [hcov, hlo, hhi, cover_cons, ← Set.union_assoc, Set.Ico_union_Ico' hstart hld,
        min_eq_left hx, max_eq_right hend.le]
    · -- the next interval lies inside the last one
      obtain ⟨hpw, hge, hcov⟩ := ih last hsorted.2 hxs
      refine ⟨hpw, hge, ?_⟩
      have hsub : Set.Ico (lo x) (hi x) ⊆ Set.Ico (lo last) (hi last) :=
        Set.Ico_subset_Ico hx (not_lt.mp hend)
      rw [hcov, cover_cons, ← Set.union_assoc, Set.union_eq_self_of_subset_right hsub]
    · -- a gap: the last interval is final
      have hgap : hi last < lo x := lt_of_not_ge hstart
      obtain ⟨hpw, hge, hcov⟩ := ih x hsorted.2 hsorted.1
      refine ⟨List.pairwise_cons.mpr ⟨fun y hy => ?_, hpw⟩, ?_, ?_⟩
      · exact ⟨hx.trans (hge y hy), hgap.trans_le (hge y hy)⟩
      · intro y hy
        rcases List.mem_cons.mp hy with rfl | hy
        · exact le_rfl
        · exact hx.trans (hge y hy)
      · rw [cover_cons, hcov, cover_cons]

theorem sweep_cover (last : α) (xs : List α) (hsorted : xs.Pairwise fun a b => lo a ≤ lo b)
    (hfirst : ∀ x ∈ xs, lo last ≤ lo x) :
    cover lo hi (sweep lo hi extend last xs) = cover lo hi (last :: xs) := by
  rw [(sweep_spec hlo hhi last xs hsorted hfirst).2.2, cover_cons]

/-- No point lies in two intervals the sweep emits. -/
theorem sweep_disjoint (last : α) (xs : List α) (hsorted : xs.Pairwise fun a b => lo a ≤ lo b)
    (hfirst : ∀ x ∈ xs, lo last ≤ lo x) :
    (sweep lo hi extend last xs).Pairwise fun a b =>
      Disjoint (Set.Ico (lo a) (hi a)) (Set.Ico (lo b) (hi b)) := by
  refine (sweep_spec hlo hhi last xs hsorted hfirst).1.imp fun {a b} h => ?_
  rw [Set.disjoint_left]
  rintro c ⟨-, hca⟩ ⟨hcb, -⟩
  exact lt_irrefl c ((hca.trans h.2).trans_le hcb)

end Sweep

end TinySql.Lib
