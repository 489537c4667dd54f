import Mathlib

/-!
# Handing out ids in segments

A pool of ids of a linear order. Everything up to `top` has been reserved; each party keeps the
unused rest `(lo, hi]` of the segment it reserved last, and hands ids out of it from the bottom.
`issued` lists the intervals handed out so far, each with the party that handed it out.

A party can reserve a new segment above `top`, hand out a lower part of its segment, move the
bottom of its segment up, or push `top` up and give up its segment. `Inv` is what keeps ids from
being handed out twice: all intervals, handed out or held, are pairwise disjoint and lie below
`top`, and a party's handed-out intervals come in increasing order below what it holds. Every
step keeps it (`Step.inv`), so every run from a pool that satisfies it does.
-/

namespace TinySql.Lib

open Set

variable {ι α : Type*} [LinearOrder α]

/-- The ids `(p.1, p.2]`. -/
def ival (p : α × α) : Set α := Ioc p.1 p.2

/-- A pool of ids handed out in segments. -/
structure Pool (ι α : Type*) where
  top : α
  cache : ι → α × α
  issued : List (ι × α × α)

/-- One step of a party `i`. -/
inductive Pool.Step [DecidableEq ι] : Pool ι α → Pool ι α → Prop
  /-- Reserve `(lo, hi]` above `top`; the rest of the old segment is dropped. -/
  | reserve (p : Pool ι α) (i : ι) (lo hi : α) (htop : p.top ≤ lo) (hlo : lo ≤ hi) :
      Step p { p with top := hi, cache := Function.update p.cache i (lo, hi) }
  /-- Hand out `(lo, k]` from the bottom of the segment `(lo, hi]`. -/
  | take (p : Pool ι α) (i : ι) (k : α) (hlo : (p.cache i).1 ≤ k) (hhi : k ≤ (p.cache i).2) :
      Step p { p with cache := Function.update p.cache i (k, (p.cache i).2),
                      issued := p.issued ++ [(i, (p.cache i).1, k)] }
  /-- Move the bottom of the segment up to `b`. -/
  | advance (p : Pool ι α) (i : ι) (b : α) (hlo : (p.cache i).1 ≤ b) (hhi : b ≤ (p.cache i).2) :
      Step p { p with cache := Function.update p.cache i (b, (p.cache i).2) }
  /-- Push `top` up to `t` and hold the empty segment `(t, t]`. -/
  | skip (p : Pool ι α) (i : ι) (t : α) (htop : p.top ≤ t) :
      Step p { p with top := t, cache := Function.update p.cache i (t, t) }

/-- Segments are pairwise disjoint and below `top`, and each party's handed-out intervals come in
order below the segment it holds. -/
structure Pool.Inv (p : Pool ι α) : Prop where
  cache_le : ∀ i, (p.cache i).1 ≤ (p.cache i).2 ∧ (p.cache i).2 ≤ p.top
  issued_le : ∀ x ∈ p.issued, x.2.2 ≤ p.top
  issued_disjoint : p.issued.Pairwise fun x y => Disjoint (ival x.2) (ival y.2)
  cache_issued : ∀ i, ∀ x ∈ p.issued, Disjoint (ival (p.cache i)) (ival x.2)
  cache_cache : ∀ i j, i ≠ j → Disjoint (ival (p.cache i)) (ival (p.cache j))
  issued_below : ∀ x ∈ p.issued, x.2.2 ≤ (p.cache x.1).1
  issued_sorted : p.issued.Pairwise fun x y => x.1 = y.1 → x.2.2 ≤ y.2.1

theorem ival_disjoint_of_le {p q : α × α} (h : p.2 ≤ q.1) : Disjoint (ival p) (ival q) :=
  Ioc_disjoint_Ioc_of_le h

theorem ival_mono {p q : α × α} (h1 : q.1 ≤ p.1) (h2 : p.2 ≤ q.2) : ival p ⊆ ival q :=
  Ioc_subset_Ioc h1 h2

@[simp] theorem ival_self (a : α) : ival (a, a) = ∅ := Ioc_self a

section Steps

variable [DecidableEq ι] {p q : Pool ι α}

/-- Reserving above `top` keeps the invariant: every interval already there lies below `top`. -/
theorem Pool.Inv.reserve (hp : p.Inv) (i : ι) {lo hi : α} (htop : p.top ≤ lo) (hlo : lo ≤ hi) :
    Pool.Inv { p with top := hi, cache := Function.update p.cache i (lo, hi) } := by
  -- a segment held before the step lies below `top`, hence below the new one
  have below : ∀ j, Disjoint (ival (p.cache j)) (ival (lo, hi)) := fun j =>
    ival_disjoint_of_le ((hp.cache_le j).2.trans htop)
  constructor
  · intro j
    rcases eq_or_ne j i with rfl | hj
    · simpa using hlo
    · simpa [Function.update_of_ne hj] using ⟨(hp.cache_le j).1, (hp.cache_le j).2.trans (htop.trans hlo)⟩
  · exact fun x hx => (hp.issued_le x hx).trans (htop.trans hlo)
  · exact hp.issued_disjoint
  · intro j x hx
    rcases eq_or_ne j i with rfl | hj
    · simpa using (ival_disjoint_of_le ((hp.issued_le x hx).trans htop)).symm
    · simpa [Function.update_of_ne hj] using hp.cache_issued j x hx
  · intro j k hjk
    rcases eq_or_ne j i with rfl | hj
    · simpa [Function.update_of_ne hjk.symm] using (below k).symm
    · rcases eq_or_ne k i with rfl | hk
      · simpa [Function.update_of_ne hj] using below j
      · simpa [Function.update_of_ne hj, Function.update_of_ne hk] using hp.cache_cache j k hjk
  · intro x hx
    rcases eq_or_ne x.1 i with hxi | hxi
    · simpa [hxi] using (hp.issued_le x hx).trans htop
    · simpa [Function.update_of_ne hxi] using hp.issued_below x hx
  · exact hp.issued_sorted

/-- Handing out the bottom `(lo, k]` of a segment keeps the invariant: the new interval and the
rest of the segment split what the party held. -/
theorem Pool.Inv.take (hp : p.Inv) (i : ι) {k : α} (hlo : (p.cache i).1 ≤ k)
    (hhi : k ≤ (p.cache i).2) :
    Pool.Inv { p with cache := Function.update p.cache i (k, (p.cache i).2),
                      issued := p.issued ++ [(i, (p.cache i).1, k)] } := by
  -- both parts of the old segment lie inside it
  have hrest : ival (k, (p.cache i).2) ⊆ ival (p.cache i) := ival_mono hlo le_rfl
  have hnew : ival ((p.cache i).1, k) ⊆ ival (p.cache i) := ival_mono le_rfl hhi
  constructor
  · intro j
    rcases eq_or_ne j i with rfl | hj
    · simpa using ⟨hhi, (hp.cache_le j).2⟩
    · simpa [Function.update_of_ne hj] using hp.cache_le j
  · intro x hx
    rcases List.mem_append.mp hx with hx | hx
    · exact hp.issued_le x hx
    · simp only [List.mem_singleton] at hx
      subst hx
      exact hhi.trans (hp.cache_le i).2
  · refine List.pairwise_append.mpr ⟨hp.issued_disjoint, by simp, ?_⟩
    intro x hx y hy
    simp only [List.mem_singleton] at hy
    subst hy
    exact ((hp.cache_issued i x hx).mono_left hnew).symm
  · intro j x hx
    rcases List.mem_append.mp hx with hold | hnew'
    · rcases eq_or_ne j i with rfl | hj
      · simpa using (hp.cache_issued j x hold).mono_left hrest
      · simpa [Function.update_of_ne hj] using hp.cache_issued j x hold
    · simp only [List.mem_singleton] at hnew'
      subst hnew'
      rcases eq_or_ne j i with rfl | hj
      · simpa using (ival_disjoint_of_le (le_refl k)).symm
      · simpa [Function.update_of_ne hj] using (hp.cache_cache j i hj).mono_right hnew
  · intro j l hjl
    rcases eq_or_ne j i with rfl | hj
    · simpa [Function.update_of_ne hjl.symm] using (hp.cache_cache j l hjl).mono_left hrest
    · rcases eq_or_ne l i with rfl | hl
      · simpa [Function.update_of_ne hj] using (hp.cache_cache j l hj).mono_right hrest
      · simpa [Function.update_of_ne hj, Function.update_of_ne hl] using hp.cache_cache j l hjl
  · intro x hx
    rcases List.mem_append.mp hx with hx | hx
    · rcases eq_or_ne x.1 i with hxi | hxi
      · simpa [hxi] using (hxi ▸ hp.issued_below x hx).trans hlo
      · simpa [Function.update_of_ne hxi] using hp.issued_below x hx
    · simp only [List.mem_singleton] at hx
      subst hx
      simp
  · refine List.pairwise_append.mpr ⟨hp.issued_sorted, by simp, ?_⟩
    intro x hx y hy hxy
    simp only [List.mem_singleton] at hy
    subst hy
    have hbelow := hp.issued_below x hx
    rw [hxy] at hbelow
    exact hbelow

/-- Moving the bottom of a segment up keeps the invariant: the segment only shrinks. -/
theorem Pool.Inv.advance (hp : p.Inv) (i : ι) {b : α} (hlo : (p.cache i).1 ≤ b)
    (hhi : b ≤ (p.cache i).2) :
    Pool.Inv { p with cache := Function.update p.cache i (b, (p.cache i).2) } := by
  have hrest : ival (b, (p.cache i).2) ⊆ ival (p.cache i) := ival_mono hlo le_rfl
  constructor
  · intro j
    rcases eq_or_ne j i with rfl | hj
    · simpa using ⟨hhi, (hp.cache_le j).2⟩
    · simpa [Function.update_of_ne hj] using hp.cache_le j
  · exact hp.issued_le
  · exact hp.issued_disjoint
  · intro j x hx
    rcases eq_or_ne j i with rfl | hj
    · simpa using (hp.cache_issued j x hx).mono_left hrest
    · simpa [Function.update_of_ne hj] using hp.cache_issued j x hx
  · intro j l hjl
    rcases eq_or_ne j i with rfl | hj
    · simpa [Function.update_of_ne hjl.symm] using (hp.cache_cache j l hjl).mono_left hrest
    · rcases eq_or_ne l i with rfl | hl
      · simpa [Function.update_of_ne hj] using (hp.cache_cache j l hj).mono_right hrest
      · simpa [Function.update_of_ne hj, Function.update_of_ne hl] using hp.cache_cache j l hjl
  · intro x hx
    rcases eq_or_ne x.1 i with hxi | hxi
    · simpa [hxi] using (hxi ▸ hp.issued_below x hx).trans hlo
    · simpa [Function.update_of_ne hxi] using hp.issued_below x hx
  · exact hp.issued_sorted

/-- Pushing `top` up and holding an empty segment keeps the invariant. -/
theorem Pool.Inv.skip (hp : p.Inv) (i : ι) {t : α} (htop : p.top ≤ t) :
    Pool.Inv { p with top := t, cache := Function.update p.cache i (t, t) } := by
  constructor
  · intro j
    rcases eq_or_ne j i with rfl | hj
    · simp
    · simpa [Function.update_of_ne hj] using ⟨(hp.cache_le j).1, (hp.cache_le j).2.trans htop⟩
  · exact fun x hx => (hp.issued_le x hx).trans htop
  · exact hp.issued_disjoint
  · intro j x hx
    rcases eq_or_ne j i with rfl | hj
    · simp
    · simpa [Function.update_of_ne hj] using hp.cache_issued j x hx
  · intro j l hjl
    rcases eq_or_ne j i with rfl | hj
    · simp
    · rcases eq_or_ne l i with rfl | hl
      · simp
      · simpa [Function.update_of_ne hj, Function.update_of_ne hl] using hp.cache_cache j l hjl
  · intro x hx
    rcases eq_or_ne x.1 i with hxi | hxi
    · simpa [hxi] using (hp.issued_le x hx).trans htop
    · simpa [Function.update_of_ne hxi] using hp.issued_below x hx
  · exact hp.issued_sorted

theorem Pool.Step.inv (h : Pool.Step p q) (hp : p.Inv) : q.Inv := by
  cases h with
  | reserve i lo hi htop hlo => exact hp.reserve i htop hlo
  | take i k hlo hhi => exact hp.take i hlo hhi
  | advance i b hlo hhi => exact hp.advance i hlo hhi
  | skip i t htop => exact hp.skip i htop

/-- `take` on a segment given by its ends. -/
theorem Pool.Step.take_of_eq (p : Pool ι α) (i : ι) {lo k hi : α} (hc : p.cache i = (lo, hi))
    (hlo : lo ≤ k) (hhi : k ≤ hi) :
    Pool.Step p { p with cache := Function.update p.cache i (k, hi),
                         issued := p.issued ++ [(i, lo, k)] } := by
  have h := Pool.Step.take p i k (by rw [hc]; exact hlo) (by rw [hc]; exact hhi)
  rwa [hc] at h

/-- `advance` on a segment given by its ends. -/
theorem Pool.Step.advance_of_eq (p : Pool ι α) (i : ι) {lo b hi : α} (hc : p.cache i = (lo, hi))
    (hlo : lo ≤ b) (hhi : b ≤ hi) :
    Pool.Step p { p with cache := Function.update p.cache i (b, hi) } := by
  have h := Pool.Step.advance p i b (by rw [hc]; exact hlo) (by rw [hc]; exact hhi)
  rwa [hc] at h

/-- The run rule: the invariant holds along every run from a pool that satisfies it. -/
theorem Pool.Inv.run (hp : p.Inv) (h : Relation.ReflTransGen Pool.Step p q) : q.Inv := by
  induction h with
  | refl => exact hp
  | tail _ hstep ih => exact hstep.inv ih

/-- The bottom of every party's segment only moves up. -/
theorem Pool.Step.cache_fst_le (h : Pool.Step p q) (hp : p.Inv) (j : ι) :
    (p.cache j).1 ≤ (q.cache j).1 := by
  -- only the stepping party's segment changes; a new one starts above `top`
  cases h with
  | reserve i lo hi htop hlo =>
    rcases eq_or_ne j i with rfl | hj
    · simpa using ((hp.cache_le j).1.trans (hp.cache_le j).2).trans htop
    · simp [Function.update_of_ne hj]
  | take i k hlo hhi =>
    rcases eq_or_ne j i with rfl | hj
    · simpa using hlo
    · simp [Function.update_of_ne hj]
  | advance i b hlo hhi =>
    rcases eq_or_ne j i with rfl | hj
    · simpa using hlo
    · simp [Function.update_of_ne hj]
  | skip i t htop =>
    rcases eq_or_ne j i with rfl | hj
    · simpa using ((hp.cache_le j).1.trans (hp.cache_le j).2).trans htop
    · simp [Function.update_of_ne hj]

theorem Pool.cache_fst_le_of_run (hp : p.Inv) (h : Relation.ReflTransGen Pool.Step p q) (j : ι) :
    (p.cache j).1 ≤ (q.cache j).1 := by
  induction h with
  | refl => exact le_rfl
  | tail hrun hstep ih => exact ih.trans (hstep.cache_fst_le (hp.run hrun) j)

end Steps

/-- A pool where every party holds an empty segment below `top` and nothing was handed out. -/
theorem Pool.inv_of_empty (t : α) (c : ι → α) (hc : ∀ i, c i ≤ t) :
    Pool.Inv (⟨t, fun i => (c i, c i), []⟩ : Pool ι α) where
  cache_le i := ⟨le_rfl, hc i⟩
  issued_le := by simp
  issued_disjoint := List.Pairwise.nil
  cache_issued := by simp
  cache_cache := by simp
  issued_below := by simp
  issued_sorted := List.Pairwise.nil

end TinySql.Lib
