import Mathlib

/-!
# Sorted association lists

A list of pairs whose keys ascend strictly under a comparator `cmp` is a finite map read by
`List.lookup`. Its keys are distinct, so a lookup finds exactly the pairs of the list, and a key
before every key of the list is not in it. Cutting a sorted list where a bound is crossed, from the
front (`dropWhile`) or from the back (`takeWhile`), keeps exactly the pairs on one side of the
bound. Sorting distinct elements orders them strictly.

`Enumerates cmp out m` says that `out` lists the finite map `m : κ → Option β` in the order of
`cmp`, each key once. A listing is built from the front: the least key, then a listing of the rest
of the map (`Enumerates.cons`).
-/

namespace TinySql.Lib

variable {κ β α : Type*}

/-- The keys ascend strictly under `cmp`. -/
def SortedKeys (cmp : κ → κ → Ordering) (l : List (κ × β)) : Prop :=
  l.Pairwise fun a b => cmp a.1 b.1 = .lt

/-- `out` lists the map `m` in the order of `cmp`. -/
def Enumerates (cmp : κ → κ → Ordering) (out : List (κ × β)) (m : κ → Option β) : Prop :=
  SortedKeys cmp out ∧ ∀ k v, (k, v) ∈ out ↔ m k = some v

section Cut

variable {R : α → α → Prop} {p : α → Bool}

/-- On a list ordered by `R`, a predicate that holds below wherever it holds is a prefix. -/
theorem takeWhile_eq_filter_of_pairwise (hp : ∀ a b, R a b → p b = true → p a = true) :
    ∀ {l : List α}, l.Pairwise R → l.takeWhile p = l.filter p
  | [], _ => rfl
  | a :: l, hl => by
    obtain ⟨ha, hl⟩ := List.pairwise_cons.mp hl
    by_cases hpa : p a = true
    · rw [List.takeWhile_cons_of_pos hpa, List.filter_cons_of_pos hpa,
        takeWhile_eq_filter_of_pairwise hp hl]
    · rw [List.takeWhile_cons_of_neg hpa, List.filter_cons_of_neg hpa, eq_comm,
        List.filter_eq_nil_iff]
      exact fun b hb hpb => hpa (hp a b (ha b hb) hpb)

theorem dropWhile_eq_filter_of_pairwise (hp : ∀ a b, R a b → p b = true → p a = true) :
    ∀ {l : List α}, l.Pairwise R → l.dropWhile p = l.filter fun a => !p a
  | [], _ => rfl
  | a :: l, hl => by
    obtain ⟨ha, hl⟩ := List.pairwise_cons.mp hl
    by_cases hpa : p a = true
    · rw [List.dropWhile_cons_of_pos hpa, List.filter_cons_of_neg (by simp [hpa]),
        dropWhile_eq_filter_of_pairwise hp hl]
    · rw [List.dropWhile_cons_of_neg hpa, List.filter_cons_of_pos (by simpa using hpa), eq_comm]
      congr 1
      rw [List.filter_eq_self]
      intro b hb
      simpa using fun hpb => hpa (hp a b (ha b hb) hpb)

end Cut

section Lookup

variable [BEq κ] [LawfulBEq κ]

theorem lookup_cons_of_ne {k k' : κ} {v : β} {l : List (κ × β)} (h : k' ≠ k) :
    ((k, v) :: l).lookup k' = l.lookup k' := by
  rw [List.lookup_cons, beq_false_of_ne h]

theorem lookup_eq_none_of_forall_ne {k : κ} :
    ∀ {l : List (κ × β)}, (∀ e ∈ l, e.1 ≠ k) → l.lookup k = none
  | [], _ => rfl
  | (k', v) :: l, h => by
    have hne : k ≠ k' := fun heq => h _ List.mem_cons_self heq.symm
    rw [List.lookup_cons, beq_false_of_ne hne]
    exact lookup_eq_none_of_forall_ne fun e he => h e (List.mem_cons_of_mem _ he)

/-- On distinct keys a lookup finds exactly the pairs of the list. -/
theorem lookup_eq_some_iff_mem :
    ∀ {l : List (κ × β)}, l.Pairwise (fun a b => a.1 ≠ b.1) → ∀ {k : κ} {v : β},
      l.lookup k = some v ↔ (k, v) ∈ l
  | [], _, _, _ => by simp
  | (k', v') :: l, hl, k, v => by
    obtain ⟨hne, hl⟩ := List.pairwise_cons.mp hl
    rw [List.lookup_cons, List.mem_cons]
    by_cases hk : k = k'
    · subst hk
      rw [beq_self_eq_true]
      constructor
      · rintro ⟨⟩
        exact .inl rfl
      · rintro (heq | hmem)
        · rw [(Prod.mk.inj heq).2]
        · exact absurd rfl (hne (k, v) hmem)
    · rw [beq_false_of_ne hk]
      dsimp only
      rw [lookup_eq_some_iff_mem hl]
      constructor
      · exact .inr
      · rintro (heq | hmem)
        · exact absurd (Prod.mk.inj heq).1 hk
        · exact hmem

theorem mem_of_lookup_eq_some {k : κ} {v : β} :
    ∀ {l : List (κ × β)}, l.lookup k = some v → (k, v) ∈ l
  | [], h => by cases h
  | (k', v') :: l, h => by
    rw [List.lookup_cons] at h
    by_cases hk : k = k'
    · subst hk
      rw [beq_self_eq_true] at h
      cases h
      exact List.mem_cons_self
    · rw [beq_false_of_ne hk] at h
      exact List.mem_cons_of_mem _ (mem_of_lookup_eq_some h)

/-- A list holding exactly the pairs of another whose keys satisfy `P`, both on distinct keys,
looks up as the other one restricted to `P`. -/
theorem lookup_eq_ite_of_mem_iff {l l' : List (κ × β)} (hl : l.Pairwise fun a b => a.1 ≠ b.1)
    (hl' : l'.Pairwise fun a b => a.1 ≠ b.1) {P : κ → Prop} (hmem : ∀ e, e ∈ l' ↔ e ∈ l ∧ P e.1)
    (k : κ) [Decidable (P k)] : l'.lookup k = if P k then l.lookup k else none := by
  apply Option.ext
  intro v
  rw [lookup_eq_some_iff_mem hl', hmem]
  split_ifs with hk
  · rw [lookup_eq_some_iff_mem hl]
    exact and_iff_left hk
  · simp [hk]

end Lookup

section Sorted

variable {cmp : κ → κ → Ordering}

theorem SortedKeys.of_cons {e : κ × β} {l : List (κ × β)} (h : SortedKeys cmp (e :: l)) :
    SortedKeys cmp l :=
  (List.pairwise_cons.mp h).2

theorem SortedKeys.lt_of_cons {e : κ × β} {l : List (κ × β)} (h : SortedKeys cmp (e :: l)) :
    ∀ e' ∈ l, cmp e.1 e'.1 = .lt :=
  (List.pairwise_cons.mp h).1

theorem SortedKeys.sublist {l l' : List (κ × β)} (h : SortedKeys cmp l) (hsub : List.Sublist l' l) :
    SortedKeys cmp l' :=
  List.Pairwise.sublist hsub h

variable [Std.ReflCmp cmp]

theorem ne_of_cmp_eq_lt {a b : κ} (h : cmp a b = .lt) : a ≠ b := by
  rintro rfl
  rw [(Std.ReflCmp.compare_self : cmp a a = .eq)] at h
  cases h

theorem SortedKeys.pairwise_ne {l : List (κ × β)} (h : SortedKeys cmp l) :
    l.Pairwise fun a b => a.1 ≠ b.1 :=
  List.Pairwise.imp ne_of_cmp_eq_lt h

theorem SortedKeys.not_mem_of_cons {e : κ × β} {l : List (κ × β)} (h : SortedKeys cmp (e :: l)) :
    e ∉ l := fun hmem => ne_of_cmp_eq_lt (h.lt_of_cons e hmem) rfl

/-- Two listings in the order of `cmp` with the same pairs are the same listing. -/
theorem SortedKeys.eq_of_mem_iff [Std.OrientedCmp cmp] :
    ∀ {l l' : List (κ × β)}, SortedKeys cmp l → SortedKeys cmp l' → (∀ e, e ∈ l ↔ e ∈ l') → l = l'
  | [], [], _, _, _ => rfl
  | [], e :: _, _, _, h => absurd ((h e).mpr List.mem_cons_self) List.not_mem_nil
  | e :: _, [], _, _, h => absurd ((h e).mp List.mem_cons_self) List.not_mem_nil
  | e :: l, e' :: l', hs, hs', h => by
    -- the heads are the least pairs of both listings
    have hhead : e = e' := by
      by_contra hne
      have he : e ∈ l' := by
        rcases List.mem_cons.mp ((h e).mp List.mem_cons_self) with heq | hmem
        · exact absurd heq hne
        · exact hmem
      have he' : e' ∈ l := by
        rcases List.mem_cons.mp ((h e').mpr List.mem_cons_self) with heq | hmem
        · exact absurd heq.symm hne
        · exact hmem
      have hlt := hs.lt_of_cons e' he'
      have hlt' := hs'.lt_of_cons e he
      have hswap : cmp e.1 e'.1 = (cmp e'.1 e.1).swap := Std.OrientedCmp.eq_swap
      rw [hswap, hlt'] at hlt
      cases hlt
    subst hhead
    have htail : ∀ x, x ∈ l ↔ x ∈ l' := by
      intro x
      constructor
      · intro hx
        rcases List.mem_cons.mp ((h x).mp (List.mem_cons_of_mem _ hx)) with rfl | hmem
        · exact absurd hx hs.not_mem_of_cons
        · exact hmem
      · intro hx
        rcases List.mem_cons.mp ((h x).mpr (List.mem_cons_of_mem _ hx)) with rfl | hmem
        · exact absurd hx hs'.not_mem_of_cons
        · exact hmem
    rw [SortedKeys.eq_of_mem_iff hs.of_cons hs'.of_cons htail]

variable [BEq κ] [LawfulBEq κ]

theorem lookup_eq_none_of_forall_lt {k : κ} {l : List (κ × β)} (h : ∀ e ∈ l, cmp k e.1 = .lt) :
    l.lookup k = none :=
  lookup_eq_none_of_forall_ne fun e he => (ne_of_cmp_eq_lt (h e he)).symm

theorem SortedKeys.lookup_eq_some_iff {l : List (κ × β)} (h : SortedKeys cmp l) {k : κ} {v : β} :
    l.lookup k = some v ↔ (k, v) ∈ l :=
  lookup_eq_some_iff_mem h.pairwise_ne

end Sorted

section Enumerates

variable {cmp : κ → κ → Ordering}

theorem Enumerates.nil {m : κ → Option β} (h : ∀ k, m k = none) : Enumerates cmp [] m :=
  ⟨List.Pairwise.nil, fun k v => by simp [h k]⟩

/-- A listing starts with the least key of the map and goes on with a listing of the rest. -/
theorem Enumerates.cons [DecidableEq κ] {m m' : κ → Option β} {k : κ} {v : β} {out : List (κ × β)}
    (hk : m k = some v) (hrest : ∀ k', m' k' = if k' = k then none else m k')
    (hafter : ∀ k' v', m' k' = some v' → cmp k k' = .lt) (hout : Enumerates cmp out m') :
    Enumerates cmp ((k, v) :: out) m := by
  obtain ⟨hsorted, hmem⟩ := hout
  refine ⟨List.pairwise_cons.mpr ⟨fun e he => hafter e.1 e.2 ((hmem e.1 e.2).mp he), hsorted⟩, ?_⟩
  intro k' v'
  rw [List.mem_cons, hmem, hrest]
  by_cases hk' : k' = k
  · subst hk'
    rw [if_pos rfl, hk]
    simp [eq_comm]
  · rw [if_neg hk']
    simp [hk']

end Enumerates

/-- Sorting distinct elements orders them strictly. -/
theorem pairwise_lt_insertionSort [LinearOrder α] {l : List α} (h : l.Nodup) :
    (l.insertionSort (· ≤ ·)).Pairwise (· < ·) :=
  ((List.pairwise_insertionSort _ l).and ((List.perm_insertionSort _ l).nodup_iff.mpr h)).imp
    fun hab => lt_of_le_of_ne hab.1 hab.2

end TinySql.Lib
