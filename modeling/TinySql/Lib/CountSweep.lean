import Mathlib

/-!
# Merging two lists of intervals by counting

A list of intervals is given by their ends in order, a start followed by an end for each interval;
the interval of a start `s` and an end `e` holds the cuts from `cut s` up to `cut e`, that one
excluded. The ends are ordered by their cut and, at one cut, an end before a start, so two
intervals that touch stay two.

A walk over the two lists merged in that order counts up at a start and down at an end, so that
once it has read every end at or below a cut `t` its count is the number of intervals holding `t`.
Keeping a start where the count reaches `k` and an end where it leaves `k` gives the intervals
where the count is at least `k`: the union of the two lists for `k = 1`, their intersection for
`k = 2`.

The argument is two invariants of the walk: what it kept alternates between starts and ends and is
open exactly while the count is at least `k`; and it is kept in the order it was read, so what it
kept at or below `t` is what it kept while it read the ends at or below `t`.
-/

namespace TinySql.Lib

variable {α γ : Type*} [LinearOrder γ]

section CountSweep

variable (cut : α → γ) (isStart : α → Bool)

/-- The order of the sweep: by cut, and an end before a start at one cut. -/
def eventKey (x : α) : γ ×ₗ Bool :=
  toLex (cut x, isStart x)

/-- One end read by a walk that is outside an interval (`false`) or inside one (`true`). -/
def phaseStep (inside : Bool) (x : α) : Option Bool :=
  if isStart x = !inside then some !inside else none

/-- Where a walk over the ends from outside stops, `none` when a start follows a start or an end
an end. -/
def phase (l : List α) : Option Bool :=
  l.foldlM (phaseStep isStart) false

/-- Starts and ends alternate from a start to an end, in strictly increasing order. -/
def WellFormed (l : List α) : Prop :=
  phase isStart l = some false ∧ l.Pairwise fun x y => eventKey cut isStart x < eventKey cut isStart y

/-- The cuts the intervals hold, each start read with the end after it. -/
def pointCover : List α → Set γ
  | s :: e :: rest => Set.Ico (cut s) (cut e) ∪ pointCover rest
  | _ => ∅

def weight (x : α) : Int :=
  if isStart x then 1 else -1

/-- The starts at or below `t` less the ends there. -/
def height (l : List α) (t : γ) : Int :=
  ((l.filter fun x => cut x ≤ t).map (weight isStart)).sum

/-- One end read by the walk: a start is kept where the count reaches `k`, an end where it leaves
`k`. -/
def countStep (k : Int) (acc : List α × Int) (x : α) : List α × Int :=
  if isStart x then (if acc.2 + 1 = k then acc.1 ++ [x] else acc.1, acc.2 + 1)
  else (if acc.2 = k then acc.1 ++ [x] else acc.1, acc.2 - 1)

/-- What the walk keeps of a list. -/
def countSweep (k : Int) (l : List α) : List α :=
  (l.foldl (countStep isStart k) ([], 0)).1

variable {cut isStart}

/-! ### Alternation -/

theorem foldlM_phaseStep_cons (x : α) (l : List α) (b b' : Bool) :
    (x :: l).foldlM (phaseStep isStart) b = some b' ↔
      isStart x = !b ∧ l.foldlM (phaseStep isStart) (!b) = some b' := by
  rw [List.foldlM_cons]
  unfold phaseStep
  split <;> simp_all

theorem phase_append_singleton (l : List α) (x : α) :
    phase isStart (l ++ [x]) = (phase isStart l).bind fun b => phaseStep isStart b x := by
  unfold phase
  rw [List.foldlM_append]
  cases l.foldlM (phaseStep isStart) false <;> simp

/-- An alternating walk adds up to where it stops less where it started. -/
theorem sum_weight_of_foldlM (l : List α) (b b' : Bool)
    (h : l.foldlM (phaseStep isStart) b = some b') :
    (l.map (weight isStart)).sum = (if b' then 1 else 0) - (if b then 1 else 0) := by
  induction l generalizing b with
  | nil =>
    cases h
    simp
  | cons x l ih =>
    obtain ⟨hx, hl⟩ := (foldlM_phaseStep_cons x l b b').mp h
    rw [List.map_cons, List.sum_cons, ih (!b) hl, weight, hx]
    cases b <;> cases b' <;> simp

/-- Ends that never decrease and alternate strictly increase: two neighbours differ in kind. -/
theorem pairwise_lt_of_foldlM {l : List α} {b b' : Bool}
    (hle : l.Pairwise fun x y => eventKey cut isStart x ≤ eventKey cut isStart y)
    (h : l.foldlM (phaseStep isStart) b = some b') :
    l.Pairwise fun x y => eventKey cut isStart x < eventKey cut isStart y := by
  induction l generalizing b with
  | nil => exact List.Pairwise.nil
  | cons x l ih =>
    obtain ⟨hx, hl⟩ := (foldlM_phaseStep_cons x l b b').mp h
    rw [List.pairwise_cons] at hle ⊢
    refine ⟨fun y hy => (hle.1 y hy).lt_of_ne fun hxy => ?_, ih hle.2 hl⟩
    -- the first end after `x` lies between `x` and `y`, so it has the key of `x`, and its kind
    cases l with
    | nil => cases hy
    | cons z l =>
      obtain ⟨hz, -⟩ := (foldlM_phaseStep_cons z l (!b) b').mp hl
      have hzy : eventKey cut isStart z ≤ eventKey cut isStart y := by
        rcases List.mem_cons.mp hy with rfl | hy
        · exact le_rfl
        · exact List.rel_of_pairwise_cons hle.2 hy
      have hxz : eventKey cut isStart x = eventKey cut isStart z :=
        le_antisymm (hle.1 z List.mem_cons_self) (hxy ▸ hzy)
      have hkind : isStart x = isStart z := congrArg (fun k => (ofLex k).2) hxz
      rw [hx, hz, Bool.not_not] at hkind
      cases b <;> simp at hkind

theorem cut_le_of_eventKey_le {x y : α} (h : eventKey cut isStart x ≤ eventKey cut isStart y) :
    cut x ≤ cut y := by
  rcases Prod.Lex.toLex_le_toLex.mp h with h | ⟨h, -⟩
  · exact h.le
  · exact h.le

theorem eventKey_lt_of_cut_lt {x y : α} (h : cut x < cut y) :
    eventKey cut isStart x < eventKey cut isStart y :=
  Prod.Lex.toLex_lt_toLex.mpr (.inl h)

/-! ### Heights -/

theorem height_nil (t : γ) : height cut isStart [] t = 0 := by
  simp [height]

theorem height_cons (x : α) (l : List α) (t : γ) :
    height cut isStart (x :: l) t = (if cut x ≤ t then weight isStart x else 0) + height cut isStart l t := by
  unfold height
  by_cases hx : cut x ≤ t <;> simp [hx]

theorem height_append (l l' : List α) (t : γ) :
    height cut isStart (l ++ l') t = height cut isStart l t + height cut isStart l' t := by
  simp [height, List.filter_append]

theorem height_perm {l l' : List α} (h : l.Perm l') (t : γ) :
    height cut isStart l t = height cut isStart l' t :=
  ((h.filter _).map _).sum_eq

theorem height_of_forall_le {l : List α} {t : γ} (h : ∀ x ∈ l, cut x ≤ t) :
    height cut isStart l t = (l.map (weight isStart)).sum := by
  rw [height, List.filter_eq_self.mpr fun x hx => decide_eq_true (h x hx)]

theorem height_of_forall_gt {l : List α} {t : γ} (h : ∀ x ∈ l, t < cut x) :
    height cut isStart l t = 0 := by
  rw [height, List.filter_eq_nil_iff.mpr fun x hx => by simpa using h x hx]
  rfl

theorem le_of_mem_cover {l : List α} {t : γ} (h : t ∈ pointCover cut l) : ∃ x ∈ l, cut x ≤ t := by
  match l, h with
  | s :: e :: rest, h =>
    rcases h with h | h
    · exact ⟨s, List.mem_cons_self, h.1⟩
    · obtain ⟨x, hx, hxt⟩ := le_of_mem_cover h
      exact ⟨x, List.mem_cons_of_mem _ (List.mem_cons_of_mem _ hx), hxt⟩

theorem not_mem_pointCover {l : List α} {t : γ} (h : ∀ x ∈ l, t < cut x) :
    t ∉ pointCover cut l := by
  intro hm
  obtain ⟨x, hx, hxt⟩ := le_of_mem_cover hm
  exact absurd hxt (not_le.mpr (h x hx))

theorem not_wellFormed_singleton (x : α) : ¬ WellFormed cut isStart [x] := by
  intro h
  obtain ⟨-, hl⟩ := (foldlM_phaseStep_cons x [] false false).mp h.1
  cases hl

/-- A well-formed list starts with an interval from a start `s` to an end `e` above it, and goes on
with a well-formed list after `e`. -/
theorem WellFormed.cons_cons {s e : α} {rest : List α}
    (h : WellFormed cut isStart (s :: e :: rest)) :
    isStart s = true ∧ isStart e = false ∧ cut s < cut e ∧
      (∀ x ∈ rest, eventKey cut isStart e < eventKey cut isStart x) ∧
      WellFormed cut isStart rest := by
  obtain ⟨hs, hrest⟩ := (foldlM_phaseStep_cons s (e :: rest) false false).mp h.1
  obtain ⟨he, hrest⟩ := (foldlM_phaseStep_cons e rest true false).mp hrest
  simp only [Bool.not_false, Bool.not_true] at hs he
  have hpw := h.2
  rw [List.pairwise_cons, List.pairwise_cons] at hpw
  obtain ⟨hsk, hek, hpw⟩ := hpw
  refine ⟨hs, he, ?_, hek, hrest, hpw⟩
  have hlt := hsk e List.mem_cons_self
  rw [eventKey, eventKey, Prod.Lex.toLex_lt_toLex, hs, he] at hlt
  rcases hlt with hlt | ⟨-, hlt⟩
  · exact hlt
  · exact absurd hlt (by decide : ¬ (true < false))

open Classical in
/-- A well-formed list is at height one inside its intervals and zero outside. -/
theorem height_of_wellFormed : ∀ {l : List α}, WellFormed cut isStart l →
    ∀ t, height cut isStart l t = if t ∈ pointCover cut l then 1 else 0
  | [], _, t => by simp [height_nil, pointCover]
  | [x], h, _ => absurd h (not_wellFormed_singleton x)
  | s :: e :: rest, h, t => by
    obtain ⟨hs, he, hse, hek, hrest⟩ := h.cons_cons
    -- below `e` the rest holds nothing
    have hout : ¬ cut e ≤ t → t ∉ pointCover cut rest := fun het => not_mem_pointCover fun x hx =>
      lt_of_lt_of_le (not_le.mp het) (cut_le_of_eventKey_le (hek x hx).le)
    rw [height_cons, height_cons, height_of_wellFormed hrest t, weight, weight, hs, he]
    simp only [pointCover, Set.mem_union, Set.mem_Ico]
    by_cases hst : cut s ≤ t
    · by_cases het : cut e ≤ t
      · simp [hst, het, not_lt.mpr het]
      · simp [hst, het, hout het]
    · have het : ¬ cut e ≤ t := fun het => hst (hse.le.trans het)
      simp [hst, het, hout het]

/-! ### The walk -/

section Walk

variable (k : Int)

/-- One step keeps the invariant: what was kept alternates and is open exactly while the count is
at least `k`. -/
theorem countStep_spec (out : List α) (c : Int) (x : α)
    (hout : phase isStart out = some (decide (k ≤ c))) :
    ∃ e, e.Sublist [x] ∧ countStep isStart k (out, c) x = (out ++ e, c + weight isStart x) ∧
      phase isStart (out ++ e) = some (decide (k ≤ c + weight isStart x)) := by
  cases hx : isStart x with
  | true =>
    have hw : weight isStart x = 1 := by simp [weight, hx]
    rw [hw]
    by_cases hc : c + 1 = k
    · refine ⟨[x], List.Sublist.refl _, by simp [countStep, hx, hc], ?_⟩
      have h1 : decide (k ≤ c) = false := by simp; omega
      have h2 : decide (k ≤ c + 1) = true := by simp; omega
      rw [phase_append_singleton, hout, Option.bind_some, phaseStep, hx, h1, h2]
      rfl
    · refine ⟨[], List.nil_sublist _, by simp [countStep, hx, hc], ?_⟩
      have h : decide (k ≤ c + 1) = decide (k ≤ c) := decide_eq_decide.mpr (by omega)
      rw [List.append_nil, h, hout]
  | false =>
    have hw : weight isStart x = -1 := by simp [weight, hx]
    rw [hw]
    by_cases hc : c = k
    · refine ⟨[x], List.Sublist.refl _, by simp [countStep, hx, hc, sub_eq_add_neg], ?_⟩
      have h1 : decide (k ≤ c) = true := by simp; omega
      have h2 : decide (k ≤ c + -1) = false := by simp; omega
      rw [phase_append_singleton, hout, Option.bind_some, phaseStep, hx, h1, h2]
      rfl
    · refine ⟨[], List.nil_sublist _, by simp [countStep, hx, hc, sub_eq_add_neg], ?_⟩
      have h : decide (k ≤ c + -1) = decide (k ≤ c) := decide_eq_decide.mpr (by omega)
      rw [List.append_nil, h, hout]

/-- A run of the walk keeps in order a part of what it reads, and keeps the invariant. -/
theorem foldl_countStep (xs out : List α) (c : Int)
    (hout : phase isStart out = some (decide (k ≤ c))) :
    ∃ e, e.Sublist xs ∧
      xs.foldl (countStep isStart k) (out, c) = (out ++ e, c + (xs.map (weight isStart)).sum) ∧
      phase isStart (out ++ e) = some (decide (k ≤ c + (xs.map (weight isStart)).sum)) := by
  induction xs generalizing out c with
  | nil => exact ⟨[], List.Sublist.slnil, by simp, by simpa using hout⟩
  | cons x xs ih =>
    obtain ⟨e₁, he₁, hstep, hphase⟩ := countStep_spec k out c x hout
    obtain ⟨e₂, he₂, hfold, hphase'⟩ := ih (out ++ e₁) (c + weight isStart x) hphase
    refine ⟨e₁ ++ e₂, he₁.append he₂, ?_, ?_⟩
    · rw [List.foldl_cons, hstep, hfold, List.append_assoc, List.map_cons, List.sum_cons, add_assoc]
    · rw [← List.append_assoc, hphase', List.map_cons, List.sum_cons, add_assoc]

/-- A list sorted by cut is the part at or below `t` followed by the part above it. -/
theorem eq_filter_append_filter {l : List α}
    (hl : l.Pairwise fun x y => eventKey cut isStart x ≤ eventKey cut isStart y) (t : γ) :
    l = l.filter (fun x => cut x ≤ t) ++ l.filter (fun x => ¬ cut x ≤ t) := by
  induction l with
  | nil => rfl
  | cons x l ih =>
    rw [List.pairwise_cons] at hl
    by_cases hx : cut x ≤ t
    · rw [List.filter_cons_of_pos (by simpa using hx), List.filter_cons_of_neg (by simpa using hx),
        List.cons_append, ← ih hl.2]
    · have hgt : ∀ y ∈ l, ¬ cut y ≤ t := fun y hy hy' =>
        hx ((cut_le_of_eventKey_le (hl.1 y hy)).trans hy')
      rw [List.filter_cons_of_neg (by simpa using hx), List.filter_cons_of_pos (by simpa using hx),
        List.filter_eq_nil_iff.mpr (by simpa using hgt), List.filter_eq_self.mpr (by simpa using hgt)]
      rfl

theorem phase_countSweep (hk : 0 < k) (l : List α) :
    phase isStart (countSweep isStart k l) = some (decide (k ≤ (l.map (weight isStart)).sum)) ∧
      (countSweep isStart k l).Sublist l := by
  have h0 : phase isStart ([] : List α) = some (decide (k ≤ 0)) := by
    simp only [phase, List.foldlM_nil]
    simp
    omega
  obtain ⟨e, he, hfold, hphase⟩ := foldl_countStep k l [] 0 h0
  simp only [countSweep, hfold, List.nil_append, zero_add] at hphase ⊢
  exact ⟨hphase, he⟩

/-- The walk's height at `t` is one where the list's height at `t` is at least `k`, and zero
elsewhere. -/
theorem height_countSweep (hk : 0 < k) {l : List α}
    (hl : l.Pairwise fun x y => eventKey cut isStart x ≤ eventKey cut isStart y) (t : γ) :
    height cut isStart (countSweep isStart k l) t = if k ≤ height cut isStart l t then 1 else 0 := by
  set below := l.filter fun x => cut x ≤ t
  set above := l.filter fun x => ¬ cut x ≤ t
  have h0 : phase isStart ([] : List α) = some (decide (k ≤ 0)) := by
    simp only [phase, List.foldlM_nil]
    simp
    omega
  obtain ⟨e₁, he₁, hfold₁, hphase₁⟩ := foldl_countStep k below [] 0 h0
  obtain ⟨e₂, he₂, hfold₂, -⟩ := foldl_countStep k above ([] ++ e₁) _ hphase₁
  have hsplit : countSweep isStart k l = e₁ ++ e₂ := by
    rw [countSweep, eq_filter_append_filter hl t, List.foldl_append, hfold₁, hfold₂]
    simp
  have hbelow : ∀ x ∈ e₁, cut x ≤ t := fun x hx => by
    simpa using (List.mem_filter.mp (he₁.subset hx)).2
  have habove : ∀ x ∈ e₂, t < cut x := fun x hx => by
    simpa using (List.mem_filter.mp (he₂.subset hx)).2
  have hsum := sum_weight_of_foldlM e₁ false _ (by simpa [phase] using hphase₁)
  have hheight : (below.map (weight isStart)).sum = height cut isStart l t := rfl
  rw [hsplit, height_append, height_of_forall_le hbelow, height_of_forall_gt habove, add_zero, hsum,
    hheight]
  by_cases hkt : k ≤ height cut isStart l t <;> simp [hkt]

open Classical in
/-- The walk over two well-formed lists merged in sweep order is well formed, and holds `t` where
at least `k` of the lists' intervals do. -/
theorem countSweep_spec (hk : 0 < k) {a b l : List α} (ha : WellFormed cut isStart a)
    (hb : WellFormed cut isStart b) (hperm : l.Perm (a ++ b))
    (hl : l.Pairwise fun x y => eventKey cut isStart x ≤ eventKey cut isStart y) :
    WellFormed cut isStart (countSweep isStart k l) ∧
      ∀ t, t ∈ pointCover cut (countSweep isStart k l) ↔
        k ≤ (if t ∈ pointCover cut a then 1 else 0) + (if t ∈ pointCover cut b then 1 else 0) := by
  obtain ⟨hphase, hsub⟩ := phase_countSweep k hk l
  have hsum : (l.map (weight isStart)).sum = 0 := by
    rw [(hperm.map _).sum_eq, List.map_append, List.sum_append,
      sum_weight_of_foldlM a false false ha.1, sum_weight_of_foldlM b false false hb.1]
    simp
  have hclosed : decide (k ≤ (l.map (weight isStart)).sum) = false := by
    rw [hsum]
    simp
    omega
  have hwf : WellFormed cut isStart (countSweep isStart k l) :=
    ⟨hphase.trans (by rw [hclosed]), pairwise_lt_of_foldlM (hl.sublist hsub) hphase⟩
  refine ⟨hwf, fun t => ?_⟩
  have hheight := height_countSweep k hk hl t
  rw [height_of_wellFormed hwf, height_perm hperm, height_append, height_of_wellFormed ha,
    height_of_wellFormed hb] at hheight
  constructor
  · intro hm
    by_contra hk'
    rw [if_pos hm, if_neg hk'] at hheight
    exact one_ne_zero hheight
  · intro hk'
    by_contra hm
    rw [if_neg hm, if_pos hk'] at hheight
    exact zero_ne_one hheight

/-- Walking with `k = 1` gives the union of the two lists. -/
theorem cover_countSweep_one {a b l : List α} (ha : WellFormed cut isStart a)
    (hb : WellFormed cut isStart b) (hperm : l.Perm (a ++ b))
    (hl : l.Pairwise fun x y => eventKey cut isStart x ≤ eventKey cut isStart y) :
    WellFormed cut isStart (countSweep isStart 1 l) ∧
      pointCover cut (countSweep isStart 1 l) = pointCover cut a ∪ pointCover cut b := by
  obtain ⟨hwf, hmem⟩ := countSweep_spec 1 one_pos ha hb hperm hl
  refine ⟨hwf, Set.ext fun t => ?_⟩
  rw [hmem, Set.mem_union]
  split_ifs <;> simp_all

/-- Walking with `k = 2` gives the intersection of the two lists. -/
theorem cover_countSweep_two {a b l : List α} (ha : WellFormed cut isStart a)
    (hb : WellFormed cut isStart b) (hperm : l.Perm (a ++ b))
    (hl : l.Pairwise fun x y => eventKey cut isStart x ≤ eventKey cut isStart y) :
    WellFormed cut isStart (countSweep isStart 2 l) ∧
      pointCover cut (countSweep isStart 2 l) = pointCover cut a ∩ pointCover cut b := by
  obtain ⟨hwf, hmem⟩ := countSweep_spec 2 two_pos ha hb hperm hl
  refine ⟨hwf, Set.ext fun t => ?_⟩
  rw [hmem, Set.mem_inter_iff]
  split_ifs <;> simp_all

end Walk

/-! ### Reading the cover off a prefix -/

/-- A well-formed list holds `t` exactly where the walk over its part at or below `t` ends inside an
interval. -/
theorem mem_cover_iff_phase {l : List α} (hl : WellFormed cut isStart l) (t : γ) :
    t ∈ pointCover cut l ↔ phase isStart (l.filter fun x => cut x ≤ t) = some true := by
  have hsplit := eq_filter_append_filter (hl.2.imp le_of_lt) t
  -- the walk over the whole list passes through its part at or below `t`
  obtain ⟨b, hb⟩ : ∃ b, phase isStart (l.filter fun x => cut x ≤ t) = some b := by
    have h := hl.1
    rw [hsplit, phase, List.foldlM_append] at h
    cases hf : (l.filter fun x => cut x ≤ t).foldlM (phaseStep isStart) false with
    | none => rw [hf] at h; cases h
    | some b => exact ⟨b, hf⟩
  have hheight := height_of_wellFormed hl t
  rw [height, sum_weight_of_foldlM _ false b hb] at hheight
  rw [hb]
  cases b
  · refine ⟨fun ht => ?_, fun h => by cases h⟩
    rw [if_pos ht] at hheight
    simp at hheight
  · refine ⟨fun _ => rfl, fun _ => ?_⟩
    by_contra ht
    rw [if_neg ht] at hheight
    simp at hheight

/-- Every point of a list sorted by the sweep's order is at or before its last one. -/
theorem eventKey_le_last {l : List α} {q x : α}
    (hl : (l ++ [q]).Pairwise fun x y => eventKey cut isStart x ≤ eventKey cut isStart y)
    (hx : x ∈ l ++ [q]) : eventKey cut isStart x ≤ eventKey cut isStart q := by
  rcases List.mem_append.mp hx with hx | hx
  · exact (List.pairwise_append.mp hl).2.2 x hx q (List.mem_singleton_self q)
  · rw [List.mem_singleton.mp hx]

end CountSweep

/-! ### Cuts below and above a value

A cut `toLex (a, false)` is just below `a` and `toLex (a, true)` just above it. -/

section Cuts

variable {β : Type*} [LinearOrder β] {a b : β}

@[simp] theorem toLex_false_le_toLex_false : toLex (a, false) ≤ toLex (b, false) ↔ a ≤ b := by
  simp [Prod.Lex.toLex_le_toLex']

@[simp] theorem toLex_true_le_toLex_true : toLex (a, true) ≤ toLex (b, true) ↔ a ≤ b := by
  simp [Prod.Lex.toLex_le_toLex']

@[simp] theorem toLex_true_le_toLex_false : toLex (a, true) ≤ toLex (b, false) ↔ a < b := by
  simp [Prod.Lex.toLex_le_toLex]

@[simp] theorem toLex_false_le_toLex_true : toLex (a, false) ≤ toLex (b, true) ↔ a ≤ b := by
  simp [Prod.Lex.toLex_le_toLex']

@[simp] theorem toLex_false_lt_toLex_true : toLex (a, false) < toLex (b, true) ↔ a ≤ b := by
  simp [Prod.Lex.toLex_lt_toLex']

@[simp] theorem toLex_true_lt_toLex_false : toLex (a, true) < toLex (b, false) ↔ a < b := by
  simp [Prod.Lex.toLex_lt_toLex]

@[simp] theorem toLex_false_lt_toLex_false : toLex (a, false) < toLex (b, false) ↔ a < b := by
  simp [Prod.Lex.toLex_lt_toLex]

@[simp] theorem toLex_true_lt_toLex_true : toLex (a, true) < toLex (b, true) ↔ a < b := by
  simp [Prod.Lex.toLex_lt_toLex]

/-- Between the cuts below and above `a` there is only the cut below it. -/
theorem between_iff {t : β ×ₗ Bool} :
    toLex (a, false) ≤ t ∧ t < toLex (a, true) ↔ t = toLex (a, false) := by
  obtain ⟨⟨b, c⟩, rfl⟩ : ∃ p, toLex p = t := ⟨ofLex t, toLex_ofLex t⟩
  cases c
  · simp [le_antisymm_iff, and_comm]
  · simp

end Cuts

end TinySql.Lib
