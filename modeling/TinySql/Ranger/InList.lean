import TinySql.Ranger.Merge

/-!
# The points of `IN` and `NOT IN`

`buildFromIn` makes a closed interval of each constant that is not `NULL`, sorts the points, and
keeps a point only when it is a start after an end kept or an end after a start. Sorted by
`rangePointLess`, the points of one value are its starts and then its ends, so that what is kept is
one start and one end of each value, in increasing order.

The argument reads the kept list off its sorted prefixes. The walk over the points kept at or below
a cut stops where the last sorted point at or below the cut is, and that point is a start exactly
when the cut is the one below a constant's value.
-/

namespace TinySql.Ranger

open TinySql.Types TinySql.Lib

/-- The closed interval of each constant of `IN` that is not `NULL`, before `buildFromIn` sorts
them. -/
def inRangePoints (list : List Datum) : List Point :=
  (list.filter (· ≠ .null)).flatMap fun v => [⟨v, false, true⟩, ⟨v, false, false⟩]

theorem buildFromIn_eq (list : List Datum) :
    buildFromIn list = (removeDup (sortPoints (inRangePoints list)), list.contains .null) :=
  rfl

theorem mem_inRangePoints {list : List Datum} {p : Point} :
    p ∈ inRangePoints list ↔
      ∃ v ∈ list, v ≠ .null ∧ (p = ⟨v, false, true⟩ ∨ p = ⟨v, false, false⟩) := by
  simp [inRangePoints, and_assoc]

/-- `isUnsignedIntCol` of `buildFromNot`. -/
def isUnsignedIntCol (ft : FieldType) : Bool :=
  hasUnsignedFlag ft.flag && ft.tp.isInteger

/-! ### `CompareDatum` against the bounds -/

theorem compareDatum_null_left {v : Datum} (hv : v ≠ .null) : compareDatum .null v = .lt := by
  cases v <;> simp_all [compareDatum, compareInt64, compareUint64, Datum.compareFloat64,
    compareString]

theorem compareDatum_null_right {x : Datum} (hx : x ≠ .null) : compareDatum x .null = .gt := by
  simp [compareDatum, hx]

theorem compareDatum_minNotNull_left {v : Datum} (h1 : v ≠ .null) (h2 : v ≠ .minNotNull) :
    compareDatum .minNotNull v = .lt := by
  cases v <;> simp_all [compareDatum, compareInt64, compareUint64, Datum.compareFloat64,
    compareString]

theorem compareDatum_minNotNull_right {x : Datum} (h1 : x ≠ .null) (h2 : x ≠ .minNotNull) :
    compareDatum x .minNotNull = .gt := by
  cases x <;> simp_all [compareDatum]

theorem compareDatum_maxValue_right {x : Datum} (hx : x ≠ .maxValue) :
    compareDatum x .maxValue = .lt := by
  simp [compareDatum, hx]

/-! ### Duplicate removal -/

theorem removeDupAfter_sublist (last : Point) :
    ∀ ps : List Point, (removeDupAfter last ps).Sublist ps
  | [] => List.Sublist.slnil
  | p :: ps => by
    unfold removeDupAfter
    split
    · exact (removeDupAfter_sublist last ps).cons p
    · exact (removeDupAfter_sublist p ps).cons_cons p

/-- The points kept after `last` alternate with it, and the walk over them stops where the last
point read is. -/
theorem foldlM_removeDupAfter (last : Point) : ∀ ps : List Point,
    (removeDupAfter last ps).foldlM (phaseStep Point.start) last.start =
      some ((ps.map Point.start).getLastD last.start)
  | [] => rfl
  | p :: ps => by
    unfold removeDupAfter
    rw [List.map_cons, List.getLastD_cons]
    split
    · rename_i hp
      rw [foldlM_removeDupAfter last ps, eq_of_beq hp]
    · rename_i hp
      have hflip : p.start = !last.start := by
        revert hp
        cases p.start <;> cases last.start <;> simp
      rw [List.foldlM_cons]
      simp only [phaseStep, if_pos hflip]
      rw [← hflip]
      exact foldlM_removeDupAfter p ps

/-- Keeping the points of a prefix commutes with the removal. -/
theorem filter_removeDupAfter (P : Point → Bool) : ∀ (last : Point) {ps : List Point},
    ps.Pairwise (fun x y => P y = true → P x = true) →
      (removeDupAfter last ps).filter P = removeDupAfter last (ps.filter P)
  | _, [], _ => rfl
  | last, p :: ps, h => by
    rw [List.pairwise_cons] at h
    by_cases hp : P p = true
    · rw [List.filter_cons_of_pos hp]
      unfold removeDupAfter
      split
      · exact filter_removeDupAfter P last h.2
      · rw [List.filter_cons_of_pos hp, filter_removeDupAfter P p h.2]
    · -- past the prefix nothing is kept
      have hnone : ps.filter P = [] :=
        List.filter_eq_nil_iff.mpr fun x hx hx' => hp (h.1 x hx hx')
      rw [List.filter_cons_of_neg hp, hnone]
      refine List.filter_eq_nil_iff.mpr fun x hx hx' => ?_
      rcases List.mem_cons.mp ((removeDupAfter_sublist last (p :: ps)).subset hx) with rfl | hx
      · exact hp hx'
      · exact hp (h.1 x hx hx')

section Kind

variable {β : Type} [LinearOrder β] {K : ComparableKind β}

/-- On the values of the kind, `sortPoints` sorts by the order of the sweep. -/
theorem sortPoints_pairwise {l : List Point} (hk : ∀ p ∈ l, p.value ∈ K.values) :
    (sortPoints l).Pairwise fun p q =>
      eventKey K.cut Point.start p ≤ eventKey K.cut Point.start q := by
  let s : Point → Point → Prop := fun p q =>
    eventKey K.cut Point.start p ≤ eventKey K.cut Point.start q
  have : Std.Total s := ⟨fun p q => le_total _ _⟩
  have : IsTrans Point s := ⟨fun _ _ _ => le_trans⟩
  -- on the list's points the comparison `sortPoints` sorts by is this order
  have hrs : ∀ p ∈ l, ∀ q ∈ l, rangePointLess q p = false ↔ s p q := by
    intro p hp q hq
    rw [rangePointLess_eq (hk q hq) (hk p hp)]
    simp [s]
  have h := List.map_insertionSort (fun p q => rangePointLess q p = false) s id l hrs
  rw [List.map_id, List.map_id] at h
  rw [sortPoints, h]
  exact List.pairwise_insertionSort s l

theorem cut_closedStart (v : Datum) : K.cut ⟨v, false, true⟩ = toLex (K.key v, false) :=
  rfl

theorem cut_closedEnd (v : Datum) : K.cut ⟨v, false, false⟩ = toLex (K.key v, true) :=
  rfl

theorem cut_openStart (v : Datum) : K.cut ⟨v, true, true⟩ = toLex (K.key v, true) :=
  rfl

theorem cut_openEnd (v : Datum) : K.cut ⟨v, true, false⟩ = toLex (K.key v, false) :=
  rfl

theorem cut_of_closedStart {p : Point} (hs : p.start = true) (he : p.excl = false) :
    K.cut p = toLex (K.key p.value, false) := by
  simp [ComparableKind.cut, Point.side, hs, he]

theorem cut_of_closedEnd {p : Point} (hs : p.start = false) (he : p.excl = false) :
    K.cut p = toLex (K.key p.value, true) := by
  simp [ComparableKind.cut, Point.side, hs, he]

/-- `removeDup` of a sorted list from a start to an end is well formed, and holds a cut exactly
where the last point at or below it is a start. -/
theorem removeDup_spec {h : Point} {rest : List Point}
    (hsorted : (h :: rest).Pairwise fun p q =>
      eventKey K.cut Point.start p ≤ eventKey K.cut Point.start q)
    (hh : h.start = true) (hlast : ((h :: rest).map Point.start).getLastD false = false) :
    removeDup (h :: rest) = h :: removeDupAfter h rest ∧
      WellFormed K.cut Point.start (h :: removeDupAfter h rest) ∧
      ∀ t, t ∈ pointCover K.cut (h :: removeDupAfter h rest) ↔
        (((h :: rest).filter fun p => K.cut p ≤ t).map Point.start).getLastD false = true := by
  rw [List.map_cons, List.getLastD_cons] at hlast
  have hwalk := foldlM_removeDupAfter h rest
  rw [hlast, hh] at hwalk
  have hphase : phase Point.start (h :: removeDupAfter h rest) = some false :=
    (foldlM_phaseStep_cons h _ false false).mpr ⟨hh, hwalk⟩
  have hkept : removeDupAfter h rest ≠ [] := by
    intro hnil
    rw [hnil] at hwalk
    cases hwalk
  have hsub : (h :: removeDupAfter h rest).Sublist (h :: rest) :=
    (removeDupAfter_sublist h rest).cons_cons h
  have hwf : WellFormed K.cut Point.start (h :: removeDupAfter h rest) :=
    ⟨hphase, pairwise_lt_of_foldlM (hsorted.sublist hsub) hphase⟩
  refine ⟨by rw [removeDup, if_neg hkept], hwf, fun t => ?_⟩
  rw [mem_cover_iff_phase hwf t]
  have hhead : ∀ p ∈ rest, K.cut h ≤ K.cut p := fun p hp =>
    cut_le_of_eventKey_le (List.rel_of_pairwise_cons hsorted hp)
  by_cases ht : K.cut h ≤ t
  · -- the prefix starts at `h`, and the walk over what is kept of it stops where it does
    have hdownward : rest.Pairwise fun x y => decide (K.cut y ≤ t) = true → decide (K.cut x ≤ t) = true :=
      (List.pairwise_cons.mp hsorted).2.imp fun hxy hy =>
        decide_eq_true ((cut_le_of_eventKey_le hxy).trans (of_decide_eq_true hy))
    have hfilter := filter_removeDupAfter (fun p => decide (K.cut p ≤ t)) h hdownward
    have hwalk' := foldlM_removeDupAfter h (rest.filter fun p => K.cut p ≤ t)
    have hstep : phaseStep Point.start false h = some h.start := by
      simp [phaseStep, hh]
    rw [List.filter_cons_of_pos (p := fun x => decide (K.cut x ≤ t)) (decide_eq_true ht),
      List.filter_cons_of_pos (p := fun x => decide (K.cut x ≤ t)) (decide_eq_true ht), hfilter,
      List.map_cons, List.getLastD_cons, phase, List.foldlM_cons, hstep]
    show (removeDupAfter h _).foldlM _ h.start = some true ↔ _
    rw [hwalk', Option.some_inj]
  · -- nothing is at or below `t`
    have hnone : ∀ p ∈ h :: rest, ¬ K.cut p ≤ t := by
      intro p hp hpt
      rcases List.mem_cons.mp hp with rfl | hp
      · exact ht hpt
      · exact ht ((hhead p hp).trans hpt)
    rw [List.filter_eq_nil_iff.mpr fun p hp => by simpa using hnone p (hsub.subset hp),
      List.filter_eq_nil_iff.mpr fun p hp => by simpa using hnone p hp]
    simp [phase]

variable {list : List Datum} {L : List Point}

/-- The last sorted point at or below a cut is a start exactly where the cut is between the ends of
a constant's interval. -/
theorem lastStart_iff (hL : ∀ p, p ∈ L ↔ p ∈ inRangePoints list)
    (hsorted : L.Pairwise fun p q => eventKey K.cut Point.start p ≤ eventKey K.cut Point.start q)
    (t : β ×ₗ Bool) :
    ((L.filter fun p => K.cut p ≤ t).map Point.start).getLastD false = true ↔
      ∃ v ∈ list, v ≠ .null ∧ toLex (K.key v, false) ≤ t ∧ t < toLex (K.key v, true) := by
  have hstart : ∀ {v}, v ∈ list → v ≠ .null → (⟨v, false, true⟩ : Point) ∈ L := fun hv hv0 =>
    (hL _).mpr (mem_inRangePoints.mpr ⟨_, hv, hv0, .inl rfl⟩)
  have hend : ∀ {v}, v ∈ list → v ≠ .null → (⟨v, false, false⟩ : Point) ∈ L := fun hv hv0 =>
    (hL _).mpr (mem_inRangePoints.mpr ⟨_, hv, hv0, .inr rfl⟩)
  have hbelow : ∀ {p}, p ∈ L → K.cut p ≤ t → p ∈ L.filter fun p => K.cut p ≤ t := fun hp hpt =>
    List.mem_filter.mpr ⟨hp, decide_eq_true hpt⟩
  rcases List.eq_nil_or_concat' (L.filter fun p => K.cut p ≤ t) with hnil | ⟨F, q, hFq⟩
  · -- nothing is at or below `t`, not even a start
    rw [hnil]
    simp only [List.map_nil, List.getLastD_nil, Bool.false_eq_true, false_iff, not_exists,
      not_and]
    intro v hv hv0 hvt _
    have h := hbelow (hstart hv hv0) hvt
    rw [hnil] at h
    cases h
  · have hF : (F ++ [q]).Pairwise fun p q =>
        eventKey K.cut Point.start p ≤ eventKey K.cut Point.start q := hFq ▸ hsorted.filter _
    have hlast : ∀ {p}, p ∈ L → K.cut p ≤ t → K.cut p ≤ K.cut q := fun hp hpt =>
      cut_le_of_eventKey_le (eventKey_le_last hF (hFq ▸ hbelow hp hpt))
    have hqF : q ∈ L.filter fun p => K.cut p ≤ t := hFq ▸ List.mem_append_right F
      (List.mem_singleton_self q)
    obtain ⟨hqL, hqt⟩ := List.mem_filter.mp hqF
    replace hqt := of_decide_eq_true hqt
    rw [hFq, List.map_append, List.map_singleton, List.getLastD_concat]
    obtain ⟨w, hw, hw0, rfl | rfl⟩ := mem_inRangePoints.mp ((hL q).mp hqL)
    · -- the last point is the start of `w`, and the end of `w` is above `t`
      refine ⟨fun _ => ⟨w, hw, hw0, hqt, ?_⟩, fun _ => rfl⟩
      by_contra hle
      have h := hlast (hend hw hw0) (not_lt.mp hle)
      rw [cut_closedEnd, cut_closedStart, toLex_true_le_toLex_false] at h
      exact lt_irrefl _ h
    · -- the last point is the end of `w`, and every start at or below `t` is below `w`
      simp only [Bool.false_eq_true, false_iff, not_exists, not_and]
      intro v hv hv0 hvt htv
      have h := hlast (hstart hv hv0) hvt
      rw [cut_closedStart, cut_closedEnd, toLex_false_le_toLex_true] at h
      rw [cut_closedEnd] at hqt
      exact absurd (lt_of_le_of_lt hqt htv) (by simpa using h)

/-- `buildFromIn` of constants of the kind is a well-formed list of closed intervals of the
constants that are not `NULL`, and holds a cut exactly where it is the cut below one of them. -/
theorem buildFromIn_spec (hk : ∀ v ∈ list, v ∈ K.values) :
    WellFormed K.cut Point.start (buildFromIn list).1 ∧
      (∀ p ∈ (buildFromIn list).1, p.value ∈ list ∧ p.value ≠ .null ∧ p.excl = false) ∧
      ∀ t, t ∈ pointCover K.cut (buildFromIn list).1 ↔
        ∃ v ∈ list, v ≠ .null ∧ t = toLex (K.key v, false) := by
  have hperm := List.perm_insertionSort (fun a b => rangePointLess b a = false) (inRangePoints list)
  have hL : ∀ p, p ∈ sortPoints (inRangePoints list) ↔ p ∈ inRangePoints list :=
    fun p => hperm.mem_iff
  have hkR : ∀ p ∈ inRangePoints list, p.value ∈ K.values := by
    intro p hp
    obtain ⟨v, hv, -, rfl | rfl⟩ := mem_inRangePoints.mp hp <;> exact hk v hv
  have hsorted := sortPoints_pairwise (K := K) hkR
  have hlastStart := lastStart_iff hL hsorted
  rw [buildFromIn_eq]
  generalize sortPoints (inRangePoints list) = L at hL hsorted hlastStart
  cases L with
  | nil =>
    refine ⟨⟨rfl, List.Pairwise.nil⟩, by simp [removeDup], fun t => ?_⟩
    simp only [removeDup, pointCover, Set.mem_empty_iff_false, false_iff, not_exists, not_and]
    intro v hv hv0 _
    have h := (hL ⟨v, false, true⟩).mpr (mem_inRangePoints.mpr ⟨v, hv, hv0, .inl rfl⟩)
    cases h
  | cons h rest =>
    -- the first point is a start: the start of its value is not after it
    have hh : h.start = true := by
      obtain ⟨w, hw, hw0, rfl | rfl⟩ := mem_inRangePoints.mp ((hL h).mp List.mem_cons_self)
      · rfl
      · have hs := (hL ⟨w, false, true⟩).mpr (mem_inRangePoints.mpr ⟨w, hw, hw0, .inl rfl⟩)
        rcases List.mem_cons.mp hs with hs | hs
        · cases hs
        · have h := cut_le_of_eventKey_le (List.rel_of_pairwise_cons hsorted hs)
          rw [cut_closedEnd, cut_closedStart, toLex_true_le_toLex_false] at h
          exact absurd h (lt_irrefl _)
    -- the last point is an end: no cut at or above it is below a value's end
    have hlast : ((h :: rest).map Point.start).getLastD false = false := by
      rcases List.eq_nil_or_concat' (h :: rest) with hnil | ⟨F, q, hFq⟩
      · cases hnil
      · have hle : ∀ p ∈ h :: rest, K.cut p ≤ K.cut q := fun p hp =>
          cut_le_of_eventKey_le (eventKey_le_last (hFq ▸ hsorted) (hFq ▸ hp))
        have hall : ((h :: rest).filter fun p => K.cut p ≤ K.cut q) = h :: rest :=
          List.filter_eq_self.mpr fun p hp => decide_eq_true (hle p hp)
        have := hlastStart (K.cut q)
        rw [hall] at this
        by_contra hq
        obtain ⟨v, hv, hv0, -, hqv⟩ := this.mp (Bool.not_eq_false _ ▸ hq)
        have he := hle _ ((hL _).mpr (mem_inRangePoints.mpr ⟨v, hv, hv0, .inr rfl⟩))
        rw [cut_closedEnd] at he
        exact absurd hqv (not_lt.mpr he)
    obtain ⟨hdup, hwf, hcover⟩ := removeDup_spec hsorted hh hlast
    rw [hdup]
    refine ⟨hwf, fun p hp => ?_, fun t => (hcover t).trans ((hlastStart t).trans ?_)⟩
    · have hp := (hL p).mp (((removeDupAfter_sublist h rest).cons_cons h).subset hp)
      obtain ⟨v, hv, hv0, rfl | rfl⟩ := mem_inRangePoints.mp hp
      · exact ⟨hv, hv0, rfl⟩
      · exact ⟨hv, hv0, rfl⟩
    · exact exists_congr fun v => and_congr_right fun _ => and_congr_right fun _ => between_iff

/-! ### `NOT IN` -/

theorem key_null_lt {v : Datum} (hnull : Datum.null ∈ K.values) (hv : v ∈ K.values)
    (hv0 : v ≠ .null) : K.key .null < K.key v := by
  have h := compareDatum_null_right hv0
  rw [K.compareDatum_eq _ hv _ hnull] at h
  exact compare_gt_iff_gt.mp h

theorem key_lt_maxValue {v : Datum} (hmax : Datum.maxValue ∈ K.values) (hv : v ∈ K.values)
    (hv1 : v ≠ .maxValue) : K.key v < K.key .maxValue := by
  have h := compareDatum_maxValue_right hv1
  rw [K.compareDatum_eq _ hv _ hmax] at h
  exact compare_lt_iff_lt.mp h

variable (K) in
/-- Closed intervals of one value each, from a start to an end, each above `lo` and the one
before it. -/
def ClosedPairs (lo : β) : List Point → Prop
  | s :: e :: rest => s.start = true ∧ e.start = false ∧ s.excl = false ∧ e.excl = false ∧
      lo < K.key s.value ∧ K.key e.value = K.key s.value ∧ ClosedPairs (K.key s.value) rest
  | [] => True
  | [_] => False

theorem ClosedPairs.mono {lo lo' : β} (hle : lo' ≤ lo) :
    ∀ {l : List Point}, ClosedPairs K lo l → ClosedPairs K lo' l
  | [], h => h
  | [_], h => h
  | _ :: _ :: _, ⟨hs, he, hse, hee, hlo, hkey, hrest⟩ =>
    ⟨hs, he, hse, hee, lt_of_le_of_lt hle hlo, hkey, hrest⟩

theorem ClosedPairs.lt_key : ∀ {lo : β} {l : List Point}, ClosedPairs K lo l →
    ∀ p ∈ l, lo < K.key p.value
  | _, [], _ => by simp
  | _, [_], h => h.elim
  | _, s :: e :: rest, ⟨_, _, _, _, hlo, hkey, hrest⟩ => by
    intro p hp
    rcases List.mem_cons.mp hp with rfl | hp
    · exact hlo
    rcases List.mem_cons.mp hp with rfl | hp
    · rw [hkey]
      exact hlo
    · exact hlo.trans (hrest.lt_key p hp)

/-- Closed one-value intervals hold only the cuts below their values. -/
theorem ClosedPairs.mem_cover : ∀ {lo : β} {l : List Point}, ClosedPairs K lo l →
    ∀ {t}, t ∈ pointCover K.cut l → ∃ p ∈ l, t = toLex (K.key p.value, false)
  | _, [], _, _, ht => ht.elim
  | _, [_], h, _, _ => h.elim
  | _, s :: e :: rest, ⟨hs, he, hse, hee, _, hkey, hrest⟩, t, ht => by
    rcases ht with ht | ht
    · rw [Set.mem_Ico, cut_of_closedStart hs hse, cut_of_closedEnd he hee, hkey, between_iff] at ht
      exact ⟨s, List.mem_cons_self, ht⟩
    · obtain ⟨p, hp, rfl⟩ := hrest.mem_cover ht
      exact ⟨p, List.mem_cons_of_mem _ (List.mem_cons_of_mem _ hp), rfl⟩

/-- A well-formed list of closed intervals that holds no cut above a value is made of intervals of
one value each. -/
theorem closedPairs_of_cover : ∀ {lo : β} {l : List Point}, WellFormed K.cut Point.start l →
    (∀ p ∈ l, p.excl = false) → (∀ t ∈ pointCover K.cut l, (ofLex t).2 = false) →
    (∀ p ∈ l, p.start = true → lo < K.key p.value) → ClosedPairs K lo l
  | _, [], _, _, _, _ => trivial
  | _, [p], hwf, _, _, _ => absurd hwf (not_wellFormed_singleton p)
  | lo, s :: e :: rest, hwf, hexcl, hcov, hlo => by
    obtain ⟨hs, he, hcut, hek, hrest⟩ := hwf.cons_cons
    have hse := hexcl s List.mem_cons_self
    have hee := hexcl e (List.mem_cons_of_mem _ List.mem_cons_self)
    have hcs := cut_of_closedStart (K := K) hs hse
    have hce := cut_of_closedEnd (K := K) he hee
    have hle : K.key s.value ≤ K.key e.value := by
      have h := hcut.le
      rwa [hcs, hce, toLex_false_le_toLex_true] at h
    -- an interval over more than one value would hold the cut above its start's value
    have hkey : K.key e.value = K.key s.value := by
      refine (le_antisymm hle ?_).symm
      by_contra hlt
      have hin : toLex (K.key s.value, true) ∈ pointCover K.cut (s :: e :: rest) := by
        refine Or.inl ⟨?_, ?_⟩
        · rw [hcs]
          exact toLex_false_le_toLex_true.mpr le_rfl
        · rw [hce]
          exact Prod.Lex.toLex_lt_toLex.mpr (.inl (lt_of_not_ge hlt))
      exact absurd (hcov _ hin) (by simp)
    refine ⟨hs, he, hse, hee, hlo s List.mem_cons_self hs, hkey, ?_⟩
    refine closedPairs_of_cover hrest (fun p hp => hexcl p (by simp [hp]))
      (fun t ht => hcov t (Or.inr ht)) fun p hp hps => ?_
    have h := cut_le_of_eventKey_le (hek p hp).le
    rwa [hce, cut_of_closedStart hps (hexcl p (by simp [hp])), toLex_true_le_toLex_false, hkey] at h

theorem phase_notInPoints : ∀ (prev : Datum) (l : List Point),
    phase Point.start (notInPoints prev l) = some false
  | _, [] => rfl
  | _, [_] => rfl
  | prev, s :: _ :: rest => by
    rw [notInPoints, phase, foldlM_phaseStep_cons, foldlM_phaseStep_cons]
    exact ⟨rfl, rfl, phase_notInPoints s.value rest⟩

theorem value_mem_notInPoints : ∀ {prev : Datum} {l : List Point}, ∀ q ∈ notInPoints prev l,
    q.value = prev ∨ q.value = .maxValue ∨ ∃ p ∈ l, q.value = p.value
  | _, [], q, hq => by
    simp only [notInPoints, List.mem_cons, List.not_mem_nil, or_false] at hq
    rcases hq with rfl | rfl <;> simp
  | _, [s], q, hq => by
    simp only [notInPoints, List.mem_cons, List.not_mem_nil, or_false] at hq
    rcases hq with rfl | rfl | rfl | rfl <;> simp
  | _, s :: e :: rest, q, hq => by
    rcases List.mem_cons.mp hq with rfl | hq
    · exact .inl rfl
    rcases List.mem_cons.mp hq with rfl | hq
    · exact .inr (.inr ⟨s, List.mem_cons_self, rfl⟩)
    rcases value_mem_notInPoints q hq with h | h | ⟨p, hp, h⟩
    · exact .inr (.inr ⟨s, List.mem_cons_self, h⟩)
    · exact .inr (.inl h)
    · exact .inr (.inr ⟨p, by simp [hp], h⟩)

/-- The gaps between closed one-value intervals above `prev` and below `MaxValue` are in the
order of the sweep, from the cut above `prev` on. -/
theorem notInPoints_sorted : ∀ {prev : Datum} {l : List Point}, ClosedPairs K (K.key prev) l →
    (∀ p ∈ l, K.key p.value < K.key .maxValue) → K.key prev < K.key .maxValue →
    (∀ q ∈ notInPoints prev l, toLex (K.key prev, true) ≤ K.cut q) ∧
      (notInPoints prev l).Pairwise fun p q =>
        eventKey K.cut Point.start p < eventKey K.cut Point.start q
  | prev, [], _, _, hprev => by
    refine ⟨fun q hq => ?_, ?_⟩
    · simp only [notInPoints, List.mem_cons, List.not_mem_nil, or_false] at hq
      rcases hq with rfl | rfl
      · rw [cut_openStart]
      · rw [cut_closedEnd]
        exact toLex_true_le_toLex_true.mpr hprev.le
    · simp only [notInPoints, List.pairwise_cons, List.mem_singleton, forall_eq,
        List.not_mem_nil, IsEmpty.forall_iff, implies_true, List.Pairwise.nil, and_true]
      apply eventKey_lt_of_cut_lt
      rw [cut_openStart, cut_closedEnd]
      exact toLex_true_lt_toLex_true.mpr hprev
  | _, [_], h, _, _ => h.elim
  | prev, s :: e :: rest, ⟨_, _, _, _, hlo, _, hrest⟩, hmax, _ => by
    have hsmax := hmax s List.mem_cons_self
    obtain ⟨hbound, hpw⟩ := notInPoints_sorted hrest (fun p hp => hmax p (by simp [hp])) hsmax
    -- the gap below `s` ends below everything after it
    have hqn : ∀ n ∈ notInPoints s.value rest, K.cut ⟨s.value, true, false⟩ < K.cut n := by
      intro n hn
      apply lt_of_lt_of_le _ (hbound n hn)
      rw [cut_openEnd]
      exact toLex_false_lt_toLex_true.mpr le_rfl
    have hpq : K.cut ⟨prev, true, true⟩ < K.cut ⟨s.value, true, false⟩ := by
      rw [cut_openStart, cut_openEnd]
      exact toLex_true_lt_toLex_false.mpr hlo
    rw [notInPoints]
    refine ⟨fun n hn => ?_, ?_⟩
    · rw [← cut_openStart]
      rcases List.mem_cons.mp hn with rfl | hn
      · exact le_rfl
      rcases List.mem_cons.mp hn with rfl | hn
      · exact hpq.le
      · exact (hpq.trans (hqn n hn)).le
    · refine List.Pairwise.cons (fun n hn => ?_) (List.Pairwise.cons (fun n hn =>
        eventKey_lt_of_cut_lt (hqn n hn)) hpw)
      rcases List.mem_cons.mp hn with rfl | hn
      · exact eventKey_lt_of_cut_lt hpq
      · exact eventKey_lt_of_cut_lt (hpq.trans (hqn n hn))

/-- The gaps between closed one-value intervals above `prev` hold the cut below a value exactly
when the value is above `prev`, at most `MaxValue`, and none of the intervals'. -/
theorem cover_notInPoints : ∀ {prev : Datum} {l : List Point}, ClosedPairs K (K.key prev) l →
    (∀ p ∈ l, K.key p.value < K.key .maxValue) → ∀ k : β,
    toLex (k, false) ∈ pointCover K.cut (notInPoints prev l) ↔
      K.key prev < k ∧ k ≤ K.key .maxValue ∧ ∀ p ∈ l, k ≠ K.key p.value
  | prev, [], _, _, k => by
    simp [notInPoints, pointCover, cut_openStart, cut_closedEnd]
  | _, [_], h, _, _ => h.elim
  | prev, s :: e :: rest, ⟨_, _, _, _, hlo, hkey, hrest⟩, hmax, k => by
    have hgt := hrest.lt_key
    have hsmax := hmax s List.mem_cons_self
    rw [notInPoints, pointCover, Set.mem_union, Set.mem_Ico, cut_openStart, cut_openEnd,
      cover_notInPoints hrest (fun p hp => hmax p (by simp [hp])) k, toLex_true_le_toLex_false,
      toLex_false_lt_toLex_false, List.forall_mem_cons, List.forall_mem_cons, hkey]
    constructor
    · rintro (⟨h1, h2⟩ | ⟨h1, h2, h3⟩)
      · exact ⟨h1, (h2.trans hsmax).le, h2.ne, h2.ne, fun p hp => (h2.trans (hgt p hp)).ne⟩
      · exact ⟨hlo.trans h1, h2, h1.ne', h1.ne', h3⟩
    · rintro ⟨h1, h2, h3, -, h4⟩
      rcases lt_or_gt_of_ne h3 with h | h
      · exact .inl ⟨h1, h⟩
      · exact .inr ⟨h, h2, h4⟩

theorem dropNegative_sublist : ∀ l : List Point, (dropNegative l).Sublist l
  | [] => List.Sublist.slnil
  | [s] => by
    unfold dropNegative
    split
    · exact List.Sublist.refl _
    · exact List.nil_sublist _
  | s :: e :: rest => by
    unfold dropNegative
    split
    · exact List.Sublist.refl _
    · exact ((dropNegative_sublist rest).cons e).cons s

theorem ClosedPairs.dropNegative : ∀ {lo : β} {l : List Point}, ClosedPairs K lo l →
    ClosedPairs K lo (dropNegative l)
  | _, [], h => h
  | _, [_], h => h.elim
  | _, s :: e :: rest, h => by
    unfold TinySql.Ranger.dropNegative
    split
    · exact h
    · exact h.2.2.2.2.2.2.dropNegative.mono h.2.2.2.2.1.le

/-- Dropping the intervals of negative starts keeps what is said of the values unless it is said
of a negative value. -/
theorem forall_dropNegative_iff (k : β) : ∀ {lo : β} {l : List Point}, ClosedPairs K lo l →
    (∀ p ∈ l, isNonNegative p.value = false → k ≠ K.key p.value) →
    ((∀ p ∈ dropNegative l, k ≠ K.key p.value) ↔ ∀ p ∈ l, k ≠ K.key p.value)
  | _, [], _, _ => Iff.rfl
  | _, [_], h, _ => h.elim
  | _, s :: e :: rest, ⟨_, _, _, _, _, hkey, hrest⟩, hneg => by
    unfold dropNegative
    split
    · exact Iff.rfl
    · rename_i hs
      have hks : k ≠ K.key s.value := hneg s List.mem_cons_self (by simpa using hs)
      rw [forall_dropNegative_iff k hrest fun p hp => hneg p (by simp [hp]), List.forall_mem_cons,
        List.forall_mem_cons, hkey]
      exact ⟨fun h => ⟨hks, hks, h⟩, fun h => h.2.2⟩

theorem buildFromNotIn_eq (col : FieldType) (list : List Datum) :
    buildFromNotIn col list =
      if list.contains .null = true then []
      else notInPoints .null (if isUnsignedIntCol col = true then dropNegative (buildFromIn list).1
        else (buildFromIn list).1) :=
  rfl

/-- `buildFromNot` of `IN` with constants of the kind, none of them `NULL`: a well-formed list that
holds the cut below a value other than `MaxValue` exactly when the value is not `NULL` and equal to
no constant, for a value equal to no negative constant that an unsigned column drops. -/
theorem buildFromNotIn_spec (col : FieldType) (hnull : Datum.null ∈ K.values)
    (hmax : Datum.maxValue ∈ K.values) (hk : ∀ v ∈ list, v ∈ K.values ∧ v ≠ .maxValue)
    (hnn : list.contains .null = false) :
    WellFormed K.cut Point.start (buildFromNotIn col list) ∧
      (∀ p ∈ buildFromNotIn col list, p.value ∈ K.values) ∧
      ∀ x ∈ K.values, x ≠ .maxValue →
        (isUnsignedIntCol col = true → ∀ v ∈ list, isNonNegative v = false →
          compareDatum x v ≠ .eq) →
        (K.pos x ∈ pointCover K.cut (buildFromNotIn col list) ↔
          x ≠ .null ∧ ∀ v ∈ list, compareDatum x v ≠ .eq) := by
  obtain ⟨hwf, hout, hcover⟩ := buildFromIn_spec (K := K) fun v hv => (hk v hv).1
  set out := (buildFromIn list).1
  have hvals : ∀ p ∈ out, p.value ∈ K.values := fun p hp => (hk _ (hout p hp).1).1
  have hpairs : ClosedPairs K (K.key .null) out :=
    closedPairs_of_cover hwf (fun p hp => (hout p hp).2.2)
      (fun t ht => by obtain ⟨v, -, -, rfl⟩ := (hcover t).mp ht; rfl)
      (fun p hp _ => key_null_lt hnull (hvals p hp) (hout p hp).2.1)
  set out' := if isUnsignedIntCol col = true then dropNegative out else out with hout'
  have hsub : out'.Sublist out := by
    rw [hout']
    split
    · exact dropNegative_sublist out
    · exact List.Sublist.refl out
  have hpairs' : ClosedPairs K (K.key .null) out' := by
    rw [hout']
    split
    · exact hpairs.dropNegative
    · exact hpairs
  have hmaxk : ∀ p ∈ out', K.key p.value < K.key .maxValue := fun p hp =>
    key_lt_maxValue hmax (hvals p (hsub.subset hp)) (hk _ (hout p (hsub.subset hp)).1).2
  have hnullmax : K.key .null < K.key .maxValue := key_lt_maxValue hmax hnull (by decide)
  rw [buildFromNotIn_eq, if_neg (Bool.eq_false_iff.mp hnn)]
  obtain ⟨-, hpw⟩ := notInPoints_sorted hpairs' hmaxk hnullmax
  refine ⟨⟨phase_notInPoints _ _, hpw⟩, fun q hq => ?_, fun x hx hx1 hneg => ?_⟩
  · rcases value_mem_notInPoints q hq with h | h | ⟨p, hp, h⟩
    · rw [h]
      exact hnull
    · rw [h]
      exact hmax
    · rw [h]
      exact hvals p (hsub.subset hp)
  -- what the gaps say of the values left after the drop, they say of all the constants
  have hdrop : (∀ p ∈ out', K.key x ≠ K.key p.value) ↔ ∀ p ∈ out, K.key x ≠ K.key p.value := by
    rw [hout']
    split
    · rename_i hu
      refine forall_dropNegative_iff _ hpairs fun p hp hpn => ?_
      have h := hneg hu p.value (hout p hp).1 hpn
      rwa [K.compareDatum_eq _ hx _ (hvals p hp), Ne, compare_eq_iff_eq] at h
    · exact Iff.rfl
  have hconst : (∀ p ∈ out, K.key x ≠ K.key p.value) ↔ ∀ v ∈ list, compareDatum x v ≠ .eq := by
    constructor
    · intro h v hv hxv
      have hv0 : v ≠ .null := by
        rintro rfl
        simp [hv] at hnn
      obtain ⟨p, hp, hpv⟩ := hpairs.mem_cover ((hcover _).mpr ⟨v, hv, hv0, rfl⟩)
      rw [K.compareDatum_eq _ hx _ (hk v hv).1, compare_eq_iff_eq] at hxv
      simp only [toLex_inj, Prod.mk.injEq, and_true] at hpv
      exact h p hp (hxv.trans hpv)
    · intro h p hp hxp
      have hx' := h p.value (hout p hp).1
      rw [K.compareDatum_eq _ hx _ (hvals p hp), Ne, compare_eq_iff_eq] at hx'
      exact hx' hxp
  have hxnull : K.key .null < K.key x ↔ x ≠ .null :=
    ⟨fun h hx0 => by rw [hx0] at h; exact lt_irrefl _ h, key_null_lt hnull hx⟩
  rw [ComparableKind.pos, cover_notInPoints hpairs' hmaxk, hdrop, hconst, hxnull]
  have hxmax := key_lt_maxValue hmax hx hx1
  exact ⟨fun h => ⟨h.1, h.2.2⟩, fun h => ⟨h.1, hxmax.le, h.2⟩⟩

end Kind

end TinySql.Ranger
