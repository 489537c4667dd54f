import TinySql.Ranger.Points
import TinySql.Lib.CountSweep
import TinySql.Lib.GoInt

/-!
# `union` and `intersection` of range points

`builder.merge` is the counting sweep of `TinySql.Lib.CountSweep`. A point cuts the values of its
column below or above its value: a closed start and an open end below it, an open start and a
closed end above it. At one value `rangePointLess` puts an open end first, then a closed start,
then a closed end, then an open start, which is the order of the sweep by cut and, at one cut, an
end before a start.

The values are those of one comparable kind, with `NULL`, `MinNotNull` and `MaxValue`, on which
`CompareDatum` is the comparison of a linear order (`ComparableKind`). On such values two
well-formed point lists merge into a well-formed point list that holds the values the two lists
hold, for `union`, and the values both hold, for `intersection`.
-/

namespace TinySql.Ranger

open TinySql.Types TinySql.Lib

/-- A set of datums that `CompareDatum` compares as `key` maps them into a linear order. -/
structure ComparableKind (β : Type) [LinearOrder β] where
  values : Set Datum
  key : Datum → β
  compareDatum_eq : ∀ x ∈ values, ∀ y ∈ values, compareDatum x y = compare (key x) (key y)

/-- The side of its value a point cuts at: below it (`false`) or above it (`true`). -/
def Point.side (p : Point) : Bool :=
  p.start == p.excl

/-- Whether a datum lies between a start point and an end point. -/
def inInterval (s e : Point) (x : Datum) : Bool :=
  (if s.excl then compareDatum x s.value == .gt else compareDatum x s.value != .lt) &&
    (if e.excl then compareDatum x e.value == .lt else compareDatum x e.value != .gt)

/-- Whether a datum lies in one of the intervals of a point list, each start read with the end
after it. -/
def inPoints : List Point → Datum → Bool
  | s :: e :: rest, x => inInterval s e x || inPoints rest x
  | _, _ => false

/-- Starts and ends alternate from a start to an end, so that the length is even, and each point
is `rangePointLess` than every later one. -/
def PointsWellFormed (l : List Point) : Prop :=
  phase Point.start l = some false ∧ l.Pairwise fun p q => rangePointLess p q = true

instance (l : List Point) : Decidable (PointsWellFormed l) :=
  inferInstanceAs (Decidable (_ ∧ _))

/-- At one value, `rangePointEqualValueLess` orders the points by side and then an end first. -/
theorem rangePointEqualValueLess_eq (p q : Point) :
    rangePointEqualValueLess p q = decide (toLex (p.side, p.start) < toLex (q.side, q.start)) := by
  obtain ⟨_, pe, ps⟩ := p
  obtain ⟨_, qe, qs⟩ := q
  cases pe <;> cases ps <;> cases qe <;> cases qs <;> rfl

theorem merge_eq (a b : List Point) (union : Bool) :
    merge a b union = countSweep Point.start (if union then 1 else 2) (mergeSorted a b) :=
  rfl

theorem mergeSortedAux_perm : ∀ (n : Nat) (a b : List Point), (mergeSortedAux n a b).Perm (a ++ b)
  | 0, a, b => List.Perm.refl _
  | _ + 1, [], b => List.Perm.refl b
  | _ + 1, x :: a, [] => by
    rw [List.append_nil]
    exact List.Perm.refl _
  | n + 1, x :: a, y :: b => by
    unfold mergeSortedAux
    split
    · exact (mergeSortedAux_perm n a (y :: b)).cons x
    · exact ((mergeSortedAux_perm n (x :: a) b).cons y).trans List.perm_middle.symm

section Kind

variable {β : Type} [LinearOrder β] (K : ComparableKind β)

/-- Where a point cuts the values of the kind. -/
def ComparableKind.cut (p : Point) : β ×ₗ Bool :=
  toLex (K.key p.value, p.side)

/-- Where a value lies among the cuts: on the cut below it. -/
def ComparableKind.pos (x : Datum) : β ×ₗ Bool :=
  toLex (K.key x, false)

variable {K}

/-- On the values of the kind `rangePointLess` is the order of the sweep. -/
theorem rangePointLess_eq {p q : Point} (hp : p.value ∈ K.values) (hq : q.value ∈ K.values) :
    rangePointLess p q = decide (eventKey K.cut Point.start p < eventKey K.cut Point.start q) := by
  unfold rangePointLess
  rw [K.compareDatum_eq _ hp _ hq]
  simp only [eventKey, ComparableKind.cut, Prod.Lex.toLex_lt_toLex]
  rcases lt_trichotomy (K.key p.value) (K.key q.value) with h | h | h
  · simp [compare_lt_iff_lt.mpr h, h]
  · simp [rangePointEqualValueLess_eq, h, Prod.Lex.toLex_lt_toLex]
  · simp [compare_gt_iff_gt.mpr h, h.not_gt, h.ne']

/-- A start admits the values on or above its cut. -/
theorem startAdmits_iff {s : Point} {x : Datum} (hs : s.value ∈ K.values) (hx : x ∈ K.values)
    (hstart : s.start = true) :
    (if s.excl then compareDatum x s.value == .gt else compareDatum x s.value != .lt) = true ↔
      K.cut s ≤ K.pos x := by
  rw [K.compareDatum_eq _ hx _ hs, ComparableKind.cut, ComparableKind.pos, Point.side, hstart,
    Prod.Lex.toLex_le_toLex']
  cases s.excl
  · simp only [Bool.false_eq_true, if_false, bne_iff_ne, ne_eq, compare_ge_iff_ge]
    exact ⟨fun h => ⟨h, fun _ => by decide⟩, fun h => h.1⟩
  · have hf : ¬ ((true == true) ≤ false) := by decide
    simp only [if_true, beq_iff_eq, compare_gt_iff_gt]
    exact ⟨fun h => ⟨h.le, fun he => absurd he h.ne⟩, fun h => lt_of_le_of_ne h.1 fun he => hf (h.2 he)⟩

/-- An end admits the values below its cut. -/
theorem endAdmits_iff {e : Point} {x : Datum} (he : e.value ∈ K.values) (hx : x ∈ K.values)
    (hend : e.start = false) :
    (if e.excl then compareDatum x e.value == .lt else compareDatum x e.value != .gt) = true ↔
      K.pos x < K.cut e := by
  rw [K.compareDatum_eq _ hx _ he, ComparableKind.cut, ComparableKind.pos, Point.side, hend,
    Prod.Lex.toLex_lt_toLex']
  cases e.excl
  · simp [compare_le_iff_le]
  · simp [compare_lt_iff_lt, lt_iff_le_and_ne]

/-- A point list holds a value of the kind where the sweep's intervals hold its position. -/
theorem inPoints_iff : ∀ {l : List Point}, (∀ p ∈ l, p.value ∈ K.values) →
    (l.foldlM (phaseStep Point.start) false = some false) →
    ∀ {x : Datum}, x ∈ K.values → (inPoints l x = true ↔ K.pos x ∈ pointCover K.cut l)
  | [], _, _, _, _ => by simp [inPoints, pointCover]
  | [p], _, h, _, _ => by
    obtain ⟨-, hl⟩ := (foldlM_phaseStep_cons p [] false false).mp h
    cases hl
  | s :: e :: rest, hk, h, x, hx => by
    obtain ⟨hs, hrest⟩ := (foldlM_phaseStep_cons s (e :: rest) false false).mp h
    obtain ⟨he, hrest⟩ := (foldlM_phaseStep_cons e rest true false).mp hrest
    have ih := inPoints_iff (l := rest) (fun p hp => hk p (by simp [hp])) hrest hx
    rw [inPoints, pointCover, Bool.or_eq_true, inInterval, Bool.and_eq_true,
      startAdmits_iff (hk s (by simp)) hx hs, endAdmits_iff (hk e (by simp)) hx he, ih]
    rfl

theorem wellFormed_iff {l : List Point} (hk : ∀ p ∈ l, p.value ∈ K.values) :
    PointsWellFormed l ↔ WellFormed K.cut Point.start l := by
  refine and_congr_right fun _ => ⟨fun h => h.imp_of_mem fun hp hq hpq => ?_,
    fun h => h.imp_of_mem fun hp hq hpq => ?_⟩
  · simpa [rangePointLess_eq (hk _ hp) (hk _ hq)] using hpq
  · simpa [rangePointLess_eq (hk _ hp) (hk _ hq)] using hpq

/-- `mergeSorted`, with the fuel it is given, merges two sorted lists into one in the sweep's
order. -/
theorem mergeSortedAux_sorted : ∀ (n : Nat) (a b : List Point), a.length + b.length ≤ n →
    (∀ p ∈ a ++ b, p.value ∈ K.values) →
    a.Pairwise (fun p q => eventKey K.cut Point.start p < eventKey K.cut Point.start q) →
    b.Pairwise (fun p q => eventKey K.cut Point.start p < eventKey K.cut Point.start q) →
    (mergeSortedAux n a b).Pairwise fun p q => eventKey K.cut Point.start p ≤ eventKey K.cut Point.start q
  | 0, a, b, hn, _, _, _ => by
    obtain ⟨rfl, rfl⟩ : a = [] ∧ b = [] := by simpa using hn
    exact List.Pairwise.nil
  | _ + 1, [], b, _, _, _, hb => by
    simpa [mergeSortedAux] using hb.imp le_of_lt
  | _ + 1, x :: a, [], _, _, ha, _ => by
    simpa [mergeSortedAux] using ha.imp le_of_lt
  | n + 1, x :: a, y :: b, hn, hk, ha, hb => by
    have hx := hk x (by simp)
    have hy := hk y (by simp)
    rw [List.pairwise_cons] at ha hb
    unfold mergeSortedAux
    split
    · next hxy =>
      rw [rangePointLess_eq hx hy, decide_eq_true_iff] at hxy
      refine List.pairwise_cons.mpr ⟨fun z hz => ?_,
        mergeSortedAux_sorted n a (y :: b) (by simp at hn ⊢; omega)
          (fun p hp => hk p (by simp at hp ⊢; tauto)) ha.2 (List.pairwise_cons.mpr hb)⟩
      -- what follows `x` is from `a`, which is above `x`, or from `y :: b`, which is above `y`
      rcases List.mem_append.mp ((mergeSortedAux_perm n a (y :: b)).subset hz) with hz | hz
      · exact (ha.1 z hz).le
      · rcases List.mem_cons.mp hz with rfl | hz
        · exact hxy.le
        · exact (hxy.trans (hb.1 z hz)).le
    · next hxy =>
      rw [rangePointLess_eq hx hy, decide_eq_true_iff, not_lt] at hxy
      refine List.pairwise_cons.mpr ⟨fun z hz => ?_,
        mergeSortedAux_sorted n (x :: a) b (by simp at hn ⊢; omega)
          (fun p hp => hk p (by simp at hp ⊢; tauto)) (List.pairwise_cons.mpr ha) hb.2⟩
      rcases List.mem_append.mp ((mergeSortedAux_perm n (x :: a) b).subset hz) with hz | hz
      · rcases List.mem_cons.mp hz with rfl | hz
        · exact hxy
        · exact hxy.trans (ha.1 z hz).le
      · exact (hb.1 z hz).le

/-- `merge` with a count of one or two over well-formed lists of the kind: a well-formed list of
the kind, whose sweep intervals are those of the count sweep. -/
theorem merge_spec {a b : List Point} (hka : ∀ p ∈ a, p.value ∈ K.values)
    (hkb : ∀ p ∈ b, p.value ∈ K.values) (ha : PointsWellFormed a) (hb : PointsWellFormed b)
    (union : Bool) :
    (∀ p ∈ merge a b union, p.value ∈ K.values) ∧
      (mergeSorted a b).Perm (a ++ b) ∧
      (mergeSorted a b).Pairwise fun p q => eventKey K.cut Point.start p ≤ eventKey K.cut Point.start q := by
  have hk : ∀ p ∈ a ++ b, p.value ∈ K.values := by
    intro p hp
    rcases List.mem_append.mp hp with hp | hp
    · exact hka p hp
    · exact hkb p hp
  have hperm := mergeSortedAux_perm (a.length + b.length) a b
  refine ⟨fun p hp => hk p (hperm.subset ?_), hperm, ?_⟩
  · rw [merge_eq] at hp
    exact (phase_countSweep _ (by split <;> norm_num) _).2.subset hp
  · exact mergeSortedAux_sorted _ a b le_rfl hk ((wellFormed_iff hka).mp ha).2
      ((wellFormed_iff hkb).mp hb).2

/-- On the values of one comparable kind, `union` of well-formed point lists is well formed and
holds the values one of the lists holds. -/
theorem union_spec {a b : List Point} (hka : ∀ p ∈ a, p.value ∈ K.values)
    (hkb : ∀ p ∈ b, p.value ∈ K.values) (ha : PointsWellFormed a) (hb : PointsWellFormed b) :
    PointsWellFormed (union a b) ∧ (∀ p ∈ union a b, p.value ∈ K.values) ∧
      ∀ x ∈ K.values, inPoints (union a b) x = (inPoints a x || inPoints b x) := by
  obtain ⟨hku, hperm, hsorted⟩ := merge_spec hka hkb ha hb true
  obtain ⟨hwfu, hcovu⟩ := cover_countSweep_one ((wellFormed_iff hka).mp ha)
    ((wellFormed_iff hkb).mp hb) hperm hsorted
  refine ⟨(wellFormed_iff hku).mpr hwfu, hku, fun x hx => ?_⟩
  rw [Bool.eq_iff_iff, Bool.or_eq_true, union, inPoints_iff hku hwfu.1 hx, inPoints_iff hka ha.1 hx,
    inPoints_iff hkb hb.1 hx]
  exact (Set.ext_iff.mp hcovu _).trans (Set.mem_union _ _ _)

/-- On the values of one comparable kind, `intersection` of well-formed point lists is well formed
and holds the values both lists hold. -/
theorem intersection_spec {a b : List Point} (hka : ∀ p ∈ a, p.value ∈ K.values)
    (hkb : ∀ p ∈ b, p.value ∈ K.values) (ha : PointsWellFormed a) (hb : PointsWellFormed b) :
    PointsWellFormed (intersection a b) ∧ (∀ p ∈ intersection a b, p.value ∈ K.values) ∧
      ∀ x ∈ K.values, inPoints (intersection a b) x = (inPoints a x && inPoints b x) := by
  obtain ⟨hki, hperm, hsorted⟩ := merge_spec hka hkb ha hb false
  obtain ⟨hwfi, hcovi⟩ := cover_countSweep_two ((wellFormed_iff hka).mp ha)
    ((wellFormed_iff hkb).mp hb) hperm hsorted
  refine ⟨(wellFormed_iff hki).mpr hwfi, hki, fun x hx => ?_⟩
  rw [Bool.eq_iff_iff, Bool.and_eq_true, intersection, inPoints_iff hki hwfi.1 hx,
    inPoints_iff hka ha.1 hx, inPoints_iff hkb hb.1 hx]
  exact (Set.ext_iff.mp hcovi _).trans (Set.mem_inter_iff _ _ _)

/-- On the values of one comparable kind, `union` and `intersection` of well-formed point lists
are well formed, and hold the values one of the lists holds, respectively both hold. -/
theorem union_intersection_spec {a b : List Point} (hka : ∀ p ∈ a, p.value ∈ K.values)
    (hkb : ∀ p ∈ b, p.value ∈ K.values) (ha : PointsWellFormed a) (hb : PointsWellFormed b) :
    (PointsWellFormed (union a b) ∧
        ∀ x ∈ K.values, inPoints (union a b) x = (inPoints a x || inPoints b x)) ∧
      (PointsWellFormed (intersection a b) ∧
        ∀ x ∈ K.values, inPoints (intersection a b) x = (inPoints a x && inPoints b x)) := by
  obtain ⟨hwfu, -, hu⟩ := union_spec hka hkb ha hb
  obtain ⟨hwfi, -, hi⟩ := intersection_spec hka hkb ha hb
  exact ⟨⟨hwfu, hu⟩, ⟨hwfi, hi⟩⟩

end Kind

/-! ### Integer values -/

/-- `Int64` and `Uint64` datums by their value, with `NULL` and `MinNotNull` below them and
`MaxValue` above. -/
def integerKey : Datum → Int
  | .null => -2 ^ 63 - 2
  | .minNotNull => -2 ^ 63 - 1
  | .int64 i => i.toInt
  | .uint64 u => u.toNat
  | .maxValue => 2 ^ 64
  | .float32 _ | .float64 _ | .bytes _ => 0

def integerValues : Set Datum :=
  {d | d = .null ∨ d = .minNotNull ∨ d = .maxValue ∨ (∃ i, d = .int64 i) ∨ ∃ u, d = .uint64 u}

/-- An unsigned value against a signed one: above it when it is negative or the unsigned value
needs the sign bit, else their signed readings compared. -/
theorem compareInt64_uint64 (a : UInt64) (i : Int64) :
    compareInt64 (.uint64 a) i = compare (a.toNat : Int) i.toInt := by
  have hi := Int64.toInt_lt i
  have hi' := Int64.le_toInt i
  have hmax : maxInt64AsUint.toNat = 2 ^ 63 - 1 := rfl
  unfold compareInt64
  dsimp only
  split_ifs with h
  · symm
    apply compare_gt_iff_gt.mpr
    simp only [Bool.or_eq_true, decide_eq_true_eq, Int64.lt_iff_toInt_lt, Int64.toInt_zero,
      gt_iff_lt, UInt64.lt_iff_toNat_lt, hmax] at h
    omega
  · simp only [Bool.or_eq_true, decide_eq_true_eq, Int64.lt_iff_toInt_lt, Int64.toInt_zero,
      gt_iff_lt, UInt64.lt_iff_toNat_lt, hmax, not_or, not_lt] at h
    rw [Lib.compare_eq_compare_toInt, Lib.toInt_toInt64 a (by omega)]

/-- A signed value against an unsigned one: below it when it is negative or the unsigned value
needs the sign bit, else their signed readings compared. -/
theorem compareUint64_int64 (a : Int64) (u : UInt64) :
    compareUint64 (.int64 a) u = compare a.toInt (u.toNat : Int) := by
  have ha := Int64.toInt_lt a
  have ha' := Int64.le_toInt a
  have hmax : maxInt64AsUint.toNat = 2 ^ 63 - 1 := rfl
  unfold compareUint64
  dsimp only
  split_ifs with h
  · symm
    apply compare_lt_iff_lt.mpr
    simp only [Bool.or_eq_true, decide_eq_true_eq, Int64.lt_iff_toInt_lt, Int64.toInt_zero,
      gt_iff_lt, UInt64.lt_iff_toNat_lt, hmax] at h
    omega
  · simp only [Bool.or_eq_true, decide_eq_true_eq, Int64.lt_iff_toInt_lt, Int64.toInt_zero,
      gt_iff_lt, UInt64.lt_iff_toNat_lt, hmax, not_or, not_lt] at h
    rw [Lib.compare_eq_compare_toInt, Lib.toInt_toInt64 u (by omega)]

theorem compareDatum_integer_eq : ∀ x ∈ integerValues, ∀ y ∈ integerValues,
    compareDatum x y = compare (integerKey x) (integerKey y) := by
  intro x hx y hy
  simp only [integerValues, Set.mem_ofPred_eq] at hx hy
  rcases hx with rfl | rfl | rfl | ⟨i, rfl⟩ | ⟨a, rfl⟩ <;>
    rcases hy with rfl | rfl | rfl | ⟨j, rfl⟩ | ⟨b, rfl⟩
  -- each case compares two constants, two integers, or an integer with a constant outside its range
  all_goals simp only [compareDatum, compareInt64_uint64, compareUint64_int64]
  all_goals simp only [compareInt64, compareUint64, integerKey, Lib.compare_eq_compare_toInt,
    Lib.compare_eq_compare_toNat, Int.compare_eq_ite_lt, Nat.compare_eq_ite_lt, reduceCtorEq, if_true,
    if_false]
  all_goals try have := Int64.le_toInt i; have := Int64.toInt_lt i
  all_goals try have := Int64.le_toInt j; have := Int64.toInt_lt j
  all_goals try have := UInt64.toNat_lt a
  all_goals try have := UInt64.toNat_lt b
  all_goals split_ifs <;> first | rfl | (exfalso; omega)

def integerKind : ComparableKind Int :=
  ⟨integerValues, integerKey, compareDatum_integer_eq⟩

/-- `a > 1` and `a <= 3` on a `BIGINT` column, as `buildFormBinOp` builds them. -/
def aboveOne : List Point :=
  [⟨.int64 1, true, true⟩, ⟨.maxValue, false, false⟩]

def upToThree : List Point :=
  [⟨.minNotNull, false, true⟩, ⟨.int64 3, false, false⟩]

example : intersection aboveOne upToThree = [⟨.int64 1, true, true⟩, ⟨.int64 3, false, false⟩] ∧
    union aboveOne upToThree = [⟨.minNotNull, false, true⟩, ⟨.maxValue, false, false⟩] := by
  decide

theorem integerValues_of_mem_aboveOne_upToThree :
    ∀ p ∈ aboveOne ++ upToThree, p.value ∈ integerKind.values := by
  intro p hp
  simp only [aboveOne, upToThree, List.cons_append, List.nil_append, List.mem_cons,
    List.not_mem_nil, or_false] at hp
  rcases hp with rfl | rfl | rfl | rfl <;> simp [integerKind, integerValues]

/-- `a > 1 AND a <= 3` holds `2`, as both conditions do. -/
theorem union_intersection_spec_aboveOne_upToThree :
    PointsWellFormed aboveOne ∧ PointsWellFormed upToThree ∧
      inPoints (intersection aboveOne upToThree) (.int64 2) = true := by
  have hka : ∀ p ∈ aboveOne, p.value ∈ integerKind.values := fun p hp =>
    integerValues_of_mem_aboveOne_upToThree p (List.mem_append_left _ hp)
  have hkb : ∀ p ∈ upToThree, p.value ∈ integerKind.values := fun p hp =>
    integerValues_of_mem_aboveOne_upToThree p (List.mem_append_right _ hp)
  have ha : PointsWellFormed aboveOne := by decide
  have hb : PointsWellFormed upToThree := by decide
  have h2 : Datum.int64 2 ∈ integerKind.values := by simp [integerKind, integerValues]
  refine ⟨ha, hb, ?_⟩
  rw [(union_intersection_spec hka hkb ha hb).2.2 _ h2]
  decide

end TinySql.Ranger
