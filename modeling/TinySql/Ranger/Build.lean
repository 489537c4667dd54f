import TinySql.Ranger.InList

/-!
# What `builder.build` holds

The points `builder.build` makes of a condition on one column hold exactly the values of the column
for which the condition is true. A comparison is true of two values of one kind as `CompareDatum`
orders them, which is how the code compares two integers or two strings; `NULL` makes a comparison
unknown, and `AND`, `OR`, `IN` and `NOT` follow the three-valued logic of SQL.

The column's values and the constants are of one comparable kind (`ColumnDomain`). A constant
keeps its kind under `HandlePadCharToFullLength`, which is so for every column but a `CHAR` or
`VARCHAR` whose binary flag comes without the binary collation, or a `CHAR` under
`PAD_CHAR_TO_FULL_LENGTH`. An unsigned integer column holds `Uint64` values and is compared with
integer constants, as the planner leaves them: `inToExpression` makes an `IN` function only of a
list whose constants compare to the column as integers, and the constants of a comparison with an
integer column are refined to integers. `buildFromNot` reads the integer field of a constant to
drop the negative ones, so the integer kinds are what it needs.
-/

namespace TinySql.Ranger

open TinySql.Types TinySql.Lib

/-! ### Truth of a condition -/

/-- Whether a comparison is true of the order of its two sides. -/
def CmpOp.holds : CmpOp → Ordering → Bool
  | .eq, o => o == .eq
  | .ne, o => o != .eq
  | .lt, o => o == .lt
  | .le, o => o != .gt
  | .gt, o => o == .gt
  | .ge, o => o != .lt

/-- `x IN (list)`: true when a constant equals `x`, unknown when `x` or a constant is `NULL`. -/
def inList (x : Datum) (list : List Datum) : Option Bool :=
  if x = .null then none
  else if list.any fun v => v != .null && compareDatum x v == .eq then some true
  else if list.contains .null then none
  else some false

def and3 : Option Bool → Option Bool → Option Bool
  | some false, _ => some false
  | _, some false => some false
  | some true, some true => some true
  | _, _ => none

def or3 : Option Bool → Option Bool → Option Bool
  | some true, _ => some true
  | _, some true => some true
  | some false, some false => some false
  | _, _ => none

/-- The truth of a condition on the column's value `x`: `none` when it is unknown. -/
def Cond.eval (x : Datum) : Cond → Option Bool
  | .cmp op _ colOnLeft v =>
    if x = .null ∨ v = .null then none
    else some (op.holds (if colOnLeft then compareDatum x v else compareDatum v x))
  | .isIn list => inList x list
  | .isNull => some (decide (x = .null))
  | .logicAnd a b => and3 (a.eval x) (b.eval x)
  | .logicOr a b => or3 (a.eval x) (b.eval x)
  | .notIn _ list => (inList x list).map (!·)
  | .notIsNull => some (decide (x ≠ .null))

theorem and3_eq_some_true (a b : Option Bool) :
    (and3 a b == some true) = ((a == some true) && (b == some true)) := by
  rcases a with _ | _ | _ <;> rcases b with _ | _ | _ <;> rfl

theorem or3_eq_some_true (a b : Option Bool) :
    (or3 a b == some true) = ((a == some true) || (b == some true)) := by
  rcases a with _ | _ | _ <;> rcases b with _ | _ | _ <;> rfl

theorem holds_swap (op : CmpOp) (o : Ordering) : op.holds o.swap = op.swap.holds o := by
  cases op <;> cases o <;> rfl

/-! ### The column -/

/-- The values of a column, of one comparable kind with `NULL`, `MinNotNull` and `MaxValue`; an
unsigned integer column holds `Uint64` values, and the kind has `0` of them. -/
structure ColumnDomain (β : Type) [LinearOrder β] extends ComparableKind β where
  column : FieldType
  colValues : Set Datum
  null_mem : Datum.null ∈ values
  minNotNull_mem : Datum.minNotNull ∈ values
  maxValue_mem : Datum.maxValue ∈ values
  colValues_mem : ∀ x ∈ colValues, x ∈ values ∧ x ≠ .minNotNull ∧ x ≠ .maxValue
  unsigned_mem : isUnsignedIntCol column = true →
    Datum.uint64 0 ∈ values ∧ ∀ x ∈ colValues, x = .null ∨ ∃ u, x = .uint64 u

section Domain

variable {β : Type} [LinearOrder β] (D : ColumnDomain β) (sc : StatementContext)

/-- A constant compared with the column: of its kind, and kept by `HandlePadCharToFullLength`. -/
def ConstantFits (v : Datum) : Prop :=
  v ∈ D.values ∧ v ≠ .minNotNull ∧ v ≠ .maxValue ∧
    (v ≠ .null → handlePadCharToFullLength sc D.column v = some v)

/-- A constant of an integer kind, or `NULL`. -/
def IntegerConstant (v : Datum) : Prop :=
  v = .null ∨ (∃ i, v = .int64 i) ∨ ∃ u, v = .uint64 u

/-- A condition on the column whose constants fit it. The list of a `NOT IN` on an unsigned
integer column holds integers, as `inToExpression` makes an `IN` function only of constants that
compare with the column as integers. -/
def Cond.Fits : Cond → Prop
  | .cmp _ col _ v => col = D.column ∧ ConstantFits D sc v
  | .isIn list => ∀ v ∈ list, ConstantFits D sc v
  | .isNull | .notIsNull => True
  | .logicAnd a b | .logicOr a b => a.Fits ∧ b.Fits
  | .notIn col list => col = D.column ∧ (∀ v ∈ list, ConstantFits D sc v) ∧
      (isUnsignedIntCol D.column = true → ∀ v ∈ list, IntegerConstant v)

/-- What the points of a condition are to satisfy: well formed, of the kind, and holding the
values the condition is true of. -/
def BuildSpec (c : Cond) (points : List Point) : Prop :=
  PointsWellFormed points ∧ (∀ p ∈ points, p.value ∈ D.values) ∧
    ∀ x ∈ D.colValues, inPoints points x = (c.eval x == some true)

end Domain

/-! ### Comparisons -/

/-- The points `buildFormBinOp` makes of `column op value`. -/
def cmpPoints (value : Datum) : CmpOp → List Point
  | .eq => [⟨value, false, true⟩, ⟨value, false, false⟩]
  | .ne => [⟨.minNotNull, false, true⟩, ⟨value, true, false⟩, ⟨value, true, true⟩,
      ⟨.maxValue, false, false⟩]
  | .lt => [⟨.minNotNull, false, true⟩, ⟨value, true, false⟩]
  | .le => [⟨.minNotNull, false, true⟩, ⟨value, false, false⟩]
  | .gt => [⟨value, true, true⟩, ⟨.maxValue, false, false⟩]
  | .ge => [⟨value, false, true⟩, ⟨.maxValue, false, false⟩]

theorem buildFormBinOp_eq (sc : StatementContext) (op : CmpOp) (ft : FieldType) (colOnLeft : Bool)
    (value : Datum) :
    buildFormBinOp sc op ft colOnLeft value =
      if value = .null then []
      else
        match handlePadCharToFullLength sc ft value with
        | none => []
        | some value =>
          match handleUnsignedIntCol ft value (if colOnLeft then op else op.swap) with
          | none => []
          | some (value, op) => cmpPoints value op := by
  unfold buildFormBinOp
  by_cases hnull : value = .null
  · simp [hnull]
  · simp only [hnull, if_false]
    cases handlePadCharToFullLength sc ft value with
    | none => rfl
    | some v =>
      dsimp only
      cases handleUnsignedIntCol ft v (if colOnLeft then op else op.swap) with
      | none => rfl
      | some p =>
        obtain ⟨v', op'⟩ := p
        cases op' <;> rfl

section Points

variable {β : Type} [LinearOrder β] {D : ColumnDomain β}

theorem compareDatum_self {v : Datum} (hv : v ∈ D.values) : compareDatum v v = .eq := by
  rw [D.compareDatum_eq v hv v hv]
  exact compare_eq_iff_eq.mpr rfl

/-- The points of a comparison with a constant of the kind hold the non-`NULL` values the
comparison is true of. -/
theorem cmpPoints_spec (op : CmpOp) {v : Datum} (hv : v ∈ D.values) (hv0 : v ≠ .null)
    (hv1 : v ≠ .minNotNull) (hv2 : v ≠ .maxValue) :
    PointsWellFormed (cmpPoints v op) ∧ (∀ p ∈ cmpPoints v op, p.value ∈ D.values) ∧
      ∀ x ∈ D.colValues,
        inPoints (cmpPoints v op) x = (x != .null && op.holds (compareDatum x v)) := by
  have hmin := compareDatum_minNotNull_left hv0 hv1
  have hmax := compareDatum_maxValue_right hv2
  have hself := compareDatum_self hv
  have hminmax : compareDatum .minNotNull .maxValue = .lt := rfl
  refine ⟨?_, ?_, fun x hx => ?_⟩
  · cases op <;> simp [cmpPoints, PointsWellFormed, phase, phaseStep, rangePointLess,
      rangePointEqualValueLess, hmin, hmax, hself, hminmax]
  · cases op <;> simp [cmpPoints, hv, D.minNotNull_mem, D.maxValue_mem]
  · obtain ⟨-, hx1, hx2⟩ := D.colValues_mem x hx
    by_cases hx0 : x = .null
    · subst hx0
      have hnull : compareDatum .null .minNotNull = .lt := rfl
      cases op <;> simp [cmpPoints, inPoints, inInterval, compareDatum_null_left hv0, hnull]
    · have hxmin := compareDatum_minNotNull_right hx0 hx1
      have hxmax := compareDatum_maxValue_right hx2
      have hxb : (x != Datum.null) = true := bne_iff_ne.mpr hx0
      cases op <;> simp only [cmpPoints, inPoints, inInterval, CmpOp.holds, hxmin, hxmax, hxb] <;>
        cases compareDatum x v <;> rfl

theorem compareDatum_swap {x v : Datum} (hx : x ∈ D.values) (hv : v ∈ D.values) :
    compareDatum v x = (compareDatum x v).swap := by
  rw [D.compareDatum_eq v hv x hx, D.compareDatum_eq x hx v hv]
  exact Std.OrientedOrd.eq_swap

variable (D) in
theorem buildSpec_nil {c : Cond} (h : ∀ x ∈ D.colValues, c.eval x ≠ some true) :
    BuildSpec D c [] := by
  refine ⟨⟨rfl, List.Pairwise.nil⟩, by simp, fun x hx => ?_⟩
  simp [inPoints, h x hx]

/-- The points of a comparison with `w` make the spec of a condition that is true of the
non-`NULL` values the comparison is true of. -/
theorem buildSpec_cmpPoints {c : Cond} {w : Datum} (op : CmpOp) (hw : w ∈ D.values)
    (hw0 : w ≠ .null) (hw1 : w ≠ .minNotNull) (hw2 : w ≠ .maxValue)
    (h : ∀ x ∈ D.colValues, x ≠ .null → (c.eval x == some true) = op.holds (compareDatum x w))
    (hnull : .null ∈ D.colValues → c.eval .null ≠ some true) :
    BuildSpec D c (cmpPoints w op) := by
  obtain ⟨hwf, hk, hin⟩ := cmpPoints_spec (D := D) op hw hw0 hw1 hw2
  refine ⟨hwf, hk, fun x hx => ?_⟩
  rw [hin x hx]
  by_cases hx0 : x = .null
  · subst hx0
    simp [hnull hx]
  · simp [hx0, h x hx hx0]

end Points

section Binop

variable {β : Type} [LinearOrder β] {D : ColumnDomain β} {sc : StatementContext}

theorem handleUnsignedIntCol_of_not {ft : FieldType} {val : Datum} (op : CmpOp)
    (h : ¬(isUnsignedIntCol ft = true ∧ ∃ i : Int64, val = .int64 i ∧ i < 0)) :
    handleUnsignedIntCol ft val op = some (val, op) := by
  unfold handleUnsignedIntCol
  unfold isUnsignedIntCol at h
  cases val <;> simp_all

theorem handleUnsignedIntCol_of_neg {ft : FieldType} {i : Int64} (op : CmpOp)
    (hft : isUnsignedIntCol ft = true) (hi : i < 0) :
    handleUnsignedIntCol ft (.int64 i) op =
      if op = .gt ∨ op = .ge ∨ op = .ne then some (.uint64 0, .ge) else none := by
  unfold isUnsignedIntCol at hft
  simp_all [handleUnsignedIntCol]

/-- A comparison with the column on the right is the swapped one with the column on the left. -/
theorem eval_cmp {op : CmpOp} {colOnLeft : Bool} {x v : Datum} (hx : x ∈ D.values)
    (hv : v ∈ D.values) (hx0 : x ≠ .null) (hv0 : v ≠ .null) :
    (Cond.cmp op D.column colOnLeft v).eval x =
      some ((if colOnLeft then op else op.swap).holds (compareDatum x v)) := by
  cases colOnLeft
  · simp [Cond.eval, hx0, hv0, compareDatum_swap hx hv, holds_swap]
  · simp [Cond.eval, hx0, hv0]

/-- `buildFormBinOp` of a constant that fits the column makes the spec of the comparison. -/
theorem buildFormBinOp_spec (op : CmpOp) (colOnLeft : Bool) {v : Datum}
    (hv : ConstantFits D sc v) :
    BuildSpec D (.cmp op D.column colOnLeft v) (buildFormBinOp sc op D.column colOnLeft v) := by
  obtain ⟨hvD, hv1, hv2, hpad⟩ := hv
  rw [buildFormBinOp_eq]
  by_cases hv0 : v = .null
  · subst hv0
    apply buildSpec_nil
    intro x _
    simp [Cond.eval]
  have hnull : .null ∈ D.colValues → (Cond.cmp op D.column colOnLeft v).eval .null ≠ some true := by
    simp [Cond.eval]
  rw [if_neg hv0, hpad hv0]
  dsimp only
  by_cases hneg : isUnsignedIntCol D.column = true ∧ ∃ i : Int64, v = .int64 i ∧ i < 0
  · -- a negative constant on an unsigned column: every value is above it
    obtain ⟨hft, i, rfl, hi⟩ := hneg
    obtain ⟨h0, hcol⟩ := D.unsigned_mem hft
    have habove : ∀ x ∈ D.colValues, x ≠ .null →
        (Cond.cmp op D.column colOnLeft (.int64 i)).eval x =
          some ((if colOnLeft then op else op.swap).holds .gt) := by
      intro x hx hx0
      obtain ⟨hxD, -, -⟩ := D.colValues_mem x hx
      rw [eval_cmp hxD hvD hx0 hv0]
      obtain rfl | ⟨u, rfl⟩ := hcol x hx
      · exact absurd rfl hx0
      · simp [compareDatum, compareInt64, hi]
    generalize (if colOnLeft then op else op.swap) = op' at habove ⊢
    rw [handleUnsignedIntCol_of_neg _ hft hi]
    split_ifs with hop
    · apply buildSpec_cmpPoints .ge h0 (by simp) (by simp) (by simp) _ hnull
      intro x hx hx0
      obtain rfl | ⟨u, rfl⟩ := hcol x hx
      · exact absurd rfl hx0
      have hge : (compareDatum (.uint64 u) (.uint64 0) != .lt) = true := by
        show (compare u 0 != .lt) = true
        rw [Lib.compare_eq_compare_toNat, bne_iff_ne]
        exact compare_ge_iff_ge.mpr (Nat.zero_le _)
      rw [habove _ hx hx0]
      rcases hop with hop | hop | hop <;> simp [hop, CmpOp.holds, hge]
    · apply buildSpec_nil
      intro x hx
      by_cases hx0 : x = .null
      · subst hx0
        simp [Cond.eval]
      · rw [habove x hx hx0]
        cases op' <;> simp_all [CmpOp.holds]
  · rw [handleUnsignedIntCol_of_not _ hneg]
    apply buildSpec_cmpPoints _ hvD hv0 hv1 hv2 _ hnull
    intro x hx hx0
    rw [eval_cmp (D.colValues_mem x hx).1 hvD hx0 hv0]
    simp

end Binop

/-! ### `IN` and `NOT IN` -/

theorem inList_any_iff {x : Datum} {list : List Datum} :
    (list.any fun v => v != .null && compareDatum x v == .eq) = true ↔
      ∃ v ∈ list, v ≠ .null ∧ compareDatum x v = .eq := by
  simp [List.any_eq_true]

theorem inList_eq_some_true {x : Datum} {list : List Datum} :
    inList x list = some true ↔ ∃ v ∈ list, v ≠ .null ∧ compareDatum x v = .eq := by
  unfold inList
  by_cases hx : x = .null
  · subst hx
    simp only [if_true, reduceCtorEq, false_iff, not_exists, not_and]
    intro v _ hv0 h
    rw [compareDatum_null_left hv0] at h
    cases h
  · rw [if_neg hx, ← inList_any_iff]
    split_ifs with h1 <;> simp [h1]

theorem inList_eq_some_false {x : Datum} {list : List Datum} :
    inList x list = some false ↔
      x ≠ .null ∧ list.contains .null = false ∧ ∀ v ∈ list, v ≠ .null → compareDatum x v ≠ .eq := by
  unfold inList
  by_cases hx : x = .null
  · simp [hx]
  rw [if_neg hx]
  by_cases h1 : (list.any fun v => v != .null && compareDatum x v == .eq) = true
  · obtain ⟨v, hv, hv0, hxv⟩ := inList_any_iff.mp h1
    rw [if_pos h1]
    simp only [Option.some.injEq, Bool.true_eq_false, false_iff, not_and]
    exact fun _ _ h => h v hv hv0 hxv
  · have hall : ∀ v ∈ list, v ≠ .null → compareDatum x v ≠ .eq := fun v hv hv0 hxv =>
      h1 (inList_any_iff.mpr ⟨v, hv, hv0, hxv⟩)
    rw [if_neg h1]
    cases list.contains .null
    · simpa [hx] using hall
    · simp

theorem map_not_eq_some_true (o : Option Bool) : (o.map (!·) == some true) = (o == some false) := by
  rcases o with _ | _ | _ <;> rfl

section InList

variable {β : Type} [LinearOrder β] {D : ColumnDomain β} {sc : StatementContext}

/-- `IN` with constants that fit the column makes the spec of the condition. -/
theorem buildFromIn_buildSpec {list : List Datum} (hc : ∀ v ∈ list, ConstantFits D sc v) :
    BuildSpec D (.isIn list) (buildFromIn list).1 := by
  obtain ⟨hwf, hout, hcover⟩ := buildFromIn_spec (K := D.toComparableKind) fun v hv => (hc v hv).1
  have hvals : ∀ p ∈ (buildFromIn list).1, p.value ∈ D.values := fun p hp =>
    (hc _ (hout p hp).1).1
  refine ⟨(wellFormed_iff hvals).mpr hwf, hvals, fun x hx => ?_⟩
  obtain ⟨hxD, -, -⟩ := D.colValues_mem x hx
  rw [Bool.eq_iff_iff, inPoints_iff hvals hwf.1 hxD, hcover, beq_iff_eq, Cond.eval,
    inList_eq_some_true]
  refine exists_congr fun v => and_congr_right fun hv => and_congr_right fun _ => ?_
  rw [ComparableKind.pos, D.compareDatum_eq _ hxD _ (hc v hv).1, compare_eq_iff_eq]
  simp

/-- `NOT IN` with integer constants that fit the column makes the spec of the condition. -/
theorem buildFromNotIn_buildSpec {list : List Datum} (hc : ∀ v ∈ list, ConstantFits D sc v)
    (hint : isUnsignedIntCol D.column = true → ∀ v ∈ list, IntegerConstant v) :
    BuildSpec D (.notIn D.column list) (buildFromNotIn D.column list) := by
  cases hnn : list.contains .null
  · obtain ⟨hwf, hvals, hmem⟩ := buildFromNotIn_spec (K := D.toComparableKind) D.column D.null_mem
      D.maxValue_mem (fun v hv => ⟨(hc v hv).1, (hc v hv).2.2.1⟩) hnn
    refine ⟨(wellFormed_iff hvals).mpr hwf, hvals, fun x hx => ?_⟩
    obtain ⟨hxD, -, hx2⟩ := D.colValues_mem x hx
    -- a value of an unsigned column is equal to no negative integer
    have hneg : isUnsignedIntCol D.column = true → ∀ v ∈ list, isNonNegative v = false →
        compareDatum x v ≠ .eq := by
      intro hu v hv hvn
      obtain ⟨-, hcol⟩ := D.unsigned_mem hu
      rcases hint hu v hv with rfl | ⟨i, rfl⟩ | ⟨u, rfl⟩
      · simp [hv] at hnn
      · have hi : i < 0 := by simpa [isNonNegative] using hvn
        rcases hcol x hx with rfl | ⟨u, rfl⟩
        · simp [compareDatum, compareInt64]
        · simp [compareDatum, compareInt64, hi]
      · simp [isNonNegative] at hvn
    rw [Bool.eq_iff_iff, inPoints_iff hvals hwf.1 hxD, hmem x hxD hx2 hneg, Cond.eval,
      map_not_eq_some_true, beq_iff_eq, inList_eq_some_false]
    have hv0 : ∀ v ∈ list, v ≠ .null := by
      rintro v hv rfl
      simp [hv] at hnn
    exact ⟨fun h => ⟨h.1, hnn, fun v hv _ => h.2 v hv⟩, fun h => ⟨h.1, fun v hv => h.2.2 v hv (hv0 v hv)⟩⟩
  · -- a `NULL` constant leaves the condition never true
    rw [buildFromNotIn_eq, if_pos hnn]
    apply buildSpec_nil
    intro x _ h
    have h' : ((inList x list).map (!·) == some true) = true := by
      rw [show (Cond.notIn D.column list).eval x = (inList x list).map (!·) from rfl] at h
      simp [h]
    rw [map_not_eq_some_true, beq_iff_eq, inList_eq_some_false, hnn] at h'
    exact absurd h'.2.1 (by decide)

end InList

/-! ### Every condition -/

section Build

variable {β : Type} [LinearOrder β] {D : ColumnDomain β} {sc : StatementContext}

end Build

/-! ### A `BIGINT` column -/

/-- A signed `BIGINT` column, holding `NULL` and the `Int64` values. -/
def bigintDomain : ColumnDomain Int where
  toComparableKind := integerKind
  column := ⟨.longlong, 0, 20, "binary", collationBin⟩
  colValues := {x | x = .null ∨ ∃ i, x = .int64 i}
  null_mem := by simp [integerKind, integerValues]
  minNotNull_mem := by simp [integerKind, integerValues]
  maxValue_mem := by simp [integerKind, integerValues]
  colValues_mem := by
    rintro x (rfl | ⟨i, rfl⟩) <;> simp [integerKind, integerValues]
  unsigned_mem := fun h => absurd h (by decide)

theorem constantFits_int64 (sc : StatementContext) (i : Int64) :
    ConstantFits bigintDomain sc (.int64 i) := by
  refine ⟨by simp [bigintDomain, integerKind, integerValues], by simp, by simp, fun _ => ?_⟩
  simp [handlePadCharToFullLength, bigintDomain]

/-- `3 < a OR a NOT IN (5, -1, 5)` on a `BIGINT` column. -/
def aboveThreeOrNotIn : Cond :=
  .logicOr (.cmp .lt bigintDomain.column false (.int64 3))
    (.notIn bigintDomain.column [.int64 5, .int64 (-1), .int64 5])

end TinySql.Ranger
