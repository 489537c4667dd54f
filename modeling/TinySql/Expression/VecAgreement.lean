import TinySql.Expression.BuiltinIntVec

/-!
# Where vectorized and row-level evaluation agree

A chunk is given by its rows, one cell of each argument column per row. `VecAgreesWithRows` is the
property the vectorized engine relies on: when every row evaluates without error, `vecEvalInt`
succeeds with each row's NULL flag and, on non-NULL rows, its value; when some row fails,
`vecEvalInt` fails.

Every binary kernel is `vecKernel` of a step, and `vecKernel` over the merged columns is a map of
`kernelRow` over the rows (`vecKernel_merged_eq_mapM`). A row of it agrees with the row-level
`evalInt` as soon as the step has the same outcome as the row's check (`kernelRow_cellAgrees`),
so agreement on every chunk comes down to comparing two checks on two int64 operands.
-/

namespace TinySql.Expression

open TinySql.Lib

/-- Two results of an overflow check: both errors (the messages may differ), or one value. -/
def SameOutcome : Except EvalError Int64 → Except EvalError Int64 → Prop
  | .ok a, .ok b => a = b
  | .error _, .error _ => True
  | _, _ => False

theorem sameOutcome_refl (x : Except EvalError Int64) : SameOutcome x x := by
  cases x <;> trivial

/-- One row of the comparison: the vectorized cell is an error exactly when the row-level result
is, and otherwise carries its NULL flag and, when it is not NULL, its value. -/
def CellAgrees : Except EvalError IntCell → Except EvalError (Int64 × Bool) → Prop
  | .ok c, .ok (v, n) => c.null = n ∧ (n = false → c.slot = v)
  | .error _, .error _ => True
  | _, _ => False

/-- Vectorized evaluation of `sig` agrees with evaluating it row by row on the chunk `rows`. -/
def VecAgreesWithRows (sig : IntSig) (rows : List (IntCell × IntCell)) : Prop :=
  ((∀ row ∈ rows, ∃ r, sig.evalInt row.1 row.2 = .ok r) →
    ∃ res, sig.vecEvalInt (rows.map Prod.fst) (rows.map Prod.snd) = .ok res ∧
      List.Forall₂ (fun row c => CellAgrees (.ok c) (sig.evalInt row.1 row.2)) rows res) ∧
  ((∃ row ∈ rows, ∃ e, sig.evalInt row.1 row.2 = .error e) →
    ∃ e, sig.vecEvalInt (rows.map Prod.fst) (rows.map Prod.snd) = .error e)

/-- A one-row chunk whose row fails while the vectorized evaluation succeeds refutes agreement. -/
theorem not_vecAgreesWithRows_of_error_ok {sig : IntSig} {c0 c1 : IntCell} {e : EvalError}
    {res : List IntCell} (hrow : sig.evalInt c0 c1 = .error e)
    (hvec : sig.vecEvalInt [c0] [c1] = .ok res) : ¬VecAgreesWithRows sig [(c0, c1)] := by
  rintro ⟨-, herr⟩
  obtain ⟨e', he'⟩ := herr ⟨_, List.mem_singleton_self _, e, hrow⟩
  simp only [List.map_cons, List.map_nil, hvec] at he'
  cases he'

/-- So does a one-row chunk whose row succeeds while the vectorized evaluation fails. -/
theorem not_vecAgreesWithRows_of_ok_error {sig : IntSig} {c0 c1 : IntCell} {r : Int64 × Bool}
    {e : EvalError} (hrow : sig.evalInt c0 c1 = .ok r)
    (hvec : sig.vecEvalInt [c0] [c1] = .error e) : ¬VecAgreesWithRows sig [(c0, c1)] := by
  rintro ⟨hok, -⟩
  have hall : ∀ row ∈ [(c0, c1)], ∃ r, sig.evalInt row.1 row.2 = .ok r := by
    intro row hmem
    obtain rfl := List.mem_singleton.mp hmem
    exact ⟨r, hrow⟩
  obtain ⟨res, hres, -⟩ := hok hall
  simp only [List.map_cons, List.map_nil, hvec] at hres
  cases hres

/-- A vectorized evaluation that maps a row function over the chunk agrees with the rows as soon as
each of its rows does. -/
theorem vecAgreesWithRows_of_mapM {sig : IntSig} {rows : List (IntCell × IntCell)}
    (g : IntCell × IntCell → Except EvalError IntCell)
    (hvec : sig.vecEvalInt (rows.map Prod.fst) (rows.map Prod.snd) = rows.mapM g)
    (hrow : ∀ row ∈ rows, CellAgrees (g row) (sig.evalInt row.1 row.2)) :
    VecAgreesWithRows sig rows := by
  constructor
  · intro hok
    have hg : ∀ row ∈ rows, ∃ c, g row = .ok c := by
      intro row hmem
      obtain ⟨r, hr⟩ := hok row hmem
      have hagree := hrow row hmem
      cases hgr : g row with
      | ok c => exact ⟨c, rfl⟩
      | error e =>
        rw [hgr, hr] at hagree
        exact hagree.elim
    obtain ⟨res, hres⟩ := mapM_ok_of_forall g rows hg
    refine ⟨res, hvec.trans hres, ?_⟩
    have hboth := (List.forall₂_and_left rows res).mpr ⟨hrow, (mapM_ok_iff_forall₂ g rows res).mp hres⟩
    exact hboth.imp fun row c ⟨hagree, hgc⟩ => hgc ▸ hagree
  · rintro ⟨row, hmem, e, he⟩
    have hagree := hrow row hmem
    rw [he] at hagree
    cases hgr : g row with
    | ok c =>
      rw [hgr] at hagree
      exact hagree.elim
    | error e' =>
      rw [hvec]
      exact mapM_error_of_mem g hmem hgr

/-! ### Binary kernels -/

/-- One row of `vecKernel step`: a row NULL in the result column is kept, the others go through the
step with the other column's slot. -/
def kernelRow (step : Int64 → Int64 → Except EvalError Int64) (o : Int64) (r : IntCell) :
    Except EvalError IntCell :=
  if r.null then .ok r else (step o r.slot).map fun v => { r with slot := v }

/-- The kernel over the result column `p` with the other column `q` merged into its NULL flags is a
map of `kernelRow` over the rows. -/
theorem vecKernel_merged_eq_mapM (step : Int64 → Int64 → Except EvalError Int64)
    (p q : IntCell × IntCell → IntCell) (rows : List (IntCell × IntCell)) :
    vecKernel step ((rows.map q).map (·.slot)) (mergeNulls (rows.map p) (rows.map q)) =
      rows.mapM fun row => kernelRow step (q row).slot
        { p row with null := (p row).null || (q row).null } := by
  induction rows with
  | nil => rfl
  | cons row rows ih =>
    simp only [List.map_cons, mergeNulls, List.zipWith_cons_cons, List.mapM_cons] at ih ⊢
    rw [vecKernel, ih, kernelRow]
    split
    · simp [bind, Except.bind, Except.map, pure, Except.pure]
    · cases step (q row).slot (p row).slot <;> simp [bind, Except.bind, Except.map]

/-- A kernel row agrees with a row-level result that is `(0, true)` when either operand is NULL and
otherwise has the step's outcome. -/
theorem kernelRow_cellAgrees (step : Int64 → Int64 → Except EvalError Int64) (o r : IntCell)
    (row : Except EvalError (Int64 × Bool))
    (hnull : o.null = true ∨ r.null = true → row = .ok (0, true))
    (hval : o.null = false → r.null = false →
      ∃ x, SameOutcome (step o.slot r.slot) x ∧ row = x.map fun v => (v, false)) :
    CellAgrees (kernelRow step o.slot { r with null := r.null || o.null }) row := by
  cases ho : o.null <;> cases hr : r.null
  · obtain ⟨x, hsame, rfl⟩ := hval ho hr
    simp only [kernelRow, Bool.or_false]
    cases hs : step o.slot r.slot <;> cases x <;> rw [hs] at hsame
    · trivial
    · exact hsame.elim
    · exact hsame.elim
    · exact ⟨rfl, fun _ => hsame⟩
  all_goals
    rw [hnull (by simp [ho, hr])]
    simp [kernelRow, CellAgrees]

/-- A binary arithmetic builtin whose kernel's step has the row-level check's outcome agrees with
the rows on every chunk. -/
theorem binary_vecAgreesWithRows {sig : IntSig} (rows : List (IntCell × IntCell))
    (step compute : Int64 → Int64 → Except EvalError Int64)
    (hsig : ∀ c0 c1, sig.evalInt c0 c1 = binaryEvalInt compute c0.evalInt c1.evalInt)
    (p q : IntCell × IntCell → IntCell)
    (hvec : sig.vecEvalInt (rows.map Prod.fst) (rows.map Prod.snd) =
      vecKernel step ((rows.map q).map (·.slot)) (mergeNulls (rows.map p) (rows.map q)))
    (hstep : ∀ row ∈ rows, SameOutcome (step (q row).slot (p row).slot)
      (compute row.1.slot row.2.slot))
    (hpq : ∀ row, (p row = row.1 ∧ q row = row.2) ∨ (p row = row.2 ∧ q row = row.1)) :
    VecAgreesWithRows sig rows := by
  refine vecAgreesWithRows_of_mapM _ (hvec.trans (vecKernel_merged_eq_mapM step p q rows)) ?_
  intro row hmem
  rw [hsig]
  apply kernelRow_cellAgrees
  · intro hnull
    rcases hpq row with ⟨hp, hq⟩ | ⟨hp, hq⟩ <;> rw [hp, hq] at hnull <;>
      rcases hnull with h | h <;> simp [binaryEvalInt, IntCell.evalInt, h]
  · intro hq hp
    have hrow : row.1.null = false ∧ row.2.null = false := by
      rcases hpq row with ⟨hp', hq'⟩ | ⟨hp', hq'⟩
      · exact ⟨hp' ▸ hp, hq' ▸ hq⟩
      · exact ⟨hq' ▸ hq, hp' ▸ hp⟩
    exact ⟨compute row.1.slot row.2.slot, hstep row hmem,
      by simp [binaryEvalInt, IntCell.evalInt, hrow.1, hrow.2]⟩

/-! ### The arithmetic builtins, kernel by kernel -/

/-- `PlusInt` agrees with its rows on every chunk, except with an unsigned first and a signed second
operand, whose kernel `plusUS` compares `lh` with `MaxUint64 - lh`. -/
theorem plusInt_vecAgreesWithRows (isLHSUnsigned isRHSUnsigned : Bool)
    (hUS : ¬(isLHSUnsigned = true ∧ isRHSUnsigned = false)) (rows : List (IntCell × IntCell)) :
    VecAgreesWithRows (.plusInt isLHSUnsigned isRHSUnsigned) rows := by
  cases isLHSUnsigned <;> cases isRHSUnsigned
  · exact binary_vecAgreesWithRows rows _ (plusIntCompute false false) (fun _ _ => rfl)
      Prod.snd Prod.fst rfl (fun _ _ => sameOutcome_refl _) (fun _ => Or.inr ⟨rfl, rfl⟩)
  · exact binary_vecAgreesWithRows rows _ (plusIntCompute false true) (fun _ _ => rfl)
      Prod.snd Prod.fst rfl (fun _ _ => sameOutcome_refl _) (fun _ => Or.inr ⟨rfl, rfl⟩)
  · exact absurd ⟨rfl, rfl⟩ hUS
  · exact binary_vecAgreesWithRows rows _ (plusIntCompute true true) (fun _ _ => rfl)
      Prod.snd Prod.fst rfl (fun _ _ => sameOutcome_refl _) (fun _ => Or.inr ⟨rfl, rfl⟩)

/-- `2^63 + MaxInt64 = 2^64 - 1` fits in BIGINT UNSIGNED: the row-level sum succeeds and `plusUS`
reports an overflow. -/
theorem plusInt_plusUS_rejects_max_sum :
    (IntSig.plusInt true false).evalInt ⟨false, minInt64⟩ ⟨false, maxInt64⟩ = .ok (-1, false) ∧
      (IntSig.plusInt true false).vecEvalInt [⟨false, minInt64⟩] [⟨false, maxInt64⟩] =
        .error (.overflow "BIGINT UNSIGNED" "(%s + %s)") := by
  constructor <;> decide

/-- An operand outside `[0, MaxInt64]` makes every check fail the same way, so past the two range
tests of `minusFUU` and `minusFSU` the second operand is non-negative and the `MinInt64` clause of the
row-level check is false. -/
private theorem beq_minInt64_of_not_neg {b : Int64} (hb : ¬b < 0) : (b == minInt64) = false := by
  cases h : b == minInt64
  · rfl
  · rw [beq_iff_eq.mp h] at hb
    exact absurd (by decide) hb

private theorem minusFUU_sameOutcome (a b : Int64) :
    SameOutcome
      (if a < 0 || a > maxInt64 then .error (.overflow "BIGINT UNSIGNED" "(%s - %s)")
        else if b < 0 || b > maxInt64 then .error (.overflow "BIGINT UNSIGNED" "(%s - %s)")
        else if (a > 0 && -b > maxInt64 - a) || (a < 0 && -b < minInt64 - a) then
          .error (.overflow "BIGINT" "(%s + %s)")
        else .ok (a - b))
      (minusIntCompute true true true a b) := by
  simp only [minusIntCompute, Bool.true_and, Bool.not_true, Bool.false_and]
  by_cases ha : (a < 0 || a > maxInt64) = true
  · simp only [ha, if_true]
    trivial
  · by_cases hb : (b < 0 || b > maxInt64) = true
    · simp only [ha, hb, if_true]
      trivial
    · have hneg : ¬b < 0 := fun h => hb (by simp [h])
      simp only [ha, hb, beq_minInt64_of_not_neg hneg, Bool.and_false, Bool.false_or]
      split_ifs <;> trivial

private theorem minusFSU_sameOutcome (a b : Int64) :
    SameOutcome
      (if b < 0 || b > maxInt64 then .error (.overflow "BIGINT UNSIGNED" "(%s - %s)")
        else if (a > 0 && -b > maxInt64 - a) || (a < 0 && -b < minInt64 - a) then
          .error (.overflow "BIGINT" "(%s + %s)")
        else .ok (a - b))
      (minusIntCompute true false true a b) := by
  simp only [minusIntCompute, Bool.true_and, Bool.not_true, Bool.false_and, Bool.and_false]
  by_cases hb : (b < 0 || b > maxInt64) = true
  · simp only [hb, if_true]
    trivial
  · have hneg : ¬b < 0 := fun h => hb (by simp [h])
    simp only [hb, beq_minInt64_of_not_neg hneg, Bool.and_false, Bool.false_or]
    split_ifs <;> trivial

/-- Without `NO_UNSIGNED_SUBTRACTION` the range tests of `evalInt` are skipped, and an unsigned minus
a signed operand is `minusUS`'s check. -/
private theorem minusUS_sameOutcome (a b : Int64) :
    SameOutcome
      (if b ≥ 0 && a.toUInt64 < b.toUInt64 then .error (.overflow "BIGINT UNSIGNED" "(%s - %s)")
        else if b < 0 && a.toUInt64 > maxUint64 - (-b).toUInt64 then
          .error (.overflow "BIGINT UNSIGNED" "(%s - %s)")
        else .ok (a - b))
      (minusIntCompute false true false a b) := by
  simp only [minusIntCompute, Bool.false_and, Bool.false_eq_true, if_false, Bool.not_false,
    Bool.true_and]
  exact sameOutcome_refl _

/-- `MinusInt` agrees with its rows on every chunk for the four signedness cases whose kernel has
the row's check: both operands unsigned, either with or without `NO_UNSIGNED_SUBTRACTION`, and an
unsigned minus a signed operand without it, and a signed minus an unsigned one with it. -/
theorem minusInt_vecAgreesWithRows (forceToSigned lhsUnsignedFlag rhsUnsignedFlag : Bool)
    (hgood : (forceToSigned, lhsUnsignedFlag, rhsUnsignedFlag) ∈
      [(true, true, true), (true, false, true), (false, true, true), (false, true, false)])
    (rows : List (IntCell × IntCell)) :
    VecAgreesWithRows (.minusInt forceToSigned lhsUnsignedFlag rhsUnsignedFlag) rows := by
  simp only [List.mem_cons, Prod.mk.injEq, List.not_mem_nil, or_false] at hgood
  rcases hgood with ⟨rfl, rfl, rfl⟩ | ⟨rfl, rfl, rfl⟩ | ⟨rfl, rfl, rfl⟩ | ⟨rfl, rfl, rfl⟩
  · exact binary_vecAgreesWithRows rows _ (minusIntCompute true true true) (fun _ _ => rfl)
      Prod.snd Prod.fst rfl (fun row _ => minusFUU_sameOutcome row.1.slot row.2.slot)
      (fun _ => Or.inr ⟨rfl, rfl⟩)
  · exact binary_vecAgreesWithRows rows _ (minusIntCompute true false true) (fun _ _ => rfl)
      Prod.snd Prod.fst rfl (fun row _ => minusFSU_sameOutcome row.1.slot row.2.slot)
      (fun _ => Or.inr ⟨rfl, rfl⟩)
  · exact binary_vecAgreesWithRows rows _ (minusIntCompute false true true) (fun _ _ => rfl)
      Prod.snd Prod.fst rfl (fun _ _ => sameOutcome_refl _) (fun _ => Or.inr ⟨rfl, rfl⟩)
  · exact binary_vecAgreesWithRows rows _ (minusIntCompute false true false) (fun _ _ => rfl)
      Prod.snd Prod.fst rfl (fun row _ => minusUS_sameOutcome row.1.slot row.2.slot)
      (fun _ => Or.inr ⟨rfl, rfl⟩)

/-- `0 - MinInt64` on two signed operands: the row-level `evalInt` reports the overflow through its
`a >= 0 && b == MinInt64` clause, and `minusSS`, which lacks it, writes the wrapped `MinInt64`. -/
theorem minusInt_minusSS_misses_minInt64 :
    (IntSig.minusInt false false false).evalInt ⟨false, 0⟩ ⟨false, minInt64⟩ =
        .error (.overflow "BIGINT" "(%s - %s)") ∧
      (IntSig.minusInt false false false).vecEvalInt [⟨false, 0⟩] [⟨false, minInt64⟩] =
        .ok [⟨false, minInt64⟩] := by
  constructor <;> decide

/-- Vectorized `MinusInt` on two signed operands disagrees with its rows on the one-row chunk
`0 - MinInt64`. -/
theorem minusInt_not_vecAgreesWithRows :
    ¬VecAgreesWithRows (.minusInt false false false) [(⟨false, 0⟩, ⟨false, minInt64⟩)] :=
  not_vecAgreesWithRows_of_error_ok minusInt_minusSS_misses_minInt64.1
    minusInt_minusSS_misses_minInt64.2

/-- With `NO_UNSIGNED_SUBTRACTION`, an unsigned `0` minus a signed `MinInt64` overflows row by row
and not in `minusFUS`, which has the same gap. -/
theorem minusInt_minusFUS_misses_minInt64 :
    (IntSig.minusInt true true false).evalInt ⟨false, 0⟩ ⟨false, minInt64⟩ =
        .error (.overflow "BIGINT" "(%s - %s)") ∧
      (IntSig.minusInt true true false).vecEvalInt [⟨false, 0⟩] [⟨false, minInt64⟩] =
        .ok [⟨false, minInt64⟩] := by
  constructor <;> decide

/-- The same gap with `NO_UNSIGNED_SUBTRACTION` and two signed operands, in `minusFSS`. -/
theorem minusInt_minusFSS_misses_minInt64 :
    (IntSig.minusInt true false false).evalInt ⟨false, 0⟩ ⟨false, minInt64⟩ =
        .error (.overflow "BIGINT" "(%s - %s)") ∧
      (IntSig.minusInt true false false).vecEvalInt [⟨false, 0⟩] [⟨false, minInt64⟩] =
        .ok [⟨false, minInt64⟩] := by
  constructor <;> decide

/-- A signed `-1` minus an unsigned `0` is negative: the row-level check rejects it, `minusSU`
accepts it. -/
theorem minusInt_minusSU_accepts_negative :
    (IntSig.minusInt false false true).evalInt ⟨false, -1⟩ ⟨false, 0⟩ =
        .error (.overflow "BIGINT UNSIGNED" "(%s - %s)") ∧
      (IntSig.minusInt false false true).vecEvalInt [⟨false, -1⟩] [⟨false, 0⟩] =
        .ok [⟨false, -1⟩] := by
  constructor <;> decide

/-- `MultiplyInt` agrees with its rows on every chunk: its kernel runs the row's check with the
operands in the order of `evalInt`. -/
theorem multiplyInt_vecAgreesWithRows (rows : List (IntCell × IntCell)) :
    VecAgreesWithRows .multiplyInt rows :=
  binary_vecAgreesWithRows rows _ multiplyIntCompute (fun _ _ => rfl) Prod.fst Prod.snd rfl
    (fun _ _ => sameOutcome_refl _) (fun _ => Or.inl ⟨rfl, rfl⟩)

/-- `MultiplyIntUnsigned` agrees with its rows on every chunk. -/
theorem multiplyIntUnsigned_vecAgreesWithRows (rows : List (IntCell × IntCell)) :
    VecAgreesWithRows .multiplyIntUnsigned rows :=
  binary_vecAgreesWithRows rows _ multiplyIntUnsignedCompute (fun _ _ => rfl) Prod.fst Prod.snd rfl
    (fun _ _ => sameOutcome_refl _) (fun _ => Or.inl ⟨rfl, rfl⟩)

/-! ### The unary and logical builtins -/

/-- A vectorized evaluation that cannot fail and computes each row from that row alone agrees with
the rows as soon as each of its rows does. -/
theorem vecAgreesWithRows_of_map {sig : IntSig} {rows : List (IntCell × IntCell)}
    (g : IntCell × IntCell → IntCell)
    (hvec : sig.vecEvalInt (rows.map Prod.fst) (rows.map Prod.snd) = .ok (rows.map g))
    (hrow : ∀ row ∈ rows, CellAgrees (.ok (g row)) (sig.evalInt row.1 row.2)) :
    VecAgreesWithRows sig rows := by
  refine vecAgreesWithRows_of_mapM (fun row => .ok (g row)) ?_ hrow
  rw [hvec]
  exact (List.mapM_pure (m := Except EvalError)).symm

theorem logicAndRow_cellAgrees (c0 c1 : IntCell) :
    CellAgrees (.ok (logicAndRow c0 c1)) (builtinLogicAndSig.evalInt c0.evalInt c1.evalInt) := by
  cases h0 : c0.null <;> cases h1 : c1.null <;>
    simp [logicAndRow, builtinLogicAndSig.evalInt, IntCell.evalInt, CellAgrees, h0, h1] <;>
    split_ifs <;> simp_all

theorem logicOrRow_cellAgrees (c0 c1 : IntCell) :
    CellAgrees (.ok (logicOrRow c0 c1)) (builtinLogicOrSig.evalInt c0.evalInt c1.evalInt) := by
  cases h0 : c0.null <;> cases h1 : c1.null <;>
    simp [logicOrRow, builtinLogicOrSig.evalInt, IntCell.evalInt, CellAgrees, h0, h1] <;>
    split_ifs <;> simp_all


/-- `LogicAnd` agrees with its rows on every chunk. -/
theorem logicAnd_vecAgreesWithRows (rows : List (IntCell × IntCell)) :
    VecAgreesWithRows .logicAnd rows := by
  refine vecAgreesWithRows_of_map (fun row => logicAndRow row.1 row.2) ?_
    fun row _ => logicAndRow_cellAgrees row.1 row.2
  simp only [IntSig.vecEvalInt, builtinLogicAndSig.vecEvalInt, List.zipWith_map, List.zipWith_self]

/-- `LogicOr` agrees with its rows on every chunk. -/
theorem logicOr_vecAgreesWithRows (rows : List (IntCell × IntCell)) :
    VecAgreesWithRows .logicOr rows := by
  refine vecAgreesWithRows_of_map (fun row => logicOrRow row.1 row.2) ?_
    fun row _ => logicOrRow_cellAgrees row.1 row.2
  simp only [IntSig.vecEvalInt, builtinLogicOrSig.vecEvalInt, List.zipWith_map, List.zipWith_self]

/-- `UnaryNotInt` agrees with its rows on every chunk. -/
theorem unaryNotInt_vecAgreesWithRows (rows : List (IntCell × IntCell)) :
    VecAgreesWithRows .unaryNotInt rows := by
  refine vecAgreesWithRows_of_map
    (fun row => if row.1.null then row.1 else { row.1 with slot := if row.1.slot == 0 then 1 else 0 })
    (by simp [IntSig.vecEvalInt, builtinUnaryNotIntSig.vecEvalInt]) ?_
  intro row _
  cases h : row.1.null <;> simp [IntSig.evalInt, builtinUnaryNotIntSig.evalInt, IntCell.evalInt,
    CellAgrees, h]
  split_ifs <;> simp_all

/-- `IsNull` agrees with its rows on every chunk. -/
theorem intIsNull_vecAgreesWithRows (rows : List (IntCell × IntCell)) :
    VecAgreesWithRows .intIsNull rows := by
  refine vecAgreesWithRows_of_map
    (fun row => if row.1.null then { slot := 1, null := false } else { row.1 with slot := 0 })
    (by simp [IntSig.vecEvalInt, builtinIntIsNullSig.vecEvalInt]) ?_
  intro row _
  cases h : row.1.null <;> simp [IntSig.evalInt, builtinIntIsNullSig.evalInt, IntCell.evalInt,
    CellAgrees, h]


private theorem neg_eq_minInt64_of_toUInt64 {x : Int64} (hx : x.toUInt64 = 9223372036854775808) :
    -x = minInt64 := by
  have : x = minInt64 :=
    Int64.toBitVec_inj.mp (congrArg UInt64.toBitVec (hx.trans (by decide : _ = minInt64.toUInt64)))
  subst this
  decide

/-- `UnaryMinusInt` agrees with its rows on every chunk whose NULL rows hold slots the row check
would accept: its kernel tests and negates the slot of every row, NULL rows included. -/
theorem unaryMinusInt_vecAgreesWithRows (argUnsigned : Bool) (rows : List (IntCell × IntCell))
    (hnull : ∀ row ∈ rows, row.1.null = true →
      ∃ r, builtinUnaryMinusIntSig.evalInt argUnsigned (row.1.slot, false) = .ok r) :
    VecAgreesWithRows (.unaryMinusInt argUnsigned) rows := by
  refine vecAgreesWithRows_of_mapM _ List.mapM_map ?_
  rintro ⟨⟨null, slot⟩, c1⟩ hmem
  cases null with
  | true =>
    -- the row is NULL for the row check; the kernel still tests its slot, which passes
    obtain ⟨r, hr⟩ := hnull _ hmem rfl
    cases argUnsigned with
    | false =>
      have hne : slot ≠ minInt64 := by
        rintro rfl
        simp [builtinUnaryMinusIntSig.evalInt] at hr
      simp [IntSig.evalInt, builtinUnaryMinusIntSig.evalInt, IntCell.evalInt, CellAgrees, hne]
    | true =>
      have hle : ¬slot.toUInt64 > 9223372036854775808 := by
        intro hgt
        simp [builtinUnaryMinusIntSig.evalInt, hgt] at hr
      simp [IntSig.evalInt, builtinUnaryMinusIntSig.evalInt, IntCell.evalInt, CellAgrees, hle]
  | false =>
    cases argUnsigned with
    | false =>
      by_cases h : slot = minInt64 <;>
        simp [IntSig.evalInt, builtinUnaryMinusIntSig.evalInt, IntCell.evalInt, CellAgrees, h]
    | true =>
      by_cases hgt : slot.toUInt64 > 9223372036854775808
      · simp [IntSig.evalInt, builtinUnaryMinusIntSig.evalInt, IntCell.evalInt, CellAgrees, hgt]
      · -- the row check returns MinInt64 for 2 ^ 63, which is what negating its bits gives
        by_cases heq : slot.toUInt64 = 9223372036854775808
        · simp [IntSig.evalInt, builtinUnaryMinusIntSig.evalInt, IntCell.evalInt, CellAgrees, heq,
            neg_eq_minInt64_of_toUInt64 heq]
        · simp [IntSig.evalInt, builtinUnaryMinusIntSig.evalInt, IntCell.evalInt, CellAgrees, hgt,
            heq]

/-- A NULL row whose slot holds `MinInt64` is NULL for the row-level `evalInt` and an overflow for
the kernel. -/
theorem unaryMinusInt_null_slot_overflows :
    (IntSig.unaryMinusInt false).evalInt ⟨true, minInt64⟩ ⟨true, 0⟩ = .ok (0, true) ∧
      (IntSig.unaryMinusInt false).vecEvalInt [⟨true, minInt64⟩] [⟨true, 0⟩] =
        .error (.overflow "BIGINT" ("-" ++ toString minInt64)) := by
  constructor <;> decide

/-- With an unsigned argument, a NULL row whose slot reads as `2^64 - 1` is NULL for the row-level
`evalInt` and an overflow for the kernel. -/
theorem unaryMinusInt_unsigned_null_slot_overflows :
    (IntSig.unaryMinusInt true).evalInt ⟨true, -1⟩ ⟨true, 0⟩ = .ok (0, true) ∧
      (IntSig.unaryMinusInt true).vecEvalInt [⟨true, -1⟩] [⟨true, 0⟩] =
        .error (.overflow "BIGINT" ("-" ++ toString (18446744073709551615 : UInt64))) := by
  constructor <;> decide

/-! ### Which builtins agree on every chunk -/

theorem plusInt_agreesOnEveryChunk_iff (isLHSUnsigned isRHSUnsigned : Bool) :
    (∀ rows, VecAgreesWithRows (.plusInt isLHSUnsigned isRHSUnsigned) rows) ↔
      ¬(isLHSUnsigned = true ∧ isRHSUnsigned = false) := by
  refine ⟨fun h hUS => ?_, fun hUS rows => plusInt_vecAgreesWithRows _ _ hUS rows⟩
  obtain ⟨rfl, rfl⟩ := hUS
  exact not_vecAgreesWithRows_of_ok_error plusInt_plusUS_rejects_max_sum.1
    plusInt_plusUS_rejects_max_sum.2 (h _)

theorem minusInt_agreesOnEveryChunk_iff (forceToSigned lhsUnsignedFlag rhsUnsignedFlag : Bool) :
    (∀ rows, VecAgreesWithRows (.minusInt forceToSigned lhsUnsignedFlag rhsUnsignedFlag) rows) ↔
      (forceToSigned, lhsUnsignedFlag, rhsUnsignedFlag) ∈
        [(true, true, true), (true, false, true), (false, true, true), (false, true, false)] := by
  refine ⟨fun h => ?_, fun hgood rows => minusInt_vecAgreesWithRows _ _ _ hgood rows⟩
  -- the four other kernels each miss one row check, on a one-row chunk
  cases forceToSigned <;> cases lhsUnsignedFlag <;> cases rhsUnsignedFlag
  case false.false.false =>
    exact absurd (h _) (not_vecAgreesWithRows_of_error_ok minusInt_minusSS_misses_minInt64.1
      minusInt_minusSS_misses_minInt64.2)
  case false.false.true =>
    exact absurd (h _) (not_vecAgreesWithRows_of_error_ok minusInt_minusSU_accepts_negative.1
      minusInt_minusSU_accepts_negative.2)
  case true.false.false =>
    exact absurd (h _) (not_vecAgreesWithRows_of_error_ok minusInt_minusFSS_misses_minInt64.1
      minusInt_minusFSS_misses_minInt64.2)
  case true.true.false =>
    exact absurd (h _) (not_vecAgreesWithRows_of_error_ok minusInt_minusFUS_misses_minInt64.1
      minusInt_minusFUS_misses_minInt64.2)
  all_goals decide

theorem unaryMinusInt_not_agreesOnEveryChunk (argUnsigned : Bool) :
    ¬∀ rows, VecAgreesWithRows (.unaryMinusInt argUnsigned) rows := by
  intro h
  cases argUnsigned
  · exact not_vecAgreesWithRows_of_ok_error unaryMinusInt_null_slot_overflows.1
      unaryMinusInt_null_slot_overflows.2 (h _)
  · exact not_vecAgreesWithRows_of_ok_error unaryMinusInt_unsigned_null_slot_overflows.1
      unaryMinusInt_unsigned_null_slot_overflows.2 (h _)

/-- The vectorized integer builtins against their rows: `MultiplyInt`, `MultiplyIntUnsigned`,
`LogicAnd`, `LogicOr`, `UnaryNotInt` and `IsNull` agree on every chunk; `PlusInt` does exactly
when its operands are not an unsigned and a signed one, and `MinusInt` exactly in four of its
eight signedness cases; `UnaryMinusInt` agrees on every chunk whose NULL rows hold slots the row
check accepts, and not on every chunk. -/
theorem intBuiltins_vecAgreesWithRows :
    (∀ rows, VecAgreesWithRows .multiplyInt rows ∧ VecAgreesWithRows .multiplyIntUnsigned rows ∧
      VecAgreesWithRows .logicAnd rows ∧ VecAgreesWithRows .logicOr rows ∧
      VecAgreesWithRows .unaryNotInt rows ∧ VecAgreesWithRows .intIsNull rows) ∧
    (∀ isLHSUnsigned isRHSUnsigned,
      (∀ rows, VecAgreesWithRows (.plusInt isLHSUnsigned isRHSUnsigned) rows) ↔
        ¬(isLHSUnsigned = true ∧ isRHSUnsigned = false)) ∧
    (∀ forceToSigned lhsUnsignedFlag rhsUnsignedFlag,
      (∀ rows, VecAgreesWithRows (.minusInt forceToSigned lhsUnsignedFlag rhsUnsignedFlag) rows) ↔
        (forceToSigned, lhsUnsignedFlag, rhsUnsignedFlag) ∈
          [(true, true, true), (true, false, true), (false, true, true), (false, true, false)]) ∧
    (∀ argUnsigned rows, (∀ row ∈ rows, row.1.null = true →
        ∃ r, builtinUnaryMinusIntSig.evalInt argUnsigned (row.1.slot, false) = .ok r) →
      VecAgreesWithRows (.unaryMinusInt argUnsigned) rows) ∧
    (∀ argUnsigned, ¬∀ rows, VecAgreesWithRows (.unaryMinusInt argUnsigned) rows) :=
  ⟨fun rows => ⟨multiplyInt_vecAgreesWithRows rows, multiplyIntUnsigned_vecAgreesWithRows rows,
      logicAnd_vecAgreesWithRows rows, logicOr_vecAgreesWithRows rows,
      unaryNotInt_vecAgreesWithRows rows, intIsNull_vecAgreesWithRows rows⟩,
    plusInt_agreesOnEveryChunk_iff, minusInt_agreesOnEveryChunk_iff, unaryMinusInt_vecAgreesWithRows,
    unaryMinusInt_not_agreesOnEveryChunk⟩

end TinySql.Expression
