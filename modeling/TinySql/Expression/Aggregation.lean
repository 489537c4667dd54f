import TinySql.Expression.Rewrite

set_option linter.dupNamespace false

/-!
# Aggregate functions

`AggFuncDesc` (`expression/aggregation`) with the return type `typeInfer` gives it, and what the
executor's aggregate functions (`executor/aggfuncs`) compute over a group in `CompleteMode`.
`Build` picks a function by the description's name and return type; the function evaluates its
argument row by row at the type it was built for, folds the results into its partial result, and
appends the final one. Every function stops at the first error of its argument.

A result is the datum the function appends, `none` for NULL. The functions the partial and final
modes build, which only aggregation push-down creates, and those for `FLOAT` and `BIT` are left out.
-/

namespace TinySql.Expression

open TinySql.Lib

/-- The aggregate functions of tinysql, by their `ast` names. -/
inductive AggFuncName
  | count
  | sum
  | avg
  | firstRow
  | max
  | min
  deriving DecidableEq, Repr

inductive AggFunctionMode
  | completeMode
  | finalMode
  | partial1Mode
  | partial2Mode
  deriving DecidableEq, Repr

structure AggFuncDesc where
  name : AggFuncName
  args : List Expression
  retTp : FieldType
  mode : AggFunctionMode

/-- `typeInfer4Sum` and `typeInfer4Avg`: `BIGINT` over an integer, `DOUBLE` over anything else. -/
def typeInfer4SumAvg (argTp : FieldType) : FieldType :=
  match argTp.tp with
  | .tiny | .longlong => ⟨.longlong, Types.binaryFlag⟩
  | _ => ⟨.double, Types.binaryFlag⟩

/-- The type of `Args[0]`; the parser gives every aggregate function an argument. -/
def firstArgType : List Expression → FieldType
  | arg :: _ => arg.getType
  | [] => default

/-- `typeInfer`: the return type of each function from its first argument's type. -/
def typeInfer (name : AggFuncName) (args : List Expression) : FieldType :=
  let argTp := firstArgType args
  match name with
  | .count => ⟨.longlong, Types.binaryFlag⟩
  | .sum | .avg => typeInfer4SumAvg argTp
  -- `MAX` and `MIN` clone the argument's type and clear its `NotNullFlag`
  | .max | .min => ⟨argTp.tp, argTp.flag - (argTp.flag &&& Types.notNullFlag)⟩
  | .firstRow => argTp

/-- `NewAggFuncDesc`. -/
def newAggFuncDesc (name : AggFuncName) (args : List Expression) : AggFuncDesc :=
  ⟨name, args, typeInfer name args, .completeMode⟩

/-- `types.AddInt64`. -/
def addInt64 (a b : Int64) : Except EvalError Int64 :=
  if (a > 0 && b > 0 && maxInt64 - a < b) || (a < 0 && b < 0 && minInt64 - a > b) then
    .error (.overflow "BIGINT" ("(" ++ toString a.toInt ++ ", " ++ toString b.toInt ++ ")"))
  else .ok (a + b)

/-- The functions `Build` makes for `CompleteMode`. -/
inductive AggFunc
  | countOriginal (argTp : EvalType)
  | sum4Int64
  | sum4Float64
  | avgOriginal4Int64
  | avgOriginal4Float64
  | firstRow (evalTp : EvalType)
  | maxMin4Int (isMax : Bool)
  | maxMin4Uint (isMax : Bool)
  | maxMin4Float64 (isMax : Bool)
  | maxMin4String (isMax : Bool)
  deriving DecidableEq, Repr

/-- `aggfuncs.Build` in `CompleteMode`: `COUNT` by its argument's evaluation type, the others by
the return type's. -/
def AggFuncDesc.build (desc : AggFuncDesc) : Option AggFunc :=
  let retEvalType := desc.retTp.evalType
  match desc.mode, desc.name with
  | .completeMode, .count => some (.countOriginal (firstArgType desc.args).evalType)
  | .completeMode, .avg =>
    some (if retEvalType = .int then .avgOriginal4Int64 else .avgOriginal4Float64)
  | _, .count | _, .avg => none
  | _, .sum => some (if retEvalType = .int then .sum4Int64 else .sum4Float64)
  | _, .firstRow => some (.firstRow retEvalType)
  | _, .max | _, .min =>
    let isMax := desc.name = .max
    some <| match retEvalType with
      | .int => if Types.hasUnsignedFlag desc.retTp.flag then .maxMin4Uint isMax else .maxMin4Int isMax
      | .real => .maxMin4Float64 isMax
      | .string => .maxMin4String isMax

section Aggfuncs

variable (vars : SessionVars)

/-- The loop of every `UpdatePartialResult`: the argument evaluated at `et` on each row of the
group, its results folded by `step`, the first error returned. -/
def updatePartialResult (arg : Expression) (et : EvalType) {σ : Type}
    (step : σ → et.Slot × Bool → Except ExprError σ) (init : σ) (rows : List Row) :
    Except ExprError σ :=
  rows.foldlM (fun acc row => do step acc (← arg.eval vars row et)) init

/-- The partial result of `SUM` and of `MAX`/`MIN`: NULL until the first non-NULL input, which is
taken as it is; each later input is combined with it by `combine`. -/
def firstThen {α : Type} (combine : α → α → Except ExprError α) (acc : Option α) (input : α × Bool) :
    Except ExprError (Option α) :=
  if input.2 then .ok acc
  else
    match acc with
    | none => .ok (some input.1)
    | some v => some <$> combine v input.1

/-- `maxMin4*`: a later input replaces the kept one when it is greater (`MAX`) or smaller. -/
def maxMinCombine {α : Type} (isMax : Bool) (gt lt : α → α → Bool) (v input : α) :
    Except ExprError α :=
  .ok (if isMax && gt input v || !isMax && lt input v then input else v)

/-- `CompareString` on bytes. -/
def compareBytes (a b : List (Fin 256)) : Ordering :=
  compare (a.map Fin.val) (b.map Fin.val)

/-- What the function appends for the group. -/
def AggFunc.evalGroup (arg : Expression) : AggFunc → List Row → Except ExprError (Option Datum)
  | .countOriginal argTp, rows => do
    let n ← updatePartialResult vars arg argTp
      (fun (n : Int64) input => .ok (if input.2 then n else n + 1)) 0 rows
    return some (.int64 n)
  | .sum4Int64, rows => do
    let acc ← updatePartialResult vars arg .int
      (firstThen fun v input => (addInt64 v input).mapError .eval) none rows
    return acc.map .int64
  | .sum4Float64, rows => do
    let acc ← updatePartialResult vars arg .real (firstThen fun v input => .ok (v + input)) none rows
    return acc.map .float64
  | .avgOriginal4Int64, rows => do
    let (sum, count) ← updatePartialResult vars arg .int
      (fun (acc : Int64 × Int64) input =>
        if input.2 then .ok acc
        else do
          let newSum ← (addInt64 acc.1 input.1).mapError .eval
          return (newSum, acc.2 + 1)) (0, 0) rows
    return if count = 0 then none else some (.int64 (sum / count))
  | .avgOriginal4Float64, rows => do
    let (sum, count) ← updatePartialResult vars arg .real
      (fun (acc : Float × Int64) input =>
        .ok (if input.2 then acc else (acc.1 + input.1, acc.2 + 1))) (0, 0) rows
    return if count = 0 then none else some (.float64 (sum / Float.ofInt count.toInt))
  | .firstRow _, [] => .ok none
  | .firstRow et, row :: _ => do
    let (input, isNull) ← arg.eval vars row et
    return if isNull then none else some (et.toDatum false input)
  | .maxMin4Int isMax, rows => do
    let acc ← updatePartialResult vars arg .int
      (firstThen (maxMinCombine isMax (· > ·) (· < ·))) none rows
    return acc.map .int64
  | .maxMin4Uint isMax, rows => do
    let acc ← updatePartialResult vars arg .int
      (fun acc input => firstThen (maxMinCombine isMax (· > ·) (· < ·)) acc
        (input.1.toUInt64, input.2)) none rows
    return acc.map .uint64
  | .maxMin4Float64 isMax, rows => do
    let acc ← updatePartialResult vars arg .real
      (firstThen (maxMinCombine isMax (· > ·) (· < ·))) none rows
    return acc.map .float64
  | .maxMin4String isMax, rows => do
    let acc ← updatePartialResult vars arg .string
      (firstThen (maxMinCombine isMax (compareBytes · · = .gt) (compareBytes · · = .lt))) none rows
    return acc.map .bytes

/-- What the aggregation appends for the function over the group; `none` when `Build` makes
nothing for the description. -/
def AggFuncDesc.evalGroup (desc : AggFuncDesc) (rows : List Row) :
    Option (Except ExprError (Option Datum)) :=
  match desc.build, desc.args with
  | some f, arg :: _ => some (f.evalGroup vars arg rows)
  | _, _ => none

end Aggfuncs

/-! ### `SUM` of integers -/

theorem addInt64_of_range {a b : Int64} (h1 : -2 ^ 63 ≤ a.toInt + b.toInt)
    (h2 : a.toInt + b.toInt < 2 ^ 63) : addInt64 a b = .ok (a + b) := by
  have ha1 := Int64.le_toInt a
  have ha2 := Int64.toInt_lt a
  have hb1 := Int64.le_toInt b
  have hb2 := Int64.toInt_lt b
  rw [addInt64, if_neg]
  simp only [Bool.or_eq_true, Bool.and_eq_true, decide_eq_true_eq, not_or, not_and,
    Int64.lt_iff_toInt_lt, gt_iff_lt, Int64.toInt_zero]
  constructor
  · intro ⟨ha, _⟩
    have hsub : (maxInt64 - a).toInt = 2 ^ 63 - 1 - a.toInt := by
      rw [toInt_sub_of_range] <;> simp <;> omega
    rw [hsub]
    omega
  · intro ⟨ha, _⟩
    have hsub : (minInt64 - a).toInt = -2 ^ 63 - a.toInt := by
      rw [toInt_sub_of_range] <;> simp <;> omega
    rw [hsub]
    omega


theorem addInt64_error_of_out {a b : Int64}
    (h : a.toInt + b.toInt < -2 ^ 63 ∨ 2 ^ 63 ≤ a.toInt + b.toInt) : ∃ e, addInt64 a b = .error e := by
  have ha1 := Int64.le_toInt a
  have ha2 := Int64.toInt_lt a
  have hb1 := Int64.le_toInt b
  have hb2 := Int64.toInt_lt b
  rw [addInt64, if_pos]
  · exact ⟨_, rfl⟩
  simp only [Bool.or_eq_true, Bool.and_eq_true, decide_eq_true_eq, Int64.lt_iff_toInt_lt, gt_iff_lt,
    Int64.toInt_zero]
  rcases h with hlow | hhigh
  · right
    have hsub : (minInt64 - a).toInt = -2 ^ 63 - a.toInt := by
      rw [toInt_sub_of_range] <;> simp <;> omega
    rw [hsub]
    omega
  · left
    have hsub : (maxInt64 - a).toInt = 2 ^ 63 - 1 - a.toInt := by
      rw [toInt_sub_of_range] <;> simp <;> omega
    rw [hsub]
    omega

/-- The non-NULL inputs of a group, read as signed integers. -/
def nonNullInts (xs : List (Int64 × Bool)) : List Int :=
  xs.filterMap fun x => if x.2 then none else some x.1.toInt

@[simp] theorem nonNullInts_nil : nonNullInts [] = [] := rfl

theorem nonNullInts_cons_null (x : Int64 × Bool) (xs : List (Int64 × Bool)) (hx : x.2 = true) :
    nonNullInts (x :: xs) = nonNullInts xs := by
  simp [nonNullInts, hx]

theorem nonNullInts_cons_value (x : Int64 × Bool) (xs : List (Int64 × Bool)) (hx : x.2 = false) :
    nonNullInts (x :: xs) = x.1.toInt :: nonNullInts xs := by
  simp [nonNullInts, hx]

/-- What the partial result of `SUM` has added up so far. -/
def accInt (acc : Option Int64) : Int :=
  (acc.map Int64.toInt).getD 0

@[simp] theorem accInt_none : accInt none = 0 := rfl

@[simp] theorem accInt_some (s : Int64) : accInt (some s) = s.toInt := rfl

/-- The step of `sum4Int64`. -/
abbrev sumStep : Option Int64 → Int64 × Bool → Except ExprError (Option Int64) :=
  firstThen fun v input => (addInt64 v input).mapError .eval

theorem foldlM_sumStep_of_prefixes (xs : List (Int64 × Bool)) (acc : Option Int64)
    (h : ∀ k, -2 ^ 63 ≤ accInt acc + ((nonNullInts xs).take k).sum ∧
      accInt acc + ((nonNullInts xs).take k).sum < 2 ^ 63) :
    ∃ r, xs.foldlM sumStep acc = .ok r ∧ accInt r = accInt acc + (nonNullInts xs).sum ∧
      (r = none ↔ acc = none ∧ nonNullInts xs = []) := by
  induction xs generalizing acc with
  | nil => exact ⟨acc, rfl, by simp, by simp⟩
  | cons x xs ih =>
    rw [List.foldlM_cons]
    cases hx : x.2 with
    | true =>
      have hstep : sumStep acc x = .ok acc := by simp [sumStep, firstThen, hx]
      rw [nonNullInts_cons_null x xs hx] at h ⊢
      rw [hstep, except_bind_ok]
      exact ih acc h
    | false =>
      rw [nonNullInts_cons_value x xs hx] at h ⊢
      have hnext : ∀ k, -2 ^ 63 ≤ (accInt acc + x.1.toInt) + ((nonNullInts xs).take k).sum ∧
          (accInt acc + x.1.toInt) + ((nonNullInts xs).take k).sum < 2 ^ 63 := by
        intro k
        have hk := h (k + 1)
        rw [List.take_succ_cons, List.sum_cons] at hk
        constructor <;> omega
      cases acc with
      | none =>
        have hstep : sumStep none x = .ok (some x.1) := by simp [sumStep, firstThen, hx]
        rw [hstep, except_bind_ok]
        obtain ⟨r, hr, hsum, hnone⟩ := ih (some x.1) (by simpa using hnext)
        refine ⟨r, hr, ?_, ?_⟩
        · rw [hsum, accInt_some, accInt_none, List.sum_cons, zero_add]
        · simpa using hnone
      | some s =>
        have hrange := h 1
        simp only [List.take_succ_cons, List.take_zero, List.sum_cons, List.sum_nil, add_zero,
          accInt_some] at hrange
        have hadd : addInt64 s x.1 = .ok (s + x.1) := addInt64_of_range hrange.1 hrange.2
        have hstep : sumStep (some s) x = .ok (some (s + x.1)) := by
          simp [sumStep, firstThen, hx, hadd, Except.mapError, Functor.map, Except.map]
        have hsum : (s + x.1).toInt = s.toInt + x.1.toInt := toInt_add_of_range hrange.1 hrange.2
        rw [hstep, except_bind_ok]
        obtain ⟨r, hr, hrsum, hnone⟩ := ih (some (s + x.1)) (by simpa [hsum] using hnext)
        refine ⟨r, hr, ?_, ?_⟩
        · rw [hrsum, accInt_some, hsum, accInt_some, List.sum_cons]
          ring
        · simpa using hnone



theorem accInt_range (acc : Option Int64) : -2 ^ 63 ≤ accInt acc ∧ accInt acc < 2 ^ 63 := by
  cases acc with
  | none => simp
  | some s => exact ⟨Int64.le_toInt s, Int64.toInt_lt s⟩

theorem foldlM_sumStep_error_of_prefix (xs : List (Int64 × Bool)) (acc : Option Int64) (k : Nat)
    (hk : accInt acc + ((nonNullInts xs).take k).sum < -2 ^ 63 ∨
      2 ^ 63 ≤ accInt acc + ((nonNullInts xs).take k).sum) :
    ∃ e, xs.foldlM sumStep acc = .error e := by
  have hacc := accInt_range acc
  induction xs generalizing acc k with
  | nil =>
    simp only [nonNullInts_nil, List.take_nil, List.sum_nil, add_zero] at hk
    omega
  | cons x xs ih =>
    rw [List.foldlM_cons]
    cases hx : x.2 with
    | true =>
      have hstep : sumStep acc x = .ok acc := by simp [sumStep, firstThen, hx]
      rw [nonNullInts_cons_null x xs hx] at hk
      rw [hstep, except_bind_ok]
      exact ih acc k hk hacc
    | false =>
      rw [nonNullInts_cons_value x xs hx] at hk
      cases k with
      | zero =>
        simp only [List.take_zero, List.sum_nil, add_zero] at hk
        omega
      | succ k =>
        rw [List.take_succ_cons, List.sum_cons] at hk
        cases acc with
        | none =>
          have hstep : sumStep none x = .ok (some x.1) := by simp [sumStep, firstThen, hx]
          rw [hstep, except_bind_ok]
          apply ih (some x.1) k _ (accInt_range _)
          rw [accInt_some]
          rw [accInt_none] at hk
          omega
        | some s =>
          rw [accInt_some] at hk hacc
          by_cases hrange : -2 ^ 63 ≤ s.toInt + x.1.toInt ∧ s.toInt + x.1.toInt < 2 ^ 63
          · have hadd : addInt64 s x.1 = .ok (s + x.1) := addInt64_of_range hrange.1 hrange.2
            have hstep : sumStep (some s) x = .ok (some (s + x.1)) := by
              simp [sumStep, firstThen, hx, hadd, Except.mapError, Functor.map, Except.map]
            have hsum : (s + x.1).toInt = s.toInt + x.1.toInt := toInt_add_of_range hrange.1 hrange.2
            rw [hstep, except_bind_ok]
            apply ih (some (s + x.1)) k _ (accInt_range _)
            rw [accInt_some, hsum]
            omega
          · obtain ⟨e, he⟩ := addInt64_error_of_out (a := s) (b := x.1) (by omega)
            have hstep : sumStep (some s) x = .error (.eval e) := by
              simp [sumStep, firstThen, hx, he, Except.mapError, Functor.map, Except.map]
            rw [hstep]
            exact ⟨_, rfl⟩

section Sums

variable (vars : SessionVars)

/-- `SUM` of a `BIGINT` argument adds up the inputs as signed integers and checks the range after
each addition: while every prefix sum fits, it returns the exact sum of the non-NULL inputs (NULL
when there is none). -/
theorem sum4Int64_evalGroup_of_prefixes {arg : Expression} {rows : List Row}
    {xs : List (Int64 × Bool)} (h : rows.mapM (fun row => arg.eval vars row .int) = .ok xs)
    (hrange : ∀ k, -2 ^ 63 ≤ ((nonNullInts xs).take k).sum ∧ ((nonNullInts xs).take k).sum < 2 ^ 63) :
    ∃ r, AggFunc.sum4Int64.evalGroup vars arg rows = .ok (r.map .int64) ∧
      accInt r = (nonNullInts xs).sum ∧ (r = none ↔ nonNullInts xs = []) := by
  have hfold : updatePartialResult vars arg .int sumStep none rows = xs.foldlM sumStep none :=
    foldlM_bind_of_mapM h sumStep none
  obtain ⟨r, hr, hsum, hnone⟩ := foldlM_sumStep_of_prefixes xs none (by simpa using hrange)
  refine ⟨r, ?_, by simpa using hsum, by simpa using hnone⟩
  simp only [AggFunc.evalGroup]
  rw [hfold, hr]
  rfl

/-- `SUM` fails as soon as one prefix sum leaves the range, whatever the sum of all of them. -/
theorem sum4Int64_evalGroup_error_of_prefix {arg : Expression} {rows : List Row}
    {xs : List (Int64 × Bool)} (h : rows.mapM (fun row => arg.eval vars row .int) = .ok xs) (k : Nat)
    (hk : ((nonNullInts xs).take k).sum < -2 ^ 63 ∨ 2 ^ 63 ≤ ((nonNullInts xs).take k).sum) :
    ∃ e, AggFunc.sum4Int64.evalGroup vars arg rows = .error e := by
  have hfold : updatePartialResult vars arg .int sumStep none rows = xs.foldlM sumStep none :=
    foldlM_bind_of_mapM h sumStep none
  obtain ⟨e, he⟩ := foldlM_sumStep_error_of_prefix xs none k (by simpa using hk)
  refine ⟨e, ?_⟩
  simp only [AggFunc.evalGroup]
  rw [hfold, he]
  rfl

/-- `SUM` of a `BIGINT` argument succeeds exactly when every prefix sum of its non-NULL inputs
fits in `BIGINT`, and then returns their sum, NULL when there is none. -/
theorem sum4Int64_evalGroup_spec {arg : Expression} {rows : List Row} {xs : List (Int64 × Bool)}
    (h : rows.mapM (fun row => arg.eval vars row .int) = .ok xs) :
    ((∀ k, -2 ^ 63 ≤ ((nonNullInts xs).take k).sum ∧ ((nonNullInts xs).take k).sum < 2 ^ 63) →
      ∃ r, AggFunc.sum4Int64.evalGroup vars arg rows = .ok (r.map .int64) ∧
        accInt r = (nonNullInts xs).sum ∧ (r = none ↔ nonNullInts xs = [])) ∧
    ((∃ k, ((nonNullInts xs).take k).sum < -2 ^ 63 ∨ 2 ^ 63 ≤ ((nonNullInts xs).take k).sum) →
      ∃ e, AggFunc.sum4Int64.evalGroup vars arg rows = .error e) :=
  ⟨sum4Int64_evalGroup_of_prefixes vars h,
    fun ⟨k, hk⟩ => sum4Int64_evalGroup_error_of_prefix vars h k hk⟩

end Sums

/-- A `BIGINT UNSIGNED` column and a `BIGINT` one, each the first of its row. -/
def unsignedBigint : Column :=
  ⟨1, 0, ⟨.longlong, Types.unsignedFlag⟩⟩

def signedBigint : Column :=
  ⟨2, 0, ⟨.longlong, Types.binaryFlag⟩⟩

theorem sum4Int64_evalGroup_spec_maxInt64 :
    [[⟨false, maxInt64⟩], [⟨true, 0⟩], [⟨false, -1⟩]].mapM
        (fun row => (Expression.column signedBigint).eval defaultVars row .int) =
        .ok [(maxInt64, false), (0, true), (-1, false)] ∧
      ((∀ k, -2 ^ 63 ≤ ((nonNullInts [(maxInt64, false), (0, true), (-1, false)]).take k).sum ∧
          ((nonNullInts [(maxInt64, false), (0, true), (-1, false)]).take k).sum < 2 ^ 63) →
        ∃ r, AggFunc.sum4Int64.evalGroup defaultVars (.column signedBigint)
            [[⟨false, maxInt64⟩], [⟨true, 0⟩], [⟨false, -1⟩]] = .ok (r.map .int64) ∧
          accInt r = (nonNullInts [(maxInt64, false), (0, true), (-1, false)]).sum ∧
          (r = none ↔ nonNullInts [(maxInt64, false), (0, true), (-1, false)] = [])) ∧
      ((∃ k, ((nonNullInts [(maxInt64, false), (0, true), (-1, false)]).take k).sum < -2 ^ 63 ∨
          2 ^ 63 ≤ ((nonNullInts [(maxInt64, false), (0, true), (-1, false)]).take k).sum) →
        ∃ e, AggFunc.sum4Int64.evalGroup defaultVars (.column signedBigint)
          [[⟨false, maxInt64⟩], [⟨true, 0⟩], [⟨false, -1⟩]] = .error e) :=
  ⟨rfl, sum4Int64_evalGroup_spec defaultVars rfl⟩

/-- `SUM` over `BIGINT UNSIGNED` reads the argument as signed: `2^63` comes out as `-2^63` in a
signed `BIGINT` result, with no error. Over `BIGINT` the range is checked on the prefix sums:
`MaxInt64 + 1 - 1` fails although the sum is `MaxInt64`. -/
theorem sum4Int64_not_exact_sum :
    (newAggFuncDesc .sum [.column unsignedBigint]).retTp = ⟨.longlong, Types.binaryFlag⟩ ∧
      (newAggFuncDesc .sum [.column unsignedBigint]).evalGroup defaultVars [[⟨false, minInt64⟩]] =
        some (.ok (some (.int64 minInt64))) ∧
      (newAggFuncDesc .sum [.column signedBigint]).evalGroup defaultVars
          [[⟨false, maxInt64⟩], [⟨false, 1⟩], [⟨false, -1⟩]] =
        some (.error (.eval (.overflow "BIGINT" "(9223372036854775807, 1)"))) :=
  ⟨rfl, rfl, rfl⟩

end TinySql.Expression
