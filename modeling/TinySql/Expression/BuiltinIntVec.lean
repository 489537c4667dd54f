import TinySql.Expression.BuiltinInt
import TinySql.Lib.ExceptList

/-!
# The vectorized integer builtins

`vecEvalInt` of the builtins of `BuiltinInt.lean` (`builtin_arithmetic_vec.go`,
`builtin_op_vec.go`). Each evaluates its arguments into whole columns, one of which is reused as
the result, merges the NULL flags, and runs a kernel over the rows. For the arithmetic builtins the
kernel is picked by the operands' signedness and re-implements the overflow test of the row-level
`evalInt` for its combination.

The main results say where the two agree. Every kernel is an instance of one loop, `vecKernel`,
and `vecEvalInt_binary_agrees` reduces agreement with the rows to agreement of the kernel's step
with the row-level check, row by row. The kernels whose step is the row's check agree on every
chunk; `minusSS` and `minusFUS` drop the `MinInt64` clause of the row-level `MinusInt`, `minusSU`
tests a different condition, `plusUS` compares `lh` with itself, and the unary minus kernel does
not skip NULL rows. Each of those has a one-row chunk on which the two disagree.
-/

namespace TinySql.Expression

open TinySql.Lib

/-- `Column.MergeNulls`: a row of `result` becomes NULL where the row of `other` is. The source ANDs
the bitmaps byte by byte, which on the rows of the column is an or of the NULL flags. -/
def mergeNulls (result other : List IntCell) : List IntCell :=
  List.zipWith (fun r o => { r with null := r.null || o.null }) result other

/-- The loop every binary arithmetic kernel runs: for each row it skips a NULL row of `result` and
otherwise replaces the result's slot by `step other slot`, returning the first error. -/
def vecKernel (step : Int64 → Int64 → Except EvalError Int64) :
    List Int64 → List IntCell → Except EvalError (List IntCell)
  | o :: os, r :: rs =>
    if r.null then (vecKernel step os rs).map (r :: ·)
    else do
      let v ← step o r.slot
      let rest ← vecKernel step os rs
      pure ({ r with slot := v } :: rest)
  | [], rs => .ok rs
  | _ :: _, [] => .ok []

/-! ### The kernels of `PlusInt` -/

/-- `builtinArithmeticPlusIntSig.plusUU`. -/
def builtinArithmeticPlusIntSig.plusUU : List Int64 → List IntCell → Except EvalError (List IntCell) :=
  vecKernel fun lh rh =>
    if lh.toUInt64 > maxUint64 - rh.toUInt64 then .error (.overflow "BIGINT UNSIGNED" "(%s + %s)")
    else .ok (lh + rh)

/-- `builtinArithmeticPlusIntSig.plusUS`. Its second test compares `lh` with `MaxUint64 - lh` where
the row-level `evalInt` compares `a` with `MaxUint64 - b`. -/
def builtinArithmeticPlusIntSig.plusUS : List Int64 → List IntCell → Except EvalError (List IntCell) :=
  vecKernel fun lh rh =>
    if rh < 0 && (-rh).toUInt64 > lh.toUInt64 then .error (.overflow "BIGINT UNSIGNED" "(%s + %s)")
    else if rh > 0 && lh.toUInt64 > maxUint64 - lh.toUInt64 then
      .error (.overflow "BIGINT UNSIGNED" "(%s + %s)")
    else .ok (lh + rh)

/-- `builtinArithmeticPlusIntSig.plusSU`. -/
def builtinArithmeticPlusIntSig.plusSU : List Int64 → List IntCell → Except EvalError (List IntCell) :=
  vecKernel fun lh rh =>
    if lh < 0 && (-lh).toUInt64 > rh.toUInt64 then .error (.overflow "BIGINT UNSIGNED" "(%s + %s)")
    else if lh > 0 && rh.toUInt64 > maxUint64 - lh.toUInt64 then
      .error (.overflow "BIGINT UNSIGNED" "(%s + %s)")
    else .ok (lh + rh)

/-- `builtinArithmeticPlusIntSig.plusSS`. -/
def builtinArithmeticPlusIntSig.plusSS : List Int64 → List IntCell → Except EvalError (List IntCell) :=
  vecKernel fun lh rh =>
    if (lh > 0 && rh > maxInt64 - lh) || (lh < 0 && rh < minInt64 - lh) then
      .error (.overflow "BIGINT" "(%s + %s)")
    else .ok (lh + rh)

/-- `builtinArithmeticPlusIntSig.vecEvalInt`: the first argument goes to a buffer `lh`, the second
into `result`, whose NULL flags then take `lh`'s in. -/
def builtinArithmeticPlusIntSig.vecEvalInt (isLHSUnsigned isRHSUnsigned : Bool)
    (col0 col1 : List IntCell) : Except EvalError (List IntCell) :=
  let lh := col0
  let result := mergeNulls col1 lh
  let lhi64s := lh.map (·.slot)
  match isLHSUnsigned, isRHSUnsigned with
  | true, true => builtinArithmeticPlusIntSig.plusUU lhi64s result
  | true, false => builtinArithmeticPlusIntSig.plusUS lhi64s result
  | false, true => builtinArithmeticPlusIntSig.plusSU lhi64s result
  | false, false => builtinArithmeticPlusIntSig.plusSS lhi64s result

/-! ### The kernels of `MinusInt` -/

/-- `builtinArithmeticMinusIntSig.minusFUU`. Its third message names the sum, as in the source. -/
def builtinArithmeticMinusIntSig.minusFUU :
    List Int64 → List IntCell → Except EvalError (List IntCell) :=
  vecKernel fun lh rh =>
    if lh < 0 || lh > maxInt64 then .error (.overflow "BIGINT UNSIGNED" "(%s - %s)")
    else if rh < 0 || rh > maxInt64 then .error (.overflow "BIGINT UNSIGNED" "(%s - %s)")
    else if (lh > 0 && -rh > maxInt64 - lh) || (lh < 0 && -rh < minInt64 - lh) then
      .error (.overflow "BIGINT" "(%s + %s)")
    else .ok (lh - rh)

/-- `builtinArithmeticMinusIntSig.minusFUS`. -/
def builtinArithmeticMinusIntSig.minusFUS :
    List Int64 → List IntCell → Except EvalError (List IntCell) :=
  vecKernel fun lh rh =>
    if lh < 0 || lh > maxInt64 then .error (.overflow "BIGINT UNSIGNED" "(%s - %s)")
    else if (lh > 0 && -rh > maxInt64 - lh) || (lh < 0 && -rh < minInt64 - lh) then
      .error (.overflow "BIGINT" "(%s + %s)")
    else .ok (lh - rh)

/-- `builtinArithmeticMinusIntSig.minusFSU`. -/
def builtinArithmeticMinusIntSig.minusFSU :
    List Int64 → List IntCell → Except EvalError (List IntCell) :=
  vecKernel fun lh rh =>
    if rh < 0 || rh > maxInt64 then .error (.overflow "BIGINT UNSIGNED" "(%s - %s)")
    else if (lh > 0 && -rh > maxInt64 - lh) || (lh < 0 && -rh < minInt64 - lh) then
      .error (.overflow "BIGINT" "(%s + %s)")
    else .ok (lh - rh)

/-- `builtinArithmeticMinusIntSig.minusUU`. -/
def builtinArithmeticMinusIntSig.minusUU :
    List Int64 → List IntCell → Except EvalError (List IntCell) :=
  vecKernel fun lh rh =>
    if lh.toUInt64 < rh.toUInt64 then .error (.overflow "BIGINT UNSIGNED" "(%s - %s)")
    else .ok (lh - rh)

/-- `builtinArithmeticMinusIntSig.minusUS`. -/
def builtinArithmeticMinusIntSig.minusUS :
    List Int64 → List IntCell → Except EvalError (List IntCell) :=
  vecKernel fun lh rh =>
    if rh ≥ 0 && lh.toUInt64 < rh.toUInt64 then .error (.overflow "BIGINT UNSIGNED" "(%s - %s)")
    else if rh < 0 && lh.toUInt64 > maxUint64 - (-rh).toUInt64 then
      .error (.overflow "BIGINT UNSIGNED" "(%s - %s)")
    else .ok (lh - rh)

/-- `builtinArithmeticMinusIntSig.minusSU`: it tests `uint64(lh - MinInt64) < uint64(rh)` where the
row-level `evalInt` tests `a < 0 || uint64(a) < uint64(b)`. -/
def builtinArithmeticMinusIntSig.minusSU :
    List Int64 → List IntCell → Except EvalError (List IntCell) :=
  vecKernel fun lh rh =>
    if (lh - minInt64).toUInt64 < rh.toUInt64 then .error (.overflow "BIGINT UNSIGNED" "(%s - %s)")
    else .ok (lh - rh)

/-- `builtinArithmeticMinusIntSig.minusSS`, which lacks the row-level `a >= 0 && b == MinInt64`
clause. -/
def builtinArithmeticMinusIntSig.minusSS :
    List Int64 → List IntCell → Except EvalError (List IntCell) :=
  vecKernel fun lh rh =>
    if (lh > 0 && -rh > maxInt64 - lh) || (lh < 0 && -rh < minInt64 - lh) then
      .error (.overflow "BIGINT" "(%s - %s)")
    else .ok (lh - rh)

/-- `builtinArithmeticMinusIntSig.vecEvalInt`. Both `forceToSigned` cases with two signed operands
and the plain signed case share `minusSS`. -/
def builtinArithmeticMinusIntSig.vecEvalInt (forceToSigned isLHSUnsigned isRHSUnsigned : Bool)
    (col0 col1 : List IntCell) : Except EvalError (List IntCell) :=
  let lh := col0
  let result := mergeNulls col1 lh
  let lhi64s := lh.map (·.slot)
  match forceToSigned, isLHSUnsigned, isRHSUnsigned with
  | true, true, true => builtinArithmeticMinusIntSig.minusFUU lhi64s result
  | true, true, false => builtinArithmeticMinusIntSig.minusFUS lhi64s result
  | true, false, true => builtinArithmeticMinusIntSig.minusFSU lhi64s result
  | true, false, false => builtinArithmeticMinusIntSig.minusSS lhi64s result
  | false, true, true => builtinArithmeticMinusIntSig.minusUU lhi64s result
  | false, true, false => builtinArithmeticMinusIntSig.minusUS lhi64s result
  | false, false, true => builtinArithmeticMinusIntSig.minusSU lhi64s result
  | false, false, false => builtinArithmeticMinusIntSig.minusSS lhi64s result

/-! ### `MultiplyInt` and `MultiplyIntUnsigned` -/

/-- `builtinArithmeticMultiplyIntSig.vecEvalInt`: the first argument is evaluated into `result`
and the second into `buf`, so the kernel's step sees `y` first and the result slot `x` second. -/
def builtinArithmeticMultiplyIntSig.vecEvalInt (col0 col1 : List IntCell) :
    Except EvalError (List IntCell) :=
  let result := mergeNulls col0 col1
  vecKernel (fun y x =>
      let tmp := x * y
      if x != 0 && tmp / x != y then .error (.overflow "BIGINT" "(%s * %s)") else .ok tmp)
    (col1.map (·.slot)) result

/-- `builtinArithmeticMultiplyIntUnsignedSig.vecEvalInt`. -/
def builtinArithmeticMultiplyIntUnsignedSig.vecEvalInt (col0 col1 : List IntCell) :
    Except EvalError (List IntCell) :=
  let result := mergeNulls col0 col1
  vecKernel (fun y x =>
      let res := x.toUInt64 * y.toUInt64
      if x.toUInt64 != 0 && res / x.toUInt64 != y.toUInt64 then
        .error (.overflow "BIGINT UNSIGNED" "(%s * %s)")
      else .ok res.toInt64)
    (col1.map (·.slot)) result

/-! ### The unary and logical builtins -/

/-- `builtinUnaryMinusIntSig.vecEvalInt`: every slot is tested and negated, NULL rows included. -/
def builtinUnaryMinusIntSig.vecEvalInt (argUnsigned : Bool) (col0 : List IntCell) :
    Except EvalError (List IntCell) :=
  col0.mapM fun c =>
    if argUnsigned then
      if c.slot.toUInt64 > (9223372036854775808 : UInt64) then
        .error (.overflow "BIGINT" ("-" ++ toString c.slot.toUInt64))
      else .ok { c with slot := -c.slot }
    else if c.slot == minInt64 then .error (.overflow "BIGINT" ("-" ++ toString c.slot))
    else .ok { c with slot := -c.slot }

/-- One row of `builtinLogicAndSig.vecEvalInt`, with the first argument's row in `result`. -/
def logicAndRow (r b : IntCell) : IntCell :=
  if !r.null && r.slot == 0 then { r with null := false }
  else if !b.null && b.slot == 0 then { slot := 0, null := false }
  else if r.null || b.null then { r with null := true }
  else { r with slot := 1 }

/-- `builtinLogicAndSig.vecEvalInt`. -/
def builtinLogicAndSig.vecEvalInt (col0 col1 : List IntCell) : Except EvalError (List IntCell) :=
  .ok (List.zipWith logicAndRow col0 col1)

/-- One row of `builtinLogicOrSig.vecEvalInt`; the NULL flag is written only when it changes. -/
def logicOrRow (r b : IntCell) : IntCell :=
  let isNull0 := r.null
  let isNull1 := b.null
  if (!isNull0 && r.slot != 0) || (!isNull1 && b.slot != 0) then
    { slot := 1, null := false }
  else if isNull0 || isNull1 then { r with null := true }
  else { slot := 0, null := false }

/-- `builtinLogicOrSig.vecEvalInt`. -/
def builtinLogicOrSig.vecEvalInt (col0 col1 : List IntCell) : Except EvalError (List IntCell) :=
  .ok (List.zipWith logicOrRow col0 col1)

/-- `builtinUnaryNotIntSig.vecEvalInt`. -/
def builtinUnaryNotIntSig.vecEvalInt (col0 : List IntCell) : Except EvalError (List IntCell) :=
  .ok (col0.map fun c =>
    if c.null then c else { c with slot := if c.slot == 0 then 1 else 0 })

/-- `builtinIntIsNullSig.vecEvalInt`. -/
def builtinIntIsNullSig.vecEvalInt (col0 : List IntCell) : Except EvalError (List IntCell) :=
  .ok (col0.map fun c => if c.null then { slot := 1, null := false } else { c with slot := 0 })

/-- `vecEvalInt` of a builtin on its argument columns. -/
def IntSig.vecEvalInt : IntSig → List IntCell → List IntCell → Except EvalError (List IntCell)
  | .plusInt l r, c0, c1 => builtinArithmeticPlusIntSig.vecEvalInt l r c0 c1
  | .minusInt f l r, c0, c1 => builtinArithmeticMinusIntSig.vecEvalInt f l r c0 c1
  | .multiplyInt, c0, c1 => builtinArithmeticMultiplyIntSig.vecEvalInt c0 c1
  | .multiplyIntUnsigned, c0, c1 => builtinArithmeticMultiplyIntUnsignedSig.vecEvalInt c0 c1
  | .unaryMinusInt u, c0, _ => builtinUnaryMinusIntSig.vecEvalInt u c0
  | .logicAnd, c0, c1 => builtinLogicAndSig.vecEvalInt c0 c1
  | .logicOr, c0, c1 => builtinLogicOrSig.vecEvalInt c0 c1
  | .unaryNotInt, c0, _ => builtinUnaryNotIntSig.vecEvalInt c0
  | .intIsNull, c0, _ => builtinIntIsNullSig.vecEvalInt c0

end TinySql.Expression
