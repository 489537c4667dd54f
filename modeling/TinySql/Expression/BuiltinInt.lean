import TinySql.Lib.GoInt

/-!
# The row-level integer builtins

`evalInt` of the integer builtins that also have a vectorized form: `PlusInt`, `MinusInt`,
`MultiplyInt`, `MultiplyIntUnsigned` (`builtin_arithmetic.go`), and `UnaryMinusInt`, `LogicAnd`,
`LogicOr`, `UnaryNotInt`, `IntIsNull` (`builtin_op.go`).

The arguments are columns of the input chunk, so a row hands each builtin the result of
`Column.EvalInt` on its arguments: the int64 in the row's slot and whether the row is NULL. Go's
`int64` and `uint64` are Lean's `Int64` and `UInt64`, whose arithmetic wraps as Go's does; the
overflow tests of the source are written against those wrapped values, which is what the
vectorized kernels of `BuiltinIntVec.lean` get wrong.
-/

namespace TinySql.Expression

open TinySql.Lib

/-- `types.ErrOverflow` as the integer builtins raise it: the result type's name and the format of
the failing expression (the arguments' `String()` is not modelled, so the format stays unfilled). -/
inductive EvalError
  | overflow (tp : String) (expr : String)
  deriving DecidableEq, Repr

/-- One row of an int64 argument column: its NULL flag and the int64 in its slot. The slot of a
NULL row holds whatever was written there last. -/
structure IntCell where
  null : Bool
  slot : Int64
  deriving DecidableEq, Repr

/-- `Column.EvalInt` on a non-hybrid column: `(0, true)` for a NULL row, else the slot. -/
def IntCell.evalInt (c : IntCell) : Int64 × Bool :=
  if c.null then (0, true) else (c.slot, false)

/-- The shape every binary arithmetic `evalInt` shares: a NULL first or second argument gives
`(0, true)` before the operands are looked at; otherwise `compute` checks and computes. -/
def binaryEvalInt (compute : Int64 → Int64 → Except EvalError Int64) (arg0 arg1 : Int64 × Bool) :
    Except EvalError (Int64 × Bool) :=
  if arg0.2 then .ok (0, true)
  else if arg1.2 then .ok (0, true)
  else (compute arg0.1 arg1.1).map fun v => (v, false)

/-- The checks of `builtinArithmeticPlusIntSig.evalInt` after both operands are non-NULL. -/
def plusIntCompute (isLHSUnsigned isRHSUnsigned : Bool) (a b : Int64) : Except EvalError Int64 :=
  let err := EvalError.overflow "BIGINT UNSIGNED" "(%s + %s)"
  match isLHSUnsigned, isRHSUnsigned with
  | true, true => if a.toUInt64 > maxUint64 - b.toUInt64 then .error err else .ok (a + b)
  | true, false =>
    if b < 0 && (-b).toUInt64 > a.toUInt64 then .error err
    else if b > 0 && a.toUInt64 > maxUint64 - b.toUInt64 then .error err
    else .ok (a + b)
  | false, true =>
    if a < 0 && (-a).toUInt64 > b.toUInt64 then .error err
    else if a > 0 && b.toUInt64 > maxUint64 - a.toUInt64 then .error err
    else .ok (a + b)
  | false, false =>
    if (a > 0 && b > maxInt64 - a) || (a < 0 && b < minInt64 - a) then
      .error (.overflow "BIGINT" "(%s + %s)")
    else .ok (a + b)

/-- `builtinArithmeticPlusIntSig.evalInt`. -/
def builtinArithmeticPlusIntSig.evalInt (isLHSUnsigned isRHSUnsigned : Bool) :
    Int64 × Bool → Int64 × Bool → Except EvalError (Int64 × Bool) :=
  binaryEvalInt (plusIntCompute isLHSUnsigned isRHSUnsigned)

/-- The checks of `builtinArithmeticMinusIntSig.evalInt` after both operands are non-NULL. Under
`NO_UNSIGNED_SUBTRACTION` (`forceToSigned`) an unsigned operand must fit in int64 and the
difference is checked as signed; the signed check carries the `b == MinInt64` clause because
`-MinInt64` wraps to `MinInt64`. -/
def minusIntCompute (forceToSigned lhsUnsignedFlag rhsUnsignedFlag : Bool) (a b : Int64) :
    Except EvalError Int64 :=
  let err := EvalError.overflow "BIGINT UNSIGNED" "(%s - %s)"
  let isLHSUnsigned := !forceToSigned && lhsUnsignedFlag
  let isRHSUnsigned := !forceToSigned && rhsUnsignedFlag
  if forceToSigned && lhsUnsignedFlag && (a < 0 || a > maxInt64) then .error err
  else if forceToSigned && rhsUnsignedFlag && (b < 0 || b > maxInt64) then .error err
  else
    match isLHSUnsigned, isRHSUnsigned with
    | true, true => if a.toUInt64 < b.toUInt64 then .error err else .ok (a - b)
    | true, false =>
      if b ≥ 0 && a.toUInt64 < b.toUInt64 then .error err
      else if b < 0 && a.toUInt64 > maxUint64 - (-b).toUInt64 then .error err
      else .ok (a - b)
    | false, true => if a < 0 || a.toUInt64 < b.toUInt64 then .error err else .ok (a - b)
    | false, false =>
      if (a ≥ 0 && b == minInt64) || (a > 0 && -b > maxInt64 - a) || (a < 0 && -b < minInt64 - a)
      then .error (.overflow "BIGINT" "(%s - %s)")
      else .ok (a - b)

/-- `builtinArithmeticMinusIntSig.evalInt`; `forceToSigned` is the session's
`NO_UNSIGNED_SUBTRACTION` mode. -/
def builtinArithmeticMinusIntSig.evalInt (forceToSigned lhsUnsignedFlag rhsUnsignedFlag : Bool) :
    Int64 × Bool → Int64 × Bool → Except EvalError (Int64 × Bool) :=
  binaryEvalInt (minusIntCompute forceToSigned lhsUnsignedFlag rhsUnsignedFlag)

/-- The check of `builtinArithmeticMultiplyIntSig.evalInt`: the product wraps, and dividing it back
by a non-zero `a` detects the wrap. -/
def multiplyIntCompute (a b : Int64) : Except EvalError Int64 :=
  let result := a * b
  if a != 0 && result / a != b then .error (.overflow "BIGINT" "(%s * %s)") else .ok result

/-- `builtinArithmeticMultiplyIntSig.evalInt`. -/
def builtinArithmeticMultiplyIntSig.evalInt :
    Int64 × Bool → Int64 × Bool → Except EvalError (Int64 × Bool) :=
  binaryEvalInt multiplyIntCompute

/-- The check of `builtinArithmeticMultiplyIntUnsignedSig.evalInt`, on the operands read as
`uint64`. -/
def multiplyIntUnsignedCompute (a b : Int64) : Except EvalError Int64 :=
  let unsignedA := a.toUInt64
  let unsignedB := b.toUInt64
  let result := unsignedA * unsignedB
  if unsignedA != 0 && result / unsignedA != unsignedB then
    .error (.overflow "BIGINT UNSIGNED" "(%s * %s)")
  else .ok result.toInt64

/-- `builtinArithmeticMultiplyIntUnsignedSig.evalInt`. -/
def builtinArithmeticMultiplyIntUnsignedSig.evalInt :
    Int64 × Bool → Int64 × Bool → Except EvalError (Int64 × Bool) :=
  binaryEvalInt multiplyIntUnsignedCompute

/-- `builtinUnaryMinusIntSig.evalInt`. A NULL argument is returned as it is; an unsigned `2^63`
negates to `MinInt64` and anything above it overflows. -/
def builtinUnaryMinusIntSig.evalInt (argUnsigned : Bool) (arg : Int64 × Bool) :
    Except EvalError (Int64 × Bool) :=
  let val := arg.1
  if arg.2 then .ok (val, true)
  else if argUnsigned then
    let uval := val.toUInt64
    if uval > (9223372036854775808 : UInt64) then
      .error (.overflow "BIGINT" ("-" ++ toString uval))
    else if uval == (9223372036854775808 : UInt64) then .ok (minInt64, false)
    else .ok (-val, false)
  else if val == minInt64 then .error (.overflow "BIGINT" ("-" ++ toString val))
  else .ok (-val, false)

/-- `builtinLogicAndSig.evalInt`: a non-NULL zero first argument decides without the second. -/
def builtinLogicAndSig.evalInt (arg0 arg1 : Int64 × Bool) : Except EvalError (Int64 × Bool) :=
  if !arg0.2 && arg0.1 == 0 then .ok (0, false)
  else if !arg1.2 && arg1.1 == 0 then .ok (0, false)
  else if arg0.2 || arg1.2 then .ok (0, true)
  else .ok (1, false)

/-- `builtinLogicOrSig.evalInt`: a non-NULL non-zero first argument decides without the second. -/
def builtinLogicOrSig.evalInt (arg0 arg1 : Int64 × Bool) : Except EvalError (Int64 × Bool) :=
  if !arg0.2 && arg0.1 != 0 then .ok (1, false)
  else if !arg1.2 && arg1.1 != 0 then .ok (1, false)
  else if arg0.2 || arg1.2 then .ok (0, true)
  else .ok (0, false)

/-- `builtinUnaryNotIntSig.evalInt`. -/
def builtinUnaryNotIntSig.evalInt (arg : Int64 × Bool) : Except EvalError (Int64 × Bool) :=
  if arg.2 then .ok (0, true)
  else if arg.1 == 0 then .ok (1, false)
  else .ok (0, false)

/-- `builtinIntIsNullSig.evalInt`, through `evalIsNull`. -/
def builtinIntIsNullSig.evalInt (arg : Int64 × Bool) : Except EvalError (Int64 × Bool) :=
  if arg.2 then .ok (1, false) else .ok (0, false)

/-- The integer builtins with a vectorized form, with what each reads of its arguments' types and
of the session: the unsigned flags and, for `MinusInt`, `NO_UNSIGNED_SUBTRACTION`. -/
inductive IntSig
  | plusInt (isLHSUnsigned isRHSUnsigned : Bool)
  | minusInt (forceToSigned lhsUnsignedFlag rhsUnsignedFlag : Bool)
  | multiplyInt
  | multiplyIntUnsigned
  | unaryMinusInt (argUnsigned : Bool)
  | logicAnd
  | logicOr
  | unaryNotInt
  | intIsNull
  deriving DecidableEq, Repr

/-- The row-level `evalInt` of a builtin on one row of its argument columns; a unary builtin reads
the first. -/
def IntSig.evalInt : IntSig → IntCell → IntCell → Except EvalError (Int64 × Bool)
  | .plusInt l r, c0, c1 => builtinArithmeticPlusIntSig.evalInt l r c0.evalInt c1.evalInt
  | .minusInt f l r, c0, c1 => builtinArithmeticMinusIntSig.evalInt f l r c0.evalInt c1.evalInt
  | .multiplyInt, c0, c1 => builtinArithmeticMultiplyIntSig.evalInt c0.evalInt c1.evalInt
  | .multiplyIntUnsigned, c0, c1 =>
    builtinArithmeticMultiplyIntUnsignedSig.evalInt c0.evalInt c1.evalInt
  | .unaryMinusInt u, c0, _ => builtinUnaryMinusIntSig.evalInt u c0.evalInt
  | .logicAnd, c0, c1 => builtinLogicAndSig.evalInt c0.evalInt c1.evalInt
  | .logicOr, c0, c1 => builtinLogicOrSig.evalInt c0.evalInt c1.evalInt
  | .unaryNotInt, c0, _ => builtinUnaryNotIntSig.evalInt c0.evalInt
  | .intIsNull, c0, _ => builtinIntIsNullSig.evalInt c0.evalInt

end TinySql.Expression
