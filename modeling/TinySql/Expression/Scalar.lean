import TinySql.Expression.Filter
import TinySql.Types.Datum

set_option linter.dupNamespace false

/-!
# Scalar expressions and `NewFunction`

An `Expression` is a column, a constant or a scalar function (`column.go`, `constant.go`,
`scalar_function.go`). A scalar function holds the signature its function class's `getFunction`
chose from the arguments' types, and evaluates with that signature's `evalInt`, `evalReal` or
`evalString`; asked for another type it fails, as `baseBuiltinFunc` does. No builtin inserts a cast:
an argument of another type is read by the signature's own `EvalInt`, `EvalReal` or `EvalString`,
so an integer read as a real is the double with the integer's bits, and a string signature reading
a fixed-size column fails where Go indexes the column's missing offsets.

The builtins are those the planner's rewrites build: the comparisons, `+`, `-`, `*`, `AND`, `OR`,
`NOT`, `IS NULL`, `IFNULL`, `IF` and `IN`. Columns are fixed-size, and the types met are the
integers, `TypeDouble`, `TypeNull` (a NULL constant put for a column) and the binary
`TypeString` that `InferType4ControlFuncs` gives two NULL branches. `StrToFloat` and the text of a
double are left out (`ExprError.strToFloat`, `ExprError.formatFloat`), and `verifyArgs` is not: a
function is always built here with its arity.

`NewFunction` is `getFunction` followed by `FoldConstant`. A function of constants is replaced by
the constant it evaluates to; under `InNullRejectCheck` a function with a NULL constant argument is
evaluated with its other arguments replaced by `1`, and replaced by the result when that is NULL or
false.
-/

namespace TinySql.Expression

open TinySql.Lib

/-- `mysql.Type*` of the types expressions take here. -/
inductive FieldTp
  | null
  | tiny
  | longlong
  | double
  | string
  deriving DecidableEq, Repr, Inhabited

/-- What the builtins read of a `types.FieldType`: the type and the flag bits. -/
structure FieldType where
  tp : FieldTp
  flag : Nat
  deriving DecidableEq, Repr, Inhabited

/-- `FieldType.EvalType`: `TypeNull` falls to the default, `ETString`. -/
def FieldType.evalType (ft : FieldType) : EvalType :=
  match ft.tp with
  | .tiny | .longlong => .int
  | .double => .real
  | .null | .string => .string

/-- `types.IsBinaryStr`: `TypeString` is the only string type here, and it has the binary
collation. -/
def FieldType.isBinaryStr (ft : FieldType) : Bool :=
  ft.tp == .string

def newFieldType (tp : FieldTp) : FieldType :=
  ⟨tp, 0⟩

/-- The return type `newBaseBuiltinFuncWithTp` gives an integer builtin. -/
def intRetType : FieldType :=
  ⟨.longlong, Types.binaryFlag⟩

/-- The return type `newBaseBuiltinFuncWithTp` gives a real builtin. -/
def realRetType : FieldType :=
  ⟨.double, Types.binaryFlag⟩

def EvalType.isStringKind (et : EvalType) : Bool :=
  et == .string

def setTypeFlag (flag flagItem : Nat) (on : Bool) : Nat :=
  if on then flag ||| flagItem else flag - (flag &&& flagItem)

def FieldTp.rank : FieldTp → Nat
  | .null => 0
  | .tiny => 1
  | .longlong => 2
  | .double => 3
  | .string => 4

/-- `MergeFieldType` on the types here: `fieldTypeMergeRules` orders them
`TypeNull < TypeTiny < TypeLonglong < TypeDouble < TypeString` and takes the later. -/
def mergeFieldType (a b : FieldTp) : FieldTp :=
  if a.rank < b.rank then b else a

def mergeEvalType (lhs rhs : EvalType) : EvalType :=
  if lhs.isStringKind || rhs.isStringKind then .string
  else if lhs == .real || rhs == .real then .real
  else .int

/-- `InferType4ControlFuncs`. Two non-NULL types merge with the first one's flags, the unsigned
flag kept only when both are unsigned; every string here is binary, so the result is binary. -/
def inferType4ControlFuncs (lhs rhs : FieldType) : FieldType :=
  if lhs.tp = .null then
    if rhs.tp = .null then ⟨.string, rhs.flag ||| Types.binaryFlag⟩ else rhs
  else if rhs.tp = .null then lhs
  else
    let unsigned := Types.hasUnsignedFlag lhs.flag && Types.hasUnsignedFlag rhs.flag
    ⟨mergeFieldType lhs.tp rhs.tp,
      setTypeFlag lhs.flag Types.unsignedFlag unsigned ||| Types.binaryFlag⟩

/-- A row of fixed-size columns. -/
abbrev Row := List IntCell

structure Column where
  uniqueID : Nat
  index : Nat
  retType : FieldType
  deriving DecidableEq, Repr, Inhabited

structure Constant where
  value : Option Datum
  retType : FieldType

/-- The `ast` names of the modelled functions. -/
inductive FuncName
  | lt
  | le
  | gt
  | ge
  | eq
  | ne
  | plus
  | minus
  | mul
  | logicAnd
  | logicOr
  | unaryNot
  | isNull
  | ifnull
  | «if»
  | «in»
  deriving DecidableEq, Repr

/-- `opcode.Op` of a comparison. -/
inductive CmpOp
  | lt
  | le
  | gt
  | ge
  | eq
  | ne
  deriving DecidableEq, Repr

/-- The builtin signatures `getFunction` picks: `builtinLTIntSig`, `builtinArithmeticPlusRealSig`,
`builtinIfNullStringSig` and so on, by what they are named after. -/
inductive Sig
  | compare (op : CmpOp) (cmpType : EvalType)
  | plusInt
  | plusReal
  | minusInt
  | minusReal
  | multiplyInt
  | multiplyIntUnsigned
  | multiplyReal
  | logicAnd
  | logicOr
  | unaryNot (argTp : EvalType)
  | isNull (argTp : EvalType)
  | ifNull (evalTp : EvalType)
  | «if» (evalTp : EvalType)
  | «in» (argTp : EvalType)
  deriving DecidableEq, Repr

inductive Expression
  | column (col : Column)
  | constant (con : Constant)
  | scalarFunction (funcName : FuncName) (retType : FieldType) (sig : Sig) (args : List Expression)

def Expression.getType : Expression → FieldType
  | .column col => col.retType
  | .constant con => con.retType
  | .scalarFunction _ retType _ _ => retType

/-- What evaluation fails with: a builtin's overflow, a signature asked for a type it does not
evaluate, Go's index out of range, and the two conversions the model leaves out. -/
inductive ExprError
  | eval (err : EvalError)
  | shouldNeverBeCalled (evalType : EvalType)
  | indexOutOfRange
  | strToFloat
  | formatFloat
  deriving DecidableEq, Repr

/-- What the modelled code reads of `GetSessionVars()`: the SQL mode's `NO_UNSIGNED_SUBTRACTION`
and the statement context's `InNullRejectCheck`. -/
structure SessionVars where
  noUnsignedSubtraction : Bool
  inNullRejectCheck : Bool
  deriving DecidableEq, Repr

/-- The session's defaults: `NO_UNSIGNED_SUBTRACTION` off, and no null-reject check running. -/
def defaultVars : SessionVars :=
  ⟨false, false⟩

/-- An argument as a signature reads it: its `EvalInt`, `EvalReal` or `EvalString` on the row. -/
abbrev ArgEval := (et : EvalType) → Except ExprError (et.Slot × Bool)

/-- `StrToInt` of the statement, with its error as an evaluation error. -/
def strToIntErr (s : List (Fin 256)) : Int64 × Option ExprError :=
  ((strToInt s).1, (strToInt s).2.map .eval)

/-- `strconv.FormatInt`: the decimal digits, with a minus sign below zero. -/
def formatInt (i : Int) : List (Fin 256) :=
  (toString i).toList.map fun c => Fin.ofNat 256 c.toNat

section Leaves

def Column.evalInt (col : Column) (row : Row) : Except ExprError (Int64 × Bool) :=
  match row[col.index]? with
  | none => .error .indexOutOfRange
  | some c => .ok c.evalInt

/-- `GetFloat64` reads the slot's bits as a double. -/
def Column.evalReal (col : Column) (row : Row) : Except ExprError (Float × Bool) :=
  match row[col.index]? with
  | none => .error .indexOutOfRange
  | some c => .ok (if c.null then (0, true) else (Float.ofBits c.slot.toUInt64, false))

/-- A fixed-size column has no offsets for `GetString` to read. -/
def Column.evalString (col : Column) (row : Row) : Except ExprError (List (Fin 256) × Bool) :=
  match row[col.index]? with
  | none => .error .indexOutOfRange
  | some c => if c.null then .ok ([], true) else .error .indexOutOfRange

/-- `GetInt64` reads the datum's 64 bits whatever their kind; a string goes through `ToInt64`. -/
def Constant.evalInt (con : Constant) : Except ExprError (Int64 × Bool) :=
  if con.retType.tp = .null then .ok (0, true)
  else
    match con.value with
    | none => .ok (0, true)
    | some (.bytes s) =>
      match strToIntErr s with
      | (res, none) => .ok (res, false)
      | (_, some err) => .error err
    | some (.int64 v) => .ok (v, false)
    | some (.uint64 v) => .ok (v.toInt64, false)
    | some (.float64 f) => .ok (f.toBits.toInt64, false)

def Constant.evalReal (con : Constant) : Except ExprError (Float × Bool) :=
  if con.retType.tp = .null then .ok (0, true)
  else
    match con.value with
    | none => .ok (0, true)
    | some (.bytes _) => .error .strToFloat
    | some (.int64 v) => .ok (Float.ofBits v.toUInt64, false)
    | some (.uint64 v) => .ok (Float.ofBits v, false)
    | some (.float64 f) => .ok (f, false)

def Constant.evalString (con : Constant) : Except ExprError (List (Fin 256) × Bool) :=
  if con.retType.tp = .null then .ok ([], true)
  else
    match con.value with
    | none => .ok ([], true)
    | some (.bytes s) => .ok (s, false)
    | some (.int64 v) => .ok (formatInt v.toInt, false)
    | some (.uint64 v) => .ok (formatInt v.toNat, false)
    | some (.float64 _) => .error .formatFloat

end Leaves

section Builtins

def compareNull (lhsIsNull rhsIsNull : Bool) : Int64 :=
  if lhsIsNull && rhsIsNull then 0 else if lhsIsNull then -1 else 1

/-- `types.CompareInt64` and its siblings: `-1`, `0` or `1`. -/
def ofOrdering : Ordering → Int64
  | .lt => -1
  | .eq => 0
  | .gt => 1

/-- `CompareInt`: an unsigned operand above `MaxInt64`, or a negative signed one, decides the
order before the two are compared as numbers of one kind. -/
def compareInt (lhsType rhsType : FieldType) (lhs rhs : ArgEval) :
    Except ExprError (Int64 × Bool) := do
  let (arg0, isNull0) ← lhs .int
  let (arg1, isNull1) ← rhs .int
  if isNull0 || isNull1 then return (compareNull isNull0 isNull1, true)
  let res : Int64 :=
    match Types.hasUnsignedFlag lhsType.flag, Types.hasUnsignedFlag rhsType.flag with
    | true, true => ofOrdering (compare arg0.toUInt64 arg1.toUInt64)
    | true, false =>
      if arg1 < 0 || arg0.toUInt64 > Types.maxInt64AsUint then 1
      else ofOrdering (compare arg0 arg1)
    | false, true =>
      if arg0 < 0 || arg1.toUInt64 > Types.maxInt64AsUint then -1
      else ofOrdering (compare arg0 arg1)
    | false, false => ofOrdering (compare arg0 arg1)
  return (res, false)

/-- `types.CompareFloat64`: a NaN compares above everything. -/
def compareFloat64 (x y : Float) : Int64 :=
  if x < y then -1 else if x == y then 0 else 1

def compareReal (lhs rhs : ArgEval) : Except ExprError (Int64 × Bool) := do
  let (arg0, isNull0) ← lhs .real
  let (arg1, isNull1) ← rhs .real
  if isNull0 || isNull1 then return (compareNull isNull0 isNull1, true)
  return (compareFloat64 arg0 arg1, false)

def compareString (lhs rhs : ArgEval) : Except ExprError (Int64 × Bool) := do
  let (arg0, isNull0) ← lhs .string
  let (arg1, isNull1) ← rhs .string
  if isNull0 || isNull1 then return (compareNull isNull0 isNull1, true)
  return (if arg0 < arg1 then -1 else if arg0 = arg1 then 0 else 1, false)

def CmpOp.holds : CmpOp → Int64 → Bool
  | .lt, val => val < 0
  | .le, val => val ≤ 0
  | .gt, val => val > 0
  | .ge, val => val ≥ 0
  | .eq, val => val == 0
  | .ne, val => val != 0

/-- `resOfLT` … `resOfNE`: the truth of the comparison, NULL staying NULL. -/
def resOf (op : CmpOp) : Int64 × Bool → Int64 × Bool
  | (val, isNull) => if isNull then (0, true) else (if op.holds val then 1 else 0, false)

/-- The integer arithmetic signatures: a NULL first operand is NULL before the second is read. -/
def intArith (lhs rhs : ArgEval)
    (evalInt : Int64 × Bool → Int64 × Bool → Except EvalError (Int64 × Bool)) :
    Except ExprError (Int64 × Bool) := do
  let a ← lhs .int
  if a.2 then return (0, true)
  let b ← rhs .int
  (evalInt a b).mapError .eval

def maxFloat64 : Float :=
  Float.ofBits 0x7FEFFFFFFFFFFFFF

/-- The real arithmetic signatures: NULL operands first, then `compute`'s overflow check. -/
def realArith (lhs rhs : ArgEval) (compute : Float → Float → Except ExprError Float) :
    Except ExprError (Float × Bool) := do
  let (a, isNull0) ← lhs .real
  if isNull0 then return (0, true)
  let (b, isNull1) ← rhs .real
  if isNull1 then return (0, true)
  return (← compute a b, false)

def plusRealCompute (a b : Float) : Except ExprError Float :=
  if (a > 0 && b > maxFloat64 - a) || (a < 0 && b < -maxFloat64 - a) then
    .error (.eval (.overflow "DOUBLE" "(%s + %s)"))
  else .ok (a + b)

def minusRealCompute (a b : Float) : Except ExprError Float :=
  if (a > 0 && -b > maxFloat64 - a) || (a < 0 && -b < -maxFloat64 - a) then
    .error (.eval (.overflow "DOUBLE" "(%s - %s)"))
  else .ok (a - b)

def multiplyRealCompute (a b : Float) : Except ExprError Float :=
  if (a * b).isInf then .error (.eval (.overflow "DOUBLE" "(%s * %s)")) else .ok (a * b)

/-- `builtinIfNull*Sig`: the first argument unless it is NULL. -/
def ifNullEval (et : EvalType) (arg0 arg1 : ArgEval) : Except ExprError (et.Slot × Bool) := do
  let r0 ← arg0 et
  if !r0.2 then return r0
  arg1 et

/-- `builtinIf*Sig`. The second argument is evaluated whatever the condition, and its error
returned. -/
def ifEval (et : EvalType) (cond arg1 arg2 : ArgEval) : Except ExprError (et.Slot × Bool) := do
  let (arg0, isNull0) ← cond .int
  let r1 ← arg1 et
  if !isNull0 && arg0 != 0 then return r1
  arg2 et

/-- The loop of `builtinInIntSig` over the list, comparing by both operands' signedness. -/
def inIntLoop (arg0 : Int64) (isUnsigned0 : Bool) :
    List (FieldType × ArgEval) → Bool → Except ExprError (Int64 × Bool)
  | [], hasNull => .ok (0, hasNull)
  | (argType, arg) :: rest, hasNull => do
    let (evaledArg, isNull) ← arg .int
    if isNull then inIntLoop arg0 isUnsigned0 rest true
    else
      let hit : Bool :=
        match isUnsigned0, Types.hasUnsignedFlag argType.flag with
        | false, true => arg0 ≥ 0 && evaledArg == arg0
        | true, false => evaledArg ≥ 0 && evaledArg == arg0
        | _, _ => evaledArg == arg0
      if hit then .ok (1, false) else inIntLoop arg0 isUnsigned0 rest hasNull

/-- The loop of `builtinInRealSig` and `builtinInStringSig`. -/
def inLoop (et : EvalType) [BEq et.Slot] (arg0 : et.Slot) :
    List ArgEval → Bool → Except ExprError (Int64 × Bool)
  | [], hasNull => .ok (0, hasNull)
  | arg :: rest, hasNull => do
    let (evaledArg, isNull) ← arg et
    if isNull then inLoop et arg0 rest true
    else if arg0 == evaledArg then .ok (1, false)
    else inLoop et arg0 rest hasNull

/-- `evalInt` of the signatures, on the arguments' types and evaluations. -/
def Sig.evalInt (vars : SessionVars) :
    Sig → List FieldType → List ArgEval → Except ExprError (Int64 × Bool)
  | .compare op .int, [l, r], [a, b] => (compareInt l r a b).map (resOf op)
  | .compare op .real, _, [a, b] => (compareReal a b).map (resOf op)
  | .compare op .string, _, [a, b] => (compareString a b).map (resOf op)
  | .plusInt, [l, r], [a, b] =>
    intArith a b (builtinArithmeticPlusIntSig.evalInt (Types.hasUnsignedFlag l.flag)
      (Types.hasUnsignedFlag r.flag))
  | .minusInt, [l, r], [a, b] =>
    intArith a b (builtinArithmeticMinusIntSig.evalInt vars.noUnsignedSubtraction
      (Types.hasUnsignedFlag l.flag) (Types.hasUnsignedFlag r.flag))
  | .multiplyInt, _, [a, b] => intArith a b builtinArithmeticMultiplyIntSig.evalInt
  | .multiplyIntUnsigned, _, [a, b] => intArith a b builtinArithmeticMultiplyIntUnsignedSig.evalInt
  | .logicAnd, _, [a, b] => do
    let arg0 ← a .int
    if !arg0.2 && arg0.1 == 0 then return (0, false)
    let arg1 ← b .int
    (builtinLogicAndSig.evalInt arg0 arg1).mapError .eval
  | .logicOr, _, [a, b] => do
    let arg0 ← a .int
    if !arg0.2 && arg0.1 != 0 then return (1, false)
    let arg1 ← b .int
    (builtinLogicOrSig.evalInt arg0 arg1).mapError .eval
  | .unaryNot .int, _, [a] => do
    (builtinUnaryNotIntSig.evalInt (← a .int)).mapError .eval
  | .unaryNot .real, _, [a] => do
    let (arg, argIsNull) ← a .real
    if argIsNull then return (0, true)
    return (if arg == 0 then 1 else 0, false)
  | .isNull argTp, _, [a] => do
    let (_, argIsNull) ← a argTp
    return (if argIsNull then 1 else 0, false)
  | .ifNull .int, _, [a, b] => ifNullEval .int a b
  | .«if» .int, _, [c, a1, a2] => ifEval .int c a1 a2
  | .«in» .int, t0 :: ts, a0 :: as => do
    let (arg0, isNull0) ← a0 .int
    if isNull0 then return (0, true)
    inIntLoop arg0 (Types.hasUnsignedFlag t0.flag) (ts.zip as) false
  | .«in» .real, _, a0 :: as => do
    let (arg0, isNull0) ← a0 .real
    if isNull0 then return (0, true)
    inLoop .real arg0 as false
  | .«in» .string, _, a0 :: as => do
    let (arg0, isNull0) ← a0 .string
    if isNull0 then return (0, true)
    inLoop .string arg0 as false
  | _, _, _ => .error (.shouldNeverBeCalled .int)

def Sig.evalReal : Sig → List ArgEval → Except ExprError (Float × Bool)
  | .plusReal, [a, b] => realArith a b plusRealCompute
  | .minusReal, [a, b] => realArith a b minusRealCompute
  | .multiplyReal, [a, b] => realArith a b multiplyRealCompute
  | .ifNull .real, [a, b] => ifNullEval .real a b
  | .«if» .real, [c, a1, a2] => ifEval .real c a1 a2
  | _, _ => .error (.shouldNeverBeCalled .real)

def Sig.evalString : Sig → List ArgEval → Except ExprError (List (Fin 256) × Bool)
  | .ifNull .string, [a, b] => ifNullEval .string a b
  | .«if» .string, [c, a1, a2] => ifEval .string c a1 a2
  | _, _ => .error (.shouldNeverBeCalled .string)

end Builtins

section Evaluation

variable (vars : SessionVars) (row : Row)

mutual

/-- `EvalInt`, `EvalReal` and `EvalString`, by the type asked for. -/
def Expression.eval : (et : EvalType) → Expression → Except ExprError (et.Slot × Bool)
  | .int, .column col => col.evalInt row
  | .real, .column col => col.evalReal row
  | .string, .column col => col.evalString row
  | .int, .constant con => con.evalInt
  | .real, .constant con => con.evalReal
  | .string, .constant con => con.evalString
  | .int, .scalarFunction _ _ sig args =>
    sig.evalInt vars (args.map Expression.getType) (Expression.evalArgs args)
  | .real, .scalarFunction _ _ sig args => sig.evalReal (Expression.evalArgs args)
  | .string, .scalarFunction _ _ sig args => sig.evalString (Expression.evalArgs args)

def Expression.evalArgs : List Expression → List ArgEval
  | [] => []
  | arg :: args => (fun et => arg.eval et) :: Expression.evalArgs args

end

/-- `Eval`: a constant's datum as it is, otherwise the evaluation at the expression's own type
made a datum, `uint64` for an unsigned integer. -/
def Expression.evalDatum (expr : Expression) : Except ExprError (Option Datum) :=
  match expr with
  | .constant con => .ok con.value
  | _ =>
    (expr.eval vars row expr.getType.evalType).map fun res =>
      if res.2 then none
      else some (expr.getType.evalType.toDatum (Types.hasUnsignedFlag expr.getType.flag) res.1)

end Evaluation

/-- The filter's view of an expression. A constant is seen through its datum's kind, since
`Constant.Eval` returns the datum as it is. -/
def Expression.toExpr (vars : SessionVars) : Expression → Expr Row ExprError
  | .constant ⟨some (.int64 v), _⟩ => ⟨.int, false, fun _ => .ok (some v)⟩
  | .constant ⟨some (.uint64 v), _⟩ => ⟨.int, true, fun _ => .ok (some v.toInt64)⟩
  | .constant ⟨some (.float64 f), _⟩ => ⟨.real, false, fun _ => .ok (some f)⟩
  | .constant ⟨some (.bytes s), _⟩ => ⟨.string, false, fun _ => .ok (some s)⟩
  | .constant ⟨none, retType⟩ => ⟨retType.evalType, false, fun _ => .ok none⟩
  | expr =>
    ⟨expr.getType.evalType, Types.hasUnsignedFlag expr.getType.flag, fun row =>
      (expr.eval vars row expr.getType.evalType).map fun res => if res.2 then none else some res.1⟩

/-- `CNFExprs`: a list of conditions read as their conjunction. -/
abbrev CNFExprs := List Expression

/-- `EvalBool`. -/
def CNFExprs.evalBool (vars : SessionVars) (exprList : CNFExprs) (row : Row) :
    Except ExprError (Bool × Bool) :=
  TinySql.Expression.evalBool strToIntErr (exprList.map (Expression.toExpr vars)) row

section NewFunction

variable (vars : SessionVars)

def numericContextResultType (ft : FieldType) : EvalType :=
  if ft.isBinaryStr then .int else if ft.evalType = .int then .int else .real

def getBaseCmpType (lhs rhs : EvalType) : EvalType :=
  if lhs.isStringKind && rhs.isStringKind then .string
  else if lhs = .int && rhs = .int then .int
  else .real

def unsignedRetType (unsigned : Bool) : FieldType :=
  ⟨.longlong, setTypeFlag Types.binaryFlag Types.unsignedFlag unsigned⟩

def compareSig (op : CmpOp) (lhs rhs : FieldType) : Sig × FieldType :=
  (.compare op (getBaseCmpType lhs.evalType rhs.evalType), intRetType)

/-- `getFunction` of each function class: the signature and its return type, from the arguments'
types. -/
def getFunction (funcName : FuncName) (argTypes : List FieldType) : Sig × FieldType :=
  let l := argTypes.getD 0 default
  let r := argTypes.getD 1 default
  let real := numericContextResultType l = .real || numericContextResultType r = .real
  let anyUnsigned := Types.hasUnsignedFlag l.flag || Types.hasUnsignedFlag r.flag
  match funcName with
  | .lt => compareSig .lt l r
  | .le => compareSig .le l r
  | .gt => compareSig .gt l r
  | .ge => compareSig .ge l r
  | .eq => compareSig .eq l r
  | .ne => compareSig .ne l r
  | .plus => if real then (.plusReal, realRetType) else (.plusInt, unsignedRetType anyUnsigned)
  | .minus =>
    if real then (.minusReal, realRetType)
    else (.minusInt, unsignedRetType (anyUnsigned && !vars.noUnsignedSubtraction))
  | .mul =>
    if real then (.multiplyReal, realRetType)
    else if anyUnsigned then (.multiplyIntUnsigned, unsignedRetType true)
    else (.multiplyInt, intRetType)
  | .logicAnd => (.logicAnd, intRetType)
  | .logicOr => (.logicOr, intRetType)
  | .unaryNot => (.unaryNot (if l.evalType = .string then .real else l.evalType), intRetType)
  | .isNull => (.isNull l.evalType, intRetType)
  | .ifnull =>
    let retTp := inferType4ControlFuncs l r
    let flag := retTp.flag ||| (l.flag &&& Types.notNullFlag) ||| (r.flag &&& Types.notNullFlag)
    let retTp : FieldType :=
      if l.tp = .null ∧ r.tp = .null then ⟨.null, flag ||| Types.binaryFlag⟩ else ⟨retTp.tp, flag⟩
    (.ifNull retTp.evalType, retTp)
  | .«if» =>
    let retTp := inferType4ControlFuncs r (argTypes.getD 2 default)
    -- `newBaseBuiltinFuncWithTp` flags an integer or real result binary
    let flag := if retTp.evalType = .string then retTp.flag else retTp.flag ||| Types.binaryFlag
    (.«if» retTp.evalType, ⟨retTp.tp, flag⟩)
  | .«in» => (.«in» l.evalType, intRetType)

/-- `NewFunctionBase`: the function with the signature `getFunction` picks, typed by that
signature (a builtin's return type is never `TypeUnspecified`, so the one passed in is dropped). -/
def newFunctionBase (funcName : FuncName) (args : List Expression) : Expression :=
  let (sig, retType) := getFunction vars funcName (args.map Expression.getType)
  .scalarFunction funcName retType sig args

/-- An integer literal: a `BIGINT` constant. -/
def intLiteral (v : Int64) : Expression :=
  .constant ⟨some (.int64 v), ⟨.longlong, Types.binaryFlag⟩⟩

/-- `One`. -/
def one : Constant :=
  ⟨some (.int64 1), newFieldType .tiny⟩

def Expression.isConstant : Expression → Bool
  | .constant _ => true
  | _ => false

def Expression.isNullConstant : Expression → Bool
  | .constant ⟨none, _⟩ => true
  | _ => false

/-- `foldConstant`. -/
def foldConstant (expr : Expression) : Expression :=
  match expr with
  | .scalarFunction funcName retType _ args =>
    if !args.all Expression.isConstant then
      if !args.any Expression.isNullConstant || !vars.inNullRejectCheck then expr
      else
        let constArgs := args.map fun arg => if arg.isConstant then arg else .constant one
        match (newFunctionBase vars funcName constArgs).evalDatum vars [] with
        | .error _ => expr
        | .ok none => .constant ⟨none, retType⟩
        | .ok (some value) =>
          match value.toBool strToIntErr with
          | (truth, none) => if truth == 0 then .constant ⟨some value, retType⟩ else expr
          | (_, some _) => expr
    else
      match expr.evalDatum vars [] with
      | .error _ => expr
      | .ok value => .constant ⟨value, retType⟩
  | _ => expr

/-- `NewFunction` and `NewFunctionInternal`: `getFunction`, then constant folding. -/
def newFunction (funcName : FuncName) (args : List Expression) : Expression :=
  foldConstant vars (newFunctionBase vars funcName args)

end NewFunction

end TinySql.Expression
