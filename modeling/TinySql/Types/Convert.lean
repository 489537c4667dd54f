import TinySql.Expression.Filter

/-!
# Strings to numbers

`types/convert.go`: `StrToFloat`, and `StrToInt` and `StrToUint` outside `CastStrToIntStrict`.
All three cut the string, after `strings.TrimSpace`, to the prefix `getValidFloatPrefix` accepts
and hand it to `strconv`. For the integers the prefix is first rewritten into an integer string by
`floatStrToIntStr`, which rounds on the digit after the point and moves the point by the exponent
on the digits themselves, so that no precision is lost.

`getValidFloatPrefix` scans the string once. A sign is allowed at the first byte and right after an
`e`; the scan recognises "after an `e`" as `i = eIdx + 1`, with `eIdx` starting at `0`, so a sign at
the second byte is let through before any exponent is seen. The prefix of `"1-2"` is then the whole
string, which is no number: `ParseFloat` rejects it, and `StrToInt` reports an overflow where the
value `1` was due.

`strconv.ParseFloat` is modelled by the decimal syntax it accepts (`isDecimalFloat`); the double it
rounds to, and its range error, are left out. Warnings appended to the statement context are not
kept.
-/

namespace TinySql.Types

open TinySql.Lib

/-- The fields of `stmtctx.StatementContext` the conversions read. The ranger's two are
`StatementContext`. -/
structure ConvContext where
  inSelectOrDeleteStmt : Bool
  ignoreTruncate : Bool
  truncateAsWarning : Bool
  castStrToIntStrict : Bool
  deriving DecidableEq, Repr

/-- `strconv.ErrSyntax` and `strconv.ErrRange`. -/
inductive NumError
  | errSyntax
  | errRange
  deriving DecidableEq, Repr

/-- The errors of the conversions. -/
inductive StrConvError
  | truncatedWrongVal (tp : String)
  | overflow (tp : String) (str : List (Fin 256))
  | num (err : NumError)
  deriving DecidableEq, Repr

/-- `handleTruncateError`: the error, unless the context ignores it or makes it a warning. -/
def handleTruncateError (sc : ConvContext) (err : StrConvError) : Option StrConvError :=
  if sc.ignoreTruncate || sc.truncateAsWarning then none else some err

def isDigit (c : Fin 256) : Bool :=
  48 ≤ c && c ≤ 57

def isSign (c : Fin 256) : Bool :=
  c = 43 || c = 45

/-- The variables of the loop of `getValidFloatPrefix`. -/
structure FloatScan where
  sawDot : Bool
  sawDigit : Bool
  validLen : Nat
  eIdx : Nat

/-- The loop of `getValidFloatPrefix` from byte `i` on; a `break` returns `validLen`. -/
def floatScan : List (Fin 256) → Nat → FloatScan → Nat
  | [], _, st => st.validLen
  | c :: s, i, st =>
    if isSign c then
      if i ≠ 0 && i ≠ st.eIdx + 1 then st.validLen else floatScan s (i + 1) st
    else if c = 46 then
      if st.sawDot || st.eIdx > 0 then st.validLen
      else
        floatScan s (i + 1) { st with sawDot := true, validLen := if st.sawDigit then i + 1 else st.validLen }
    else if c = 101 || c = 69 then
      if !st.sawDigit then st.validLen
      else if st.eIdx ≠ 0 then st.validLen
      else floatScan s (i + 1) { st with eIdx := i }
    else if !isDigit c then st.validLen
    else floatScan s (i + 1) { st with sawDigit := true, validLen := i + 1 }

/-- `getValidFloatPrefix`: the prefix and the truncation error when it is not the whole string. -/
def getValidFloatPrefix (sc : ConvContext) (s : List (Fin 256)) :
    List (Fin 256) × Option StrConvError :=
  if sc.inSelectOrDeleteStmt && s = [] then ([48], none)
  else
    let validLen := floatScan s 0 ⟨false, false, 0, 0⟩
    let valid := s.take validLen
    let valid := if valid = [] then [48] else valid
    (valid, if validLen = 0 || validLen ≠ s.length then
      handleTruncateError sc (.truncatedWrongVal "FLOAT") else none)

/-! ### The decimal syntax -/

/-- One or more digits, then what `rest` accepts. -/
def digitsThen (rest : List (Fin 256) → Bool) : List (Fin 256) → Bool
  | [] => false
  | c :: s => isDigit c && (rest s || digitsThen rest s)

/-- `[(e|E) [+|-] digits]`. -/
def isExponent : List (Fin 256) → Bool
  | [] => true
  | c :: s =>
    (c = 101 || c = 69) &&
      match s with
      | d :: t => if isSign d then digitsThen List.isEmpty t else digitsThen List.isEmpty s
      | [] => false

/-- `[digits]` then an exponent. -/
def fractionThen (s : List (Fin 256)) : Bool :=
  isExponent s || digitsThen isExponent s

/-- `digits [. [digits]] | . digits`, then an exponent. -/
def isUnsignedDecimal : List (Fin 256) → Bool
  | [] => false
  | c :: s =>
    if c = 46 then digitsThen isExponent s
    else digitsThen (fun t => isExponent t || match t with
      | d :: u => d = 46 && fractionThen u
      | [] => false) (c :: s)

/-- The decimal syntax of a number, `[+|-] (digits [. [digits]] | . digits) [(e|E) [+|-] digits]`:
MySQL's numeric literal, and what `strconv.ParseFloat` reads in base ten. -/
def isDecimalFloat : List (Fin 256) → Bool
  | c :: s => if isSign c then isUnsignedDecimal s else isUnsignedDecimal (c :: s)
  | [] => false

/-- The longest prefix of the string in the decimal syntax, `"0"` when there is none. -/
def longestDecimalPrefix (s : List (Fin 256)) : List (Fin 256) :=
  match ((List.range (s.length + 1)).reverse.find? fun n => isDecimalFloat (s.take n)) with
  | some n => s.take n
  | none => [48]

/-! ### `strconv` -/

/-- The loop of `strconv.ParseUint(s, 10, 64)`: a byte that is no digit is a syntax error, a value
past `MaxUint64` a range error, whichever comes first. -/
def parseUintLoop : List (Fin 256) → Nat → Except NumError Nat
  | [], n => .ok n
  | c :: s, n =>
    if !isDigit c then .error .errSyntax
    else if 2 ^ 64 - 1 < n * 10 + (c.val - 48) then .error .errRange
    else parseUintLoop s (n * 10 + (c.val - 48))

/-- `strconv.ParseUint(s, 10, 64)`: the value, or `MaxUint64` on a range error and `0` on a syntax
error. -/
def parseUint10 (s : List (Fin 256)) : UInt64 × Option NumError :=
  if s = [] then (0, some .errSyntax)
  else
    match parseUintLoop s 0 with
    | .ok n => (n.toUInt64, none)
    | .error .errRange => (maxUint64, some .errRange)
    | .error .errSyntax => (0, some .errSyntax)

/-- `strconv.ParseInt(s, 10, 64)`: a sign, then `ParseUint` of the rest and the range of `int64`. -/
def parseInt10 (s : List (Fin 256)) : Int64 × Option NumError :=
  if s = [] then (0, some .errSyntax)
  else
    let (neg, rest) := match s with
      | c :: t => if c = 45 then (true, t) else if c = 43 then (false, t) else (false, s)
      | [] => (false, [])
    match parseUint10 rest with
    | (_, some .errSyntax) => (0, some .errSyntax)
    | (un, err) =>
      if !neg && 2 ^ 63 ≤ un.toNat then (maxInt64, some .errRange)
      else if neg && 2 ^ 63 < un.toNat then (minInt64, some .errRange)
      else (if neg then -(Int64.ofNat un.toNat) else Int64.ofNat un.toNat, err)

/-- `strconv.Atoi` on a 64-bit platform: `ParseInt(s, 10, 0)`, the fast path for short strings
accepting and rejecting the same strings. -/
def atoi (s : List (Fin 256)) : Option Int :=
  match parseInt10 s with
  | (v, none) => some v.toInt
  | (_, some _) => none

/-! ### Integer strings -/

/-- The carry loop of `roundIntStr`, from byte `idx` down to byte `1`: a byte that is not `'9'` is
incremented and the loop stops there; a `'9'` becomes `'0'`. With the index the loop stopped at,
`0` when it ran out. -/
def roundCarry (retStr : List (Fin 256)) : Nat → List (Fin 256) × Nat
  | 0 => (retStr, 0)
  | idx + 1 =>
    if retStr.getD (idx + 1) 0 ≠ 57 then (retStr.set (idx + 1) (retStr.getD (idx + 1) 0 + 1), idx + 1)
    else roundCarry (retStr.set (idx + 1) 48) idx

/-- `roundIntStr`: `intStr`, a valid integer string, rounded up in its last digit when the digit
after the point is `5` or more. -/
def roundIntStr (numNextDot : Fin 256) (intStr : List (Fin 256)) : List (Fin 256) :=
  if numNextDot < 53 then intStr
  else if intStr = [] then intStr
  else
    let (retStr, idx) := roundCarry intStr (intStr.length - 1)
    if idx ≠ 0 then retStr
    else
      let first := intStr.getD 0 0
      if first = 57 then (retStr.set 0 49) ++ [48]
      else if isDigit first then retStr.set 0 (first + 1)
      else (retStr.set 1 49) ++ [48]

/-- The indexes of the last `.` and the last `e` or `E` of the string. -/
def dotAndExp : List (Fin 256) → Nat → Option Nat × Option Nat → Option Nat × Option Nat
  | [], _, acc => acc
  | c :: s, i, (dotIdx, eIdx) =>
    dotAndExp s (i + 1)
      (if c = 46 then (some i, eIdx) else if c = 101 || c = 69 then (dotIdx, some i) else (dotIdx, eIdx))

/-- `floatStrToIntStr` of a prefix `getValidFloatPrefix` accepted: the integer string the value
rounds to, with the error of `strconv.Atoi` on the exponent. When a non-negative exponent pushes
the point past twenty-one places, the mantissa before the `e` is returned and the overflow is only
a warning. -/
def floatStrToIntStr (validFloat : List (Fin 256)) : List (Fin 256) × Option StrConvError :=
  match dotAndExp validFloat 0 (none, none) with
  | (none, none) => (validFloat, none)
  | (some dotIdx, none) =>
    let signed := isSign (validFloat.getD 0 0)
    let dotIdx := if signed then dotIdx - 1 else dotIdx
    let digits := if signed then validFloat.tail else validFloat
    let intStr := if dotIdx = 0 then [48] else digits.take dotIdx
    let intStr :=
      if dotIdx + 1 < digits.length then roundIntStr (digits.getD (dotIdx + 1) 0) intStr else intStr
    ((if (1 < intStr.length || intStr.getD 0 0 ≠ 48) && validFloat.getD 0 0 = 45 then 45 :: intStr
      else intStr), none)
  | (dotIdx, some eIdx) =>
    -- the digits keep the sign; `intCnt` counts it
    let (digits, intCnt) : List (Fin 256) × Nat := match dotIdx with
      | none => (validFloat.take eIdx, eIdx)
      | some dotIdx => (validFloat.take dotIdx ++ (validFloat.drop (dotIdx + 1)).take (eIdx - (dotIdx + 1)),
        dotIdx)
    match atoi (validFloat.drop (eIdx + 1)) with
    | none => (validFloat, some (.num .errSyntax))
    | some exp =>
      let intCnt : Int := intCnt + exp
      if 0 ≤ exp && (21 < intCnt || intCnt < 0) then (validFloat.take eIdx, none)
      else if intCnt ≤ 0 then
        (if intCnt = 0 && digits ≠ [] && isDigit (digits.getD 0 0) then
          roundIntStr (digits.getD 0 0) [48] else [48], none)
      else if intCnt = 1 && isSign (digits.getD 0 0) then
        let intStr := if 1 < digits.length then roundIntStr (digits.getD 1 0) [48] else [48]
        (if intStr.getD 0 0 = 49 then digits.take 1 ++ intStr else intStr, none)
      else if intCnt ≤ digits.length then
        let intStr := digits.take intCnt.toNat
        (if intCnt < digits.length then roundIntStr (digits.getD intCnt.toNat 0) intStr else intStr, none)
      else (digits ++ List.replicate (intCnt.toNat - digits.length) 48, none)

/-- `getValidIntPrefix`: outside `CastStrToIntStrict` the float prefix made an integer string;
under it the sign and digits at the head. -/
def getValidIntPrefix (sc : ConvContext) (str : List (Fin 256)) :
    List (Fin 256) × Option StrConvError :=
  if !sc.castStrToIntStrict then
    let (floatPrefix, err) := getValidFloatPrefix sc str
    if err.isSome then (floatPrefix, err) else floatStrToIntStr floatPrefix
  else
    let validLen := Expression.validIntLen str 0 0
    (Expression.getValidIntPrefix str,
      if validLen = 0 || validLen ≠ str.length then
        handleTruncateError sc (.truncatedWrongVal "INTEGER") else none)

/-! ### The conversions -/

/-- `StrToInt`: any error of `ParseInt` is reported as an overflow of `BIGINT`. -/
def strToInt (sc : ConvContext) (str : List (Fin 256)) : Int64 × Option StrConvError :=
  let (validPrefix, err) := getValidIntPrefix sc (Expression.trimSpace str)
  match parseInt10 validPrefix with
  | (iVal, some _) => (iVal, some (.overflow "BIGINT" validPrefix))
  | (iVal, none) => (iVal, err)

/-- `StrToUint`: a leading `+` is dropped before `ParseUint`. -/
def strToUint (sc : ConvContext) (str : List (Fin 256)) : UInt64 × Option StrConvError :=
  let (validPrefix, err) := getValidIntPrefix sc (Expression.trimSpace str)
  let validPrefix := if validPrefix.head? = some 43 then validPrefix.tail else validPrefix
  match parseUint10 validPrefix with
  | (uVal, some _) => (uVal, some (.overflow "BIGINT UNSIGNED" validPrefix))
  | (uVal, none) => (uVal, err)

/-- `StrToFloat`: the string `ParseFloat` rounds to a double, and the error. A syntax error of
`ParseFloat` is returned as it is; the range clamping of its value is left out. -/
def strToFloat (sc : ConvContext) (str : List (Fin 256)) : List (Fin 256) × Option StrConvError :=
  let (validStr, err) := getValidFloatPrefix sc (Expression.trimSpace str)
  if !isDecimalFloat validStr then (validStr, some (.num .errSyntax)) else (validStr, err)

/-- The statement context of an `INSERT` outside strict SQL mode. -/
def nonStrictInsertContext : ConvContext :=
  ⟨false, false, true, false⟩

/-- `"1-2"` passes the scan whole, though only `"1"` is a number: `ParseFloat` rejects it, and
`StrToInt` reports an overflow where the value `1` was due. `"1e21"` is read as `1`, with no error,
though its value is past `MaxInt64`. -/
theorem getValidFloatPrefix_accepts_non_number :
    getValidFloatPrefix nonStrictInsertContext [49, 45, 50] = ([49, 45, 50], none) ∧
      longestDecimalPrefix [49, 45, 50] = [49] ∧
      strToFloat nonStrictInsertContext [49, 45, 50] = ([49, 45, 50], some (.num .errSyntax)) ∧
      strToInt nonStrictInsertContext [49, 45, 50] = (0, some (.overflow "BIGINT" [49, 45, 50])) ∧
      strToInt nonStrictInsertContext [49, 101, 50, 49] = (1, none) := by
  decide

end TinySql.Types
