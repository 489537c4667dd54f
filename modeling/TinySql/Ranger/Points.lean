import Mathlib
import TinySql.Types.Datum

/-!
# Range points of one column

`util/ranger/points.go`. The builder turns a condition on one column into a sorted list of range
points, a start point and an end point for each interval, each open or closed. `AND` and `OR`
merge two such lists by counting how many intervals a sweep over the merged points is inside of.

The conditions are those the builder reads: a comparison of the column with a constant, on either
side, `IN` with a list of constants, `IS NULL`, their negations `NOT IN` and `NOT IS NULL`, and
`AND` and `OR` of conditions. The `sort.Sort` of the points is a sorting by insertion.
-/

namespace TinySql.Ranger

open TinySql.Types

structure Point where
  value : Datum
  excl : Bool
  start : Bool
  deriving DecidableEq, Repr

def rangePointEqualValueLess (a b : Point) : Bool :=
  if a.start && b.start then !a.excl && b.excl
  else if a.start then !a.excl && !b.excl
  else if b.start then a.excl || b.excl
  else a.excl && !b.excl

def rangePointLess (a b : Point) : Bool :=
  match compareDatum a.value b.value with
  | .lt => true
  | .gt => false
  | .eq => rangePointEqualValueLess a b

/-- `sort.Sort` with `rangePointLess`. -/
def sortPoints (points : List Point) : List Point :=
  points.insertionSort fun a b => rangePointLess b a = false

/-- `fullRange`, `(-∞, +∞)`: from `NULL` on. -/
def fullRange : List Point :=
  [⟨.null, false, true⟩, ⟨.maxValue, false, false⟩]

inductive CmpOp
  | eq
  | ne
  | lt
  | le
  | gt
  | ge
  deriving DecidableEq, Repr

/-- The operator with its sides swapped, for a constant on the left of the column. -/
def CmpOp.swap : CmpOp → CmpOp
  | .ge => .le
  | .gt => .lt
  | .lt => .gt
  | .le => .ge
  | op => op

/-- The access conditions on one column. -/
inductive Cond
  | cmp (op : CmpOp) (col : FieldType) (colOnLeft : Bool) (value : Datum)
  | isIn (list : List Datum)
  | isNull
  | logicAnd (a b : Cond)
  | logicOr (a b : Cond)
  | notIn (col : FieldType) (list : List Datum)
  | notIsNull
  deriving Repr

def space : Fin 256 := 0x20

/-- `strings.TrimRight(s, " ")`. -/
def trimRightSpaces (s : List (Fin 256)) : List (Fin 256) :=
  (s.reverse.dropWhile (· = space)).reverse

/-- `HandlePadCharToFullLength`: a constant compared with a `CHAR` or `VARCHAR` column as the column
stores it; `none` stands for its errors, after which the builder gives no points: a constant that
is no string, or `kv.ErrNotExist` for one no row can hold. -/
def handlePadCharToFullLength (sc : StatementContext) (ft : FieldType) (val : Datum) :
    Option Datum :=
  let isChar := ft.tp = .string
  let isBinary := isChar ∧ ft.collate = collationBin
  let isVarchar := ft.tp = .varString ∨ ft.tp = .varchar
  let isVarBinary := isVarchar ∧ ft.collate = collationBin
  if ¬ isChar ∧ ¬ isVarchar ∧ ¬ isBinary ∧ ¬ isVarBinary then some val
  else
    match val.toBytes with
    | none => none
    | some targetStr =>
      if isBinary ∨ isVarBinary then some (.bytes targetStr)
      else if isVarchar ∧ hasBinaryFlag ft.flag then
        let noTrailingSpace := trimRightSpaces targetStr
        some (.bytes (noTrailingSpace ++
          List.replicate (ft.flen - noTrailingSpace.length).toNat space))
      else if isVarchar then some (.bytes targetStr)
      else if hasBinaryFlag ft.flag then some (.bytes (trimRightSpaces targetStr))
      else if ¬ sc.padCharToFullLength then some (.bytes targetStr)
      else if targetStr.length ≠ ft.flen then none
      else some (.bytes (trimRightSpaces targetStr))

/-- `handleUnsignedIntCol`: a negative constant on an unsigned column. -/
def handleUnsignedIntCol (ft : FieldType) (val : Datum) (op : CmpOp) : Option (Datum × CmpOp) :=
  let isNegativeInteger := match val with
    | .int64 i => decide (i < 0)
    | _ => false
  if !hasUnsignedFlag ft.flag || !ft.tp.isInteger || !isNegativeInteger then some (val, op)
  else if op = .gt ∨ op = .ge ∨ op = .ne then some (.uint64 0, .ge)
  else none

def buildFormBinOp (sc : StatementContext) (op : CmpOp) (ft : FieldType) (colOnLeft : Bool)
    (value : Datum) : List Point :=
  let op := if colOnLeft then op else op.swap
  if value = .null then []
  else
    match handlePadCharToFullLength sc ft value with
    | none => []
    | some value =>
      match handleUnsignedIntCol ft value op with
      | none => []
      | some (value, .eq) => [⟨value, false, true⟩, ⟨value, false, false⟩]
      | some (value, .ne) =>
        [⟨.minNotNull, false, true⟩, ⟨value, true, false⟩, ⟨value, true, true⟩,
          ⟨.maxValue, false, false⟩]
      | some (value, .lt) => [⟨.minNotNull, false, true⟩, ⟨value, true, false⟩]
      | some (value, .le) => [⟨.minNotNull, false, true⟩, ⟨value, false, false⟩]
      | some (value, .gt) => [⟨value, true, true⟩, ⟨.maxValue, false, false⟩]
      | some (value, .ge) => [⟨value, false, true⟩, ⟨.maxValue, false, false⟩]

/-- The duplicate removal of `buildFromIn` after the point `last` it kept: a point is kept when its
`start` differs from that of the last one kept. -/
def removeDupAfter (last : Point) : List Point → List Point
  | [] => []
  | p :: ps => if p.start == last.start then removeDupAfter last ps else p :: removeDupAfter p ps

/-- The first point is kept, and the whole list only when some other point is (`curPos > 0`). -/
def removeDup : List Point → List Point
  | [] => []
  | p :: ps => if removeDupAfter p ps = [] then [] else p :: removeDupAfter p ps

/-- `buildFromIn`: one closed interval for each constant that is not `NULL`, sorted and without
duplicates, and whether a `NULL` was in the list. -/
def buildFromIn (list : List Datum) : List Point × Bool :=
  let rangePoints := (list.filter (· ≠ .null)).flatMap fun v => [⟨v, false, true⟩, ⟨v, false, false⟩]
  (removeDup (sortPoints rangePoints), list.contains .null)

/-- `Kind() == KindUint64 || GetInt64() >= 0` of an interval's start for an unsigned column. A
float keeps its bits in the integer field, which is negative when its sign bit is set; the other
kinds keep `0` there. -/
def isNonNegative : Datum → Bool
  | .int64 i => decide (0 ≤ i)
  | .float32 f | .float64 f => decide (f.toNat < 2 ^ 63)
  | .null | .uint64 _ | .bytes _ | .minNotNull | .maxValue => true

/-- The intervals of `NOT IN` on an unsigned column start at the first nonnegative constant. -/
def dropNegative : List Point → List Point
  | s :: e :: rest => if isNonNegative s.value then s :: e :: rest else dropNegative rest
  | [s] => if isNonNegative s.value then [s] else []
  | [] => []

/-- The open intervals between the constants of `NOT IN`, from `previousValue` on. -/
def notInPoints (previousValue : Datum) : List Point → List Point
  | s :: _ :: rest =>
    ⟨previousValue, true, true⟩ :: ⟨s.value, true, false⟩ :: notInPoints s.value rest
  | [s] => [⟨previousValue, true, true⟩, ⟨s.value, true, false⟩, ⟨s.value, true, true⟩,
      ⟨.maxValue, false, false⟩]
  | [] => [⟨previousValue, true, true⟩, ⟨.maxValue, false, false⟩]

/-- `buildFromNot` of `IN`: nothing when a constant is `NULL`. -/
def buildFromNotIn (col : FieldType) (list : List Datum) : List Point :=
  let (rangePoints, hasNull) := buildFromIn list
  if hasNull then []
  else
    let isUnsignedIntCol := hasUnsignedFlag col.flag && col.tp.isInteger
    notInPoints .null (if isUnsignedIntCol then dropNegative rangePoints else rangePoints)

/-- `mergeSorted` of two sorted point lists, with fuel for the two of them. -/
def mergeSortedAux : Nat → List Point → List Point → List Point
  | 0, a, b => a ++ b
  | _ + 1, [], b => b
  | _ + 1, a, [] => a
  | n + 1, x :: a, y :: b =>
    if rangePointLess x y then x :: mergeSortedAux n a (y :: b) else y :: mergeSortedAux n (x :: a) b

def mergeSorted (a b : List Point) : List Point :=
  mergeSortedAux (a.length + b.length) a b

/-- One point of the sweep in `merge`: a start point enters an interval, an end point leaves one,
and a point is kept where the count reaches or leaves the one required. -/
def mergeStep (requiredInRangeCount : Int) (acc : List Point × Int) (val : Point) :
    List Point × Int :=
  if val.start then
    let inRangeCount := acc.2 + 1
    (if inRangeCount = requiredInRangeCount then acc.1 ++ [val] else acc.1, inRangeCount)
  else
    (if acc.2 = requiredInRangeCount then acc.1 ++ [val] else acc.1, acc.2 - 1)

def merge (a b : List Point) (union : Bool) : List Point :=
  ((mergeSorted a b).foldl (mergeStep (if union then 1 else 2)) ([], 0)).1

def intersection (a b : List Point) : List Point :=
  merge a b false

def union (a b : List Point) : List Point :=
  merge a b true

/-- `builder.build` of a condition on one column. -/
def build (sc : StatementContext) : Cond → List Point
  | .cmp op col colOnLeft value => buildFormBinOp sc op col colOnLeft value
  | .isIn list => (buildFromIn list).1
  | .isNull => [⟨.null, false, true⟩, ⟨.null, false, false⟩]
  | .logicAnd a b => intersection (build sc a) (build sc b)
  | .logicOr a b => union (build sc a) (build sc b)
  | .notIn col list => buildFromNotIn col list
  | .notIsNull => [⟨.minNotNull, false, true⟩, ⟨.maxValue, false, false⟩]

def Cond.isEqOrIn : Cond → Bool
  | .cmp .eq _ _ _ => true
  | .isIn _ => true
  | _ => false

example : (buildFromIn [.int64 2, .int64 1, .int64 2, .null]).1 =
    [⟨.int64 1, false, true⟩, ⟨.int64 1, false, false⟩, ⟨.int64 2, false, true⟩,
      ⟨.int64 2, false, false⟩] := by decide

end TinySql.Ranger
