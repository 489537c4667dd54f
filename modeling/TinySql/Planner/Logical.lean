import TinySql.Expression.Aggregation
import TinySql.Planner.OuterJoin
import Mathlib

set_option linter.dupNamespace false

/-!
# Logical plans and what they compute

The logical operators of `planner/core` that the optimizer rules rewrite: `DataSource`,
`LogicalTableDual`, `LogicalSelection`, `LogicalProjection`, `LogicalAggregation`, `LogicalJoin`,
`LogicalSort` and `LogicalLimit`, each with the schema it owns (a selection, a sort and a limit
share their child's), and `buildKeyInfo`, which records the unique keys of each schema.

`LogicalPlan.rows` gives a plan its meaning on a database: the rows it returns, in order, each
holding the cells of its schema's columns, or the error evaluation stops at. Expressions are
evaluated as the executors evaluate them after `ResolveIndices`: each column reads the cell at its
position in the child's schema. A sort is a stable insertion sort by `lessRow`; the executor's
`sort.Slice` may order rows with equal keys differently. Cells are fixed-size, so a string result
is outside the model.
-/

namespace TinySql.Expression

/-- `Schema.ColumnsIndices`: the position of each column, or `none` as soon as one is missing. -/
def Schema.columnsIndices (s : Schema) (cols : List Column) : Option (List Nat) :=
  cols.mapM s.columnIndex

end TinySql.Expression

namespace TinySql.Planner.Core

open TinySql.Expression

/-- `mysql.PriKeyFlag`. -/
def priKeyFlag : Nat := 2

/-- `model.ColumnInfo` as the rules read it: the offset of the column in the table's rows and its
flags. -/
structure ColumnInfo where
  offset : Nat
  flag : Nat
  deriving DecidableEq, Repr, Inhabited

/-- `model.IndexInfo`: whether the index is unique and the offsets of its columns. -/
structure IndexInfo where
  unique : Bool
  columns : List Nat
  deriving DecidableEq, Repr

/-- `util.AccessPath` of an index: the index, and the columns of it that `fillIndexPath` matches
to the data source's schema. `getPossibleAccessPaths` leaves `IdxCols` empty; only statistics
derivation, in physical optimization, fills it. -/
structure AccessPath where
  index : IndexInfo
  idxCols : List Column
  deriving DecidableEq, Repr

/-- `DataSource`: the table it reads, the columns it keeps (`Columns`, one for each column of its
schema), its index paths (the table path is left out) and whether the primary key is the handle. -/
structure DataSource where
  tableID : Nat
  columns : List ColumnInfo
  schema : Schema
  possibleAccessPaths : List AccessPath
  pkIsHandle : Bool
  handleCol : Option Column
  deriving DecidableEq, Repr

/-- `ByItems`: a sort key, descending or not. -/
structure ByItems where
  expr : Expression
  desc : Bool

inductive LogicalPlan
  | dataSource (ds : DataSource)
  | tableDual (rowCount : Nat) (schema : Schema)
  | selection (conditions : List Expression) (child : LogicalPlan)
  | projection (exprs : List Expression) (schema : Schema) (child : LogicalPlan)
  | aggregation (aggFuncs : List AggFuncDesc) (groupByItems : List Expression) (schema : Schema)
      (child : LogicalPlan)
  /-- `EqualConditions` are the column pairs of its `eq` functions. -/
  | join (joinType : JoinType) (equalConditions : List (Column × Column))
      (leftConditions rightConditions otherConditions : List Expression) (schema : Schema)
      (left right : LogicalPlan)
  | sort (byItems : List ByItems) (child : LogicalPlan)
  | limit (offset count : Nat) (child : LogicalPlan)

namespace LogicalPlan

/-- `Schema()`: a selection, a sort and a limit return their child's. -/
def schema : LogicalPlan → Schema
  | .dataSource ds => ds.schema
  | .tableDual _ schema => schema
  | .selection _ child => child.schema
  | .projection _ schema _ => schema
  | .aggregation _ _ schema _ => schema
  | .join _ _ _ _ _ schema _ _ => schema
  | .sort _ child => child.schema
  | .limit _ _ child => child.schema

def children : LogicalPlan → List LogicalPlan
  | .dataSource _ | .tableDual _ _ => []
  | .selection _ child | .projection _ _ child | .aggregation _ _ _ child | .sort _ child
  | .limit _ _ child => [child]
  | .join _ _ _ _ _ _ left right => [left, right]

end LogicalPlan

/-- `collectGroupByColumns`: the group-by items that are columns. -/
def groupByCols (groupByItems : List Expression) : List Column :=
  groupByItems.filterMap fun
    | .column col => some col
    | _ => none

/-- `eq(l, r)` of an equal condition, as `NewFunction` builds it. -/
def equalCondition (vars : SessionVars) (cond : Column × Column) : Expression :=
  newFunction vars .eq [.column cond.1, .column cond.2]

section Resolve

mutual

/-- `ResolveIndices`: each column reads its position in the schema. A column the schema lacks
gets a position past its end, where evaluation fails. -/
def resolveIndices (schema : Schema) : Expression → Expression
  | .column col => .column { col with index := (schema.columnIndex col).getD schema.columns.length }
  | .constant con => .constant con
  | .scalarFunction funcName retType sig args =>
    .scalarFunction funcName retType sig (resolveArgsIndices schema args)

def resolveArgsIndices (schema : Schema) : List Expression → List Expression
  | [] => []
  | arg :: args => resolveIndices schema arg :: resolveArgsIndices schema args

end

end Resolve

/-- The tables of a database, by ID: each row holds a cell for every column of the table. -/
abbrev Database := Nat → List Row

def nullCell : IntCell := ⟨true, 0⟩

/-- The rows a table scan gives a data source: the cells of its columns. -/
def DataSource.rows (ds : DataSource) (db : Database) : List Row :=
  (db ds.tableID).map fun row => ds.columns.map fun c => row.getD c.offset nullCell

/-- The cell a chunk column holds for a result evaluated at `et`: an integer's or a double's eight
bytes; a NULL's slot is cleared. -/
def slotCell : (et : EvalType) → et.Slot × Bool → Except ExprError IntCell
  | _, (_, true) => .ok nullCell
  | .int, (v, false) => .ok ⟨false, v⟩
  | .real, (f, false) => .ok ⟨false, f.toBits.toInt64⟩
  | .string, (_, false) => .error .indexOutOfRange

/-- The cell an aggregate function appends for its datum. -/
def datumCell : Option Datum → Except ExprError IntCell
  | none => .ok nullCell
  | some (.int64 v) => .ok ⟨false, v⟩
  | some (.uint64 v) => .ok ⟨false, v.toInt64⟩
  | some (.float64 f) => .ok ⟨false, f.toBits.toInt64⟩
  | some (.bytes _) => .error .indexOutOfRange

section Semantics

variable (vars : SessionVars)

/-- What an expression puts in its output column on a row of the child. -/
def evalCell (schema : Schema) (row : Row) (expr : Expression) : Except ExprError IntCell := do
  let et := expr.getType.evalType
  slotCell et (← (resolveIndices schema expr).eval vars row et)

/-- A projection's row: its expressions' cells. -/
def projectRow (schema : Schema) (exprs : List Expression) (row : Row) : Except ExprError Row :=
  exprs.mapM (evalCell vars schema row)

/-- `EvalBool` of the conditions on a row of the schema. -/
def keepRow (schema : Schema) (conds : List Expression) (row : Row) : Except ExprError Bool := do
  let (kept, _) ← CNFExprs.evalBool vars (conds.map (resolveIndices schema)) row
  return kept

def filterRows (schema : Schema) (conds : List Expression) : List Row → Except ExprError (List Row)
  | [] => .ok []
  | row :: rows => do
    let kept ← keepRow vars schema conds row
    let rest ← filterRows schema conds rows
    return if kept then row :: rest else rest

/-- The groups of the rows by their keys, in the order their first rows come. -/
def groupRows : List (List IntCell × Row) → List (List IntCell × List Row)
  | [] => []
  | (key, row) :: rest =>
    let groups := groupRows rest
    (key, row :: ((groups.find? (·.1 = key)).map (·.2)).getD []) ::
      groups.filter (·.1 ≠ key)

/-- The aggregation's groups: the rows grouped by the values of the group-by items; without
group-by items every row falls in one group, which exists even when there is no row. -/
def groupsOf (schema : Schema) (groupByItems : List Expression) (rows : List Row) :
    Except ExprError (List (List Row)) := do
  if groupByItems.isEmpty then return [rows]
  let keyed ← rows.mapM fun row => do return (← projectRow vars schema groupByItems row, row)
  return (groupRows keyed).map (·.2)

/-- The row the aggregation appends for a group: each function's result. `Build` makes a function
for every description of the modelled modes; for any other Go dereferences nil. -/
def aggregateRow (schema : Schema) (aggFuncs : List AggFuncDesc) (group : List Row) :
    Except ExprError Row :=
  aggFuncs.mapM fun desc => do
    let resolved := { desc with args := desc.args.map (resolveIndices schema) }
    datumCell (← (resolved.evalGroup vars group).getD (.error .indexOutOfRange))

/-- `cmpNull`, then `cmpInt64`, `cmpUint64` or `cmpFloat64` by the key's type. -/
def compareCell (tp : FieldType) (l r : IntCell) : Ordering :=
  match l.null, r.null with
  | true, true => .eq
  | true, false => .lt
  | false, true => .gt
  | false, false =>
    match tp.tp with
    | .tiny | .longlong =>
      if Types.hasUnsignedFlag tp.flag then compare l.slot.toUInt64 r.slot.toUInt64
      else compare l.slot r.slot
    | .double =>
      let x := Float.ofBits l.slot.toUInt64
      let y := Float.ofBits r.slot.toUInt64
      if x < y then .lt else if x == y then .eq else .gt
    | _ => .eq

/-- `lessRow`: the first key that differs decides, flipped for a descending one. -/
def lessRow : List ByItems → List IntCell → List IntCell → Bool
  | item :: items, l :: ls, r :: rs =>
    let cmp := compareCell item.expr.getType l r
    let cmp := if item.desc then cmp.swap else cmp
    match cmp with
    | .lt => true
    | .gt => false
    | .eq => lessRow items ls rs
  | _, _, _ => false

/-- The sorted rows: keyed by the sort items, then inserted in order, a row after every row whose
key it is not less than. -/
def sortRows (schema : Schema) (byItems : List ByItems) (rows : List Row) :
    Except ExprError (List Row) := do
  let keyed ← rows.mapM fun row => do
    return (← projectRow vars schema (byItems.map (·.expr)) row, row)
  return (keyed.insertionSort fun a b => lessRow byItems b.1 a.1 = false).map (·.2)

/-- The rows the inner side gives one outer row: those on which every condition is TRUE. -/
def matchRows (schema : Schema) (conds : List Expression) (outerRow : Row) (outerIsLeft : Bool) :
    List Row → Except ExprError (List Row)
  | [] => .ok []
  | innerRow :: inner => do
    let joined := if outerIsLeft then outerRow ++ innerRow else innerRow ++ outerRow
    let matched ← keepRow vars schema conds joined
    let rest ← matchRows schema conds outerRow outerIsLeft inner
    return if matched then joined :: rest else rest

/-- A join, outer row by outer row; an outer join pads an outer row that matches nothing. -/
def joinRows (schema : Schema) (conds : List Expression) (outerIsLeft padded : Bool)
    (innerWidth : Nat) (inner : List Row) : List Row → Except ExprError (List Row)
  | [] => .ok []
  | outerRow :: outer => do
    let matched ← matchRows vars schema conds outerRow outerIsLeft inner
    let rest ← joinRows schema conds outerIsLeft padded innerWidth inner outer
    let padRow :=
      if outerIsLeft then outerRow ++ List.replicate innerWidth nullCell
      else List.replicate innerWidth nullCell ++ outerRow
    return (if matched.isEmpty && padded then [padRow] else matched) ++ rest

namespace LogicalPlan

/-- The rows of the plan on the database. -/
def rows (db : Database) : LogicalPlan → Except ExprError (List Row)
  | .dataSource ds => .ok (ds.rows db)
  | .tableDual rowCount schema => .ok (List.replicate rowCount (schema.columns.map fun _ => nullCell))
  | .selection conds child => do filterRows vars child.schema conds (← child.rows db)
  | .projection exprs _ child => do (← child.rows db).mapM (projectRow vars child.schema exprs)
  | .aggregation aggFuncs groupByItems _ child => do
    let groups ← groupsOf vars child.schema groupByItems (← child.rows db)
    groups.mapM (aggregateRow vars child.schema aggFuncs)
  | .join joinType equalConditions leftConditions rightConditions otherConditions schema left right => do
    let conds := equalConditions.map (equalCondition vars) ++ leftConditions ++ rightConditions ++
      otherConditions
    let leftRows ← left.rows db
    let rightRows ← right.rows db
    match joinType with
    | .innerJoin => joinRows vars schema conds true false right.schema.columns.length rightRows leftRows
    | .leftOuterJoin => joinRows vars schema conds true true right.schema.columns.length rightRows leftRows
    | .rightOuterJoin => joinRows vars schema conds false true left.schema.columns.length leftRows rightRows
  | .sort byItems child => do sortRows vars child.schema byItems (← child.rows db)
  | .limit offset count child => do return ((← child.rows db).drop offset).take count

end LogicalPlan

end Semantics

section KeyInfo

/-- `checkIndexCanBeKey`: the columns of a unique index, when every one of them is kept by the data
source and is `NOT NULL`. -/
def checkIndexCanBeKey (ds : DataSource) (idx : IndexInfo) : Option (List Column) :=
  if !idx.unique then none
  else
    idx.columns.mapM fun offset => do
      let i ← ds.columns.findIdx? (·.offset = offset)
      if Types.hasNotNullFlag (ds.columns.getD i default).flag then ds.schema.columns[i]? else none

/-- `DataSource.BuildKeyInfo`: a key for each unique index over `NOT NULL` columns, and the
primary key when it is the handle. -/
def DataSource.buildKeyInfo (ds : DataSource) : DataSource :=
  let indexKeys := ds.possibleAccessPaths.filterMap (checkIndexCanBeKey ds ·.index)
  let pkKey := if ds.pkIsHandle then
      ((ds.columns.zip ds.schema.columns).find? fun (c, _) => c.flag &&& priKeyFlag > 0).map
        fun (_, col) => [col]
    else none
  { ds with schema := { ds.schema with keys := indexKeys ++ pkKey.toList } }

/-- The keys of the child that a schema keeps: each key whose columns all have a position in
`cols`, as the schema's columns at those positions. -/
def keysThrough (cols : List (Option Column)) (self : Schema) (childKeys : List (List Column)) :
    List (List Column) :=
  childKeys.filterMap fun key => do
    let indices ← key.mapM fun col => cols.findIdx? (·.map (·.uniqueID) = some col.uniqueID)
    indices.mapM (self.columns[·]?)

/-- `LogicalProjection.BuildKeyInfo`: the child's keys made of columns the projection passes on. -/
def projectionKeys (exprs : List Expression) (self : Schema) (childKeys : List (List Column)) :
    List (List Column) :=
  keysThrough (exprs.map fun | .column col => some col | _ => none) self childKeys

/-- `LogicalAggregation.BuildKeyInfo`: the child's keys the aggregation's schema keeps, and its
group-by columns when every group-by item is a column. -/
def aggregationKeys (groupByItems : List Expression) (self : Schema)
    (childKeys : List (List Column)) : List (List Column) :=
  let cols := self.columns.map some
  let groupKey :=
    if (groupByCols groupByItems).length = groupByItems.length && !groupByItems.isEmpty then
      (keysThrough cols self [groupByCols groupByItems])
    else []
  keysThrough cols self childKeys ++ groupKey

/-- Whether a key of one column is the column. -/
def isSingleKey (keys : List (List Column)) (col : Column) : Bool :=
  keys.any fun key => key.length = 1 && key.head?.map (·.uniqueID) = some col.uniqueID

/-- `LogicalJoin.BuildKeyInfo`: with an equal condition whose left column is a key of the left
child, the right child's keys stay unique unless the join pads the right side, and symmetrically. -/
def joinKeys (joinType : JoinType) (equalConditions : List (Column × Column))
    (leftKeys rightKeys : List (List Column)) : List (List Column) :=
  if equalConditions.isEmpty then []
  else
    let lOk := equalConditions.any fun (ln, _) => isSingleKey leftKeys ln
    let rOk := equalConditions.any fun (_, rn) => isSingleKey rightKeys rn
    (if lOk && joinType != .leftOuterJoin then rightKeys else []) ++
      (if rOk && joinType != .rightOuterJoin then leftKeys else [])

/-- `buildKeyInfo`: the keys of every schema of the plan, children first. -/
def LogicalPlan.buildKeyInfo : LogicalPlan → LogicalPlan
  | .dataSource ds => .dataSource ds.buildKeyInfo
  | .tableDual rowCount schema => .tableDual rowCount { schema with keys := [] }
  | .selection conds child => .selection conds child.buildKeyInfo
  | .projection exprs schema child =>
    let child := child.buildKeyInfo
    .projection exprs { schema with keys := projectionKeys exprs schema child.schema.keys } child
  | .aggregation aggFuncs groupByItems schema child =>
    let child := child.buildKeyInfo
    .aggregation aggFuncs groupByItems
      { schema with keys := aggregationKeys groupByItems schema child.schema.keys } child
  | .join joinType equalConditions leftConds rightConds otherConds schema left right =>
    let left := left.buildKeyInfo
    let right := right.buildKeyInfo
    .join joinType equalConditions leftConds rightConds otherConds
      { schema with keys := joinKeys joinType equalConditions left.schema.keys right.schema.keys }
      left right
  | .sort byItems child => .sort byItems child.buildKeyInfo
  | .limit offset count child => .limit offset count child.buildKeyInfo

end KeyInfo

end TinySql.Planner.Core
