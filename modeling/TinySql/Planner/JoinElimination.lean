import TinySql.Planner.Logical

/-!
# Outer join elimination

`outerJoinEliminator` (`rule_join_elimination.go`) replaces an outer join by its outer child when
nothing above reads the inner side and the join cannot change how many times an outer row comes
out: either the columns its parent reads and the arguments of a duplicate-agnostic aggregation
above (`MAX`, `MIN`, `FIRST_ROW`) are all outer columns, or the inner join keys contain a unique
key or the columns of a unique index of the inner child.

Two of these tests are weaker than what they stand for. The unique-index test reads the index's
`IdxCols`, which nothing fills before physical optimization: with no columns to check, any unique
index of the inner table passes, whatever the join keys. And the licence of a duplicate-agnostic
aggregation is carried down through every node until the next aggregation, past a `Limit` whose
result depends on how many copies of each row there are.
-/

namespace TinySql.Planner.Core

open TinySql.Expression

/-- `isColsAllFromOuterTable`: an empty list is not. -/
def isColsAllFromOuterTable (cols : List Column) (outerUniqueIDs : List Nat) : Bool :=
  !cols.isEmpty && cols.all fun col => outerUniqueIDs.contains col.uniqueID

/-- `extractInnerJoinKeys`: the inner column of each equal condition. -/
def extractInnerJoinKeys (equalConditions : List (Column × Column)) (innerIsLeft : Bool) : Schema :=
  newSchema (equalConditions.map fun cond => if innerIsLeft then cond.1 else cond.2)

def isInnerJoinKeysContainUniqueKey (innerPlan : LogicalPlan) (joinKeys : Schema) : Bool :=
  innerPlan.schema.keys.any fun keyInfo => keyInfo.all joinKeys.contains

/-- `isInnerJoinKeysContainIndex`: some unique index path of the inner data source has all of its
`IdxCols` among the join keys. -/
def isInnerJoinKeysContainIndex (innerPlan : LogicalPlan) (joinKeys : Schema) : Bool :=
  match innerPlan with
  | .dataSource ds =>
    ds.possibleAccessPaths.any fun path => path.index.unique && path.idxCols.all joinKeys.contains
  | _ => false

/-- The tests of `tryToEliminateOuterJoin` for an outer join whose outer and inner children are
given: whether the join can be replaced by its outer child. -/
def canEliminateOuterJoin (equalConditions : List (Column × Column)) (innerIsLeft : Bool)
    (outerPlan innerPlan : LogicalPlan) (aggCols parentCols : List Column) : Bool :=
  let outerUniqueIDs := outerPlan.schema.columns.map (·.uniqueID)
  if !isColsAllFromOuterTable parentCols outerUniqueIDs then false
  else if isColsAllFromOuterTable aggCols outerUniqueIDs then true
  else
    let innerJoinKeys := extractInnerJoinKeys equalConditions innerIsLeft
    isInnerJoinKeysContainUniqueKey innerPlan innerJoinKeys ||
      isInnerJoinKeysContainIndex innerPlan innerJoinKeys

/-- `getDupAgnosticAggCols`: for an aggregation, the columns of its functions' arguments when all
of them are `FIRST_ROW`, `MAX` or `MIN`, and no column otherwise. -/
def getDupAgnosticAggCols : LogicalPlan → Option (List Column)
  | .aggregation aggFuncs _ _ _ =>
    some <| if aggFuncs.all fun desc => desc.name = .firstRow ∨ desc.name = .max ∨ desc.name = .min
      then aggFuncs.flatMap fun desc => extractArgsColumns desc.args
      else []
  | _ => none

/-- `doOptimize`. An eliminated join is replaced by its outer child, which is optimized with the
same columns, as the source's loop does; any other node passes on the columns it reads, and an
aggregation its duplicate-agnostic columns. -/
def doOptimize (aggCols parentCols : List Column) : LogicalPlan → LogicalPlan
  | .join .leftOuterJoin eqConds leftConds rightConds otherConds schema left right =>
    if canEliminateOuterJoin eqConds false left right aggCols parentCols then
      doOptimize aggCols parentCols left
    else
      .join .leftOuterJoin eqConds leftConds rightConds otherConds schema
        (doOptimize aggCols schema.columns left) (doOptimize aggCols schema.columns right)
  | .join .rightOuterJoin eqConds leftConds rightConds otherConds schema left right =>
    if canEliminateOuterJoin eqConds true right left aggCols parentCols then
      doOptimize aggCols parentCols right
    else
      .join .rightOuterJoin eqConds leftConds rightConds otherConds schema
        (doOptimize aggCols schema.columns left) (doOptimize aggCols schema.columns right)
  | .join .innerJoin eqConds leftConds rightConds otherConds schema left right =>
    .join .innerJoin eqConds leftConds rightConds otherConds schema
      (doOptimize aggCols schema.columns left) (doOptimize aggCols schema.columns right)
  | .projection exprs schema child =>
    .projection exprs schema (doOptimize aggCols (extractArgsColumns exprs) child)
  | .aggregation aggFuncs groupByItems schema child =>
    let plan := LogicalPlan.aggregation aggFuncs groupByItems schema child
    .aggregation aggFuncs groupByItems schema
      (doOptimize ((getDupAgnosticAggCols plan).getD aggCols)
        (extractArgsColumns groupByItems ++ aggFuncs.flatMap fun desc => extractArgsColumns desc.args)
        child)
  | .selection conds child => .selection conds (doOptimize aggCols child.schema.columns child)
  | .sort byItems child => .sort byItems (doOptimize aggCols child.schema.columns child)
  | .limit offset count child => .limit offset count (doOptimize aggCols child.schema.columns child)
  | .dataSource ds => .dataSource ds
  | .tableDual rowCount schema => .tableDual rowCount schema

/-- `outerJoinEliminator.optimize`. -/
def outerJoinEliminate (p : LogicalPlan) : LogicalPlan :=
  doOptimize [] [] p

/-- The BIGINT column `n` of a table. -/
def bigintColumn (uniqueID index : Nat) : Column :=
  ⟨uniqueID, index, ⟨.longlong, Types.binaryFlag⟩⟩

/-- A data source reading every column of a table of BIGINT columns, with the given index paths. -/
def bigintTable (tableID : Nat) (cols : List Column) (paths : List AccessPath) : DataSource :=
  ⟨tableID, (List.range cols.length).map fun offset => ⟨offset, Types.binaryFlag⟩, newSchema cols,
    paths, false, none⟩

/-- `o (a, x)`, and `i (y, z)` with a unique index on `z`, as the builder makes their data sources. -/
def outerTable : DataSource :=
  bigintTable 0 [bigintColumn 1 0, bigintColumn 2 1] []

def innerTable : DataSource :=
  bigintTable 1 [bigintColumn 3 0, bigintColumn 4 1] [⟨⟨true, [1]⟩, []⟩]

/-- `o LEFT JOIN i ON o.x = i.y`, with the given inner table. -/
def outerJoinOn (inner : DataSource) : LogicalPlan :=
  .join .leftOuterJoin [(bigintColumn 2 1, bigintColumn 3 0)] [] [] []
    (newSchema [bigintColumn 1 0, bigintColumn 2 1, bigintColumn 3 0, bigintColumn 4 1])
    (.dataSource outerTable) (.dataSource inner)

/-- `SELECT o.a FROM o LEFT JOIN i ON o.x = i.y`, keys built. -/
def selectOuterPlan : LogicalPlan :=
  LogicalPlan.buildKeyInfo <|
    .projection [.column (bigintColumn 1 0)] (newSchema [bigintColumn 1 0]) (outerJoinOn innerTable)

/-- `SELECT MAX(a) FROM (SELECT o.a FROM o LEFT JOIN i ON o.x = i.y ORDER BY o.a LIMIT 2) t`, with
no index on `i`, keys built. -/
def maxOverLimitPlan : LogicalPlan :=
  LogicalPlan.buildKeyInfo <|
    .aggregation [newAggFuncDesc .max [.column (bigintColumn 1 0)]] []
      (newSchema [bigintColumn 5 0]) <|
      .limit 0 2 <| .sort [⟨.column (bigintColumn 1 0), false⟩] <|
        .projection [.column (bigintColumn 1 0)] (newSchema [bigintColumn 1 0])
          (outerJoinOn { innerTable with possibleAccessPaths := [] })

/-- (1) With `o = {(1, 1)}` and `i = {(1, 1), (1, 2)}` (`z` unique) the join gives the outer row
twice; the eliminated plan gives it once. (2) With `o = {(1, 1), (2, 2)}` and `i = {(1, 1), (1, 2)}`
the two smallest joined values of `o.a` are `1, 1`, so `MAX` is `1`; without the join they are
`1, 2`. -/
theorem outerJoinEliminate_changes_rows :
    selectOuterPlan.rows defaultVars
        (fun | 0 => [[⟨false, 1⟩, ⟨false, 1⟩]] | _ => [[⟨false, 1⟩, ⟨false, 1⟩], [⟨false, 1⟩, ⟨false, 2⟩]]) =
        .ok [[⟨false, 1⟩], [⟨false, 1⟩]] ∧
      (outerJoinEliminate selectOuterPlan).rows defaultVars
        (fun | 0 => [[⟨false, 1⟩, ⟨false, 1⟩]] | _ => [[⟨false, 1⟩, ⟨false, 1⟩], [⟨false, 1⟩, ⟨false, 2⟩]]) =
        .ok [[⟨false, 1⟩]] ∧
      maxOverLimitPlan.rows defaultVars
        (fun | 0 => [[⟨false, 1⟩, ⟨false, 1⟩], [⟨false, 2⟩, ⟨false, 2⟩]]
             | _ => [[⟨false, 1⟩, ⟨false, 1⟩], [⟨false, 1⟩, ⟨false, 2⟩]]) =
        .ok [[⟨false, 1⟩]] ∧
      (outerJoinEliminate maxOverLimitPlan).rows defaultVars
        (fun | 0 => [[⟨false, 1⟩, ⟨false, 1⟩], [⟨false, 2⟩, ⟨false, 2⟩]]
             | _ => [[⟨false, 1⟩, ⟨false, 1⟩], [⟨false, 1⟩, ⟨false, 2⟩]]) =
        .ok [[⟨false, 2⟩]] := by
  decide

end TinySql.Planner.Core
