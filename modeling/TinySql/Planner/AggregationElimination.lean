import TinySql.Planner.Logical

/-!
# Aggregation elimination

`aggregationEliminator` (`rule_aggregation_elimination.go`) replaces an aggregation whose group-by
columns cover a unique key of its child by a projection: every group then holds one row, and each
aggregate function is rewritten to an expression of that row. `COUNT(expr)` becomes
`if(isnull(expr), 0, 1)`, or the constant `1` when `expr` is typed `NOT NULL`; the other functions
become their argument.

The rewrite of `COUNT` trusts the `NOT NULL` flag of its argument's type to mean that evaluating it
gives a non-NULL value, and so drops the evaluation. The flag promises no NULL, not no error: for
`COUNT(IFNULL(a + 1, a))` over a `NOT NULL` column the aggregation fails where `a + 1` overflows,
while the projection returns `1`.
-/

namespace TinySql.Expression

/-- `expression.Zero`. -/
def zero : Constant :=
  ⟨some (.int64 0), newFieldType .tiny⟩

/-- `Args[0]`; the parser gives every aggregate function an argument. -/
def AggFuncDesc.arg0 (desc : AggFuncDesc) : Expression :=
  desc.args.headD (.constant zero)

end TinySql.Expression

namespace TinySql.Planner.Core

open TinySql.Expression TinySql.Lib

section Rewrite

variable (vars : SessionVars)

/-- `rewriteCount`: `if(isnull(x) or isnull(y) ..., 0, 1)`, with `0` for an argument typed
`NOT NULL`. -/
def rewriteCount (exprs : List Expression) : Expression :=
  let isNullExprs := exprs.map fun expr =>
    if Types.hasNotNullFlag expr.getType.flag then .constant zero
    else newFunction vars .isNull [expr]
  -- an aggregate function always has an argument, so the disjunction exists
  let innerExpr := (composeDNFCondition vars isNullExprs).getD (.constant zero)
  newFunction vars .«if» [innerExpr, .constant zero, .constant one]

/-- `rewriteExpr`. -/
def rewriteExpr (desc : AggFuncDesc) : Expression :=
  match desc.name with
  | .count => if desc.mode = .finalMode then desc.arg0 else rewriteCount vars desc.args
  | .sum | .avg | .firstRow | .max | .min => desc.arg0

/-- `tryToEliminateAggregation`: the projection of the rewritten functions, over the child, when
the group-by columns cover one of the child's keys. -/
def tryToEliminateAggregation (aggFuncs : List AggFuncDesc) (groupByItems : List Expression)
    (schema : Schema) (child : LogicalPlan) : Option LogicalPlan :=
  let schemaByGroupby := newSchema (groupByCols groupByItems)
  if child.schema.keys.any fun key => (schemaByGroupby.columnsIndices key).isSome then
    some (.projection (aggFuncs.map (rewriteExpr vars)) schema child)
  else none

/-- `aggregationEliminator.optimize`: children first, then the aggregation itself. -/
def aggregationEliminate : LogicalPlan → LogicalPlan
  | .dataSource ds => .dataSource ds
  | .tableDual rowCount schema => .tableDual rowCount schema
  | .selection conds child => .selection conds (aggregationEliminate child)
  | .projection exprs schema child => .projection exprs schema (aggregationEliminate child)
  | .aggregation aggFuncs groupByItems schema child =>
    let child := aggregationEliminate child
    (tryToEliminateAggregation vars aggFuncs groupByItems schema child).getD
      (.aggregation aggFuncs groupByItems schema child)
  | .join joinType eqConds leftConds rightConds otherConds schema left right =>
    .join joinType eqConds leftConds rightConds otherConds schema (aggregationEliminate left)
      (aggregationEliminate right)
  | .sort byItems child => .sort byItems (aggregationEliminate child)
  | .limit offset count child => .limit offset count (aggregationEliminate child)

end Rewrite

/-- A table `t (a BIGINT PRIMARY KEY)` read whole, its primary key the handle. -/
def pkColumn : Column :=
  ⟨1, 0, ⟨.longlong, Types.notNullFlag ||| priKeyFlag⟩⟩

def pkTable : DataSource :=
  ⟨0, [⟨0, Types.notNullFlag ||| priKeyFlag⟩], newSchema [pkColumn], [], true, some pkColumn⟩

/-- `SELECT COUNT(IFNULL(a + 1, a)) FROM t GROUP BY a`, keys built. -/
def countIfnullPlan : LogicalPlan :=
  LogicalPlan.buildKeyInfo <|
    .aggregation
      [newAggFuncDesc .count
        [newFunction defaultVars .ifnull
          [newFunction defaultVars .plus [.column pkColumn, intLiteral 1], .column pkColumn]]]
      [.column pkColumn] (newSchema [⟨2, 0, ⟨.longlong, Types.binaryFlag⟩⟩]) (.dataSource pkTable)

/-- On the row `a = MaxInt64` the aggregation fails with the overflow of `a + 1`; the projection
that replaces it returns `1`. -/
theorem aggregationEliminate_drops_count_error :
    countIfnullPlan.rows defaultVars (fun _ => [[⟨false, maxInt64⟩]]) =
        .error (.eval (.overflow "BIGINT" "(%s + %s)")) ∧
      (aggregationEliminate defaultVars countIfnullPlan).rows defaultVars
          (fun _ => [[⟨false, maxInt64⟩]]) = .ok [[⟨false, 1⟩]] := by
  decide

end TinySql.Planner.Core
