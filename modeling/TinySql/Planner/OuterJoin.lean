import TinySql.Expression.ConstantPropagation

/-!
# Outer joins: what the ON and WHERE conditions mean, and two rewrites of them

A left outer join keeps each outer row once for every inner row on which all the ON conditions are
TRUE, and pads an outer row that has none with a row of NULLs; a WHERE condition above it then keeps
the rows on which it is TRUE. This is the semantics the rewrites of `rule_predicate_push_down.go`
answer to.

`simplifyOuterJoin` turns an outer join into an inner join when some predicate above it is
null-rejected on the inner side (`isNullRejected`): `EvaluateExprWithNull` with the inner columns
NULL must fold the predicate to a NULL or false constant. `PropConstOverOuterJoin` moves conditions
from WHERE into ON. Each rewrite is sound only if the predicate it trusts is not TRUE on a
NULL-padded row, and the folding it rests on decides that for the strict builtins alone.
-/

namespace TinySql.Planner

open TinySql.Expression

/-- The three join types of `LogicalJoin`. -/
inductive JoinType
  | innerJoin
  | leftOuterJoin
  | rightOuterJoin
  deriving DecidableEq, Repr

/-- The plans `simplifyOuterJoin` looks at: joins, and any other plan by its schema. -/
inductive LogicalPlan
  | join (joinType : JoinType) (left right : LogicalPlan)
  | other (schema : Schema)
  deriving DecidableEq, Repr

def LogicalPlan.schema : LogicalPlan → Schema
  | .join _ left right => mergeSchema left.schema right.schema
  | .other schema => schema

section Rewrites

variable (vars : SessionVars)

/-- `isNullRejected`: `NOT` pushed down, then the schema's columns made NULL under
`InNullRejectCheck`; the predicate is rejected when that folds to a NULL or false constant. -/
def isNullRejected (schema : Schema) (expr : Expression) : Bool :=
  let expr := pushDownNot vars expr
  match evaluateExprWithNull { vars with inNullRejectCheck := true } schema expr with
  | .constant ⟨none, _⟩ => true
  | .constant ⟨some value, _⟩ =>
    match value.toBool strToIntErr with
    | (truth, none) => truth == 0
    | (_, some _) => false
  | _ => false

/-- `simplifyOuterJoin`: the joins directly below are simplified first; an outer join becomes an
inner join when some predicate is null-rejected on its inner side. -/
def simplifyOuterJoin (predicates : List Expression) : LogicalPlan → LogicalPlan
  | .join joinType left right =>
    let left' := simplifyOuterJoin predicates left
    let right' := simplifyOuterJoin predicates right
    match joinType with
    | .innerJoin => .join .innerJoin left' right'
    | .leftOuterJoin =>
      if predicates.any (isNullRejected vars right.schema) then .join .innerJoin left' right'
      else .join .leftOuterJoin left' right'
    | .rightOuterJoin =>
      if predicates.any (isNullRejected vars left.schema) then .join .innerJoin left' right'
      else .join .rightOuterJoin left' right'
  | .other schema => .other schema

end Rewrites

section Semantics

variable (vars : SessionVars)

/-- A row of NULLs for the inner side. -/
def nullRow (width : Nat) : Row :=
  List.replicate width ⟨true, 0⟩

/-- The inner rows joined to an outer row: those on which every ON condition is TRUE. -/
def joinedRows (onConds : List Expression) (outerRow : Row) : List Row → Except ExprError (List Row)
  | [] => .ok []
  | innerRow :: inner => do
    let (matched, _) ← CNFExprs.evalBool vars onConds (outerRow ++ innerRow)
    let rest ← joinedRows onConds outerRow inner
    return if matched then (outerRow ++ innerRow) :: rest else rest

/-- `O ⟕ I` on the ON conditions, the inner rows `innerWidth` wide. -/
def leftOuterJoin (onConds : List Expression) (inner : List Row) (innerWidth : Nat) :
    List Row → Except ExprError (List Row)
  | [] => .ok []
  | outerRow :: outer => do
    let matched ← joinedRows vars onConds outerRow inner
    let rest ← leftOuterJoin onConds inner innerWidth outer
    return (if matched.isEmpty then [outerRow ++ nullRow innerWidth] else matched) ++ rest

/-- `O ⋈ I` on the ON conditions. -/
def innerJoin (onConds : List Expression) (inner : List Row) : List Row → Except ExprError (List Row)
  | [] => .ok []
  | outerRow :: outer => do
    let matched ← joinedRows vars onConds outerRow inner
    let rest ← innerJoin onConds inner outer
    return matched ++ rest

/-- `σ`: the rows on which every condition is TRUE. -/
def selection (conds : List Expression) : List Row → Except ExprError (List Row)
  | [] => .ok []
  | row :: rows => do
    let (kept, _) ← CNFExprs.evalBool vars conds row
    let rest ← selection conds rows
    return if kept then row :: rest else rest

end Semantics

/-- An outer column `o.a` and an inner column `i.b`, both `BIGINT`. -/
def outerA : Column :=
  ⟨1, 0, ⟨.longlong, Types.binaryFlag⟩⟩

def innerB : Column :=
  ⟨2, 1, ⟨.longlong, Types.binaryFlag⟩⟩

/-- `o.a = i.b`. -/
def outerEqInner : Expression :=
  newFunction defaultVars .eq [.column outerA, .column innerB]

/-- `o.a > 5 OR ifnull(i.b, 0) = 0`: TRUE on the row padded with NULL for `i.b`. -/
def outerOrIfnull : Expression :=
  newFunction defaultVars .logicOr
    [newFunction defaultVars .gt [.column outerA, intLiteral 5],
      newFunction defaultVars .eq
        [newFunction defaultVars .ifnull [.column innerB, intLiteral 0], intLiteral 0]]

/-- With `O = {1}` and `I = {1}` the outer row matches and then fails the filter. The solver copies
the filter through `o.a = i.b` into the ON conditions as `i.b > 5 OR ifnull(i.b, 0) = 0`, the outer
row no longer matches, and its NULL-padded row passes the filter. -/
theorem propConstOverOuterJoin_adds_padded_row :
    (leftOuterJoin defaultVars [outerEqInner] [[⟨false, 1⟩]] 1 [[⟨false, 1⟩]] >>=
        selection defaultVars [outerOrIfnull]) = .ok [] ∧
      let conds := propConstOverOuterJoin defaultVars [outerEqInner] [outerOrIfnull]
        (newSchema [outerA]) (newSchema [innerB])
      (leftOuterJoin defaultVars conds.1 [[⟨false, 1⟩]] 1 [[⟨false, 1⟩]] >>=
          selection defaultVars conds.2) = .ok [[⟨false, 1⟩, ⟨true, 0⟩]] := by
  decide

/-- `o.a IN (i.b, 2)`. -/
def outerInInner : Expression :=
  newFunction defaultVars .«in» [.column outerA, .column innerB, intLiteral 2]

/-- The fold under `InNullRejectCheck` evaluates `1 IN (NULL, 2)`, which is NULL, so the predicate
counts as null-rejected on `i.b`; yet it is TRUE on the padded row `(2, NULL)`, and the outer join
that `simplifyOuterJoin` turns into an inner join loses that row. -/
theorem isNullRejected_accepts_in_true_on_null :
    isNullRejected defaultVars (newSchema [innerB]) outerInInner = true ∧
      CNFExprs.evalBool defaultVars [outerInInner] [⟨false, 2⟩, ⟨true, 0⟩] = .ok (true, false) ∧
      simplifyOuterJoin defaultVars [outerInInner]
          (.join .leftOuterJoin (.other (newSchema [outerA])) (.other (newSchema [innerB]))) =
        .join .innerJoin (.other (newSchema [outerA])) (.other (newSchema [innerB])) ∧
      (leftOuterJoin defaultVars [] [] 1 [[⟨false, 2⟩]] >>= selection defaultVars [outerInInner]) =
        .ok [[⟨false, 2⟩, ⟨true, 0⟩]] ∧
      (innerJoin defaultVars [] [] [[⟨false, 2⟩]] >>= selection defaultVars [outerInInner]) = .ok [] := by
  decide

end TinySql.Planner
