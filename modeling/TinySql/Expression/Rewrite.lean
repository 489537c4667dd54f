import TinySql.Expression.Scalar

set_option linter.dupNamespace false

/-!
# Schemas and the expression rewrites

The tree walks the planner builds its rewrites from: `ColumnSubstitute` (`util.go`), which puts an
expression for each column of a schema and rebuilds every function above a substitution with
`NewFunctionInternal`, so that the function's signature is chosen again for the new arguments'
types; `PushDownNot`; `EvaluateExprWithNull` (`expression.go`), which puts a `TypeNull` NULL constant
for each column of a schema and rebuilds every function; the CNF and DNF splits and compositions;
and the column walks of `schema.go`.

Each walk recurses through the argument list with a companion function over `List Expression`, so
that recursion stays structural and the walks can be run. `composeConditionWithBinaryOp` halves its
list, and is given the list's length as fuel, which it never exhausts on a non-empty list.
-/

namespace TinySql.Expression

/-- `Schema`: its columns and its unique keys. -/
structure Schema where
  columns : List Column
  keys : List (List Column)
  deriving DecidableEq, Repr

def newSchema (cols : List Column) : Schema :=
  ⟨cols, []⟩

/-- `ColumnIndex`: the first column with the same unique ID. -/
def Schema.columnIndex (s : Schema) (col : Column) : Option Nat :=
  s.columns.findIdx? (·.uniqueID == col.uniqueID)

def Schema.contains (s : Schema) (col : Column) : Bool :=
  (s.columnIndex col).isSome

def Schema.retrieveColumn (s : Schema) (col : Column) : Option Column :=
  (s.columnIndex col).bind (s.columns[·]?)

def mergeSchema (lSchema rSchema : Schema) : Schema :=
  newSchema (lSchema.columns ++ rSchema.columns)

section Walks

variable (vars : SessionVars)

mutual

/-- `ColumnSubstituteImpl`: whether a column of the schema was met, and the expression with each
such column replaced by its expression. -/
def columnSubstituteImpl (schema : Schema) (newExprs : List Expression) :
    Expression → Bool × Expression
  | .column v =>
    match schema.columnIndex v with
    | none => (false, .column v)
    -- `newExprs` has one expression for each column of the schema
    | some id => (true, newExprs.getD id (.column v))
  | .scalarFunction funcName retType sig args =>
    let substituted := columnSubstituteArgs schema newExprs args
    if substituted.1 then (true, newFunction vars funcName substituted.2)
    else (false, .scalarFunction funcName retType sig args)
  | .constant con => (false, .constant con)

def columnSubstituteArgs (schema : Schema) (newExprs : List Expression) :
    List Expression → Bool × List Expression
  | [] => (false, [])
  | arg :: args =>
    let head := columnSubstituteImpl schema newExprs arg
    let tail := columnSubstituteArgs schema newExprs args
    (head.1 || tail.1, head.2 :: tail.2)

end

def columnSubstitute (expr : Expression) (schema : Schema) (newExprs : List Expression) :
    Expression :=
  (columnSubstituteImpl vars schema newExprs expr).2

/-- `oppositeOp`, on the functions it has an entry for. -/
def FuncName.opposite : FuncName → FuncName
  | .lt => .ge
  | .ge => .lt
  | .gt => .le
  | .le => .gt
  | .eq => .ne
  | .ne => .eq
  | .logicOr => .logicAnd
  | .logicAnd => .logicOr
  | f => f

def FuncName.isComparison : FuncName → Bool
  | .lt | .ge | .gt | .le | .eq | .ne => true
  | _ => false

mutual

/-- `pushNotAcrossExpr`: the expression with a pending `NOT` (`not`) pushed through `NOT`, the
comparisons, `AND` and `OR`, and whether anything changed. -/
def pushNotAcrossExpr : Expression → Bool → Expression × Bool
  | .scalarFunction .unaryNot _ _ [arg], not => pushNotAcrossExpr arg (!not)
  | .scalarFunction funcName retType sig args, not =>
    if funcName.isComparison then
      if not then (newFunction vars funcName.opposite args, true)
      else
        let pushed := pushNotAcrossArgs args false
        if !pushed.2 then (.scalarFunction funcName retType sig args, false)
        else (newFunction vars funcName pushed.1, true)
    else if funcName = .logicAnd ∨ funcName = .logicOr then
      if not then (newFunction vars funcName.opposite (pushNotAcrossArgs args true).1, true)
      else
        let pushed := pushNotAcrossArgs args false
        if !pushed.2 then (.scalarFunction funcName retType sig args, false)
        else (newFunction vars funcName pushed.1, true)
    else if not then (newFunction vars .unaryNot [.scalarFunction funcName retType sig args], true)
    else (.scalarFunction funcName retType sig args, false)
  | expr, not => if not then (newFunction vars .unaryNot [expr], true) else (expr, false)

def pushNotAcrossArgs : List Expression → Bool → List Expression × Bool
  | [], _ => ([], false)
  | expr :: exprs, not =>
    let head := pushNotAcrossExpr expr not
    let tail := pushNotAcrossArgs exprs not
    (head.1 :: tail.1, head.2 || tail.2)

end

def pushDownNot (expr : Expression) : Expression :=
  (pushNotAcrossExpr vars expr false).1

mutual

/-- `EvaluateExprWithNull`. -/
def evaluateExprWithNull (schema : Schema) : Expression → Expression
  | .scalarFunction funcName _ _ args =>
    newFunction vars funcName (evaluateArgsWithNull schema args)
  | .column x =>
    if schema.contains x then .constant ⟨none, newFieldType .null⟩ else .column x
  | .constant con => .constant con

def evaluateArgsWithNull (schema : Schema) : List Expression → List Expression
  | [] => []
  | arg :: args => evaluateExprWithNull schema arg :: evaluateArgsWithNull schema args

end

/-- `BuildNotNullExpr`. -/
def buildNotNullExpr (expr : Expression) : Expression :=
  newFunction vars .unaryNot [newFunction vars .isNull [expr]]

/-- `composeConditionWithBinaryOp`, halving its list as the source does; `none` for no
conditions, where the source returns `nil`. -/
def composeConditionWithBinaryOp (funcName : FuncName) : Nat → List Expression → Option Expression
  | _, [] => none
  | _, [cond] => some cond
  | 0, _ :: _ :: _ => none
  | fuel + 1, conditions@(_ :: _ :: _) => do
    let lhs ← composeConditionWithBinaryOp funcName fuel (conditions.take (conditions.length / 2))
    let rhs ← composeConditionWithBinaryOp funcName fuel (conditions.drop (conditions.length / 2))
    return newFunction vars funcName [lhs, rhs]

def composeCNFCondition (conditions : List Expression) : Option Expression :=
  composeConditionWithBinaryOp vars .logicAnd conditions.length conditions

def composeDNFCondition (conditions : List Expression) : Option Expression :=
  composeConditionWithBinaryOp vars .logicOr conditions.length conditions

end Walks

mutual

def splitNormalFormItems (funcName : FuncName) : Expression → List Expression
  | .scalarFunction f retType sig args =>
    if f = funcName then splitNormalFormArgs funcName args
    else [.scalarFunction f retType sig args]
  | expr => [expr]

def splitNormalFormArgs (funcName : FuncName) : List Expression → List Expression
  | [] => []
  | arg :: args => splitNormalFormItems funcName arg ++ splitNormalFormArgs funcName args

end

def splitCNFItems (onExpr : Expression) : List Expression :=
  splitNormalFormItems .logicAnd onExpr

def splitDNFItems (onExpr : Expression) : List Expression :=
  splitNormalFormItems .logicOr onExpr

mutual

/-- `ExtractColumns`: the columns in the order the tree meets them. -/
def extractColumns : Expression → List Column
  | .column col => [col]
  | .scalarFunction _ _ _ args => extractArgsColumns args
  | .constant _ => []

def extractArgsColumns : List Expression → List Column
  | [] => []
  | arg :: args => extractColumns arg ++ extractArgsColumns args

end

mutual

def exprFromSchema (schema : Schema) : Expression → Bool
  | .column v => schema.contains v
  | .scalarFunction _ _ _ args => argsFromSchema schema args
  | .constant _ => true

def argsFromSchema (schema : Schema) : List Expression → Bool
  | [] => true
  | arg :: args => exprFromSchema schema arg && argsFromSchema schema args

end

mutual

/-- How deep the functions of an expression nest. -/
def Expression.depth : Expression → Nat
  | .scalarFunction _ _ _ args => Expression.argsDepth args + 1
  | _ => 0

def Expression.argsDepth : List Expression → Nat
  | [] => 0
  | arg :: args => max arg.depth (Expression.argsDepth args)

end

end TinySql.Expression
