import TinySql.Expression.Rewrite

set_option linter.dupNamespace false

/-!
# Constant propagation

`PropagateConstant` (`constant_propagation.go`) rewrites a CNF list of conditions in three passes.
`propagateConstantEQ` picks the conditions `col = const`, records one constant per column in
`eqList` (two different constants, or a NULL one, make the whole list false) and substitutes the
constants for their columns in the other conditions, up to `MaxPropagateColsCnt` rounds.
`propagateColumnEQ` unions the columns of every `colA = colB` in a disjoint set and, for each pair
of columns of one class, appends every other condition with one column replaced by the other
(`tryToReplaceCond`, which leaves a condition under `IS NULL` alone). `propagateConstantDNF` runs
`PropagateConstant` again inside each item of a disjunction.

`PropConstOverOuterJoin` does the same over the ON conditions of an outer join and the WHERE
conditions above it, substituting only outer columns, only into ON conditions, and deriving ON
conditions through `outerCol = innerCol`, guarded by `innerCol IS NOT NULL`.

Every substitution rebuilds the functions above it with `NewFunctionInternal`, which chooses their
signatures again from the new arguments' types. The disjoint set is `util/disjointset`'s, whose
path compression leaves every root where it is and is left out. The DNF pass recurses on each
disjunct; the recursion is given the conditions' depth as fuel, as each level goes one function
deeper.
-/

namespace TinySql.Expression

/-- `disjointset.IntSet`: the parent of each element, a root being its own parent. -/
structure IntSet where
  parent : List Nat
  deriving DecidableEq, Repr

def newIntSet (size : Nat) : IntSet :=
  ⟨List.range size⟩

def IntSet.findRootAux (m : IntSet) : Nat → Nat → Nat
  | 0, a => a
  | fuel + 1, a => if m.parent.getD a a = a then a else m.findRootAux fuel (m.parent.getD a a)

/-- `FindRoot`: a forest over `n` elements is at most `n` parents deep. -/
def IntSet.findRoot (m : IntSet) (a : Nat) : Nat :=
  m.findRootAux m.parent.length a

def IntSet.union (m : IntSet) (a b : Nat) : IntSet :=
  ⟨m.parent.set (m.findRoot a) (m.findRoot b)⟩

/-- `MaxPropagateColsCnt`. -/
def maxPropagateColsCnt : Nat := 100

/-- The datum of `types` a constant's datum is. -/
def datumOf : Option Datum → Types.Datum
  | none => .null
  | some (.int64 v) => .int64 v
  | some (.uint64 v) => .uint64 v
  | some (.float64 f) => .float64 f.toBits
  | some (.bytes s) => .bytes s

/-- `Constant.Equal`: `CompareDatum` finds the two datums equal. -/
def Constant.equal (c y : Constant) : Bool :=
  Types.compareDatum (datumOf c.value) (datumOf y.value) == .eq

/-- `validEqualCond`: the column and the constant of `col = const` or `const = col`. -/
def validEqualCond : Expression → Option (Column × Constant)
  | .scalarFunction .eq _ _ [.column col, .constant con] => some (col, con)
  | .scalarFunction .eq _ _ [.constant con, .column col] => some (col, con)
  | _ => none

/-- `getColID`: the column's index in the order columns were inserted; a column never inserted
reads the map's zero value. -/
def getColID (columns : List Column) (col : Column) : Nat :=
  (columns.findIdx? (·.uniqueID == col.uniqueID)).getD 0

def insertCol (columns : List Column) (col : Column) : List Column :=
  if columns.any (·.uniqueID == col.uniqueID) then columns else columns ++ [col]

/-- The constant `setConds2ConstFalse` leaves, `types.NewDatum(false)`. -/
def falseConstant : Expression :=
  .constant ⟨some (.int64 0), newFieldType .tiny⟩

/-- `tryToUpdateEQList`: whether `eqList` took the constant for the column, whether the conditions
are forever false, and the new `eqList`. -/
def tryToUpdateEQList (columns : List Column) (eqList : List (Option Constant)) (col : Column)
    (con : Constant) : Bool × Bool × List (Option Constant) :=
  if con.value.isNone then (false, true, eqList)
  else
    let id := getColID columns col
    match eqList.getD id none with
    | some oldCon => (false, !oldCon.equal con, eqList)
    | none => (true, false, eqList.set id (some con))

section Solver

variable (vars : SessionVars)

/-- Whether a constant condition reads as false to `EvalBool`, or fails it (`none`). -/
def constantIsFalse (con : Constant) : Option Bool :=
  match CNFExprs.evalBool vars [.constant con] [] with
  | .error _ => none
  | .ok (value, _) => some !value

/-- `tryToReplaceCond`: whether a replacement of `src` by `tgt` happened, whether the condition
has a function that cannot be propagated through (`IS NULL`), and the rebuilt condition. -/
def tryToReplaceCond (src tgt : Column) : Expression → Bool × Bool × Expression
  | .scalarFunction funcName retType sig args =>
    if funcName = .isNull then (false, true, .scalarFunction funcName retType sig args)
    else
      match tryToReplaceArgs src tgt args with
      | none => (false, true, .scalarFunction funcName retType sig args)
      | some (true, newArgs) => (true, false, newFunction vars funcName newArgs)
      | some (false, _) => (false, false, .scalarFunction funcName retType sig args)
  | cond => (false, false, cond)
where
  /-- The loop over the arguments: `none` as soon as one cannot be propagated through. -/
  tryToReplaceArgs (src tgt : Column) : List Expression → Option (Bool × List Expression)
    | [] => some (false, [])
    | .column c :: args =>
      if c.uniqueID = src.uniqueID then
        (tryToReplaceArgs src tgt args).map fun rest => (true, .column tgt :: rest.2)
      else (tryToReplaceArgs src tgt args).map fun rest => (rest.1, .column c :: rest.2)
    | arg :: args =>
      match tryToReplaceCond src tgt arg with
      | (_, true, _) => none
      | (subReplaced, false, subExpr) =>
        (tryToReplaceArgs src tgt args).map fun rest => (subReplaced || rest.1, subExpr :: rest.2)

/-- `propagateConstantDNF`: every disjunction rebuilt from its disjuncts, each propagated on its
own. A disjunct's propagation is never empty, so the compositions exist. -/
def propagateConstantDNF (propagateConstant : List Expression → List Expression)
    (conds : List Expression) : List Expression :=
  conds.map fun cond =>
    match cond with
    | .scalarFunction .logicOr _ _ _ =>
      let dnfItems := (splitDNFItems cond).map fun item =>
        (composeCNFCondition vars (propagateConstant [item])).getD item
      (composeDNFCondition vars dnfItems).getD cond
    | _ => cond

/-- `propConstSolver`: the columns in insertion order, `eqList`, and the conditions. -/
structure PropConstSolver where
  columns : List Column
  eqList : List (Option Constant)
  conditions : List Expression

def PropConstSolver.setConds2ConstFalse (s : PropConstSolver) : PropConstSolver :=
  { s with conditions := [falseConstant] }

/-- The loop of `pickNewEQConds` over the conditions from index `i`: the solver, `visited`, and the
columns given constants this round, in the order met (the source's map, read in any order). -/
def PropConstSolver.pickNewEQCondsFrom (s : PropConstSolver) (visited : List Bool)
    (retMapper : List (Nat × Constant)) :
    List (Expression × Nat) → PropConstSolver × List Bool × List (Nat × Constant)
  | [] => (s, visited, retMapper)
  | (cond, i) :: rest =>
    if visited.getD i false then s.pickNewEQCondsFrom visited retMapper rest
    else
      match validEqualCond cond with
      | none =>
        match cond with
        | .constant con =>
          match constantIsFalse vars con with
          | none => (s, visited, [])
          | some true => (s.setConds2ConstFalse, visited, [])
          | some false => s.pickNewEQCondsFrom visited retMapper rest
        | _ => s.pickNewEQCondsFrom visited retMapper rest
      | some (col, con) =>
        let visited := visited.set i true
        match tryToUpdateEQList s.columns s.eqList col con with
        | (_, true, eqList) => ({ s with eqList }.setConds2ConstFalse, visited, [])
        | (updated, false, eqList) =>
          { s with eqList }.pickNewEQCondsFrom visited
            (if updated then retMapper ++ [(getColID s.columns col, con)] else retMapper) rest

def PropConstSolver.pickNewEQConds (s : PropConstSolver) (visited : List Bool) :
    PropConstSolver × List Bool × List (Nat × Constant) :=
  s.pickNewEQCondsFrom vars visited [] s.conditions.zipIdx

/-- The substitution of one round: each picked column's constant into every condition not yet
visited. -/
def substituteMapper (mapper : List (Nat × Constant)) (columns : List Column)
    (visited : List Bool) (conds : List Expression) (offset : Nat) : List Expression :=
  let cols := mapper.map fun entry => columns.getD entry.1 default
  let cons := mapper.map fun entry => Expression.constant entry.2
  conds.zipIdx.map fun (cond, i) =>
    if visited.getD (i + offset) false then cond else columnSubstitute vars cond (newSchema cols) cons

/-- The rounds of `propagateConstantEQ`, at most `MaxPropagateColsCnt`. -/
def PropConstSolver.propagateConstantEQRounds :
    Nat → PropConstSolver → List Bool → PropConstSolver
  | 0, s, _ => s
  | n + 1, s, visited =>
    match s.pickNewEQConds vars visited with
    | (s, _, []) => s
    | (s, visited, mapper) =>
      PropConstSolver.propagateConstantEQRounds n
        { s with conditions := substituteMapper vars mapper s.columns visited s.conditions 0 }
        visited

def PropConstSolver.propagateConstantEQ (s : PropConstSolver) : PropConstSolver :=
  PropConstSolver.propagateConstantEQRounds vars maxPropagateColsCnt
    { s with eqList := List.replicate s.columns.length none }
    (List.replicate s.conditions.length false)

/-- The classes `propagateColumnEQ` builds: every condition `colA = colB` unions the two columns
and is marked visited. -/
def unionColumnEQ (columns : List Column) (conditions : List Expression) : IntSet × List Bool :=
  conditions.zipIdx.foldl
    (fun acc entry =>
      match entry.1 with
      | .scalarFunction .eq _ _ [.column lCol, .column rCol] =>
        (acc.1.union (getColID columns lCol) (getColID columns rCol), acc.2.set entry.2 true)
      | _ => acc)
    (newIntSet columns.length, List.replicate conditions.length false)

/-- The pairs `(coli, colj)`, `i < j`, of columns in one class, in the source's loop order. -/
def equalPairs (columns : List Column) (unionSet : IntSet) : List (Column × Column) :=
  columns.zipIdx.flatMap fun (coli, i) =>
    (columns.zipIdx.filter fun entry => i < entry.2 ∧ unionSet.findRoot i = unionSet.findRoot entry.2)
      |>.map fun entry => (coli, entry.1)

/-- The replacement of one column by another when it happened. -/
def replaced (src tgt : Column) (cond : Expression) : List Expression :=
  match tryToReplaceCond vars src tgt cond with
  | (true, _, newExpr) => [newExpr]
  | _ => []

def PropConstSolver.propagateColumnEQ (s : PropConstSolver) : PropConstSolver :=
  let (unionSet, visited) := unionColumnEQ s.columns s.conditions
  let unvisited := (s.conditions.zipIdx.filter fun entry => !visited.getD entry.2 false).map (·.1)
  let derived := (equalPairs s.columns unionSet).flatMap fun (coli, colj) =>
    unvisited.flatMap fun cond => replaced vars coli colj cond ++ replaced vars colj coli cond
  { s with conditions := s.conditions ++ derived }

/-- `propConstSolver.solve`, with `fuel` bounding the DNF pass's recursion. -/
def solve : Nat → List Expression → List Expression
  | 0, conditions => conditions
  | fuel + 1, conditions =>
    let columns := (conditions.flatMap extractColumns).foldl insertCol []
    if columns.length > maxPropagateColsCnt then conditions
    else
      let s : PropConstSolver := ⟨columns, [], conditions.flatMap splitCNFItems⟩
      let s := (s.propagateConstantEQ vars).propagateColumnEQ vars
      propagateConstantDNF vars (solve fuel) s.conditions

/-- `PropagateConstant`. -/
def propagateConstant (conditions : List Expression) : List Expression :=
  solve vars ((conditions.map Expression.depth).foldr max 0 + 1) conditions

/-- A signed and an unsigned `BIGINT` column. -/
def signedColumn : Column :=
  ⟨1, 0, ⟨.longlong, Types.binaryFlag⟩⟩

def unsignedColumn : Column :=
  ⟨2, 1, ⟨.longlong, Types.binaryFlag ||| Types.unsignedFlag⟩⟩

/-- `a = b AND a - 10 < 0`, `a` signed and `b` unsigned. -/
def signedUnsignedConds : CNFExprs :=
  [newFunction defaultVars .eq [.column signedColumn, .column unsignedColumn],
    newFunction defaultVars .lt
      [newFunction defaultVars .minus [.column signedColumn, intLiteral 10], intLiteral 0]]

/-- The row `a = b = 5` satisfies the conditions. `propagateColumnEQ` adds `b - 10 < 0`, whose
`minus` is rebuilt unsigned for `b` and overflows, so the propagated conditions fail on it. -/
theorem propagateConstant_fails_on_satisfied_row :
    CNFExprs.evalBool defaultVars signedUnsignedConds [⟨false, 5⟩, ⟨false, 5⟩] = .ok (true, false) ∧
      CNFExprs.evalBool defaultVars (propagateConstant defaultVars signedUnsignedConds)
          [⟨false, 5⟩, ⟨false, 5⟩] =
        .error (.eval (.overflow "BIGINT UNSIGNED" "(%s - %s)")) := by
  decide

/-- `propOuterJoinConstSolver`. -/
structure PropOuterJoinConstSolver where
  columns : List Column
  eqList : List (Option Constant)
  joinConds : List Expression
  filterConds : List Expression
  outerSchema : Schema
  innerSchema : Schema

namespace PropOuterJoinConstSolver

def setConds2ConstFalse (s : PropOuterJoinConstSolver) (filterConds : Bool) :
    PropOuterJoinConstSolver :=
  { s with
    joinConds := [falseConstant]
    filterConds := if filterConds then [falseConstant] else s.filterConds }

/-- The loop of `pickEQCondsOnOuterCol`: `none` where the source returns `nil`. -/
def pickEQCondsOnOuterColFrom (s : PropOuterJoinConstSolver) (visited : List Bool)
    (retMapper : List (Nat × Constant)) (filterConds : Bool) (condsOffset : Nat) :
    List (Expression × Nat) → PropOuterJoinConstSolver × List Bool × Option (List (Nat × Constant))
  | [] => (s, visited, some retMapper)
  | (cond, i) :: rest =>
    if visited.getD (i + condsOffset) false then
      s.pickEQCondsOnOuterColFrom visited retMapper filterConds condsOffset rest
    else
      match validEqualCond cond with
      | none =>
        match cond with
        | .constant con =>
          match constantIsFalse vars con with
          | none => (s, visited, none)
          | some true => (s.setConds2ConstFalse filterConds, visited, none)
          | some false => s.pickEQCondsOnOuterColFrom visited retMapper filterConds condsOffset rest
        | _ => s.pickEQCondsOnOuterColFrom visited retMapper filterConds condsOffset rest
      | some (col, con) =>
        -- only `outerCol = const` is picked
        if !s.outerSchema.contains col then
          s.pickEQCondsOnOuterColFrom visited retMapper filterConds condsOffset rest
        else
          let visited := visited.set (i + condsOffset) true
          match tryToUpdateEQList s.columns s.eqList col con with
          | (_, true, eqList) => ({ s with eqList }.setConds2ConstFalse filterConds, visited, none)
          | (updated, false, eqList) =>
            { s with eqList }.pickEQCondsOnOuterColFrom visited
              (if updated then retMapper ++ [(getColID s.columns col, con)] else retMapper)
              filterConds condsOffset rest

def pickEQCondsOnOuterCol (s : PropOuterJoinConstSolver) (retMapper : List (Nat × Constant))
    (visited : List Bool) (filterConds : Bool) :
    PropOuterJoinConstSolver × List Bool × Option (List (Nat × Constant)) :=
  if filterConds then s.pickEQCondsOnOuterColFrom vars visited retMapper true 0 s.filterConds.zipIdx
  else
    s.pickEQCondsOnOuterColFrom vars visited retMapper false s.filterConds.length
      s.joinConds.zipIdx

def pickNewEQConds (s : PropOuterJoinConstSolver) (visited : List Bool) :
    PropOuterJoinConstSolver × List Bool × List (Nat × Constant) :=
  match s.pickEQCondsOnOuterCol vars [] visited true with
  | (s, visited, none) => (s, visited, [])
  | (s, visited, some retMapper) =>
    match s.pickEQCondsOnOuterCol vars retMapper visited false with
    | (s, visited, mapper) => (s, visited, mapper.getD [])

/-- The rounds of `propagateConstantEQ`: substitutions go into the ON conditions only. -/
def propagateConstantEQRounds (lenFilters : Nat) :
    Nat → PropOuterJoinConstSolver → List Bool → PropOuterJoinConstSolver
  | 0, s, _ => s
  | n + 1, s, visited =>
    match s.pickNewEQConds vars visited with
    | (s, _, []) => s
    | (s, visited, mapper) =>
      propagateConstantEQRounds lenFilters n
        { s with joinConds := substituteMapper vars mapper s.columns visited s.joinConds lenFilters }
        visited

def propagateConstantEQ (s : PropOuterJoinConstSolver) : PropOuterJoinConstSolver :=
  propagateConstantEQRounds vars s.filterConds.length maxPropagateColsCnt
    { s with eqList := List.replicate s.columns.length none }
    (List.replicate (s.filterConds.length + s.joinConds.length) false)

def colsFromOuterAndInner (s : PropOuterJoinConstSolver) (col1 col2 : Column) :
    Option (Column × Column) :=
  if s.outerSchema.contains col1 && s.innerSchema.contains col2 then some (col1, col2)
  else if s.outerSchema.contains col2 && s.innerSchema.contains col1 then some (col2, col1)
  else none

def validColEqualCond (s : PropOuterJoinConstSolver) : Expression → Option (Column × Column)
  | .scalarFunction .eq _ _ [.column lCol, .column rCol] => s.colsFromOuterAndInner lCol rCol
  | _ => none

/-- `deriveConds`: for each condition not visited, a condition over columns outside the join's
children is marked visited; the others have `outerCol` replaced by `innerCol`, appended to the ON
conditions. -/
def deriveConds (s : PropOuterJoinConstSolver) (outerCol innerCol : Column) (schema : Schema)
    (fCondsOffset : Nat) (visited : List Bool) (filterConds : Bool) :
    PropOuterJoinConstSolver × List Bool :=
  let conds := if filterConds then s.filterConds else s.joinConds.take fCondsOffset
  let offset := if filterConds then fCondsOffset else 0
  conds.zipIdx.foldl
    (fun acc entry =>
      if acc.2.getD (entry.2 + offset) false then acc
      else if !exprFromSchema schema entry.1 then (acc.1, acc.2.set (entry.2 + offset) true)
      else
        ({ acc.1 with joinConds := acc.1.joinConds ++ replaced vars outerCol innerCol entry.1 },
          acc.2))
    (s, visited)

/-- The first loop of `propagateColumnEQ` over the ON conditions present when it starts: each
`outerCol = innerCol` unions the two columns and, when the inner column may be NULL, appends
`innerCol IS NOT NULL`. -/
def unionOuterInnerEQ (s : PropOuterJoinConstSolver) (unionSet : IntSet) (visited : List Bool) :
    List (Expression × Nat) → PropOuterJoinConstSolver × IntSet × List Bool
  | [] => (s, unionSet, visited)
  | (cond, i) :: rest =>
    match s.validColEqualCond cond with
    | none => s.unionOuterInnerEQ unionSet visited rest
    | some (outerCol, innerCol) =>
      let unionSet := unionSet.union (getColID s.columns outerCol) (getColID s.columns innerCol)
      let visited := visited.set i true
      let childCol := (s.innerSchema.retrieveColumn innerCol).getD innerCol
      let s := if Types.hasNotNullFlag childCol.retType.flag then s
        else { s with joinConds := s.joinConds ++ [buildNotNullExpr vars (.column childCol)] }
      s.unionOuterInnerEQ unionSet visited rest

def propagateColumnEQ (s : PropOuterJoinConstSolver) : PropOuterJoinConstSolver :=
  let visited := List.replicate (2 * s.joinConds.length + s.filterConds.length) false
  let (s, unionSet, visited) :=
    s.unionOuterInnerEQ vars (newIntSet s.columns.length) visited s.joinConds.zipIdx
  let lenJoinConds := s.joinConds.length
  let mergedSchema := mergeSchema s.outerSchema s.innerSchema
  let (s, _) := (equalPairs s.columns unionSet).foldl
    (fun acc pair =>
      match acc.1.colsFromOuterAndInner pair.1 pair.2 with
      | none => acc
      | some (outerCol, innerCol) =>
        let acc := acc.1.deriveConds vars outerCol innerCol mergedSchema lenJoinConds acc.2 false
        acc.1.deriveConds vars outerCol innerCol mergedSchema lenJoinConds acc.2 true)
    (s, visited)
  s

def solve (s : PropOuterJoinConstSolver) (joinConds filterConds : List Expression) :
    List Expression × List Expression :=
  let columns := (joinConds.flatMap extractColumns ++ filterConds.flatMap extractColumns).foldl
    insertCol []
  if columns.length > maxPropagateColsCnt then (joinConds, filterConds)
  else
    let s := { s with
      columns
      joinConds := joinConds.flatMap splitCNFItems
      filterConds := filterConds.flatMap splitCNFItems }
    let s := (s.propagateConstantEQ vars).propagateColumnEQ vars
    (propagateConstantDNF vars (propagateConstant vars) s.joinConds,
      propagateConstantDNF vars (propagateConstant vars) s.filterConds)

end PropOuterJoinConstSolver

/-- `PropConstOverOuterJoin`: the new ON and WHERE conditions. -/
def propConstOverOuterJoin (joinConds filterConds : List Expression)
    (outerSchema innerSchema : Schema) : List Expression × List Expression :=
  PropOuterJoinConstSolver.solve vars ⟨[], [], [], [], outerSchema, innerSchema⟩ joinConds
    filterConds

end Solver

end TinySql.Expression
