import TinySql.Expression.BuiltinInt
import TinySql.Lib.ExceptList
import TinySql.Lib.Slices

/-!
# The filter of a CNF expression list

`EvalBool` decides one row: it evaluates the expressions in order and stops at the first error,
NULL or zero. `VecEvalBool` decides a chunk: it clears the selection vector, then narrows a vector
of all the rows expression by expression, evaluating each expression only on the rows still
selected, and reads each result's truth with `toBool`, one loop per evaluation type. An expression
is seen through what the filter uses of it: its evaluation type, the unsigned flag of an integer
result, and its row-level `EvalInt`, `EvalReal` or `EvalString`. Its vectorized evaluation on the
selected rows is taken to be those rows' results in order, failing at the first that fails: the
agreement `VecAgreement.lean` studies for the integer builtins.

Both evaluators read a row the same way (`Expr.isZeroAt`): `VecEvalBool` selects a row when every
expression is non-NULL and non-zero on it (`vecEvalBool_selected`), and that is when `EvalBool` is
true (`evalBool_ok`), so the two agree on every row where both succeed (`vecEvalBool_agrees`).
They fail differently. An integer NULL keeps its row in the selection vector, so the expressions
after it are still evaluated there and an error there fails the whole chunk, where `EvalBool`
stopped at the NULL; and `toBool` keeps only the last string row's `StrToInt` error
(`stringToBool_snd_append_some`), so an earlier row whose conversion fails is selected with no
error.
-/

namespace TinySql.Expression

open TinySql.Lib

/-- `types.EvalType`: tinysql evaluates an expression as an integer, a real or a string. -/
inductive EvalType
  | int
  | real
  | string
  deriving DecidableEq, Repr

/-- What `EvalInt`, `EvalReal` and `EvalString` return; a string is its bytes. -/
@[reducible] def EvalType.Slot : EvalType → Type
  | .int => Int64
  | .real => Float
  | .string => List (Fin 256)

/-- The kinds of `types.Datum` that `Eval` makes of a non-NULL result: `KindInt64`, or
`KindUint64` for an unsigned integer, `KindFloat64`, and `KindString`. -/
inductive Datum
  | int64 (v : Int64)
  | uint64 (v : UInt64)
  | float64 (f : Float)
  | bytes (b : List (Fin 256))

/-- `types.RoundFloat`: rounds half away from zero. -/
def roundFloat (f : Float) : Float :=
  if f.abs < 0.5 then 0
  else
    -- `math.Trunc(f + math.Copysign(0.5, f))`; a NaN stays a NaN whatever the sign of the half
    let g := f + (if f < 0 then -0.5 else 0.5)
    if g < 0 then g.ceil else g.floor

/-- An entry of `isZero`: `-1` for a NULL row, `0` for a zero, `1` for any other value. -/
inductive IsZero
  | null
  | zero
  | nonZero
  deriving DecidableEq, Repr

/-- The datum `ScalarFunction.Eval` makes of a non-NULL result. -/
def EvalType.toDatum : (eType : EvalType) → Bool → eType.Slot → Datum
  | .int, unsigned, v => if unsigned then .uint64 v.toUInt64 else .int64 v
  | .real, _, f => .float64 f
  | .string, _, s => .bytes s

/-- An `Expression` as the filter uses it. -/
structure Expr (Row ε : Type) where
  evalType : EvalType
  /-- `mysql.UnsignedFlag` of the return type, which `Eval` reads for an integer. -/
  unsigned : Bool
  /-- `EvalInt`, `EvalReal` or `EvalString` by the evaluation type, `none` for NULL. -/
  evalSlot : Row → Except ε (Option evalType.Slot)

/-- The input chunk: its rows and its selection vector, `none` when every row is selected. -/
structure InputChunk (Row : Type) where
  rows : List Row
  sel : Option (List Nat)

section Row

variable {Row ε : Type}
-- `types.StrToInt` under the statement context: the integer of a string and its error
variable (strToInt : List (Fin 256) → Int64 × Option ε)

/-- `Datum.ToBool`: `0` for a zero and `1` otherwise, with the error of `StrToInt` for a string. -/
def Datum.toBool : Datum → Int64 × Option ε
  | .int64 v => (if v == 0 then 0 else 1, none)
  | .uint64 v => (if v == 0 then 0 else 1, none)
  | .float64 f => (if roundFloat f == 0 then 0 else 1, none)
  | .bytes s =>
    let (iVal, err1) := strToInt s
    (if iVal == 0 then 0 else 1, err1)

/-- `Eval`: the datum of the result, `none` for `KindNull`. -/
def Expr.eval (expr : Expr Row ε) (row : Row) : Except ε (Option Datum) :=
  (expr.evalSlot row).map (Option.map (expr.evalType.toDatum expr.unsigned))

/-- `EvalBool`: whether every expression of the list is true on the row, stopping at the first
error, NULL or zero. The second result, that the list is NULL, is never set. -/
def evalBool : List (Expr Row ε) → Row → Except ε (Bool × Bool)
  | [], _ => .ok (true, false)
  | expr :: exprList, row => do
    let data ← expr.eval row
    match data with
    | none => .ok (false, false)
    | some d =>
      match d.toBool strToInt with
      | (_, some err) => .error err
      | (i, none) => if i == 0 then .ok (false, false) else evalBool exprList row

/-- `toBool`'s loop over a string result: every non-NULL row replaces `err` with the error of its
`StrToInt`. -/
def stringToBool : List (Option (List (Fin 256))) → Option ε → List IsZero × Option ε
  | [], err => ([], err)
  | none :: buf, err =>
    let rest := stringToBool buf err
    (.null :: rest.1, rest.2)
  | some s :: buf, _ =>
    let (iVal, err1) := strToInt s
    let rest := stringToBool buf err1
    ((if iVal == 0 then .zero else .nonZero) :: rest.1, rest.2)

/-- `toBool`: the `isZero` entry of each row of a result, by the evaluation type, and the error of
the string conversions. -/
def toBool : (eType : EvalType) → List (Option eType.Slot) → List IsZero × Option ε
  | .int, buf =>
    (buf.map fun | none => .null | some v => if v == 0 then .zero else .nonZero, none)
  | .real, buf =>
    (buf.map fun | none => .null | some f => if roundFloat f == 0 then .zero else .nonZero, none)
  | .string, buf => stringToBool strToInt buf none

end Row

/-- The loop of `VecEvalBool` that keeps the rows passing one expression, `sel[j] = sel[i]` for
each row `i` kept: a zero is dropped, and so is a NULL unless the expression is an integer, whose
NULL row stays selected and is marked in `nulls`. -/
def narrowSel (isInt : Bool) : List Nat → List IsZero → List Bool → List Nat × List Bool
  | i :: sel, z :: isZero, nulls =>
    match z with
    | .null =>
      if isInt then
        let rest := narrowSel isInt sel isZero (nulls.set i true)
        (i :: rest.1, rest.2)
      else narrowSel isInt sel isZero nulls
    | .zero => narrowSel isInt sel isZero nulls
    | .nonZero =>
      let rest := narrowSel isInt sel isZero nulls
      (i :: rest.1, rest.2)
  | _, _, nulls => ([], nulls)

/-- The last loop of `VecEvalBool`: `selected[i] = true` for each row `i` left in `sel` that is not
marked NULL. -/
def markSelected (sel : List Nat) (nulls selected : List Bool) : List Bool :=
  sel.foldl (fun selected i => if !nulls.getD i false then selected.set i true else selected)
    selected

section Chunk

variable {Row ε : Type} [Inhabited Row] (strToInt : List (Fin 256) → Int64 × Option ε)

/-- The rows `VecEval` evaluates on: the selected ones, in the order of the selection vector. -/
def InputChunk.selectedRows (input : InputChunk Row) : List Row :=
  match input.sel with
  | none => input.rows
  | some sel => sel.map fun i => input.rows.getD i default

/-- `VecEval`: the expression's result on each selected row, failing at the first row that fails. -/
def vecEval (expr : Expr Row ε) (input : InputChunk Row) :
    Except ε (List (Option expr.evalType.Slot)) :=
  input.selectedRows.mapM expr.evalSlot

/-- The loop of `VecEvalBool` over the expressions, with the selection vector `sel` set on the
chunk of `rows` and the NULL marks `nulls`. -/
def vecEvalBoolLoop (rows : List Row) :
    List (Expr Row ε) → List Nat → List Bool → Except ε (List Nat × List Bool)
  | [], sel, nulls => .ok (sel, nulls)
  | expr :: exprList, sel, nulls =>
    match vecEval expr ⟨rows, some sel⟩ with
    | .error err => .error err
    | .ok buf =>
      match toBool strToInt expr.evalType buf with
      | (_, some err) => .error err
      | (isZero, none) =>
        let (sel', nulls') := narrowSel (expr.evalType == .int) sel isZero nulls
        vecEvalBoolLoop rows exprList sel' nulls'

/-- `VecEvalBool`: the rows selected by the expression list and the rows marked NULL, with the
chunk as it is left. The selection vector is cleared, so the expressions run on every physical
row, and the deferred `input.SetSel(input.Sel())`, whose argument is read when the `defer` runs,
puts the original vector back on every return. -/
def vecEvalBool (exprList : List (Expr Row ε)) (input : InputChunk Row) :
    Except ε (List Bool × List Bool) × InputChunk Row :=
  let saved := input.sel
  let n := input.rows.length
  let result := (vecEvalBoolLoop strToInt input.rows exprList (List.range n)
      (List.replicate n false)).map fun (sel, nulls) =>
    (markSelected sel nulls (List.replicate n false), nulls)
  (result, { input with sel := saved })

end Chunk

/-! ### How both evaluators read a row -/

section Reading

variable {Row ε : Type} (strToInt : List (Fin 256) → Int64 × Option ε)

/-- The entry of `isZero` that `toBool` gives one result. -/
def isZeroOf : (eType : EvalType) → Option eType.Slot → IsZero
  | _, none => .null
  | .int, some v => if v == 0 then .zero else .nonZero
  | .real, some f => if roundFloat f == 0 then .zero else .nonZero
  | .string, some s => if (strToInt s).1 == 0 then .zero else .nonZero

/-- The error of converting one result: only a string's `StrToInt` can fail. -/
def slotError : (eType : EvalType) → Option eType.Slot → Option ε
  | .string, some s => (strToInt s).2
  | _, _ => none

/-- What an expression says about a row, read as a zero when its evaluation fails. -/
def Expr.isZeroAt (expr : Expr Row ε) (row : Row) : IsZero :=
  match expr.evalSlot row with
  | .ok v => isZeroOf strToInt expr.evalType v
  | .error _ => .zero

end Reading

/-- Whether `narrowSel` keeps a row with this entry. -/
def IsZero.keeps (isInt : Bool) : IsZero → Bool
  | .null => isInt
  | .zero => false
  | .nonZero => true

/-! ### Narrowing the selection vector -/

theorem length_narrowSel (isInt : Bool) (sel : List Nat) (isZero : List IsZero)
    (nulls : List Bool) : (narrowSel isInt sel isZero nulls).2.length = nulls.length := by
  induction sel generalizing isZero nulls with
  | nil => rfl
  | cons i sel ih =>
    cases isZero with
    | nil => rfl
    | cons z isZero =>
      cases z <;> cases isInt <;>
        simp only [narrowSel, Bool.false_eq_true, ↓reduceIte, ih, List.length_set]

theorem narrowSel_fst (isInt : Bool) (z : Nat → IsZero) (sel : List Nat) (nulls : List Bool) :
    (narrowSel isInt sel (sel.map z) nulls).1 = sel.filter fun i => (z i).keeps isInt := by
  induction sel generalizing nulls with
  | nil => rfl
  | cons i sel ih =>
    cases hz : z i <;> cases isInt <;>
      simp only [List.map_cons, hz, narrowSel, Bool.false_eq_true, ↓reduceIte, ih, IsZero.keeps,
        not_false_eq_true, List.filter_cons_of_neg, List.filter_cons_of_pos]

theorem narrowSel_snd (isInt : Bool) (z : Nat → IsZero) (sel : List Nat) (nulls : List Bool)
    (r : Nat) (hr : r < nulls.length) :
    (narrowSel isInt sel (sel.map z) nulls).2.getD r false =
      (nulls.getD r false || (isInt && decide (z r = .null ∧ r ∈ sel))) := by
  induction sel generalizing nulls with
  | nil => simp [narrowSel]
  | cons i sel ih =>
    have hset : r < (nulls.set i true).length := by rw [List.length_set]; exact hr
    cases hz : z i <;> cases isInt <;>
      simp only [narrowSel, List.map_cons, hz, if_true, if_false, Bool.false_eq_true]
    case null.true =>
      -- the one row marked here: `nulls[i]` is set
      rw [ih _ hset, getD_set]
      by_cases h : r = i
      · subst h
        simp [hz, hr]
      · simp [h, Ne.symm h]
    all_goals
      rw [ih _ hr]
      by_cases h : r = i
      · subst h
        simp [hz]
      · simp [h]

theorem mem_narrowSel (isInt : Bool) (sel : List Nat) (isZero : List IsZero) (nulls : List Bool)
    {r : Nat} (hr : r ∈ (narrowSel isInt sel isZero nulls).1) : r ∈ sel := by
  induction sel generalizing isZero nulls with
  | nil => simp [narrowSel] at hr
  | cons i sel ih =>
    cases isZero with
    | nil => simp [narrowSel] at hr
    | cons z isZero =>
      cases z <;> cases isInt <;> simp only [narrowSel, if_true, if_false, Bool.false_eq_true,
        List.mem_cons] at hr ⊢
      all_goals
        first
        | exact .inr (ih _ _ hr)
        | rcases hr with rfl | hr
          · exact .inl rfl
          · exact .inr (ih _ _ hr)

theorem markSelected_getD (sel : List Nat) (nulls selected : List Bool) (r : Nat)
    (hr : r < selected.length) :
    (markSelected sel nulls selected).getD r false =
      (selected.getD r false || decide (r ∈ sel) && !nulls.getD r false) := by
  induction sel generalizing selected with
  | nil => simp [markSelected]
  | cons i sel ih =>
    -- one more step of the loop: row `i` is marked unless it is NULL
    have hstep : markSelected (i :: sel) nulls selected =
        markSelected sel nulls (if !nulls.getD i false then selected.set i true else selected) :=
      rfl
    rw [hstep]
    by_cases hnull : nulls.getD i false = true
    · rw [if_neg (by rw [hnull]; decide), ih _ hr]
      by_cases h : r = i
      · subst h
        rw [hnull]
        simp
      · simp [h]
    · have hlen : r < (selected.set i true).length := by rw [List.length_set]; exact hr
      rw [if_pos (by simpa using hnull), ih _ hlen, getD_set]
      by_cases h : r = i
      · subst h
        rw [Bool.eq_false_iff.mpr hnull]
        simp [hr]
      · simp [h, Ne.symm h]

/-! ### The runs -/

section Runs

variable {Row ε : Type} (strToInt : List (Fin 256) → Int64 × Option ε)

theorem stringToBool_fst (buf : List (Option (List (Fin 256)))) (err : Option ε) :
    (stringToBool strToInt buf err).1 = buf.map (isZeroOf strToInt .string) := by
  induction buf generalizing err with
  | nil => rfl
  | cons v buf ih =>
    cases v with
    | none => simp [stringToBool, ih, isZeroOf]
    | some s => simp [stringToBool, ih, isZeroOf]

theorem toBool_fst (eType : EvalType) (buf : List (Option eType.Slot)) :
    (toBool strToInt eType buf).1 = buf.map (isZeroOf strToInt eType) := by
  cases eType with
  | string => exact stringToBool_fst strToInt buf none
  | int =>
    apply List.map_congr_left
    intro v _
    cases v <;> rfl
  | real =>
    apply List.map_congr_left
    intro v _
    cases v <;> rfl

theorem stringToBool_snd_eq_none (buf : List (Option (List (Fin 256))))
    (hbuf : ∀ v ∈ buf, slotError strToInt .string v = none) :
    (stringToBool strToInt buf none).2 = none := by
  induction buf with
  | nil => rfl
  | cons v buf ih =>
    have hrest := ih fun v hv => hbuf v (List.mem_cons_of_mem _ hv)
    cases v with
    | none => simpa [stringToBool] using hrest
    | some s =>
      -- the row's own error, none, is the one the rest of the rows start from
      have hs : (strToInt s).2 = none := hbuf (some s) List.mem_cons_self
      rcases hstr : strToInt s with ⟨iVal, err1⟩
      simp only [hstr] at hs
      subst hs
      simpa [stringToBool, hstr] using hrest

theorem toBool_snd_eq_none (eType : EvalType) (buf : List (Option eType.Slot))
    (hbuf : ∀ v ∈ buf, slotError strToInt eType v = none) : (toBool strToInt eType buf).2 = none := by
  cases eType with
  | string => exact stringToBool_snd_eq_none strToInt buf hbuf
  | int => rfl
  | real => rfl

theorem isZeroOf_some_ne_null (eType : EvalType) (v : eType.Slot) :
    isZeroOf strToInt eType (some v) ≠ .null := by
  cases eType <;> simp only [isZeroOf] <;> split <;> simp

theorem toBool_toDatum (eType : EvalType) (unsigned : Bool) (v : eType.Slot) :
    (eType.toDatum unsigned v).toBool strToInt =
      (if isZeroOf strToInt eType (some v) = .zero then 0 else 1, slotError strToInt eType (some v)) := by
  cases eType with
  | int =>
    cases unsigned
    · by_cases hv : v = 0 <;>
        simp only [Datum.toBool, EvalType.toDatum, Bool.false_eq_true, ↓reduceIte, beq_iff_eq,
          BEq.rfl, hv, isZeroOf, reduceCtorEq, slotError]
    · -- the unsigned datum holds the same bits
      by_cases hv : v = 0 <;>
        simp only [Datum.toBool, EvalType.toDatum, ↓reduceIte, hv, beq_iff_eq,
          toUInt64_eq_zero_iff, isZeroOf, BEq.rfl, reduceCtorEq, slotError]
  | real =>
    by_cases hv : roundFloat v == 0 <;>
      simp only [Datum.toBool, EvalType.toDatum, hv, Bool.false_eq_true, ↓reduceIte, isZeroOf,
        reduceCtorEq, slotError]
  | string =>
    rcases hs : strToInt v with ⟨iVal, err1⟩
    by_cases hv : iVal = 0 <;>
      simp only [Datum.toBool, EvalType.toDatum, hs, beq_iff_eq, BEq.rfl, hv, ↓reduceIte,
        isZeroOf, reduceCtorEq, slotError]

/-- `EvalBool` is true on a row exactly when every expression is non-NULL and non-zero on it; it
never reports the list NULL. -/
theorem evalBool_ok (exprList : List (Expr Row ε)) (row : Row) {b isNull : Bool}
    (h : evalBool strToInt exprList row = .ok (b, isNull)) :
    isNull = false ∧ b = exprList.all fun expr => decide (expr.isZeroAt strToInt row = .nonZero) := by
  induction exprList with
  | nil =>
    cases h
    exact ⟨rfl, rfl⟩
  | cons expr exprList ih =>
    simp only [evalBool] at h
    obtain ⟨data, hdata, hrest⟩ := bind_eq_ok h
    cases hs : expr.evalSlot row with
    | error err => simp [Expr.eval, hs, Except.map] at hdata
    | ok v =>
      have hv : data = v.map (expr.evalType.toDatum expr.unsigned) := by
        simpa [Expr.eval, hs, Except.map] using hdata.symm
      subst hv
      cases v with
      | none =>
        cases hrest
        simp [Expr.isZeroAt, hs, isZeroOf]
      | some x =>
        simp only [Option.map_some, toBool_toDatum] at hrest
        cases herr : slotError strToInt expr.evalType (some x) with
        | some err => simp [herr] at hrest
        | none =>
          by_cases hz : isZeroOf strToInt expr.evalType (some x) = .zero
          · -- a zero stops the loop
            simp only [herr, hz, if_true] at hrest
            cases hrest
            simp [Expr.isZeroAt, hs, hz]
          · -- a non-zero goes on to the rest of the list
            have hnz : isZeroOf strToInt expr.evalType (some x) = .nonZero := by
              have := isZeroOf_some_ne_null strToInt expr.evalType x
              cases hx : isZeroOf strToInt expr.evalType (some x) <;> simp_all
            simp only [herr, hz, if_false] at hrest
            obtain ⟨hnull, hb⟩ := ih (by simpa using hrest)
            refine ⟨hnull, ?_⟩
            rw [List.all_cons, ← hb]
            simp [Expr.isZeroAt, hs, hnz]

/-- A row kept by every expression and NULL for none is one every expression says is non-zero. -/
theorem all_keeps_and_not_any_null (exprList : List (Expr Row ε)) (z : Expr Row ε → IsZero) :
    ((exprList.all fun expr => (z expr).keeps (expr.evalType == .int)) &&
      !exprList.any fun expr => decide (z expr = .null)) =
      exprList.all fun expr => decide (z expr = .nonZero) := by
  induction exprList with
  | nil => rfl
  | cons expr exprList ih =>
    rw [List.all_cons, List.any_cons, List.all_cons, ← ih]
    cases z expr <;> cases expr.evalType == .int <;> simp [IsZero.keeps]

variable [Inhabited Row]

/-- `VecEval` on the chunk of `rows` with selection vector `sel`: the entries `toBool` gives are
each selected row's. -/
theorem isZero_vecEval (expr : Expr Row ε) (rows : List Row) (sel : List Nat)
    (buf : List (Option expr.evalType.Slot)) (h : vecEval expr ⟨rows, some sel⟩ = .ok buf) :
    buf.map (isZeroOf strToInt expr.evalType) =
      sel.map fun r => expr.isZeroAt strToInt (rows.getD r default) := by
  have hmap := mapM_ok_map h (isZeroOf strToInt expr.evalType) (expr.isZeroAt strToInt)
    fun row v hv => by simp [Expr.isZeroAt, hv]
  rw [hmap]
  simp only [InputChunk.selectedRows, List.map_map]
  rfl

/-- A run of the loop over the expressions: the rows left are those every expression keeps, and a
row left is marked NULL when it was or some expression is NULL on it. -/
theorem vecEvalBoolLoop_ok (rows : List Row) (exprList : List (Expr Row ε)) (sel : List Nat)
    (nulls : List Bool) {sel' : List Nat} {nulls' : List Bool}
    (h : vecEvalBoolLoop strToInt rows exprList sel nulls = .ok (sel', nulls'))
    (hsel : ∀ r ∈ sel, r < nulls.length) :
    sel' = sel.filter (fun r => exprList.all fun expr =>
      (expr.isZeroAt strToInt (rows.getD r default)).keeps (expr.evalType == .int)) ∧
    ∀ r ∈ sel', nulls'.getD r false = (nulls.getD r false ||
      exprList.any fun expr => decide (expr.isZeroAt strToInt (rows.getD r default) = .null)) := by
  induction exprList generalizing sel nulls with
  | nil =>
    cases h
    simp
  | cons expr exprList ih =>
    -- one expression: evaluate on the selected rows, convert, narrow
    simp only [vecEvalBoolLoop] at h
    cases hv : vecEval expr ⟨rows, some sel⟩ with
    | error err =>
      rw [hv] at h
      cases h
    | ok buf =>
      rw [hv] at h
      dsimp only at h
      rcases ht : toBool strToInt expr.evalType buf with ⟨isZero, _ | err⟩
      · rw [ht] at h
        simp only at h
        have hz : isZero = sel.map fun r => expr.isZeroAt strToInt (rows.getD r default) := by
          rw [← isZero_vecEval strToInt expr rows sel buf hv, ← toBool_fst, ht]
        rw [hz] at h
        obtain ⟨hsel', hnulls'⟩ := ih _ _ h fun r hr => by
          rw [length_narrowSel]
          exact hsel r (mem_narrowSel _ _ _ _ hr)
        refine ⟨?_, ?_⟩
        · rw [hsel', narrowSel_fst, List.filter_filter]
          congr 1
          funext r
          simp [Bool.and_comm]
        · intro r hr
          have hr₁ := hr
          rw [hsel', narrowSel_fst, List.mem_filter, List.mem_filter] at hr₁
          rw [hnulls' r hr, narrowSel_snd _ _ _ _ _ (hsel r hr₁.1.1)]
          have hkeep := hr₁.1.2
          cases hzr : expr.isZeroAt strToInt (rows.getD r default) with
          | null =>
            -- a NULL entry that was kept belongs to an integer expression
            simp only [hzr, IsZero.keeps] at hkeep
            simp only [List.any_cons, hzr, hkeep, hr₁.1.1, and_self, decide_true, Bool.true_and,
              Bool.or_true, Bool.true_or]
          | zero => simp only [hzr, IsZero.keeps, Bool.false_eq_true] at hkeep
          | nonZero =>
            simp only [List.any_cons, hzr, reduceCtorEq, false_and, decide_false, Bool.and_false,
              Bool.or_false, Bool.false_or]
      · rw [ht] at h
        cases h

/-- `VecEvalBool` selects a row exactly when every expression is non-NULL and non-zero on it. -/
theorem vecEvalBool_selected (exprList : List (Expr Row ε)) (input : InputChunk Row)
    {selected nulls : List Bool} (h : (vecEvalBool strToInt exprList input).1 = .ok (selected, nulls))
    (r : Nat) (hr : r < input.rows.length) :
    selected.getD r false =
      exprList.all fun expr => decide (expr.isZeroAt strToInt (input.rows.getD r default) = .nonZero) := by
  simp only [vecEvalBool] at h
  cases hloop : vecEvalBoolLoop strToInt input.rows exprList (List.range input.rows.length)
      (List.replicate input.rows.length false) with
  | error err =>
    rw [hloop] at h
    cases h
  | ok res =>
    rw [hloop] at h
    obtain ⟨sel', nulls'⟩ := res
    cases h
    obtain ⟨hsel', hnulls'⟩ := vecEvalBoolLoop_ok strToInt input.rows exprList _ _ hloop
      fun r hr => by simpa using hr
    rw [markSelected_getD _ _ _ _ (by simpa using hr), ← all_keeps_and_not_any_null]
    by_cases hmem : r ∈ sel'
    · -- a row left: every expression keeps it, and its NULL mark is the expressions' NULLs
      have hkeep := (List.mem_filter.mp (hsel' ▸ hmem)).2
      rw [hnulls' r hmem, hkeep, List.getD_eq_getElem?_getD,
        List.getElem?_getD_replicate_default_eq]
      simp [hmem]
    · have hall : (exprList.all fun expr =>
          (expr.isZeroAt strToInt (input.rows.getD r default)).keeps (expr.evalType == .int)) = false := by
        rw [hsel', List.mem_filter] at hmem
        simpa [hr] using hmem
      rw [hall, List.getD_eq_getElem?_getD, List.getElem?_getD_replicate_default_eq]
      simp [hmem]

/-- Where `VecEvalBool` and `EvalBool` both succeed they agree on every row. -/
theorem vecEvalBool_agrees (exprList : List (Expr Row ε)) (input : InputChunk Row)
    {selected nulls : List Bool} (h : (vecEvalBool strToInt exprList input).1 = .ok (selected, nulls))
    (r : Nat) (hr : r < input.rows.length) {b isNull : Bool}
    (hrow : evalBool strToInt exprList (input.rows.getD r default) = .ok (b, isNull)) :
    selected.getD r false = b := by
  rw [vecEvalBool_selected strToInt exprList input h r hr]
  exact (evalBool_ok strToInt exprList _ hrow).2.symm

theorem vecEvalBoolLoop_exists_ok (rows : List Row) (exprList : List (Expr Row ε))
    (hrows : ∀ row ∈ rows, ∀ expr ∈ exprList,
      ∃ v, expr.evalSlot row = .ok v ∧ slotError strToInt expr.evalType v = none)
    (sel : List Nat) (nulls : List Bool) (hsel : ∀ r ∈ sel, r < rows.length) :
    ∃ res, vecEvalBoolLoop strToInt rows exprList sel nulls = .ok res := by
  induction exprList generalizing sel nulls with
  | nil => exact ⟨_, rfl⟩
  | cons expr exprList ih =>
    have hrow : ∀ r ∈ sel, ∃ v, expr.evalSlot (rows.getD r default) = .ok v ∧
        slotError strToInt expr.evalType v = none := fun r hr => by
      rw [List.getD_eq_getElem?_getD, List.getElem?_eq_getElem (hsel r hr), Option.getD_some]
      exact hrows _ (List.getElem_mem _) expr List.mem_cons_self
    -- every selected row evaluates, and none of them fails to convert
    obtain ⟨buf, hbuf⟩ : ∃ buf, vecEval expr ⟨rows, some sel⟩ = .ok buf := by
      apply mapM_ok_of_forall
      intro row hmem
      simp only [InputChunk.selectedRows, List.mem_map] at hmem
      obtain ⟨r, hr, rfl⟩ := hmem
      obtain ⟨v, hv, -⟩ := hrow r hr
      exact ⟨v, hv⟩
    have herr : (toBool strToInt expr.evalType buf).2 = none := by
      apply toBool_snd_eq_none
      intro v hv
      obtain ⟨row, hmem, hrowv⟩ := mapM_ok_mem hbuf hv
      simp only [InputChunk.selectedRows, List.mem_map] at hmem
      obtain ⟨r, hr, rfl⟩ := hmem
      obtain ⟨v', hv', hslot⟩ := hrow r hr
      rw [hrowv] at hv'
      cases hv'
      exact hslot
    simp only [vecEvalBoolLoop, hbuf]
    rcases ht : toBool strToInt expr.evalType buf with ⟨isZero, err⟩
    rw [ht] at herr
    subst herr
    exact ih (fun row hrow expr' hexpr => hrows row hrow expr' (List.mem_cons_of_mem _ hexpr)) _ _
      fun r hr => hsel r (mem_narrowSel _ _ _ _ hr)

/-- `VecEvalBool` succeeds when every expression evaluates and converts without error on every row. -/
theorem vecEvalBool_exists_ok (exprList : List (Expr Row ε)) (input : InputChunk Row)
    (hrows : ∀ row ∈ input.rows, ∀ expr ∈ exprList,
      ∃ v, expr.evalSlot row = .ok v ∧ slotError strToInt expr.evalType v = none) :
    ∃ res, (vecEvalBool strToInt exprList input).1 = .ok res := by
  obtain ⟨⟨sel', nulls'⟩, hloop⟩ := vecEvalBoolLoop_exists_ok strToInt input.rows exprList hrows
    (List.range input.rows.length) (List.replicate input.rows.length false) fun r hr => by simpa using hr
  exact ⟨_, by simp only [vecEvalBool, hloop]; rfl⟩

end Runs

/-! ### `StrToInt` in a `SELECT` -/

/-- The bytes of `asciiSpace` that `strings.TrimSpace` drops: tab, newline, vertical tab, form
feed, carriage return and space. -/
def isAsciiSpace (c : Fin 256) : Bool :=
  c = 9 || c = 10 || c = 11 || c = 12 || c = 13 || c = 32

/-- `strings.TrimSpace` on ASCII bytes. -/
def trimSpace (s : List (Fin 256)) : List (Fin 256) :=
  ((s.dropWhile isAsciiSpace).reverse.dropWhile isAsciiSpace).reverse

/-- The loop of `getValidIntPrefix` under `CastStrToIntStrict`, from byte `i` on: a sign is skipped
at the first byte, a digit extends the prefix to `i + 1`, and any other byte stops the loop. -/
def validIntLen : List (Fin 256) → Nat → Nat → Nat
  | [], _, validLen => validLen
  | c :: str, i, validLen =>
    if (c = 43 || c = 45) && i = 0 then validIntLen str (i + 1) validLen
    else if 48 ≤ c && c ≤ 57 then validIntLen str (i + 1) (i + 1)
    else validLen

/-- `getValidIntPrefix` under `CastStrToIntStrict`: the sign and digits at the head, `"0"` when
there are none. A `SELECT` makes the truncation of the rest a warning, not an error. -/
def getValidIntPrefix (str : List (Fin 256)) : List (Fin 256) :=
  let valid := str.take (validIntLen str 0 0)
  if valid = [] then [48] else valid

/-- `strconv.ParseInt(s, 10, 64)` on an optional sign and digits: the value, or the bound it is
clamped to and `true` when the value is out of range. -/
def parseInt (s : List (Fin 256)) : Int64 × Bool :=
  let (neg, digits) : Bool × List (Fin 256) := match s with
    | 45 :: ds => (true, ds)
    | 43 :: ds => (false, ds)
    | ds => (false, ds)
  let n : Nat := digits.foldl (fun acc c => acc * 10 + (c.val - 48)) 0
  if neg then
    if n ≤ 2 ^ 63 then (Int64.ofInt (-(n : Int)), false) else (minInt64, true)
  else if n < 2 ^ 63 then (Int64.ofNat n, false) else (maxInt64, true)

/-- `types.StrToInt` in a `SELECT`, whose statement context sets `CastStrToIntStrict` and
`TruncateAsWarning`: the one error is an integer out of the range of `BIGINT`. -/
def strToInt (str : List (Fin 256)) : Int64 × Option EvalError :=
  let validPrefix := getValidIntPrefix (trimSpace str)
  let (iVal, outOfRange) := parseInt validPrefix
  if outOfRange then
    (iVal, some (.overflow "BIGINT" (String.ofList (validPrefix.map fun c => Char.ofNat c.val))))
  else (iVal, none)

/-- A string column as the only column of a row. -/
def stringColumn : Expr (List (Fin 256)) EvalError :=
  ⟨.string, false, fun row => .ok (some row)⟩

/-- The cell `getD` reads past the end of a chunk: NULL. -/
instance : Inhabited IntCell := ⟨⟨true, 0⟩⟩

/-- A signed integer column: `EvalInt` of the row's cell. -/
def intColumn {Row : Type} (cell : Row → IntCell) : Expr Row EvalError :=
  ⟨.int, false, fun row =>
    let (v, isNull) := (cell row).evalInt
    .ok (if isNull then none else some v)⟩

/-- `PlusInt` of two signed integer columns. -/
def plusIntColumns {Row : Type} (cell0 cell1 : Row → IntCell) : Expr Row EvalError :=
  ⟨.int, false, fun row =>
    (builtinArithmeticPlusIntSig.evalInt false false (cell0 row).evalInt (cell1 row).evalInt).map
      fun (v, isNull) => if isNull then none else some v⟩

/-- Two chunks where `VecEvalBool` and `EvalBool` part. A string row of twenty nines overflows in
`StrToInt`, an error `EvalBool` reports, but `VecEvalBool` keeps only the second row's conversion
error, none, and selects both rows. A row whose first column is NULL stays selected for
`PlusInt`, which overflows there, so `VecEvalBool` fails the chunk while `EvalBool` is false on
that row and true on the other. -/
theorem vecEvalBool_disagrees_with_evalBool :
    (vecEvalBool strToInt [stringColumn] ⟨[List.replicate 20 57, [49]], none⟩).1 =
        .ok ([true, true], [false, false]) ∧
      evalBool strToInt [stringColumn] (List.replicate 20 57) =
        .error (.overflow "BIGINT" "99999999999999999999") ∧
      (vecEvalBool strToInt [intColumn (·.1), plusIntColumns (·.2.1) (·.2.2)]
          ⟨[(⟨true, 0⟩, ⟨false, maxInt64⟩, ⟨false, 1⟩), (⟨false, 1⟩, ⟨false, 1⟩, ⟨false, 1⟩)], none⟩).1 =
        .error (.overflow "BIGINT" "(%s + %s)") ∧
      evalBool strToInt [intColumn (·.1), plusIntColumns (·.2.1) (·.2.2)]
          (⟨false, 1⟩, ⟨false, 1⟩, ⟨false, 1⟩) = .ok (true, false) := by
  decide

end TinySql.Expression
