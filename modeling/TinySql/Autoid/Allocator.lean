import TinySql.Lib.GoInt

/-!
# The auto-increment id allocator

`meta/autoid/autoid.go`. An allocator caches the ids `(base, end]` of a table; `Alloc(tableID, n)`
hands out the next `n` of them, and when the cache is short it reserves a new segment of `step`
ids above the global end stored in meta (`GenAutoTableID`, an `HInc` of the stored value).
`Rebase(tableID, requiredBase, allocIDs)` makes sure no id at or below `requiredBase` is handed out
again, by moving `base` inside the cache, by reserving a new segment from
`max(currentEnd, requiredBase)`, or, without `allocIDs`, by pushing the global end alone.

Each call holds the allocator's mutex and runs at most one meta transaction, so with transactions
that execute serializably a call is one atomic step from the allocator and the stored global end
`g` to their new values. `Outcome` is that step: the call's result, the allocator after it, and the
global end after it. A transaction whose closure returns an error writes nothing.

The step that `NextStep` computes scales the last step by how fast the last segment was used, in
floating point and from the clock; the model takes that product from the environment.
-/

namespace TinySql.Autoid

open TinySql.Lib

/-- The errors of the allocator: `errInvalidTableID` and `ErrAutoincReadFailed`. -/
inductive AutoidError
  | invalidTableID
  | autoincReadFailed
  deriving DecidableEq, Repr

/-- `minStep`. -/
def minStep : Int64 := 30000

/-- `maxStep`. -/
def maxStep : Int64 := 2000000

/-- The package variable `step`, which only tests change with `SetStep`. -/
def step : Int64 := 30000

/-- The fields of `allocator` that its calls read: the cached ids `(base, end]`, the signedness of
the column, and the step of the next segment. -/
structure Allocator where
  base : Int64
  «end» : Int64
  isUnsigned : Bool
  step : Int64
  deriving DecidableEq, Repr

/-- `NewAllocator`: an empty cache. -/
def newAllocator (isUnsigned : Bool) : Allocator :=
  { base := 0, «end» := 0, isUnsigned := isUnsigned, step := step }

/-- One call: its result, the allocator after it and the global end after it. -/
structure Outcome (α : Type) where
  result : Except AutoidError α
  alloc : Allocator
  global : Int64
  deriving DecidableEq, Repr

/-- `NextStep`, from `res = int64(float64(curStep) * consumeRate)`: clamped into
`[minStep, maxStep]`. The failpoint of tests is left out. -/
def nextStep (res : Int64) : Int64 :=
  if res < minStep then minStep
  else if res > maxStep then maxStep
  else res

/-- `rebase4Signed`, with the global end `g` that `GetAutoTableID` reads. -/
def rebase4Signed (g : Int64) (a : Allocator) (requiredBase : Int64) (allocIDs : Bool) :
    Outcome Unit :=
  -- Satisfied by alloc.base, nothing to do.
  if requiredBase ≤ a.base then ⟨.ok (), a, g⟩
  -- Satisfied by alloc.end, need to update alloc.base.
  else if requiredBase ≤ a.end then ⟨.ok (), { a with base := requiredBase }, g⟩
  else
    let currentEnd := g
    if allocIDs then
      let newBase := max currentEnd requiredBase
      let newEnd := min (maxInt64 - a.step) newBase + a.step
      ⟨.ok (), { a with base := newBase, «end» := newEnd }, g + (newEnd - currentEnd)⟩
    -- Required base satisfied, the closure returns before `GenAutoTableID`.
    else if currentEnd ≥ requiredBase then
      ⟨.ok (), { a with base := currentEnd, «end» := currentEnd }, g⟩
    else
      ⟨.ok (), { a with base := requiredBase, «end» := requiredBase },
        g + (requiredBase - currentEnd)⟩

/-- `rebase4Unsigned`: `rebase4Signed` with every comparison and sum on the `uint64` reading. -/
def rebase4Unsigned (g : Int64) (a : Allocator) (requiredBase : UInt64) (allocIDs : Bool) :
    Outcome Unit :=
  if requiredBase ≤ a.base.toUInt64 then ⟨.ok (), a, g⟩
  else if requiredBase ≤ a.end.toUInt64 then ⟨.ok (), { a with base := requiredBase.toInt64 }, g⟩
  else
    let uCurrentEnd := g.toUInt64
    if allocIDs then
      let newBase := max uCurrentEnd requiredBase
      let newEnd := min (maxUint64 - a.step.toUInt64) newBase + a.step.toUInt64
      ⟨.ok (), { a with base := newBase.toInt64, «end» := newEnd.toInt64 },
        g + (newEnd - uCurrentEnd).toInt64⟩
    else if uCurrentEnd ≥ requiredBase then
      ⟨.ok (), { a with base := uCurrentEnd.toInt64, «end» := uCurrentEnd.toInt64 }, g⟩
    else
      ⟨.ok (), { a with base := requiredBase.toInt64, «end» := requiredBase.toInt64 },
        g + (requiredBase - uCurrentEnd).toInt64⟩

/-- `Rebase`. -/
def Allocator.rebase (a : Allocator) (g : Int64) (tableID requiredBase : Int64) (allocIDs : Bool) :
    Outcome Unit :=
  if tableID == 0 then ⟨.error .invalidTableID, a, g⟩
  else if a.isUnsigned then rebase4Unsigned g a requiredBase.toUInt64 allocIDs
  else rebase4Signed g a requiredBase allocIDs

/-- `alloc4Signed`; `res` is the input of `NextStep`. The step is updated before the transaction
and stays updated when the transaction fails. -/
def alloc4Signed (g : Int64) (a : Allocator) (n : UInt64) (res : Int64) :
    Outcome (Int64 × Int64) :=
  let n1 := n.toInt64
  if maxInt64 - a.base ≤ n1 then ⟨.error .autoincReadFailed, a, g⟩
  -- The local rest is not enough for allocN, skip it.
  else if a.base + n1 > a.end then
    let next := nextStep res
    let a := { a with step := if next ≤ n1 then min (n1 * 2) maxStep else next }
    let newBase := g
    let tmpStep := min (maxInt64 - newBase) a.step
    -- The global rest is not enough for alloc.
    if tmpStep < n1 then ⟨.error .autoincReadFailed, a, g⟩
    else
      let newEnd := g + tmpStep
      if newBase == maxInt64 then ⟨.error .autoincReadFailed, a, newEnd⟩
      else ⟨.ok (newBase, newBase + n1), { a with base := newBase + n1, «end» := newEnd }, newEnd⟩
  else ⟨.ok (a.base, a.base + n1), { a with base := a.base + n1 }, g⟩

/-- `alloc4Unsigned`: `alloc4Signed` with the tests on the `uint64` reading. -/
def alloc4Unsigned (g : Int64) (a : Allocator) (n : UInt64) (res : Int64) :
    Outcome (Int64 × Int64) :=
  let n1 := n.toInt64
  if maxUint64 - a.base.toUInt64 ≤ n then ⟨.error .autoincReadFailed, a, g⟩
  else if a.base.toUInt64 + n > a.end.toUInt64 then
    let next := nextStep res
    let a := { a with step := if next ≤ n1 then min (n1 * 2) maxStep else next }
    let newBase := g
    let tmpStep := (min (maxUint64 - newBase.toUInt64) a.step.toUInt64).toInt64
    if tmpStep < n1 then ⟨.error .autoincReadFailed, a, g⟩
    else
      let newEnd := g + tmpStep
      if newBase.toUInt64 == maxUint64 then ⟨.error .autoincReadFailed, a, newEnd⟩
      else
        let base := (newBase.toUInt64 + n).toInt64
        ⟨.ok (newBase, base), { a with base := base, «end» := newEnd }, newEnd⟩
  else
    let base := (a.base.toUInt64 + n).toInt64
    ⟨.ok (a.base, base), { a with base := base }, g⟩

/-- `Alloc`: the ids `(min, max]`. -/
def Allocator.alloc (a : Allocator) (g : Int64) (tableID : Int64) (n : UInt64) (res : Int64) :
    Outcome (Int64 × Int64) :=
  if tableID == 0 then ⟨.error .invalidTableID, a, g⟩
  else if n == 0 then ⟨.ok (0, 0), a, g⟩
  else if a.isUnsigned then alloc4Unsigned g a n res
  else alloc4Signed g a n res

end TinySql.Autoid
