import TinySql.Autoid.Spec
import TinySql.Lib.Segments

/-!
# Allocators sharing a table

Any number of allocators made by `NewAllocator` for one table, with the same signedness, and any
interleaving of their `Alloc` and `Rebase` calls. A call holds its allocator's mutex and runs at most
one serializable transaction on the table's global end, so a run is a sequence of calls, each one
step of `Sys.step`. An allocator made later in the run behaves as one made at the start that
stayed idle until then: its fields are those of `NewAllocator` until its first call.

Read through `key`, a run is a run of the segment pool of `TinySql.Lib.Segments`: the global end is
the pool's `top`, each allocator's `(base, end]` is its segment, and the intervals that successful
`Alloc` calls return are what the pool hands out (`step_simulates`). The pool's invariant then
says that no id is handed out twice.
-/

namespace TinySql.Autoid

open TinySql.Lib

/-- A call of one allocator. -/
inductive Call
  | alloc (n : UInt64)
  | rebase (requiredBase : Int64) (allocIDs : Bool)
  deriving DecidableEq, Repr

/-- What the environment decides at one step: which allocator calls, what it calls, and the
input of `NextStep`, which depends on the clock. -/
structure Input (ι : Type) where
  idx : ι
  call : Call
  res : Int64

/-- A call with the result its caller sees. -/
inductive Event (ι : Type)
  | alloc (i : ι) (n : UInt64) (result : Except AutoidError (Int64 × Int64))
  | rebase (i : ι) (requiredBase : Int64) (allocIDs : Bool) (result : Except AutoidError Unit)

/-- The global end stored in meta and the allocators of the table. -/
structure Sys (ι : Type) where
  global : Int64
  allocs : ι → Allocator

variable {ι : Type}

/-- Fresh allocators on a table whose global end is `g0`. -/
def Sys.init (isUnsigned : Bool) (g0 : Int64) : Sys ι :=
  ⟨g0, fun _ => newAllocator isUnsigned⟩

/-- A count `Alloc` hands out ids for: at least one, and at most `MaxInt64`, so that the
`int64(n)` of `alloc4Signed` keeps it. -/
def Call.InRange : Call → Prop
  | .alloc n => 1 ≤ n.toNat ∧ n.toNat < 2 ^ 63
  | .rebase _ _ => True

/-- The interval `(min, max]` a successful `Alloc` returned, read in the column's order. -/
def Event.interval (u : Bool) : Event ι → Option (ι × Int × Int)
  | .alloc i _ (.ok (m, m')) => some (i, key u m, key u m')
  | _ => none

/-- The intervals the successful `Alloc` calls of a run returned, in order. -/
def allocIntervals (u : Bool) (es : List (Event ι)) : List (ι × Int × Int) :=
  es.filterMap (Event.interval u)

/-- The state as a segment pool, with the intervals handed out so far. -/
def Sys.pool (u : Bool) (σ : Sys ι) (issued : List (ι × Int × Int)) : Pool ι Int :=
  ⟨key u σ.global, fun i => (key u (σ.allocs i).base, key u (σ.allocs i).end), issued⟩

@[simp] theorem allocIntervals_nil (u : Bool) : allocIntervals u ([] : List (Event ι)) = [] := rfl

@[simp] theorem allocIntervals_cons (u : Bool) (e : Event ι) (es : List (Event ι)) :
    allocIntervals u (e :: es) = (e.interval u).toList ++ allocIntervals u es := by
  cases h : e.interval u <;> simp [allocIntervals, h]

@[simp] theorem Event.interval_alloc_ok (u : Bool) (i : ι) (n : UInt64) (m m' : Int64) :
    (Event.alloc i n (.ok (m, m'))).interval u = some (i, key u m, key u m') := rfl

@[simp] theorem Event.interval_alloc_error (u : Bool) (i : ι) (n : UInt64) (e : AutoidError) :
    (Event.alloc i n (.error e)).interval u = none := rfl

@[simp] theorem Event.interval_rebase (u : Bool) (i : ι) (b : Int64) (allocIDs : Bool)
    (r : Except AutoidError Unit) : (Event.rebase i b allocIDs r).interval u = none := rfl

/-- What holds at every state of a run: the allocators keep the table's signedness, and each
cache lies in `[0, g]`. -/
structure Sys.Fits (u : Bool) (σ : Sys ι) : Prop where
  isUnsigned_eq : ∀ i, (σ.allocs i).isUnsigned = u
  fits : ∀ i, TinySql.Autoid.Fits σ.global (σ.allocs i)

variable [DecidableEq ι]

/-- One call, on the table `tableID`. -/
def Sys.step (tableID : Int64) (σ : Sys ι) (inp : Input ι) : Sys ι × Event ι :=
  match inp.call with
  | .alloc n =>
    let o := (σ.allocs inp.idx).alloc σ.global tableID n inp.res
    (⟨o.global, Function.update σ.allocs inp.idx o.alloc⟩, .alloc inp.idx n o.result)
  | .rebase b allocIDs =>
    let o := (σ.allocs inp.idx).rebase σ.global tableID b allocIDs
    (⟨o.global, Function.update σ.allocs inp.idx o.alloc⟩, .rebase inp.idx b allocIDs o.result)

/-- A run: the state at its end and the calls with their results, in order. -/
def Sys.run (tableID : Int64) : Sys ι → List (Input ι) → Sys ι × List (Event ι)
  | σ, [] => (σ, [])
  | σ, inp :: rest =>
    let r := (σ.step tableID inp).1.run tableID rest
    (r.1, (σ.step tableID inp).2 :: r.2)

theorem Sys.pool_update (u : Bool) (g : Int64) (σ : Sys ι) (i : ι) (a : Allocator)
    (issued : List (ι × Int × Int)) :
    Sys.pool u ⟨g, Function.update σ.allocs i a⟩ issued =
      { σ.pool u issued with
        top := key u g
        cache := Function.update (σ.pool u issued).cache i (key u a.base, key u a.end) } := by
  simp only [Sys.pool, Pool.mk.injEq, true_and, and_true]
  funext j
  rcases eq_or_ne j i with rfl | hj
  · simp
  · simp [Function.update_of_ne hj]

theorem Sys.pool_update_self (u : Bool) (σ : Sys ι) (i : ι) (a : Allocator)
    (hbase : a.base = (σ.allocs i).base) (hend : a.end = (σ.allocs i).end)
    (issued : List (ι × Int × Int)) :
    Sys.pool u ⟨σ.global, Function.update σ.allocs i a⟩ issued = σ.pool u issued := by
  rw [Sys.pool_update, hbase, hend]
  exact congrArg (fun c => { σ.pool u issued with cache := c }) (Function.update_eq_self i _)

/-! ### One call is a run of the pool -/

/-- A call that leaves the cache and the global end alone leaves the pool alone. -/
theorem pool_of_unchanged {u : Bool} {σ : Sys ι} {i : ι} {a : Allocator}
    (hbase : a.base = (σ.allocs i).base) (hend : a.end = (σ.allocs i).end)
    (issued : List (ι × Int × Int)) :
    Relation.ReflTransGen Pool.Step (σ.pool u issued)
      (Sys.pool u ⟨σ.global, Function.update σ.allocs i a⟩ issued) := by
  rw [Sys.pool_update_self u σ i a hbase hend]

theorem alloc_simulates {u : Bool} (tableID : Int64) {σ : Sys ι} (hσ : σ.Fits u) (i : ι)
    {n : UInt64} (hn : 1 ≤ n.toNat) (hn' : n.toNat < 2 ^ 63) (res : Int64)
    (issued : List (ι × Int × Int)) :
    let o := (σ.allocs i).alloc σ.global tableID n res
    Relation.ReflTransGen Pool.Step (σ.pool u issued)
      (Sys.pool u ⟨o.global, Function.update σ.allocs i o.alloc⟩
        (issued ++ allocIntervals u [.alloc i n o.result])) := by
  have hspec := alloc_spec tableID res (hσ.fits i) hn hn'
  have hu := hσ.isUnsigned_eq i
  generalize (σ.allocs i).alloc σ.global tableID n res = o at hspec ⊢
  cases hspec with
  | fail e s =>
    simp only [allocIntervals_cons, Event.interval_alloc_error, Option.toList_none,
      allocIntervals_nil, List.append_nil]
    exact pool_of_unchanged (u := u) (a := { σ.allocs i with step := s }) rfl rfl issued
  | cached m hroom hm =>
    rw [hu] at hroom hm
    simp only [Sys.pool_update]
    exact .single (Pool.Step.take_of_eq _ i rfl (by omega) (by omega))
  | refill m g' s hshort hm hg' =>
    rw [hu] at hshort hm hg'
    -- a new segment `(g, g']` above the global end, then `n` ids from its bottom
    have hstep := Relation.ReflTransGen.tail
      (.single (Pool.Step.reserve (σ.pool u issued) i (key u σ.global) (key u g') le_rfl (by omega)))
      (Pool.Step.take_of_eq _ i (Function.update_self ..) (by omega) hg')
    simp only [Sys.pool_update]
    convert hstep using 1
    simp [Sys.pool, Function.update_idem]

theorem rebase_simulates {u : Bool} (tableID : Int64) {σ : Sys ι} (hσ : σ.Fits u) (i : ι)
    (requiredBase : Int64) (allocIDs : Bool) (issued : List (ι × Int × Int)) :
    let o := (σ.allocs i).rebase σ.global tableID requiredBase allocIDs
    Relation.ReflTransGen Pool.Step (σ.pool u issued)
      (Sys.pool u ⟨o.global, Function.update σ.allocs i o.alloc⟩ issued) := by
  have hspec := rebase_spec tableID requiredBase allocIDs (hσ.fits i)
  have hu := hσ.isUnsigned_eq i
  generalize (σ.allocs i).rebase σ.global tableID requiredBase allocIDs = o at hspec ⊢
  cases hspec with
  | fail e => exact pool_of_unchanged (u := u) (a := σ.allocs i) rfl rfl issued
  | keep h => exact pool_of_unchanged (u := u) (a := σ.allocs i) rfl rfl issued
  | advance b h1 h2 hb =>
    rw [hu] at h1 h2
    simp only [Sys.pool_update]
    exact .single (Pool.Step.advance_of_eq _ i rfl h1 h2)
  | reserve b e h1 h2 hb =>
    rw [hu] at h1 h2
    simp only [Sys.pool_update]
    exact .single (Pool.Step.reserve _ i _ _ h1 h2)
  | skip t h hb =>
    rw [hu] at h
    simp only [Sys.pool_update]
    exact .single (Pool.Step.skip _ i _ h)

/-- One call of any allocator is a run of the pool, which hands out the interval the call
returns. -/
theorem step_simulates {u : Bool} (tableID : Int64) {σ : Sys ι} (hσ : σ.Fits u) {inp : Input ι}
    (hin : inp.call.InRange) (issued : List (ι × Int × Int)) :
    Relation.ReflTransGen Pool.Step (σ.pool u issued)
      ((σ.step tableID inp).1.pool u (issued ++ allocIntervals u [(σ.step tableID inp).2])) := by
  obtain ⟨i, call, res⟩ := inp
  cases call with
  | alloc n => exact alloc_simulates tableID hσ i hin.1 hin.2 res issued
  | rebase b allocIDs =>
    simpa [Sys.step] using rebase_simulates tableID hσ i b allocIDs issued

theorem step_isUnsigned {u : Bool} (tableID : Int64) {σ : Sys ι} (hσ : σ.Fits u) {inp : Input ι}
    (hin : inp.call.InRange) (j : ι) : ((σ.step tableID inp).1.allocs j).isUnsigned = u := by
  obtain ⟨i, call, res⟩ := inp
  rcases eq_or_ne j i with rfl | hj
  · rw [← hσ.isUnsigned_eq j]
    cases call with
    | alloc n =>
      simpa [Sys.step] using (alloc_spec tableID res (hσ.fits j) hin.1 hin.2).isUnsigned_eq
    | rebase b allocIDs =>
      simpa [Sys.step] using (rebase_spec tableID b allocIDs (hσ.fits j)).isUnsigned_eq
  · cases call <;> simpa [Sys.step, Function.update_of_ne hj] using hσ.isUnsigned_eq j

end TinySql.Autoid
