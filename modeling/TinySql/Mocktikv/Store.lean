import Mathlib
import TinySql.Lib.ExceptList

/-!
# The MVCC store of mocktikv

`store/mockstore/mocktikv/mvcc_leveldb.go`. Every key holds at most one lock, at the version
`lockVer` that sorts first, and its values, one per version. A committed write is stored at its
commit timestamp and a rollback record at the start timestamp of the transaction it rolls back;
either way the version is the value's `commitTS`, and the leveldb iterator meets the values newest
first, which is the order of `Entry.values`.

Each request holds the store's mutex, reads the store as it was when the request began, collects
its writes in a `leveldb.Batch` and writes the batch at the end; a request that fails writes
nothing. The iterator of a request that reads one key sees the key's lock and values and then the
next key's, where every decoder stops, so the model reads one `Entry`. Storage and decoding errors
are left out.
-/

namespace TinySql.Mocktikv

/-- `kvrpcpb.Op` of the mutations the committer sends: `Put` with its value, `Del` and `Lock`. -/
inductive Op (V : Type)
  | put (value : V)
  | del
  | lock
  deriving DecidableEq, Repr

def Op.isLock {V : Type} : Op V → Bool
  | .lock => true
  | _ => false

structure Mutation (K V : Type) where
  op : Op V
  key : K
  deriving DecidableEq, Repr

/-- `mvccLock`; `forUpdateTS` is only set by pessimistic transactions, which are left out. -/
structure MvccLock (K V : Type) where
  startTS : Nat
  primary : K
  op : Op V
  ttl : Nat
  deriving DecidableEq, Repr

inductive MvccValueType
  | typePut
  | typeDelete
  | typeRollback
  deriving DecidableEq, Repr

structure MvccValue (V : Type) where
  valueType : MvccValueType
  startTS : Nat
  commitTS : Nat
  value : Option V
  deriving DecidableEq, Repr

/-- What the store holds for one key: its lock and its values, newest first. -/
structure Entry (K V : Type) where
  lock : Option (MvccLock K V)
  values : List (MvccValue V)
  deriving DecidableEq, Repr

structure MVCCLevelDB (K V : Type) where
  db : K → Entry K V

inductive MvccError (K V : Type)
  | errConflict (startTS conflictTS conflictCommitTS : Nat) (key : K)
  | errLocked (key primary : K) (startTS ttl : Nat) (lockType : Op V)
  | errRetryable (msg : String)
  | errAlreadyCommitted (commitTS : Nat)
  deriving DecidableEq, Repr

/-- The writes of a `leveldb.Batch`. -/
inductive BatchOp (K V : Type)
  | putLock (key : K) (lock : MvccLock K V)
  | putValue (key : K) (value : MvccValue V)
  | deleteLock (key : K)
  deriving DecidableEq, Repr

/-- `kvrpcpb.Action` of a `CheckTxnStatus` response. -/
inductive Action
  | noAction
  | ttlExpireRollback
  | lockNotExistRollback
  deriving DecidableEq, Repr

variable {K V : Type}

def BatchOp.key : BatchOp K V → K
  | .putLock k _ => k
  | .putValue k _ => k
  | .deleteLock k => k

/-- A leveldb `Put` at version `v.commitTS`: the values stay newest first, and the value already
at that version, if any, is overwritten. -/
def putVersion (v : MvccValue V) : List (MvccValue V) → List (MvccValue V)
  | [] => [v]
  | w :: ws =>
    if w.commitTS < v.commitTS then v :: w :: ws
    else if w.commitTS = v.commitTS then v :: ws
    else w :: putVersion v ws

def Entry.apply (e : Entry K V) : BatchOp K V → Entry K V
  | .putLock _ l => { e with lock := some l }
  | .putValue _ v => { e with values := putVersion v e.values }
  | .deleteLock _ => { e with lock := none }

/-- The lock of the key when it belongs to the transaction that started at `startTS`. -/
def Entry.txnLock (e : Entry K V) (startTS : Nat) : Option (MvccLock K V) :=
  e.lock.filter fun l => l.startTS == startTS

/-- The key holds a committed write of the transaction that started at `startTS`. -/
def HasWrite (e : Entry K V) (startTS : Nat) : Prop :=
  ∃ v ∈ e.values, v.startTS = startTS ∧ v.valueType ≠ .typeRollback

/-- The key holds a rollback record of the transaction that started at `startTS`. -/
def HasRollback (e : Entry K V) (startTS : Nat) : Prop :=
  ∃ v ∈ e.values, v.startTS = startTS ∧ v.valueType = .typeRollback

instance (e : Entry K V) (startTS : Nat) : Decidable (HasWrite e startTS) :=
  inferInstanceAs (Decidable (∃ v ∈ e.values, _))

instance (e : Entry K V) (startTS : Nat) : Decidable (HasRollback e startTS) :=
  inferInstanceAs (Decidable (∃ v ∈ e.values, _))

/-! ### Putting a version -/

theorem mem_putVersion_self (v : MvccValue V) (vs : List (MvccValue V)) : v ∈ putVersion v vs := by
  induction vs with
  | nil => simp [putVersion]
  | cons w ws ih =>
    unfold putVersion
    split_ifs <;> simp [ih]

theorem mem_of_mem_putVersion {v w : MvccValue V} {vs : List (MvccValue V)}
    (h : w ∈ putVersion v vs) : w = v ∨ w ∈ vs := by
  induction vs with
  | nil => simpa [putVersion] using h
  | cons u us ih =>
    unfold putVersion at h
    split_ifs at h
    · simpa using h
    · rcases List.mem_cons.mp h with h | h
      · exact .inl h
      · exact .inr (List.mem_cons_of_mem _ h)
    · rcases List.mem_cons.mp h with h | h
      · exact .inr (h ▸ List.mem_cons_self ..)
      · rcases ih h with h | h
        · exact .inl h
        · exact .inr (List.mem_cons_of_mem _ h)

/-- A value at another version survives the put. -/
theorem mem_putVersion_of_mem {v w : MvccValue V} {vs : List (MvccValue V)} (h : w ∈ vs)
    (hne : w.commitTS ≠ v.commitTS) : w ∈ putVersion v vs := by
  induction vs with
  | nil => cases h
  | cons u us ih =>
    unfold putVersion
    rcases List.mem_cons.mp h with rfl | h
    · split_ifs <;> simp_all
    · split_ifs <;> simp [h, ih h]

/-- A value survives a batch that puts nothing at its version. -/
theorem Entry.mem_values_foldl_of_mem {e : Entry K V} {ops : List (BatchOp K V)} {w : MvccValue V}
    (h : w ∈ e.values) (hsame : ∀ k v, BatchOp.putValue k v ∈ ops → v.commitTS = w.commitTS → v = w) :
    w ∈ (ops.foldl Entry.apply e).values := by
  induction ops generalizing e with
  | nil => exact h
  | cons op ops ih =>
    refine ih ?_ fun k v hv => hsame k v (List.mem_cons_of_mem _ hv)
    cases op with
    | putValue k v =>
      by_cases hv : v.commitTS = w.commitTS
      · rw [hsame k v (List.mem_cons_self ..) hv]
        exact mem_putVersion_self w _
      · exact mem_putVersion_of_mem h (Ne.symm hv)
    | putLock k l => exact h
    | deleteLock k => exact h

/-- A value a batch puts is there after it, when the batch puts nothing else at its version. -/
theorem Entry.mem_values_foldl_of_putValue {e : Entry K V} {ops : List (BatchOp K V)}
    {k : K} {w : MvccValue V} (h : BatchOp.putValue k w ∈ ops)
    (huniq : ∀ k' v, BatchOp.putValue k' v ∈ ops → v.commitTS = w.commitTS → v = w) :
    w ∈ (ops.foldl Entry.apply e).values := by
  induction ops generalizing e with
  | nil => cases h
  | cons op ops ih =>
    have huniq' := fun k' v hv => huniq k' v (List.mem_cons_of_mem _ hv)
    rcases List.mem_cons.mp h with rfl | h
    · exact Entry.mem_values_foldl_of_mem (e := e.apply (.putValue _ w)) (mem_putVersion_self w _) huniq'
    · exact ih h huniq'

/-- The lock after a batch was there before or was put by the batch. -/
theorem Entry.lock_foldl {e : Entry K V} {ops : List (BatchOp K V)} {l : MvccLock K V}
    (h : (ops.foldl Entry.apply e).lock = some l) : e.lock = some l ∨ ∃ k, BatchOp.putLock k l ∈ ops := by
  induction ops generalizing e with
  | nil => exact .inl h
  | cons op ops ih =>
    rcases ih h with h | ⟨k, hk⟩
    · cases op with
      | putLock k l' =>
        simp only [Entry.apply, Option.some.injEq] at h
        subst h
        exact .inr ⟨k, List.mem_cons_self ..⟩
      | putValue k v => exact .inl h
      | deleteLock k => simp [Entry.apply] at h
    · exact .inr ⟨k, List.mem_cons_of_mem _ hk⟩

variable [DecidableEq K]

/-- A store that holds nothing. -/
def MVCCLevelDB.empty : MVCCLevelDB K V := ⟨fun _ => ⟨none, []⟩⟩

def MVCCLevelDB.apply (s : MVCCLevelDB K V) (op : BatchOp K V) : MVCCLevelDB K V :=
  ⟨Function.update s.db op.key ((s.db op.key).apply op)⟩

/-- `mvcc.db.Write(batch, nil)`. -/
def MVCCLevelDB.write (s : MVCCLevelDB K V) (batch : List (BatchOp K V)) : MVCCLevelDB K V :=
  batch.foldl MVCCLevelDB.apply s

/-- `lockErr`: the `ErrLocked` a lock reports on its key. -/
def MvccLock.lockErr (l : MvccLock K V) (key : K) : MvccError K V :=
  .errLocked key l.primary l.startTS l.ttl l.op

/-- `checkConflictValue`: the newest value of the key conflicts when it was committed, or rolled
back, at or after `startTS`. A key without values decodes as the zero `mvccValue`. -/
def checkConflictValue (values : List (MvccValue V)) (m : Mutation K V) (startTS : Nat) :
    Except (MvccError K V) Unit :=
  match values with
  | v :: _ =>
    if v.commitTS ≥ startTS then .error (.errConflict startTS v.startTS v.commitTS m.key)
    else .ok ()
  | [] => if 0 ≥ startTS then .error (.errConflict startTS 0 0 m.key) else .ok ()

/-- `prewriteMutation`: the lock the mutation writes, or why it cannot. -/
def prewriteMutation (s : MVCCLevelDB K V) (m : Mutation K V) (startTS : Nat) (primary : K)
    (ttl : Nat) : Except (MvccError K V) (BatchOp K V) :=
  match (s.db m.key).lock with
  | some l =>
    if l.startTS ≠ startTS then .error (l.lockErr m.key)
    else .ok (.putLock m.key ⟨startTS, primary, m.op, ttl⟩)
  | none => do
    checkConflictValue (s.db m.key).values m startTS
    pure (.putLock m.key ⟨startTS, primary, m.op, ttl⟩)

/-- `Prewrite`: the error of each mutation, and the store with all the locks written when no
mutation failed. -/
def MVCCLevelDB.prewrite (s : MVCCLevelDB K V) (mutations : List (Mutation K V)) (primary : K)
    (startTS ttl : Nat) : List (Option (MvccError K V)) × MVCCLevelDB K V :=
  let results := mutations.map fun m => prewriteMutation s m startTS primary ttl
  let errs := results.map TinySql.Lib.errorOf
  if errs.all Option.isNone then (errs, s.write (results.filterMap Except.toOption))
  else (errs, s)

/-- `getTxnCommitInfo`: the newest value the transaction that started at `startTS` wrote, a
commit or a rollback. -/
def getTxnCommitInfo (values : List (MvccValue V)) (startTS : Nat) : Option (MvccValue V) :=
  values.find? fun v => v.startTS == startTS

/-- `commitLock`: a `Put` or `Del` lock becomes a value at `commitTS`; every lock is removed. -/
def commitLock (lock : MvccLock K V) (key : K) (startTS commitTS : Nat) : List (BatchOp K V) :=
  let write : List (BatchOp K V) := match lock.op with
    | .put v => [.putValue key ⟨.typePut, startTS, commitTS, some v⟩]
    | .del => [.putValue key ⟨.typeDelete, startTS, commitTS, none⟩]
    | .lock => []
  write ++ [.deleteLock key]

/-- The value `commitLock` writes: a `Put` or `Del` at `commitTS`, nothing for a `Lock`. -/
def commitValue (lock : MvccLock K V) (startTS commitTS : Nat) : Option (MvccValue V) :=
  match lock.op with
  | .put v => some ⟨.typePut, startTS, commitTS, some v⟩
  | .del => some ⟨.typeDelete, startTS, commitTS, none⟩
  | .lock => none

def commitKey (s : MVCCLevelDB K V) (key : K) (startTS commitTS : Nat) :
    Except (MvccError K V) (List (BatchOp K V)) :=
  match (s.db key).txnLock startTS with
  | some l => .ok (commitLock l key startTS commitTS)
  | none =>
    -- the lock is not found, or replaced by another transaction's: an earlier commit is fine
    match getTxnCommitInfo (s.db key).values startTS with
    | some c => if c.valueType ≠ .typeRollback then .ok [] else .error (.errRetryable "txn not found")
    | none => .error (.errRetryable "txn not found")

def MVCCLevelDB.commit (s : MVCCLevelDB K V) (keys : List K) (startTS commitTS : Nat) :
    Except (MvccError K V) Unit × MVCCLevelDB K V :=
  match keys.mapM fun k => commitKey s k startTS commitTS with
  | .ok batches => (.ok (), s.write batches.flatten)
  | .error e => (.error e, s)

/-- `rollbackLock`: a rollback record at `startTS`, and the lock removed. -/
def rollbackLock (key : K) (startTS : Nat) : List (BatchOp K V) :=
  [.putValue key ⟨.typeRollback, startTS, startTS, none⟩, .deleteLock key]

/-- `rollbackKey`. Its test `iter.Valid()` only skips the reads when the store holds nothing at or
after the key, where they would find nothing either. -/
def rollbackKey (s : MVCCLevelDB K V) (key : K) (startTS : Nat) :
    Except (MvccError K V) (List (BatchOp K V)) :=
  match (s.db key).txnLock startTS with
  | some _ => .ok (rollbackLock key startTS)
  | none =>
    match getTxnCommitInfo (s.db key).values startTS with
    | some c => if c.valueType ≠ .typeRollback then .error (.errAlreadyCommitted c.commitTS) else .ok []
    -- the transaction never prewrote the key: a rollback record keeps a late prewrite out
    | none => .ok [.putValue key ⟨.typeRollback, startTS, startTS, none⟩]

/-- `Rollback`, the handler of `BatchRollback`. -/
def MVCCLevelDB.rollback (s : MVCCLevelDB K V) (keys : List K) (startTS : Nat) :
    Except (MvccError K V) Unit × MVCCLevelDB K V :=
  match keys.mapM fun k => rollbackKey s k startTS with
  | .ok batches => (.ok (), s.write batches.flatten)
  | .error e => (.error e, s)

/-- `oracle.ExtractPhysical`: the milliseconds of a timestamp. -/
def extractPhysical (ts : Nat) : Nat := ts >>> 18

/-- What `CheckTxnStatus` returns: `(ttl, commitTS, action)`. -/
structure TxnStatus where
  ttl : Nat
  commitTS : Nat
  action : Action
  deriving DecidableEq, Repr

/-- `CheckTxnStatus`: the TTL of a live primary lock, the commit timestamp of a committed
transaction, and `(0, 0)` otherwise. A primary lock whose TTL has passed at `currentTS` is rolled
back. When the primary key holds neither a lock nor a value of the transaction the answer is
`(0, 0)` as well, and nothing is written. -/
def MVCCLevelDB.checkTxnStatus (s : MVCCLevelDB K V) (primaryKey : K) (lockTS currentTS : Nat) :
    TxnStatus × MVCCLevelDB K V :=
  match (s.db primaryKey).txnLock lockTS with
  | some lock =>
    if extractPhysical lock.startTS + lock.ttl < extractPhysical currentTS then
      (⟨0, 0, .ttlExpireRollback⟩, s.write (rollbackLock primaryKey lockTS))
    else (⟨lock.ttl, 0, .noAction⟩, s)
  | none =>
    match getTxnCommitInfo (s.db primaryKey).values lockTS with
    | some c =>
      if c.valueType ≠ .typeRollback then (⟨0, c.commitTS, .noAction⟩, s)
      else (⟨0, 0, .noAction⟩, s)
    | none => (⟨0, 0, .noAction⟩, s)

/-- `ResolveLock` on the keys of a region: every lock of the transaction is committed at
`commitTS`, or rolled back when `commitTS = 0`. -/
def MVCCLevelDB.resolveLock (s : MVCCLevelDB K V) (keys : List K) (startTS commitTS : Nat) :
    MVCCLevelDB K V :=
  s.write <| keys.flatMap fun k =>
    match (s.db k).txnLock startTS with
    | some l => if commitTS > 0 then commitLock l k startTS commitTS else rollbackLock k startTS
    | none => []

/-- `mvccLock.check`: a read at `ts` is blocked by a `Put` or `Del` lock that started at or
before `ts`; a point get of the latest version reads below its own primary lock. -/
def MvccLock.check (l : MvccLock K V) (ts : Nat) (key : K) : Except (MvccError K V) Nat :=
  if l.startTS > ts || l.op.isLock then .ok ts
  else if ts = 2 ^ 64 - 1 ∧ l.primary = key then .ok (l.startTS - 1)
  else .error (l.lockErr key)

/-- `getValue`: the newest committed value visible at `startTS`, none for a delete. -/
def getValue (e : Entry K V) (key : K) (startTS : Nat) : Except (MvccError K V) (Option V) := do
  let ts ← match e.lock with
    | some l => l.check startTS key
    | none => pure startTS
  match e.values.find? fun v => v.valueType != .typeRollback && v.commitTS ≤ ts with
  | some v => pure (if v.valueType = .typeDelete then none else v.value)
  | none => pure none

def MVCCLevelDB.get (s : MVCCLevelDB K V) (key : K) (startTS : Nat) :
    Except (MvccError K V) (Option V) :=
  getValue (s.db key) key startTS

/-- The requests of `rpcHandler` that reach the store. -/
inductive Request (K V : Type)
  | prewrite (mutations : List (Mutation K V)) (primary : K) (startTS lockTTL : Nat)
  | commit (keys : List K) (startTS commitTS : Nat)
  | batchRollback (keys : List K) (startTS : Nat)
  | checkTxnStatus (primaryKey : K) (lockTS currentTS : Nat)
  | resolveLock (keys : List K) (startTS commitTS : Nat)
  | get (key : K) (version : Nat)

/-- The store after it served a request. -/
def MVCCLevelDB.serve (s : MVCCLevelDB K V) : Request K V → MVCCLevelDB K V
  | .prewrite mutations primary startTS ttl => (s.prewrite mutations primary startTS ttl).2
  | .commit keys startTS commitTS => (s.commit keys startTS commitTS).2
  | .batchRollback keys startTS => (s.rollback keys startTS).2
  | .checkTxnStatus primaryKey lockTS currentTS => (s.checkTxnStatus primaryKey lockTS currentTS).2
  | .resolveLock keys startTS commitTS => s.resolveLock keys startTS commitTS
  | .get _ _ => s

/-! ### Writing a batch touches only its keys -/

@[simp] theorem MVCCLevelDB.write_nil (s : MVCCLevelDB K V) : s.write [] = s := rfl

@[simp] theorem MVCCLevelDB.write_append (s : MVCCLevelDB K V) (b₁ b₂ : List (BatchOp K V)) :
    s.write (b₁ ++ b₂) = (s.write b₁).write b₂ := by
  simp [MVCCLevelDB.write, List.foldl_append]

theorem MVCCLevelDB.apply_db (s : MVCCLevelDB K V) (op : BatchOp K V) (k : K) :
    (s.apply op).db k = if op.key = k then (s.db k).apply op else s.db k := by
  unfold MVCCLevelDB.apply
  split_ifs with h
  · subst h
    simp
  · simp [Function.update_of_ne (Ne.symm h)]

/-- The entry of a key after a batch is the entry before it with the batch's writes to that key
applied in order. -/
theorem MVCCLevelDB.write_db (s : MVCCLevelDB K V) (batch : List (BatchOp K V)) (k : K) :
    (s.write batch).db k = (batch.filter fun op => op.key = k).foldl Entry.apply (s.db k) := by
  induction batch generalizing s with
  | nil => rfl
  | cons op batch ih =>
    have hw : s.write (op :: batch) = (s.apply op).write batch := rfl
    rw [hw, ih, MVCCLevelDB.apply_db]
    by_cases h : op.key = k <;> simp [h]

theorem MVCCLevelDB.write_db_of_forall_ne (s : MVCCLevelDB K V) {batch : List (BatchOp K V)}
    {k : K} (h : ∀ op ∈ batch, op.key ≠ k) : (s.write batch).db k = s.db k := by
  rw [MVCCLevelDB.write_db, List.filter_eq_nil_iff.mpr (by simpa using h)]
  rfl

/-- A batch assembled from per-item batches, each writing the key of its item: a key's entry
after it is the entry before it with the batches of that key's items applied. -/
theorem MVCCLevelDB.write_flatMap_db {α : Type} (s : MVCCLevelDB K V) (xs : List α) (key : α → K)
    (f : α → List (BatchOp K V)) (hf : ∀ x ∈ xs, ∀ op ∈ f x, op.key = key x) (k : K) :
    (s.write (xs.flatMap f)).db k =
      ((xs.filter fun x => key x = k).flatMap f).foldl Entry.apply (s.db k) := by
  rw [MVCCLevelDB.write_db]
  congr 1
  induction xs with
  | nil => rfl
  | cons x xs ih =>
    have hx : ∀ op ∈ f x, op.key = key x := hf x (List.mem_cons_self ..)
    rw [List.flatMap_cons, List.filter_append, ih fun y hy => hf y (List.mem_cons_of_mem _ hy)]
    by_cases h : key x = k
    · have hall : (f x).filter (fun op => op.key = k) = f x :=
        List.filter_eq_self.mpr fun op hop => by simp [hx op hop, h]
      simp [hall, h]
    · have hnone : (f x).filter (fun op => op.key = k) = [] :=
        List.filter_eq_nil_iff.mpr fun op hop => by simp [hx op hop, h]
      simp [hnone, h]

theorem filter_key_eq_singleton {α : Type} {xs : List α} (key : α → K) (hnd : (xs.map key).Nodup)
    {x : α} (hx : x ∈ xs) : (xs.filter fun y => key y = key x) = [x] := by
  induction xs with
  | nil => cases hx
  | cons y ys ih =>
    simp only [List.map_cons, List.nodup_cons, List.mem_map] at hnd
    rcases List.mem_cons.mp hx with rfl | hx'
    · have hnil : (ys.filter fun y => key y = key x) = [] :=
        List.filter_eq_nil_iff.mpr fun z hz h => hnd.1 ⟨z, hz, by simpa using h⟩
      simp [hnil]
    · have hne : key y ≠ key x := fun h => hnd.1 ⟨x, hx', h.symm⟩
      simp [hne, ih hnd.2 hx']

theorem filter_key_eq_nil {α : Type} {xs : List α} (key : α → K) {k : K}
    (h : ∀ x ∈ xs, key x ≠ k) : (xs.filter fun y => key y = k) = [] :=
  List.filter_eq_nil_iff.mpr fun x hx hk => h x hx (by simpa using hk)

/-- A value survives a batch that puts on its key no other value at its version. -/
theorem MVCCLevelDB.mem_values_write_of_mem {s : MVCCLevelDB K V} {batch : List (BatchOp K V)}
    {k : K} {w : MvccValue V} (h : w ∈ (s.db k).values)
    (hsame : ∀ v, BatchOp.putValue k v ∈ batch → v.commitTS = w.commitTS → v = w) :
    w ∈ ((s.write batch).db k).values := by
  rw [MVCCLevelDB.write_db]
  refine Entry.mem_values_foldl_of_mem h fun k' v hv => ?_
  obtain ⟨hmem, hkey⟩ := List.mem_filter.mp hv
  have : k' = k := by simpa [BatchOp.key] using of_decide_eq_true hkey
  subst this
  exact hsame v hmem

theorem MVCCLevelDB.mem_values_write_of_putValue {s : MVCCLevelDB K V} {batch : List (BatchOp K V)}
    {k : K} {w : MvccValue V} (h : BatchOp.putValue k w ∈ batch)
    (huniq : ∀ v, BatchOp.putValue k v ∈ batch → v.commitTS = w.commitTS → v = w) :
    w ∈ ((s.write batch).db k).values := by
  rw [MVCCLevelDB.write_db]
  refine Entry.mem_values_foldl_of_putValue (List.mem_filter.mpr ⟨h, by simp [BatchOp.key]⟩)
    fun k' v hv => ?_
  obtain ⟨hmem, hkey⟩ := List.mem_filter.mp hv
  have : k' = k := by simpa [BatchOp.key] using of_decide_eq_true hkey
  subst this
  exact huniq v hmem

theorem MVCCLevelDB.lock_write {s : MVCCLevelDB K V} {batch : List (BatchOp K V)} {k : K}
    {l : MvccLock K V} (h : ((s.write batch).db k).lock = some l) :
    (s.db k).lock = some l ∨ BatchOp.putLock k l ∈ batch := by
  rw [MVCCLevelDB.write_db] at h
  rcases Entry.lock_foldl h with h | ⟨k', hk'⟩
  · exact .inl h
  · obtain ⟨hmem, hkey⟩ := List.mem_filter.mp hk'
    have : k' = k := by simpa [BatchOp.key] using of_decide_eq_true hkey
    subst this
    exact .inr hmem

/-- The batch of a request that computes one batch per key of a list without repeats. -/
theorem MVCCLevelDB.write_flatten_db (s : MVCCLevelDB K V) {keys : List K}
    {batches : List (List (BatchOp K V))} (hlen : keys.length = batches.length)
    (hkey : ∀ k b, (k, b) ∈ keys.zip batches → ∀ op ∈ b, op.key = k) (hnd : keys.Nodup) (k : K) :
    (∃ b, (k, b) ∈ keys.zip batches ∧ (s.write batches.flatten).db k = b.foldl Entry.apply (s.db k)) ∨
      (k ∉ keys ∧ (s.write batches.flatten).db k = s.db k) := by
  have hflat : batches.flatten = (keys.zip batches).flatMap Prod.snd := by
    rw [List.flatMap_def, List.map_snd_zip (by omega)]
  have hfst : (keys.zip batches).map Prod.fst = keys := List.map_fst_zip (by omega)
  have hnd' : ((keys.zip batches).map Prod.fst).Nodup := by rwa [hfst]
  rw [hflat, MVCCLevelDB.write_flatMap_db s _ Prod.fst Prod.snd (fun p hp => hkey p.1 p.2 hp)]
  by_cases hk : k ∈ keys
  · left
    obtain ⟨p, hp, rfl⟩ : ∃ p ∈ keys.zip batches, p.1 = k := by
      rw [← hfst] at hk
      simpa using hk
    refine ⟨p.2, hp, ?_⟩
    rw [filter_key_eq_singleton Prod.fst hnd' hp]
    simp
  · right
    refine ⟨hk, ?_⟩
    have hne : ∀ p ∈ keys.zip batches, p.1 ≠ k := by
      intro p hp h
      rw [← h] at hk
      exact hk (List.of_mem_zip hp).1
    rw [filter_key_eq_nil Prod.fst hne]
    rfl

end TinySql.Mocktikv
