import Mathlib
import TinySql.Mocktikv.Store

/-!
# Committers and lock resolvers sharing one store

`store/tikv/2pc.go` and `store/tikv/lock_resolver.go` over the store of
`TinySql.Mocktikv.Store`. A committer (`twoPhaseCommitter.execute`) sends the prewrite requests of
all its batches at once and resends a batch whose keys were locked; when every batch is prewritten
it takes a commit timestamp from the oracle and commits the batch holding the primary key, and
after that the other batches in the background. A committer that fails cleans up: it rolls back
the primary batch and then the others. A lock resolver (`LockResolver.ResolveLocks`), handed a lock
by a read or a prewrite, asks `CheckTxnStatus` on the lock's primary key with a fresh timestamp
and, when the status has no TTL, resolves the region of the lock with it; the statuses it saw are
kept in the resolver's cache.

Requests travel in `Cluster.msgs` and the store serves any of them at any time, so they are
delayed and reordered at will; a response reaches its sender as the request is served. The oracle
hands out strictly increasing timestamps, by any amount, so that a TTL can expire at any point.
Region errors, RPC errors and the pessimistic path are left out.

The store's `CheckTxnStatus` handler is a parameter: the code's is `MVCCLevelDB.checkTxnStatus`.
-/

namespace TinySql.Tikv

open TinySql.Mocktikv

/-- What one transaction commits: its mutations in batches by region and size, the batch of the
primary key first and the primary key first in it, and the TTL of its locks. -/
structure TxnPlan (K V : Type) where
  batches : List (List (Mutation K V))
  lockTTL : Nat
  batches_ne : batches ≠ []
  primaryBatch_ne : batches.head batches_ne ≠ []
  /-- `c.keys` come from a map. -/
  keys_nodup : (batches.flatten.map Mutation.key).Nodup
  /-- `c.keys` lists the buffered puts and deletes before the locked keys, so the primary is a
  lock only in a transaction that writes nothing. -/
  primary_isLock : ((batches.head batches_ne).head primaryBatch_ne).op.isLock = true →
    ∀ m ∈ batches.flatten, m.op.isLock = true

/-- The state of one batch's prewrite. -/
inductive BatchState
  | inflight
  | locked
  | done
  deriving DecidableEq, Repr

inductive Phase
  | idle
  | prewriting (batches : List BatchState)
  | prewritten
  | committingPrimary (commitTS : Nat)
  | committed (commitTS : Nat)
  | cleaningUp
  | aborted
  deriving DecidableEq, Repr

structure Committer where
  startTS : Nat
  phase : Phase
  deriving DecidableEq, Repr

/-- A request on its way to the store, with what its sender needs of the response. -/
inductive Msg (ι K V : Type)
  | prewrite (txn : ι) (batch : Nat) (mutations : List (Mutation K V)) (primary : K)
      (startTS lockTTL : Nat)
  | commit (txn : ι) (isPrimary : Bool) (keys : List K) (startTS commitTS : Nat)
  | batchRollback (txn : ι) (isPrimary : Bool) (keys : List K) (startTS : Nat)
  | checkTxnStatus (region : List K) (primary : K) (lockTS currentTS : Nat)
  | resolveLock (region : List K) (startTS commitTS : Nat)
  deriving DecidableEq, Repr

structure Cluster (ι K V : Type) where
  store : MVCCLevelDB K V
  oracle : Nat
  txns : ι → Committer
  resolved : Nat → Option TxnStatus
  msgs : List (Msg ι K V)

/-- What the environment chooses at one step. `abort` is a committer giving up before its
commit: the prewrite backoff ran out, the schema check failed or the transaction is too old. -/
inductive Act (ι K : Type)
  | begin (txn : ι) (ts : Nat)
  | resend (txn : ι) (batch : Nat)
  | getCommitTS (txn : ι) (ts : Nat)
  | abort (txn : ι)
  | resolve (key : K) (region : List K) (ts : Nat) (useCache : Bool)
  | deliver (n : Nat)
  deriving DecidableEq, Repr

variable {ι K V : Type}

def TxnPlan.primaryBatch (p : TxnPlan K V) : List (Mutation K V) :=
  p.batches.head p.batches_ne

def TxnPlan.primary (p : TxnPlan K V) : K :=
  (p.primaryBatch.head p.primaryBatch_ne).key

/-- `c.keys`: every key the transaction writes or locks. -/
def TxnPlan.keys (p : TxnPlan K V) : List K :=
  p.batches.flatten.map Mutation.key

def batchKeys (b : List (Mutation K V)) : List K :=
  b.map Mutation.key

/-- The store and the committers of a cluster where nothing happened yet. -/
def Cluster.init (store : MVCCLevelDB K V) : Cluster ι K V :=
  ⟨store, 0, fun _ => ⟨0, .idle⟩, fun _ => none, []⟩

variable [DecidableEq ι] [DecidableEq K] (plans : ι → TxnPlan K V)
  (checkTxnStatus : MVCCLevelDB K V → K → Nat → Nat → TxnStatus × MVCCLevelDB K V)

def Cluster.setPhase (σ : Cluster ι K V) (i : ι) (ph : Phase) : Cluster ι K V :=
  { σ with txns := Function.update σ.txns i ⟨(σ.txns i).startTS, ph⟩ }

def Cluster.send (σ : Cluster ι K V) (ms : List (Msg ι K V)) : Cluster ι K V :=
  { σ with msgs := σ.msgs ++ ms }

def prewriteMsg (i : ι) (startTS : Nat) (n : Nat) (b : List (Mutation K V)) : Msg ι K V :=
  .prewrite i n b (plans i).primary startTS (plans i).lockTTL

/-- The deferred cleanup of `execute`: the primary batch is rolled back first. -/
def Cluster.cleanup (σ : Cluster ι K V) (i : ι) : Cluster ι K V :=
  (σ.setPhase i .cleaningUp).send
    [.batchRollback i true (batchKeys (plans i).primaryBatch) (σ.txns i).startTS]

/-- A prewrite response: the batch is done, or waits to be resent after its locks are resolved,
or the prewrite fails on any other error. -/
def Cluster.onPrewrite (σ : Cluster ι K V) (i : ι) (n : Nat) (errs : List (Option (MvccError K V))) :
    Cluster ι K V :=
  match (σ.txns i).phase with
  | .prewriting bs =>
    if errs.all Option.isNone then
      let bs := bs.set n .done
      σ.setPhase i (if bs.all (· == .done) then .prewritten else .prewriting bs)
    else if errs.all fun e => match e with | some (.errLocked ..) | none => true | _ => false then
      σ.setPhase i (.prewriting (bs.set n .locked))
    else σ.cleanup plans i
  | _ => σ

/-- The response to the commit of the primary batch decides the transaction. -/
def Cluster.onCommitPrimary (σ : Cluster ι K V) (i : ι) (r : Except (MvccError K V) Unit) :
    Cluster ι K V :=
  match (σ.txns i).phase, r with
  | .committingPrimary c, .ok () =>
    (σ.setPhase i (.committed c)).send <| (plans i).batches.tail.map fun b =>
      .commit i false (batchKeys b) (σ.txns i).startTS c
  | .committingPrimary _, .error _ => σ.cleanup plans i
  | _, _ => σ

def Cluster.onRollbackPrimary (σ : Cluster ι K V) (i : ι) (r : Except (MvccError K V) Unit) :
    Cluster ι K V :=
  match (σ.txns i).phase, r with
  | .cleaningUp, .ok () =>
    (σ.setPhase i .aborted).send <| (plans i).batches.tail.map fun b =>
      .batchRollback i false (batchKeys b) (σ.txns i).startTS
  | .cleaningUp, .error _ => σ.setPhase i .aborted
  | _, _ => σ

/-- The store serves a request, and its sender takes the response. -/
def Cluster.receive (σ : Cluster ι K V) : Msg ι K V → Cluster ι K V
  | .prewrite i n muts primary startTS ttl =>
    let r := σ.store.prewrite muts primary startTS ttl
    ({ σ with store := r.2 }).onPrewrite plans i n r.1
  | .commit i isPrimary keys startTS commitTS =>
    let r := σ.store.commit keys startTS commitTS
    if isPrimary then ({ σ with store := r.2 }).onCommitPrimary plans i r.1
    else { σ with store := r.2 }
  | .batchRollback i isPrimary keys startTS =>
    let r := σ.store.rollback keys startTS
    if isPrimary then ({ σ with store := r.2 }).onRollbackPrimary plans i r.1
    else { σ with store := r.2 }
  | .checkTxnStatus region primary lockTS currentTS =>
    let r := checkTxnStatus σ.store primary lockTS currentTS
    -- a status without TTL is final: it is cached and the lock's region is resolved with it
    if r.1.ttl ≠ 0 then { σ with store := r.2 }
    else
      { σ with store := r.2, resolved := Function.update σ.resolved lockTS (some r.1) }.send
        [.resolveLock region lockTS r.1.commitTS]
  | .resolveLock region startTS commitTS =>
    { σ with store := σ.store.resolveLock region startTS commitTS }

def Cluster.exec (σ : Cluster ι K V) : Act ι K → Option (Cluster ι K V)
  | .begin i ts =>
    match (σ.txns i).phase with
    | .idle =>
      if σ.oracle < ts then
        some <| { σ with
          oracle := ts
          txns := Function.update σ.txns i ⟨ts, .prewriting ((plans i).batches.map fun _ => .inflight)⟩
          msgs := σ.msgs ++ (plans i).batches.zipIdx.map fun (b, n) => prewriteMsg plans i ts n b }
      else none
    | _ => none
  | .resend i n =>
    match (σ.txns i).phase, (plans i).batches[n]? with
    | .prewriting bs, some b =>
      if bs[n]? = some .locked then
        some <| (σ.setPhase i (.prewriting (bs.set n .inflight))).send
          [prewriteMsg plans i (σ.txns i).startTS n b]
      else none
    | _, _ => none
  | .getCommitTS i ts =>
    match (σ.txns i).phase with
    | .prewritten =>
      if σ.oracle < ts then
        let σ := { σ with oracle := ts }
        -- `Invalid transaction tso`: the commit timestamp must be above the start timestamp
        if ts ≤ (σ.txns i).startTS then some (σ.cleanup plans i)
        else
          some <| (σ.setPhase i (.committingPrimary ts)).send
            [.commit i true (batchKeys (plans i).primaryBatch) (σ.txns i).startTS ts]
      else none
    | _ => none
  | .abort i =>
    match (σ.txns i).phase with
    | .prewriting _ | .prewritten => some (σ.cleanup plans i)
    | _ => none
  | .resolve k region ts useCache =>
    -- `getTxnStatusFromLock` takes the current timestamp before it looks at the cache; a
    -- cached status may have been evicted, so the resolver may ask again
    match (σ.store.db k).lock with
    | some l =>
      if k ∈ region ∧ region.Nodup ∧ σ.oracle < ts then
        let σ := { σ with oracle := ts }
        match (if useCache then σ.resolved l.startTS else none) with
        | some st => some (σ.send [.resolveLock region l.startTS st.commitTS])
        | none => some (σ.send [.checkTxnStatus region l.primary l.startTS ts])
      else none
    | none => none
  | .deliver n =>
    match σ.msgs[n]? with
    | some m => some (({ σ with msgs := σ.msgs.eraseIdx n }).receive plans checkTxnStatus m)
    | none => none

def Cluster.Step (σ σ' : Cluster ι K V) : Prop :=
  ∃ a, σ.exec plans checkTxnStatus a = some σ'

/-- The states of the runs from `init`. -/
def Cluster.Reachable (init σ : Cluster ι K V) : Prop :=
  Relation.ReflTransGen (Cluster.Step plans checkTxnStatus) init σ

def Cluster.run (σ : Cluster ι K V) : List (Act ι K) → Option (Cluster ι K V)
  | [] => some σ
  | a :: as => (σ.exec plans checkTxnStatus a).bind fun σ' => σ'.run as

theorem Cluster.reachable_of_run {init σ σ' : Cluster ι K V} {as : List (Act ι K)}
    (hσ : Cluster.Reachable plans checkTxnStatus init σ)
    (h : σ.run plans checkTxnStatus as = some σ') :
    Cluster.Reachable plans checkTxnStatus init σ' := by
  induction as generalizing σ with
  | nil =>
    cases h
    exact hσ
  | cons a as ih =>
    simp only [Cluster.run, Option.bind_eq_some_iff] at h
    obtain ⟨σ₁, h₁, h₂⟩ := h
    exact ih (hσ.tail ⟨a, h₁⟩) h₂

/-- A run whose end satisfies `p` shows a reachable state that satisfies it. -/
theorem Cluster.exists_reachable_of_run (init : Cluster ι K V) (as : List (Act ι K))
    (p : Cluster ι K V → Bool) (h : (init.run plans checkTxnStatus as).any p = true) :
    ∃ σ, Cluster.Reachable plans checkTxnStatus init σ ∧ p σ = true := by
  cases hr : init.run plans checkTxnStatus as with
  | none => simp [hr] at h
  | some σ =>
    rw [hr] at h
    exact ⟨σ, Cluster.reachable_of_run plans checkTxnStatus .refl hr, by simpa using h⟩

/-! ### Atomicity and lost updates -/

/-- A transaction that began is atomic when no key of it holds a write of it while another holds
a rollback of it. -/
def TxnAtomic (σ : Cluster ι K V) (i : ι) : Prop :=
  (σ.txns i).phase ≠ .idle →
    ¬ ∃ k₁ ∈ (plans i).keys, ∃ k₂ ∈ (plans i).keys,
      HasWrite (σ.store.db k₁) (σ.txns i).startTS ∧ HasRollback (σ.store.db k₂) (σ.txns i).startTS

instance (σ : Cluster ι K V) (i : ι) : Decidable (TxnAtomic plans σ i) :=
  inferInstanceAs (Decidable (_ → _))

/-- One transaction writing the keys `0` (its primary) and `1`, in two batches. -/
def twoKeyPlan : TxnPlan Nat Nat :=
  ⟨[[⟨.put 7, 0⟩], [⟨.put 8, 1⟩]], 3000, by simp, by simp, by decide, by decide⟩

/-- The prewrite of the primary is delayed. A resolver that met the lock on key `1` asks for the
status at the primary, which holds nothing yet: `CheckTxnStatus` answers `(0, 0)` without writing
a rollback record, and the resolver rolls key `1` back. The delayed prewrite then succeeds, and the
transaction commits its primary. -/
def primaryDelayedTrace : List (Act Unit Nat) :=
  [.begin () 1, .deliver 1, .resolve 1 [1] 2 false, .deliver 1, .deliver 1, .deliver 0,
    .getCommitTS () 3, .deliver 0, .deliver 0]

theorem committed_txn_not_atomic :
    ∃ σ, Cluster.Reachable (fun _ => twoKeyPlan) MVCCLevelDB.checkTxnStatus
        (Cluster.init MVCCLevelDB.empty) σ ∧
      (σ.txns ()).phase = .committed 3 ∧ ¬ TxnAtomic (fun _ => twoKeyPlan) σ () := by
  obtain ⟨σ, hσ, h⟩ := Cluster.exists_reachable_of_run (fun _ => twoKeyPlan)
    MVCCLevelDB.checkTxnStatus (Cluster.init MVCCLevelDB.empty) primaryDelayedTrace
    (fun σ => decide ((σ.txns ()).phase = .committed 3 ∧
      ¬ TxnAtomic (fun _ => twoKeyPlan) σ ())) (by decide)
  exact ⟨σ, hσ, of_decide_eq_true h⟩

/-- The keys a transaction puts or deletes. -/
def TxnPlan.writeKeys (p : TxnPlan K V) : List K :=
  (p.batches.flatten.filter fun m => !m.op.isLock).map Mutation.key

/-- Transaction `i` committed at `c`: its primary key holds its write at `c`. -/
def PrimaryCommitted (σ : Cluster ι K V) (i : ι) (c : Nat) : Prop :=
  ∃ v ∈ (σ.store.db (plans i).primary).values,
    v.startTS = (σ.txns i).startTS ∧ v.valueType ≠ .typeRollback ∧ v.commitTS = c

instance (σ : Cluster ι K V) (i : ι) (c : Nat) : Decidable (PrimaryCommitted plans σ i c) :=
  inferInstanceAs (Decidable (∃ v ∈ _, _))

/-- Two committed transactions that write a common key, and neither committed before the other
started. -/
def LostUpdate (σ : Cluster ι K V) (i j : ι) : Prop :=
  i ≠ j ∧ (∃ k ∈ (plans i).writeKeys, k ∈ (plans j).writeKeys) ∧
    ∃ ci cj, PrimaryCommitted plans σ i ci ∧ PrimaryCommitted plans σ j cj ∧
      (σ.txns j).startTS ≤ ci ∧ (σ.txns i).startTS ≤ cj

/-- Transaction `false` is `twoKeyPlan`; transaction `true` writes key `1` alone. -/
def sharedKeyPlans : Bool → TxnPlan Nat Nat
  | false => twoKeyPlan
  | true => ⟨[[⟨.put 9, 1⟩]], 3000, by simp, by simp, by decide, by decide⟩

/-- Transaction `false` (start `1`) locks key `1` and its primary prewrite is delayed. Transaction
`true` (start `2`) meets that lock; its resolver's `CheckTxnStatus` finds nothing on key `0` and
rolls key `1` back, so the second prewrite of `true` passes the conflict check against the
rollback record at `1 < 2` and commits at `4`. The delayed prewrite of `false` then succeeds and
`false` commits at `5`. -/
def lostUpdateTrace : List (Act Bool Nat) :=
  [.begin false 1, .deliver 1, .begin true 2, .deliver 1, .resolve 1 [1] 3 false, .deliver 1,
    .deliver 1, .resend true 0, .deliver 1, .getCommitTS true 4, .deliver 1, .deliver 0,
    .getCommitTS false 5, .deliver 0]

theorem committed_txns_lose_update :
    ∃ σ, Cluster.Reachable sharedKeyPlans MVCCLevelDB.checkTxnStatus
        (Cluster.init MVCCLevelDB.empty) σ ∧ LostUpdate sharedKeyPlans σ false true := by
  obtain ⟨σ, hσ, h⟩ := Cluster.exists_reachable_of_run sharedKeyPlans
    MVCCLevelDB.checkTxnStatus (Cluster.init MVCCLevelDB.empty) lostUpdateTrace
    (fun σ => decide (PrimaryCommitted sharedKeyPlans σ false 5 ∧
      PrimaryCommitted sharedKeyPlans σ true 4 ∧ (σ.txns true).startTS ≤ 5 ∧
      (σ.txns false).startTS ≤ 4)) (by decide)
  obtain ⟨h₁, h₂, h₃, h₄⟩ := of_decide_eq_true h
  exact ⟨σ, hσ, Bool.false_ne_true, ⟨1, by decide, by decide⟩, 5, 4, h₁, h₂, h₃, h₄⟩

end TinySql.Tikv
