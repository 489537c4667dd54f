import TinySql.Mocktikv.KeyInv

/-!
# Failed requests write nothing, repeated requests nothing more

`Prewrite`, `Commit` and `Rollback` collect their writes in a batch and write it only when every
key succeeded, so a request that fails leaves the store as it was. A client that hears nothing back
sends the request again, and the second one finds the store as the first left it:

* a repeated prewrite finds its own lock on every key and puts the same locks again;
* a repeated commit finds no lock of its transaction on its keys, so it writes nothing; it fails
  when a key was locked with `Op_Lock`, whose commit leaves no value to find;
* a repeated rollback finds no lock of its transaction but finds its records, so it writes nothing.

None of this needs the store to be well formed, nor the keys of a request to be distinct.
-/

namespace TinySql.Mocktikv

open TinySql.Lib

variable {K V : Type}

/-! ### Batches of locks -/

/-- A batch of lock puts leaves the lock of its last put. -/
theorem Entry.foldl_putLocks {ops : List (BatchOp K V)} (hops : ∀ op ∈ ops, ∃ k l, op = .putLock k l)
    (hne : ops ≠ []) (e : Entry K V) : ops.foldl Entry.apply e = e.apply (ops.getLast hne) := by
  induction ops generalizing e with
  | nil => exact absurd rfl hne
  | cons op ops ih =>
    obtain ⟨k, l, rfl⟩ := hops op List.mem_cons_self
    by_cases hnil : ops = []
    · subst hnil
      rfl
    · obtain ⟨k', l', hlast⟩ := hops _ (List.mem_cons_of_mem _ (List.getLast_mem hnil))
      rw [List.foldl_cons, ih (fun op h => hops op (List.mem_cons_of_mem _ h)) hnil,
        List.getLast_cons hnil, hlast]
      rfl

theorem Entry.foldl_putLocks_idem {ops : List (BatchOp K V)}
    (hops : ∀ op ∈ ops, ∃ k l, op = .putLock k l) (e : Entry K V) :
    ops.foldl Entry.apply (ops.foldl Entry.apply e) = ops.foldl Entry.apply e := by
  by_cases hne : ops = []
  · subst hne
    rfl
  · obtain ⟨k, l, hlast⟩ := hops _ (List.getLast_mem hne)
    rw [Entry.foldl_putLocks hops hne, Entry.foldl_putLocks hops hne, hlast]
    rfl

/-- With no lock put, and a lock removed or none to begin with, a batch leaves no lock. -/
theorem Entry.lock_foldl_eq_none {e : Entry K V} {ops : List (BatchOp K V)}
    (hput : ∀ k l, BatchOp.putLock k l ∉ ops)
    (hdel : e.lock = none ∨ ∃ k, BatchOp.deleteLock k ∈ ops) :
    (ops.foldl Entry.apply e).lock = none := by
  induction ops generalizing e with
  | nil =>
    rcases hdel with h | ⟨k, hk⟩
    · exact h
    · cases hk
  | cons op ops ih =>
    refine ih (fun k l h => hput k l (List.mem_cons_of_mem _ h)) ?_
    cases op with
    | putLock k l => exact absurd List.mem_cons_self (hput k l)
    | putValue k v =>
      rcases hdel with h | ⟨k', hk'⟩
      · exact .inl h
      · rcases List.mem_cons.mp hk' with h | h
        · cases h
        · exact .inr ⟨k', h⟩
    | deleteLock k => exact .inl rfl

theorem MVCCLevelDB.ext_db {s t : MVCCLevelDB K V} (h : ∀ k, s.db k = t.db k) : s = t := by
  cases s
  cases t
  congr
  exact funext h

/-- A write of a request that builds one batch per key lies in the batch of its own key. -/
theorem mem_flatten_of_mapM {f : K → Except (MvccError K V) (List (BatchOp K V))}
    {keys : List K} {bs : List (List (BatchOp K V))} (hb : keys.mapM f = .ok bs)
    (hkey : ∀ k ops, f k = .ok ops → ∀ op ∈ ops, op.key = k) {op : BatchOp K V}
    (h : op ∈ bs.flatten) : ∃ ops, f op.key = .ok ops ∧ op ∈ ops := by
  obtain ⟨b, hb', hop⟩ := List.mem_flatten.mp h
  obtain ⟨k, -, hk⟩ := mapM_ok_mem hb hb'
  rw [hkey k b hk op hop]
  exact ⟨b, hk, hop⟩

/-- A mutation finds the lock of its own transaction and puts it again. -/
theorem prewriteMutation_of_lock {s : MVCCLevelDB K V} {m : Mutation K V} {startTS ttl : Nat}
    {primary : K} {l : MvccLock K V} (hl : (s.db m.key).lock = some l) (hs : l.startTS = startTS) :
    prewriteMutation s m startTS primary ttl = .ok (.putLock m.key ⟨startTS, primary, m.op, ttl⟩) := by
  simp [prewriteMutation, hl, hs]

/-! ### What one key's batch holds -/

section OneKey

variable {s : MVCCLevelDB K V} {startTS commitTS : Nat}

theorem commitKey_putLock {k k' : K} {ops : List (BatchOp K V)}
    (h : commitKey s k startTS commitTS = .ok ops) (l : MvccLock K V) : BatchOp.putLock k' l ∉ ops := by
  rcases commitKey_eq_ok h with ⟨l', -, rfl⟩ | ⟨-, rfl⟩
  · exact putLock_not_mem_commitLock l' k k' startTS commitTS l
  · simp

theorem rollbackKey_putLock {k k' : K} {ops : List (BatchOp K V)}
    (h : rollbackKey s k startTS = .ok ops) (l : MvccLock K V) : BatchOp.putLock k' l ∉ ops := by
  rcases rollbackKey_eq_ok h with ⟨-, -, rfl⟩ | ⟨-, rfl⟩ | ⟨-, -, rfl⟩ <;> simp [rollbackLock]

theorem commitKey_deleteLock {k : K} {ops : List (BatchOp K V)} {l : MvccLock K V}
    (h : commitKey s k startTS commitTS = .ok ops) (hl : (s.db k).txnLock startTS = some l) :
    BatchOp.deleteLock k ∈ ops := by
  simp only [commitKey, hl, Except.ok.injEq] at h
  subst h
  simp [commitLock_eq]

theorem rollbackKey_deleteLock {k : K} {ops : List (BatchOp K V)} {l : MvccLock K V}
    (h : rollbackKey s k startTS = .ok ops) (hl : (s.db k).txnLock startTS = some l) :
    BatchOp.deleteLock k ∈ ops := by
  simp only [rollbackKey, hl, Except.ok.injEq] at h
  subst h
  simp [rollbackLock]

/-- A key without the transaction's lock gives a commit nothing to write. -/
theorem commitKey_of_txnLock_none {k : K} {ops : List (BatchOp K V)}
    (hl : (s.db k).txnLock startTS = none) (h : commitKey s k startTS commitTS = .ok ops) : ops = [] := by
  rcases commitKey_eq_ok h with ⟨l, hl', -⟩ | ⟨-, rfl⟩
  · rw [hl] at hl'
    cases hl'
  · rfl

/-- A key with a record of the transaction but not its lock gives a rollback nothing to write. -/
theorem rollbackKey_of_txnLock_none {k : K} {ops : List (BatchOp K V)}
    (hl : (s.db k).txnLock startTS = none) (hc : ∃ v ∈ (s.db k).values, v.startTS = startTS)
    (h : rollbackKey s k startTS = .ok ops) : ops = [] := by
  rcases rollbackKey_eq_ok h with ⟨l, hl', -⟩ | ⟨-, rfl⟩ | ⟨-, hc', -⟩
  · rw [hl] at hl'
    cases hl'
  · rfl
  · obtain ⟨v, hv, hvs⟩ := hc
    exact absurd hvs (getTxnCommitInfo_eq_none.mp hc' v hv)

end OneKey

variable [DecidableEq K]

theorem MVCCLevelDB.mem_filter_key {batch : List (BatchOp K V)} {k : K} {op : BatchOp K V} :
    op ∈ batch.filter (fun op => op.key = k) ↔ op ∈ batch ∧ op.key = k := by
  simp

theorem MVCCLevelDB.write_write_of_putLocks (s : MVCCLevelDB K V) {batch : List (BatchOp K V)}
    (hops : ∀ op ∈ batch, ∃ k l, op = .putLock k l) : (s.write batch).write batch = s.write batch := by
  refine MVCCLevelDB.ext_db fun k => ?_
  rw [MVCCLevelDB.write_db, MVCCLevelDB.write_db]
  exact Entry.foldl_putLocks_idem (fun op h => hops op (MVCCLevelDB.mem_filter_key.mp h).1) _

/-- After a batch of lock puts, a key it puts a lock on holds one of the locks put on it. -/
theorem MVCCLevelDB.lock_write_of_putLocks (s : MVCCLevelDB K V) {batch : List (BatchOp K V)}
    (hops : ∀ op ∈ batch, ∃ k l, op = .putLock k l) {k : K} {l₀ : MvccLock K V}
    (hk : BatchOp.putLock k l₀ ∈ batch) :
    ∃ l, ((s.write batch).db k).lock = some l ∧ BatchOp.putLock k l ∈ batch := by
  have hops' : ∀ op ∈ batch.filter (fun op => op.key = k), ∃ k l, op = .putLock k l :=
    fun op h => hops op (MVCCLevelDB.mem_filter_key.mp h).1
  have hne : batch.filter (fun op => op.key = k) ≠ [] :=
    List.ne_nil_of_mem (MVCCLevelDB.mem_filter_key.mpr ⟨hk, rfl⟩)
  obtain ⟨k', l, hlast⟩ := hops' _ (List.getLast_mem hne)
  obtain ⟨hmem, hkey⟩ := MVCCLevelDB.mem_filter_key.mp (hlast ▸ List.getLast_mem hne)
  cases hkey
  refine ⟨l, ?_, hmem⟩
  rw [MVCCLevelDB.write_db, Entry.foldl_putLocks hops' hne, hlast]
  rfl

theorem MVCCLevelDB.lock_write_eq_none (s : MVCCLevelDB K V) {batch : List (BatchOp K V)} {k : K}
    (hput : ∀ l, BatchOp.putLock k l ∉ batch) (hdel : BatchOp.deleteLock k ∈ batch) :
    ((s.write batch).db k).lock = none := by
  rw [MVCCLevelDB.write_db]
  refine Entry.lock_foldl_eq_none (fun k' l h => ?_)
    (.inr ⟨k, MVCCLevelDB.mem_filter_key.mpr ⟨hdel, rfl⟩⟩)
  obtain ⟨hmem, hkey⟩ := MVCCLevelDB.mem_filter_key.mp h
  cases hkey
  exact hput l hmem

/-! ### Requests that write a batch per key -/

section PerKey

variable {s : MVCCLevelDB K V} {f : K → Except (MvccError K V) (List (BatchOp K V))}
  {keys : List K} {bs : List (List (BatchOp K V))}

/-- When every key's batch is empty, the request writes nothing. -/
theorem MVCCLevelDB.write_flatten_of_forall_nil (hb : keys.mapM f = .ok bs)
    (hnil : ∀ k ∈ keys, ∀ ops, f k = .ok ops → ops = []) : s.write bs.flatten = s := by
  have hflat : bs.flatten = [] := List.flatten_eq_nil_iff.mpr fun b hb' => by
    obtain ⟨k, hk, hkb⟩ := mapM_ok_mem hb hb'
    exact hnil k hk b hkb
  rw [hflat]
  rfl

/-- A request whose batches put no lock, and remove the transaction's lock wherever it was, leaves
none of its keys locked by the transaction. -/
theorem MVCCLevelDB.txnLock_write_flatten {startTS : Nat} (hb : keys.mapM f = .ok bs)
    (hkey : ∀ k ops, f k = .ok ops → ∀ op ∈ ops, op.key = k)
    (hput : ∀ k ops, f k = .ok ops → ∀ l, BatchOp.putLock k l ∉ ops)
    (hdel : ∀ k ops l, f k = .ok ops → (s.db k).txnLock startTS = some l → BatchOp.deleteLock k ∈ ops)
    {k : K} (hk : k ∈ keys) : ((s.write bs.flatten).db k).txnLock startTS = none := by
  cases hl : ((s.write bs.flatten).db k).txnLock startTS with
  | none => rfl
  | some l =>
    obtain ⟨hlock, hs⟩ := Entry.txnLock_eq_some.mp hl
    have hput' : ∀ l', BatchOp.putLock k l' ∉ bs.flatten := fun l' h => by
      obtain ⟨ops, hops, hmem⟩ := mem_flatten_of_mapM hb hkey h
      exact hput k ops hops l' hmem
    -- the request put no lock, so the transaction's lock was there before, and it was removed
    have hold : (s.db k).lock = some l := (MVCCLevelDB.lock_write hlock).resolve_right (hput' l)
    obtain ⟨ops, hops, hkops⟩ := mapM_ok_of_mem hb hk
    have hdel' : BatchOp.deleteLock k ∈ bs.flatten :=
      List.mem_flatten.mpr ⟨ops, hops, hdel k ops l hkops (Entry.txnLock_eq_some.mpr ⟨hold, hs⟩)⟩
    rw [s.lock_write_eq_none hput' hdel'] at hlock
    cases hlock

end PerKey

/-- A repeated prewrite finds the locks the first one put and puts them again. -/
theorem MVCCLevelDB.prewrite_retry (s : MVCCLevelDB K V) {mutations : List (Mutation K V)}
    {primary : K} {startTS ttl : Nat}
    (hall : (s.prewrite mutations primary startTS ttl).1.all Option.isNone) :
    ((s.prewrite mutations primary startTS ttl).2.prewrite mutations primary startTS ttl).2 =
      (s.prewrite mutations primary startTS ttl).2 := by
  set batch : List (BatchOp K V) :=
    mutations.flatMap fun m => [.putLock m.key ⟨startTS, primary, m.op, ttl⟩] with hbatch
  have hops : ∀ op ∈ batch, ∃ k l, op = .putLock k l := by
    intro op hop
    obtain ⟨m, -, hm⟩ := List.mem_flatMap.mp hop
    exact ⟨_, _, List.mem_singleton.mp hm⟩
  rw [s.prewrite_of_forall_ok fun m hm => s.prewriteMutation_of_all_isNone hall hm]
  -- every key of the batch now holds one of the batch's locks, all of the transaction
  have hok : ∀ m ∈ mutations, prewriteMutation (s.write batch) m startTS primary ttl =
      .ok (.putLock m.key ⟨startTS, primary, m.op, ttl⟩) := by
    intro m hm
    obtain ⟨l, hl, hmem⟩ :=
      s.lock_write_of_putLocks hops (List.mem_flatMap.mpr ⟨m, hm, List.mem_singleton_self _⟩)
    obtain ⟨m', -, hm'⟩ := List.mem_flatMap.mp hmem
    obtain ⟨-, rfl⟩ := BatchOp.putLock.inj (List.mem_singleton.mp hm')
    exact prewriteMutation_of_lock hl rfl
  rw [(s.write batch).prewrite_of_forall_ok hok]
  exact s.write_write_of_putLocks hops

/-! ### Commit and rollback -/

section CommitRollback

variable {s : MVCCLevelDB K V} {keys : List K} {startTS commitTS : Nat}

theorem MVCCLevelDB.commit_eq_ok (h : (s.commit keys startTS commitTS).1 = .ok ()) :
    ∃ bs, keys.mapM (fun k => commitKey s k startTS commitTS) = .ok bs ∧
      (s.commit keys startTS commitTS).2 = s.write bs.flatten := by
  cases hb : keys.mapM fun k => commitKey s k startTS commitTS with
  | error e => simp [MVCCLevelDB.commit, hb] at h
  | ok bs => exact ⟨bs, rfl, by simp [MVCCLevelDB.commit, hb]⟩

theorem MVCCLevelDB.commit_of_error {e : MvccError K V}
    (h : (s.commit keys startTS commitTS).1 = .error e) : (s.commit keys startTS commitTS).2 = s := by
  cases hb : keys.mapM fun k => commitKey s k startTS commitTS with
  | error e' => simp [MVCCLevelDB.commit, hb]
  | ok bs => simp [MVCCLevelDB.commit, hb] at h

theorem MVCCLevelDB.rollback_eq_ok (h : (s.rollback keys startTS).1 = .ok ()) :
    ∃ bs, keys.mapM (fun k => rollbackKey s k startTS) = .ok bs ∧
      (s.rollback keys startTS).2 = s.write bs.flatten := by
  cases hb : keys.mapM fun k => rollbackKey s k startTS with
  | error e => simp [MVCCLevelDB.rollback, hb] at h
  | ok bs => exact ⟨bs, rfl, by simp [MVCCLevelDB.rollback, hb]⟩

theorem MVCCLevelDB.rollback_of_error {e : MvccError K V}
    (h : (s.rollback keys startTS).1 = .error e) : (s.rollback keys startTS).2 = s := by
  cases hb : keys.mapM fun k => rollbackKey s k startTS with
  | error e' => simp [MVCCLevelDB.rollback, hb]
  | ok bs => simp [MVCCLevelDB.rollback, hb] at h

/-- After a rollback, each of its keys holds a record of the transaction. -/
theorem MVCCLevelDB.txnRecord_rollback {bs : List (List (BatchOp K V))}
    (hb : keys.mapM (fun k => rollbackKey s k startTS) = .ok bs) {k : K} (hk : k ∈ keys) :
    ∃ v ∈ ((s.write bs.flatten).db k).values, v.startTS = startTS := by
  obtain ⟨ops, hops, hkops⟩ := mapM_ok_of_mem hb hk
  -- every value the rollback puts on `k` comes from the batch of `k`
  have hown : ∀ v, BatchOp.putValue k v ∈ bs.flatten → BatchOp.putValue k v ∈ ops := by
    intro v hv
    obtain ⟨ops', hops', hmem⟩ := mem_flatten_of_mapM hb (fun _ _ h => rollbackKey_key h) hv
    rw [show (BatchOp.putValue k v).key = k from rfl, hkops] at hops'
    cases hops'
    exact hmem
  rcases rollbackKey_eq_ok hkops with ⟨l, -, rfl⟩ | ⟨⟨c, hc, -⟩, rfl⟩ | ⟨-, -, rfl⟩
  case inl =>
    refine ⟨_, s.mem_values_write_of_putValue (List.mem_flatten.mpr ⟨_, hops, List.mem_cons_self⟩)
      fun v hv _ => (putValue_mem_rollbackLock (hown v hv)).2, rfl⟩
  case inr.inl =>
    -- the record was there already, and nothing was put on the key
    obtain ⟨hcm, hcs⟩ := getTxnCommitInfo_spec hc
    exact ⟨c, s.mem_values_write_of_mem hcm fun v hv _ => absurd (hown v hv) List.not_mem_nil, hcs⟩
  case inr.inr =>
    refine ⟨_, s.mem_values_write_of_putValue
      (List.mem_flatten.mpr ⟨_, hops, List.mem_singleton_self _⟩) fun v hv _ => ?_, rfl⟩
    simpa using hown v hv

/-- A repeated commit finds no lock of the transaction on its keys and writes nothing. -/
theorem MVCCLevelDB.commit_retry (h : (s.commit keys startTS commitTS).1 = .ok ()) :
    ((s.commit keys startTS commitTS).2.commit keys startTS commitTS).2 =
      (s.commit keys startTS commitTS).2 := by
  obtain ⟨bs, hb, hs⟩ := MVCCLevelDB.commit_eq_ok h
  rw [hs]
  have hlock : ∀ k ∈ keys, ((s.write bs.flatten).db k).txnLock startTS = none :=
    fun k hk => MVCCLevelDB.txnLock_write_flatten hb (fun _ _ h => commitKey_key h)
      (fun _ _ h => commitKey_putLock h) (fun _ _ _ h hl => commitKey_deleteLock h hl) hk
  cases hb₁ : keys.mapM fun k => commitKey (s.write bs.flatten) k startTS commitTS with
  | error e => simp [MVCCLevelDB.commit, hb₁]
  | ok bs₁ =>
    simp only [MVCCLevelDB.commit, hb₁]
    exact MVCCLevelDB.write_flatten_of_forall_nil hb₁ fun k hk _ hops =>
      commitKey_of_txnLock_none (hlock k hk) hops

/-- A repeated rollback finds the records of the transaction on its keys and writes nothing. -/
theorem MVCCLevelDB.rollback_retry (h : (s.rollback keys startTS).1 = .ok ()) :
    ((s.rollback keys startTS).2.rollback keys startTS).2 = (s.rollback keys startTS).2 := by
  obtain ⟨bs, hb, hs⟩ := MVCCLevelDB.rollback_eq_ok h
  rw [hs]
  have hlock : ∀ k ∈ keys, ((s.write bs.flatten).db k).txnLock startTS = none :=
    fun k hk => MVCCLevelDB.txnLock_write_flatten hb (fun _ _ h => rollbackKey_key h)
      (fun _ _ h => rollbackKey_putLock h) (fun _ _ _ h hl => rollbackKey_deleteLock h hl) hk
  cases hb₁ : keys.mapM fun k => rollbackKey (s.write bs.flatten) k startTS with
  | error e => simp [MVCCLevelDB.rollback, hb₁]
  | ok bs₁ =>
    simp only [MVCCLevelDB.rollback, hb₁]
    exact MVCCLevelDB.write_flatten_of_forall_nil hb₁ fun k hk _ hops =>
      rollbackKey_of_txnLock_none (hlock k hk) (MVCCLevelDB.txnRecord_rollback hb hk) hops

end CommitRollback

/-! ### All or nothing, and safe to retry -/

theorem MVCCLevelDB.prewrite_of_any_isSome {s : MVCCLevelDB K V} {mutations : List (Mutation K V)}
    {primary : K} {startTS ttl : Nat} (h : (s.prewrite mutations primary startTS ttl).1.any Option.isSome) :
    (s.prewrite mutations primary startTS ttl).2 = s := by
  rcases s.prewrite_spec mutations primary startTS ttl with hs | ⟨hok, -⟩
  · exact hs
  · -- a prewrite in which every mutation takes its lock reports no error
    rw [MVCCLevelDB.prewrite_of_forall_ok hok] at h
    simp at h

/-- A `Prewrite` that reports an error, or a `Commit` or `Rollback` that fails, leaves the store as
it was; a successful one, sent again, leaves the store as the first left it. -/
theorem txn_requests_atomic_retry_safe (s : MVCCLevelDB K V) :
    (∀ (mutations : List (Mutation K V)) (primary : K) (startTS ttl : Nat),
      (s.prewrite mutations primary startTS ttl).1.any Option.isSome →
        (s.prewrite mutations primary startTS ttl).2 = s) ∧
    (∀ (keys : List K) (startTS commitTS : Nat) (e : MvccError K V),
      (s.commit keys startTS commitTS).1 = .error e → (s.commit keys startTS commitTS).2 = s) ∧
    (∀ (keys : List K) (startTS : Nat) (e : MvccError K V),
      (s.rollback keys startTS).1 = .error e → (s.rollback keys startTS).2 = s) ∧
    (∀ (mutations : List (Mutation K V)) (primary : K) (startTS ttl : Nat),
      (s.prewrite mutations primary startTS ttl).1.all Option.isNone →
        ((s.prewrite mutations primary startTS ttl).2.prewrite mutations primary startTS ttl).2 =
          (s.prewrite mutations primary startTS ttl).2) ∧
    (∀ (keys : List K) (startTS commitTS : Nat), (s.commit keys startTS commitTS).1 = .ok () →
      ((s.commit keys startTS commitTS).2.commit keys startTS commitTS).2 =
        (s.commit keys startTS commitTS).2) ∧
    (∀ (keys : List K) (startTS : Nat), (s.rollback keys startTS).1 = .ok () →
      ((s.rollback keys startTS).2.rollback keys startTS).2 = (s.rollback keys startTS).2) :=
  ⟨fun _ _ _ _ h => MVCCLevelDB.prewrite_of_any_isSome h,
    fun _ _ _ _ h => MVCCLevelDB.commit_of_error h,
    fun _ _ _ h => MVCCLevelDB.rollback_of_error h,
    fun _ _ _ _ h => s.prewrite_retry h,
    fun _ _ _ h => MVCCLevelDB.commit_retry h,
    fun _ _ h => MVCCLevelDB.rollback_retry h⟩

/-- Key `1` locked by the transaction that started at `5`: another transaction's prewrite of it
fails and writes nothing, and its commit at `6`, sent twice, writes once. -/
theorem txn_requests_atomic_retry_safe_locked :
    let s : MVCCLevelDB Nat Nat := (MVCCLevelDB.empty.prewrite [⟨.put 7, 1⟩] 1 5 3).2
    (s.prewrite [⟨.put 8, 1⟩] 1 9 3).1 = [some (.errLocked 1 1 5 3 (.put 7))] ∧
      (s.prewrite [⟨.put 8, 1⟩] 1 9 3).2 = s ∧
      (s.commit [1] 5 6).1 = .ok () ∧
      ((s.commit [1] 5 6).2.commit [1] 5 6).2 = (s.commit [1] 5 6).2 :=
  ⟨rfl, (txn_requests_atomic_retry_safe _).1 _ _ _ _ (by decide), rfl,
    (txn_requests_atomic_retry_safe _).2.2.2.2.1 _ _ _ rfl⟩

end TinySql.Mocktikv
