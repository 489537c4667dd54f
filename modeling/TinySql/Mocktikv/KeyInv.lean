import Mathlib
import TinySql.Mocktikv.Store

/-!
# What every key of the store keeps

Whatever the clients send, as long as a request names each key once and commits above the start
timestamp, every key of the store stays well formed (`Entry.Wf`): its values are newest first at
distinct versions, it holds at most one value per transaction, a write lies above the start of its
transaction and a rollback record at it, and no value of the transaction that holds the key's lock
is there. The last two are what `checkConflictValue` relies on when it reads the newest value only:
a key with a value of a transaction cannot be prewritten again by it. In particular no key ever
holds both a write and a rollback record of one transaction.
-/

namespace TinySql.Mocktikv

variable {K V : Type}

/-! ### Putting a version -/

theorem putVersion_sorted {v : MvccValue V} {vs : List (MvccValue V)}
    (h : vs.Pairwise fun a b => b.commitTS < a.commitTS) :
    (putVersion v vs).Pairwise fun a b => b.commitTS < a.commitTS := by
  induction vs with
  | nil => simp [putVersion]
  | cons w ws ih =>
    rw [List.pairwise_cons] at h
    unfold putVersion
    split_ifs with h₁ h₂
    · refine List.Pairwise.cons (fun b hb => ?_) (List.Pairwise.cons h.1 h.2)
      rcases List.mem_cons.mp hb with rfl | hb
      · exact h₁
      · exact Nat.lt_trans (h.1 b hb) h₁
    · exact List.Pairwise.cons (fun b hb => h₂ ▸ h.1 b hb) h.2
    · refine List.Pairwise.cons (fun b hb => ?_) (ih h.2)
      rcases mem_of_mem_putVersion hb with rfl | hb
      · omega
      · exact h.1 b hb

/-- A symmetric relation that the new value has with every old one still holds pairwise. -/
theorem putVersion_pairwise {R : MvccValue V → MvccValue V → Prop} {v : MvccValue V}
    {vs : List (MvccValue V)} (hR : ∀ w ∈ vs, R v w ∧ R w v) (h : vs.Pairwise R) :
    (putVersion v vs).Pairwise R := by
  induction vs with
  | nil => simp [putVersion]
  | cons w ws ih =>
    rw [List.pairwise_cons] at h
    have hws : ∀ u ∈ ws, R v u ∧ R u v := fun u hu => hR u (List.mem_cons_of_mem _ hu)
    unfold putVersion
    split_ifs
    · exact List.Pairwise.cons (fun b hb => (hR b hb).1) (List.Pairwise.cons h.1 h.2)
    · exact List.Pairwise.cons (fun b hb => (hws b hb).1) h.2
    · refine List.Pairwise.cons (fun b hb => ?_) (ih hws h.2)
      rcases mem_of_mem_putVersion hb with hbv | hb
      · rw [hbv]
        exact (hR w (List.mem_cons_self ..)).2
      · exact h.1 b hb

/-! ### Well-formed keys -/

structure Entry.Wf (e : Entry K V) : Prop where
  sorted : e.values.Pairwise fun v w => w.commitTS < v.commitTS
  one_per_txn : e.values.Pairwise fun v w => v.startTS ≠ w.startTS
  write_after_start : ∀ v ∈ e.values, v.valueType ≠ .typeRollback → v.startTS < v.commitTS
  rollback_at_start : ∀ v ∈ e.values, v.valueType = .typeRollback → v.commitTS = v.startTS
  lock_fresh : ∀ l, e.lock = some l → ∀ v ∈ e.values, v.startTS ≠ l.startTS

theorem Entry.Wf.start_le_commit {e : Entry K V} (h : e.Wf) {v : MvccValue V} (hv : v ∈ e.values) :
    v.startTS ≤ v.commitTS := by
  by_cases hr : v.valueType = .typeRollback
  · exact Nat.le_of_eq (h.rollback_at_start v hv hr).symm
  · exact Nat.le_of_lt (h.write_after_start v hv hr)

theorem eq_of_pairwise_startTS_ne {vs : List (MvccValue V)}
    (h : vs.Pairwise fun v w => v.startTS ≠ w.startTS) {v w : MvccValue V} (hv : v ∈ vs)
    (hw : w ∈ vs) (hs : v.startTS = w.startTS) : v = w := by
  induction vs with
  | nil => cases hv
  | cons u us ih =>
    rw [List.pairwise_cons] at h
    rcases List.mem_cons.mp hv with hv | hv <;> rcases List.mem_cons.mp hw with hw | hw
    · rw [hv, hw]
    · exact absurd (hv ▸ hs) (h.1 w hw)
    · exact absurd (hw ▸ hs.symm) (h.1 v hv)
    · exact ih h.2 hv hw

theorem Entry.Wf.eq_of_startTS_eq {e : Entry K V} (h : e.Wf) {v w : MvccValue V}
    (hv : v ∈ e.values) (hw : w ∈ e.values) (hs : v.startTS = w.startTS) : v = w :=
  eq_of_pairwise_startTS_ne h.one_per_txn hv hw hs

theorem Entry.Wf.not_write_and_rollback {e : Entry K V} (h : e.Wf) (startTS : Nat) :
    ¬ (HasWrite e startTS ∧ HasRollback e startTS) := by
  rintro ⟨⟨v, hv, hvs, hvw⟩, ⟨w, hw, hws, hwr⟩⟩
  have := h.eq_of_startTS_eq hv hw (hvs.trans hws.symm)
  subst this
  exact hvw hwr

theorem getTxnCommitInfo_eq_none {vs : List (MvccValue V)} {startTS : Nat} :
    getTxnCommitInfo vs startTS = none ↔ ∀ v ∈ vs, v.startTS ≠ startTS := by
  simp [getTxnCommitInfo, List.find?_eq_none]

theorem getTxnCommitInfo_spec {vs : List (MvccValue V)} {startTS : Nat} {c : MvccValue V}
    (h : getTxnCommitInfo vs startTS = some c) : c ∈ vs ∧ c.startTS = startTS :=
  ⟨List.mem_of_find?_eq_some h, by simpa using List.find?_some h⟩

/-- A key that passes the conflict check for `startTS` holds only values below it. -/
theorem Entry.Wf.commitTS_lt_of_checkConflictValue {e : Entry K V} (h : e.Wf) {m : Mutation K V}
    {startTS : Nat} (hc : checkConflictValue e.values m startTS = .ok ()) :
    ∀ v ∈ e.values, v.commitTS < startTS := by
  have hs := h.sorted
  revert hc hs
  cases e.values with
  | nil => simp
  | cons w ws =>
    intro hc hs v hv
    have hw : w.commitTS < startTS := by simpa [checkConflictValue] using hc
    rcases List.mem_cons.mp hv with rfl | hv
    · exact hw
    · exact Nat.lt_trans ((List.pairwise_cons.mp hs).1 v hv) hw

theorem Entry.Wf.fresh_of_checkConflictValue {e : Entry K V} (h : e.Wf) {m : Mutation K V}
    {startTS : Nat} (hc : checkConflictValue e.values m startTS = .ok ()) :
    ∀ v ∈ e.values, v.startTS ≠ startTS := fun v hv hs =>
  absurd (h.commitTS_lt_of_checkConflictValue hc v hv) (by have := h.start_le_commit hv; omega)

/-! ### What one write keeps -/

section Preserve

variable {e : Entry K V} {k : K}

/-- The facts on values that a put of a value of a new transaction keeps. -/
structure ValueFacts (vs : List (MvccValue V)) : Prop where
  sorted : vs.Pairwise fun v w => w.commitTS < v.commitTS
  one_per_txn : vs.Pairwise fun v w => v.startTS ≠ w.startTS
  write_after_start : ∀ v ∈ vs, v.valueType ≠ .typeRollback → v.startTS < v.commitTS
  rollback_at_start : ∀ v ∈ vs, v.valueType = .typeRollback → v.commitTS = v.startTS

theorem ValueFacts.putVersion {vs : List (MvccValue V)} (h : ValueFacts vs) {v : MvccValue V}
    (hfresh : ∀ w ∈ vs, w.startTS ≠ v.startTS)
    (hw : v.valueType ≠ .typeRollback → v.startTS < v.commitTS)
    (hr : v.valueType = .typeRollback → v.commitTS = v.startTS) : ValueFacts (putVersion v vs) where
  sorted := putVersion_sorted h.sorted
  one_per_txn := putVersion_pairwise (fun w hw => ⟨(hfresh w hw).symm, hfresh w hw⟩) h.one_per_txn
  write_after_start u hu := by
    rcases mem_of_mem_putVersion hu with rfl | hu
    · exact hw
    · exact h.write_after_start u hu
  rollback_at_start u hu := by
    rcases mem_of_mem_putVersion hu with rfl | hu
    · exact hr
    · exact h.rollback_at_start u hu

theorem Entry.Wf.valueFacts (h : e.Wf) : ValueFacts e.values :=
  ⟨h.sorted, h.one_per_txn, h.write_after_start, h.rollback_at_start⟩

theorem Entry.Wf.of_valueFacts {lock : Option (MvccLock K V)} {vs : List (MvccValue V)}
    (h : ValueFacts vs) (hl : ∀ l, lock = some l → ∀ v ∈ vs, v.startTS ≠ l.startTS) :
    (Entry.mk lock vs).Wf :=
  ⟨h.sorted, h.one_per_txn, h.write_after_start, h.rollback_at_start, hl⟩

theorem Entry.Wf.putLock (h : e.Wf) {l : MvccLock K V} (hl : ∀ v ∈ e.values, v.startTS ≠ l.startTS) :
    (e.apply (.putLock k l)).Wf :=
  Entry.Wf.of_valueFacts h.valueFacts (by rintro _ ⟨⟩; exact hl)

theorem Entry.Wf.deleteLock (h : e.Wf) : (e.apply (.deleteLock k)).Wf :=
  Entry.Wf.of_valueFacts h.valueFacts (by simp)

/-- A value of a transaction that has none on the key, and whose lock is not the key's. -/
theorem Entry.Wf.putValue (h : e.Wf) {v : MvccValue V} (hfresh : ∀ w ∈ e.values, w.startTS ≠ v.startTS)
    (hw : v.valueType ≠ .typeRollback → v.startTS < v.commitTS)
    (hr : v.valueType = .typeRollback → v.commitTS = v.startTS)
    (hlock : ∀ l, e.lock = some l → l.startTS ≠ v.startTS) : (e.apply (.putValue k v)).Wf := by
  refine Entry.Wf.of_valueFacts (h.valueFacts.putVersion hfresh hw hr) fun l hl u hu => ?_
  rcases mem_of_mem_putVersion hu with rfl | hu
  · exact (hlock l hl).symm
  · exact h.lock_fresh l hl u hu

/-- A value of the transaction that holds the key's lock, with the lock removed. -/
theorem Entry.Wf.putValue_deleteLock (h : e.Wf) {v : MvccValue V}
    (hfresh : ∀ w ∈ e.values, w.startTS ≠ v.startTS)
    (hw : v.valueType ≠ .typeRollback → v.startTS < v.commitTS)
    (hr : v.valueType = .typeRollback → v.commitTS = v.startTS) :
    ((e.apply (.putValue k v)).apply (.deleteLock k)).Wf :=
  Entry.Wf.of_valueFacts (h.valueFacts.putVersion hfresh hw hr) (by simp)

theorem Entry.txnLock_eq_some {e : Entry K V} {startTS : Nat} {l : MvccLock K V} :
    e.txnLock startTS = some l ↔ e.lock = some l ∧ l.startTS = startTS := by
  cases h : e.lock with
  | none => simp [Entry.txnLock, h]
  | some l' =>
    by_cases hs : l'.startTS = startTS
    · simp only [Entry.txnLock, h, Option.filter, hs, beq_self_eq_true, ↓reduceIte,
        Option.some.injEq]
      constructor
      · rintro rfl
        exact ⟨rfl, hs⟩
      · rintro ⟨rfl, -⟩
        rfl
    · simp [Entry.txnLock, h, Option.filter, hs]
      rintro rfl
      exact hs

theorem Entry.Wf.fresh_of_txnLock (h : e.Wf) {startTS : Nat} {l : MvccLock K V}
    (hl : e.txnLock startTS = some l) : ∀ w ∈ e.values, w.startTS ≠ startTS := by
  obtain ⟨hl', rfl⟩ := Entry.txnLock_eq_some.mp hl
  exact h.lock_fresh l hl'

theorem Entry.Wf.commitLock (h : e.Wf) {startTS commitTS : Nat} {l : MvccLock K V}
    (hl : e.txnLock startTS = some l) (hts : startTS < commitTS) :
    ((Mocktikv.commitLock l k startTS commitTS).foldl Entry.apply e).Wf := by
  have hfresh := h.fresh_of_txnLock hl
  cases hop : l.op with
  | lock => simpa [Mocktikv.commitLock, hop] using h.deleteLock
  | put x =>
    simpa [Mocktikv.commitLock, hop] using h.putValue_deleteLock (k := k) hfresh (by simp [hts]) (by simp)
  | del =>
    simpa [Mocktikv.commitLock, hop] using h.putValue_deleteLock (k := k) hfresh (by simp [hts]) (by simp)

theorem Entry.Wf.rollbackLock (h : e.Wf) {startTS : Nat} {l : MvccLock K V}
    (hl : e.txnLock startTS = some l) :
    ((Mocktikv.rollbackLock k startTS : List (BatchOp K V)).foldl Entry.apply e).Wf := by
  simpa [Mocktikv.rollbackLock] using
    h.putValue_deleteLock (k := k) (h.fresh_of_txnLock hl) (by simp) (by simp)

/-- A rollback record of a transaction that has neither the key's lock nor a value on it. -/
theorem Entry.Wf.rollbackRecord (h : e.Wf) {startTS : Nat} (hl : e.txnLock startTS = none)
    (hc : getTxnCommitInfo e.values startTS = none) :
    (e.apply (.putValue k ⟨.typeRollback, startTS, startTS, none⟩)).Wf := by
  refine h.putValue (getTxnCommitInfo_eq_none.mp hc) (by simp) (by simp) fun l hl' hs => ?_
  have : e.txnLock startTS = some l := Entry.txnLock_eq_some.mpr ⟨hl', hs⟩
  simp [hl] at this

end Preserve

/-! ### What one request keeps -/

def MVCCLevelDB.Wf (s : MVCCLevelDB K V) : Prop :=
  ∀ k, (s.db k).Wf

/-- A request names each key once and commits above the start timestamp. -/
def Request.WellFormed : Request K V → Prop
  | .prewrite mutations _ _ _ => (mutations.map Mutation.key).Nodup
  | .commit keys startTS commitTS => keys.Nodup ∧ startTS < commitTS
  | .batchRollback keys _ => keys.Nodup
  | .checkTxnStatus _ _ _ => True
  | .resolveLock keys startTS commitTS => keys.Nodup ∧ (commitTS = 0 ∨ startTS < commitTS)
  | .get _ _ => True

theorem MVCCLevelDB.wf_empty : (MVCCLevelDB.empty : MVCCLevelDB K V).Wf := fun _ =>
  ⟨by simp [MVCCLevelDB.empty], by simp [MVCCLevelDB.empty], by simp [MVCCLevelDB.empty],
    by simp [MVCCLevelDB.empty], by simp [MVCCLevelDB.empty]⟩

theorem commitLock_eq (lock : MvccLock K V) (key : K) (startTS commitTS : Nat) :
    commitLock lock key startTS commitTS =
      ((commitValue lock startTS commitTS).map (.putValue key)).toList ++ [.deleteLock key] := by
  unfold commitLock commitValue
  cases lock.op <;> rfl

theorem commitValue_spec {l : MvccLock K V} {startTS commitTS : Nat} {v : MvccValue V}
    (h : commitValue l startTS commitTS = some v) :
    l.op.isLock = false ∧ v.startTS = startTS ∧ v.commitTS = commitTS ∧ v.valueType ≠ .typeRollback := by
  unfold commitValue at h
  split at h <;> cases h <;> simp [Op.isLock, *]

theorem commitValue_of_not_isLock {l : MvccLock K V} (h : l.op.isLock = false) (startTS commitTS : Nat) :
    ∃ v, commitValue l startTS commitTS = some v := by
  unfold commitValue
  cases hop : l.op <;> simp_all [Op.isLock]

theorem putValue_mem_commitLock {l : MvccLock K V} {k k' : K} {startTS commitTS : Nat}
    {v : MvccValue V} (h : BatchOp.putValue k' v ∈ commitLock l k startTS commitTS) :
    k' = k ∧ commitValue l startTS commitTS = some v := by
  rw [commitLock_eq] at h
  cases hc : commitValue l startTS commitTS <;> simp_all

theorem putLock_not_mem_commitLock (l : MvccLock K V) (k k' : K) (startTS commitTS : Nat)
    (l' : MvccLock K V) : BatchOp.putLock k' l' ∉ commitLock l k startTS commitTS := by
  rw [commitLock_eq]
  cases commitValue l startTS commitTS <;> simp

theorem putValue_mem_rollbackLock {k k' : K} {startTS : Nat} {v : MvccValue V}
    (h : BatchOp.putValue k' v ∈ (rollbackLock k startTS : List (BatchOp K V))) :
    k' = k ∧ v = ⟨.typeRollback, startTS, startTS, none⟩ := by
  simp_all [rollbackLock]

theorem commitLock_key (l : MvccLock K V) (k : K) (startTS commitTS : Nat) :
    ∀ op ∈ commitLock l k startTS commitTS, op.key = k := by
  cases hop : l.op <;> simp [commitLock, hop, BatchOp.key]

theorem rollbackLock_key (k : K) (startTS : Nat) :
    ∀ op ∈ (rollbackLock k startTS : List (BatchOp K V)), op.key = k := by
  simp [rollbackLock, BatchOp.key]

variable {s : MVCCLevelDB K V}

theorem prewriteMutation_eq_ok {m : Mutation K V} {startTS ttl : Nat} {primary : K}
    {op : BatchOp K V} (h : prewriteMutation s m startTS primary ttl = .ok op) :
    op = .putLock m.key ⟨startTS, primary, m.op, ttl⟩ ∧
      ((∃ l, (s.db m.key).lock = some l ∧ l.startTS = startTS) ∨
        ((s.db m.key).lock = none ∧ checkConflictValue (s.db m.key).values m startTS = .ok ())) := by
  unfold prewriteMutation at h
  split at h
  · rename_i l hl
    split_ifs at h with hs
    cases h
    exact ⟨rfl, .inl ⟨l, hl, not_not.mp hs⟩⟩
  · rename_i hl
    cases hc : checkConflictValue (s.db m.key).values m startTS with
    | error e => simp [hc] at h
    | ok u =>
      cases u
      simp only [hc] at h
      cases h
      exact ⟨rfl, .inr ⟨hl, rfl⟩⟩

theorem commitKey_eq_ok {k : K} {startTS commitTS : Nat} {ops : List (BatchOp K V)}
    (h : commitKey s k startTS commitTS = .ok ops) :
    (∃ l, (s.db k).txnLock startTS = some l ∧ ops = commitLock l k startTS commitTS) ∨
      (∃ c, getTxnCommitInfo (s.db k).values startTS = some c ∧ c.valueType ≠ .typeRollback) ∧
        ops = [] := by
  unfold commitKey at h
  split at h
  · rename_i l hl
    cases h
    exact .inl ⟨l, hl, rfl⟩
  · split at h
    · rename_i c hc
      split_ifs at h with hct
      cases h
      exact .inr ⟨⟨c, hc, hct⟩, rfl⟩
    · cases h

theorem commitKey_key {k : K} {startTS commitTS : Nat} {ops : List (BatchOp K V)}
    (h : commitKey s k startTS commitTS = .ok ops) : ∀ op ∈ ops, op.key = k := by
  rcases commitKey_eq_ok h with ⟨l, -, rfl⟩ | ⟨-, rfl⟩
  · exact commitLock_key l k startTS commitTS
  · simp

theorem rollbackKey_eq_ok {k : K} {startTS : Nat} {ops : List (BatchOp K V)}
    (h : rollbackKey s k startTS = .ok ops) :
    (∃ l, (s.db k).txnLock startTS = some l ∧ ops = rollbackLock k startTS) ∨
      ((∃ c, getTxnCommitInfo (s.db k).values startTS = some c ∧ c.valueType = .typeRollback) ∧
        ops = []) ∨
      ((s.db k).txnLock startTS = none ∧ getTxnCommitInfo (s.db k).values startTS = none ∧
        ops = [.putValue k ⟨.typeRollback, startTS, startTS, none⟩]) := by
  unfold rollbackKey at h
  split at h
  · rename_i l hl
    cases h
    exact .inl ⟨l, hl, rfl⟩
  · rename_i hl
    split at h
    · rename_i c hc
      split_ifs at h with hct
      cases h
      exact .inr (.inl ⟨⟨c, hc, not_not.mp hct⟩, rfl⟩)
    · rename_i hc
      cases h
      exact .inr (.inr ⟨hl, hc, rfl⟩)

theorem rollbackKey_key {k : K} {startTS : Nat} {ops : List (BatchOp K V)}
    (h : rollbackKey s k startTS = .ok ops) : ∀ op ∈ ops, op.key = k := by
  rcases rollbackKey_eq_ok h with ⟨l, -, rfl⟩ | ⟨-, rfl⟩ | ⟨-, -, rfl⟩
  · exact rollbackLock_key k startTS
  · simp
  · simp [BatchOp.key]

variable [DecidableEq K]

/-- A prewrite whose every mutation may take its lock writes them all. -/
theorem MVCCLevelDB.prewrite_of_forall_ok {mutations : List (Mutation K V)} {primary : K}
    {startTS ttl : Nat}
    (hok : ∀ m ∈ mutations, prewriteMutation s m startTS primary ttl =
      .ok (.putLock m.key ⟨startTS, primary, m.op, ttl⟩)) :
    s.prewrite mutations primary startTS ttl =
      (mutations.map fun _ => none,
        s.write (mutations.flatMap fun m => [.putLock m.key ⟨startTS, primary, m.op, ttl⟩])) := by
  have herrs : (mutations.map fun m => prewriteMutation s m startTS primary ttl).map
      TinySql.Lib.errorOf = mutations.map fun _ => none := by
    rw [List.map_map]
    exact List.map_congr_left fun m hm => by rw [Function.comp_apply, hok m hm]; rfl
  unfold MVCCLevelDB.prewrite
  dsimp only
  rw [herrs, if_pos (by simp)]
  congr 1
  rw [List.filterMap_map, ← List.map_eq_flatMap, ← List.filterMap_eq_map]
  exact congrArg s.write (List.filterMap_congr fun m hm => by rw [Function.comp_apply, hok m hm]; rfl)

theorem MVCCLevelDB.prewrite_fst (mutations : List (Mutation K V)) (primary : K) (startTS ttl : Nat) :
    (s.prewrite mutations primary startTS ttl).1 =
      (mutations.map fun m => prewriteMutation s m startTS primary ttl).map TinySql.Lib.errorOf := by
  unfold MVCCLevelDB.prewrite
  dsimp only
  split_ifs <;> rfl

/-- When no mutation reports an error, each took its lock. -/
theorem MVCCLevelDB.prewriteMutation_of_all_isNone {mutations : List (Mutation K V)} {primary : K}
    {startTS ttl : Nat} (hall : (s.prewrite mutations primary startTS ttl).1.all Option.isNone)
    {m : Mutation K V} (hm : m ∈ mutations) :
    prewriteMutation s m startTS primary ttl = .ok (.putLock m.key ⟨startTS, primary, m.op, ttl⟩) := by
  rw [MVCCLevelDB.prewrite_fst] at hall
  have hnone := List.all_eq_true.mp hall _ (List.mem_map_of_mem (List.mem_map_of_mem hm))
  cases hpm : prewriteMutation s m startTS primary ttl with
  | error e => simp [hpm] at hnone
  | ok op => rw [(prewriteMutation_eq_ok hpm).1]

/-- A prewrite writes nothing, or the lock of every mutation, each allowed on its key. -/
theorem MVCCLevelDB.prewrite_spec (mutations : List (Mutation K V)) (primary : K)
    (startTS ttl : Nat) :
    (s.prewrite mutations primary startTS ttl).2 = s ∨
      ((∀ m ∈ mutations, prewriteMutation s m startTS primary ttl =
          .ok (.putLock m.key ⟨startTS, primary, m.op, ttl⟩)) ∧
        (s.prewrite mutations primary startTS ttl).2 =
          s.write (mutations.flatMap fun m => [.putLock m.key ⟨startTS, primary, m.op, ttl⟩])) := by
  by_cases hall : (s.prewrite mutations primary startTS ttl).1.all Option.isNone
  · have hok := fun m (hm : m ∈ mutations) => MVCCLevelDB.prewriteMutation_of_all_isNone hall hm
    exact .inr ⟨hok, by rw [MVCCLevelDB.prewrite_of_forall_ok hok]⟩
  · left
    rw [MVCCLevelDB.prewrite_fst] at hall
    unfold MVCCLevelDB.prewrite
    dsimp only
    rw [if_neg hall]

theorem MVCCLevelDB.Wf.prewrite (h : s.Wf) {mutations : List (Mutation K V)}
    (hnd : (mutations.map Mutation.key).Nodup) (primary : K) (startTS ttl : Nat) :
    (s.prewrite mutations primary startTS ttl).2.Wf := by
  rcases s.prewrite_spec mutations primary startTS ttl with he | ⟨hok, he⟩
  · rw [he]
    exact h
  · rw [he]
    intro k
    rw [s.write_flatMap_db mutations Mutation.key _ (by simp [BatchOp.key])]
    by_cases hk : ∃ m ∈ mutations, m.key = k
    · obtain ⟨m, hm, rfl⟩ := hk
      rw [filter_key_eq_singleton Mutation.key hnd hm]
      -- the lock is allowed: it is the transaction's own, or every value is below `startTS`
      have hfresh : ∀ v ∈ (s.db m.key).values, v.startTS ≠ startTS := by
        rcases (prewriteMutation_eq_ok (hok m hm)).2 with ⟨l, hl, rfl⟩ | ⟨-, hc⟩
        · exact (h m.key).lock_fresh l hl
        · exact (h m.key).fresh_of_checkConflictValue hc
      simpa using (h m.key).putLock (k := m.key) hfresh
    · rw [filter_key_eq_nil Mutation.key fun m hm hmk => hk ⟨m, hm, hmk⟩]
      exact h k

theorem MVCCLevelDB.Wf.commit (h : s.Wf) {keys : List K} (hnd : keys.Nodup)
    {startTS commitTS : Nat} (hts : startTS < commitTS) : (s.commit keys startTS commitTS).2.Wf := by
  unfold MVCCLevelDB.commit
  split
  · rename_i batches hb
    obtain ⟨hlen, hzip⟩ :=
      List.forall₂_iff_zip.mp ((TinySql.Lib.mapM_ok_iff_forall₂ _ _ _).mp hb)
    intro k
    rcases s.write_flatten_db hlen (fun k b hkb => commitKey_key (hzip hkb)) hnd k with
      ⟨b, hkb, he⟩ | ⟨-, he⟩
    · rw [he]
      rcases commitKey_eq_ok (hzip hkb) with ⟨l, hl, rfl⟩ | ⟨-, rfl⟩
      · exact (h k).commitLock hl hts
      · exact h k
    · rw [he]
      exact h k
  · exact h

theorem MVCCLevelDB.Wf.rollback (h : s.Wf) {keys : List K} (hnd : keys.Nodup) (startTS : Nat) :
    (s.rollback keys startTS).2.Wf := by
  unfold MVCCLevelDB.rollback
  split
  · rename_i batches hb
    obtain ⟨hlen, hzip⟩ :=
      List.forall₂_iff_zip.mp ((TinySql.Lib.mapM_ok_iff_forall₂ _ _ _).mp hb)
    intro k
    rcases s.write_flatten_db hlen (fun k b hkb => rollbackKey_key (hzip hkb)) hnd k with
      ⟨b, hkb, he⟩ | ⟨-, he⟩
    · rw [he]
      rcases rollbackKey_eq_ok (hzip hkb) with ⟨l, hl, rfl⟩ | ⟨-, rfl⟩ | ⟨hl, hc, rfl⟩
      · exact (h k).rollbackLock hl
      · exact h k
      · simpa using (h k).rollbackRecord (k := k) hl hc
    · rw [he]
      exact h k
  · exact h

/-- Writing `rollbackLock` for the key's own lock keeps the store well formed. -/
theorem MVCCLevelDB.Wf.write_rollbackLock (h : s.Wf) {k : K} {startTS : Nat} {l : MvccLock K V}
    (hl : (s.db k).txnLock startTS = some l) : (s.write (rollbackLock k startTS)).Wf := by
  intro k'
  by_cases hk : k = k'
  · subst hk
    rw [MVCCLevelDB.write_db, List.filter_eq_self.mpr (by simpa using rollbackLock_key k startTS)]
    exact (h k).rollbackLock hl
  · rw [MVCCLevelDB.write_db_of_forall_ne s fun op hop => (rollbackLock_key k startTS op hop) ▸ hk]
    exact h k'

theorem MVCCLevelDB.Wf.checkTxnStatus (h : s.Wf) (primaryKey : K) (lockTS currentTS : Nat) :
    (s.checkTxnStatus primaryKey lockTS currentTS).2.Wf := by
  unfold MVCCLevelDB.checkTxnStatus
  split
  · rename_i l hl
    split_ifs
    · exact h.write_rollbackLock hl
    · exact h
  · split
    · split_ifs <;> exact h
    · exact h

theorem filter_eq_singleton {xs : List K} (hnd : xs.Nodup) {x : K} (hx : x ∈ xs) :
    (xs.filter fun y => y = x) = [x] := by
  simpa using filter_key_eq_singleton id (by simpa using hnd) hx

theorem MVCCLevelDB.Wf.resolveLock (h : s.Wf) {keys : List K} (hnd : keys.Nodup)
    {startTS commitTS : Nat} (hts : commitTS = 0 ∨ startTS < commitTS) :
    (s.resolveLock keys startTS commitTS).Wf := by
  unfold MVCCLevelDB.resolveLock
  intro k
  rw [s.write_flatMap_db keys id _ fun k _ op hop => ?keys]
  · simp only [id]
    by_cases hk : k ∈ keys
    · rw [filter_eq_singleton hnd hk, List.flatMap_singleton]
      split
      · rename_i l hl
        split_ifs with hc
        · exact (h k).commitLock hl (by omega)
        · exact (h k).rollbackLock hl
      · exact h k
    · rw [List.filter_eq_nil_iff.mpr fun k' hk' h' => hk (by simpa using (of_decide_eq_true h') ▸ hk')]
      exact h k
  case keys =>
    split at hop
    · split_ifs at hop
      · exact commitLock_key _ k startTS commitTS op hop
      · exact rollbackLock_key k startTS op hop
    · cases hop

theorem MVCCLevelDB.Wf.serve (h : s.Wf) {r : Request K V} (hr : r.WellFormed) : (s.serve r).Wf := by
  cases r with
  | prewrite mutations primary startTS ttl => exact h.prewrite hr primary startTS ttl
  | commit keys startTS commitTS => exact h.commit hr.1 hr.2
  | batchRollback keys startTS => exact h.rollback hr startTS
  | checkTxnStatus primaryKey lockTS currentTS => exact h.checkTxnStatus primaryKey lockTS currentTS
  | resolveLock keys startTS commitTS => exact h.resolveLock hr.1 hr.2
  | get key version => exact h

/-- Every key stays well formed over any sequence of well-formed requests. -/
theorem MVCCLevelDB.Wf.serve_all (h : s.Wf) {rs : List (Request K V)}
    (hrs : ∀ r ∈ rs, r.WellFormed) : (rs.foldl MVCCLevelDB.serve s).Wf := by
  induction rs generalizing s with
  | nil => exact h
  | cons r rs ih =>
    exact ih (h.serve (hrs r (List.mem_cons_self ..))) fun r' hr' => hrs r' (List.mem_cons_of_mem _ hr')

/-! ### What a commit and a rollback write -/

/-- A commit fails and writes nothing, or succeeds with the batches of its keys. -/
theorem MVCCLevelDB.commit_cases (keys : List K) (startTS commitTS : Nat) :
    (∃ e, s.commit keys startTS commitTS = (.error e, s)) ∨
      ∃ batches, keys.mapM (fun k => commitKey s k startTS commitTS) = .ok batches ∧
        s.commit keys startTS commitTS = (.ok (), s.write batches.flatten) := by
  unfold MVCCLevelDB.commit
  split
  · rename_i batches hb
    exact .inr ⟨batches, hb, rfl⟩
  · rename_i e he
    exact .inl ⟨e, rfl⟩

theorem MVCCLevelDB.rollback_cases (keys : List K) (startTS : Nat) :
    (∃ e, s.rollback keys startTS = (.error e, s)) ∨
      ∃ batches, keys.mapM (fun k => rollbackKey s k startTS) = .ok batches ∧
        s.rollback keys startTS = (.ok (), s.write batches.flatten) := by
  unfold MVCCLevelDB.rollback
  split
  · rename_i batches hb
    exact .inr ⟨batches, hb, rfl⟩
  · rename_i e he
    exact .inl ⟨e, rfl⟩

omit [DecidableEq K] in
theorem commit_putValue {keys : List K} {startTS commitTS : Nat} {batches : List (List (BatchOp K V))}
    (hb : keys.mapM (fun k => commitKey s k startTS commitTS) = .ok batches) {k : K}
    {v : MvccValue V} (hv : BatchOp.putValue k v ∈ batches.flatten) :
    k ∈ keys ∧ ∃ l, (s.db k).txnLock startTS = some l ∧ commitValue l startTS commitTS = some v := by
  obtain ⟨b, hb', hvb⟩ := List.mem_flatten.mp hv
  obtain ⟨k', hk', hck⟩ := TinySql.Lib.mapM_ok_mem hb hb'
  rcases commitKey_eq_ok hck with ⟨l, hl, rfl⟩ | ⟨-, rfl⟩
  · obtain ⟨rfl, hv'⟩ := putValue_mem_commitLock hvb
    exact ⟨hk', l, hl, hv'⟩
  · cases hvb

omit [DecidableEq K] in
theorem rollback_putValue (hwf : s.Wf) {keys : List K} {startTS : Nat}
    {batches : List (List (BatchOp K V))}
    (hb : keys.mapM (fun k => rollbackKey s k startTS) = .ok batches) {k : K} {v : MvccValue V}
    (hv : BatchOp.putValue k v ∈ batches.flatten) :
    k ∈ keys ∧ v = ⟨.typeRollback, startTS, startTS, none⟩ ∧ ∀ w ∈ (s.db k).values, w.startTS ≠ startTS := by
  obtain ⟨b, hb', hvb⟩ := List.mem_flatten.mp hv
  obtain ⟨k', hk', hrk⟩ := TinySql.Lib.mapM_ok_mem hb hb'
  rcases rollbackKey_eq_ok hrk with ⟨l, hl, rfl⟩ | ⟨-, rfl⟩ | ⟨-, hc, rfl⟩
  · obtain ⟨rfl, rfl⟩ := putValue_mem_rollbackLock hvb
    exact ⟨hk', rfl, (hwf k).fresh_of_txnLock hl⟩
  · cases hvb
  · simp only [List.mem_singleton, BatchOp.putValue.injEq] at hvb
    obtain ⟨rfl, rfl⟩ := hvb
    exact ⟨hk', rfl, getTxnCommitInfo_eq_none.mp hc⟩

/-- After a successful commit, a key of it holds the transaction's write, unless the key held
the transaction's `Lock` lock. -/
theorem MVCCLevelDB.commit_hasWrite (hwf : s.Wf) {keys : List K} {startTS commitTS : Nat}
    (hok : (s.commit keys startTS commitTS).1 = .ok ()) {k : K} (hk : k ∈ keys) :
    (∃ l, (s.db k).txnLock startTS = some l ∧ l.op.isLock = true) ∨
      HasWrite ((s.commit keys startTS commitTS).2.db k) startTS := by
  rcases s.commit_cases keys startTS commitTS with ⟨e, he⟩ | ⟨batches, hb, he⟩
  · rw [he] at hok
    cases hok
  rw [he]
  obtain ⟨b, hbm, hkb⟩ := TinySql.Lib.mapM_ok_of_mem hb hk
  rcases commitKey_eq_ok hkb with ⟨l, hl, rfl⟩ | ⟨⟨c, hc, hct⟩, -⟩
  · cases hop : l.op.isLock
    · -- the lock's write is put, and no other value on the key
      obtain ⟨v, hv⟩ := commitValue_of_not_isLock hop startTS commitTS
      obtain ⟨-, hvs, -, hvt⟩ := commitValue_spec hv
      refine .inr ⟨v, MVCCLevelDB.mem_values_write_of_putValue ?_ fun v' hv' _ => ?_, hvs, hvt⟩
      · exact List.mem_flatten.mpr ⟨_, hbm, by simp [commitLock_eq, hv]⟩
      · obtain ⟨-, l', hl', hv''⟩ := commit_putValue hb hv'
        rw [hl, Option.some.injEq] at hl'
        subst hl'
        rw [hv, Option.some.injEq] at hv''
        exact hv''.symm
    · exact .inl ⟨l, hl, hop⟩
  · -- the key held the transaction's write already, and the commit put nothing on it
    obtain ⟨hcm, hcs⟩ := getTxnCommitInfo_spec hc
    refine .inr ⟨c, MVCCLevelDB.mem_values_write_of_mem hcm fun v' hv' _ => ?_, hcs, hct⟩
    obtain ⟨-, l', hl', -⟩ := commit_putValue hb hv'
    exact absurd hcs ((hwf k).fresh_of_txnLock hl' c hcm)

/-- After a successful rollback, every key of it holds the transaction's rollback record. -/
theorem MVCCLevelDB.rollback_hasRollback (hwf : s.Wf) {keys : List K} {startTS : Nat}
    (hok : (s.rollback keys startTS).1 = .ok ()) {k : K} (hk : k ∈ keys) :
    HasRollback ((s.rollback keys startTS).2.db k) startTS := by
  rcases s.rollback_cases keys startTS with ⟨e, he⟩ | ⟨batches, hb, he⟩
  · rw [he] at hok
    cases hok
  rw [he]
  obtain ⟨b, hbm, hkb⟩ := TinySql.Lib.mapM_ok_of_mem hb hk
  have huniq : ∀ v, BatchOp.putValue k v ∈ batches.flatten →
      v = ⟨.typeRollback, startTS, startTS, none⟩ := fun v hv => (rollback_putValue hwf hb hv).2.1
  rcases rollbackKey_eq_ok hkb with ⟨l, hl, rfl⟩ | ⟨⟨c, hc, hct⟩, -⟩ | ⟨-, -, rfl⟩
  · refine ⟨_, MVCCLevelDB.mem_values_write_of_putValue ?_ fun v hv _ => huniq v hv, rfl, rfl⟩
    exact List.mem_flatten.mpr ⟨_, hbm, by simp [rollbackLock]⟩
  · obtain ⟨hcm, hcs⟩ := getTxnCommitInfo_spec hc
    refine ⟨c, MVCCLevelDB.mem_values_write_of_mem hcm fun v hv _ => ?_, hcs, hct⟩
    exact absurd hcs ((rollback_putValue hwf hb hv).2.2 c hcm)
  · refine ⟨_, MVCCLevelDB.mem_values_write_of_putValue ?_ fun v hv _ => huniq v hv, rfl, rfl⟩
    exact List.mem_flatten.mpr ⟨_, hbm, by simp⟩

/-- What the store guarantees of a transaction's outcome at a key: it never holds both a write
and a rollback record of the transaction, a successful commit leaves the transaction's write on
each of its keys (but those that held a `Lock` lock) and a successful rollback leaves its
rollback record on each of its keys. -/
def MVCCLevelDB.OutcomesDecided (s : MVCCLevelDB K V) : Prop :=
  (∀ k startTS, ¬ (HasWrite (s.db k) startTS ∧ HasRollback (s.db k) startTS)) ∧
    (∀ keys startTS commitTS, (s.commit keys startTS commitTS).1 = .ok () → ∀ k ∈ keys,
      (∃ l, (s.db k).txnLock startTS = some l ∧ l.op.isLock = true) ∨
        HasWrite ((s.commit keys startTS commitTS).2.db k) startTS) ∧
    (∀ keys startTS, (s.rollback keys startTS).1 = .ok () → ∀ k ∈ keys,
      HasRollback ((s.rollback keys startTS).2.db k) startTS)

theorem MVCCLevelDB.Wf.outcomesDecided (hwf : s.Wf) : s.OutcomesDecided :=
  ⟨fun k startTS => (hwf k).not_write_and_rollback startTS,
    fun _ _ _ hok _ hk => s.commit_hasWrite hwf hok hk,
    fun _ _ hok _ hk => s.rollback_hasRollback hwf hok hk⟩

/-- Every store reached from the empty one by well-formed requests decides each transaction's
outcome at each key. -/
theorem served_outcomes_decided (rs : List (Request K V)) (hrs : ∀ r ∈ rs, r.WellFormed) :
    (rs.foldl MVCCLevelDB.serve .empty).OutcomesDecided :=
  (MVCCLevelDB.wf_empty.serve_all hrs).outcomesDecided

theorem served_outcomes_decided_committed :
    let rs : List (Request Nat Nat) :=
      [.prewrite [⟨.put 7, 1⟩, ⟨.put 8, 2⟩] 1 5 3, .commit [1, 2] 5 6, .batchRollback [3] 9]
    (∀ r ∈ rs, r.WellFormed) ∧ (rs.foldl MVCCLevelDB.serve .empty).OutcomesDecided :=
  have hrs : ∀ r ∈ ([.prewrite [⟨.put 7, 1⟩, ⟨.put 8, 2⟩] 1 5 3, .commit [1, 2] 5 6,
      .batchRollback [3] 9] : List (Request Nat Nat)), r.WellFormed := by
    simp [Request.WellFormed]
  ⟨hrs, served_outcomes_decided _ hrs⟩

end TinySql.Mocktikv
