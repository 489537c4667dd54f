import TinySql.Mocktikv.Scan

/-!
# GC

`MVCCLevelDB.GC` walks the rows of a key range with the iterator of `Scan`. At each key it fails
if the key has a lock that started at or before the safe point; otherwise it walks the key's
values newest first. It keeps the versions above the safe point and the newest `Put` at or below
it; it deletes the newest `Delete` at or below it, every version older than that `Put` or
`Delete`, and every rollback record at or below it. The deletes are collected in one batch, which
is written only when no key failed.

A read at or above the safe point then reads the same as before, and nothing outside the range
changes (`gc_preserves_reads`): the versions `GC` deletes are the ones no such read can reach
(`visibleValue_gcKept`).
-/

namespace TinySql.Mocktikv

open TinySql.Codec TinySql.Lib

/-- The error of `GC`, `key %+q has lock with startTs %v which is under safePoint %v`, with the
key, the lock's start timestamp and the safe point. -/
inductive GcError (K : Type)
  | lockUnderSafePoint (key : K) (startTS safePoint : Nat)
  deriving DecidableEq, Repr

variable {K V : Type}

/-- `mvcc.db.Write` of a batch of `Delete(mvccEncode(key, ver))`: each key loses its values at the
versions the batch names. -/
def MVCCLevelDB.deleteVersions [DecidableEq K] (s : MVCCLevelDB K V) (batch : List (K × Nat)) :
    MVCCLevelDB K V :=
  ⟨fun k => ⟨(s.db k).lock, (s.db k).values.filter fun v => decide ((k, v.commitTS) ∉ batch)⟩⟩

variable [DecidableEq K]

/-- The inner loop of `GC` over the values of `currKey`, newest first: the batch with the versions
it deletes, and where the iterator stopped. `keepNext` holds until the newest `Put` or `Delete` at
or below the safe point has been met. -/
def gcValues (currKey : K) (safePoint : Nat) :
    Bool → List (K × Nat) → List (K × Cell K V) → List (K × Nat) × List (K × Cell K V)
  | keepNext, batch, (key, .value v) :: rows =>
    if key = currKey then
      if v.commitTS > safePoint then gcValues currKey safePoint keepNext batch rows
      else if v.valueType = .typePut ∨ v.valueType = .typeDelete then
        -- keep the latest version if it is a `Put`
        let batch := if !keepNext || v.valueType = .typeDelete then batch ++ [(currKey, v.commitTS)]
          else batch
        gcValues currKey safePoint false batch rows
      else gcValues currKey safePoint keepNext (batch ++ [(currKey, v.commitTS)]) rows
    else (batch, (key, .value v) :: rows)
  | _, batch, rows => (batch, rows)

/-- The outer loop of `GC`, key after key; `fuel` bounds the keys it visits. -/
def gcLoop (safePoint : Nat) :
    Nat → List (K × Cell K V) → K → List (K × Nat) → Except (GcError K) (List (K × Nat))
  | 0, _, _, batch => .ok batch
  | _ + 1, [], _, batch => .ok batch
  | fuel + 1, row :: rows, currKey, batch =>
    let next (rows : List (K × Cell K V)) : Except (GcError K) (List (K × Nat)) :=
      match gcValues currKey safePoint true batch rows with
      | (batch, []) => .ok batch
      -- the values of the next key: it becomes the current key
      | (batch, (key, c) :: rows) => gcLoop safePoint fuel ((key, c) :: rows) key batch
    match lockDecode currKey (row :: rows) with
    | (some l, rows) =>
      if l.startTS ≤ safePoint then .error (.lockUnderSafePoint currKey l.startTS safePoint)
      else next rows
    | (none, rows) => next rows

/-- The leveldb after `Write` of a batch of deletes. -/
def LevelDB.deleteVersions (db : LevelDB V) (batch : List (Key × Nat)) : LevelDB V where
  store := db.store.deleteVersions batch
  keys := db.keys
  keys_sorted := db.keys_sorted
  complete k hk := by simp [MVCCLevelDB.deleteVersions, db.complete k hk]
  versions_sorted k := (db.versions_sorted k).filter _

/-- `GC` over the range `[startKey, endKey)` at `safePoint`. -/
def LevelDB.gc (db : LevelDB V) (startKey endKey : Key) (safePoint : Nat) :
    Except (GcError Key) (LevelDB V) := do
  let rows := db.store.rows (db.keys.filter (inScanRange startKey endKey))
  let currKey := if startKey.isEmpty then (rows.head?.map Prod.fst).getD startKey else startKey
  let batch ← gcLoop safePoint (rows.length + 1) rows currKey []
  return db.deleteVersions batch

/-! ### What a read finds -/

/-- The value a read at `ts` finds among a key's values: the newest version at or below `ts`
that is not a rollback record, none for a `Delete`. -/
def visibleValue (vs : List (MvccValue V)) (ts : Nat) : Option V :=
  match vs.find? fun v => v.valueType != .typeRollback && decide (v.commitTS ≤ ts) with
  | some v => if v.valueType = .typeDelete then none else v.value
  | none => none

theorem visibleValue_cons (v : MvccValue V) (vs : List (MvccValue V)) (ts : Nat) :
    visibleValue (v :: vs) ts =
      if v.valueType ≠ .typeRollback ∧ v.commitTS ≤ ts then
        (if v.valueType = .typeDelete then none else v.value)
      else visibleValue vs ts := by
  by_cases hv : v.valueType ≠ .typeRollback ∧ v.commitTS ≤ ts
  · simp [visibleValue, hv.1, hv.2]
  · rw [if_neg hv]
    rw [not_and_or, not_not, Nat.not_le] at hv
    rcases hv with hv | hv <;> simp [visibleValue, hv, Nat.not_le.mpr]

theorem getValue_of_lock_none {e : Entry K V} (hl : e.lock = none) (key : K) (ts : Nat) :
    getValue e key ts = .ok (visibleValue e.values ts) := by
  cases hf : e.values.find? fun v => v.valueType != .typeRollback && decide (v.commitTS ≤ ts) <;>
    simp [getValue, visibleValue, hl, hf, pure, Except.pure]

theorem getValue_of_check {e : Entry K V} {l : MvccLock K V} (hl : e.lock = some l) {key : K}
    {ts ts' : Nat} (hc : l.check ts key = .ok ts') :
    getValue e key ts = .ok (visibleValue e.values ts') := by
  cases hf : e.values.find? fun v => v.valueType != .typeRollback && decide (v.commitTS ≤ ts') <;>
    simp [getValue, visibleValue, hl, hc, hf, bind, Except.bind, pure, Except.pure]

theorem getValue_of_check_error {e : Entry K V} {l : MvccLock K V} (hl : e.lock = some l)
    {key : K} {ts : Nat} {err : MvccError K V} (hc : l.check ts key = .error err) :
    getValue e key ts = .error err := by
  simp [getValue, hl, hc, bind, Except.bind]

/-- A lock that started above the safe point lets a read at or above it read at or above it. -/
theorem MvccLock.le_of_check {l : MvccLock K V} {safePoint ts ts' : Nat} {key : K}
    (hl : safePoint < l.startTS) (hts : safePoint ≤ ts) (hc : l.check ts key = .ok ts') :
    safePoint ≤ ts' := by
  unfold MvccLock.check at hc
  split_ifs at hc <;> cases hc <;> omega

/-- Two entries with the same lock, one that started above the safe point, read the same at or
above the safe point when their values do. -/
theorem getValue_congr {safePoint : Nat} {e e' : Entry K V} (hlock : e'.lock = e.lock)
    (hl : ∀ l, e.lock = some l → safePoint < l.startTS)
    (hvis : ∀ ts, safePoint ≤ ts → visibleValue e'.values ts = visibleValue e.values ts)
    (key : K) {ts : Nat} (hts : safePoint ≤ ts) : getValue e' key ts = getValue e key ts := by
  cases he : e.lock with
  | none =>
    rw [getValue_of_lock_none (hlock.trans he), getValue_of_lock_none he, hvis ts hts]
  | some l =>
    cases hc : l.check ts key with
    | error err => rw [getValue_of_check_error (hlock.trans he) hc, getValue_of_check_error he hc]
    | ok ts' =>
      rw [getValue_of_check (hlock.trans he) hc, getValue_of_check he hc,
        hvis ts' (MvccLock.le_of_check (hl l he) hts hc)]

/-! ### The versions `GC` keeps -/

/-- The values of a key that `GC` keeps, newest first: those above the safe point, and the newest
`Put` at or below it when no `Delete` is newer, as long as `keepNext` holds. -/
def gcKept (safePoint : Nat) : Bool → List (MvccValue V) → List (MvccValue V)
  | _, [] => []
  | keepNext, v :: vs =>
    if v.commitTS > safePoint then v :: gcKept safePoint keepNext vs
    else if v.valueType = .typePut then (if keepNext then [v] else []) ++ gcKept safePoint false vs
    else if v.valueType = .typeDelete then gcKept safePoint false vs
    else gcKept safePoint keepNext vs

theorem gcKept_false_of_le {safePoint : Nat} {vs : List (MvccValue V)}
    (hvs : ∀ v ∈ vs, v.commitTS ≤ safePoint) : gcKept safePoint false vs = [] := by
  induction vs with
  | nil => rfl
  | cons v vs ih =>
    have hv := Nat.not_lt.mpr (hvs v List.mem_cons_self)
    have ih := ih fun w hw => hvs w (List.mem_cons_of_mem v hw)
    unfold gcKept
    rw [if_neg hv]
    split_ifs <;> simp_all

/-- A read at or above the safe point finds among the versions `GC` keeps what it found before.
The induction is on the versions, newest first: the first one at or below the safe point that is
a `Put` is kept, and one that is a `Delete` reads as nothing as the empty rest does. -/
theorem visibleValue_gcKept {safePoint : Nat} {vs : List (MvccValue V)}
    (hvs : vs.Pairwise fun v w => w.commitTS < v.commitTS) {ts : Nat} (hts : safePoint ≤ ts) :
    visibleValue (gcKept safePoint true vs) ts = visibleValue vs ts := by
  induction vs with
  | nil => rfl
  | cons v vs ih =>
    obtain ⟨hlt, hvs'⟩ := List.pairwise_cons.mp hvs
    have ih := ih hvs'
    unfold gcKept
    by_cases hsp : v.commitTS > safePoint
    · rw [if_pos hsp, visibleValue_cons, visibleValue_cons, ih]
    rw [if_neg hsp]
    -- every older version is at or below the safe point too
    have hold : ∀ w ∈ vs, w.commitTS ≤ safePoint := fun w hw => by
      have := hlt w hw
      omega
    by_cases hput : v.valueType = .typePut
    · have hread : v.valueType ≠ .typeRollback ∧ v.commitTS ≤ ts := ⟨by simp [hput], by omega⟩
      rw [if_pos hput, if_pos rfl, List.singleton_append, visibleValue_cons, visibleValue_cons,
        if_pos hread, if_pos hread]
    rw [if_neg hput]
    by_cases hdel : v.valueType = .typeDelete
    · rw [if_pos hdel, gcKept_false_of_le hold, visibleValue_cons, if_pos ⟨by simp [hdel], by omega⟩,
        if_pos hdel]
      rfl
    · rw [if_neg hdel, ih, visibleValue_cons, if_neg]
      -- neither a `Put` nor a `Delete`: a rollback record
      cases hty : v.valueType <;> simp_all

/-! ### The inner loop, one version at a time -/

/-- Whether the inner loop of `GC` deletes a version: one at or below the safe point that is not
the `Put` it keeps. -/
def gcDeletes (safePoint : Nat) (keepNext : Bool) (v : MvccValue V) : Bool :=
  decide (v.commitTS ≤ safePoint) && (v.valueType != .typePut || !keepNext)

/-- `keepNext` after a version: it is cleared by a `Put` or a `Delete` at or below the safe point. -/
def gcKeepNext (safePoint : Nat) (keepNext : Bool) (v : MvccValue V) : Bool :=
  if v.commitTS ≤ safePoint ∧ v.valueType ≠ .typeRollback then false else keepNext

theorem gcKept_cons (safePoint : Nat) (keepNext : Bool) (v : MvccValue V) (vs : List (MvccValue V)) :
    gcKept safePoint keepNext (v :: vs) =
      (if gcDeletes safePoint keepNext v then [] else [v]) ++
        gcKept safePoint (gcKeepNext safePoint keepNext v) vs := by
  rw [gcKept]
  cases hty : v.valueType <;> cases keepNext <;> by_cases hsp : v.commitTS ≤ safePoint <;>
    simp [gcDeletes, gcKeepNext, hty, hsp, Nat.not_le.mp, Nat.not_lt.mpr]

section Values

variable {key : K} {safePoint : Nat}

theorem gcValues_cons (keepNext : Bool) (batch : List (K × Nat)) (v : MvccValue V)
    (rows : List (K × Cell K V)) :
    gcValues key safePoint keepNext batch ((key, .value v) :: rows) =
      gcValues key safePoint (gcKeepNext safePoint keepNext v)
        (if gcDeletes safePoint keepNext v then batch ++ [(key, v.commitTS)] else batch) rows := by
  simp only [gcValues]
  cases hty : v.valueType <;> cases keepNext <;> by_cases hsp : v.commitTS ≤ safePoint <;>
    simp [gcDeletes, gcKeepNext, hty, hsp, Nat.not_le.mp, Nat.not_lt.mpr]

/-- The values of `key` end the inner loop where the next key's rows begin. -/
theorem gcValues_valueRows_append (vs : List (MvccValue V)) {rest : List (K × Cell K V)}
    (hrest : ∀ r ∈ rest, r.1 ≠ key) (keepNext : Bool) (batch : List (K × Nat)) :
    gcValues key safePoint keepNext batch (valueRows key vs ++ rest) =
      ((gcValues key safePoint keepNext batch (valueRows key vs)).1, rest) := by
  induction vs generalizing keepNext batch with
  | nil =>
    match rest, hrest with
    | [], _ => rfl
    | (k, .lock l) :: rest, _ => rfl
    | (k, .value v) :: rest, hrest => simp [gcValues, hrest (k, .value v) List.mem_cons_self]
  | cons v vs ih =>
    rw [valueRows_cons, List.cons_append, gcValues_cons, gcValues_cons, ih]

/-- The inner loop only appends to the batch. -/
theorem gcValues_batch (vs : List (MvccValue V)) (keepNext : Bool) (batch : List (K × Nat)) :
    (gcValues key safePoint keepNext batch (valueRows key vs)).1 =
      batch ++ (gcValues key safePoint keepNext [] (valueRows key vs)).1 := by
  induction vs generalizing keepNext batch with
  | nil => simp [gcValues]
  | cons v vs ih =>
    rw [valueRows_cons, gcValues_cons, gcValues_cons, ih]
    split
    · rw [ih _ ([] ++ [(key, v.commitTS)]), List.nil_append, List.append_assoc]
    · rfl

/-- The inner loop deletes versions of `key` only. -/
theorem mem_gcValues {vs : List (MvccValue V)} {keepNext : Bool} {batch : List (K × Nat)}
    {p : K × Nat} (hp : p ∈ (gcValues key safePoint keepNext batch (valueRows key vs)).1) :
    p ∈ batch ∨ ∃ w ∈ vs, p = (key, w.commitTS) := by
  induction vs generalizing keepNext batch with
  | nil => exact .inl hp
  | cons v vs ih =>
    rw [valueRows_cons, gcValues_cons] at hp
    rcases ih hp with hp | ⟨w, hw, rfl⟩
    · split at hp
      · rcases List.mem_append.mp hp with hp | hp
        · exact .inl hp
        · exact .inr ⟨v, List.mem_cons_self, List.mem_singleton.mp hp⟩
      · exact .inl hp
    · exact .inr ⟨w, List.mem_cons_of_mem v hw, rfl⟩

/-- The values left after deleting the versions the inner loop names are the ones `GC` keeps;
versions are told apart by their commit timestamps, which differ. -/
theorem filter_gcValues {vs : List (MvccValue V)}
    (hvs : vs.Pairwise fun v w => w.commitTS < v.commitTS) (keepNext : Bool)
    {batch : List (K × Nat)} (hbatch : ∀ w ∈ vs, (key, w.commitTS) ∉ batch) :
    vs.filter (fun v => decide ((key, v.commitTS) ∉
        (gcValues key safePoint keepNext batch (valueRows key vs)).1)) =
      gcKept safePoint keepNext vs := by
  induction vs generalizing keepNext batch with
  | nil => rfl
  | cons v vs ih =>
    obtain ⟨hlt, hvs'⟩ := List.pairwise_cons.mp hvs
    -- the batch after `v`: the older versions are still not in it
    have hbatch' : ∀ w ∈ vs, (key, w.commitTS) ∉
        (if gcDeletes safePoint keepNext v then batch ++ [(key, v.commitTS)] else batch) := by
      intro w hw hmem
      have hne : w.commitTS ≠ v.commitTS := Nat.ne_of_lt (hlt w hw)
      split at hmem
      · rcases List.mem_append.mp hmem with hmem | hmem
        · exact hbatch w (List.mem_cons_of_mem v hw) hmem
        · simp [hne] at hmem
      · exact hbatch w (List.mem_cons_of_mem v hw) hmem
    -- `v` is in the final batch exactly when it is deleted
    have hv : (key, v.commitTS) ∈ (gcValues key safePoint (gcKeepNext safePoint keepNext v)
        (if gcDeletes safePoint keepNext v then batch ++ [(key, v.commitTS)] else batch)
        (valueRows key vs)).1 ↔ gcDeletes safePoint keepNext v = true := by
      rw [gcValues_batch, List.mem_append]
      constructor
      · rintro (hmem | hmem)
        · split at hmem
          · assumption
          · exact absurd hmem (hbatch v List.mem_cons_self)
        · rcases mem_gcValues hmem with hmem | ⟨w, hw, heq⟩
          · cases hmem
          · exact absurd (Prod.ext_iff.mp heq).2 (Nat.ne_of_gt (hlt w hw))
      · intro hdel
        exact .inl (by simp [hdel])
    rw [valueRows_cons, gcValues_cons, List.filter_cons, ih hvs' _ hbatch', gcKept_cons]
    simp only [hv]
    cases gcDeletes safePoint keepNext v <;> simp

end Values

/-! ### The outer loop, one key at a time -/

/-- `GC` on one key: the lock check, then the versions its values lose. -/
def gcKey (safePoint : Nat) (key : K) (e : Entry K V) : Except (GcError K) (List (K × Nat)) :=
  match e.lock with
  | some l =>
    if l.startTS ≤ safePoint then .error (.lockUnderSafePoint key l.startTS safePoint)
    else .ok (gcValues key safePoint true [] (valueRows key e.values)).1
  | none => .ok (gcValues key safePoint true [] (valueRows key e.values)).1

@[simp] theorem gcKey_empty (safePoint : Nat) (key : K) :
    gcKey safePoint key (⟨none, []⟩ : Entry K V) = .ok [] := rfl

/-- What `GC` deletes of a key is of that key. -/
theorem gcKey_key {safePoint : Nat} {key : K} {e : Entry K V} {b : List (K × Nat)}
    (h : gcKey safePoint key e = .ok b) {p : K × Nat} (hp : p ∈ b) : p.1 = key := by
  have hb : b = (gcValues key safePoint true [] (valueRows key e.values)).1 := by
    unfold gcKey at h
    split at h
    · split_ifs at h
      exact (Except.ok.inj h).symm
    · exact (Except.ok.inj h).symm
  rw [hb] at hp
  rcases mem_gcValues hp with hp | ⟨w, -, rfl⟩
  · cases hp
  · rfl

theorem gcKey_ok {safePoint : Nat} {key : K} {e : Entry K V} {b : List (K × Nat)}
    (h : gcKey safePoint key e = .ok b) :
    (∀ l, e.lock = some l → safePoint < l.startTS) ∧
      b = (gcValues key safePoint true [] (valueRows key e.values)).1 := by
  unfold gcKey at h
  split at h
  · rename_i l hl
    split_ifs at h with hsp
    refine ⟨fun l' hl' => ?_, (Except.ok.inj h).symm⟩
    rw [hl, Option.some.injEq] at hl'
    subst hl'
    omega
  · rename_i hl
    refine ⟨fun l' hl' => ?_, (Except.ok.inj h).symm⟩
    rw [hl] at hl'
    cases hl'

section Loop

variable (safePoint : Nat) {f : Nat} {batch : List (K × Nat)}

/-- One key's rows, by the lock check and the inner loop, before the rows of `rest`. -/
theorem gcLoop_rows_step {c : K} (e : Entry K V) {rest : List (K × Cell K V)}
    (hrest : ∀ r ∈ rest, r.1 ≠ c) (hne : e.rows c ++ rest ≠ []) :
    gcLoop safePoint (f + 1) (e.rows c ++ rest) c batch =
      (gcKey safePoint c e).bind fun b => match rest with
        | [] => .ok (batch ++ b)
        | (k, x) :: rest => gcLoop safePoint f ((k, x) :: rest) k (batch ++ b) := by
  obtain ⟨row, rows, hrows⟩ := List.exists_cons_of_ne_nil hne
  have hvalues : gcValues c safePoint true batch (valueRows c e.values ++ rest) =
      ((gcValues c safePoint true batch (valueRows c e.values)).1, rest) :=
    gcValues_valueRows_append e.values hrest true batch
  rw [gcValues_batch] at hvalues
  rw [hrows, gcLoop, ← hrows, lockDecode_rows e hrest]
  unfold gcKey
  cases hl : e.lock with
  | some l =>
    by_cases hsp : l.startTS ≤ safePoint
    · simp [hsp, Except.bind]
    · simp only [hsp, if_false, hvalues]
      cases rest <;> rfl
  | none =>
    simp only [hvalues]
    cases rest <;> rfl

/-- `GC` from the rows of `c`, followed by the rows of `ks`: each key's lock check and deletes in
turn. The induction is on `ks`, as for `scanLoop_rows`. -/
theorem gcLoop_rows (s : MVCCLevelDB K V) {c : K} (e : Entry K V) {ks : List K} (hks : ks.Nodup)
    (hc : c ∉ ks) {fuel : Nat} (hfuel : (s.rows ks).length < fuel) (batch : List (K × Nat)) :
    gcLoop safePoint fuel (e.rows c ++ s.rows ks) c batch =
      (gcKey safePoint c e).bind fun b =>
        (ks.mapM fun k => gcKey safePoint k (s.db k)).map fun bs => batch ++ b ++ bs.flatten := by
  have hrest : ∀ r ∈ s.rows ks, r.1 ≠ c := fun r hr heq =>
    hc (heq ▸ MVCCLevelDB.key_mem_of_mem_rows hr)
  induction ks generalizing c e fuel batch with
  | nil =>
    obtain ⟨f, rfl⟩ : ∃ f, fuel = f + 1 := ⟨fuel - 1, by omega⟩
    by_cases hne : e.rows c ++ s.rows [] = []
    · -- nothing to read
      rw [Entry.rows_eq_nil (List.append_eq_nil_iff.mp hne).1]
      simp only [gcKey_empty, Except.bind, List.mapM_nil, Except.map, pure, Except.pure,
        List.flatten_nil, List.append_nil]
      rfl
    rw [gcLoop_rows_step safePoint e hrest hne]
    cases gcKey safePoint c e <;> simp [Except.bind, Except.map, pure, Except.pure]
  | cons k ks ih =>
    have hks' := (List.nodup_cons.mp hks).2
    have hc' : c ∉ ks := fun h => hc (List.mem_cons_of_mem k h)
    by_cases hk : (s.db k).rows k = []
    case pos =>
      -- a key without rows is never visited, and its lock check passes with nothing to delete
      have hrows : s.rows (k :: ks) = s.rows ks := by
        rw [MVCCLevelDB.rows_cons, hk, List.nil_append]
      rw [hrows] at hfuel hrest ⊢
      rw [ih e hks' hc' hfuel batch hrest, List.mapM_cons, Entry.rows_eq_nil hk, gcKey_empty]
      cases gcKey safePoint c e <;> cases ks.mapM fun k => gcKey safePoint k (s.db k) <;>
        simp [Except.bind, Except.map, pure, Except.pure]
    obtain ⟨f, rfl⟩ : ∃ f, fuel = f + 1 := ⟨fuel - 1, by omega⟩
    obtain ⟨⟨k', x⟩, rs, hr⟩ := List.exists_cons_of_ne_nil hk
    have hk' : k' = k := Entry.key_of_mem_rows (hr ▸ List.mem_cons_self : (k', x) ∈ (s.db k).rows k)
    subst hk'
    have hfuel' : (s.rows ks).length < f := by
      rw [MVCCLevelDB.rows_cons, List.length_append, hr, List.length_cons] at hfuel
      omega
    have hne : e.rows c ++ s.rows (k' :: ks) ≠ [] := by simp [MVCCLevelDB.rows_cons, hr]
    have hrest' : ∀ r ∈ s.rows ks, r.1 ≠ k' := fun r hr heq =>
      (List.nodup_cons.mp hks).1 (heq ▸ MVCCLevelDB.key_mem_of_mem_rows hr)
    -- the next key is `k'`, where the loop goes on from the rows of `k'`
    have hnext : ∀ batch', (match s.rows (k' :: ks) with
        | [] => Except.ok (batch')
        | (k, x) :: rest => gcLoop safePoint f ((k, x) :: rest) k batch') =
        gcLoop safePoint f ((s.db k').rows k' ++ s.rows ks) k' batch' := by
      intro batch'
      rw [MVCCLevelDB.rows_cons, hr, List.cons_append]
    rw [gcLoop_rows_step safePoint e hrest hne]
    simp only [hnext, ih (s.db k') hks' (List.nodup_cons.mp hks).1 hfuel' _ hrest', List.mapM_cons]
    cases gcKey safePoint c e <;> cases gcKey safePoint k' (s.db k') <;>
      cases ks.mapM fun k => gcKey safePoint k (s.db k) <;>
      simp [Except.bind, Except.map, pure, Except.pure]

theorem mapM_gcKey_of_rows_eq_nil (s : MVCCLevelDB K V) {ks : List K}
    (hks : ∀ k ∈ ks, (s.db k).rows k = []) :
    ks.mapM (fun k => gcKey safePoint k (s.db k)) = .ok (ks.map fun _ => []) := by
  induction ks with
  | nil => rfl
  | cons k ks ih =>
    rw [List.mapM_cons, Entry.rows_eq_nil (hks k List.mem_cons_self), gcKey_empty,
      ih fun k' hk' => hks k' (List.mem_cons_of_mem k hk')]
    rfl

/-- `GC` from where `newScanIterator` may start: each key's lock check and deletes in turn. -/
theorem gcLoop_of_startsAt (s : MVCCLevelDB K V) {c : K} {ks : List K} (hks : ks.Nodup)
    (hc : StartsAt s ks c) {fuel : Nat} (hfuel : (s.rows ks).length < fuel) :
    gcLoop safePoint fuel (s.rows ks) c [] =
      (ks.mapM fun k => gcKey safePoint k (s.db k)).map List.flatten := by
  rcases hc with hc | ⟨pre, post, rfl, hpre⟩
  case inl =>
    have h := gcLoop_rows safePoint s ⟨none, []⟩ hks hc hfuel []
    rw [Entry.rows, Option.map_none, Option.toList_none, List.map_nil, List.nil_append,
      List.nil_append, gcKey_empty] at h
    rw [h]
    cases ks.mapM fun k => gcKey safePoint k (s.db k) <;> rfl
  case inr =>
    have hnd := (List.nodup_append.mp hks).2.1
    have hrows : s.rows (pre ++ c :: post) = (s.db c).rows c ++ s.rows post :=
      MVCCLevelDB.rows_append_cons_of_rows_eq_nil hpre
    have hfuel' : (s.rows post).length < fuel := by
      rw [hrows, List.length_append] at hfuel
      omega
    rw [hrows, gcLoop_rows safePoint s (s.db c) (List.nodup_cons.mp hnd).2
      (List.nodup_cons.mp hnd).1 hfuel' [], List.mapM_append, mapM_gcKey_of_rows_eq_nil _ s hpre,
      List.mapM_cons]
    cases gcKey safePoint c (s.db c) <;> cases post.mapM fun k => gcKey safePoint k (s.db k) <;>
      simp [Except.bind, Except.map, pure, Except.pure]

end Loop

/-- `GC` checks the lock of each key of the range and collects what each loses, then writes the
deletes when no key failed. -/
theorem LevelDB.gc_eq (db : LevelDB V) (startKey endKey : Key) (safePoint : Nat) :
    db.gc startKey endKey safePoint =
      ((db.keys.filter (inScanRange startKey endKey)).mapM
        fun k => gcKey safePoint k (db.store.db k)).map fun bs => db.deleteVersions bs.flatten := by
  unfold LevelDB.gc
  dsimp only
  rw [gcLoop_of_startsAt safePoint db.store (db.keys_nodup.filter _)
    (db.startsAt_scanStart startKey endKey) (Nat.lt_succ_self _)]
  cases (db.keys.filter (inScanRange startKey endKey)).mapM
    fun k => gcKey safePoint k (db.store.db k) <;> rfl

/-- The lock check of one key passes when the key has no lock that started at or before the safe
point. -/
theorem gcKey_isOk_iff {safePoint : Nat} {key : K} {e : Entry K V} :
    (∃ b, gcKey safePoint key e = .ok b) ↔ ∀ l, e.lock = some l → safePoint < l.startTS := by
  constructor
  · rintro ⟨b, hb⟩
    exact (gcKey_ok hb).1
  · intro hl
    unfold gcKey
    cases he : e.lock with
    | none => exact ⟨_, rfl⟩
    | some l => exact ⟨_, if_neg (Nat.not_le.mpr (hl l he))⟩

/-- `GC` succeeds exactly when no key of the range has a lock that started at or before the safe
point. -/
theorem LevelDB.gc_isOk_iff (db : LevelDB V) (startKey endKey : Key) (safePoint : Nat) :
    (∃ db', db.gc startKey endKey safePoint = .ok db') ↔
      ∀ k ∈ db.keys.filter (inScanRange startKey endKey), ∀ l, (db.store.db k).lock = some l →
        safePoint < l.startTS := by
  rw [LevelDB.gc_eq]
  constructor
  · rintro ⟨db', hdb'⟩ k hk
    cases hbs : (db.keys.filter (inScanRange startKey endKey)).mapM
        fun k => gcKey safePoint k (db.store.db k) with
    | error err =>
      rw [hbs] at hdb'
      cases hdb'
    | ok bs =>
      obtain ⟨b, -, hb⟩ := mapM_ok_of_mem hbs hk
      exact gcKey_isOk_iff.mp ⟨b, hb⟩
  · intro hlocks
    obtain ⟨bs, hbs⟩ := mapM_ok_of_forall _ _ fun k hk => gcKey_isOk_iff.mpr (hlocks k hk)
    exact ⟨_, by rw [hbs]; rfl⟩

/-! ### What `GC` keeps -/

theorem MVCCLevelDB.deleteVersions_db_of_forall_not_mem (s : MVCCLevelDB K V)
    {batch : List (K × Nat)} {k : K} (hk : ∀ t, (k, t) ∉ batch) :
    (s.deleteVersions batch).db k = s.db k := by
  simp [MVCCLevelDB.deleteVersions, hk]

/-- The deletes of a successful `GC` of `ks` are each of a key of `ks`, and the ones of that key. -/
theorem mem_flatten_of_mapM_gcKey {s : MVCCLevelDB K V} {safePoint : Nat} {ks : List K}
    {bs : List (List (K × Nat))} (hbs : ks.mapM (fun k => gcKey safePoint k (s.db k)) = .ok bs)
    {p : K × Nat} :
    p ∈ bs.flatten ↔ p.1 ∈ ks ∧ ∃ b, gcKey safePoint p.1 (s.db p.1) = .ok b ∧ p ∈ b := by
  constructor
  · intro hp
    obtain ⟨b, hb, hpb⟩ := List.mem_flatten.mp hp
    obtain ⟨k, hk, hkb⟩ := mapM_ok_mem hbs hb
    rw [gcKey_key hkb hpb]
    exact ⟨hk, b, hkb, hpb⟩
  · rintro ⟨hk, b, hkb, hpb⟩
    obtain ⟨b', hb', hkb'⟩ := mapM_ok_of_mem hbs hk
    rw [hkb, Except.ok.injEq] at hkb'
    exact List.mem_flatten.mpr ⟨b', hb', hkb' ▸ hpb⟩

/-- After a successful `GC` at `safePoint`, a read at or above the safe point reads every key as
before, and the keys outside the range hold what they held. -/
theorem gc_preserves_reads (db : LevelDB V) (startKey endKey : Key) (safePoint : Nat)
    {db' : LevelDB V} (hgc : db.gc startKey endKey safePoint = .ok db') :
    (∀ k ts, safePoint ≤ ts → db'.store.get k ts = db.store.get k ts) ∧
      ∀ k, inScanRange startKey endKey k = false → db'.store.db k = db.store.db k := by
  rw [LevelDB.gc_eq] at hgc
  cases hbs : (db.keys.filter (inScanRange startKey endKey)).mapM
      fun k => gcKey safePoint k (db.store.db k) with
  | error err =>
    rw [hbs] at hgc
    cases hgc
  | ok bs =>
    rw [hbs] at hgc
    obtain rfl : db.deleteVersions bs.flatten = db' := Except.ok.inj hgc
    -- a key of which nothing is deleted holds what it held
    have hsame : ∀ k, k ∉ db.keys.filter (inScanRange startKey endKey) →
        (db.deleteVersions bs.flatten).store.db k = db.store.db k := fun k hk =>
      MVCCLevelDB.deleteVersions_db_of_forall_not_mem _ fun t ht =>
        hk ((mem_flatten_of_mapM_gcKey hbs).mp ht).1
    refine ⟨fun k ts hts => ?_, fun k hk => hsame k fun hmem => ?_⟩
    case refine_2 =>
      rw [List.mem_filter, hk] at hmem
      cases hmem.2
    by_cases hk : k ∈ db.keys.filter (inScanRange startKey endKey)
    case neg => rw [MVCCLevelDB.get, MVCCLevelDB.get, hsame k hk]
    -- a key of the range: its lock passed the check and it keeps the versions of `gcKept`
    obtain ⟨b, -, hb⟩ := mapM_ok_of_mem hbs hk
    obtain ⟨hlock, rfl⟩ := gcKey_ok hb
    have hvalues : ((db.deleteVersions bs.flatten).store.db k).values =
        gcKept safePoint true (db.store.db k).values := by
      have hnil : ∀ w ∈ (db.store.db k).values, (k, w.commitTS) ∉ ([] : List (Key × Nat)) :=
        fun _ _ => List.not_mem_nil
      rw [← filter_gcValues (db.versions_sorted k) true hnil]
      refine List.filter_congr fun v _ => ?_
      rw [decide_eq_decide, mem_flatten_of_mapM_gcKey hbs]
      simp [hk, hb]
    rw [MVCCLevelDB.get, MVCCLevelDB.get]
    refine getValue_congr ?_ hlock (fun ts' hts' => ?_) k hts
    · rfl
    · rw [hvalues]
      exact visibleValue_gcKept (db.versions_sorted k) hts'

/-- The store of `emptyPutLevelDB` after a second transaction, started at 3, puts `[7]` at `[1]`
and commits at 4. -/
def twoPutStore : MVCCLevelDB Key (List (Fin 256)) :=
  ((emptyPutStore.prewrite [⟨.put [7], [1]⟩] [1] 3 0).2.commit [[1]] 3 4).2

theorem twoPutStore_db (k : Key) :
    twoPutStore.db k = if k = [1] then
      ⟨none, [⟨.typePut, 3, 4, some [7]⟩, ⟨.typePut, 1, 2, some []⟩]⟩ else ⟨none, []⟩ := by
  have hwrite : twoPutStore = (emptyPutStore.write [.putLock [1] ⟨3, [1], .put [7], 0⟩]).write
      [.putValue [1] ⟨.typePut, 3, 4, some [7]⟩, .deleteLock [1]] := rfl
  by_cases hk : k = [1]
  · subst hk
    rfl
  · rw [if_neg hk, hwrite, MVCCLevelDB.write_db_of_forall_ne, MVCCLevelDB.write_db_of_forall_ne,
      emptyPutStore_db, if_neg hk]
    all_goals simp [BatchOp.key, Ne.symm hk]

/-- The leveldb of `twoPutStore`. -/
def twoPutLevelDB : LevelDB (List (Fin 256)) where
  store := twoPutStore
  keys := [[1]]
  keys_sorted := emptyPutLevelDB.keys_sorted
  complete k hk := by rw [twoPutStore_db, if_neg (List.mem_singleton.not.mp hk)]
  versions_sorted k := by
    rw [twoPutStore_db]
    split <;> simp

/-- `GC` at 5 deletes the older `Put`, and a read at 5 reads the newer one as before. -/
theorem gc_preserves_reads_twoPut :
    twoPutLevelDB.gc [] [] 5 = .ok (twoPutLevelDB.deleteVersions [([1], 2)]) ∧
      (twoPutLevelDB.deleteVersions [([1], 2)]).store.db [1] =
        ⟨none, [⟨.typePut, 3, 4, some [7]⟩]⟩ ∧
      (twoPutLevelDB.deleteVersions [([1], 2)]).store.get [1] 5 = twoPutLevelDB.store.get [1] 5 := by
  have hgc : twoPutLevelDB.gc [] [] 5 = .ok (twoPutLevelDB.deleteVersions [([1], 2)]) := by
    rw [LevelDB.gc_eq]
    rfl
  exact ⟨hgc, rfl, (gc_preserves_reads _ _ _ _ hgc).1 [1] 5 (Nat.le_refl 5)⟩

end TinySql.Mocktikv
