import TinySql.Mocktikv.MvccKey
import TinySql.Mocktikv.Store

/-!
# The store through its iterator

`Get`, `Scan`, `ReverseScan` and `GC` of `mvcc_leveldb.go` read the store through a leveldb
iterator, one row at a time, each row's key decoded by `mvccDecode`: a key's lock, then its values
newest first, then the next key (`mvccEncode_layout`). `Entry.rows` is that view of an entry, and
`LevelDB` the contents of the whole leveldb: the entries of a store at finitely many keys, in
ascending order, with each key's versions descending as their encoded keys sort them.

The decoders here are the iterator's readers: `lockDecoder`, `valueDecoder` inside the loop of
`getValue`, and `skipDecoder`. On the rows of one key they read back the entry
(`getValueIter_rows`), which connects the iterator to the model of `Store`.
-/

namespace TinySql.Mocktikv

open TinySql.Codec

/-- A row as the iterator reads it: the lock of its key, at `lockVer`, or a value, at the value's
`commitTS`. -/
inductive Cell (K V : Type)
  | lock (l : MvccLock K V)
  | value (v : MvccValue V)

variable {K V : Type}

/-- The rows of one key in the order of the store. -/
def Entry.rows (e : Entry K V) (key : K) : List (K × Cell K V) :=
  (e.lock.map fun l => (key, Cell.lock l)).toList ++ e.values.map fun v => (key, Cell.value v)

/-- The rows of the store at `keys`, key after key. -/
def MVCCLevelDB.rows (s : MVCCLevelDB K V) (keys : List K) : List (K × Cell K V) :=
  keys.flatMap fun k => (s.db k).rows k

theorem Entry.key_of_mem_rows {e : Entry K V} {key : K} {r : K × Cell K V} (h : r ∈ e.rows key) :
    r.1 = key := by
  unfold Entry.rows at h
  cases hl : e.lock <;> simp only [hl, Option.map_none, Option.map_some, Option.toList_none,
    Option.toList_some, List.nil_append, List.cons_append, List.mem_cons, List.mem_map] at h <;>
    grind

theorem Entry.rows_eq_nil {e : Entry K V} {key : K} (h : e.rows key = []) : e = ⟨none, []⟩ := by
  unfold Entry.rows at h
  cases e with
  | mk lock values => cases lock <;> simp_all

@[simp] theorem MVCCLevelDB.rows_nil (s : MVCCLevelDB K V) : s.rows [] = [] := rfl

theorem MVCCLevelDB.rows_cons (s : MVCCLevelDB K V) (k : K) (ks : List K) :
    s.rows (k :: ks) = (s.db k).rows k ++ s.rows ks := rfl

theorem MVCCLevelDB.rows_append (s : MVCCLevelDB K V) (ks₁ ks₂ : List K) :
    s.rows (ks₁ ++ ks₂) = s.rows ks₁ ++ s.rows ks₂ :=
  List.flatMap_append

theorem MVCCLevelDB.rows_eq_nil_iff {s : MVCCLevelDB K V} {ks : List K} :
    s.rows ks = [] ↔ ∀ k ∈ ks, (s.db k).rows k = [] :=
  List.flatMap_eq_nil_iff

/-- The first row of the store at `ks` is the first row of a key of `ks`, and every key before
that one has no rows. -/
theorem MVCCLevelDB.eq_append_of_rows_eq_cons {s : MVCCLevelDB K V} {ks : List K}
    {r : K × Cell K V} {rs : List (K × Cell K V)} (h : s.rows ks = r :: rs) :
    ∃ pre post, ks = pre ++ r.1 :: post ∧ ∀ k ∈ pre, (s.db k).rows k = [] := by
  induction ks with
  | nil => cases h
  | cons k ks ih =>
    rw [MVCCLevelDB.rows_cons] at h
    cases hk : (s.db k).rows k with
    | nil =>
      rw [hk, List.nil_append] at h
      obtain ⟨pre, post, rfl, hpre⟩ := ih h
      refine ⟨k :: pre, post, rfl, ?_⟩
      intro k' hk'
      rcases List.mem_cons.mp hk' with rfl | hk'
      · exact hk
      · exact hpre k' hk'
    | cons r' rs' =>
      rw [hk, List.cons_append, List.cons.injEq] at h
      have hr : r.1 = k := Entry.key_of_mem_rows (h.1 ▸ hk ▸ List.mem_cons_self)
      exact ⟨[], ks, by rw [hr]; rfl, by simp⟩

theorem MVCCLevelDB.rows_append_cons_of_rows_eq_nil {s : MVCCLevelDB K V} {pre post : List K}
    {c : K} (hpre : ∀ k ∈ pre, (s.db k).rows k = []) :
    s.rows (pre ++ c :: post) = (s.db c).rows c ++ s.rows post := by
  rw [MVCCLevelDB.rows_append, MVCCLevelDB.rows_eq_nil_iff.mpr hpre, List.nil_append,
    MVCCLevelDB.rows_cons]

/-- Where a loop over the rows of `ks` may start: at a key not in `ks`, or at one that only keys
without rows come before. -/
def StartsAt (s : MVCCLevelDB K V) (ks : List K) (c : K) : Prop :=
  c ∉ ks ∨ ∃ pre post, ks = pre ++ c :: post ∧ ∀ k ∈ pre, (s.db k).rows k = []

theorem MVCCLevelDB.key_mem_of_mem_rows {s : MVCCLevelDB K V} {ks : List K} {r : K × Cell K V}
    (h : r ∈ s.rows ks) : r.1 ∈ ks := by
  obtain ⟨k, hk, hr⟩ := List.mem_flatMap.mp h
  rw [Entry.key_of_mem_rows hr]
  exact hk

/-- The value rows of `key`. -/
abbrev valueRows (key : K) (vs : List (MvccValue V)) : List (K × Cell K V) :=
  vs.map fun v => (key, Cell.value v)

theorem valueRows_cons (key : K) (v : MvccValue V) (vs : List (MvccValue V)) :
    valueRows key (v :: vs) = (key, .value v) :: valueRows key vs := rfl

variable [DecidableEq K]

/-! ### The decoders -/

/-- `lockDecoder.Decode`: the lock of `expectKey` when the iterator is at it, and the iterator
past it. -/
def lockDecode (expectKey : K) : List (K × Cell K V) → Option (MvccLock K V) × List (K × Cell K V)
  | (key, .lock l) :: rows => if key = expectKey then (some l, rows) else (none, (key, .lock l) :: rows)
  | rows => (none, rows)

/-- The loop of `getValue` over the values of `key`, each read by `valueDecoder.Decode`: the
newest committed value visible at `startTS`, and where the iterator stopped. -/
def getValueLoop (key : K) (startTS : Nat) : List (K × Cell K V) → Option V × List (K × Cell K V)
  | (k, .value v) :: rows =>
    if k = key then
      if v.valueType = .typeRollback then getValueLoop key startTS rows
      else if v.commitTS ≤ startTS then (if v.valueType = .typeDelete then none else v.value, rows)
      else getValueLoop key startTS rows
    else (none, (k, .value v) :: rows)
  | rows => (none, rows)

/-- `getValue` on an iterator at the rows of `key`: the value and where the iterator stopped. -/
def getValueIter (rows : List (K × Cell K V)) (key : K) (startTS : Nat) :
    Except (MvccError K V) (Option V) × List (K × Cell K V) :=
  match lockDecode key rows with
  | (some l, rows) =>
    match l.check startTS key with
    | .error e => (.error e, rows)
    | .ok ts => (.ok (getValueLoop key ts rows).1, (getValueLoop key ts rows).2)
  | (none, rows) => (.ok (getValueLoop key startTS rows).1, (getValueLoop key startTS rows).2)

/-- `skipDecoder.Decode`: the iterator past the rows of `currKey`, and the key it stopped at. -/
def skipDecode (currKey : K) : List (K × Cell K V) → Option K × List (K × Cell K V)
  | [] => (none, [])
  | (key, c) :: rows => if key = currKey then skipDecode currKey rows else (some key, (key, c) :: rows)

/-! ### The decoders on the rows of one key -/

section OneKey

variable {key : K} {rest : List (K × Cell K V)}

theorem lockDecode_rows (e : Entry K V) (hrest : ∀ r ∈ rest, r.1 ≠ key) :
    lockDecode key (e.rows key ++ rest) = (e.lock, valueRows key e.values ++ rest) := by
  cases hl : e.lock with
  | some l => simp [Entry.rows, hl, lockDecode]
  | none =>
    simp only [Entry.rows, hl, Option.map_none, Option.toList_none, List.nil_append]
    cases hvs : e.values with
    | cons v vs => rfl
    | nil =>
      -- the rows of the next key start with another key
      match rest, hrest with
      | [], _ => rfl
      | (k, .lock l) :: rest, hrest =>
        simp [lockDecode, hrest (k, .lock l) List.mem_cons_self]
      | (k, .value v) :: rest, _ => rfl

theorem getValueLoop_valueRows (ts : Nat) (vs : List (MvccValue V))
    (hrest : ∀ r ∈ rest, r.1 ≠ key) :
    (getValueLoop key ts (valueRows key vs ++ rest)).1 =
        (match vs.find? fun v => v.valueType != .typeRollback && decide (v.commitTS ≤ ts) with
          | some v => if v.valueType = .typeDelete then none else v.value
          | none => none) ∧
      ∃ vs', (getValueLoop key ts (valueRows key vs ++ rest)).2 = valueRows key vs' ++ rest := by
  induction vs with
  | nil =>
    refine ⟨?_, [], ?_⟩ <;>
    match rest, hrest with
    | [], _ => rfl
    | (k, .lock l) :: rest, _ => rfl
    | (k, .value v) :: rest, hrest =>
      simp [getValueLoop, hrest (k, .value v) List.mem_cons_self]
  | cons v vs ih =>
    by_cases hr : v.valueType = .typeRollback
    · simpa [getValueLoop, hr] using ih
    · by_cases hts : v.commitTS ≤ ts
      · exact ⟨by simp [getValueLoop, hr, hts], vs, by simp [getValueLoop, hr, hts]⟩
      · simpa [getValueLoop, hr, hts] using ih

theorem skipDecode_valueRows (vs : List (MvccValue V)) (rest : List (K × Cell K V)) :
    skipDecode key (valueRows key vs ++ rest) = skipDecode key rest := by
  induction vs with
  | nil => rfl
  | cons v vs ih => simpa [skipDecode] using ih

theorem skipDecode_of_ne {k : K} (hk : k ≠ key) (c : Cell K V) :
    skipDecode key ((k, c) :: rest) = (some k, (k, c) :: rest) := by
  simp [skipDecode, hk]

/-- `getValue` on the rows of an entry reads the entry's value, and leaves the iterator where
`skipDecoder` finds the next key. -/
theorem getValueIter_rows (e : Entry K V) (ts : Nat) (hrest : ∀ r ∈ rest, r.1 ≠ key) :
    (getValueIter (e.rows key ++ rest) key ts).1 = getValue e key ts ∧
      skipDecode key (getValueIter (e.rows key ++ rest) key ts).2 = skipDecode key rest := by
  -- after the lock, the iterator is at the value rows whichever way the lock check goes
  have hvalues : ∀ ts', (getValueLoop key ts' (valueRows key e.values ++ rest)).1 =
        (match e.values.find? fun v => v.valueType != .typeRollback && decide (v.commitTS ≤ ts') with
          | some v => if v.valueType = .typeDelete then none else v.value
          | none => none) ∧
      skipDecode key (getValueLoop key ts' (valueRows key e.values ++ rest)).2 = skipDecode key rest := by
    intro ts'
    obtain ⟨h1, vs', h2⟩ := getValueLoop_valueRows ts' e.values hrest
    exact ⟨h1, by rw [h2, skipDecode_valueRows]⟩
  unfold getValueIter
  rw [lockDecode_rows e hrest]
  cases hl : e.lock with
  | none =>
    obtain ⟨h1, h2⟩ := hvalues ts
    refine ⟨?_, h2⟩
    cases hf : e.values.find? fun v => v.valueType != .typeRollback && decide (v.commitTS ≤ ts) <;>
      simp [getValue, hl, hf, h1, bind, Except.bind, pure, Except.pure]
  | some l =>
    dsimp only
    cases hc : l.check ts key with
    | error err =>
      exact ⟨by simp [getValue, hl, hc, bind, Except.bind], skipDecode_valueRows _ _⟩
    | ok ts' =>
      obtain ⟨h1, h2⟩ := hvalues ts'
      refine ⟨?_, h2⟩
      cases hf : e.values.find? fun v => v.valueType != .typeRollback && decide (v.commitTS ≤ ts') <;>
        simp [getValue, hl, hc, hf, h1, bind, Except.bind, pure, Except.pure]

end OneKey


/-! ### The contents of the leveldb -/

/-- The contents of the leveldb of a store: the entries of `store` at `keys`, which ascend, nothing
at any other key, and each key's versions descending, as their encoded keys sort them. -/
structure LevelDB (V : Type) where
  store : MVCCLevelDB Key V
  keys : List Key
  keys_sorted : keys.Pairwise fun a b => compare a b = .lt
  complete : ∀ k ∉ keys, store.db k = ⟨none, []⟩
  versions_sorted : ∀ k, (store.db k).values.Pairwise fun v w => w.commitTS < v.commitTS

theorem LevelDB.keys_nodup (db : LevelDB V) : db.keys.Nodup :=
  db.keys_sorted.imp fun h heq => by
    subst heq
    rw [Std.compare_self] at h
    cases h

/-- The keys whose rows `newScanIterator` reads: from `startKey` on, and below `endKey` unless it
is empty. -/
def inScanRange (startKey endKey key : Key) : Bool :=
  compare key startKey != .lt && (endKey.isEmpty || compare key endKey == .lt)

theorem compare_lockVer_ne_lt (ver : UInt64) : compare lockVer ver ≠ .lt := by
  rw [UInt64.compare_eq_toNat_compare_toNat, Ne, Nat.compare_eq_lt]
  have := ver.toNat_lt
  simp only [lockVer, UInt64.reduceToNat]
  omega

/-- The bounds of `newScanIterator`, `mvccEncode startKey lockVer` and `mvccEncode endKey lockVer`,
let through the rows of the keys in the range, at any version. -/
theorem inScanRange_iff_mvccEncode (startKey endKey key : Key) (ver : UInt64) :
    inScanRange startKey endKey key = true ↔
      compare (mvccEncode key ver) (mvccEncode startKey lockVer) ≠ .lt ∧
        (endKey = [] ∨ compare (mvccEncode key ver) (mvccEncode endKey lockVer) = .lt) := by
  have hver := compare_lockVer_ne_lt ver
  rw [compare_mvccEncode, compare_mvccEncode]
  -- the version decides only between equal keys, and it never puts a row below the bound
  have hthen : ∀ o : Ordering, (o.then (compare lockVer ver) = .lt ↔ o = .lt) := by
    intro o
    cases o <;> simp [Ordering.then, hver]
  simp only [inScanRange, Bool.and_eq_true, bne_iff_ne, ne_eq, Bool.or_eq_true, List.isEmpty_iff,
    beq_iff_eq, hthen]

theorem inScanRange_start {startKey endKey key : Key} (h : inScanRange startKey endKey key = true) :
    compare key startKey ≠ .lt := by
  simp only [inScanRange, Bool.and_eq_true, bne_iff_ne] at h
  exact h.1

/-- In an ascending list of keys none of which is below `a`, `a` can only come first. -/
theorem eq_cons_of_mem_of_forall_not_lt {ks : List Key} {a : Key}
    (hs : ks.Pairwise fun a b => compare a b = .lt) (ha : a ∈ ks)
    (hge : ∀ k ∈ ks, compare k a ≠ .lt) : ks = a :: ks.tail := by
  cases ks with
  | nil => cases ha
  | cons k ks =>
    rcases List.mem_cons.mp ha with rfl | ha
    · rfl
    · exact absurd ((List.pairwise_cons.mp hs).1 a ha) (hge k List.mem_cons_self)

/-- `newScanIterator` starts at `startKey`, or at the first key with rows when `startKey` is empty:
where a loop over the rows of the range may start. -/
theorem LevelDB.startsAt_scanStart (db : LevelDB V) (startKey endKey : Key) :
    StartsAt db.store (db.keys.filter (inScanRange startKey endKey))
      (if startKey.isEmpty then
        ((db.store.rows (db.keys.filter (inScanRange startKey endKey))).head?.map Prod.fst).getD
          startKey
      else startKey) := by
  cases hstart : startKey.isEmpty
  case false =>
    -- `startKey` is the first key of the range if it is one
    rw [if_neg Bool.false_ne_true]
    by_cases hmem : startKey ∈ db.keys.filter (inScanRange startKey endKey)
    case neg => exact .inl hmem
    have hge : ∀ k ∈ db.keys.filter (inScanRange startKey endKey), compare k startKey ≠ .lt :=
      fun k hk => inScanRange_start (List.mem_filter.mp hk).2
    exact .inr ⟨[], _, eq_cons_of_mem_of_forall_not_lt (db.keys_sorted.filter _) hmem hge,
      by simp⟩
  case true =>
    rw [if_pos rfl]
    cases hrows : db.store.rows (db.keys.filter (inScanRange startKey endKey)) with
    | nil =>
      -- no key has rows
      by_cases hmem : startKey ∈ db.keys.filter (inScanRange startKey endKey)
      case neg => exact .inl hmem
      obtain ⟨pre, post, hsplit⟩ := List.append_of_mem hmem
      refine .inr ⟨pre, post, hsplit, fun k hk => ?_⟩
      exact MVCCLevelDB.rows_eq_nil_iff.mp hrows k (hsplit ▸ List.mem_append_left _ hk)
    | cons r rs =>
      -- the first row's key, after keys without rows
      obtain ⟨pre, post, hsplit, hpre⟩ := MVCCLevelDB.eq_append_of_rows_eq_cons hrows
      exact .inr ⟨pre, post, hsplit, hpre⟩

end TinySql.Mocktikv
