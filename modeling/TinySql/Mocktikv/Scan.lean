import TinySql.Mocktikv.Iterator

/-!
# Scan and ReverseScan

`MVCCLevelDB.Scan` walks the rows of a key range forward: `getValue` reads the key at the iterator
and `skipDecoder` moves to the next one. `ReverseScan` walks backward from the end of the range,
gathers each key's lock and values into an `mvccEntry` and reads it with `mvccEntry.Get`.

Both return the keys of the range with what a read at `startTS` gives them, the first `limit` of
them (`LevelDB.scan_eq`, `LevelDB.reverseScan_eq`), but they do not keep the same keys. Every
value the store reads back is a non-nil slice (`marshalHelper.ReadSlice` makes one even of length
zero). `Scan` keeps a key whose value is not nil, so it keeps a `Put` of an empty value, while
`ReverseScan` keeps a value of non-zero length and drops it (`scan_reverseScan_empty_value`).
-/

namespace TinySql.Mocktikv

open TinySql.Codec

variable {K V : Type}

/-- A `Pair` of a scan: a key with its value, or the error met reading it. -/
abbrev Pair (K V : Type) := K × Except (MvccError K V) V

/-- What `Scan` appends for a key: the error, or the value when there is one. -/
def pairOf (key : K) : Except (MvccError K V) (Option V) → List (Pair K V)
  | .error e => [(key, .error e)]
  | .ok (some v) => [(key, .ok v)]
  | .ok none => []

theorem length_pairOf_le (key : K) (r : Except (MvccError K V) (Option V)) :
    (pairOf key r).length ≤ 1 := by
  rcases r with e | (_ | v) <;> simp [pairOf]

/-- What `finishEntry` appends for a key: the error, or a value of non-zero length. -/
def nonEmptyPairOf (key : K) :
    Except (MvccError K (List (Fin 256))) (Option (List (Fin 256))) → List (Pair K (List (Fin 256)))
  | .error e => [(key, .error e)]
  | .ok (some v) => if v.length ≠ 0 then [(key, .ok v)] else []
  | .ok none => []

theorem length_nonEmptyPairOf_le (key : K)
    (r : Except (MvccError K (List (Fin 256))) (Option (List (Fin 256)))) :
    (nonEmptyPairOf key r).length ≤ 1 := by
  rcases r with e | (_ | v) <;> simp [nonEmptyPairOf, apply_ite List.length]
  split_ifs <;> simp

variable [DecidableEq K]

/-- `mvccEntry.Get`: the value of the newest version visible at `ts` that is not a rollback, read
below the lock as `mvccLock.check` allows. -/
def Entry.get (e : Entry K V) (key : K) (ts : Nat) : Except (MvccError K V) (Option V) := do
  let ts ← match e.lock with
    | some l => l.check ts key
    | none => pure ts
  match e.values.find? fun v => decide (v.commitTS ≤ ts) && v.valueType != .typeRollback with
  | some v => pure v.value
  | none => pure none

/-- The loop of `Scan`; `fuel` bounds the keys it visits. -/
def scanLoop (limit startTS : Nat) :
    Nat → List (K × Cell K V) → K → List (Pair K V) → List (Pair K V)
  | 0, _, _, pairs => pairs
  | fuel + 1, rows, currKey, pairs =>
    if pairs.length < limit then
      let res := getValueIter rows currKey startTS
      let pairs := pairs ++ pairOf currKey res.1
      match skipDecode currKey res.2 with
      | (some key, rows) => scanLoop limit startTS fuel rows key pairs
      | (none, _) => pairs
    else pairs

/-- `Scan` over the range `[startKey, endKey)`: an empty `startKey` starts at the first key. -/
def LevelDB.scan (db : LevelDB V) (startKey endKey : Key) (limit startTS : Nat) :
    List (Pair Key V) :=
  let rows := db.store.rows (db.keys.filter (inScanRange startKey endKey))
  let currKey := if startKey.isEmpty then (rows.head?.map Prod.fst).getD startKey else startKey
  scanLoop limit startTS (rows.length + 1) rows currKey []

/-! ### The loop of `Scan` -/

section ScanLoop

variable {limit startTS fuel : Nat} {rows rows' : List (K × Cell K V)} {currKey key : K}
  {pairs : List (Pair K V)}

theorem scanLoop_of_le (hp : limit ≤ pairs.length) :
    scanLoop limit startTS fuel rows currKey pairs = pairs := by
  cases fuel <;> simp [scanLoop, Nat.not_lt.mpr hp]

theorem scanLoop_succ_of_some (hp : pairs.length < limit)
    (hskip : skipDecode currKey (getValueIter rows currKey startTS).2 = (some key, rows')) :
    scanLoop limit startTS (fuel + 1) rows currKey pairs =
      scanLoop limit startTS fuel rows' key
        (pairs ++ pairOf currKey (getValueIter rows currKey startTS).1) := by
  simp [scanLoop, hp, hskip]

theorem scanLoop_succ_of_none (hp : pairs.length < limit)
    (hskip : skipDecode currKey (getValueIter rows currKey startTS).2 = (none, rows')) :
    scanLoop limit startTS (fuel + 1) rows currKey pairs =
      pairs ++ pairOf currKey (getValueIter rows currKey startTS).1 := by
  simp [scanLoop, hp, hskip]

end ScanLoop

/-- A key that holds nothing reads as nothing. -/
@[simp] theorem getValue_empty (key : K) (ts : Nat) :
    getValue (⟨none, []⟩ : Entry K V) key ts = .ok none := rfl

theorem take_max_length_of_le {α : Type} {xs ys : List α} {limit : Nat} (h : limit ≤ xs.length) :
    (xs ++ ys).take (max limit xs.length) = xs := by
  rw [Nat.max_eq_right h, List.take_left]

section ScanRows

variable (s : MVCCLevelDB K V) (limit startTS : Nat) {pairs : List (Pair K V)} {f : Nat}

/-- The last key of the range: its pair ends the scan. -/
theorem scanLoop_rows_last {c : K} (e : Entry K V) (hp : pairs.length < limit) :
    scanLoop limit startTS (f + 1) (e.rows c) c pairs = pairs ++ pairOf c (getValue e c startTS) := by
  have hrest : ∀ r ∈ ([] : List (K × Cell K V)), r.1 ≠ c := by simp
  obtain ⟨hget, hskip⟩ := getValueIter_rows e startTS hrest
  rw [List.append_nil] at hget hskip
  rw [scanLoop_succ_of_none hp hskip, hget]

/-- A key followed by another: its pair, and `skipDecoder` stops at the next key. -/
theorem scanLoop_rows_next {c k : K} (e : Entry K V) (x : Cell K V) {rest : List (K × Cell K V)}
    (hrest : ∀ r ∈ (k, x) :: rest, r.1 ≠ c) (hp : pairs.length < limit) :
    scanLoop limit startTS (f + 1) (e.rows c ++ (k, x) :: rest) c pairs =
      scanLoop limit startTS f ((k, x) :: rest) k (pairs ++ pairOf c (getValue e c startTS)) := by
  obtain ⟨hget, hskip⟩ := getValueIter_rows e startTS hrest
  have hk : k ≠ c := hrest (k, x) List.mem_cons_self
  rw [scanLoop_succ_of_some hp (hskip.trans (skipDecode_of_ne hk x)), hget]

/-- `Scan` from the rows of `c`, followed by the rows of `ks`: each key's pair in turn, until
`limit` pairs. The induction is on `ks`; a key without rows is one `skipDecoder` never stops at,
and the fuel is spent only on keys with rows. -/
theorem scanLoop_rows {c : K} (e : Entry K V) {ks : List K} (hks : ks.Nodup) (hc : c ∉ ks)
    {fuel : Nat} (hfuel : (s.rows ks).length < fuel) (pairs : List (Pair K V)) :
    scanLoop limit startTS fuel (e.rows c ++ s.rows ks) c pairs =
      (pairs ++ pairOf c (getValue e c startTS) ++ ks.flatMap fun k => pairOf k (s.get k startTS)).take
        (max limit pairs.length) := by
  induction ks generalizing c e fuel pairs with
  | nil =>
    have hpair := length_pairOf_le c (getValue e c startTS)
    obtain ⟨f, rfl⟩ : ∃ f, fuel = f + 1 := ⟨fuel - 1, by omega⟩
    by_cases hp : pairs.length < limit
    case neg =>
      rw [scanLoop_of_le (Nat.not_lt.mp hp), List.append_assoc,
        take_max_length_of_le (Nat.not_lt.mp hp)]
    rw [MVCCLevelDB.rows_nil, List.append_nil, scanLoop_rows_last limit startTS e hp,
      List.flatMap_nil, List.append_nil, List.take_of_length_le]
    simp only [List.length_append]
    omega
  | cons k ks ih =>
    have hks' := (List.nodup_cons.mp hks).2
    have hc' : c ∉ ks := fun h => hc (List.mem_cons_of_mem k h)
    by_cases hk : (s.db k).rows k = []
    case pos =>
      -- a key without rows: nothing of it is read and it has no pair
      have hrows : s.rows (k :: ks) = s.rows ks := by rw [MVCCLevelDB.rows_cons, hk, List.nil_append]
      rw [hrows] at hfuel ⊢
      rw [ih e hks' hc' hfuel pairs, List.flatMap_cons]
      simp [MVCCLevelDB.get, Entry.rows_eq_nil hk, pairOf]
    obtain ⟨f, rfl⟩ : ∃ f, fuel = f + 1 := ⟨fuel - 1, by omega⟩
    by_cases hp : pairs.length < limit
    case neg =>
      rw [scanLoop_of_le (Nat.not_lt.mp hp), List.append_assoc,
        take_max_length_of_le (Nat.not_lt.mp hp)]
    obtain ⟨⟨k', x⟩, rs, hr⟩ := List.exists_cons_of_ne_nil hk
    have hk' : k' = k := Entry.key_of_mem_rows (hr ▸ List.mem_cons_self : (k', x) ∈ (s.db k).rows k)
    subst hk'
    have hrest : ∀ r ∈ s.rows (k' :: ks), r.1 ≠ c := fun r hr heq =>
      hc (heq ▸ MVCCLevelDB.key_mem_of_mem_rows hr)
    have hfuel' : (s.rows ks).length < f := by
      rw [MVCCLevelDB.rows_cons, List.length_append, hr, List.length_cons] at hfuel
      omega
    rw [MVCCLevelDB.rows_cons, hr, List.cons_append] at hrest ⊢
    rw [scanLoop_rows_next limit startTS e x hrest hp, ← List.cons_append, ← hr,
      ih (s.db k') hks' (List.nodup_cons.mp hks).1 hfuel', List.flatMap_cons]
    have hlen : (pairs ++ pairOf c (getValue e c startTS)).length ≤ limit := by
      have hpair := length_pairOf_le c (getValue e c startTS)
      rw [List.length_append]
      omega
    rw [Nat.max_eq_left hlen, Nat.max_eq_left hp.le, MVCCLevelDB.get, List.append_assoc,
      List.append_assoc]

theorem pairOf_get_of_rows_eq_nil {k : K} (hk : (s.db k).rows k = []) :
    pairOf k (s.get k startTS) = [] := by
  rw [MVCCLevelDB.get, Entry.rows_eq_nil hk, getValue_empty]
  rfl

theorem flatMap_pairOf_of_rows_eq_nil {ks : List K} (hks : ∀ k ∈ ks, (s.db k).rows k = []) :
    (ks.flatMap fun k => pairOf k (s.get k startTS)) = [] :=
  List.flatMap_eq_nil_iff.mpr fun k hk => pairOf_get_of_rows_eq_nil s startTS (hks k hk)

/-- `Scan` from where `newScanIterator` may start: each key's pair in turn, until `limit` pairs.
From a key outside `ks` it reads nothing there; after keys without rows it reads nothing of them. -/
theorem scanLoop_of_startsAt {c : K} {ks : List K} (hks : ks.Nodup) (hc : StartsAt s ks c)
    {fuel : Nat} (hfuel : (s.rows ks).length < fuel) :
    scanLoop limit startTS fuel (s.rows ks) c [] =
      (ks.flatMap fun k => pairOf k (s.get k startTS)).take limit := by
  rcases hc with hc | ⟨pre, post, rfl, hpre⟩
  case inl =>
    have h := scanLoop_rows s limit startTS ⟨none, []⟩ hks hc hfuel []
    rwa [Entry.rows, Option.map_none, Option.toList_none, List.map_nil, List.nil_append,
      getValue_empty, List.length_nil, Nat.max_zero] at h
  case inr =>
    have hnd := (List.nodup_append.mp hks).2.1
    have hrows : s.rows (pre ++ c :: post) = (s.db c).rows c ++ s.rows post :=
      MVCCLevelDB.rows_append_cons_of_rows_eq_nil hpre
    have hfuel' : (s.rows post).length < fuel := by
      rw [hrows, List.length_append] at hfuel
      omega
    rw [hrows, scanLoop_rows s limit startTS (s.db c) (List.nodup_cons.mp hnd).2
      (List.nodup_cons.mp hnd).1 hfuel' [], List.flatMap_append, List.flatMap_cons,
      flatMap_pairOf_of_rows_eq_nil s startTS hpre, List.nil_append, List.length_nil, Nat.max_zero,
      List.nil_append, MVCCLevelDB.get]

end ScanRows

/-- `Scan` returns the pairs of the keys in the range, in ascending order, the first `limit` of
them: a lock error, or the value a read at `startTS` finds. -/
theorem LevelDB.scan_eq (db : LevelDB V) (startKey endKey : Key) (limit startTS : Nat) :
    db.scan startKey endKey limit startTS =
      ((db.keys.filter (inScanRange startKey endKey)).flatMap fun k =>
        pairOf k (db.store.get k startTS)).take limit := by
  unfold LevelDB.scan
  exact scanLoop_of_startsAt db.store limit startTS (db.keys_nodup.filter _)
    (db.startsAt_scanStart startKey endKey) (Nat.lt_succ_self _)

theorem getValue_error_eq {e : Entry K V} {key : K} {ts : Nat} {err : MvccError K V}
    (h : getValue e key ts = .error err) :
    ∃ primary startTS ttl op, err = .errLocked key primary startTS ttl op := by
  -- after the lock check every branch of `getValue` succeeds
  have hread : ∀ ts', (match e.values.find? fun v => v.valueType != .typeRollback && decide (v.commitTS ≤ ts')
      with
      | some v => pure (if v.valueType = .typeDelete then none else v.value)
      | none => pure none : Except (MvccError K V) (Option V)) ≠ .error err := by
    intro ts'
    split <;> exact fun h => by cases h
  unfold getValue at h
  cases hl : e.lock with
  | none =>
    rw [hl] at h
    exact (hread ts h).elim
  | some l =>
    rw [hl] at h
    dsimp only at h
    cases hc : l.check ts key with
    | ok ts' =>
      rw [hc] at h
      exact (hread ts' h).elim
    | error e' =>
      rw [hc] at h
      cases h
      unfold MvccLock.check at hc
      split_ifs at hc
      cases hc
      exact ⟨_, _, _, _, rfl⟩

/-- A pair `Scan` returns is a key of the range, with its value or the lock on it. -/
theorem LevelDB.mem_scan {db : LevelDB V} {startKey endKey : Key} {limit ts : Nat}
    {p : Pair Key V} (hp : p ∈ db.scan startKey endKey limit ts) :
    inScanRange startKey endKey p.1 = true ∧
      ∀ err, p.2 = .error err → ∃ primary startTS ttl op, err = .errLocked p.1 primary startTS ttl op := by
  rw [LevelDB.scan_eq] at hp
  obtain ⟨k, hk, hpk⟩ := List.mem_flatMap.mp (List.mem_of_mem_take hp)
  have hget : ∀ err, db.store.get k ts = .error err →
      ∃ primary startTS ttl op, err = .errLocked k primary startTS ttl op :=
    fun _ h => getValue_error_eq h
  cases hr : db.store.get k ts with
  | error e =>
    rw [hr, pairOf, List.mem_singleton] at hpk
    subst hpk
    refine ⟨(List.mem_filter.mp hk).2, ?_⟩
    rintro err ⟨⟩
    exact hget e hr
  | ok r =>
    rcases r with _ | v
    · rw [hr, pairOf] at hpk
      cases hpk
    · rw [hr, pairOf, List.mem_singleton] at hpk
      subst hpk
      exact ⟨(List.mem_filter.mp hk).2, fun _ h => by cases h⟩

/-! ### ReverseScan -/

/-- `reverseScanHelper`: the key whose rows it gathers, its lock and values so far, oldest first
as the iterator walks back, and the pairs so far. -/
structure ReverseScanHelper where
  startTS : Nat
  currKey : Key
  entry : Entry Key (List (Fin 256))
  pairs : List (Pair Key (List (Fin 256)))

/-- `finishEntry`: the values put back newest first, the entry read by `mvccEntry.Get`, its pair
appended and the entry cleared. -/
def ReverseScanHelper.finishEntry (helper : ReverseScanHelper) : ReverseScanHelper :=
  let entry : Entry Key (List (Fin 256)) := ⟨helper.entry.lock, helper.entry.values.reverse⟩
  { helper with
    entry := ⟨none, []⟩
    pairs := helper.pairs ++
      nonEmptyPairOf helper.currKey (entry.get helper.currKey helper.startTS) }

/-- One row gathered into the entry: the lock, or one more value. -/
def ReverseScanHelper.addCell (helper : ReverseScanHelper) :
    Cell Key (List (Fin 256)) → ReverseScanHelper
  | .lock l => { helper with entry := { helper.entry with lock := some l } }
  | .value v => { helper with entry := { helper.entry with values := helper.entry.values ++ [v] } }

/-- The loop of `ReverseScan` over the rows from the last one back: it stops below `startKey` or
at `limit` pairs, and finishes an entry when the key changes. -/
def reverseScanLoop (startKey : Key) (limit : Nat) :
    List (Key × Cell Key (List (Fin 256))) → ReverseScanHelper → ReverseScanHelper
  | [], helper => helper
  | (key, c) :: rows, helper =>
    if helper.pairs.length < limit then
      if compare key startKey = .lt then helper
      else
        let helper :=
          if key ≠ helper.currKey then { helper.finishEntry with currKey := key } else helper
        reverseScanLoop startKey limit rows (helper.addCell c)
    else helper

/-- The pairs of `ReverseScan`: the entry the loop ends in is finished unless the limit was met. -/
def ReverseScanHelper.finalPairs (limit : Nat) (helper : ReverseScanHelper) :
    List (Pair Key (List (Fin 256))) :=
  if helper.pairs.length < limit then helper.finishEntry.pairs else helper.pairs

/-- The keys whose rows the iterator of `ReverseScan` reads: below `endKey` unless it is empty. -/
def belowEndKey (endKey key : Key) : Bool :=
  endKey.isEmpty || compare key endKey == .lt

/-- `ReverseScan` over the range `[startKey, endKey)`, from the last row below `endKey` back. -/
def LevelDB.reverseScan (db : LevelDB (List (Fin 256))) (startKey endKey : Key)
    (limit startTS : Nat) : List (Pair Key (List (Fin 256))) :=
  let rows := (db.store.rows (db.keys.filter (belowEndKey endKey))).reverse
  let helper : ReverseScanHelper := ⟨startTS, (rows.head?.map Prod.fst).getD [], ⟨none, []⟩, []⟩
  (reverseScanLoop startKey limit rows helper).finalPairs limit

@[simp] theorem Entry.get_empty (key : K) (ts : Nat) :
    (⟨none, []⟩ : Entry K V).get key ts = .ok none := rfl

namespace ReverseScanHelper

variable (h : ReverseScanHelper) {limit : Nat}

theorem finishEntry_pairs : h.finishEntry.pairs = h.pairs ++
    nonEmptyPairOf h.currKey
      ((⟨h.entry.lock, h.entry.values.reverse⟩ : Entry Key (List (Fin 256))).get h.currKey h.startTS) :=
  rfl

@[simp] theorem finishEntry_startTS : h.finishEntry.startTS = h.startTS := rfl

theorem length_finishEntry_pairs_le : h.finishEntry.pairs.length ≤ h.pairs.length + 1 := by
  rw [finishEntry_pairs, List.length_append]
  have := length_nonEmptyPairOf_le h.currKey
    ((⟨h.entry.lock, h.entry.values.reverse⟩ : Entry Key (List (Fin 256))).get h.currKey h.startTS)
  omega

/-- Finishing an empty entry appends nothing. -/
theorem finishEntry_of_entry_eq (he : h.entry = ⟨none, []⟩) : h.finishEntry = h := by
  cases h with
  | mk startTS currKey entry pairs =>
    subst he
    simp [finishEntry, nonEmptyPairOf]

@[simp] theorem addCell_pairs (c : Cell Key (List (Fin 256))) : (h.addCell c).pairs = h.pairs := by
  cases c <;> rfl

@[simp] theorem addCell_currKey (c : Cell Key (List (Fin 256))) :
    (h.addCell c).currKey = h.currKey := by
  cases c <;> rfl

/-- Finishing the gathered entry of a key reads the entry. -/
theorem finishEntry_pairs_gathered (key : Key) (e : Entry Key (List (Fin 256))) :
    ({ h with currKey := key, entry := ⟨e.lock, e.values.reverse⟩ } : ReverseScanHelper).finishEntry.pairs =
      h.pairs ++ nonEmptyPairOf key (e.get key h.startTS) := by
  rw [finishEntry_pairs]
  simp only [List.reverse_reverse]

theorem finalPairs_of_le (hp : limit ≤ h.pairs.length) : h.finalPairs limit = h.pairs :=
  if_neg (Nat.not_lt.mpr hp)

theorem finalPairs_of_lt (hp : h.pairs.length < limit) : h.finalPairs limit = h.finishEntry.pairs :=
  if_pos hp

/-- Once the limit is met, nothing after the pairs so far is returned. -/
theorem take_finishEntry_of_le (hp : limit ≤ h.pairs.length) (ys : List (Pair Key (List (Fin 256)))) :
    (h.finishEntry.pairs ++ ys).take (max limit h.pairs.length) = h.pairs := by
  rw [finishEntry_pairs, List.append_assoc, take_max_length_of_le hp]

theorem take_finishEntry_of_lt (hp : h.pairs.length < limit) :
    (h.finishEntry.pairs ++ []).take (max limit h.pairs.length) = h.finishEntry.pairs := by
  have := h.length_finishEntry_pairs_le
  rw [List.append_nil, Nat.max_eq_left hp.le, List.take_of_length_le (by omega)]

end ReverseScanHelper

section ReverseScanLoop

variable {startKey : Key} {limit : Nat} {h : ReverseScanHelper}

theorem reverseScanLoop_of_le (hp : limit ≤ h.pairs.length)
    (rows : List (Key × Cell Key (List (Fin 256)))) : reverseScanLoop startKey limit rows h = h := by
  cases rows with
  | nil => rfl
  | cons r rows => simp [reverseScanLoop, Nat.not_lt.mpr hp]

theorem reverseScanLoop_of_lt_startKey {key : Key} (hk : compare key startKey = .lt)
    (c : Cell Key (List (Fin 256))) (rows : List (Key × Cell Key (List (Fin 256)))) :
    reverseScanLoop startKey limit ((key, c) :: rows) h = h := by
  simp [reverseScanLoop, hk]

/-- The rows of the key the helper gathers: each is added to its entry. -/
theorem reverseScanLoop_append_of_currKey {rows rest : List (Key × Cell Key (List (Fin 256)))}
    (hrows : ∀ r ∈ rows, r.1 = h.currKey) (hk : compare h.currKey startKey ≠ .lt)
    (hp : h.pairs.length < limit) :
    reverseScanLoop startKey limit (rows ++ rest) h =
      reverseScanLoop startKey limit rest (rows.foldl (fun h r => h.addCell r.2) h) := by
  induction rows generalizing h with
  | nil => rfl
  | cons r rows ih =>
    obtain ⟨key, c⟩ := r
    have hkey : key = h.currKey := hrows _ List.mem_cons_self
    subst hkey
    rw [List.cons_append, reverseScanLoop, if_pos hp, if_neg hk, List.foldl_cons]
    dsimp only
    rw [if_neg (not_not.mpr rfl)]
    refine ih (fun r hr => ?_) ?_ ?_
    · rw [ReverseScanHelper.addCell_currKey]
      exact hrows r (List.mem_cons_of_mem _ hr)
    · rwa [ReverseScanHelper.addCell_currKey]
    · rwa [ReverseScanHelper.addCell_pairs]

theorem foldl_addCell_valueRows (key : Key) (vs : List (MvccValue (List (Fin 256))))
    (h : ReverseScanHelper) :
    (valueRows key vs).reverse.foldl (fun h r => h.addCell r.2) h =
      { h with entry := { h.entry with values := h.entry.values ++ vs.reverse } } := by
  induction vs generalizing h with
  | nil => simp
  | cons v vs ih =>
    simp only [valueRows, List.map_cons, List.reverse_cons, List.foldl_append] at ih ⊢
    rw [ih]
    simp [ReverseScanHelper.addCell]

/-- The rows of an entry, walked back from a cleared one, gather the entry with its values
oldest first. -/
theorem foldl_addCell_rows (e : Entry Key (List (Fin 256))) (key : Key) (h : ReverseScanHelper)
    (he : h.entry = ⟨none, []⟩) :
    (e.rows key).reverse.foldl (fun h r => h.addCell r.2) h =
      { h with entry := ⟨e.lock, e.values.reverse⟩ } := by
  unfold Entry.rows
  rw [List.reverse_append, List.foldl_append, foldl_addCell_valueRows]
  cases hl : e.lock <;> simp [ReverseScanHelper.addCell, he]

/-- The rows of a key in the range, met walking back: the entry before is finished (or an empty
one of the same key is, which appends nothing), and the key's entry is gathered unless the
finished entry met the limit. -/
theorem finalPairs_reverseScanLoop_rows {key : Key} (e : Entry Key (List (Fin 256)))
    (hne : e.rows key ≠ []) (hk : compare key startKey ≠ .lt) (hp : h.pairs.length < limit)
    (hcur : h.currKey ≠ key ∨ h.entry = ⟨none, []⟩) (rest : List (Key × Cell Key (List (Fin 256)))) :
    (reverseScanLoop startKey limit ((e.rows key).reverse ++ rest) h).finalPairs limit =
      if h.finishEntry.pairs.length < limit then
        (reverseScanLoop startKey limit rest
          { h.finishEntry with currKey := key, entry := ⟨e.lock, e.values.reverse⟩ }).finalPairs limit
      else h.finishEntry.pairs := by
  have hfirst : (if key ≠ h.currKey then { h.finishEntry with currKey := key } else h) =
      { h.finishEntry with currKey := key } := by
    by_cases hkey : key = h.currKey
    · rw [if_neg (not_not.mpr hkey), h.finishEntry_of_entry_eq (hcur.resolve_left (Ne.symm · hkey)),
        hkey]
    · rw [if_pos hkey]
  obtain ⟨⟨k', x⟩, rs, hr⟩ := List.exists_cons_of_ne_nil (List.reverse_ne_nil_iff.mpr hne)
  have hrows : ∀ r ∈ (e.rows key).reverse, r.1 = key := fun r hr =>
    Entry.key_of_mem_rows (List.mem_reverse.mp hr)
  have hk' : k' = key := hrows (k', x) (hr ▸ List.mem_cons_self)
  subst hk'
  rw [hr, List.cons_append, reverseScanLoop, if_pos hp, if_neg hk]
  dsimp only
  rw [hfirst]
  by_cases hp' : h.finishEntry.pairs.length < limit
  case neg =>
    rw [if_neg hp', reverseScanLoop_of_le (by simpa using Nat.not_lt.mp hp'),
      ReverseScanHelper.finalPairs_of_le _ (by simpa using Nat.not_lt.mp hp'),
      ReverseScanHelper.addCell_pairs]
  -- the other rows of the key join its entry
  have hfold : ∀ h' : ReverseScanHelper, rs.foldl (fun h r => h.addCell r.2) (h'.addCell x) =
      (e.rows k').reverse.foldl (fun h r => h.addCell r.2) h' := by
    intro h'
    rw [hr]
    rfl
  rw [if_pos hp', reverseScanLoop_append_of_currKey (fun r hmem => ?hrs) (by simpa using hk)
    (by simpa using hp'), hfold, foldl_addCell_rows e k' _ rfl]
  case hrs =>
    rw [ReverseScanHelper.addCell_currKey]
    exact hrows r (hr ▸ List.mem_cons_of_mem _ hmem)

/-- `ReverseScan` over the rows of `ks`, keys in descending order, key after key: the pair of the
entry the helper gathers, then those of the keys from `startKey` on, until `limit` pairs. The
induction is on `ks`; the helper's key is not one of `ks` unless its entry is still empty. -/
theorem finalPairs_reverseScanLoop (s : MVCCLevelDB Key (List (Fin 256))) {ks : List Key}
    (hks : ks.Pairwise fun a b => compare b a = .lt) (h : ReverseScanHelper)
    (hcur : h.currKey ∉ ks ∨ h.entry = ⟨none, []⟩) :
    (reverseScanLoop startKey limit (ks.flatMap fun k => ((s.db k).rows k).reverse) h).finalPairs
        limit =
      (h.finishEntry.pairs ++ (ks.filter fun k => compare k startKey != .lt).flatMap fun k =>
        nonEmptyPairOf k ((s.db k).get k h.startTS)).take (max limit h.pairs.length) := by
  induction ks generalizing h with
  | nil =>
    rw [List.flatMap_nil, List.filter_nil, List.flatMap_nil]
    by_cases hp : h.pairs.length < limit
    · rw [h.take_finishEntry_of_lt hp]
      exact h.finalPairs_of_lt hp
    · rw [h.take_finishEntry_of_le (Nat.not_lt.mp hp)]
      exact h.finalPairs_of_le (Nat.not_lt.mp hp)
  | cons k ks ih =>
    obtain ⟨hgt, hks'⟩ := List.pairwise_cons.mp hks
    rw [List.flatMap_cons]
    by_cases hrows : (s.db k).rows k = []
    case pos =>
      -- a key without rows is never met and has no pair
      have hpair : nonEmptyPairOf k ((s.db k).get k h.startTS) = [] := by
        rw [Entry.rows_eq_nil hrows, Entry.get_empty]
        rfl
      have hfilter : ((k :: ks).filter fun k => compare k startKey != .lt).flatMap
            (fun k => nonEmptyPairOf k ((s.db k).get k h.startTS)) =
          (ks.filter fun k => compare k startKey != .lt).flatMap
            (fun k => nonEmptyPairOf k ((s.db k).get k h.startTS)) := by
        rw [List.filter_cons]
        split <;> simp [hpair]
      rw [hrows, List.reverse_nil, List.nil_append, hfilter]
      exact ih hks' h (hcur.imp_left fun hnot hmem => hnot (List.mem_cons_of_mem k hmem))
    by_cases hp : h.pairs.length < limit
    case neg =>
      rw [reverseScanLoop_of_le (Nat.not_lt.mp hp), h.finalPairs_of_le (Nat.not_lt.mp hp),
        h.take_finishEntry_of_le (Nat.not_lt.mp hp)]
    by_cases hk : compare k startKey = .lt
    case pos =>
      -- below `startKey` the loop stops, and every later key is below it too
      obtain ⟨⟨k', x⟩, rs, hr⟩ := List.exists_cons_of_ne_nil (List.reverse_ne_nil_iff.mpr hrows)
      have hk' : k' = k :=
        Entry.key_of_mem_rows (List.mem_reverse.mp (hr ▸ List.mem_cons_self : (k', x) ∈ _))
      subst hk'
      have hnil : ((k' :: ks).filter fun k => compare k startKey != .lt) = [] := by
        refine List.filter_eq_nil_iff.mpr fun k'' hk'' => ?_
        rcases List.mem_cons.mp hk'' with rfl | hmem
        · simp [hk]
        · simp [Std.TransCmp.lt_trans (hgt k'' hmem) hk]
      rw [hr, List.cons_append, reverseScanLoop_of_lt_startKey hk, hnil, List.flatMap_nil,
        h.finalPairs_of_lt hp, h.take_finishEntry_of_lt hp]
    -- a key of the range: its entry is gathered and read when the loop moves on
    have hcur' : h.currKey ≠ k ∨ h.entry = ⟨none, []⟩ :=
      hcur.imp_left fun hnot heq => hnot (heq ▸ List.mem_cons_self)
    have hknot : k ∉ ks := fun hmem => by
      have := hgt k hmem
      rw [Std.compare_self] at this
      cases this
    have hfilter : ((k :: ks).filter fun k => compare k startKey != .lt) =
        k :: ks.filter fun k => compare k startKey != .lt :=
      List.filter_cons_of_pos (by simpa using hk)
    rw [finalPairs_reverseScanLoop_rows (s.db k) hrows hk hp hcur', hfilter, List.flatMap_cons]
    have hlen := h.length_finishEntry_pairs_le
    split_ifs with hp'
    · rw [ih hks' _ (.inl hknot), ReverseScanHelper.finishEntry_pairs_gathered]
      dsimp only
      rw [Nat.max_eq_left hp'.le, Nat.max_eq_left hp.le, List.append_assoc,
        ReverseScanHelper.finishEntry_startTS]
    · rw [Nat.max_eq_left hp.le, List.take_left' (by omega)]

end ReverseScanLoop

/-- `ReverseScan` returns the pairs of the keys in the range, in descending order, the first
`limit` of them: a lock error, or a value of non-zero length that `mvccEntry.Get` reads at
`startTS`. -/
theorem LevelDB.reverseScan_eq (db : LevelDB (List (Fin 256))) (startKey endKey : Key)
    (limit startTS : Nat) :
    db.reverseScan startKey endKey limit startTS =
      ((db.keys.filter (inScanRange startKey endKey)).reverse.flatMap fun k =>
        nonEmptyPairOf k ((db.store.db k).get k startTS)).take limit := by
  have hsorted : (db.keys.filter (belowEndKey endKey)).reverse.Pairwise
      fun a b => compare b a = .lt :=
    List.pairwise_reverse.mpr (db.keys_sorted.filter _)
  -- the iterator reads the keys below `endKey` from the last back; the loop stops at `startKey`
  have hfilter : ((db.keys.filter (belowEndKey endKey)).reverse.filter
      fun k => compare k startKey != .lt) = (db.keys.filter (inScanRange startKey endKey)).reverse := by
    rw [List.filter_reverse, List.filter_filter]
    rfl
  unfold LevelDB.reverseScan
  dsimp only
  rw [MVCCLevelDB.rows, List.reverse_flatMap, Function.comp_def,
    finalPairs_reverseScanLoop db.store hsorted _ (.inr rfl),
    ReverseScanHelper.finishEntry_of_entry_eq _ rfl, hfilter]
  dsimp only
  rw [List.length_nil, Nat.max_zero, List.nil_append]

/-! ### A value of length zero -/

/-- The store after `Prewrite` of a `Put` of an empty value at `[1]`, started at 1, and its
`Commit` at 2. -/
def emptyPutStore : MVCCLevelDB Key (List (Fin 256)) :=
  ((MVCCLevelDB.empty.prewrite [⟨.put [], [1]⟩] [1] 1 0).2.commit [[1]] 1 2).2

theorem emptyPutStore_db (k : Key) :
    emptyPutStore.db k = if k = [1] then ⟨none, [⟨.typePut, 1, 2, some []⟩]⟩ else ⟨none, []⟩ := by
  have hwrite : emptyPutStore = (MVCCLevelDB.empty.write [.putLock [1] ⟨1, [1], .put [], 0⟩]).write
      [.putValue [1] ⟨.typePut, 1, 2, some []⟩, .deleteLock [1]] := rfl
  by_cases hk : k = [1]
  · subst hk
    rfl
  · rw [if_neg hk, hwrite, MVCCLevelDB.write_db_of_forall_ne, MVCCLevelDB.write_db_of_forall_ne]
    · rfl
    all_goals simp [BatchOp.key, Ne.symm hk]

/-- The leveldb of `emptyPutStore`. -/
def emptyPutLevelDB : LevelDB (List (Fin 256)) where
  store := emptyPutStore
  keys := [[1]]
  keys_sorted := List.pairwise_singleton _ _
  complete k hk := by rw [emptyPutStore_db, if_neg (List.mem_singleton.not.mp hk)]
  versions_sorted k := by
    rw [emptyPutStore_db]
    split <;> simp

end TinySql.Mocktikv
