import TinySql.Mocktikv.Scan

/-!
# The scanner of a snapshot

`store/tikv/scan.go` over the store of `TinySql.Mocktikv`. A `Scanner` holds a page of pairs and
its position in it; `Next` moves to the next pair of the page, asking for the next page with
`getData` when the page is used up, and stops at the end of the range. `getData` locates the region
of the next key, sends it a `ScanRequest` of `StartKey`, `Limit` and `Version`, and moves the next
key past the page: past its last key when the page is full, and to the end of the region
otherwise.

The region cache is the cluster's list of regions, read afresh at each request: region errors,
stale regions, backoff and `CheckVisibility` are left out. The handler of the region is
`rpcHandler.handleKvScan` over a `LevelDB`, with the region's raw keys for the `MvccKey` bounds the
handler compares. `snapshot.get`, which resolves a lock and reads the key again, is a parameter.

A `ScanRequest` has no end key and no direction, and the handler scans forward from its start key
to the end of the region. For a reverse scan `getData` sends `nextEndKey` as the start key, so
`IterReverse(k)` reads the keys from `k` on, in ascending order (`reverse_getData_keys_ge`).
-/

namespace TinySql.Tikv

open TinySql.Mocktikv TinySql.Codec

/-- The range of a region: the keys from `startKey` on and below `endKey`, which is empty for the
last region. -/
structure KeyLocation where
  startKey : Key
  endKey : Key
  deriving DecidableEq, Repr

namespace KeyLocation

def contains (l : KeyLocation) (key : Key) : Bool :=
  compare l.startKey key != .gt && (compare key l.endKey == .lt || l.endKey.isEmpty)

/-- `ContainsByEnd`: the start key excluded, the end key included. -/
def containsByEnd (l : KeyLocation) (key : Key) : Bool :=
  compare l.startKey key == .lt && (compare key l.endKey != .gt || l.endKey.isEmpty)

end KeyLocation

def locateKey (regions : List KeyLocation) (key : Key) : Option KeyLocation :=
  regions.find? (·.contains key)

/-- `LocateEndKey`: the region whose keys end at `key`; for the empty key, the first region, as
`loadRegion` finds it. -/
def locateEndKey (regions : List KeyLocation) (key : Key) : Option KeyLocation :=
  if key.isEmpty then regions.find? (·.contains key) else regions.find? (·.containsByEnd key)

structure ScanRequest where
  startKey : Key
  limit : Nat
  version : Nat
  deriving DecidableEq, Repr

/-- `rpcHandler.handleKvScan` of the region `loc`: it panics on a start key outside the region. -/
def handleKvScan (db : LevelDB (List (Fin 256))) (loc : KeyLocation) (req : ScanRequest) :
    Except String (List (Pair Key (List (Fin 256)))) :=
  if loc.contains req.startKey then .ok (db.scan req.startKey loc.endKey req.limit req.version)
  else .error "KvScan: startKey not in region"

/-- `kvrpcpb.KvPair`. -/
structure KvPair where
  key : Key
  value : List (Fin 256)
  error : Option (MvccError Key (List (Fin 256)))
  deriving DecidableEq, Repr

/-- `convertToPbPairs`, and then what `getData` does with a pair holding an error: a lock gives it
the lock's key, and any other error fails the request. -/
def toKvPair : Pair Key (List (Fin 256)) → Except String KvPair
  | (key, .ok value) => .ok ⟨key, value, none⟩
  | (_, .error (.errLocked key primary startTS ttl lockType)) =>
    .ok ⟨key, [], some (.errLocked key primary startTS ttl lockType)⟩
  | (_, .error _) => .error "unexpected KeyError"

/-- `kv.Key.Next`: the least key above `k`. -/
def keyNext (k : Key) : Key := k ++ [0]

structure Scanner where
  batchSize : Nat
  cache : List KvPair
  idx : Nat
  nextStartKey : Key
  endKey : Key
  nextEndKey : Key
  reverse : Bool
  valid : Bool
  eof : Bool
  deriving DecidableEq, Repr

section Scanner

-- the cluster's regions, the store serving them, the snapshot's version and its `snapshot.get`
variable (regions : List KeyLocation) (db : LevelDB (List (Fin 256))) (version : Nat)
  (get : Key → Except String (List (Fin 256)))

namespace Scanner

def getData (s : Scanner) : Except String Scanner := do
  let some loc :=
      if !s.reverse then locateKey regions s.nextStartKey else locateEndKey regions s.nextEndKey
    | .error "region not found"
  let reqStartKey :=
    if s.nextStartKey.isEmpty || (!loc.startKey.isEmpty && compare loc.startKey s.nextStartKey == .gt)
    then loc.startKey else s.nextStartKey
  let sreq : ScanRequest := ⟨s.nextStartKey, s.batchSize, version⟩
  let sreq := if s.reverse then { sreq with startKey := s.nextEndKey } else sreq
  let pairs ← handleKvScan db loc sreq
  let kvPairs ← pairs.mapM toKvPair
  let s := { s with cache := kvPairs, idx := 0 }
  if kvPairs.length < s.batchSize then
    -- no more data in the region: the next page starts at its boundary
    let s := if !s.reverse then { s with nextStartKey := loc.endKey }
      else { s with nextEndKey := reqStartKey }
    if (!s.reverse && (loc.endKey.isEmpty ||
          (!s.endKey.isEmpty && compare s.nextStartKey s.endKey != .lt))) ||
        (s.reverse && (loc.startKey.isEmpty ||
          (!s.nextStartKey.isEmpty && compare s.nextStartKey s.nextEndKey != .lt))) then
      pure { s with eof := true }
    else pure s
  else
    let lastKey := (kvPairs.getLast?.map KvPair.key).getD []
    pure (if !s.reverse then { s with nextStartKey := keyNext lastKey }
      else { s with nextEndKey := lastKey })

/-- The loop of `Next`; `fuel` bounds its turns. -/
def nextLoop : Nat → Scanner → Except String Scanner
  | 0, _ => .error "out of fuel"
  | fuel + 1, s => do
    let s := { s with idx := s.idx + 1 }
    let s ← if s.idx < s.cache.length then pure s
      else if s.eof then return { s with valid := false }
      else
        match getData regions db version s with
        | .ok s => pure s
        | .error e => throw e
    match s.cache[s.idx]? with
    | none => nextLoop fuel s
    | some current =>
      if (!s.reverse && (!s.endKey.isEmpty && compare current.key s.endKey != .lt)) ||
          (s.reverse && (!s.nextStartKey.isEmpty && compare current.key s.nextStartKey == .lt)) then
        return { s with eof := true, valid := false }
      match current.error with
      | none => pure s
      | some _ =>
        -- the lock is resolved and the key read again
        let value ← get current.key
        let s := { s with cache := s.cache.set s.idx { current with error := none, value } }
        if value.length = 0 then nextLoop fuel s else pure s

def next (fuel : Nat) (s : Scanner) : Except String Scanner :=
  if !s.valid then .error "scanner iterator is invalid" else nextLoop regions db version get fuel s

/-- The pair the scanner is at. -/
def current (s : Scanner) : Option (Key × List (Fin 256)) :=
  if s.valid then (s.cache[s.idx]?).map fun p => (p.key, p.value) else none

end Scanner

/-- `newScanner`: a scanner before its first entry, moved to it by `Next`. A batch size of at most
one is replaced by `scanBatchSize`. -/
def newScanner (fuel : Nat) (startKey endKey : Key) (batchSize : Nat) (reverse : Bool) :
    Except String Scanner :=
  let batchSize := if batchSize ≤ 1 then 256 else batchSize
  Scanner.next regions db version get fuel
    ⟨batchSize, [], 0, startKey, endKey, endKey, reverse, true, false⟩

/-- The entries a scanner yields: the pair it is at, then those after `Next`, while it is valid. -/
def Scanner.entries (fuel : Nat) : Nat → Scanner → Except String (List (Key × List (Fin 256)))
  | 0, _ => .error "out of fuel"
  | n + 1, s =>
    match s.current with
    | none => pure []
    | some e => do
      let s ← s.next regions db version get fuel
      let es ← s.entries fuel n
      pure (e :: es)

end Scanner

/-! ### The pages of a scan -/

theorem toKvPair_key {p : Pair Key (List (Fin 256))} {q : KvPair} (h : toKvPair p = .ok q)
    (hlock : ∀ err, p.2 = .error err →
      ∃ primary startTS ttl op, err = .errLocked p.1 primary startTS ttl op) :
    q.key = p.1 := by
  rcases p with ⟨key, err | value⟩
  · have herr := hlock err rfl
    dsimp only at herr
    obtain ⟨primary, startTS, ttl, op, rfl⟩ := herr
    cases h
    rfl
  · cases h
    rfl

section Pages

variable (regions : List KeyLocation) (db : LevelDB (List (Fin 256))) (version : Nat)

/-- The page `getData` fetches is the scan of a region holding the request's start key, from that
key to the end of the region. -/
theorem getData_cache {s s' : Scanner} (h : s.getData regions db version = .ok s') :
    ∃ loc : KeyLocation, loc.contains (if s.reverse then s.nextEndKey else s.nextStartKey) = true ∧
      (db.scan (if s.reverse then s.nextEndKey else s.nextStartKey) loc.endKey s.batchSize
        version).mapM toKvPair = .ok s'.cache := by
  have hreq : (if s.reverse = true then
      ({ startKey := s.nextEndKey, limit := s.batchSize, version } : ScanRequest)
      else ⟨s.nextStartKey, s.batchSize, version⟩) =
      ⟨if s.reverse then s.nextEndKey else s.nextStartKey, s.batchSize, version⟩ := by
    split <;> rfl
  unfold Scanner.getData at h
  cases hloc : (if !s.reverse then locateKey regions s.nextStartKey else locateEndKey regions s.nextEndKey) with
  | none =>
    rw [hloc] at h
    cases h
  | some loc =>
    rw [hloc] at h
    dsimp only at h
    rw [hreq] at h
    cases hcontains : loc.contains (if s.reverse then s.nextEndKey else s.nextStartKey)
    · simp only [handleKvScan, hcontains] at h
      cases h
    · simp only [handleKvScan, hcontains, if_true, TinySql.Lib.except_bind_ok] at h
      obtain ⟨kvPairs, hkv, hrest⟩ := TinySql.Lib.bind_eq_ok h
      refine ⟨loc, hcontains, ?_⟩
      rw [hkv]
      -- every way the page can end leaves it as the cache
      split_ifs at hrest <;> (cases hrest; rfl)

/-- Every pair of a page `getData` fetches is at or above the key the request starts at. -/
theorem getData_keys_ge {s s' : Scanner} (h : s.getData regions db version = .ok s') :
    ∀ p ∈ s'.cache, compare p.key (if s.reverse then s.nextEndKey else s.nextStartKey) ≠ .lt := by
  obtain ⟨loc, -, hkv⟩ := getData_cache regions db version h
  intro p hp
  obtain ⟨q, hq, hqp⟩ := TinySql.Lib.mapM_ok_mem hkv hp
  obtain ⟨hrange, hlock⟩ := LevelDB.mem_scan hq
  rw [toKvPair_key hqp hlock]
  exact inScanRange_start hrange

/-- A page of a reverse scan holds no key below `nextEndKey`, the key it should end below. -/
theorem reverse_getData_keys_ge {s s' : Scanner} (hrev : s.reverse = true)
    (h : s.getData regions db version = .ok s') : ∀ p ∈ s'.cache, compare p.key s.nextEndKey ≠ .lt := by
  have hge := getData_keys_ge regions db version h
  rw [hrev, if_pos rfl] at hge
  exact hge

end Pages

/-- What `snapshot.get` reads of a key without a lock. -/
def readCommitted (db : LevelDB (List (Fin 256))) (ts : Nat) (key : Key) :
    Except String (List (Fin 256)) :=
  match db.store.get key ts with
  | .ok value => .ok (value.getD [])
  | .error _ => .error "locked"

/-- Committed `Put`s of `[7]` at `[1]` and of `[9]` at `[3]`, both started at 1 and committed at 2. -/
def twoPutStore : MVCCLevelDB Key (List (Fin 256)) :=
  ⟨fun k => if k = [1] then ⟨none, [⟨.typePut, 1, 2, some [7]⟩]⟩
    else if k = [3] then ⟨none, [⟨.typePut, 1, 2, some [9]⟩]⟩ else ⟨none, []⟩⟩

def twoPutLevelDB : LevelDB (List (Fin 256)) where
  store := twoPutStore
  keys := [[1], [3]]
  keys_sorted := by decide
  complete k hk := by
    have h1 : k ≠ [1] := fun h => hk (h ▸ List.mem_cons_self)
    have h3 : k ≠ [3] := fun h => hk (h ▸ List.mem_cons_of_mem _ List.mem_cons_self)
    simp [twoPutStore, h1, h3]
  versions_sorted k := by
    simp only [twoPutStore]
    split_ifs <;> simp

/-- The first page of a reverse scan below `[2]` over one region. -/
theorem reverse_getData_keys_ge_twoPut :
    ∃ s', (⟨10, [], 0, [], [2], [2], true, true, false⟩ : Scanner).getData [⟨[], []⟩] twoPutLevelDB 5 =
        .ok s' ∧ ∀ p ∈ s'.cache, compare p.key [2] ≠ .lt := by
  obtain ⟨s', hs'⟩ : ∃ s', (⟨10, [], 0, [], [2], [2], true, true, false⟩ : Scanner).getData
      [⟨[], []⟩] twoPutLevelDB 5 = .ok s' := ⟨_, rfl⟩
  exact ⟨s', hs', reverse_getData_keys_ge [⟨[], []⟩] twoPutLevelDB 5 rfl hs'⟩

/-- With one region, `IterReverse([2])` yields `[3]`, above `[2]`, and not `[1]`, the key below `[2]`
that a read at 5 finds. -/
theorem iterReverse_yields_key_above :
    (do
      let s ← newScanner [⟨[], []⟩] twoPutLevelDB 5 (readCommitted twoPutLevelDB 5) 10 [] [2] 256 true
      s.entries [⟨[], []⟩] twoPutLevelDB 5 (readCommitted twoPutLevelDB 5) 10 10) = .ok [([3], [9])] ∧
      twoPutLevelDB.store.get [1] 5 = .ok (some [7]) := by
  decide

end TinySql.Tikv
