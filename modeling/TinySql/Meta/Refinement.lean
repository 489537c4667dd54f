import TinySql.Meta.Stores
import TinySql.Structure.Refinement

/-!
# Meta refines the catalog

A meta `m` represents a catalog `K` when its structure represents a content that keeps `K`
(`Represents`). From there every writing call of `meta.go` does what `Catalog.apply` says
(`Represents.apply_simulates`): both fail alike, or both give the same answer and the meta after
represents the catalog after, or a write of meta meets a size limit of the membuffer, which the
catalog does not have. A failure of the structure counts as one failure: the index of
`ErrInvalidListIndex` is the adjusted one, which the catalog does not know. By induction the same
holds of every run (`Represents.run_simulates`), so of every run from an empty store
(`represents_newMeta`).

Two steps need the decimal text of the counters: `Inc` and `HInc` read back the int64 the last call
wrote (`incBase_map_intText`), and `GenGlobalIDs` lists the IDs `idsBetween` says, its loop running
out of rounds only where it never stops (`genGlobalIDsLoop_eq_idsBetween`).
-/

namespace TinySql.Meta

open TinySql.Structure TinySql.Lib

/-- The meta `m` keeps the catalog `K`, within the bound `b` of its structure. -/
def Represents (m : Meta) (K : Catalog) (b : Nat) : Prop :=
  ∃ c, m.txn.Repr c b ∧ Stores c K

/-- Two failures alike: the same error of meta, or both an error of the structure. -/
def SameError : MetaError → MetaError → Prop
  | .txn _, .txn _ => True
  | e, e' => e = e'

/-- The outcome of a call on `m` simulates the catalog's: both fail alike, or both answer alike,
the meta keeps its job list key and represents the catalog within `b`; or meta meets a size limit,
whatever the catalog does. -/
def MetaSimulates {α : Type} (m : Meta) (b : Nat) :
    Except MetaError (α × Meta) → Except MetaError (α × Catalog) → Prop
  | .ok (r, m'), .ok (r', K') => r = r' ∧ m'.jobListKey = m.jobListKey ∧ Represents m' K' b
  | .error e, .error e' => e.isTooLarge ∨ SameError e e'
  | .error e, .ok _ => e.isTooLarge
  | .ok _, .error _ => False

@[simp] theorem sameError_refl (e : MetaError) : SameError e e := by
  cases e <;> trivial

section Simulates

variable {α : Type} {m m' : Meta} {b : Nat} {r r' : α} {K' : Catalog} {e e' : MetaError}

@[simp] theorem metaSimulates_ok_ok :
    MetaSimulates m b (.ok (r, m')) (.ok (r', K')) ↔
      r = r' ∧ m'.jobListKey = m.jobListKey ∧ Represents m' K' b :=
  Iff.rfl

theorem metaSimulates_error_error (h : SameError e e') :
    MetaSimulates (α := α) m b (.error e) (.error e') :=
  .inr h

/-- A size limit met by meta is simulated by whatever the catalog does. -/
theorem metaSimulates_error_of_isTooLarge (he : e.isTooLarge) (y : Except MetaError (α × Catalog)) :
    MetaSimulates m b (.error e) y := by
  cases y with
  | error _ => exact .inl he
  | ok _ => exact he

/-- A call that answers what the catalog does, keeps the job list key and writes a content that
keeps the catalog after. -/
theorem metaSimulates_ok {c' : Content} (hkey : m'.jobListKey = m.jobListKey) (hr : m'.txn.Repr c' b)
    (hs : Stores c' K') : MetaSimulates m b (.ok (r, m')) (.ok (r, K')) :=
  ⟨rfl, hkey, c', hr, hs⟩

/-- A call that does what the catalog's does unless it meets a size limit. -/
theorem metaSimulates_of_okOr {x : Except MetaError (α × Meta)} {y : α × Catalog}
    (h : OkOr (·.isTooLarge) (fun p => MetaSimulates m b (.ok p) (.ok y)) x) :
    MetaSimulates m b x (.ok y) := by
  cases x with
  | ok _ => exact h
  | error _ => exact h

/-- A call of meta that succeeds under simulation is a call of the catalog that succeeds alike. -/
theorem MetaSimulates.of_ok {y : Except MetaError (α × Catalog)} (h : MetaSimulates m b (.ok (r, m')) y) :
    ∃ K', y = .ok (r, K') ∧ m'.jobListKey = m.jobListKey ∧ Represents m' K' b := by
  match y, h with
  | .ok (r', K'), ⟨hr, hkey, hrep⟩ => exact ⟨K', by rw [hr], hkey, hrep⟩

end Simulates

/-- The errors of `structure/` under meta keep their size limits. -/
theorem okOr_ofStructure {α : Type} {P : α → Prop} {x : Except StructureError α}
    (h : OkOr (·.isTooLarge) P x) : OkOr (·.isTooLarge) P (ofStructure x) :=
  h.mapError fun _ he => he

theorem okOr_ofList {α : Type} {P : α → Prop} {x : Except ListError α}
    (h : OkOr (·.isTooLarge) P x) : OkOr (·.isTooLarge) P (ofList x) :=
  h.mapError fun _ he => he

/-- A call that writes the structure keeps its job list key. -/
theorem okOr_withTxn {m : Meta} {x : Except MetaError TxStructure} {c' : Content} {b' : Nat}
    (h : OkOr (·.isTooLarge) (·.Repr c' b') x) :
    OkOr (·.isTooLarge) (fun m' => m'.jobListKey = m.jobListKey ∧ m'.txn.Repr c' b')
      (m.withTxn <$> x) :=
  h.map fun _ hrepr => ⟨rfl, hrepr⟩

/-! ### Counters -/

/-- An increment reads the int64 the last one wrote as decimal text, and `0` where there is none. -/
theorem incBase_map_intText (v : Option Int64) (step : Int64) :
    incBase (v.map intText) step = some (v.getD 0 + step) := by
  cases v with
  | none => simp [incBase]
  | some n => simp [incBase, intText, Types.parseInt10_formatInt]

theorem intText_ne_nil (n : Int64) : intText n ≠ [] :=
  formatInt_ne_nil n.toInt

/-- At `newID = MaxInt64` every `i` is at most `newID`, so the loop runs out of rounds. -/
theorem genGlobalIDsLoop_maxInt64 :
    ∀ (fuel : Nat) (i : Int64) (ids : List Int64), genGlobalIDsLoop maxInt64 fuel i ids = none
  | 0, _, _ => rfl
  | fuel + 1, i, ids => by
    have hle : i ≤ maxInt64 := by
      rw [Int64.le_iff_toInt_le, toInt_maxInt64]
      have := Int64.toInt_lt i
      omega
    rw [genGlobalIDsLoop, if_pos hle]
    exact genGlobalIDsLoop_maxInt64 fuel (i + 1) (ids ++ [i])

/-- Below `MaxInt64` the loop appends the `k` IDs from `lo` on, given more than `k` rounds. -/
theorem genGlobalIDsLoop_of_ne {hi : Int64} (hhi : hi ≠ maxInt64) :
    ∀ (k fuel : Nat) (lo : Int64) (ids : List Int64), (hi.toInt - lo.toInt + 1).toNat = k → k < fuel →
      genGlobalIDsLoop hi fuel lo ids = some (ids ++ (List.range k).map fun j => lo + Int64.ofNat j)
  | _, 0, _, _, _, hf => absurd hf (Nat.not_lt_zero _)
  | 0, fuel + 1, lo, ids, hk, _ => by
    have hlt : ¬ lo ≤ hi := by
      rw [Int64.le_iff_toInt_le]
      omega
    rw [genGlobalIDsLoop, if_neg hlt]
    simp
  | k + 1, fuel + 1, lo, ids, hk, hf => by
    have hle : lo ≤ hi := by
      rw [Int64.le_iff_toInt_le]
      omega
    have hmax : hi.toInt ≠ 2 ^ 63 - 1 := fun h =>
      hhi (Int64.toInt_inj.mp (by rw [h, toInt_maxInt64]))
    have hsucc : (lo + 1).toInt = lo.toInt + 1 := by
      have := Int64.toInt_lt hi
      have := Int64.le_toInt lo
      exact toInt_add_of_range (by simp; omega) (by simp; omega)
    have hrange : (List.range (k + 1)).map (fun j => lo + Int64.ofNat j) =
        lo :: (List.range k).map fun j => lo + 1 + Int64.ofNat j := by
      rw [List.range_succ_eq_map, List.map_cons, List.map_map]
      congr 1
      · simp
      · apply List.map_congr_left
        intro j _
        show lo + Int64.ofNat (j + 1) = lo + 1 + Int64.ofNat j
        rw [Int64.ofNat_add]
        grind
    rw [genGlobalIDsLoop, if_pos hle,
      genGlobalIDsLoop_of_ne hhi k fuel (lo + 1) (ids ++ [lo]) (by omega) (by omega), hrange]
    simp

/-- `GenGlobalIDs` lists the IDs `idsBetween` says: its `2 ^ 64` rounds are enough wherever its loop
stops. -/
theorem genGlobalIDsLoop_eq_idsBetween (lo hi : Int64) :
    genGlobalIDsLoop hi (2 ^ 64) lo [] = idsBetween lo hi := by
  by_cases hhi : hi = maxInt64
  · subst hhi
    have hle : lo ≤ maxInt64 := by
      rw [Int64.le_iff_toInt_le, toInt_maxInt64]
      have := Int64.toInt_lt lo
      omega
    rw [genGlobalIDsLoop_maxInt64, idsBetween, if_pos ⟨hle, rfl⟩]
  · have hmax : hi.toInt ≠ 2 ^ 63 - 1 := fun h =>
      hhi (Int64.toInt_inj.mp (by rw [h, toInt_maxInt64]))
    have := Int64.toInt_lt hi
    have := Int64.le_toInt lo
    rw [idsBetween, if_neg (fun h => hhi h.2),
      genGlobalIDsLoop_of_ne hhi _ _ lo [] rfl (by omega), List.nil_append]

/-! ### The calls one by one -/

section Calls

variable {m : Meta} {c : Content} {b : Nat} {K : Catalog}

theorem checkField_eq (hr : m.txn.Repr c b) (key field : List (Fin 256)) (p : Bool) (err : MetaError) :
    m.checkField key field p err = if (c.hash key field).isSome = p then .error err else .ok () := by
  rw [Meta.checkField, hr.hGet]

theorem inc_eq (hr : m.txn.Repr c b) {key : List (Fin 256)} {v : Option Int64}
    (hv : c.string key = v.map intText) (step : Int64) :
    OkOr (·.isTooLarge) (fun p => p.1 = v.getD 0 + step ∧ p.2.jobListKey = m.jobListKey ∧
      p.2.txn.Repr (c.setString key (some (intText (v.getD 0 + step)))) b) (m.inc key step) := by
  have hinc := hr.inc key step
  rw [hv, incBase_map_intText] at hinc
  exact (okOr_ofStructure hinc).bind fun _ ⟨hn, hrepr⟩ => ⟨hn, rfl, hrepr⟩

theorem hSet_eq (hr : m.txn.Repr c b) (key field : List (Fin 256)) {v : List (Fin 256)} (hv : v ≠ []) :
    OkOr (·.isTooLarge) (fun m' => m'.jobListKey = m.jobListKey ∧
      m'.txn.Repr (c.setField key field (some v)) (b + 1)) (m.hSet key field v) :=
  okOr_withTxn (okOr_ofStructure (hr.hSet key field hv))

theorem hInc_eq (hr : m.txn.Repr c b) {key field : List (Fin 256)} {v : Option Int64}
    (hv : c.hash key field = v.map intText) (step : Int64) :
    OkOr (·.isTooLarge) (fun p => p.1 = v.getD 0 + step ∧
      p.2.Repr (c.setField key field (some (intText (v.getD 0 + step)))) (b + 1))
      (ofStructure (m.txn.hInc key field step)) := by
  have hinc := hr.hInc key field step
  rw [hv, incBase_map_intText] at hinc
  exact okOr_ofStructure hinc

theorem hDel_eq (hr : m.txn.Repr c b) (hb : b < 2 ^ 63) (key field : List (Fin 256)) :
    OkOr (·.isTooLarge) (fun m' => m'.jobListKey = m.jobListKey ∧
      m'.txn.Repr (c.setField key field none) b ∧ m'.txn.CountFits key) (m.hDel key field) :=
  (okOr_ofStructure (hr.hDel hb key [field])).map fun _ hrepr => ⟨rfl, hrepr⟩

theorem dbs_isSome (hs : Stores c K) (dbID : Int64) :
    (c.hash mDBs (dbKey dbID)).isSome = (K.dbs dbID).isSome := by
  rw [hs.hashes.dbs.dbs dbID, Option.isSome_map]

theorem tables_isSome (hs : Stores c K) (dbID tableID : Int64) :
    (c.hash (dbKey dbID) (tableKey tableID)).isSome = (K.tables dbID tableID).isSome := by
  rw [(hs.hashes.tables dbID).tables tableID, Option.isSome_map]

/-! The checks of a call fail as the catalog's guard does, so a call simulates the catalog's as soon
as its writes simulate the catalog's effect (`metaSimulates_check`). -/

theorem checkDBExists_eq (hr : m.txn.Repr c b) (hs : Stores c K) (dbID : Int64) :
    m.checkDBExists (dbKey dbID) = if K.dbs dbID = none then .error .dbNotExists else .ok () := by
  rw [Meta.checkDBExists, checkField_eq hr, dbs_isSome hs]
  cases K.dbs dbID <;> rfl

theorem checkDBNotExists_eq (hr : m.txn.Repr c b) (hs : Stores c K) (dbID : Int64) :
    m.checkDBNotExists (dbKey dbID) = if K.dbs dbID = none then .ok () else .error .dbExists := by
  rw [Meta.checkDBNotExists, checkField_eq hr, dbs_isSome hs]
  cases K.dbs dbID <;> rfl

theorem checkTableExists_bind (hr : m.txn.Repr c b) (hs : Stores c K) (dbID tableID : Int64) {β : Type}
    (f : Unit → Except MetaError β) :
    (m.checkDBExists (dbKey dbID) >>= fun _ => m.checkTableExists (dbKey dbID) (tableKey tableID) >>= f) =
      K.checkTable dbID tableID true >>= f := by
  simp only [checkDBExists_eq hr hs, Meta.checkTableExists, checkField_eq hr, tables_isSome hs,
    Catalog.checkTable]
  cases K.dbs dbID <;> cases K.tables dbID tableID <;> rfl

theorem checkTableNotExists_bind (hr : m.txn.Repr c b) (hs : Stores c K) (dbID tableID : Int64) {β : Type}
    (f : Unit → Except MetaError β) :
    (m.checkDBExists (dbKey dbID) >>= fun _ => m.checkTableNotExists (dbKey dbID) (tableKey tableID) >>= f) =
      K.checkTable dbID tableID false >>= f := by
  simp only [checkDBExists_eq hr hs, Meta.checkTableNotExists, checkField_eq hr, tables_isSome hs,
    Catalog.checkTable]
  cases K.dbs dbID <;> cases K.tables dbID tableID <;> rfl

theorem metaSimulates_check {α : Type} {x : Except MetaError Unit} {f : Unit → Except MetaError (α × Meta)}
    {y : α × Catalog} (h : MetaSimulates m b (f ()) (.ok y)) :
    MetaSimulates m b (x >>= f) (x >>= fun _ => pure y) := by
  cases x with
  | error e => exact metaSimulates_error_error (sameError_refl e)
  | ok u => exact h

theorem simulates_createDatabase (hr : m.txn.Repr c b) (hs : Stores c K) (dbID : Int64) (info : Blob) :
    MetaSimulates m (b + 1) (((MetaReply.done, ·)) <$> m.createDatabase dbID info.bytes)
      (K.apply m.jobListKey (.createDatabase dbID info)) := by
  simp only [Meta.createDatabase, map_bind, checkDBNotExists_eq hr hs, Catalog.apply, Catalog.guard]
  refine metaSimulates_check (metaSimulates_of_okOr ?_)
  exact (hSet_eq hr mDBs (dbKey dbID) info.ne_nil).map fun _ ⟨hkey, hrepr⟩ =>
    metaSimulates_ok hkey hrepr (hs.setDB dbID (some info))

theorem simulates_genAutoTableID (hr : m.txn.Repr c b) (hs : Stores c K) (dbID tableID step : Int64) :
    MetaSimulates m (b + 1) ((fun r => (MetaReply.id r.1, r.2)) <$> m.genAutoTableID dbID tableID step)
      (K.apply m.jobListKey (.genAutoTableID dbID tableID step)) := by
  simp only [Meta.genAutoTableID, map_bind, checkTableExists_bind hr hs, Catalog.apply, Catalog.guard]
  refine metaSimulates_check (metaSimulates_of_okOr ?_)
  refine (hInc_eq hr ((hs.hashes.tables dbID).autoIDs tableID) step).bind fun p hp => ?_
  obtain ⟨n, t'⟩ := p
  obtain ⟨rfl, hrepr⟩ := hp
  exact metaSimulates_ok (show (m.withTxn t').jobListKey = m.jobListKey from rfl) hrepr (hs.setAutoID dbID tableID (some _))

theorem simulates_genGlobalID (hr : m.txn.Repr c b) (hs : Stores c K) :
    MetaSimulates m b ((fun r => (MetaReply.id r.1, r.2)) <$> m.genGlobalID)
      (K.apply m.jobListKey .genGlobalID) := by
  refine metaSimulates_of_okOr ((inc_eq hr hs.strings.globalID 1).map fun p hp => ?_)
  obtain ⟨n, m'⟩ := p
  obtain ⟨rfl, hkey, hrepr⟩ := hp
  exact metaSimulates_ok hkey hrepr (hs.setGlobalID _)

theorem simulates_genSchemaVersion (hr : m.txn.Repr c b) (hs : Stores c K) :
    MetaSimulates m b ((fun r => (MetaReply.id r.1, r.2)) <$> m.genSchemaVersion)
      (K.apply m.jobListKey .genSchemaVersion) := by
  refine metaSimulates_of_okOr ((inc_eq hr hs.strings.schemaVersion 1).map fun p hp => ?_)
  obtain ⟨n, m'⟩ := p
  obtain ⟨rfl, hkey, hrepr⟩ := hp
  exact metaSimulates_ok hkey hrepr (hs.setSchemaVersion _)

theorem simulates_genGlobalIDs (hr : m.txn.Repr c b) (hs : Stores c K) (n : Nat) :
    MetaSimulates m b ((fun r => (MetaReply.ids r.1, r.2)) <$> m.genGlobalIDs n)
      (K.apply m.jobListKey (.genGlobalIDs n)) := by
  have hids : genGlobalIDsLoop (K.globalID.getD 0 + Int64.ofNat n) (2 ^ 64)
      (K.globalID.getD 0 + Int64.ofNat n - Int64.ofNat n + 1) [] =
        idsBetween (K.globalID.getD 0 + 1) (K.globalID.getD 0 + Int64.ofNat n) := by
    rw [Int64.add_sub_cancel, genGlobalIDsLoop_eq_idsBetween]
  simp only [Meta.genGlobalIDs, map_bind]
  refine metaSimulates_of_okOr ((inc_eq hr hs.strings.globalID (Int64.ofNat n)).bind fun p hp => ?_)
  obtain ⟨newID, m'⟩ := p
  obtain ⟨rfl, hkey, hrepr⟩ := hp
  dsimp only
  rw [hids]
  exact metaSimulates_ok hkey hrepr (hs.setGlobalID _)

theorem simulates_updateDatabase (hr : m.txn.Repr c b) (hs : Stores c K) (dbID : Int64) (info : Blob) :
    MetaSimulates m (b + 1) (((MetaReply.done, ·)) <$> m.updateDatabase dbID info.bytes)
      (K.apply m.jobListKey (.updateDatabase dbID info)) := by
  simp only [Meta.updateDatabase, map_bind, checkDBExists_eq hr hs, Catalog.apply, Catalog.guard]
  refine metaSimulates_check (metaSimulates_of_okOr ?_)
  exact (hSet_eq hr mDBs (dbKey dbID) info.ne_nil).map fun _ ⟨hkey, hrepr⟩ =>
    metaSimulates_ok hkey hrepr (hs.setDB dbID (some info))

theorem simulates_createTableOrView (hr : m.txn.Repr c b) (hs : Stores c K) (dbID tableID : Int64)
    (info : Blob) :
    MetaSimulates m (b + 1) (((MetaReply.done, ·)) <$> m.createTableOrView dbID tableID info.bytes)
      (K.apply m.jobListKey (.createTableOrView dbID tableID info)) := by
  simp only [Meta.createTableOrView, map_bind, checkTableNotExists_bind hr hs, Catalog.apply, Catalog.guard]
  refine metaSimulates_check (metaSimulates_of_okOr ?_)
  exact (hSet_eq hr (dbKey dbID) (tableKey tableID) info.ne_nil).map fun _ ⟨hkey, hrepr⟩ =>
    metaSimulates_ok hkey hrepr (hs.setTable dbID tableID (some info))

theorem simulates_updateTable (hr : m.txn.Repr c b) (hs : Stores c K) (dbID tableID : Int64)
    (info : Blob) :
    MetaSimulates m (b + 1) (((MetaReply.done, ·)) <$> m.updateTable dbID tableID info.bytes)
      (K.apply m.jobListKey (.updateTable dbID tableID info)) := by
  simp only [Meta.updateTable, map_bind, checkTableExists_bind hr hs, Catalog.apply, Catalog.guard]
  refine metaSimulates_check (metaSimulates_of_okOr ?_)
  exact (hSet_eq hr (dbKey dbID) (tableKey tableID) info.ne_nil).map fun _ ⟨hkey, hrepr⟩ =>
    metaSimulates_ok hkey hrepr (hs.setTable dbID tableID (some info))

theorem simulates_createTableAndSetAutoID (hr : m.txn.Repr c b) (hs : Stores c K)
    (dbID tableID : Int64) (info : Blob) (autoID : Int64) :
    MetaSimulates m (b + 2)
      (((MetaReply.done, ·)) <$> m.createTableAndSetAutoID dbID tableID info.bytes autoID)
      (K.apply m.jobListKey (.createTableAndSetAutoID dbID tableID info autoID)) := by
  simp only [Meta.createTableAndSetAutoID, Meta.createTableOrView, bind_assoc, map_bind,
    checkTableNotExists_bind hr hs, Catalog.apply, Catalog.guard]
  refine metaSimulates_check (metaSimulates_of_okOr ?_)
  have hs₁ := hs.setTable dbID tableID (some info)
  -- the record is written first, then the auto ID is added to
  refine (hSet_eq hr (dbKey dbID) (tableKey tableID) info.ne_nil).bind fun m₁ hm₁ => ?_
  obtain ⟨hkey₁, hrepr₁⟩ := hm₁
  refine (hInc_eq hrepr₁ ((hs₁.hashes.tables dbID).autoIDs tableID) autoID).bind fun p hp => ?_
  obtain ⟨n, t₂⟩ := p
  obtain ⟨-, hrepr₂⟩ := hp
  exact metaSimulates_ok (show (m₁.withTxn t₂).jobListKey = m.jobListKey from hkey₁) hrepr₂ (hs₁.setAutoID dbID tableID (some _))

theorem simulates_dropDatabase (hr : m.txn.Repr c b) (hs : Stores c K) (hb : b < 2 ^ 63) (dbID : Int64) :
    MetaSimulates m b (((MetaReply.done, ·)) <$> m.dropDatabase dbID)
      (K.apply m.jobListKey (.dropDatabase dbID)) := by
  obtain ⟨t₁, ht₁, hrepr₁⟩ := hr.hClear hb (dbKey dbID)
  simp only [Meta.dropDatabase, ht₁, ofStructure_ok, except_bind_ok]
  exact metaSimulates_of_okOr ((hDel_eq (m := m.withTxn t₁) hrepr₁ hb mDBs (dbKey dbID)).map
    fun _ ⟨hkey, hrepr₂, _⟩ => metaSimulates_ok hkey hrepr₂ (hs.dropDB dbID))

theorem simulates_dropTableOrView (hr : m.txn.Repr c b) (hs : Stores c K) (hb : b < 2 ^ 63)
    (dbID tblID : Int64) (delAutoID : Bool) :
    MetaSimulates m b (((MetaReply.done, ·)) <$> m.dropTableOrView dbID tblID delAutoID)
      (K.apply m.jobListKey (.dropTableOrView dbID tblID delAutoID)) := by
  simp only [Meta.dropTableOrView, map_bind, checkTableExists_bind hr hs, Catalog.apply, Catalog.guard]
  refine metaSimulates_check (metaSimulates_of_okOr ?_)
  have hs₁ := hs.setTable dbID tblID none
  refine (hDel_eq hr hb (dbKey dbID) (tableKey tblID)).bind fun m₁ hm₁ => ?_
  obtain ⟨hkey₁, hrepr₁, -⟩ := hm₁
  cases delAutoID with
  | false => exact metaSimulates_ok hkey₁ hrepr₁ hs₁
  | true =>
    -- the auto ID goes with the table
    exact (hDel_eq hrepr₁ hb (dbKey dbID) (autoTableIDKey tblID)).map fun _ ⟨hkey₂, hrepr₂, _⟩ =>
      metaSimulates_ok (hkey₂.trans hkey₁) hrepr₂ (hs₁.setAutoID dbID tblID none)

theorem simulates_enQueueDDLJob (hr : m.txn.Repr c b) (hs : Stores c K) (hb : b + 1 < 2 ^ 63)
    (job : Blob) (jobListKeys : List (List (Fin 256))) :
    MetaSimulates m (b + 1) (((MetaReply.done, ·)) <$> m.enQueueDDLJob job.bytes jobListKeys)
      (K.apply m.jobListKey (.enQueueDDLJob job jobListKeys)) := by
  have hv : [] ∉ [job.bytes] := by simpa using job.ne_nil.symm
  have hq : c.list (m.listKey jobListKeys) ++ [job.bytes] =
      (K.queues (m.listKey jobListKeys) ++ [job]).map Blob.bytes := by
    rw [hs.queues, List.map_append, List.map_singleton]
  have hpush := hr.rPush (m.listKey jobListKeys) (show b + [job.bytes].length < 2 ^ 63 from hb) hv
  rw [hq] at hpush
  simp only [Meta.enQueueDDLJob, Meta.enQueueDDLJobAt, Catalog.apply, Catalog.guard, Catalog.effect]
  exact metaSimulates_of_okOr ((okOr_withTxn (okOr_ofList hpush)).map fun _ h =>
    metaSimulates_ok h.1 h.2 (hs.setQueue _ _))

theorem simulates_deQueueDDLJob (hr : m.txn.Repr c b) (hs : Stores c K) (hb : b < 2 ^ 63) :
    MetaSimulates m b ((fun r => (MetaReply.job r.1, r.2)) <$> m.deQueueDDLJob)
      (K.apply m.jobListKey .deQueueDDLJob) := by
  have hpop := hr.lPop hb m.jobListKey
  rw [hs.queues, ← List.map_tail, List.head?_map] at hpop
  simp only [Meta.deQueueDDLJob, Meta.deQueueDDLJobAt, map_bind, Catalog.apply, Catalog.guard,
    Catalog.effect]
  refine metaSimulates_of_okOr ((okOr_ofList hpop).bind fun p hp => ?_)
  obtain ⟨job, t'⟩ := p
  obtain ⟨rfl, hrepr⟩ := hp
  exact metaSimulates_ok (show (m.withTxn t').jobListKey = m.jobListKey from rfl) hrepr (hs.setQueue _ _)

theorem simulates_updateDDLJob (hr : m.txn.Repr c b) (hs : Stores c K) (hb : b < 2 ^ 63) (index : Int64)
    (job : Blob) (jobListKeys : List (List (Fin 256))) :
    MetaSimulates m b (((MetaReply.done, ·)) <$> m.updateDDLJob index job.bytes jobListKeys)
      (K.apply m.jobListKey (.updateDDLJob index job jobListKeys)) := by
  simp only [Meta.updateDDLJob, Meta.updateDDLJobAt, Meta.listKey, Catalog.apply, Catalog.guard, Catalog.effect]
  generalize jobListKeys.headD m.jobListKey = key
  have hq := hs.queues key
  by_cases hnil : K.queues key = []
  · have hxs : c.list key = [] := by rw [hq, hnil, List.map_nil]
    rw [hr.lSet_empty hb _ hxs]
    simp only [hnil, ne_eq, not_true_eq_false, false_and, if_false, List.length_nil,
      Structure.TxStructure.listPosition_zero, except_bind_ok, ofList_ok, except_map_ok]
    exact metaSimulates_ok (show (m.withTxn m.txn).jobListKey = m.jobListKey from rfl) hr hs
  · have hxs : c.list key ≠ [] := by
      rw [hq]
      exact fun h => hnil (List.map_eq_nil_iff.mp h)
    have hlen : (c.list key).length = (K.queues key).length := by
      rw [hq, List.length_map]
    cases hj : listPosition (K.queues key).length index with
    | none =>
      obtain ⟨e, he⟩ := hr.lSet_none hb _ hxs (hlen ▸ hj) job.bytes
      rw [he, if_pos ⟨hnil, rfl⟩]
      exact metaSimulates_error_error trivial
    | some j =>
      have hset := hr.lSet hb _ (hlen ▸ hj) job.ne_nil
      rw [hq, ← List.map_set] at hset
      rw [if_neg (fun h => Option.some_ne_none j h.2)]
      exact metaSimulates_of_okOr ((okOr_withTxn (okOr_ofList hset)).map fun _ h =>
        metaSimulates_ok h.1 h.2 (hs.setQueue _ _))

theorem simulates_addHistoryDDLJob (hr : m.txn.Repr c b) (hs : Stores c K) (jobID : Int64) (job : Blob) :
    MetaSimulates m (b + 1) (((MetaReply.done, ·)) <$> m.addHistoryDDLJob jobID job.bytes)
      (K.apply m.jobListKey (.addHistoryDDLJob jobID job)) := by
  rw [Meta.addHistoryDDLJob, Meta.addHistoryDDLJobAt]
  exact metaSimulates_of_okOr ((hSet_eq hr mDDLJobHistoryKey (jobIDKey jobID) job.ne_nil).map
    fun _ ⟨hkey, hrepr⟩ => metaSimulates_ok hkey hrepr (hs.setHistory jobID job))

theorem simulates_finishBootstrap (hr : m.txn.Repr c b) (hs : Stores c K) (version : Int64) :
    MetaSimulates m b (((MetaReply.done, ·)) <$> m.finishBootstrap version)
      (K.apply m.jobListKey (.finishBootstrap version)) := by
  rw [Meta.finishBootstrap, ← intText]
  exact metaSimulates_of_okOr ((okOr_withTxn (okOr_ofStructure
    (hr.set mBootstrapKey (intText_ne_nil version)))).map fun _ ⟨hkey, hrepr⟩ =>
      metaSimulates_ok hkey hrepr (hs.setBootstrapVersion version))

theorem simulates_setSchemaDiff (hr : m.txn.Repr c b) (hs : Stores c K) (version : Int64) (diff : Blob) :
    MetaSimulates m b (((MetaReply.done, ·)) <$> m.setSchemaDiff version diff.bytes)
      (K.apply m.jobListKey (.setSchemaDiff version diff)) := by
  rw [Meta.setSchemaDiff]
  exact metaSimulates_of_okOr ((okOr_withTxn (okOr_ofStructure
    (hr.set (schemaDiffKey version) diff.ne_nil))).map fun _ ⟨hkey, hrepr⟩ =>
      metaSimulates_ok hkey hrepr (hs.setDiff version diff))

theorem simulates_updateDDLReorgStartHandle (hr : m.txn.Repr c b) (hs : Stores c K)
    (jobID startHandle : Int64) :
    MetaSimulates m (b + 1) (((MetaReply.done, ·)) <$> m.updateDDLReorgStartHandle jobID startHandle)
      (K.apply m.jobListKey (.updateDDLReorgStartHandle jobID startHandle)) := by
  rw [Meta.updateDDLReorgStartHandle, ← intText]
  exact metaSimulates_of_okOr ((hSet_eq hr mDDLJobReorgKey (reorgJobStartHandle jobID)
    (intText_ne_nil startHandle)).map fun _ ⟨hkey, hrepr⟩ =>
      metaSimulates_ok hkey hrepr (hs.setReorgStart jobID (some startHandle)))

theorem simulates_updateDDLReorgHandle (hr : m.txn.Repr c b) (hs : Stores c K)
    (jobID startHandle endHandle physicalTableID : Int64) :
    MetaSimulates m (b + 3)
      (((MetaReply.done, ·)) <$> m.updateDDLReorgHandle jobID startHandle endHandle physicalTableID)
      (K.apply m.jobListKey (.updateDDLReorgHandle jobID startHandle endHandle physicalTableID)) := by
  rw [Meta.updateDDLReorgHandle, ← intText, ← intText, ← intText]
  simp only [map_bind]
  -- the three handles are written one after another
  refine metaSimulates_of_okOr ((hSet_eq hr mDDLJobReorgKey (reorgJobStartHandle jobID)
    (intText_ne_nil startHandle)).bind fun m₁ hm₁ => ?_)
  obtain ⟨hkey₁, hrepr₁⟩ := hm₁
  refine (hSet_eq hrepr₁ mDDLJobReorgKey (reorgJobEndHandle jobID)
    (intText_ne_nil endHandle)).bind fun m₂ hm₂ => ?_
  obtain ⟨hkey₂, hrepr₂⟩ := hm₂
  exact (hSet_eq hrepr₂ mDDLJobReorgKey (reorgJobPhysicalTableID jobID)
    (intText_ne_nil physicalTableID)).map fun _ ⟨hkey₃, hrepr₃⟩ =>
      metaSimulates_ok (hkey₃.trans (hkey₂.trans hkey₁)) hrepr₃
        (((hs.setReorgStart jobID (some startHandle)).setReorgEnd jobID
          (some endHandle)).setReorgPhysical jobID (some physicalTableID))

theorem simulates_removeDDLReorgHandle (hr : m.txn.Repr c b) (hs : Stores c K) (hb : b < 2 ^ 63)
    (jobID : Int64) :
    MetaSimulates m b (((MetaReply.done, ·)) <$> m.removeDDLReorgHandle jobID)
      (K.apply m.jobListKey (.removeDDLReorgHandle jobID)) := by
  simp only [Meta.removeDDLReorgHandle, map_bind]
  refine metaSimulates_of_okOr ((hDel_eq hr hb mDDLJobReorgKey (reorgJobStartHandle jobID)).bind
    fun m₁ hm₁ => ?_)
  obtain ⟨hkey₁, hrepr₁, hfit₁⟩ := hm₁
  -- the errors of the other two `HDel`s are dropped, and what they wrote stays: the count of the
  -- hash the first one wrote back fits an entry, so theirs do too
  obtain ⟨hrepr₂, hfit₂⟩ := hrepr₁.hDelState hb mDDLJobReorgKey [reorgJobEndHandle jobID] hfit₁
  obtain ⟨hrepr₃, -⟩ := hrepr₂.hDelState hb mDDLJobReorgKey [reorgJobPhysicalTableID jobID] hfit₂
  exact metaSimulates_ok hkey₁ hrepr₃
    (((hs.setReorgStart jobID none).setReorgEnd jobID none).setReorgPhysical jobID none)

end Calls

/-- How many fields and elements a call may add to the structure: the room it takes of the bound. -/
def MetaOp.size {V : Type} : MetaOp V → Nat
  | .genAutoTableID .. | .createDatabase .. | .updateDatabase .. | .createTableOrView ..
  | .updateTable .. | .enQueueDDLJob .. | .addHistoryDDLJob .. | .updateDDLReorgStartHandle .. => 1
  | .createTableAndSetAutoID .. => 2
  | .updateDDLReorgHandle .. => 3
  | _ => 0

section Runs

variable {m : Meta} {b : Nat} {K : Catalog}

/-- Every writing call of `meta.go` on a meta that represents a catalog does what the catalog's
call does. -/
theorem Represents.apply_simulates (h : Represents m K b) (op : MetaOp Blob)
    (hb : b + op.size < 2 ^ 63) :
    MetaSimulates m (b + op.size) (m.apply (op.map Blob.bytes)) (K.apply m.jobListKey op) := by
  obtain ⟨c, hr, hs⟩ := h
  have hb' : b < 2 ^ 63 := by omega
  cases op with
  | genGlobalID => exact simulates_genGlobalID hr hs
  | genGlobalIDs n => exact simulates_genGlobalIDs hr hs n
  | genSchemaVersion => exact simulates_genSchemaVersion hr hs
  | genAutoTableID dbID tableID step => exact simulates_genAutoTableID hr hs dbID tableID step
  | createDatabase dbID info => exact simulates_createDatabase hr hs dbID info
  | updateDatabase dbID info => exact simulates_updateDatabase hr hs dbID info
  | createTableOrView dbID tableID info => exact simulates_createTableOrView hr hs dbID tableID info
  | createTableAndSetAutoID dbID tableID info autoID =>
    exact simulates_createTableAndSetAutoID hr hs dbID tableID info autoID
  | dropDatabase dbID => exact simulates_dropDatabase hr hs hb' dbID
  | dropTableOrView dbID tblID delAutoID => exact simulates_dropTableOrView hr hs hb' dbID tblID delAutoID
  | updateTable dbID tableID info => exact simulates_updateTable hr hs dbID tableID info
  | enQueueDDLJob job jobListKeys => exact simulates_enQueueDDLJob hr hs hb job jobListKeys
  | deQueueDDLJob => exact simulates_deQueueDDLJob hr hs hb'
  | updateDDLJob index job jobListKeys => exact simulates_updateDDLJob hr hs hb' index job jobListKeys
  | addHistoryDDLJob jobID job => exact simulates_addHistoryDDLJob hr hs jobID job
  | finishBootstrap version => exact simulates_finishBootstrap hr hs version
  | updateDDLReorgStartHandle jobID startHandle =>
    exact simulates_updateDDLReorgStartHandle hr hs jobID startHandle
  | updateDDLReorgHandle jobID s e p => exact simulates_updateDDLReorgHandle hr hs jobID s e p
  | removeDDLReorgHandle jobID => exact simulates_removeDDLReorgHandle hr hs hb' jobID
  | setSchemaDiff version diff => exact simulates_setSchemaDiff hr hs version diff

/-- Simulation goes through a bind: the continuations run on a meta that keeps its job list key and
represents the catalog they run on. -/
theorem MetaSimulates.bind {α β : Type} {x : Except MetaError (α × Meta)}
    {y : Except MetaError (α × Catalog)} (hxy : MetaSimulates m b x y) {b' : Nat}
    {f : α × Meta → Except MetaError (β × Meta)} {g : α × Catalog → Except MetaError (β × Catalog)}
    (hfg : ∀ r m' K', m'.jobListKey = m.jobListKey → Represents m' K' b →
      MetaSimulates m b' (f (r, m')) (g (r, K'))) :
    MetaSimulates m b' (x >>= f) (y >>= g) := by
  match x, y, hxy with
  | .ok (r, m'), .ok (r', K'), ⟨hr, hkey, hrep⟩ =>
    subst hr
    exact hfg r m' K' hkey hrep
  | .error _, .error _, hee => exact hee
  | .error _, .ok _, he => exact metaSimulates_error_of_isTooLarge he _

theorem MetaSimulates.of_jobListKey {α : Type} {m' : Meta} {x : Except MetaError (α × Meta)}
    {y : Except MetaError (α × Catalog)} (h : MetaSimulates m' b x y)
    (hkey : m'.jobListKey = m.jobListKey) : MetaSimulates m b x y := by
  match x, y, h with
  | .ok (r, m''), .ok (r', K'), ⟨hr, hkey', hrep⟩ => exact ⟨hr, hkey'.trans hkey, hrep⟩
  | .error _, .error _, hee => exact hee
  | .error _, .ok _, he => exact he

/-- A run of writing calls from a meta that represents a catalog does what the catalog's run does,
as long as the room the calls take stays below `2 ^ 63`. -/
theorem Represents.run_simulates (h : Represents m K b) (ops : List (MetaOp Blob))
    (hb : b + (ops.map MetaOp.size).sum < 2 ^ 63) :
    MetaSimulates m (b + (ops.map MetaOp.size).sum) (m.run (ops.map (MetaOp.map Blob.bytes)))
      (K.run m.jobListKey ops) := by
  induction ops generalizing m K b with
  | nil => exact ⟨rfl, rfl, h⟩
  | cons op ops ih =>
    simp only [List.map_cons, List.sum_cons] at hb ⊢
    simp only [Meta.run, Catalog.run]
    refine (h.apply_simulates op (by omega)).bind fun r m' K' hkey hrep => ?_
    have hrest := ih hrep (by omega)
    rw [hkey, Nat.add_assoc] at hrest
    exact (hrest.of_jobListKey hkey).bind fun rs m'' K'' hkey' hrep' => ⟨rfl, hkey', hrep'⟩

/-- A meta over an empty store represents the empty catalog. -/
theorem represents_newMeta (jobListKeys : List (List (Fin 256))) :
    Represents (newMeta ⟨[]⟩ jobListKeys) Catalog.empty 0 :=
  ⟨Content.empty, repr_empty newMemDbBuffer mMetaPrefix, stores_empty⟩

section NewMeta

variable {jobListKeys : List (List (Fin 256))} {ops : List (MetaOp Blob)} {rs : List MetaReply}
  {m' : Meta}

/-- A run from an empty store that succeeds is a run of the catalog from empty with the same
answers, and its meta represents the catalog it leaves. -/
theorem newMeta_run_represents (hb : (ops.map MetaOp.size).sum < 2 ^ 63)
    (hrun : (newMeta ⟨[]⟩ jobListKeys).run (ops.map (MetaOp.map Blob.bytes)) = .ok (rs, m')) :
    ∃ K', Catalog.empty.run (newMeta ⟨[]⟩ jobListKeys).jobListKey ops = .ok (rs, K') ∧
      m'.jobListKey = (newMeta ⟨[]⟩ jobListKeys).jobListKey ∧
      Represents m' K' (ops.map MetaOp.size).sum := by
  have hsim := (represents_newMeta jobListKeys).run_simulates ops (by omega)
  rw [hrun, Nat.zero_add] at hsim
  exact hsim.of_ok

end NewMeta

end Runs

end TinySql.Meta
