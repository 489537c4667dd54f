import TinySql.Meta.Catalog
import TinySql.Types.Decimal
import TinySql.Lib.KeyedView

/-!
# How the structure keeps the catalog

`Stores c K` says that the content `c` of the structure under meta keeps the catalog `K` at the
keys of `meta.go`: each counter as decimal text at its string key, each schema diff at `Diff:v`,
each database record at the field `DB:d` of the hash `DBs`, each table record and auto ID at the
fields `Table:t` and `TID:t` of the hash `DB:d`, each queue as the list of its key, each finished
job at the eight bytes of its ID in `DDLJobHistory`, and the reorganization handles of a job in
`DDLJobReorg`. The hashes `DBs`, `DB:d` and `DDLJobHistory` have no other field, which is what the
calls that list them need.

The keys tell the parts apart: the IDs in them are decimal text, which reads back as the ID
(`TinySql.Types.formatInt_toInt_inj`), and the names before the IDs differ. So a write to one
key of meta changes one part of the catalog (`HashesStore.setDBs` and its siblings).
-/

namespace TinySql.Meta

open TinySql.Structure TinySql.Lib

/-- `strconv.FormatInt(n, 10)`, how meta keeps an int64. -/
def intText (n : Int64) : List (Fin 256) :=
  Expression.formatInt n.toInt

/-! ### Keys -/

theorem idKey_injective (p : String) : Function.Injective (idKey p) :=
  fun _ _ h => Types.formatInt_toInt_inj (List.append_cancel_left h)

theorem dbKey_injective : Function.Injective dbKey := idKey_injective _
theorem tableKey_injective : Function.Injective tableKey := idKey_injective _
theorem autoTableIDKey_injective : Function.Injective autoTableIDKey := idKey_injective _
theorem schemaDiffKey_injective : Function.Injective schemaDiffKey := idKey_injective _

theorem jobIDKey_injective : Function.Injective jobIDKey := by
  intro a b h
  have hu := congrArg Codec.readBigEndian h
  rw [jobIDKey, jobIDKey, Codec.readBigEndian_bigEndian, Codec.readBigEndian_bigEndian] at hu
  exact (eq_iff_flip a b).mpr (congrArg UInt64.toNat hu)

theorem reorgJobStartHandle_injective : Function.Injective reorgJobStartHandle :=
  jobIDKey_injective

theorem reorgJobEndHandle_injective : Function.Injective reorgJobEndHandle :=
  fun _ _ h => jobIDKey_injective (List.append_cancel_right h)

theorem reorgJobPhysicalTableID_injective : Function.Injective reorgJobPhysicalTableID :=
  fun _ _ h => jobIDKey_injective (List.append_cancel_right h)

theorem tableKey_ne_autoTableIDKey (t t' : Int64) : tableKey t ≠ autoTableIDKey t' := by
  simp [tableKey, autoTableIDKey, idKey, asciiBytes, mTablePrefix, mTableIDPrefix]

theorem reorgJobStartHandle_ne_reorgJobEndHandle (a b : Int64) :
    reorgJobStartHandle a ≠ reorgJobEndHandle b := by
  intro h
  have := congrArg List.length h
  simp [reorgJobEndHandle, reorgJobStartHandle, jobIDKey, asciiBytes] at this

theorem reorgJobStartHandle_ne_reorgJobPhysicalTableID (a b : Int64) :
    reorgJobStartHandle a ≠ reorgJobPhysicalTableID b := by
  intro h
  have := congrArg List.length h
  simp [reorgJobPhysicalTableID, reorgJobStartHandle, jobIDKey, asciiBytes] at this

theorem reorgJobEndHandle_ne_reorgJobPhysicalTableID (a b : Int64) :
    reorgJobEndHandle a ≠ reorgJobPhysicalTableID b := by
  intro h
  have := congrArg (List.drop 8) h
  simp [reorgJobEndHandle, reorgJobPhysicalTableID, jobIDKey, asciiBytes] at this

/-- The hash keys of meta are distinct: `DB:d` is neither `DBs` nor a key of the job hashes. -/
theorem dbKey_ne_mDBs (d : Int64) : dbKey d ≠ mDBs := by
  simp [dbKey, idKey, mDBs, asciiBytes, mDBPrefix]

theorem dbKey_ne_mDDLJobHistoryKey (d : Int64) : dbKey d ≠ mDDLJobHistoryKey := by
  simp [dbKey, idKey, mDDLJobHistoryKey, asciiBytes, mDBPrefix]

theorem dbKey_ne_mDDLJobReorgKey (d : Int64) : dbKey d ≠ mDDLJobReorgKey := by
  simp [dbKey, idKey, mDDLJobReorgKey, asciiBytes, mDBPrefix]

theorem mDBs_ne_mDDLJobHistoryKey : mDBs ≠ mDDLJobHistoryKey := by decide
theorem mDBs_ne_mDDLJobReorgKey : mDBs ≠ mDDLJobReorgKey := by decide
theorem mDDLJobHistoryKey_ne_mDDLJobReorgKey : mDDLJobHistoryKey ≠ mDDLJobReorgKey := by decide

/-- The string keys of meta are distinct: `Diff:v` and the three counters. -/
theorem mNextGlobalIDKey_ne_mSchemaVersionKey : mNextGlobalIDKey ≠ mSchemaVersionKey := by decide
theorem mNextGlobalIDKey_ne_mBootstrapKey : mNextGlobalIDKey ≠ mBootstrapKey := by decide
theorem mSchemaVersionKey_ne_mBootstrapKey : mSchemaVersionKey ≠ mBootstrapKey := by decide

theorem schemaDiffKey_ne_mNextGlobalIDKey (v : Int64) : schemaDiffKey v ≠ mNextGlobalIDKey := by
  simp [schemaDiffKey, idKey, mNextGlobalIDKey, asciiBytes, mSchemaDiffPrefix]

theorem schemaDiffKey_ne_mSchemaVersionKey (v : Int64) : schemaDiffKey v ≠ mSchemaVersionKey := by
  simp [schemaDiffKey, idKey, mSchemaVersionKey, asciiBytes, mSchemaDiffPrefix]

theorem schemaDiffKey_ne_mBootstrapKey (v : Int64) : schemaDiffKey v ≠ mBootstrapKey := by
  simp [schemaDiffKey, idKey, mBootstrapKey, asciiBytes, mSchemaDiffPrefix]

/-- `ListTables` keeps the fields that start with `Table`: the tables, not their auto IDs. -/
theorem isPrefixOf_tableKey (t : Int64) : (asciiBytes mTablePrefix).isPrefixOf (tableKey t) := by
  rw [List.isPrefixOf_iff_prefix, tableKey, idKey, List.append_assoc]
  exact List.prefix_append _ _

theorem isPrefixOf_autoTableIDKey (t : Int64) :
    (asciiBytes mTablePrefix).isPrefixOf (autoTableIDKey t) = false := by
  rw [Bool.eq_false_iff, ne_eq, List.isPrefixOf_iff_prefix]
  simp [autoTableIDKey, idKey, asciiBytes, mTablePrefix, mTableIDPrefix]

/-! ### The parts of the catalog -/

/-- A hash field or string key of the structure, by field. -/
abbrev Fields := List (Fin 256) → Option (List (Fin 256))

/-- The hash `DBs` keeps the records of the databases, and nothing else. -/
structure DBsStore (m : Fields) (dbs : Int64 → Option Blob) : Prop where
  dbs : Encodes m dbKey Blob.bytes dbs
  only : Covers m (Set.range dbKey)

/-- The hash `DB:d` keeps the records and the auto IDs of the tables of `d`, and nothing else. -/
structure TablesStore (m : Fields) (tables : Int64 → Option Blob) (autoIDs : Int64 → Option Int64) :
    Prop where
  tables : Encodes m tableKey Blob.bytes tables
  autoIDs : Encodes m autoTableIDKey intText autoIDs
  only : Covers m (Set.range tableKey ∪ Set.range autoTableIDKey)

/-- The hash `DDLJobHistory` keeps the finished jobs by ID, and nothing else. -/
structure HistoryStore (m : Fields) (history : Int64 → Option Blob) : Prop where
  jobs : Encodes m jobIDKey Blob.bytes history
  only : Covers m (Set.range jobIDKey)

/-- The hash `DDLJobReorg` keeps the three handles of each job. -/
structure ReorgStore (m : Fields) (startHandle endHandle physical : Int64 → Option Int64) : Prop where
  startHandle : Encodes m reorgJobStartHandle intText startHandle
  endHandle : Encodes m reorgJobEndHandle intText endHandle
  physical : Encodes m reorgJobPhysicalTableID intText physical

/-- The strings keep the counters and the schema diffs. -/
structure StringsStore (s : Fields) (globalID schemaVersion bootstrapVersion : Option Int64)
    (diffs : Int64 → Option Blob) : Prop where
  globalID : s mNextGlobalIDKey = globalID.map intText
  schemaVersion : s mSchemaVersionKey = schemaVersion.map intText
  bootstrapVersion : s mBootstrapKey = bootstrapVersion.map intText
  diffs : Encodes s schemaDiffKey Blob.bytes diffs

/-- The hashes keep the databases, the tables, the finished jobs and the reorganization handles. -/
structure HashesStore (hash : List (Fin 256) → Fields) (dbs : Int64 → Option Blob)
    (tables : Int64 → Int64 → Option Blob) (autoIDs : Int64 → Int64 → Option Int64)
    (history : Int64 → Option Blob) (reorgStart reorgEnd reorgPhysical : Int64 → Option Int64) :
    Prop where
  dbs : DBsStore (hash mDBs) dbs
  tables : ∀ dbID, TablesStore (hash (dbKey dbID)) (tables dbID) (autoIDs dbID)
  history : HistoryStore (hash mDDLJobHistoryKey) history
  reorg : ReorgStore (hash mDDLJobReorgKey) reorgStart reorgEnd reorgPhysical

/-- Each list is the queue of its key. -/
def QueuesStore (list : List (Fin 256) → List (List (Fin 256))) (queues : List (Fin 256) → List Blob) :
    Prop :=
  ∀ key, list key = (queues key).map Blob.bytes

/-- The content `c` keeps the catalog `K`. -/
structure Stores (c : Content) (K : Catalog) : Prop where
  strings : StringsStore c.string K.globalID K.schemaVersion K.bootstrapVersion K.diffs
  hashes : HashesStore c.hash K.dbs K.tables K.autoIDs K.history K.reorgStart K.reorgEnd K.reorgPhysical
  queues : QueuesStore c.list K.queues

theorem stores_empty : Stores Content.empty Catalog.empty :=
  ⟨⟨rfl, rfl, rfl, encodes_none _ _⟩,
    ⟨⟨encodes_none _ _, covers_none _⟩, fun _ => ⟨encodes_none _ _, encodes_none _ _, covers_none _⟩,
      ⟨encodes_none _ _, covers_none _⟩, ⟨encodes_none _ _, encodes_none _ _, encodes_none _ _⟩⟩,
    fun _ => rfl⟩

/-! ### Writes to one part -/

section Parts

variable {m : Fields}

theorem DBsStore.set {dbs : Int64 → Option Blob} (h : DBsStore m dbs) (dbID : Int64)
    (info : Option Blob) :
    DBsStore (Function.update m (dbKey dbID) (info.map Blob.bytes)) (Function.update dbs dbID info) :=
  ⟨h.dbs.update dbKey_injective dbID info, h.only.update ⟨dbID, rfl⟩ _⟩

theorem TablesStore.setTable {tables : Int64 → Option Blob} {autoIDs : Int64 → Option Int64}
    (h : TablesStore m tables autoIDs) (tableID : Int64) (info : Option Blob) :
    TablesStore (Function.update m (tableKey tableID) (info.map Blob.bytes))
      (Function.update tables tableID info) autoIDs :=
  ⟨h.tables.update tableKey_injective tableID info,
    h.autoIDs.update_of_ne (fun t => (tableKey_ne_autoTableIDKey tableID t).symm) _,
    h.only.update (Or.inl ⟨tableID, rfl⟩) _⟩

theorem TablesStore.setAutoID {tables : Int64 → Option Blob} {autoIDs : Int64 → Option Int64}
    (h : TablesStore m tables autoIDs) (tableID : Int64) (autoID : Option Int64) :
    TablesStore (Function.update m (autoTableIDKey tableID) (autoID.map intText)) tables
      (Function.update autoIDs tableID autoID) :=
  ⟨h.tables.update_of_ne (fun t => tableKey_ne_autoTableIDKey t tableID) _,
    h.autoIDs.update autoTableIDKey_injective tableID autoID,
    h.only.update (Or.inr ⟨tableID, rfl⟩) _⟩

theorem tablesStore_none : TablesStore (fun _ => none) (fun _ => none) fun _ => none :=
  ⟨encodes_none _ _, encodes_none _ _, covers_none _⟩

theorem HistoryStore.set {history : Int64 → Option Blob} (h : HistoryStore m history) (jobID : Int64)
    (job : Blob) :
    HistoryStore (Function.update m (jobIDKey jobID) (some job.bytes))
      (Function.update history jobID (some job)) :=
  ⟨h.jobs.update jobIDKey_injective jobID (some job), h.only.update ⟨jobID, rfl⟩ _⟩

variable {s e p : Int64 → Option Int64}

theorem ReorgStore.setStart (h : ReorgStore m s e p) (jobID : Int64) (v : Option Int64) :
    ReorgStore (Function.update m (reorgJobStartHandle jobID) (v.map intText))
      (Function.update s jobID v) e p :=
  ⟨h.startHandle.update reorgJobStartHandle_injective jobID v,
    h.endHandle.update_of_ne (fun i => (reorgJobStartHandle_ne_reorgJobEndHandle jobID i).symm) _,
    h.physical.update_of_ne (fun i => (reorgJobStartHandle_ne_reorgJobPhysicalTableID jobID i).symm) _⟩

theorem ReorgStore.setEnd (h : ReorgStore m s e p) (jobID : Int64) (v : Option Int64) :
    ReorgStore (Function.update m (reorgJobEndHandle jobID) (v.map intText)) s
      (Function.update e jobID v) p :=
  ⟨h.startHandle.update_of_ne (fun i => reorgJobStartHandle_ne_reorgJobEndHandle i jobID) _,
    h.endHandle.update reorgJobEndHandle_injective jobID v,
    h.physical.update_of_ne (fun i => (reorgJobEndHandle_ne_reorgJobPhysicalTableID jobID i).symm) _⟩

theorem ReorgStore.setPhysical (h : ReorgStore m s e p) (jobID : Int64) (v : Option Int64) :
    ReorgStore (Function.update m (reorgJobPhysicalTableID jobID) (v.map intText)) s e
      (Function.update p jobID v) :=
  ⟨h.startHandle.update_of_ne (fun i => reorgJobStartHandle_ne_reorgJobPhysicalTableID i jobID) _,
    h.endHandle.update_of_ne (fun i => reorgJobEndHandle_ne_reorgJobPhysicalTableID i jobID) _,
    h.physical.update reorgJobPhysicalTableID_injective jobID v⟩

end Parts

/-! ### Writes to one key of meta -/

section Hashes

variable {hash : List (Fin 256) → Fields} {dbs : Int64 → Option Blob}
  {tables : Int64 → Int64 → Option Blob} {autoIDs : Int64 → Int64 → Option Int64}
  {history : Int64 → Option Blob} {rs re rp : Int64 → Option Int64}

theorem HashesStore.setDBs (h : HashesStore hash dbs tables autoIDs history rs re rp) {m : Fields}
    {dbs' : Int64 → Option Blob} (hm : DBsStore m dbs') :
    HashesStore (Function.update hash mDBs m) dbs' tables autoIDs history rs re rp := by
  refine ⟨by simpa using hm, fun d => ?_, ?_, ?_⟩
  · rw [Function.update_of_ne (dbKey_ne_mDBs d)]
    exact h.tables d
  · rw [Function.update_of_ne mDBs_ne_mDDLJobHistoryKey.symm]
    exact h.history
  · rw [Function.update_of_ne mDBs_ne_mDDLJobReorgKey.symm]
    exact h.reorg

theorem HashesStore.setTables (h : HashesStore hash dbs tables autoIDs history rs re rp)
    (dbID : Int64) {m : Fields} {tables' : Int64 → Option Blob} {autoIDs' : Int64 → Option Int64}
    (hm : TablesStore m tables' autoIDs') :
    HashesStore (Function.update hash (dbKey dbID) m) dbs (Function.update tables dbID tables')
      (Function.update autoIDs dbID autoIDs') history rs re rp := by
  refine ⟨?_, fun d => ?_, ?_, ?_⟩
  · rw [Function.update_of_ne (dbKey_ne_mDBs dbID).symm]
    exact h.dbs
  · by_cases hd : d = dbID
    · subst hd
      simpa using hm
    · rw [Function.update_of_ne (dbKey_injective.ne hd), Function.update_of_ne hd,
        Function.update_of_ne hd]
      exact h.tables d
  · rw [Function.update_of_ne (dbKey_ne_mDDLJobHistoryKey dbID).symm]
    exact h.history
  · rw [Function.update_of_ne (dbKey_ne_mDDLJobReorgKey dbID).symm]
    exact h.reorg

theorem HashesStore.setHistory (h : HashesStore hash dbs tables autoIDs history rs re rp) {m : Fields}
    {history' : Int64 → Option Blob} (hm : HistoryStore m history') :
    HashesStore (Function.update hash mDDLJobHistoryKey m) dbs tables autoIDs history' rs re rp := by
  refine ⟨?_, fun d => ?_, by simpa using hm, ?_⟩
  · rw [Function.update_of_ne mDBs_ne_mDDLJobHistoryKey]
    exact h.dbs
  · rw [Function.update_of_ne (dbKey_ne_mDDLJobHistoryKey d)]
    exact h.tables d
  · rw [Function.update_of_ne mDDLJobHistoryKey_ne_mDDLJobReorgKey.symm]
    exact h.reorg

theorem HashesStore.setReorg (h : HashesStore hash dbs tables autoIDs history rs re rp) {m : Fields}
    {rs' re' rp' : Int64 → Option Int64} (hm : ReorgStore m rs' re' rp') :
    HashesStore (Function.update hash mDDLJobReorgKey m) dbs tables autoIDs history rs' re' rp' := by
  refine ⟨?_, fun d => ?_, ?_, by simpa using hm⟩
  · rw [Function.update_of_ne mDBs_ne_mDDLJobReorgKey]
    exact h.dbs
  · rw [Function.update_of_ne (dbKey_ne_mDDLJobReorgKey d)]
    exact h.tables d
  · rw [Function.update_of_ne mDDLJobHistoryKey_ne_mDDLJobReorgKey]
    exact h.history

end Hashes

/-! ### Writes to the content -/

namespace Stores

variable {c : Content} {K : Catalog}

theorem setGlobalID (h : Stores c K) (n : Int64) :
    Stores (c.setString mNextGlobalIDKey (some (intText n))) { K with globalID := some n } := by
  obtain ⟨hgid, hver, hboot, hdiffs⟩ := h.strings
  refine ⟨⟨by simp [Content.setString], ?_, ?_, ?_⟩, h.hashes, h.queues⟩
  · simpa [Content.setString, Function.update_of_ne mNextGlobalIDKey_ne_mSchemaVersionKey.symm] using hver
  · simpa [Content.setString, Function.update_of_ne mNextGlobalIDKey_ne_mBootstrapKey.symm] using hboot
  · exact hdiffs.update_of_ne (fun v => schemaDiffKey_ne_mNextGlobalIDKey v) _

theorem setSchemaVersion (h : Stores c K) (n : Int64) :
    Stores (c.setString mSchemaVersionKey (some (intText n))) { K with schemaVersion := some n } := by
  obtain ⟨hgid, hver, hboot, hdiffs⟩ := h.strings
  refine ⟨⟨?_, by simp [Content.setString], ?_, ?_⟩, h.hashes, h.queues⟩
  · simpa [Content.setString, Function.update_of_ne mNextGlobalIDKey_ne_mSchemaVersionKey] using hgid
  · simpa [Content.setString, Function.update_of_ne mSchemaVersionKey_ne_mBootstrapKey.symm] using hboot
  · exact hdiffs.update_of_ne (fun v => schemaDiffKey_ne_mSchemaVersionKey v) _

theorem setBootstrapVersion (h : Stores c K) (n : Int64) :
    Stores (c.setString mBootstrapKey (some (intText n))) { K with bootstrapVersion := some n } := by
  obtain ⟨hgid, hver, hboot, hdiffs⟩ := h.strings
  refine ⟨⟨?_, ?_, by simp [Content.setString], ?_⟩, h.hashes, h.queues⟩
  · simpa [Content.setString, Function.update_of_ne mNextGlobalIDKey_ne_mBootstrapKey] using hgid
  · simpa [Content.setString, Function.update_of_ne mSchemaVersionKey_ne_mBootstrapKey] using hver
  · exact hdiffs.update_of_ne (fun v => schemaDiffKey_ne_mBootstrapKey v) _

theorem setDiff (h : Stores c K) (version : Int64) (diff : Blob) :
    Stores (c.setString (schemaDiffKey version) (some diff.bytes))
      { K with diffs := Function.update K.diffs version (some diff) } := by
  obtain ⟨hgid, hver, hboot, hdiffs⟩ := h.strings
  refine ⟨⟨?_, ?_, ?_, hdiffs.update schemaDiffKey_injective version (some diff)⟩, h.hashes, h.queues⟩
  · simpa [Content.setString, Function.update_of_ne (schemaDiffKey_ne_mNextGlobalIDKey version).symm]
      using hgid
  · simpa [Content.setString, Function.update_of_ne (schemaDiffKey_ne_mSchemaVersionKey version).symm]
      using hver
  · simpa [Content.setString, Function.update_of_ne (schemaDiffKey_ne_mBootstrapKey version).symm]
      using hboot

theorem setDB (h : Stores c K) (dbID : Int64) (info : Option Blob) :
    Stores (c.setField mDBs (dbKey dbID) (info.map Blob.bytes)) (K.setDB dbID info) :=
  ⟨h.strings, h.hashes.setDBs (h.hashes.dbs.set dbID info), h.queues⟩

theorem setTable (h : Stores c K) (dbID tableID : Int64) (info : Option Blob) :
    Stores (c.setField (dbKey dbID) (tableKey tableID) (info.map Blob.bytes))
      (K.setTable dbID tableID info) := by
  have hh := h.hashes.setTables dbID ((h.hashes.tables dbID).setTable tableID info)
  rw [Function.update_eq_self] at hh
  exact ⟨h.strings, hh, h.queues⟩

theorem setAutoID (h : Stores c K) (dbID tableID : Int64) (autoID : Option Int64) :
    Stores (c.setField (dbKey dbID) (autoTableIDKey tableID) (autoID.map intText))
      (K.setAutoID dbID tableID autoID) := by
  have hh := h.hashes.setTables dbID ((h.hashes.tables dbID).setAutoID tableID autoID)
  rw [Function.update_eq_self] at hh
  exact ⟨h.strings, hh, h.queues⟩

/-- `DropDatabase` clears the hash of the database, then deletes its field of `DBs`. -/
theorem dropDB (h : Stores c K) (dbID : Int64) :
    Stores ((c.clearHash (dbKey dbID)).setField mDBs (dbKey dbID) none) (K.dropDB dbID) := by
  have hclear := h.hashes.setTables dbID tablesStore_none
  exact ⟨h.strings, hclear.setDBs (hclear.dbs.set dbID none), h.queues⟩

theorem setQueue (h : Stores c K) (key : List (Fin 256)) (jobs : List Blob) :
    Stores (c.setList key (jobs.map Blob.bytes)) (K.setQueue key jobs) := by
  refine ⟨h.strings, h.hashes, fun key' => ?_⟩
  by_cases hk : key' = key
  · subst hk
    simp [Content.setList]
  · simpa [Content.setList, hk] using h.queues key'

theorem setHistory (h : Stores c K) (jobID : Int64) (job : Blob) :
    Stores (c.setField mDDLJobHistoryKey (jobIDKey jobID) (some job.bytes))
      { K with history := Function.update K.history jobID (some job) } :=
  ⟨h.strings, h.hashes.setHistory (h.hashes.history.set jobID job), h.queues⟩

theorem setReorgStart (h : Stores c K) (jobID : Int64) (v : Option Int64) :
    Stores (c.setField mDDLJobReorgKey (reorgJobStartHandle jobID) (v.map intText))
      { K with reorgStart := Function.update K.reorgStart jobID v } :=
  ⟨h.strings, h.hashes.setReorg (h.hashes.reorg.setStart jobID v), h.queues⟩

theorem setReorgEnd (h : Stores c K) (jobID : Int64) (v : Option Int64) :
    Stores (c.setField mDDLJobReorgKey (reorgJobEndHandle jobID) (v.map intText))
      { K with reorgEnd := Function.update K.reorgEnd jobID v } :=
  ⟨h.strings, h.hashes.setReorg (h.hashes.reorg.setEnd jobID v), h.queues⟩

theorem setReorgPhysical (h : Stores c K) (jobID : Int64) (v : Option Int64) :
    Stores (c.setField mDDLJobReorgKey (reorgJobPhysicalTableID jobID) (v.map intText))
      { K with reorgPhysical := Function.update K.reorgPhysical jobID v } :=
  ⟨h.strings, h.hashes.setReorg (h.hashes.reorg.setPhysical jobID v), h.queues⟩

end Stores

end TinySql.Meta
