import TinySql.Meta.Refinement
import TinySql.Meta.Invariants

/-!
# What meta's reads return

On a meta that represents a catalog, each reading call of `meta.go` returns what the catalog holds:
the counters and the bootstrap version from the decimal text the last write left, `0` where none
was written; the records of databases, tables, finished jobs and schema diffs; the reorganization
handles of a job; the DDL job queue by its length, by index and as a whole, from its right end.
`ListDatabases` and `ListTables` list each database, and each table of a database, once, in the
order of the bytes of their keys (`Represents.listDatabases`, `Represents.listTables`): the hash
under meta holds the catalog at the keys of its IDs only, so a listing of the hash is a listing of
the catalog (`Enumerates.view`).
-/

set_option linter.dupNamespace false

namespace TinySql.Meta

open TinySql.Structure TinySql.Lib

/-- `GetGlobalID` or `GetSchemaVersion`, by the counter read. -/
def Meta.getCounter (m : Meta) : Counter → Except MetaError Int64
  | .globalID => m.getGlobalID
  | .schemaVersion => m.getSchemaVersion

section Ints

variable {t : TxStructure} {v : Option Int64}

/-- `GetInt64` reads back the int64 the last write left as decimal text, and `0` where none. -/
theorem getInt64_of_map_intText {key : List (Fin 256)} (h : t.get key = v.map intText) :
    t.getInt64 key = .ok (v.getD 0) := by
  cases v with
  | none => simp [TxStructure.getInt64, h]
  | some n => simp [TxStructure.getInt64, h, intText, Types.parseInt10_formatInt]

theorem hGetInt64_of_map_intText {key field : List (Fin 256)} (h : t.hGet key field = v.map intText) :
    t.hGetInt64 key field = .ok (v.getD 0) := by
  cases v with
  | none => simp [TxStructure.hGetInt64, h]
  | some n => simp [TxStructure.hGetInt64, h, intText, Types.parseInt10_formatInt]

end Ints

/-- A run that creates the database `1` with the table `2` and its auto ID, enqueues two DDL jobs
and writes the reorganization handles of the job `4`. -/
def catalogCalls : List (MetaOp Blob) :=
  [.createDatabase 1 ⟨[7], by decide⟩, .createTableAndSetAutoID 1 2 ⟨[8], by decide⟩ 5,
    .enQueueDDLJob ⟨[9], by decide⟩ [], .enQueueDDLJob ⟨[10], by decide⟩ [],
    .updateDDLReorgHandle 4 11 12 13]

/-- That run succeeds from an empty store, and its meta represents the catalog it writes. -/
theorem represents_catalogCalls :
    ∃ m' K', (newMeta ⟨[]⟩ []).run (catalogCalls.map (MetaOp.map Blob.bytes)) =
        .ok ([.done, .done, .done, .done, .done], m') ∧
      Catalog.empty.run (newMeta ⟨[]⟩ []).jobListKey catalogCalls =
        .ok ([.done, .done, .done, .done, .done], K') ∧
      Represents m' K' (catalogCalls.map MetaOp.size).sum := by
  obtain ⟨m', hrun⟩ : ∃ m', (newMeta ⟨[]⟩ []).run (catalogCalls.map (MetaOp.map Blob.bytes)) =
      .ok ([.done, .done, .done, .done, .done], m') := ⟨_, rfl⟩
  obtain ⟨K', hK, -, hrep⟩ := newMeta_run_represents (by decide) hrun
  exact ⟨m', K', hrun, hK, hrep⟩

section Reads

variable {m : Meta} {K : Catalog} {b : Nat}

theorem Represents.getCounter (h : Represents m K b) (x : Counter) :
    m.getCounter x = .ok (K.counter x) := by
  obtain ⟨c, hr, hs⟩ := h
  cases x
  · rw [Meta.getCounter, Meta.getGlobalID,
      getInt64_of_map_intText ((hr.get _).trans hs.strings.globalID), ofStructure_ok]
    rfl
  · rw [Meta.getCounter, Meta.getSchemaVersion,
      getInt64_of_map_intText ((hr.get _).trans hs.strings.schemaVersion), ofStructure_ok]
    rfl

theorem Represents.getBootstrapVersion (h : Represents m K b) :
    m.getBootstrapVersion = .ok (K.bootstrapVersion.getD 0) := by
  obtain ⟨c, hr, hs⟩ := h
  rw [Meta.getBootstrapVersion,
    getInt64_of_map_intText ((hr.get _).trans hs.strings.bootstrapVersion), ofStructure_ok]

theorem Represents.getDatabase (h : Represents m K b) (dbID : Int64) :
    m.getDatabase dbID = (K.dbs dbID).map Blob.bytes := by
  obtain ⟨c, hr, hs⟩ := h
  rw [Meta.getDatabase, hr.hGet, hs.hashes.dbs.dbs dbID]

/-- `GetTable` fails for a database that does not exist, and reads the table's record otherwise. -/
theorem Represents.getTable (h : Represents m K b) (dbID tableID : Int64) :
    m.getTable dbID tableID =
      if (K.dbs dbID).isSome then .ok ((K.tables dbID tableID).map Blob.bytes) else .error .dbNotExists := by
  obtain ⟨c, hr, hs⟩ := h
  simp only [Meta.getTable, checkDBExists_eq hr hs, hr.hGet, (hs.hashes.tables dbID).tables tableID]
  cases K.dbs dbID <;> rfl

theorem getTable_catalogCalls :
    ∃ m' K', (newMeta ⟨[]⟩ []).run (catalogCalls.map (MetaOp.map Blob.bytes)) =
        .ok ([.done, .done, .done, .done, .done], m') ∧
      Catalog.empty.run (newMeta ⟨[]⟩ []).jobListKey catalogCalls =
        .ok ([.done, .done, .done, .done, .done], K') ∧
      m'.getTable 1 2 = if (K'.dbs 1).isSome then .ok ((K'.tables 1 2).map Blob.bytes)
        else .error .dbNotExists := by
  obtain ⟨m', K', hrun, hK, hrep⟩ := represents_catalogCalls
  exact ⟨m', K', hrun, hK, Represents.getTable hrep 1 2⟩

theorem Represents.getAutoTableID (h : Represents m K b) (dbID tableID : Int64) :
    m.getAutoTableID dbID tableID = .ok ((K.autoIDs dbID tableID).getD 0) := by
  obtain ⟨c, hr, hs⟩ := h
  rw [Meta.getAutoTableID,
    hGetInt64_of_map_intText ((hr.hGet _ _).trans ((hs.hashes.tables dbID).autoIDs tableID)),
    ofStructure_ok]

theorem Represents.getHistoryDDLJob (h : Represents m K b) (id : Int64) :
    m.getHistoryDDLJob id = (K.history id).map Blob.bytes := by
  obtain ⟨c, hr, hs⟩ := h
  rw [Meta.getHistoryDDLJob, Meta.getHistoryDDLJobAt, hr.hGet, hs.hashes.history.jobs id]

/-- `GetSchemaDiff` reads the diff of the version; a diff written is never empty. -/
theorem Represents.getSchemaDiff (h : Represents m K b) (schemaVersion : Int64) :
    m.getSchemaDiff schemaVersion = (K.diffs schemaVersion).map Blob.bytes := by
  obtain ⟨c, hr, hs⟩ := h
  rw [Meta.getSchemaDiff, hr.get, hs.strings.diffs schemaVersion]
  cases K.diffs schemaVersion with
  | none => rfl
  | some diff => simp [List.length_eq_zero_iff, diff.ne_nil]

/-- `GetDDLReorgHandle` reads the three handles of the job, and for a physical table ID of `0` the
job's end handle, or `MaxInt64`, and table. -/
theorem Represents.getDDLReorgHandle (h : Represents m K b) (jobID : Int64)
    (reorgEndHandle : Option Int64) (tableID : Int64) :
    m.getDDLReorgHandle jobID reorgEndHandle tableID =
      .ok (if (K.reorgPhysical jobID).getD 0 = 0 then
          ((K.reorgStart jobID).getD 0, reorgEndHandle.getD maxInt64, tableID)
        else ((K.reorgStart jobID).getD 0, (K.reorgEnd jobID).getD 0, (K.reorgPhysical jobID).getD 0)) := by
  obtain ⟨c, hr, hs⟩ := h
  have hreorg := hs.hashes.reorg
  simp only [Meta.getDDLReorgHandle,
    hGetInt64_of_map_intText ((hr.hGet _ _).trans (hreorg.startHandle jobID)),
    hGetInt64_of_map_intText ((hr.hGet _ _).trans (hreorg.endHandle jobID)),
    hGetInt64_of_map_intText ((hr.hGet _ _).trans (hreorg.physical jobID)), ofStructure_ok,
    except_bind_ok]
  split <;> rfl

theorem getDDLReorgHandle_catalogCalls :
    ∃ m' K', (newMeta ⟨[]⟩ []).run (catalogCalls.map (MetaOp.map Blob.bytes)) =
        .ok ([.done, .done, .done, .done, .done], m') ∧
      Catalog.empty.run (newMeta ⟨[]⟩ []).jobListKey catalogCalls =
        .ok ([.done, .done, .done, .done, .done], K') ∧
      m'.getDDLReorgHandle 4 none 5 =
        .ok (if (K'.reorgPhysical 4).getD 0 = 0 then
            ((K'.reorgStart 4).getD 0, (none : Option Int64).getD maxInt64, 5)
          else ((K'.reorgStart 4).getD 0, (K'.reorgEnd 4).getD 0, (K'.reorgPhysical 4).getD 0)) := by
  obtain ⟨m', K', hrun, hK, hrep⟩ := represents_catalogCalls
  exact ⟨m', K', hrun, hK, Represents.getDDLReorgHandle hrep 4 none 5⟩

theorem Represents.ddlJobQueueLen (h : Represents m K b) (jobListKeys : List (List (Fin 256))) :
    m.ddlJobQueueLen jobListKeys = .ok (Int64.ofNat (K.queues (m.listKey jobListKeys)).length) := by
  obtain ⟨c, hr, hs⟩ := h
  rw [Meta.ddlJobQueueLen, hr.lLen, hs.queues, List.length_map, ofList_ok]

/-- `GetAllDDLJobsInQueue` lists the queue from its right end. -/
theorem Represents.getAllDDLJobsInQueue (h : Represents m K b) (hb : b < 2 ^ 63)
    (jobListKeys : List (List (Fin 256))) :
    m.getAllDDLJobsInQueue jobListKeys = .ok ((K.queues (m.listKey jobListKeys)).map Blob.bytes).reverse := by
  obtain ⟨c, hr, hs⟩ := h
  rw [Meta.getAllDDLJobsInQueue, hr.lGetAll hb, hs.queues, ofList_ok]

/-- `GetDDLJobByIdx` reads the job at the position the index names, counted from the left for an
index from `0` and from the right for a negative one. -/
theorem Represents.getDDLJobByIdx (h : Represents m K b) (hb : b < 2 ^ 63) (index : Int64)
    (jobListKeys : List (List (Fin 256))) :
    m.getDDLJobByIdx index jobListKeys =
      .ok ((listPosition (K.queues (m.listKey jobListKeys)).length index).bind fun j =>
        ((K.queues (m.listKey jobListKeys))[j]?).map Blob.bytes) := by
  obtain ⟨c, hr, hs⟩ := h
  rw [Meta.getDDLJobByIdx, Meta.getDDLJob, hr.lIndex hb, hs.queues, List.length_map, ofList_ok]
  simp [List.getElem?_map]

theorem getDDLJobByIdx_catalogCalls :
    ∃ m' K', (newMeta ⟨[]⟩ []).run (catalogCalls.map (MetaOp.map Blob.bytes)) =
        .ok ([.done, .done, .done, .done, .done], m') ∧
      Catalog.empty.run (newMeta ⟨[]⟩ []).jobListKey catalogCalls =
        .ok ([.done, .done, .done, .done, .done], K') ∧
      (catalogCalls.map MetaOp.size).sum < 2 ^ 63 ∧
      m'.getDDLJobByIdx (-1) [] =
        .ok ((listPosition (K'.queues (m'.listKey [])).length (-1)).bind fun j =>
          ((K'.queues (m'.listKey []))[j]?).map Blob.bytes) := by
  obtain ⟨m', K', hrun, hK, hrep⟩ := represents_catalogCalls
  exact ⟨m', K', hrun, hK, by decide, Represents.getDDLJobByIdx hrep (by decide) (-1) []⟩

/-- `ListDatabases` lists every database once, in the order of the bytes of its key. -/
theorem Represents.listDatabases (h : Represents m K b) :
    ∃ ds infos, m.listDatabases = .ok infos ∧
      List.Forall₂ (fun d info => (K.dbs d).map Blob.bytes = some info) ds infos ∧
      ds.Pairwise (fun d d' => compare (dbKey d) (dbKey d') = .lt) ∧ ∀ d, d ∈ ds ↔ (K.dbs d).isSome := by
  obtain ⟨c, hr, hs⟩ := h
  obtain ⟨ps, hps, henum, -⟩ := hr.hGetAll mDBs
  obtain ⟨ds, hds, hsorted, hmem⟩ := henum.view hs.hashes.dbs.only hs.hashes.dbs.dbs dbKey_injective
  exact ⟨ds, ps.map Prod.snd, by simp [Meta.listDatabases, hps], hds, hsorted, hmem⟩

theorem listDatabases_catalogCalls :
    ∃ m' K', (newMeta ⟨[]⟩ []).run (catalogCalls.map (MetaOp.map Blob.bytes)) =
        .ok ([.done, .done, .done, .done, .done], m') ∧
      Catalog.empty.run (newMeta ⟨[]⟩ []).jobListKey catalogCalls =
        .ok ([.done, .done, .done, .done, .done], K') ∧
      ∃ ds infos, m'.listDatabases = .ok infos ∧
        List.Forall₂ (fun d info => (K'.dbs d).map Blob.bytes = some info) ds infos ∧
        ds.Pairwise (fun d d' => compare (dbKey d) (dbKey d') = .lt) ∧
        ∀ d, d ∈ ds ↔ (K'.dbs d).isSome := by
  obtain ⟨m', K', hrun, hK, hrep⟩ := represents_catalogCalls
  exact ⟨m', K', hrun, hK, Represents.listDatabases hrep⟩

/-- `ListTables` of a database that exists lists every table of it once, in the order of the bytes
of its key: the auto IDs in the same hash are not listed, their fields do not start with `Table`. -/
theorem Represents.listTables (h : Represents m K b) (dbID : Int64) (hdb : (K.dbs dbID).isSome) :
    ∃ ts infos, m.listTables dbID = .ok infos ∧
      List.Forall₂ (fun t info => (K.tables dbID t).map Blob.bytes = some info) ts infos ∧
      ts.Pairwise (fun t t' => compare (tableKey t) (tableKey t') = .lt) ∧
      ∀ t, t ∈ ts ↔ (K.tables dbID t).isSome := by
  obtain ⟨c, hr, hs⟩ := h
  have htables := hs.hashes.tables dbID
  obtain ⟨ps, hps, henum, -⟩ := hr.hGetAll (dbKey dbID)
  let isTable : List (Fin 256) → Bool := (asciiBytes mTablePrefix).isPrefixOf
  -- the fields that start with `Table` are the tables' keys
  have hcovers : Covers (fun f => if isTable f then c.hash (dbKey dbID) f else none) (Set.range tableKey) := by
    intro f hf
    by_cases hp : isTable f
    · simp only [hp, if_true] at hf
      rcases htables.only f hf with ht | ⟨t, rfl⟩
      · exact ht
      · exact absurd hp (by simp [isTable, isPrefixOf_autoTableIDKey])
    · simp only [hp, Bool.false_eq_true, if_false] at hf
      exact absurd rfl hf
  have hencodes : Encodes (fun f => if isTable f then c.hash (dbKey dbID) f else none) tableKey Blob.bytes
      (K.tables dbID) := fun t => by
    simp only [isTable, isPrefixOf_tableKey, if_true]
    exact htables.tables t
  obtain ⟨ts, hts, hsorted, hmem⟩ := (henum.filter isTable).view hcovers hencodes tableKey_injective
  refine ⟨ts, _, ?_, hts, hsorted, hmem⟩
  rw [Option.isSome_iff_ne_none] at hdb
  simp [Meta.listTables, checkDBExists_eq hr hs, hdb, hps, isTable]

theorem listTables_catalogCalls :
    ∃ m' K', (newMeta ⟨[]⟩ []).run (catalogCalls.map (MetaOp.map Blob.bytes)) =
        .ok ([.done, .done, .done, .done, .done], m') ∧
      Catalog.empty.run (newMeta ⟨[]⟩ []).jobListKey catalogCalls =
        .ok ([.done, .done, .done, .done, .done], K') ∧ (K'.dbs 1).isSome ∧
      ∃ ts infos, m'.listTables 1 = .ok infos ∧
        List.Forall₂ (fun t info => (K'.tables 1 t).map Blob.bytes = some info) ts infos ∧
        ts.Pairwise (fun t t' => compare (tableKey t) (tableKey t') = .lt) ∧
        ∀ t, t ∈ ts ↔ (K'.tables 1 t).isSome := by
  obtain ⟨m', K', hrun, hK, hrep⟩ := represents_catalogCalls
  -- the run created the database `1`
  have hdb : (K'.dbs 1).isSome := by
    have hcreated : (Catalog.empty.run (newMeta ⟨[]⟩ []).jobListKey catalogCalls).map
        (fun p => (p.2.dbs 1).isSome) = .ok true := rfl
    rw [hK] at hcreated
    exact Except.ok.inj hcreated
  exact ⟨m', K', hrun, hK, hdb, Represents.listTables hrep 1 hdb⟩

end Reads

end TinySql.Meta
