import TinySql.Structure.List

set_option linter.dupNamespace false

/-!
# The meta structure

`meta/meta.go`. Meta keeps the catalog of a store in a `TxStructure` under the prefix `m`:

* the strings `NextGlobalID`, `SchemaVersionKey` and `BootstrapKey`, each an int64 as decimal
  text, and `Diff:v`, the schema diff of version `v`;
* the hash `DBs`, whose field `DB:d` holds the record of the database `d`;
* the hash `DB:d`, whose field `Table:t` holds the record of the table `t` and `TID:t` its auto ID;
* the lists of DDL jobs, the default one `DDLJobList` and `DDLJobAddIdxList`;
* the hash `DDLJobHistory` of finished jobs by the eight bytes of their ID, and the hash
  `DDLJobReorg` of the reorganization handles of a job.

The records are `json.Marshal` of `model.DBInfo`, `model.TableInfo` and `model.SchemaDiff`, and
`Job.Encode` of a `model.Job`; they are given here as their bytes, and the reads return the bytes
they find. `json.Unmarshal` and `Job.Decode` are a parameter where the order of the result depends
on them (`decodeAndSortJob`). `json.Marshal` of these records does not fail.

`GenGlobalIDs` lists the IDs from `origID + 1` up to `newID`; at `newID = MaxInt64` its loop never
stops, since `i++` wraps below `newID` (`genGlobalIDsLoop`).
-/

namespace TinySql.Meta

open TinySql.Structure TinySql.Codec

/-- `[]byte(s)` of an ASCII string. -/
def asciiBytes (s : String) : List (Fin 256) :=
  s.toList.map fun c => Fin.ofNat 256 c.toNat

def mMetaPrefix : List (Fin 256) := asciiBytes "m"
def mNextGlobalIDKey : List (Fin 256) := asciiBytes "NextGlobalID"
def mSchemaVersionKey : List (Fin 256) := asciiBytes "SchemaVersionKey"
def mDBs : List (Fin 256) := asciiBytes "DBs"
def mDBPrefix : String := "DB"
def mTablePrefix : String := "Table"
def mTableIDPrefix : String := "TID"
def mBootstrapKey : List (Fin 256) := asciiBytes "BootstrapKey"
def mSchemaDiffPrefix : String := "Diff"

def mDDLJobListKey : List (Fin 256) := asciiBytes "DDLJobList"
def mDDLJobAddIdxList : List (Fin 256) := asciiBytes "DDLJobAddIdxList"
def mDDLJobHistoryKey : List (Fin 256) := asciiBytes "DDLJobHistory"
def mDDLJobReorgKey : List (Fin 256) := asciiBytes "DDLJobReorg"

/-- `DefaultJobListKey` keeps every DDL job but those adding an index. -/
def defaultJobListKey : List (Fin 256) := mDDLJobListKey
/-- `AddIndexJobListKey` keeps the jobs adding an index. -/
def addIndexJobListKey : List (Fin 256) := mDDLJobAddIdxList

/-- `fmt.Sprintf("%s:%d", p, id)`. -/
def idKey (p : String) (id : Int64) : List (Fin 256) :=
  asciiBytes p ++ asciiBytes ":" ++ Expression.formatInt id.toInt

def dbKey (dbID : Int64) : List (Fin 256) := idKey mDBPrefix dbID
def autoTableIDKey (tableID : Int64) : List (Fin 256) := idKey mTableIDPrefix tableID
def tableKey (tableID : Int64) : List (Fin 256) := idKey mTablePrefix tableID
def schemaDiffKey (schemaVersion : Int64) : List (Fin 256) := idKey mSchemaDiffPrefix schemaVersion

/-- `jobIDKey`: the ID as eight bytes, big-endian. -/
def jobIDKey (id : Int64) : List (Fin 256) :=
  bigEndian id.toUInt64

def reorgJobStartHandle (id : Int64) : List (Fin 256) := jobIDKey id
def reorgJobEndHandle (id : Int64) : List (Fin 256) := jobIDKey id ++ asciiBytes "_end"
def reorgJobPhysicalTableID (id : Int64) : List (Fin 256) := jobIDKey id ++ asciiBytes "_pid"

inductive MetaError
  | dbExists
  | dbNotExists
  | tableExists
  | tableNotExists
  /-- An error of the structure under meta. -/
  | txn (e : ListError)
  /-- An error of `json.Unmarshal` or `Job.Decode`. -/
  | decode (msg : String)
  deriving DecidableEq, Repr

/-- The errors of the size limits of the membuffer. -/
def MetaError.isTooLarge : MetaError → Bool
  | .txn e => e.isTooLarge
  | _ => false

def ofStructure {α : Type} (x : Except StructureError α) : Except MetaError α :=
  x.mapError fun e => .txn (.structure e)

def ofList {α : Type} (x : Except ListError α) : Except MetaError α :=
  x.mapError .txn

@[simp] theorem ofStructure_ok {α : Type} (a : α) : ofStructure (.ok a) = .ok a := rfl

@[simp] theorem ofStructure_error {α : Type} (e : StructureError) :
    ofStructure (.error e : Except StructureError α) = .error (.txn (.structure e)) := rfl

@[simp] theorem ofList_ok {α : Type} (a : α) : ofList (.ok a) = .ok a := rfl

@[simp] theorem ofList_error {α : Type} (e : ListError) :
    ofList (.error e : Except ListError α) = .error (.txn e) := rfl

@[simp] theorem except_map_ok {ε α β : Type} (f : α → β) (a : α) :
    (f <$> (Except.ok a : Except ε α)) = .ok (f a) := rfl

@[simp] theorem except_map_error {ε α β : Type} (f : α → β) (e : ε) :
    (f <$> (Except.error e : Except ε α)) = .error e := rfl

/-- `Meta`: the structure under `m`, and the key of the job list it handles. -/
structure Meta where
  txn : TxStructure
  jobListKey : List (Fin 256)
  deriving DecidableEq, Repr

/-- `NewMeta` over the store of a transaction, for the first of the job list keys given, or the
default one. -/
def newMeta (store : Store) (jobListKeys : List (List (Fin 256))) : Meta :=
  ⟨⟨store, newMemDbBuffer, mMetaPrefix, true⟩, jobListKeys.headD defaultJobListKey⟩

/-- `NewSnapshotMeta`: a structure that refuses writes. -/
def newSnapshotMeta (store : Store) : Meta :=
  ⟨⟨store, newMemDbBuffer, mMetaPrefix, false⟩, []⟩

/-- The loop of `GenGlobalIDs`, `for i := origID + 1; i <= newID; i++`, for at most `fuel` rounds:
`none` when they run out. -/
def genGlobalIDsLoop (newID : Int64) : Nat → Int64 → List Int64 → Option (List Int64)
  | 0, _, _ => none
  | fuel + 1, i, ids => if i ≤ newID then genGlobalIDsLoop newID fuel (i + 1) (ids ++ [i]) else some ids

/-- `decodeAndSortJob`: the jobs decoded, sorted by ID. -/
def decodeAndSortJob {J : Type} (decode : List (Fin 256) → Except String J) (jobID : J → Int64)
    (jobPairs : List (List (Fin 256) × List (Fin 256))) : Except MetaError (List J) := do
  let jobs ← (jobPairs.mapM fun pair => decode pair.2).mapError .decode
  return jobs.mergeSort fun a b => jobID a ≤ jobID b

namespace Meta

variable (m : Meta)

def withTxn (t : TxStructure) : Meta :=
  { m with txn := t }

/-- The list key of the calls that take `jobListKeys ...JobListKeyType`. -/
def listKey (jobListKeys : List (List (Fin 256))) : List (Fin 256) :=
  jobListKeys.headD m.jobListKey

/-! ### IDs and versions -/

/-- `Inc` of a counter under meta. -/
def inc (key : List (Fin 256)) (step : Int64) : Except MetaError (Int64 × Meta) := do
  let (n, t) ← ofStructure (m.txn.inc key step)
  return (n, m.withTxn t)

def genGlobalID : Except MetaError (Int64 × Meta) :=
  m.inc mNextGlobalIDKey 1

/-- `GenGlobalIDs(n)`, for the length `n` its callers pass. -/
def genGlobalIDs (n : Nat) : Except MetaError (Option (List Int64) × Meta) := do
  let (newID, m) ← m.inc mNextGlobalIDKey (Int64.ofNat n)
  let origID := newID - Int64.ofNat n
  return (genGlobalIDsLoop newID (2 ^ 64) (origID + 1) [], m)

def getGlobalID : Except MetaError Int64 :=
  ofStructure (m.txn.getInt64 mNextGlobalIDKey)

def getSchemaVersion : Except MetaError Int64 :=
  ofStructure (m.txn.getInt64 mSchemaVersionKey)

def genSchemaVersion : Except MetaError (Int64 × Meta) :=
  m.inc mSchemaVersionKey 1

/-! ### Databases and tables -/

/-- The four checks: a field of a hash, present or missing, where `failIfPresent` says which of
the two fails with `err`. -/
def checkField (key field : List (Fin 256)) (failIfPresent : Bool) (err : MetaError) :
    Except MetaError Unit :=
  if (m.txn.hGet key field).isSome = failIfPresent then .error err else .ok ()

def checkDBExists (dbKey : List (Fin 256)) : Except MetaError Unit :=
  m.checkField mDBs dbKey false .dbNotExists

def checkDBNotExists (dbKey : List (Fin 256)) : Except MetaError Unit :=
  m.checkField mDBs dbKey true .dbExists

def checkTableExists (dbKey tableKey : List (Fin 256)) : Except MetaError Unit :=
  m.checkField dbKey tableKey false .tableNotExists

def checkTableNotExists (dbKey tableKey : List (Fin 256)) : Except MetaError Unit :=
  m.checkField dbKey tableKey true .tableExists

/-- `HSet` under meta. -/
def hSet (key field value : List (Fin 256)) : Except MetaError Meta :=
  m.withTxn <$> ofStructure (m.txn.hSet key field value)

/-- `HDel` of one field under meta. -/
def hDel (key field : List (Fin 256)) : Except MetaError Meta :=
  m.withTxn <$> ofStructure (m.txn.hDel key [field])

/-- `GenAutoTableIDKeyValue`: the store key and value of a table's auto ID. -/
def genAutoTableIDKeyValue (dbID tableID autoID : Int64) : Key × List (Fin 256) :=
  m.txn.encodeHashAutoIDKeyValue (dbKey dbID) (autoTableIDKey tableID) autoID

def genAutoTableID (dbID tableID step : Int64) : Except MetaError (Int64 × Meta) := do
  let dbKey := dbKey dbID
  m.checkDBExists dbKey
  m.checkTableExists dbKey (tableKey tableID)
  let (n, t) ← ofStructure (m.txn.hInc dbKey (autoTableIDKey tableID) step)
  return (n, m.withTxn t)

def getAutoTableID (dbID tableID : Int64) : Except MetaError Int64 :=
  ofStructure (m.txn.hGetInt64 (dbKey dbID) (autoTableIDKey tableID))

def createDatabase (dbID : Int64) (data : List (Fin 256)) : Except MetaError Meta := do
  let dbKey := dbKey dbID
  m.checkDBNotExists dbKey
  m.hSet mDBs dbKey data

def updateDatabase (dbID : Int64) (data : List (Fin 256)) : Except MetaError Meta := do
  let dbKey := dbKey dbID
  m.checkDBExists dbKey
  m.hSet mDBs dbKey data

def createTableOrView (dbID tableID : Int64) (data : List (Fin 256)) : Except MetaError Meta := do
  let dbKey := dbKey dbID
  m.checkDBExists dbKey
  let tableKey := tableKey tableID
  m.checkTableNotExists dbKey tableKey
  m.hSet dbKey tableKey data

/-- `CreateTableAndSetAutoID`: `HInc` adds `autoID` to an auto ID the table ID may have left. -/
def createTableAndSetAutoID (dbID tableID : Int64) (data : List (Fin 256)) (autoID : Int64) :
    Except MetaError Meta := do
  let m ← m.createTableOrView dbID tableID data
  let (_, t) ← ofStructure (m.txn.hInc (dbKey dbID) (autoTableIDKey tableID) autoID)
  return m.withTxn t

/-- `DropDatabase`, which checks nothing: the hash of the database is cleared, then its field. -/
def dropDatabase (dbID : Int64) : Except MetaError Meta := do
  let dbKey := dbKey dbID
  let t ← ofStructure (m.txn.hClear dbKey)
  (m.withTxn t).hDel mDBs dbKey

def dropTableOrView (dbID tblID : Int64) (delAutoID : Bool) : Except MetaError Meta := do
  let dbKey := dbKey dbID
  m.checkDBExists dbKey
  let tableKey := tableKey tblID
  m.checkTableExists dbKey tableKey
  let m ← m.hDel dbKey tableKey
  if delAutoID then m.hDel dbKey (autoTableIDKey tblID) else return m

def updateTable (dbID tableID : Int64) (data : List (Fin 256)) : Except MetaError Meta := do
  let dbKey := dbKey dbID
  m.checkDBExists dbKey
  let tableKey := tableKey tableID
  m.checkTableExists dbKey tableKey
  m.hSet dbKey tableKey data

/-- `ListTables`: the fields of the database's hash that start with `Table`, in the order of the
hash. -/
def listTables (dbID : Int64) : Except MetaError (List (List (Fin 256))) := do
  let dbKey := dbKey dbID
  m.checkDBExists dbKey
  let res ← ofStructure (m.txn.hGetAll dbKey)
  return (res.filter fun r => (asciiBytes mTablePrefix).isPrefixOf r.1).map (·.2)

def listDatabases : Except MetaError (List (List (Fin 256))) := do
  let res ← ofStructure (m.txn.hGetAll mDBs)
  return res.map (·.2)

def getDatabase (dbID : Int64) : Option (List (Fin 256)) :=
  m.txn.hGet mDBs (dbKey dbID)

def getTable (dbID tableID : Int64) : Except MetaError (Option (List (Fin 256))) := do
  let dbKey := dbKey dbID
  m.checkDBExists dbKey
  return m.txn.hGet dbKey (tableKey tableID)

/-! ### DDL jobs -/

/-- `enQueueDDLJob`: the job pushed at the right end of the list `key`. -/
def enQueueDDLJobAt (key job : List (Fin 256)) : Except MetaError Meta :=
  m.withTxn <$> ofList (m.txn.rPush key [job])

def enQueueDDLJob (job : List (Fin 256)) (jobListKeys : List (List (Fin 256))) :
    Except MetaError Meta :=
  m.enQueueDDLJobAt (m.listKey jobListKeys) job

/-- `deQueueDDLJob`: the job popped from the left end of the list `key`. -/
def deQueueDDLJobAt (key : List (Fin 256)) : Except MetaError (Option (List (Fin 256)) × Meta) := do
  let (job, t) ← ofList (m.txn.lPop key)
  return (job, m.withTxn t)

def deQueueDDLJob : Except MetaError (Option (List (Fin 256)) × Meta) :=
  m.deQueueDDLJobAt m.jobListKey

/-- `getDDLJob`; the default and the check of the job's priority are those of `Job.Decode`. -/
def getDDLJob (key : List (Fin 256)) (index : Int64) : Except MetaError (Option (List (Fin 256))) :=
  ofList (m.txn.lIndex key index)

def getDDLJobByIdx (index : Int64) (jobListKeys : List (List (Fin 256))) :
    Except MetaError (Option (List (Fin 256))) :=
  m.getDDLJob (m.listKey jobListKeys) index

/-- `updateDDLJob`: the job at the index of the list `key` replaced. -/
def updateDDLJobAt (index : Int64) (job key : List (Fin 256)) : Except MetaError Meta :=
  m.withTxn <$> ofList (m.txn.lSet key index job)

def updateDDLJob (index : Int64) (job : List (Fin 256)) (jobListKeys : List (List (Fin 256))) :
    Except MetaError Meta :=
  m.updateDDLJobAt index job (m.listKey jobListKeys)

def ddlJobQueueLen (jobListKeys : List (List (Fin 256))) : Except MetaError Int64 :=
  ofList (m.txn.lLen (m.listKey jobListKeys))

/-- `GetAllDDLJobsInQueue`: the jobs as `LGetAll` lists them, from the right end. -/
def getAllDDLJobsInQueue (jobListKeys : List (List (Fin 256))) :
    Except MetaError (List (List (Fin 256))) :=
  ofList (m.txn.lGetAll (m.listKey jobListKeys))

/-- `addHistoryDDLJob`: the job under its ID in the hash `key`. -/
def addHistoryDDLJobAt (key : List (Fin 256)) (jobID : Int64) (job : List (Fin 256)) :
    Except MetaError Meta :=
  m.hSet key (jobIDKey jobID) job

def addHistoryDDLJob (jobID : Int64) (job : List (Fin 256)) : Except MetaError Meta :=
  m.addHistoryDDLJobAt mDDLJobHistoryKey jobID job

/-- `getHistoryDDLJob`: the job under the ID in the hash `key`. -/
def getHistoryDDLJobAt (key : List (Fin 256)) (id : Int64) : Option (List (Fin 256)) :=
  m.txn.hGet key (jobIDKey id)

def getHistoryDDLJob (id : Int64) : Option (List (Fin 256)) :=
  m.getHistoryDDLJobAt mDDLJobHistoryKey id

def getAllHistoryDDLJobs {J : Type} (decode : List (Fin 256) → Except String J) (jobID : J → Int64) :
    Except MetaError (List J) := do
  let pairs ← ofStructure (m.txn.hGetAll mDDLJobHistoryKey)
  decodeAndSortJob decode jobID pairs

def getLastNHistoryDDLJobs {J : Type} (decode : List (Fin 256) → Except String J)
    (jobID : J → Int64) (num : Int) : Except MetaError (List J) := do
  let pairs ← ofStructure (m.txn.hGetLastN mDDLJobHistoryKey num)
  decodeAndSortJob decode jobID pairs

/-! ### Bootstrap, reorganization, schema diffs -/

def getBootstrapVersion : Except MetaError Int64 :=
  ofStructure (m.txn.getInt64 mBootstrapKey)

def finishBootstrap (version : Int64) : Except MetaError Meta :=
  m.withTxn <$> ofStructure (m.txn.set mBootstrapKey (Expression.formatInt version.toInt))

def updateDDLReorgStartHandle (jobID startHandle : Int64) : Except MetaError Meta :=
  m.hSet mDDLJobReorgKey (reorgJobStartHandle jobID) (Expression.formatInt startHandle.toInt)

def updateDDLReorgHandle (jobID startHandle endHandle physicalTableID : Int64) :
    Except MetaError Meta := do
  let m ← m.hSet mDDLJobReorgKey (reorgJobStartHandle jobID) (Expression.formatInt startHandle.toInt)
  let m ← m.hSet mDDLJobReorgKey (reorgJobEndHandle jobID) (Expression.formatInt endHandle.toInt)
  m.hSet mDDLJobReorgKey (reorgJobPhysicalTableID jobID) (Expression.formatInt physicalTableID.toInt)

/-- `RemoveDDLReorgHandle`: an error of the second or third `HDel` is logged and dropped, and what
that `HDel` wrote stays in the transaction. -/
def removeDDLReorgHandle (jobID : Int64) : Except MetaError Meta := do
  let m ← m.hDel mDDLJobReorgKey (reorgJobStartHandle jobID)
  let m := m.withTxn (m.txn.hDelState mDDLJobReorgKey [reorgJobEndHandle jobID]).1
  let m := m.withTxn (m.txn.hDelState mDDLJobReorgKey [reorgJobPhysicalTableID jobID]).1
  return m

/-- `GetDDLReorgHandle` of a job with the ID, the table ID and the end handle of its `ReorgMeta`, if
it has one. A physical table ID of `0` was written by a version without partitions: the end handle
is then the job's, or `MaxInt64`, and the physical table the job's table. -/
def getDDLReorgHandle (jobID : Int64) (reorgEndHandle : Option Int64) (tableID : Int64) :
    Except MetaError (Int64 × Int64 × Int64) := do
  let startHandle ← ofStructure (m.txn.hGetInt64 mDDLJobReorgKey (reorgJobStartHandle jobID))
  let endHandle ← ofStructure (m.txn.hGetInt64 mDDLJobReorgKey (reorgJobEndHandle jobID))
  let physicalTableID ← ofStructure (m.txn.hGetInt64 mDDLJobReorgKey (reorgJobPhysicalTableID jobID))
  if physicalTableID = 0 then return (startHandle, reorgEndHandle.getD Lib.maxInt64, tableID)
  else return (startHandle, endHandle, physicalTableID)

/-- `GetSchemaDiff`: nothing for a missing or empty value. -/
def getSchemaDiff (schemaVersion : Int64) : Option (List (Fin 256)) :=
  match m.txn.get (schemaDiffKey schemaVersion) with
  | none => none
  | some data => if data.length = 0 then none else some data

def setSchemaDiff (version : Int64) (data : List (Fin 256)) : Except MetaError Meta :=
  m.withTxn <$> ofStructure (m.txn.set (schemaDiffKey version) data)

end Meta

/-! ### Calls -/

/-- The writing calls of `meta.go`, with the records they write as values of `V`. -/
inductive MetaOp (V : Type)
  | genGlobalID
  | genGlobalIDs (n : Nat)
  | genSchemaVersion
  | genAutoTableID (dbID tableID step : Int64)
  | createDatabase (dbID : Int64) (info : V)
  | updateDatabase (dbID : Int64) (info : V)
  | createTableOrView (dbID tableID : Int64) (info : V)
  | createTableAndSetAutoID (dbID tableID : Int64) (info : V) (autoID : Int64)
  | dropDatabase (dbID : Int64)
  | dropTableOrView (dbID tblID : Int64) (delAutoID : Bool)
  | updateTable (dbID tableID : Int64) (info : V)
  | enQueueDDLJob (job : V) (jobListKeys : List (List (Fin 256)))
  | deQueueDDLJob
  | updateDDLJob (index : Int64) (job : V) (jobListKeys : List (List (Fin 256)))
  | addHistoryDDLJob (jobID : Int64) (job : V)
  | finishBootstrap (version : Int64)
  | updateDDLReorgStartHandle (jobID startHandle : Int64)
  | updateDDLReorgHandle (jobID startHandle endHandle physicalTableID : Int64)
  | removeDDLReorgHandle (jobID : Int64)
  | setSchemaDiff (version : Int64) (diff : V)
  deriving DecidableEq, Repr

/-- The records of a call mapped by `f`. -/
def MetaOp.map {V W : Type} (f : V → W) : MetaOp V → MetaOp W
  | .genGlobalID => .genGlobalID
  | .genGlobalIDs n => .genGlobalIDs n
  | .genSchemaVersion => .genSchemaVersion
  | .genAutoTableID dbID tableID step => .genAutoTableID dbID tableID step
  | .createDatabase dbID info => .createDatabase dbID (f info)
  | .updateDatabase dbID info => .updateDatabase dbID (f info)
  | .createTableOrView dbID tableID info => .createTableOrView dbID tableID (f info)
  | .createTableAndSetAutoID dbID tableID info autoID =>
    .createTableAndSetAutoID dbID tableID (f info) autoID
  | .dropDatabase dbID => .dropDatabase dbID
  | .dropTableOrView dbID tblID delAutoID => .dropTableOrView dbID tblID delAutoID
  | .updateTable dbID tableID info => .updateTable dbID tableID (f info)
  | .enQueueDDLJob job jobListKeys => .enQueueDDLJob (f job) jobListKeys
  | .deQueueDDLJob => .deQueueDDLJob
  | .updateDDLJob index job jobListKeys => .updateDDLJob index (f job) jobListKeys
  | .addHistoryDDLJob jobID job => .addHistoryDDLJob jobID (f job)
  | .finishBootstrap version => .finishBootstrap version
  | .updateDDLReorgStartHandle jobID startHandle => .updateDDLReorgStartHandle jobID startHandle
  | .updateDDLReorgHandle jobID s e p => .updateDDLReorgHandle jobID s e p
  | .removeDDLReorgHandle jobID => .removeDDLReorgHandle jobID
  | .setSchemaDiff version diff => .setSchemaDiff version (f diff)

/-- What a call answers: an ID or a version, the IDs of `GenGlobalIDs` (none where its loop does
not stop), a job taken from a queue. -/
inductive MetaReply
  | done
  | id (n : Int64)
  | ids (ids : Option (List Int64))
  | job (job : Option (List (Fin 256)))
  deriving DecidableEq, Repr

namespace Meta

/-- A call, by the function of `meta.go` that makes it. -/
def apply (m : Meta) : MetaOp (List (Fin 256)) → Except MetaError (MetaReply × Meta)
  | .genGlobalID => (fun r => (.id r.1, r.2)) <$> m.genGlobalID
  | .genGlobalIDs n => (fun r => (.ids r.1, r.2)) <$> m.genGlobalIDs n
  | .genSchemaVersion => (fun r => (.id r.1, r.2)) <$> m.genSchemaVersion
  | .genAutoTableID dbID tableID step => (fun r => (.id r.1, r.2)) <$> m.genAutoTableID dbID tableID step
  | .createDatabase dbID info => ((.done, ·)) <$> m.createDatabase dbID info
  | .updateDatabase dbID info => ((.done, ·)) <$> m.updateDatabase dbID info
  | .createTableOrView dbID tableID info => ((.done, ·)) <$> m.createTableOrView dbID tableID info
  | .createTableAndSetAutoID dbID tableID info autoID =>
    ((.done, ·)) <$> m.createTableAndSetAutoID dbID tableID info autoID
  | .dropDatabase dbID => ((.done, ·)) <$> m.dropDatabase dbID
  | .dropTableOrView dbID tblID delAutoID => ((.done, ·)) <$> m.dropTableOrView dbID tblID delAutoID
  | .updateTable dbID tableID info => ((.done, ·)) <$> m.updateTable dbID tableID info
  | .enQueueDDLJob job jobListKeys => ((.done, ·)) <$> m.enQueueDDLJob job jobListKeys
  | .deQueueDDLJob => (fun r => (.job r.1, r.2)) <$> m.deQueueDDLJob
  | .updateDDLJob index job jobListKeys => ((.done, ·)) <$> m.updateDDLJob index job jobListKeys
  | .addHistoryDDLJob jobID job => ((.done, ·)) <$> m.addHistoryDDLJob jobID job
  | .finishBootstrap version => ((.done, ·)) <$> m.finishBootstrap version
  | .updateDDLReorgStartHandle jobID startHandle =>
    ((.done, ·)) <$> m.updateDDLReorgStartHandle jobID startHandle
  | .updateDDLReorgHandle jobID s e p => ((.done, ·)) <$> m.updateDDLReorgHandle jobID s e p
  | .removeDDLReorgHandle jobID => ((.done, ·)) <$> m.removeDDLReorgHandle jobID
  | .setSchemaDiff version diff => ((.done, ·)) <$> m.setSchemaDiff version diff

/-- A run of calls with their answers, up to the first error. -/
def run (m : Meta) : List (MetaOp (List (Fin 256))) → Except MetaError (List MetaReply × Meta)
  | [] => .ok ([], m)
  | op :: ops => do
    let (r, m) ← m.apply op
    let (rs, m) ← run m ops
    return (r :: rs, m)

end Meta

end TinySql.Meta
