import TinySql.Meta.Meta
import TinySql.Structure.Spec

/-!
# The catalog meta keeps

What meta is for, without its keys: a counter of global IDs, one of schema versions and the
bootstrap version; the databases by ID, and the tables of each database by ID with their auto IDs;
the DDL job queues by list key; the finished jobs by ID; the reorganization handles of each job; the
schema diffs by version. A counter or an auto ID that was never written is `none` and reads as `0`.

`Catalog.apply` is what each writing call of `meta.go` does to the catalog and answers, and where it
fails: a database or a table that must exist or must not, and an index outside a queue. The records
are `Blob`s, the bytes of an encoded record, which are never empty.

Over every run of calls the catalog keeps each table and auto ID inside a database that exists
(`Consistent`, `Consistent.run`).
-/

namespace TinySql.Meta

open TinySql.Structure

/-- The bytes of an encoded record: `json.Marshal` of a record and `Job.Encode` are never empty. -/
structure Blob where
  bytes : List (Fin 256)
  ne_nil : bytes ≠ []
  deriving DecidableEq

/-- The IDs from `lo` up to `hi`; none where the loop of `GenGlobalIDs` does not stop, when `hi` is
`MaxInt64` and `lo` not above it. -/
def idsBetween (lo hi : Int64) : Option (List Int64) :=
  if lo ≤ hi ∧ hi = Lib.maxInt64 then none
  else some ((List.range (hi.toInt - lo.toInt + 1).toNat).map fun k => lo + Int64.ofNat k)

structure Catalog where
  globalID : Option Int64
  schemaVersion : Option Int64
  bootstrapVersion : Option Int64
  dbs : Int64 → Option Blob
  tables : Int64 → Int64 → Option Blob
  autoIDs : Int64 → Int64 → Option Int64
  queues : List (Fin 256) → List Blob
  history : Int64 → Option Blob
  reorgStart : Int64 → Option Int64
  reorgEnd : Int64 → Option Int64
  reorgPhysical : Int64 → Option Int64
  diffs : Int64 → Option Blob

namespace Catalog

def empty : Catalog :=
  ⟨none, none, none, fun _ => none, fun _ _ => none, fun _ _ => none, fun _ => [], fun _ => none,
    fun _ => none, fun _ => none, fun _ => none, fun _ => none⟩

variable (K : Catalog)

@[simps]
def setDB (dbID : Int64) (info : Option Blob) : Catalog :=
  { K with dbs := Function.update K.dbs dbID info }

@[simps]
def setTable (dbID tableID : Int64) (info : Option Blob) : Catalog :=
  { K with tables := Function.update K.tables dbID (Function.update (K.tables dbID) tableID info) }

@[simps]
def setAutoID (dbID tableID : Int64) (autoID : Option Int64) : Catalog :=
  { K with autoIDs := Function.update K.autoIDs dbID (Function.update (K.autoIDs dbID) tableID autoID) }

/-- A database dropped with its tables and their auto IDs. -/
@[simps]
def dropDB (dbID : Int64) : Catalog :=
  { K with
    dbs := Function.update K.dbs dbID none
    tables := Function.update K.tables dbID fun _ => none
    autoIDs := Function.update K.autoIDs dbID fun _ => none }

@[simps]
def setQueue (key : List (Fin 256)) (jobs : List Blob) : Catalog :=
  { K with queues := Function.update K.queues key jobs }

/-- The checks of a call on a table: its database exists, and the table exists or not as `present`
says. -/
def checkTable (dbID tableID : Int64) (present : Bool) : Except MetaError Unit :=
  if K.dbs dbID = none then .error .dbNotExists
  else if (K.tables dbID tableID).isSome = present then .ok ()
  else .error (if present then .tableNotExists else .tableExists)

/-- Where a call fails, for the job list `jobListKey` of its meta: a database or a table that must
exist or must not, an index outside a queue that is not empty. -/
def guard (jobListKey : List (Fin 256)) : MetaOp Blob → Except MetaError Unit
  | .genAutoTableID dbID tableID _ | .dropTableOrView dbID tableID _ | .updateTable dbID tableID _ =>
    K.checkTable dbID tableID true
  | .createTableOrView dbID tableID _ | .createTableAndSetAutoID dbID tableID _ _ =>
    K.checkTable dbID tableID false
  | .createDatabase dbID _ => if K.dbs dbID = none then .ok () else .error .dbExists
  | .updateDatabase dbID _ => if K.dbs dbID = none then .error .dbNotExists else .ok ()
  | .updateDDLJob index _ jobListKeys =>
    let jobs := K.queues (jobListKeys.headD jobListKey)
    if jobs ≠ [] ∧ listPosition jobs.length index = none then .error (.txn (.invalidListIndex index))
    else .ok ()
  | _ => .ok ()

/-- What a call that passes its guard does to the catalog, and what it answers. -/
def effect (jobListKey : List (Fin 256)) : MetaOp Blob → MetaReply × Catalog
  | .genGlobalID =>
    let n := K.globalID.getD 0 + 1
    (.id n, { K with globalID := some n })
  | .genGlobalIDs n =>
    let old := K.globalID.getD 0
    (.ids (idsBetween (old + 1) (old + Int64.ofNat n)), { K with globalID := some (old + Int64.ofNat n) })
  | .genSchemaVersion =>
    let n := K.schemaVersion.getD 0 + 1
    (.id n, { K with schemaVersion := some n })
  | .genAutoTableID dbID tableID step =>
    let n := (K.autoIDs dbID tableID).getD 0 + step
    (.id n, K.setAutoID dbID tableID (some n))
  | .createDatabase dbID info | .updateDatabase dbID info => (.done, K.setDB dbID (some info))
  | .createTableOrView dbID tableID info | .updateTable dbID tableID info =>
    (.done, K.setTable dbID tableID (some info))
  | .createTableAndSetAutoID dbID tableID info autoID =>
    let K := K.setTable dbID tableID (some info)
    (.done, K.setAutoID dbID tableID (some ((K.autoIDs dbID tableID).getD 0 + autoID)))
  | .dropDatabase dbID => (.done, K.dropDB dbID)
  | .dropTableOrView dbID tblID delAutoID =>
    let K := K.setTable dbID tblID none
    (.done, if delAutoID then K.setAutoID dbID tblID none else K)
  | .enQueueDDLJob job jobListKeys =>
    let key := jobListKeys.headD jobListKey
    (.done, K.setQueue key (K.queues key ++ [job]))
  | .deQueueDDLJob =>
    let jobs := K.queues jobListKey
    (.job (jobs.head?.map Blob.bytes), K.setQueue jobListKey jobs.tail)
  | .updateDDLJob index job jobListKeys =>
    let key := jobListKeys.headD jobListKey
    let jobs := K.queues key
    match listPosition jobs.length index with
    | none => (.done, K)
    | some j => (.done, K.setQueue key (jobs.set j job))
  | .addHistoryDDLJob jobID job => (.done, { K with history := Function.update K.history jobID (some job) })
  | .finishBootstrap version => (.done, { K with bootstrapVersion := some version })
  | .updateDDLReorgStartHandle jobID startHandle =>
    (.done, { K with reorgStart := Function.update K.reorgStart jobID (some startHandle) })
  | .updateDDLReorgHandle jobID startHandle endHandle physicalTableID =>
    (.done, { K with
      reorgStart := Function.update K.reorgStart jobID (some startHandle)
      reorgEnd := Function.update K.reorgEnd jobID (some endHandle)
      reorgPhysical := Function.update K.reorgPhysical jobID (some physicalTableID) })
  | .removeDDLReorgHandle jobID =>
    (.done, { K with
      reorgStart := Function.update K.reorgStart jobID none
      reorgEnd := Function.update K.reorgEnd jobID none
      reorgPhysical := Function.update K.reorgPhysical jobID none })
  | .setSchemaDiff version diff => (.done, { K with diffs := Function.update K.diffs version (some diff) })

/-- What a call does to the catalog and answers: its effect, where it passes its guard. -/
def apply (jobListKey : List (Fin 256)) (op : MetaOp Blob) : Except MetaError (MetaReply × Catalog) := do
  K.guard jobListKey op
  return K.effect jobListKey op

/-- A run of calls with their answers, up to the first error. -/
def run (K : Catalog) (jobListKey : List (Fin 256)) :
    List (MetaOp Blob) → Except MetaError (List MetaReply × Catalog)
  | [] => .ok ([], K)
  | op :: ops => do
    let (r, K) ← K.apply jobListKey op
    let (rs, K) ← run K jobListKey ops
    return (r :: rs, K)

theorem apply_eq_ok {jobListKey : List (Fin 256)} {op : MetaOp Blob} {r : MetaReply} {K' : Catalog} :
    K.apply jobListKey op = .ok (r, K') ↔
      K.guard jobListKey op = .ok () ∧ K.effect jobListKey op = (r, K') := by
  unfold apply
  cases K.guard jobListKey op with
  | error e => simp [bind, Except.bind]
  | ok u => simp [bind, Except.bind, pure, Except.pure]

/-- A run of calls succeeds when its first call does and the rest of the run does from there. -/
theorem run_cons_eq_ok {jobListKey : List (Fin 256)} {op : MetaOp Blob} {ops : List (MetaOp Blob)}
    {rs : List MetaReply} {K' : Catalog} :
    K.run jobListKey (op :: ops) = .ok (rs, K') ↔
      ∃ r K₁ rs', K.apply jobListKey op = .ok (r, K₁) ∧ K₁.run jobListKey ops = .ok (rs', K') ∧
        rs = r :: rs' := by
  rw [run]
  cases K.apply jobListKey op with
  | error e => simp [bind, Except.bind]
  | ok p =>
    obtain ⟨r, K₁⟩ := p
    cases hrest : K₁.run jobListKey ops with
    | error e => simp [bind, Except.bind, hrest]
    | ok q =>
      obtain ⟨rs', K''⟩ := q
      simp only [bind, Except.bind, hrest, pure, Except.pure, Except.ok.injEq, Prod.mk.injEq]
      constructor
      · rintro ⟨rfl, rfl⟩
        exact ⟨r, K₁, rs', ⟨rfl, rfl⟩, hrest, rfl⟩
      · rintro ⟨r₁, K₂, rs₂, ⟨rfl, rfl⟩, hrun, rfl⟩
        rw [hrest] at hrun
        cases hrun
        exact ⟨rfl, rfl⟩

theorem checkTable_ok {dbID tableID : Int64} {present : Bool} (h : K.checkTable dbID tableID present = .ok ()) :
    (K.dbs dbID).isSome ∧ (K.tables dbID tableID).isSome = present := by
  unfold checkTable at h
  split at h
  · cases h
  · next hdb =>
    split at h
    · exact ⟨Option.isSome_iff_ne_none.mpr hdb, ‹_›⟩
    · cases h

/-! ### Tables live in databases -/

/-- Every table and every auto ID belongs to a database that exists. -/
def Consistent : Prop :=
  ∀ dbID tableID, ((K.tables dbID tableID).isSome ∨ (K.autoIDs dbID tableID).isSome) →
    (K.dbs dbID).isSome

variable {K}

theorem consistent_empty : empty.Consistent := by
  intro dbID tableID h
  simp [empty] at h

/-- A call that leaves the databases, the tables and the auto IDs as they are keeps them
consistent. -/
theorem Consistent.congr (h : K.Consistent) {K' : Catalog} (hdbs : K'.dbs = K.dbs)
    (htables : K'.tables = K.tables) (hauto : K'.autoIDs = K.autoIDs) : K'.Consistent := by
  rw [Consistent, hdbs, htables, hauto]
  exact h

theorem Consistent.setDB (h : K.Consistent) (dbID : Int64) (info : Blob) :
    (K.setDB dbID (some info)).Consistent := by
  intro d t ht
  by_cases hd : d = dbID
  · subst hd
    simp
  · simpa [hd] using h d t ht

theorem Consistent.setTable (h : K.Consistent) {dbID : Int64} (hdb : (K.dbs dbID).isSome)
    (tableID : Int64) (info : Option Blob) : (K.setTable dbID tableID info).Consistent := by
  intro d t ht
  by_cases hd : d = dbID
  · subst hd
    exact hdb
  · simpa [hd] using h d t (by simpa [hd] using ht)

theorem Consistent.setAutoID (h : K.Consistent) {dbID : Int64} (hdb : (K.dbs dbID).isSome)
    (tableID : Int64) (autoID : Option Int64) : (K.setAutoID dbID tableID autoID).Consistent := by
  intro d t ht
  by_cases hd : d = dbID
  · subst hd
    exact hdb
  · simpa [hd] using h d t (by simpa [hd] using ht)

theorem Consistent.dropDB (h : K.Consistent) (dbID : Int64) : (K.dropDB dbID).Consistent := by
  intro d t ht
  by_cases hd : d = dbID
  · subst hd
    simp at ht
  · simpa [hd] using h d t (by simpa [hd] using ht)

/-- Every call keeps the tables and auto IDs inside their databases: the calls that write a table
or an auto ID check its database first. -/
theorem Consistent.apply (h : K.Consistent) {jobListKey : List (Fin 256)} {op : MetaOp Blob}
    {r : MetaReply} {K' : Catalog} (hop : K.apply jobListKey op = .ok (r, K')) : K'.Consistent := by
  obtain ⟨hguard, heff⟩ := (K.apply_eq_ok).mp hop
  cases op with
  | genAutoTableID dbID tableID step =>
    cases heff
    exact h.setAutoID (K.checkTable_ok hguard).1 _ _
  | createDatabase dbID info | updateDatabase dbID info =>
    cases heff
    exact h.setDB dbID info
  | createTableOrView dbID tableID info | updateTable dbID tableID info =>
    cases heff
    exact h.setTable (K.checkTable_ok hguard).1 _ _
  | createTableAndSetAutoID dbID tableID info autoID =>
    cases heff
    have hdb := (K.checkTable_ok hguard).1
    exact (h.setTable hdb _ _).setAutoID hdb _ _
  | dropDatabase dbID =>
    cases heff
    exact h.dropDB dbID
  | dropTableOrView dbID tblID delAutoID =>
    cases heff
    have hdb := (K.checkTable_ok hguard).1
    cases delAutoID
    · exact h.setTable hdb _ _
    · exact (h.setTable hdb _ _).setAutoID hdb _ _
  | updateDDLJob index job jobListKeys =>
    simp only [effect] at heff
    split at heff <;> cases heff <;> exact h.congr rfl rfl rfl
  | genGlobalID | genGlobalIDs | genSchemaVersion | enQueueDDLJob | deQueueDDLJob
  | addHistoryDDLJob | finishBootstrap | updateDDLReorgStartHandle | updateDDLReorgHandle
  | removeDDLReorgHandle | setSchemaDiff =>
    cases heff
    exact h.congr rfl rfl rfl

/-- Every run keeps the tables and auto IDs inside their databases. -/
theorem Consistent.run (h : K.Consistent) {jobListKey : List (Fin 256)} {ops : List (MetaOp Blob)}
    {rs : List MetaReply} {K' : Catalog} (hrun : K.run jobListKey ops = .ok (rs, K')) :
    K'.Consistent := by
  induction ops generalizing K rs with
  | nil =>
    cases hrun
    exact h
  | cons op ops ih =>
    obtain ⟨r, K₁, rs', hop, hrest, -⟩ := K.run_cons_eq_ok.mp hrun
    exact ih (h.apply hop) hrest

end Catalog

end TinySql.Meta
