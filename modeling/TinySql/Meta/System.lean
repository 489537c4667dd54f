import TinySql.Meta.Reads

/-!
# Meta over whole runs

A transaction that starts on an empty store and runs any calls of `meta.go` that all succeed leaves
a meta that represents the catalog the catalog's run leaves (`newMeta_run_represents`, in
`Meta.Refinement`), so what
every run of the catalog keeps holds of the store, read through meta's own reads:

* no field of the hash of a database outlives the database: every table and auto ID under
  `DB:<id>` belongs to a database `GetDatabase` finds (`newMeta_run_fields_in_databases`);
* each counter hands out `1, 2, …` in order, each once, and `GetGlobalID` or `GetSchemaVersion`
  then reads the last (`newMeta_run_counter`);
* the meta's own DDL job queue is first in, first out (`newMeta_run_queue`).

The bound on the calls' room is the one of the structure's lists and hashes (`MetaOp.size`).
-/

namespace TinySql.Meta

open TinySql.Structure TinySql.Lib

section Runs

variable {jobListKeys : List (List (Fin 256))} {ops : List (MetaOp Blob)} {rs : List MetaReply}
  {m' : Meta}

/-- No run from an empty store leaves a field in the hash of a database that does not exist: every
table and auto ID belongs to a database `GetDatabase` finds. -/
theorem newMeta_run_fields_in_databases (hb : (ops.map MetaOp.size).sum < 2 ^ 63)
    (hrun : (newMeta ⟨[]⟩ jobListKeys).run (ops.map (MetaOp.map Blob.bytes)) = .ok (rs, m'))
    (dbID : Int64) (field : List (Fin 256)) (hfield : (m'.txn.hGet (dbKey dbID) field).isSome) :
    (m'.getDatabase dbID).isSome := by
  obtain ⟨K', hK, -, hrep⟩ := newMeta_run_represents hb hrun
  have hcons := Catalog.consistent_empty.run hK
  rw [hrep.getDatabase, Option.isSome_map]
  obtain ⟨c, hr, hs⟩ := hrep
  have htables := hs.hashes.tables dbID
  rw [hr.hGet] at hfield
  -- the field is a table's key or an auto ID's, and either keeps its database
  rcases htables.only field (Option.isSome_iff_ne_none.mp hfield) with ⟨t, rfl⟩ | ⟨t, rfl⟩
  · rw [htables.tables t, Option.isSome_map] at hfield
    exact hcons dbID t (Or.inl hfield)
  · rw [htables.autoIDs t, Option.isSome_map] at hfield
    exact hcons dbID t (Or.inr hfield)

theorem newMeta_run_fields_in_databases_oneTable :
    ∃ m', (newMeta ⟨[]⟩ []).run (([.createDatabase 1 ⟨[7], by decide⟩,
        .createTableOrView 1 2 ⟨[8], by decide⟩] : List (MetaOp Blob)).map (MetaOp.map Blob.bytes)) =
        .ok ([.done, .done], m') ∧ (m'.txn.hGet (dbKey 1) (tableKey 2)).isSome ∧
      (m'.getDatabase 1).isSome :=
  ⟨_, rfl, by decide, @newMeta_run_fields_in_databases [] [.createDatabase 1 ⟨[7], by decide⟩,
    .createTableOrView 1 2 ⟨[8], by decide⟩] [.done, .done] _ (by decide) rfl 1 (tableKey 2) (by decide)⟩

/-- From an empty store each counter hands out `1, 2, …` over a run, in order and each once, and
reads back the last it handed out, as long as it stays below `MaxInt64`. -/
theorem newMeta_run_counter (x : Counter) (hb : (ops.map MetaOp.size).sum < 2 ^ 63)
    (hx : (ops.map (MetaOp.advance x)).sum < 2 ^ 63 - 1)
    (hrun : (newMeta ⟨[]⟩ jobListKeys).run (ops.map (MetaOp.map Blob.bytes)) = .ok (rs, m')) :
    (List.zipWith (MetaOp.handedOut x) ops rs).flatten.map Int64.toInt =
        (List.range (ops.map (MetaOp.advance x)).sum).map (fun j : Nat => (j : Int) + 1) ∧
      m'.getCounter x = .ok (Int64.ofNat (ops.map (MetaOp.advance x)).sum) := by
  obtain ⟨K', hK, -, hrep⟩ := newMeta_run_represents hb hrun
  have hzero : Catalog.empty.counter x = 0 := by
    cases x <;> rfl
  obtain ⟨hids, hcounter⟩ := Catalog.run_counter x hK (by rw [hzero]; decide)
    (by rw [hzero, Int64.toInt_zero, zero_add]; omega)
  rw [hzero, Int64.toInt_zero, zero_add] at hids hcounter
  refine ⟨?_, ?_⟩
  · rw [hids]
    apply List.map_congr_left
    intro j _
    ring
  · rw [hrep.getCounter x]
    congr 1
    apply Int64.toInt_inj.mp
    rw [hcounter, Int64.toInt_ofNat_of_lt (by omega)]

theorem newMeta_run_counter_globalIDs :
    ∃ m', (newMeta ⟨[]⟩ []).run (([.genGlobalID, .genGlobalIDs 2] : List (MetaOp Blob)).map
        (MetaOp.map Blob.bytes)) = .ok ([.id 1, .ids (some [2, 3])], m') ∧
      (List.zipWith (MetaOp.handedOut .globalID) ([.genGlobalID, .genGlobalIDs 2] : List (MetaOp Blob))
          [.id 1, .ids (some [2, 3])]).flatten.map Int64.toInt =
        (List.range (([.genGlobalID, .genGlobalIDs 2] : List (MetaOp Blob)).map
          (MetaOp.advance .globalID)).sum).map (fun j : Nat => (j : Int) + 1) ∧
      m'.getCounter .globalID = .ok (Int64.ofNat (([.genGlobalID, .genGlobalIDs 2] : List (MetaOp Blob)).map
        (MetaOp.advance .globalID)).sum) :=
  ⟨_, rfl, newMeta_run_counter .globalID (by decide) (by decide) rfl⟩

/-- From an empty store the meta's own DDL job queue is first in, first out: the jobs
`DeQueueDDLJob` returned, followed by the queue left (which `GetAllDDLJobsInQueue` lists from its
right end), are the jobs enqueued, position by position, each of them or a job `UpdateDDLJob`
wrote in place. -/
theorem newMeta_run_queue (hb : (ops.map MetaOp.size).sum < 2 ^ 63)
    (hrun : (newMeta ⟨[]⟩ jobListKeys).run (ops.map (MetaOp.map Blob.bytes)) = .ok (rs, m')) :
    ∃ left, m'.getAllDDLJobsInQueue [] = .ok left ∧
      List.Forall₂ (UpTo (rewrittenJobs (newMeta ⟨[]⟩ jobListKeys).jobListKey ops))
        ((List.zipWith MetaOp.dequeued ops rs).flatten ++ left.reverse)
        ((ops.flatMap (MetaOp.enqueued (newMeta ⟨[]⟩ jobListKeys).jobListKey)).map Blob.bytes) := by
  obtain ⟨K', hK, hkey, hrep⟩ := newMeta_run_represents hb hrun
  have hfifo := Catalog.run_queue hK
  refine ⟨_, hrep.getAllDDLJobsInQueue hb [], ?_⟩
  rw [List.reverse_reverse, Meta.listKey, List.headD_nil, hkey]
  simpa [Catalog.empty] using hfifo

theorem newMeta_run_queue_twoJobs :
    ∃ m', (newMeta ⟨[]⟩ []).run (([.enQueueDDLJob ⟨[1], by decide⟩ [], .enQueueDDLJob ⟨[2], by decide⟩ [],
        .deQueueDDLJob] : List (MetaOp Blob)).map (MetaOp.map Blob.bytes)) =
        .ok ([.done, .done, .job (some [1])], m') ∧
      ∃ left, m'.getAllDDLJobsInQueue [] = .ok left ∧
        List.Forall₂ (UpTo (rewrittenJobs (newMeta ⟨[]⟩ []).jobListKey
            ([.enQueueDDLJob ⟨[1], by decide⟩ [], .enQueueDDLJob ⟨[2], by decide⟩ [], .deQueueDDLJob] :
              List (MetaOp Blob))))
          ((List.zipWith MetaOp.dequeued ([.enQueueDDLJob ⟨[1], by decide⟩ [],
            .enQueueDDLJob ⟨[2], by decide⟩ [], .deQueueDDLJob] : List (MetaOp Blob))
              [.done, .done, .job (some [1])]).flatten ++ left.reverse)
          ((([.enQueueDDLJob ⟨[1], by decide⟩ [], .enQueueDDLJob ⟨[2], by decide⟩ [], .deQueueDDLJob] :
            List (MetaOp Blob)).flatMap (MetaOp.enqueued (newMeta ⟨[]⟩ []).jobListKey)).map Blob.bytes) :=
  ⟨_, rfl, newMeta_run_queue (by decide) rfl⟩

end Runs

end TinySql.Meta
