import TinySql.Meta.Catalog
import TinySql.Lib.UpTo
import TinySql.Lib.GoInt

/-!
# What every run of calls keeps

Three things a DDL owner relies on of meta hold over every run of the catalog's calls.

* The counters hand out consecutive values. `GenGlobalID`, `GenGlobalIDs` and `GenSchemaVersion`
  move their counter by what they hand out and hand out the values just above it
  (`effect_counter`, `effect_handedOut`); over a run the values handed out are the ones after the
  counter, in order and each once, and the counter ends past them (`Catalog.run_counter`), as long as
  it stays below `MaxInt64`.
* The meta's own DDL job queue is first in, first out: the jobs `DeQueueDDLJob` returns, followed by
  the queue left, are the queue before followed by the jobs enqueued, position by position, up to the
  jobs `UpdateDDLJob` writes in place (`Catalog.run_queue`).
* Tables and auto IDs stay inside their databases (`Consistent.run`).
-/

namespace TinySql.Meta

open TinySql.Lib

/-! ### Counters -/

/-- The two counters of meta: global IDs and schema versions. -/
inductive Counter
  | globalID
  | schemaVersion
  deriving DecidableEq, Repr

/-- A counter's value, `0` where it was never written. -/
def Catalog.counter (K : Catalog) : Counter → Int64
  | .globalID => K.globalID.getD 0
  | .schemaVersion => K.schemaVersion.getD 0

/-- How far a call moves the counter. -/
def MetaOp.advance {V : Type} : Counter → MetaOp V → Nat
  | .globalID, .genGlobalID => 1
  | .globalID, .genGlobalIDs n => n
  | .schemaVersion, .genSchemaVersion => 1
  | _, _ => 0

/-- The values of the counter a call hands out, read off its answer. -/
def MetaOp.handedOut {V : Type} : Counter → MetaOp V → MetaReply → List Int64
  | .globalID, .genGlobalID, .id n => [n]
  | .globalID, .genGlobalIDs _, .ids (some ids) => ids
  | .schemaVersion, .genSchemaVersion, .id n => [n]
  | _, _, _ => []

/-- Below `MaxInt64` the IDs from `lo` up to `hi` are all there, as integers the ones from
`lo.toInt` on. -/
theorem idsBetween_map_toInt {lo hi : Int64} (hhi : hi.toInt < 2 ^ 63 - 1) :
    (idsBetween lo hi).map (List.map Int64.toInt) =
      some ((List.range (hi.toInt - lo.toInt + 1).toNat).map fun k : Nat => lo.toInt + k) := by
  have hne : hi ≠ maxInt64 := fun h => by
    rw [h, toInt_maxInt64] at hhi
    omega
  rw [idsBetween, if_neg fun h => hne h.2, Option.map_some, List.map_map]
  congr 1
  apply List.map_congr_left
  intro k hk
  rw [List.mem_range] at hk
  have := Int64.le_toInt lo
  exact toInt_add_ofNat lo k (by omega) (by omega)

namespace Catalog

variable (K : Catalog) (jobListKey : List (Fin 256))

/-- A call moves each counter by what it hands out of it. -/
theorem effect_counter (op : MetaOp Blob) (x : Counter) :
    (K.effect jobListKey op).2.counter x = K.counter x + Int64.ofNat (op.advance x) := by
  cases op
  case updateDDLJob index job jobListKeys =>
    simp only [effect]
    split <;> cases x <;> simp [counter, MetaOp.advance]
  case dropTableOrView dbID tblID delAutoID =>
    cases delAutoID <;> cases x <;> simp [effect, counter, MetaOp.advance]
  all_goals cases x <;> simp [effect, counter, MetaOp.advance]

/-- A call hands out the values just above the counter, as many as it moves it by. -/
theorem effect_handedOut (op : MetaOp Blob) (x : Counter) (hg : 0 ≤ (K.counter x).toInt)
    (hb : (K.counter x).toInt + op.advance x < 2 ^ 63 - 1) :
    (op.handedOut x (K.effect jobListKey op).1).map Int64.toInt =
      (List.range (op.advance x)).map fun j : Nat => (K.counter x).toInt + 1 + j := by
  have hone : ∀ n : Int64, n.toInt + 1 < 2 ^ 63 → (n + 1).toInt = n.toInt + 1 :=
    fun n h => toInt_add_of_range (by have := Int64.le_toInt n; simp; omega) (by simp; omega)
  cases op
  case genGlobalID =>
    cases x
    · simp only [MetaOp.advance, counter, Nat.cast_one] at hb ⊢
      simp only [effect, MetaOp.handedOut, List.map_cons, List.map_nil,
        hone (K.globalID.getD 0) (by omega)]
      simp
    · simp [MetaOp.handedOut, MetaOp.advance]
  case genSchemaVersion =>
    cases x
    · simp [MetaOp.handedOut, MetaOp.advance]
    · simp only [MetaOp.advance, counter, Nat.cast_one] at hb ⊢
      simp only [effect, MetaOp.handedOut, List.map_cons, List.map_nil,
        hone (K.schemaVersion.getD 0) (by omega)]
      simp
  case genGlobalIDs n =>
    cases x
    · simp only [MetaOp.advance, counter] at hb hg ⊢
      -- the batch runs from one past the counter to the counter moved by `n`
      have hlo : (K.globalID.getD 0 + 1).toInt = (K.globalID.getD 0).toInt + 1 :=
        hone _ (by omega)
      have hhi : (K.globalID.getD 0 + Int64.ofNat n).toInt = (K.globalID.getD 0).toInt + n :=
        toInt_add_ofNat _ n (by omega) (by omega)
      have hids := @idsBetween_map_toInt (K.globalID.getD 0 + 1) (K.globalID.getD 0 + Int64.ofNat n)
        (by omega)
      rw [hlo, hhi, show (K.globalID.getD 0).toInt + n - ((K.globalID.getD 0).toInt + 1) + 1 = n by omega,
        Int.toNat_natCast] at hids
      simp only [effect]
      cases hb' : idsBetween (K.globalID.getD 0 + 1) (K.globalID.getD 0 + Int64.ofNat n) with
      | none => rw [hb'] at hids; cases hids
      | some ids =>
        rw [hb', Option.map_some, Option.some.injEq] at hids
        rw [MetaOp.handedOut, hids]
    · simp [MetaOp.handedOut, MetaOp.advance]
  case updateDDLJob index job jobListKeys =>
    simp only [effect]
    split <;> cases x <;> simp [MetaOp.handedOut, MetaOp.advance]
  all_goals cases x <;> simp [MetaOp.handedOut, MetaOp.advance]

variable {K jobListKey}

/-- Over a run each counter hands out the values after it, in order and each once, and ends past
them, as long as it stays below `MaxInt64`. -/
theorem run_counter (x : Counter) {ops : List (MetaOp Blob)} {rs : List MetaReply} {K' : Catalog}
    (hrun : K.run jobListKey ops = .ok (rs, K')) (hg : 0 ≤ (K.counter x).toInt)
    (hb : (K.counter x).toInt + ((ops.map (MetaOp.advance x)).sum : Int) < 2 ^ 63 - 1) :
    (List.zipWith (MetaOp.handedOut x) ops rs).flatten.map Int64.toInt =
        (List.range (ops.map (MetaOp.advance x)).sum).map (fun j : Nat => (K.counter x).toInt + 1 + j) ∧
      (K'.counter x).toInt = (K.counter x).toInt + (ops.map (MetaOp.advance x)).sum := by
  induction ops generalizing K rs with
  | nil =>
    cases hrun
    simp
  | cons op ops ih =>
    obtain ⟨r, K₁, rs', hop, hrest, rfl⟩ := K.run_cons_eq_ok.mp hrun
    obtain ⟨-, heff⟩ := K.apply_eq_ok.mp hop
    simp only [List.map_cons, List.sum_cons, Nat.cast_add] at hb ⊢
    -- the first call moves the counter by its advance and hands out the values in between
    have hK₁ : (K₁.counter x).toInt = (K.counter x).toInt + op.advance x := by
      have h := K.effect_counter jobListKey op x
      rw [heff] at h
      rw [h]
      exact toInt_add_ofNat _ _ (by omega) (by omega)
    have hout := K.effect_handedOut jobListKey op x hg (by omega)
    rw [heff] at hout
    obtain ⟨ih₁, ih₂⟩ := ih hrest (by omega) (by omega)
    refine ⟨?_, by rw [ih₂, hK₁]; ring⟩
    rw [List.zipWith_cons_cons, List.flatten_cons, List.map_append, hout, ih₁, hK₁, List.range_add,
      List.map_append, List.map_map]
    congr 1
    apply List.map_congr_left
    intro j _
    simp only [Function.comp_apply, Nat.cast_add]
    ring

end Catalog

/-! ### The DDL job queue -/

/-- The jobs a call puts at the end of the meta's own queue. -/
def MetaOp.enqueued {V : Type} (jobListKey : List (Fin 256)) : MetaOp V → List V
  | .enQueueDDLJob job jobListKeys => if jobListKeys.headD jobListKey = jobListKey then [job] else []
  | _ => []

/-- The jobs a call may write in place into the meta's own queue. -/
def MetaOp.rewritten {V : Type} (jobListKey : List (Fin 256)) : MetaOp V → List V
  | .updateDDLJob _ job jobListKeys => if jobListKeys.headD jobListKey = jobListKey then [job] else []
  | _ => []

/-- The job a call takes from the front of the meta's own queue, read off its answer. -/
def MetaOp.dequeued {V : Type} : MetaOp V → MetaReply → List (List (Fin 256))
  | .deQueueDDLJob, .job (some job) => [job]
  | _, _ => []

/-- The jobs written in place by the calls `ops`, as bytes. -/
def rewrittenJobs (jobListKey : List (Fin 256)) (ops : List (MetaOp Blob)) : Set (List (Fin 256)) :=
  {v | v ∈ (ops.flatMap (MetaOp.rewritten jobListKey)).map Blob.bytes}

namespace Catalog

variable (K : Catalog) (jobListKey : List (Fin 256))

/-- One call: what it takes from the front of the queue, followed by the queue after, is the queue
before followed by what it puts at the end, up to the job it writes in place. -/
theorem effect_queue (op : MetaOp Blob) :
    List.Forall₂ (UpTo (rewrittenJobs jobListKey [op]))
      (op.dequeued (K.effect jobListKey op).1 ++
        ((K.effect jobListKey op).2.queues jobListKey).map Blob.bytes)
      ((K.queues jobListKey ++ op.enqueued jobListKey).map Blob.bytes) := by
  cases op
  case enQueueDDLJob job jobListKeys =>
    simp only [effect, MetaOp.dequeued, MetaOp.enqueued, setQueue_queues, List.nil_append]
    by_cases hkey : jobListKeys.headD jobListKey = jobListKey
    · rw [hkey, if_pos rfl, Function.update_self]
      exact forall₂_upTo_refl _ _
    · rw [if_neg hkey, Function.update_of_ne (Ne.symm hkey), List.append_nil]
      exact forall₂_upTo_refl _ _
  case deQueueDDLJob =>
    simp only [effect, setQueue_queues, Function.update_self, MetaOp.enqueued, List.append_nil]
    cases K.queues jobListKey with
    | nil => exact .nil
    | cons job jobs => exact forall₂_upTo_refl _ _
  case updateDDLJob index job jobListKeys =>
    simp only [effect, MetaOp.enqueued, List.append_nil]
    split
    · exact forall₂_upTo_refl _ _
    · next j _ =>
      simp only [MetaOp.dequeued, setQueue_queues, List.nil_append]
      by_cases hkey : jobListKeys.headD jobListKey = jobListKey
      · rw [hkey, Function.update_self, List.map_set]
        -- the only change is the job written at position `j`
        refine forall₂_upTo_set _ j ?_
        simp only [rewrittenJobs, List.flatMap_cons, List.flatMap_nil, MetaOp.rewritten, if_pos hkey]
        simp
      · rw [Function.update_of_ne (Ne.symm hkey)]
        exact forall₂_upTo_refl _ _
  case dropTableOrView dbID tblID delAutoID =>
    cases delAutoID <;> simp [effect, MetaOp.dequeued, MetaOp.enqueued]
  all_goals simp [effect, MetaOp.dequeued, MetaOp.enqueued]

variable {K jobListKey}

theorem run_queue_of_subset {ops : List (MetaOp Blob)} {rs : List MetaReply} {K' : Catalog}
    (hrun : K.run jobListKey ops = .ok (rs, K')) {W : Set (List (Fin 256))}
    (hW : rewrittenJobs jobListKey ops ⊆ W) :
    List.Forall₂ (UpTo W)
      ((List.zipWith MetaOp.dequeued ops rs).flatten ++ (K'.queues jobListKey).map Blob.bytes)
      ((K.queues jobListKey ++ ops.flatMap (MetaOp.enqueued jobListKey)).map Blob.bytes) := by
  induction ops generalizing K rs with
  | nil =>
    cases hrun
    simp
  | cons op ops ih =>
    obtain ⟨r, K₁, rs', hop, hrest, rfl⟩ := K.run_cons_eq_ok.mp hrun
    obtain ⟨-, heff⟩ := K.apply_eq_ok.mp hop
    have hsub : ∀ o ∈ [[op], ops], rewrittenJobs jobListKey o ⊆ W := by
      intro o ho v hv
      apply hW
      simp only [List.mem_cons, List.not_mem_nil, or_false] at ho
      rcases ho with rfl | rfl <;> simp_all [rewrittenJobs]
    have hstep := Forall₂.upTo_mono (K.effect_queue jobListKey op) (hsub [op] (by simp))
    rw [heff] at hstep
    have hrest' := ih hrest (hsub ops (by simp))
    -- the rest of the run's exchange behind what the first call took, then the first call's
    have h₁ := List.rel_append (forall₂_upTo_refl W (op.dequeued r)) hrest'
    have h₂ := List.rel_append hstep
      (forall₂_upTo_refl W ((ops.flatMap (MetaOp.enqueued jobListKey)).map Blob.bytes))
    rw [List.zipWith_cons_cons, List.flatten_cons, List.flatMap_cons]
    simp only [List.append_assoc, List.map_append] at h₁ h₂ ⊢
    exact Forall₂.upTo_trans h₁ h₂

/-- The meta's own DDL job queue is first in, first out over every run: the jobs dequeued followed
by the queue left are the queue before followed by the jobs enqueued, position by position, each of
them or a job written in place by the run. -/
theorem run_queue {ops : List (MetaOp Blob)} {rs : List MetaReply} {K' : Catalog}
    (hrun : K.run jobListKey ops = .ok (rs, K')) :
    List.Forall₂ (UpTo (rewrittenJobs jobListKey ops))
      ((List.zipWith MetaOp.dequeued ops rs).flatten ++ (K'.queues jobListKey).map Blob.bytes)
      ((K.queues jobListKey ++ ops.flatMap (MetaOp.enqueued jobListKey)).map Blob.bytes) :=
  run_queue_of_subset hrun subset_rfl

end Catalog

end TinySql.Meta
