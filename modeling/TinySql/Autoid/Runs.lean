import TinySql.Autoid.System

/-!
# What holds along every run

`RunInv` is the invariant of runs: the allocators keep the table's signedness, their bases stay
non-negative, and the state, with the intervals handed out so far, is a segment pool that satisfies
`Pool.Inv`. It holds initially and every call keeps it (`RunInv.step`, from `step_simulates`), so
it holds at the end of every run (`RunInv.run`). The properties of runs follow: the intervals
returned are pairwise disjoint and increasing per allocator, each has exactly the requested number of
ids, no `Alloc` after a successful `Rebase(b)` of the same allocator returns ids at or below `b`, and
a request of at most `maxStep` ids succeeds while more ids than it asks for are left.
-/

namespace TinySql.Autoid

open TinySql.Lib

variable {ι : Type} {u : Bool} {tableID : Int64}

/-- The invariant of runs, with the intervals handed out so far. -/
structure RunInv (u : Bool) (σ : Sys ι) (issued : List (ι × Int × Int)) : Prop where
  isUnsigned_eq : ∀ i, (σ.allocs i).isUnsigned = u
  base_nonneg : ∀ i, 0 ≤ key u (σ.allocs i).base
  pool : (σ.pool u issued).Inv

theorem RunInv.fits {σ : Sys ι} {issued : List (ι × Int × Int)} (h : RunInv u σ issued) :
    σ.Fits u := by
  refine ⟨h.isUnsigned_eq, fun i => ?_⟩
  have hc := h.pool.cache_le i
  have hu := h.isUnsigned_eq i
  exact ⟨hu ▸ h.base_nonneg i, hu ▸ hc.1, hu ▸ hc.2⟩

theorem RunInv.init {g0 : Int64} (hg0 : 0 ≤ key u g0) :
    RunInv u (Sys.init u g0 : Sys ι) [] := by
  have hzero : key u 0 = 0 := by cases u <;> rfl
  refine ⟨fun _ => rfl, fun _ => hzero.ge, ?_⟩
  exact Pool.inv_of_empty _ (fun _ => key u 0) fun _ => hzero ▸ hg0

/-- What a successful `Alloc(n)` returns: `n` ids from the allocator's base or above it. -/
theorem alloc_result {σ : Sys ι} (hσ : σ.Fits u) (i : ι) {n : UInt64} (hn : 1 ≤ n.toNat)
    (hn' : n.toNat < 2 ^ 63) (res : Int64) {m m' : Int64}
    (hok : ((σ.allocs i).alloc σ.global tableID n res).result = .ok (m, m')) :
    key u m' = key u m + n.toNat ∧ key u (σ.allocs i).base ≤ key u m ∧ 0 ≤ key u m := by
  have hspec := alloc_spec tableID res (hσ.fits i) hn hn'
  obtain ⟨hbase, hend, hglobal⟩ := hσ.fits i
  have hu := hσ.isUnsigned_eq i
  rw [hu] at hbase hend hglobal
  generalize (σ.allocs i).alloc σ.global tableID n res = o at hspec hok
  cases hspec with
  | fail e s => cases hok
  | cached m₀ hroom hm =>
    obtain ⟨rfl, rfl⟩ := Prod.mk.inj (Except.ok.inj hok)
    rw [hu] at hm
    exact ⟨hm, le_rfl, hbase⟩
  | refill m₀ g' s hshort hm hg' =>
    obtain ⟨rfl, rfl⟩ := Prod.mk.inj (Except.ok.inj hok)
    rw [hu] at hm
    exact ⟨hm, hend.trans hglobal, (hbase.trans hend).trans hglobal⟩

variable [DecidableEq ι]

/-- The bases only move up. -/
theorem RunInv.step_base_le {σ : Sys ι} {issued : List (ι × Int × Int)} (h : RunInv u σ issued)
    (tableID : Int64) {inp : Input ι} (hin : inp.call.InRange) (j : ι) :
    key u (σ.allocs j).base ≤ key u ((σ.step tableID inp).1.allocs j).base :=
  Pool.cache_fst_le_of_run h.pool (step_simulates tableID h.fits hin issued) j

theorem RunInv.step {σ : Sys ι} {issued : List (ι × Int × Int)} (h : RunInv u σ issued)
    (tableID : Int64) {inp : Input ι} (hin : inp.call.InRange) :
    RunInv u (σ.step tableID inp).1 (issued ++ allocIntervals u [(σ.step tableID inp).2]) := by
  have hsim := step_simulates tableID h.fits hin issued
  exact ⟨step_isUnsigned tableID h.fits hin,
    fun j => (h.base_nonneg j).trans (h.step_base_le tableID hin j), h.pool.run hsim⟩

/-- The run rule. -/
theorem RunInv.run {σ : Sys ι} {issued : List (ι × Int × Int)} (h : RunInv u σ issued)
    (tableID : Int64) {l : List (Input ι)} (hin : ∀ inp ∈ l, inp.call.InRange) :
    RunInv u (σ.run tableID l).1 (issued ++ allocIntervals u (σ.run tableID l).2) := by
  induction l generalizing σ issued with
  | nil => simpa [Sys.run] using h
  | cons inp rest ih =>
    have h' := h.step tableID (hin inp (List.mem_cons_self ..))
    have hrest := ih h' fun x hx => hin x (List.mem_cons_of_mem _ hx)
    simpa [Sys.run, List.append_assoc] using hrest

/-! ### What the calls return -/

/-- A successful `Alloc(n)` returned exactly `n` ids, in the column's range. -/
def Event.Exact (u : Bool) : Event ι → Prop
  | .alloc _ n (.ok (m, m')) => key u m' = key u m + n.toNat ∧ 0 ≤ key u m ∧ key u m' ≤ maxKey u
  | _ => True

/-- A successful `Alloc` of the allocator `i` returned ids above `b`. -/
def Event.AllocAbove (u : Bool) (i : ι) (b : Int) : Event ι → Prop
  | .alloc j _ (.ok (m, _)) => j = i → b ≤ key u m
  | _ => True

/-- After a successful `Rebase(b)` of an allocator, `e'` is not an `Alloc` of it that returns ids at
or below `b`. -/
def Event.RebaseBelow (u : Bool) : Event ι → Event ι → Prop
  | .rebase i b _ (.ok ()), e' => e'.AllocAbove u i (key u b)
  | _, _ => True

theorem step_exact {σ : Sys ι} (hσ : σ.Fits u) {inp : Input ι} (hin : inp.call.InRange) :
    (σ.step tableID inp).2.Exact u := by
  obtain ⟨i, call, res⟩ := inp
  cases call with
  | rebase b allocIDs => trivial
  | alloc n =>
    simp only [Sys.step]
    cases hres : ((σ.allocs i).alloc σ.global tableID n res).result with
    | error e => trivial
    | ok r =>
      obtain ⟨m, m'⟩ := r
      obtain ⟨hm, -, hnonneg⟩ := alloc_result hσ i hin.1 hin.2 res hres
      exact ⟨hm, hnonneg, key_le_maxKey u m'⟩

theorem step_allocAbove {σ : Sys ι} (hσ : σ.Fits u) {inp : Input ι} (hin : inp.call.InRange)
    (i : ι) {b : Int} (hb : b ≤ key u (σ.allocs i).base) :
    (σ.step tableID inp).2.AllocAbove u i b := by
  obtain ⟨j, call, res⟩ := inp
  cases call with
  | rebase b allocIDs => trivial
  | alloc n =>
    simp only [Sys.step]
    cases hres : ((σ.allocs j).alloc σ.global tableID n res).result with
    | error e => trivial
    | ok r =>
      obtain ⟨m, m'⟩ := r
      rintro rfl
      exact hb.trans (alloc_result hσ j hin.1 hin.2 res hres).2.1

/-- A successful `Rebase(b)` leaves the allocator's base at or above `b`. -/
theorem step_rebase_le {σ : Sys ι} (hσ : σ.Fits u) (inp : Input ι) {i : ι} {b : Int64}
    {allocIDs : Bool} (he : (σ.step tableID inp).2 = .rebase i b allocIDs (.ok ())) :
    key u b ≤ key u ((σ.step tableID inp).1.allocs i).base := by
  obtain ⟨j, call, res⟩ := inp
  cases call with
  | alloc n => simp [Sys.step] at he
  | rebase b' allocIDs' =>
    simp only [Sys.step, Event.rebase.injEq] at he ⊢
    obtain ⟨rfl, rfl, rfl, hok⟩ := he
    have hle := (rebase_spec tableID _ _ (hσ.fits _)).le_base hok
    simpa [hσ.isUnsigned_eq] using hle

/-! ### Along a run -/

theorem run_exact {σ : Sys ι} {issued : List (ι × Int × Int)} (h : RunInv u σ issued)
    {l : List (Input ι)} (hin : ∀ inp ∈ l, inp.call.InRange) :
    ∀ e ∈ (σ.run tableID l).2, e.Exact u := by
  induction l generalizing σ issued with
  | nil => simp [Sys.run]
  | cons inp rest ih =>
    have hinp := hin inp (List.mem_cons_self ..)
    have hrest := ih (h.step tableID hinp) fun x hx => hin x (List.mem_cons_of_mem _ hx)
    simp only [Sys.run, List.mem_cons, forall_eq_or_imp]
    exact ⟨step_exact h.fits hinp, hrest⟩

theorem run_allocAbove {σ : Sys ι} {issued : List (ι × Int × Int)} (h : RunInv u σ issued)
    {l : List (Input ι)} (hin : ∀ inp ∈ l, inp.call.InRange) (i : ι) {b : Int}
    (hb : b ≤ key u (σ.allocs i).base) :
    ∀ e ∈ (σ.run tableID l).2, e.AllocAbove u i b := by
  induction l generalizing σ issued with
  | nil => simp [Sys.run]
  | cons inp rest ih =>
    have hinp := hin inp (List.mem_cons_self ..)
    -- the base of `i` only moves up, so it stays above `b`
    have hb' := hb.trans (h.step_base_le tableID hinp i)
    have hrest := ih (h.step tableID hinp) (fun x hx => hin x (List.mem_cons_of_mem _ hx)) hb'
    simp only [Sys.run, List.mem_cons, forall_eq_or_imp]
    exact ⟨step_allocAbove h.fits hinp i hb, hrest⟩

theorem run_rebaseBelow {σ : Sys ι} {issued : List (ι × Int × Int)} (h : RunInv u σ issued)
    {l : List (Input ι)} (hin : ∀ inp ∈ l, inp.call.InRange) :
    (σ.run tableID l).2.Pairwise (Event.RebaseBelow u) := by
  induction l generalizing σ issued with
  | nil => simp [Sys.run]
  | cons inp rest ih =>
    have hinp := hin inp (List.mem_cons_self ..)
    have hrest' : ∀ x ∈ rest, x.call.InRange := fun x hx => hin x (List.mem_cons_of_mem _ hx)
    simp only [Sys.run, List.pairwise_cons]
    refine ⟨?_, ih (h.step tableID hinp) hrest'⟩
    -- only a successful `Rebase` constrains what comes after it
    generalize he : (σ.step tableID inp).2 = e
    cases e with
    | alloc i n r => intros; trivial
    | rebase i b allocIDs r =>
      cases r with
      | error => intros; trivial
      | ok =>
        exact run_allocAbove (h.step tableID hinp) hrest' i (step_rebase_le h.fits inp he)

/-! ### Runs of allocators on one table -/

/-- What a run of allocators on one table guarantees: the intervals `(min, max]` that successful
`Alloc` calls return are pairwise disjoint, hold exactly the ids asked for, and increase per
allocator; after a successful `Rebase(b)`, the allocator returns no id at or below `b`; and at the
end of the run, `Alloc(n)` with `n ≤ maxStep` succeeds while more than `n` ids are left above the
global end. -/
structure RunSound (u : Bool) (tableID : Int64) (r : Sys ι × List (Event ι)) : Prop where
  disjoint : (allocIntervals u r.2).Pairwise fun x y => Disjoint (ival x.2) (ival y.2)
  exact : ∀ e ∈ r.2, e.Exact u
  increasing : (allocIntervals u r.2).Pairwise fun x y => x.1 = y.1 → x.2.2 ≤ y.2.1
  above_rebase : r.2.Pairwise (Event.RebaseBelow u)
  alloc_ok : ∀ (i : ι) (n : UInt64) (res : Int64), tableID ≠ 0 → 1 ≤ n.toNat →
    (n.toNat : Int) ≤ maxStep.toInt → key u r.1.global + n.toNat < maxKey u →
    ∃ v, ((r.1.allocs i).alloc r.1.global tableID n res).result = .ok v

theorem allocators_run_sound (u : Bool) (tableID g0 : Int64) (hg0 : 0 ≤ key u g0)
    (inputs : List (Input ι)) (hin : ∀ inp ∈ inputs, inp.call.InRange) :
    RunSound u tableID ((Sys.init u g0 : Sys ι).run tableID inputs) := by
  have hinit := RunInv.init (ι := ι) hg0
  have h := hinit.run tableID hin
  rw [List.nil_append] at h
  refine ⟨h.pool.issued_disjoint, run_exact hinit hin, h.pool.issued_sorted,
    run_rebaseBelow hinit hin, fun i n res htable hn hstep hroom => ?_⟩
  have hmax : maxStep.toInt = 2000000 := rfl
  exact alloc_ok res htable (h.fits.fits i) hn (by omega) (by rwa [h.isUnsigned_eq i])

theorem allocators_run_sound_alloc_rebase :
    0 ≤ key false 0 ∧
    (∀ inp ∈ [(⟨(), .alloc 5, 0⟩ : Input Unit), ⟨(), .rebase 100 true, 0⟩], inp.call.InRange) ∧
    RunSound false 1
      ((Sys.init false 0 : Sys Unit).run 1 [⟨(), .alloc 5, 0⟩, ⟨(), .rebase 100 true, 0⟩]) :=
  have hin : ∀ inp ∈ [(⟨(), .alloc 5, 0⟩ : Input Unit), ⟨(), .rebase 100 true, 0⟩],
      inp.call.InRange := by
    simp [Call.InRange]
  ⟨by decide, hin, allocators_run_sound false 1 0 (by decide) _ hin⟩

/-- A fresh allocator on a table with every id left fails `Alloc(3000000)`, whatever `NextStep`
returns: the step it computes is capped at `maxStep`, below the request. -/
theorem alloc_fails_with_ids_left :
    key false 0 + 3000000 ≤ maxKey false ∧
    ∀ res : Int64, (newAllocator false).alloc 0 1 3000000 res =
      ⟨.error .autoincReadFailed, { newAllocator false with step := maxStep }, 0⟩ := by
  refine ⟨by decide, fun res => ?_⟩
  have hle : nextStep res ≤ (3000000 : UInt64).toInt64 := by
    rw [Int64.le_iff_toInt_le]
    exact (nextStep_mem res).2.trans (by decide)
  unfold Allocator.alloc alloc4Signed
  generalize nextStep res = next at hle
  dsimp only
  -- what is left of the call does not depend on the clock
  rw [if_pos hle, if_neg (show ¬(newAllocator false).isUnsigned = true by decide)]
  decide

end TinySql.Autoid
