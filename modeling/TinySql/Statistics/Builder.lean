import TinySql.Statistics.Histogram

/-!
# The sorted builder

`SortedBuilder` of `statistics/builder.go`. It reads the values of a column in order and keeps a
histogram of them: a value equal to the current upper bound is a repeat of it, a new value widens
the last bucket while it holds at most `valuesPerBucket` values, and otherwise starts a bucket of its
own, after the buckets are merged two by two and their capacity doubled if all `numBuckets` are in
use.

`SortedBuilder.Inv` is the invariant of a run: the histogram describes the values read so far, the
current bucket is the last one and ends at the last value, and with `numBuckets ≥ 2` there are never
more than `numBuckets` buckets. One step keeps it (`Inv.iterate`), hence every run does
(`Inv.iterateAll`). The bound needs two buckets: with one, merging keeps the single bucket, a bucket
made full by repeats of one value leaves no room after doubling either, and the builder appends a
second bucket, after which `bucketIdx + 1 = numBuckets` never holds again.
-/

namespace TinySql.Statistics

open Histogram

variable {α : Type*}

structure SortedBuilder (α : Type*) where
  numBuckets : Int
  valuesPerBucket : Int
  lastNumber : Int
  bucketIdx : Nat
  count : Nat
  hist : Histogram α

def newSortedBuilder (numBuckets : Int) : SortedBuilder α :=
  ⟨numBuckets, 1, 0, 0, 0, ⟨0, []⟩⟩

namespace SortedBuilder

/-- All buckets are full: every two neighbours are merged and each bucket may hold twice as many
values. -/
def mergeFull (b : SortedBuilder α) : SortedBuilder α :=
  let hist := b.hist.mergeBuckets b.bucketIdx
  let bucketIdx := b.bucketIdx / 2
  { b with
    hist, bucketIdx
    valuesPerBucket := b.valuesPerBucket * 2
    lastNumber :=
      if bucketIdx = 0 then 0 else ((hist.buckets[bucketIdx - 1]?).map (·.count)).getD 0 }

/-- A new value after a possible merge: it joins the current bucket if there is room, and starts a
bucket of its own otherwise. -/
def placeNew (b : SortedBuilder α) (data : α) : SortedBuilder α :=
  match b.hist.buckets[b.bucketIdx]? with
  | none => b
  | some cur =>
    let b := if cur.count + 1 - b.lastNumber ≤ b.valuesPerBucket then
        { b with hist := b.hist.updateLastBucket data (cur.count + 1) 1 }
      else
        { b with
          lastNumber := cur.count, bucketIdx := b.bucketIdx + 1
          hist := b.hist.appendBucket data data (cur.count + 1) 1 }
    { b with hist := { b.hist with ndv := b.hist.ndv + 1 } }

@[simp]
theorem mergeFull_count (b : SortedBuilder α) : b.mergeFull.count = b.count := rfl

@[simp]
theorem mergeFull_numBuckets (b : SortedBuilder α) : b.mergeFull.numBuckets = b.numBuckets := rfl

@[simp]
theorem mergeFull_ndv (b : SortedBuilder α) : b.mergeFull.hist.ndv = b.hist.ndv := rfl

/-- What `placeNew` does once the current bucket is found. -/
theorem placeNew_of_getElem? {b : SortedBuilder α} {x : α} {c : Bucket α}
    (hcur : b.hist.buckets[b.bucketIdx]? = some c) :
    b.placeNew x = if c.count + 1 - b.lastNumber ≤ b.valuesPerBucket then
        { b with hist := ⟨b.hist.ndv + 1, (b.hist.updateLastBucket x (c.count + 1) 1).buckets⟩ }
      else
        { b with
          lastNumber := c.count, bucketIdx := b.bucketIdx + 1
          hist := ⟨b.hist.ndv + 1, b.hist.buckets ++ [⟨x, x, c.count + 1, 1⟩]⟩ } := by
  simp only [placeNew, hcur]
  split_ifs <;> rfl

@[simp]
theorem placeNew_numBuckets (b : SortedBuilder α) (x : α) :
    (b.placeNew x).numBuckets = b.numBuckets := by
  unfold placeNew
  split
  · rfl
  · split_ifs <;> rfl

@[simp]
theorem placeNew_count (b : SortedBuilder α) (x : α) : (b.placeNew x).count = b.count := by
  unfold placeNew
  split
  · rfl
  · split_ifs <;> rfl

theorem eq_of_mem_getLast?_append_singleton {l : List (Bucket α)} {a c : Bucket α}
    (h : c ∈ (l ++ [a]).getLast?) : c = a := by
  simpa [eq_comm] using h

theorem upper_mem_of_getLast?_snoc {l : List (Bucket α)} {a : Bucket α} {S : List α}
    (ha : a.upper ∈ S) : ∀ c ∈ (l ++ [a]).getLast?, c.upper ∈ S := by
  intro c hc
  rw [eq_of_mem_getLast?_append_singleton hc]
  exact ha

variable [LinearOrder α]

/-- `SortedBuilder.Iterate`. The stream is sorted, so a value is either the upper bound of the
current bucket or above it. -/
def iterate (b : SortedBuilder α) (data : α) : SortedBuilder α :=
  let b := { b with count := b.count + 1 }
  if b.count = 1 then { b with hist := { b.hist.appendBucket data data 1 1 with ndv := 1 } }
  else
    match b.hist.buckets[b.bucketIdx]? with
    | none => b
    | some cur =>
      if compare cur.upper data = .eq then
        -- a repeated value stays in the current bucket, however full it is
        { b with
          hist := { b.hist with
            buckets := b.hist.buckets.set b.bucketIdx
              { cur with count := cur.count + 1, «repeat» := cur.repeat + 1 } } }
      else if cur.count + 1 - b.lastNumber ≤ b.valuesPerBucket then
        { b with
          hist := { b.hist.updateLastBucket data (cur.count + 1) 1 with ndv := b.hist.ndv + 1 } }
      else
        (if (b.bucketIdx : Int) + 1 = b.numBuckets then b.mergeFull else b).placeNew data

/-- The values of a stream fed to `Iterate` in order. -/
def iterateAll (b : SortedBuilder α) (l : List α) : SortedBuilder α :=
  l.foldl iterate b

@[simp]
theorem iterateAll_nil (b : SortedBuilder α) : b.iterateAll [] = b := rfl

@[simp]
theorem iterateAll_cons (b : SortedBuilder α) (x : α) (l : List α) :
    b.iterateAll (x :: l) = (b.iterate x).iterateAll l := rfl

@[simp]
theorem iterate_numBuckets (b : SortedBuilder α) (x : α) :
    (b.iterate x).numBuckets = b.numBuckets := by
  unfold iterate
  dsimp only
  split
  · rfl
  split
  · rfl
  split
  · rfl
  split
  · rfl
  -- the placement, after a merge or not
  split <;> simp

@[simp]
theorem iterateAll_numBuckets (b : SortedBuilder α) (l : List α) :
    (b.iterateAll l).numBuckets = b.numBuckets := by
  induction l generalizing b with
  | nil => rfl
  | cons x l ih => simp [iterateAll_cons, ih]

end SortedBuilder

variable [LinearOrder α]

/-! ## Growing the last bucket -/

section Grow

variable {init : List (Bucket α)} {c : Bucket α} {S : List α} {x : α}

theorem counts_append_new (hx : ∀ y ∈ S, y < x) :
    (S ++ [x]).countP (· ≤ x) = S.length + 1 ∧ (S ++ [x]).count x = 1 := by
  have hall : S.countP (· ≤ x) = S.length :=
    List.countP_eq_length.mpr fun y hy => by simpa using (hx y hy).le
  have hnone : S.count x = 0 := List.count_eq_zero.mpr fun hmem => lt_irrefl x (hx x hmem)
  simp [List.countP_append, List.count_append, hall, hnone]

theorem length_dedup_append_new (hx : ∀ y ∈ S, y < x) :
    (S ++ [x]).dedup.length = S.dedup.length + 1 := by
  rw [length_dedup_append_singleton, if_neg fun hmem => lt_irrefl x (hx x hmem)]

theorem summarizes_singleton (x : α) : Summarizes [⟨x, x, 1, 1⟩] [x] :=
  ⟨ordered_singleton.mpr le_rfl, by simp, by simp, by simp⟩

/-- A repeat of the last upper bound is counted in the last bucket. -/
theorem Summarizes.snoc_repeat (h : Summarizes (init ++ [c]) S) :
    Summarizes (init ++ [{ c with count := c.count + 1, «repeat» := c.repeat + 1 }])
      (S ++ [c.upper]) := by
  obtain ⟨hinit, hc, hbefore⟩ := ordered_snoc.mp h.ordered
  have hcount := h.count_eq c (by simp)
  have hrep := h.repeat_eq c (by simp)
  refine h.replaceLast le_rfl (ordered_snoc.mpr ⟨hinit, hc, hbefore⟩) ?_
    ⟨_, List.mem_singleton_self _, hc, le_rfl⟩ ?_
  · intro y hlo hhi
    exact ⟨_, List.mem_singleton_self _, hlo, hhi⟩
  · intro b hb
    rw [List.mem_singleton.mp hb]
    simp [List.countP_append, List.count_append, hcount, hrep]

/-- A new value above the last upper bound widens the last bucket up to it. -/
theorem Summarizes.snoc_update (h : Summarizes (init ++ [c]) S) (hx : c.upper < x) :
    Summarizes (init ++ [{ c with upper := x, count := c.count + 1, «repeat» := 1 }])
      (S ++ [x]) := by
  obtain ⟨hinit, hc, hbefore⟩ := ordered_snoc.mp h.ordered
  have hlast : c ∈ (init ++ [c]).getLast? := by simp
  have hnew := counts_append_new fun y hy => (h.le_upper_of_getLast? hlast y hy).trans_lt hx
  have hcount := h.count_of_getLast? hlast
  refine h.replaceLast hx.le (ordered_snoc.mpr ⟨hinit, hc.trans hx.le, hbefore⟩) ?_
    ⟨_, List.mem_singleton_self _, hc.trans hx.le, le_rfl⟩ ?_
  · intro y hlo hhi
    exact ⟨_, List.mem_singleton_self _, hlo, hhi.trans hx.le⟩
  · intro b hb
    rw [List.mem_singleton.mp hb]
    dsimp only
    rw [hnew.1, hnew.2, hcount]
    constructor <;> simp

/-- A new value above the last upper bound starts a bucket of its own. -/
theorem Summarizes.snoc_append (h : Summarizes (init ++ [c]) S) (hx : c.upper < x) :
    Summarizes (init ++ [c, ⟨x, x, c.count + 1, 1⟩]) (S ++ [x]) := by
  have hlast : c ∈ (init ++ [c]).getLast? := by simp
  have hnew := counts_append_new fun y hy => (h.le_upper_of_getLast? hlast y hy).trans_lt hx
  have hcount := h.count_of_getLast? hlast
  have hord : Ordered (init ++ [c, ⟨x, x, c.count + 1, 1⟩]) := by
    rw [show init ++ [c, ⟨x, x, c.count + 1, 1⟩] = (init ++ [c]) ++ [⟨x, x, c.count + 1, 1⟩] by
      simp]
    refine ordered_snoc.mpr ⟨h.ordered, le_rfl, fun a ha => ?_⟩
    exact (h.ordered.upper_le_of_getLast? hlast ha).trans_lt hx
  refine h.replaceLast hx.le hord ?_ ⟨⟨x, x, c.count + 1, 1⟩, by simp, le_rfl, le_rfl⟩ ?_
  · intro y hlo hhi
    exact ⟨c, by simp, hlo, hhi⟩
  · intro b hb
    rcases List.mem_pair.mp hb with rfl | rfl
    · exact counts_append_of_lt (by simpa using hx) (h.count_eq _ (by simp))
        (h.repeat_eq _ (by simp))
    · dsimp only
      rw [hnew.1, hnew.2, hcount]
      constructor <;> simp

end Grow

/-! ## The invariant of a run -/

namespace SortedBuilder

variable {b : SortedBuilder α} {S : List α} {x : α}

/-- What `iterate` does after the first value, once the current bucket is found. -/
theorem iterate_of_getElem? {c : Bucket α} (hcount : b.count ≠ 0)
    (hcur : b.hist.buckets[b.bucketIdx]? = some c) :
    b.iterate x =
      if c.upper = x then
        { b with
          count := b.count + 1
          hist := { b.hist with
            buckets := b.hist.buckets.set b.bucketIdx
              { c with count := c.count + 1, «repeat» := c.repeat + 1 } } }
      else if c.count + 1 - b.lastNumber ≤ b.valuesPerBucket then
        { b with
          count := b.count + 1
          hist := ⟨b.hist.ndv + 1, (b.hist.updateLastBucket x (c.count + 1) 1).buckets⟩ }
      else
        (if (b.bucketIdx : Int) + 1 = b.numBuckets then { b with count := b.count + 1 }.mergeFull
          else { b with count := b.count + 1 }).placeNew x := by
  simp only [iterate, Nat.add_eq_right, hcount, if_false, hcur, compare_eq_iff_eq]

/-- The shape of the builder once it has read a value: the current bucket is the last one, and it
ends at a value read. -/
structure Shaped (S : List α) (b : SortedBuilder α) : Prop where
  summarizes : Summarizes b.hist.buckets S
  idx_eq : b.bucketIdx + 1 = b.hist.len
  last_mem : ∀ c ∈ b.hist.buckets.getLast?, c.upper ∈ S

theorem Shaped.exists_last (h : Shaped S b) :
    ∃ init c, b.hist.buckets = init ++ [c] ∧ b.bucketIdx = init.length := by
  have hne : b.hist.buckets ≠ [] := by
    intro hnil
    have hidx := h.idx_eq
    rw [len, hnil, List.length_nil] at hidx
    omega
  obtain ⟨c, hc⟩ := Option.ne_none_iff_exists'.mp (mt List.getLast?_eq_none_iff.mp hne)
  obtain ⟨init, hinit⟩ := List.getLast?_eq_some_iff.mp hc
  refine ⟨init, c, hinit, ?_⟩
  have hidx := h.idx_eq
  rw [len, hinit, List.length_append, List.length_singleton] at hidx
  omega

theorem Shaped.mergeFull (h : Shaped S b) :
    Shaped S b.mergeFull ∧ b.mergeFull.hist.len = b.bucketIdx / 2 + 1 := by
  have hbuckets : b.mergeFull.hist.buckets = mergePairs b.hist.buckets := by
    simp only [SortedBuilder.mergeFull, mergeBuckets]
    rw [List.take_of_length_le (by rw [← len, ← h.idx_eq])]
  have hlen : b.mergeFull.hist.len = b.bucketIdx / 2 + 1 := by
    rw [len, hbuckets, length_mergePairs, ← len, ← h.idx_eq]
    omega
  refine ⟨⟨?_, ?_, ?_⟩, hlen⟩
  · rw [hbuckets]
    exact h.summarizes.mergePairs
  · rw [hlen]
    rfl
  · rw [hbuckets]
    exact forall_getLast?_mergePairs (p := (· ∈ S)) h.last_mem

/-- The run invariant after the values `S`, read in order. -/
structure Inv (S : List α) (b : SortedBuilder α) : Prop where
  count_eq : b.count = S.length
  ndv_eq : b.hist.ndv = S.dedup.length
  start : S = [] → b.hist.buckets = [] ∧ b.bucketIdx = 0
  shaped : S ≠ [] → Shaped S b
  len_le : 2 ≤ b.numBuckets → (b.hist.len : Int) ≤ b.numBuckets

theorem Inv.describes (h : Inv S b) : Describes b.hist S := by
  refine ⟨?_, h.ndv_eq⟩
  by_cases hS : S = []
  · rw [hS, (h.start hS).1]
    exact Summarizes.nil
  · exact (h.shaped hS).summarizes

theorem inv_newSortedBuilder (numBuckets : Int) :
    Inv [] (newSortedBuilder numBuckets : SortedBuilder α) :=
  ⟨rfl, rfl, fun _ => ⟨rfl, rfl⟩, fun h => absurd rfl h, fun h => by
    simp only [newSortedBuilder, len, List.length_nil, Nat.cast_zero] at h ⊢
    omega⟩

theorem Inv.of_shaped (hsh : Shaped (S ++ [x]) b) (hcount : b.count = S.length + 1)
    (hndv : b.hist.ndv = (S ++ [x]).dedup.length)
    (hlen : 2 ≤ b.numBuckets → (b.hist.len : Int) ≤ b.numBuckets) : Inv (S ++ [x]) b :=
  ⟨by simpa using hcount, hndv, fun h => absurd h (by simp), fun _ => hsh, hlen⟩

theorem ndv_succ_of_lt (hx : ∀ y ∈ S, y < x) {n : Int} (hndv : n = S.dedup.length) :
    n + 1 = ((S ++ [x]).dedup.length : Int) := by
  rw [length_dedup_append_new hx, hndv]
  push_cast
  rfl

theorem Shaped.update {init : List (Bucket α)} {c : Bucket α} (h : Shaped S b)
    (hb : b.hist.buckets = init ++ [c]) (hx : c.upper < x) {b' : SortedBuilder α}
    (hidx : b'.bucketIdx = b.bucketIdx)
    (hb' : b'.hist.buckets = (b.hist.updateLastBucket x (c.count + 1) 1).buckets) :
    Shaped (S ++ [x]) b' := by
  rw [updateLastBucket_snoc hb] at hb'
  refine ⟨?_, ?_, ?_⟩
  · rw [hb']
    exact (hb ▸ h.summarizes).snoc_update hx
  · rw [hidx, h.idx_eq]
    simp [len, hb, hb']
  · rw [hb']
    exact upper_mem_of_getLast?_snoc (by simp)

/-- A new value after a possible merge keeps the invariant when there is room for one more
bucket. -/
theorem Shaped.inv_placeNew (h : Shaped S b) (hx : ∀ y ∈ S, y < x)
    (hcount : b.count = S.length + 1) (hndv : b.hist.ndv = S.dedup.length)
    (hroom : 2 ≤ b.numBuckets → (b.hist.len : Int) + 1 ≤ b.numBuckets) :
    Inv (S ++ [x]) (b.placeNew x) := by
  obtain ⟨init, c, hb, hidx⟩ := h.exists_last
  have hcur : b.hist.buckets[b.bucketIdx]? = some c := by simp [hb, hidx]
  have hcx : c.upper < x := hx c.upper (h.last_mem c (by simp [hb]))
  rw [placeNew_of_getElem? hcur]
  split_ifs
  -- the value joins the last bucket
  · refine Inv.of_shaped (h.update hb hcx rfl rfl) hcount (ndv_succ_of_lt hx hndv) fun h2 => ?_
    have := hroom h2
    simp only [len, length_updateLastBucket_buckets] at this ⊢
    omega
  -- the value starts a bucket
  · refine Inv.of_shaped ⟨?_, ?_, ?_⟩ hcount (ndv_succ_of_lt hx hndv) fun h2 => ?_
    · show Summarizes (b.hist.buckets ++ [_]) _
      rw [hb, List.append_assoc]
      exact (hb ▸ h.summarizes).snoc_append hcx
    · simp [len, hb, hidx]
    · exact upper_mem_of_getLast?_snoc (by simp)
    · have := hroom h2
      simp only [len, List.length_append, List.length_singleton] at this ⊢
      omega

/-- One value read in order keeps the invariant. -/
theorem Inv.iterate (h : Inv S b) (hx : ∀ y ∈ S, y ≤ x) : Inv (S ++ [x]) (b.iterate x) := by
  by_cases hS : S = []
  -- the first value opens the first bucket
  · obtain ⟨hnil, hidx⟩ := h.start hS
    have hcount : b.count = 0 := by rw [h.count_eq, hS, List.length_nil]
    subst hS
    have hiter : b.iterate x = { b with count := 1, hist := ⟨1, [⟨x, x, 1, 1⟩]⟩ } := by
      simp [iterate, hcount, appendBucket, hnil]
    rw [hiter]
    refine Inv.of_shaped ⟨summarizes_singleton x, by simp [len, hidx], by simp⟩ rfl (by simp)
      fun h2 => ?_
    simp only [len, List.length_singleton, Nat.cast_one] at h2 ⊢
    omega
  have sh := h.shaped hS
  obtain ⟨init, c, hb, hidx⟩ := sh.exists_last
  have hcur : b.hist.buckets[b.bucketIdx]? = some c := by simp [hb, hidx]
  have hcS : c.upper ∈ S := sh.last_mem c (by simp [hb])
  have hsum : Summarizes (init ++ [c]) S := hb ▸ sh.summarizes
  have hcount : b.count ≠ 0 := by
    rw [h.count_eq]
    exact fun hzero => hS (List.eq_nil_of_length_eq_zero hzero)
  have hcount' : b.count + 1 = S.length + 1 := by rw [h.count_eq]
  rw [iterate_of_getElem? hcount hcur]
  rcases (hx c.upper hcS).eq_or_lt with heq | hlt
  -- a repeat of the current upper bound stays in the current bucket
  · rw [if_pos heq]
    subst heq
    have hset : b.hist.buckets.set b.bucketIdx
        { c with count := c.count + 1, «repeat» := c.repeat + 1 } =
          init ++ [{ c with count := c.count + 1, «repeat» := c.repeat + 1 }] := by
      rw [hb, hidx, List.set_append_right _ _ le_rfl, Nat.sub_self]
      rfl
    have hndv : b.hist.ndv = (S ++ [c.upper]).dedup.length := by
      rw [length_dedup_append_singleton, if_pos hcS, Nat.add_zero]
      exact h.ndv_eq
    refine Inv.of_shaped ⟨?_, ?_, ?_⟩ hcount' hndv fun h2 => ?_
    · rw [hset]
      exact hsum.snoc_repeat
    · simp [len, hidx, hb]
    · rw [hset]
      exact upper_mem_of_getLast?_snoc (by simp)
    · simpa [len, hset, hb] using h.len_le h2
  rw [if_neg hlt.ne]
  have hbelow : ∀ y ∈ S, y < x :=
    fun y hy => (hsum.le_upper_of_getLast? (by simp) y hy).trans_lt hlt
  have sh' : Shaped S { b with count := b.count + 1 } := ⟨sh.1, sh.2, sh.3⟩
  split_ifs with hroom hfull
  -- there is room in the current bucket
  · refine Inv.of_shaped (sh.update hb hlt rfl rfl) hcount' (ndv_succ_of_lt hbelow h.ndv_eq)
      fun h2 => ?_
    simpa [len] using h.len_le h2
  -- all buckets are in use: they are merged, which leaves room for one more
  · obtain ⟨hm, hmlen⟩ := sh'.mergeFull
    refine hm.inv_placeNew hbelow hcount' h.ndv_eq fun h2 => ?_
    rw [hmlen]
    simp only [mergeFull_numBuckets] at h2 ⊢
    have hn := hfull
    rw [hidx] at hn ⊢
    push_cast
    omega
  -- a bucket is free
  · refine sh'.inv_placeNew hbelow hcount' h.ndv_eq fun h2 => ?_
    have := h.len_le h2
    have hn := hfull
    simp only [len, hb, hidx, List.length_append, List.length_singleton] at this hn ⊢
    push_cast at this hn ⊢
    omega

/-- Every run on a sorted stream keeps the invariant. -/
theorem Inv.iterateAll : ∀ (l : List α) {S : List α} {b : SortedBuilder α}, Inv S b →
    (S ++ l).Pairwise (· ≤ ·) → Inv (S ++ l) (b.iterateAll l)
  | [], _, _, h, _ => by simpa using h
  | x :: l, S, b, h, hs => by
    have hx : ∀ y ∈ S, y ≤ x :=
      fun y hy => (List.pairwise_append.mp hs).2.2 y hy x List.mem_cons_self
    have hs' : ((S ++ [x]) ++ l).Pairwise (· ≤ ·) := by simpa using hs
    simpa using Inv.iterateAll l (h.iterate hx) hs'

end SortedBuilder

/-- Every sorted stream fed to a new builder leaves a histogram that describes it, and, when at
least two buckets are allowed, no more buckets than allowed. -/
theorem describes_iterateAll (numBuckets : Int) (l : List α) (hl : l.Pairwise (· ≤ ·)) :
    Describes ((newSortedBuilder numBuckets).iterateAll l).hist l ∧
      (2 ≤ numBuckets →
        (((newSortedBuilder numBuckets).iterateAll l).hist.len : Int) ≤ numBuckets) := by
  have h := (SortedBuilder.inv_newSortedBuilder numBuckets).iterateAll l (by simpa using hl)
  rw [List.nil_append] at h
  refine ⟨h.describes, fun h2 => ?_⟩
  have hlen := h.len_le
  simp only [SortedBuilder.iterateAll_numBuckets] at hlen
  exact hlen h2

example : ((newSortedBuilder 2).iterateAll [1, 2, 2, 3, 4]).hist =
    ⟨4, [⟨1, 2, 3, 2⟩, ⟨3, 4, 5, 1⟩]⟩ := by decide


/-- The builder keeps a histogram of every sorted stream, within `numBuckets` buckets when that is
at least two, but not with one bucket: repeats of `1` fill it, doubling its capacity leaves it full,
and from the second bucket on it never merges again. `MergeHistograms` of two histograms apart
from each other describes the union, but when the last bucket of one and the first of the other
both end at one value, the bucket they make keeps the repeats of the right-hand one only. -/
theorem histogram_spec :
    (∀ (α : Type) [LinearOrder α] (numBuckets : Int) (l : List α), l.Pairwise (· ≤ ·) →
      Describes ((newSortedBuilder numBuckets).iterateAll l).hist l ∧
        (2 ≤ numBuckets →
          (((newSortedBuilder numBuckets).iterateAll l).hist.len : Int) ≤ numBuckets)) ∧
    ((newSortedBuilder 1).iterateAll [1, 1, 2, 3, 4] : SortedBuilder Nat).hist =
      ⟨4, [⟨1, 1, 2, 2⟩, ⟨2, 3, 4, 1⟩, ⟨4, 4, 5, 1⟩]⟩ ∧
    (∀ (α : Type) [LinearOrder α] (lh rh : Histogram α) (S₁ S₂ : List α) (bucketSize : Int),
      Describes lh S₁ → Describes rh S₂ →
      (∀ a ∈ lh.buckets.getLast?, ∀ b ∈ rh.buckets.head?, a.upper < b.lower) → 1 ≤ bucketSize →
      Describes (mergeHistograms lh rh bucketSize) (S₁ ++ S₂) ∧
        (lh.buckets ≠ [] → rh.buckets ≠ [] →
          ((mergeHistograms lh rh bucketSize).len : Int) ≤ bucketSize)) ∧
    (Describes (⟨1, [⟨5, 5, 1, 1⟩]⟩ : Histogram Nat) [5] ∧
      mergeHistograms (⟨1, [⟨5, 5, 1, 1⟩]⟩ : Histogram Nat) ⟨1, [⟨5, 5, 1, 1⟩]⟩ 1 =
        ⟨1, [⟨5, 5, 2, 1⟩]⟩ ∧
      ¬ Describes (⟨1, [⟨5, 5, 2, 1⟩]⟩ : Histogram Nat) [5, 5]) := by
  refine ⟨fun α _ numBuckets l hl => describes_iterateAll numBuckets l hl, by decide,
    fun α _ lh rh S₁ S₂ bucketSize h₁ h₂ hsep hk => describes_mergeHistograms h₁ h₂ hsep hk, ?_⟩
  exact ⟨by decide, by decide, by decide⟩

theorem histogram_spec_streams :
    Describes ((newSortedBuilder 2).iterateAll [1, 2, 2, 3, 4] : SortedBuilder Nat).hist
        [1, 2, 2, 3, 4] ∧
      Describes (mergeHistograms (⟨2, [⟨1, 2, 2, 1⟩]⟩ : Histogram Nat) ⟨1, [⟨4, 4, 1, 1⟩]⟩ 1)
        ([1, 2] ++ [4]) :=
  ⟨(histogram_spec.1 Nat 2 _ (by decide)).1,
    (histogram_spec.2.2.1 Nat _ _ [1, 2] [4] 1 (by decide) (by decide) (by decide) le_rfl).1⟩

end TinySql.Statistics
