import Mathlib

/-!
# Histograms and their merge

`statistics/histogram.go`. A histogram is a run of buckets, each with its bounds, the number of
values up to its upper bound (counts are cumulative) and the number of repeats of its upper bound.
`mergeBuckets` halves it, two neighbours into one, and `MergeHistograms` joins the histograms of two
adjacent ranges of values, halving either side until both fit and their bucket sizes are alike.

What a histogram is for is `Describes hg S`: its buckets ascend, cover the multiset `S`, and their
counts, repeats and distinct-value count are those of `S`. Halving keeps that
(`Summarizes.mergePairs`, with the loops' own induction rules), and `MergeHistograms` of two histograms apart from each other
describes the union (`describes_mergeHistograms`). When the last upper bound of one is the first
lower bound of the other, the two buckets become one that takes the repeats of the right-hand
bucket only, which loses those of the left-hand one when the right-hand bucket ends at that value.

Values are of any linear order, as datums of one kind are under `CompareDatum`, and the counters are
integers: the code's are 64-bit, which no histogram of a table reaches.
-/

namespace TinySql.Statistics

variable {α : Type*}

/-- A bucket of `Histogram`: its bounds (rows `2i` and `2i + 1` of `Bounds`) with its `Bucket`,
the cumulative count and the repeats of the upper bound. -/
structure Bucket (α : Type*) where
  lower : α
  upper : α
  count : Int
  «repeat» : Int
deriving DecidableEq, Repr

@[ext]
structure Histogram (α : Type*) where
  ndv : Int
  buckets : List (Bucket α)
deriving DecidableEq, Repr

namespace Histogram

def len (hg : Histogram α) : Nat := hg.buckets.length

def appendBucket (hg : Histogram α) (lower upper : α) (count rep : Int) : Histogram α :=
  { hg with buckets := hg.buckets ++ [⟨lower, upper, count, rep⟩] }

/-- Replaces the upper bound and the counts of the last bucket. -/
def updateLastBucket (hg : Histogram α) (upper : α) (count rep : Int) : Histogram α :=
  { hg with
    buckets := match hg.buckets.getLast? with
      | some b => hg.buckets.dropLast ++ [{ b with upper, count, «repeat» := rep }]
      | none => [] }

/-- The loop of `mergeBuckets`: buckets `i` and `i + 1` become one spanning both, with the count and
repeats of bucket `i + 1`; an unpaired last bucket is kept as it is. -/
def mergePairs : List (Bucket α) → List (Bucket α)
  | a :: b :: rest => { b with lower := a.lower } :: mergePairs rest
  | [a] => [a]
  | [] => []

/-- Merges every two neighbours among the buckets up to `bucketIdx`, dropping those after it. -/
def mergeBuckets (hg : Histogram α) (bucketIdx : Nat) : Histogram α :=
  { hg with buckets := mergePairs (hg.buckets.take (bucketIdx + 1)) }

def popFirstBucket (hg : Histogram α) : Histogram α :=
  { hg with buckets := hg.buckets.tail }

/-- The loop `for hg.Len() > bucketSize { hg.mergeBuckets(hg.Len() - 1) }`, with a fuel that
`MergeHistograms` sets to the length. -/
def mergeWhileLonger (bucketSize : Int) : Nat → Histogram α → Histogram α
  | 0, hg => hg
  | fuel + 1, hg =>
    if (hg.len : Int) > bucketSize then
      mergeWhileLonger bucketSize fuel (hg.mergeBuckets (hg.len - 1))
    else hg

/-- The loop `for hg.Len() > 1 && avg*2 <= other { hg.mergeBuckets(hg.Len() - 1); avg *= 2 }` of
`MergeHistograms`, balancing the average bucket sizes of the two sides. -/
def mergeWhileSparser (other : Float) : Nat → Histogram α × Float → Histogram α × Float
  | 0, s => s
  | fuel + 1, (hg, avg) =>
    if hg.len > 1 ∧ avg * 2 ≤ other then
      mergeWhileSparser other fuel (hg.mergeBuckets (hg.len - 1), avg * 2)
    else (hg, avg)

end Histogram

open Histogram

/-- The end of `MergeHistograms`, once both sides have at most `bucketSize` buckets: the side with
the smaller buckets is halved until the average sizes are within a factor of two, the right-hand
buckets are appended with their counts moved past the left-hand ones, and the result is halved
down to `bucketSize` buckets. -/
def mergeBalanced (lh rh : Histogram α) (offset bucketSize : Int) : Histogram α :=
  let lCount := (lh.buckets.getLast?.map (·.count)).getD 0
  let rCount := (rh.buckets.getLast?.map (·.count)).getD 0 - offset
  let lAvg := Float.ofInt lCount / lh.len.toFloat
  let rAvg := Float.ofInt rCount / rh.len.toFloat
  let left := mergeWhileSparser rAvg lh.len (lh, lAvg)
  let right := mergeWhileSparser left.2 rh.len (rh, rAvg)
  let lh : Histogram α := { left.1 with
    buckets := left.1.buckets ++
      right.1.buckets.map fun (b : Bucket α) => { b with count := b.count + lCount - offset } }
  lh.mergeWhileLonger bucketSize lh.len

namespace Histogram

@[simp]
theorem appendBucket_buckets (hg : Histogram α) (lower upper : α) (count rep : Int) :
    (hg.appendBucket lower upper count rep).buckets = hg.buckets ++ [⟨lower, upper, count, rep⟩] :=
  rfl

@[simp]
theorem appendBucket_ndv (hg : Histogram α) (lower upper : α) (count rep : Int) :
    (hg.appendBucket lower upper count rep).ndv = hg.ndv := rfl

@[simp]
theorem updateLastBucket_ndv (hg : Histogram α) (upper : α) (count rep : Int) :
    (hg.updateLastBucket upper count rep).ndv = hg.ndv := rfl

@[simp]
theorem length_updateLastBucket_buckets (hg : Histogram α) (upper : α) (count rep : Int) :
    (hg.updateLastBucket upper count rep).buckets.length = hg.buckets.length := by
  unfold updateLastBucket
  split
  · next b hb =>
    rw [List.length_append, List.length_dropLast, List.length_singleton]
    have hne : hg.buckets ≠ [] := fun hnil => by simp [hnil] at hb
    have hpos := List.length_pos_iff.mpr hne
    omega
  · next hb => rw [List.getLast?_eq_none_iff.mp hb]

theorem updateLastBucket_snoc {hg : Histogram α} {init : List (Bucket α)} {c : Bucket α}
    (h : hg.buckets = init ++ [c]) (upper : α) (count rep : Int) :
    (hg.updateLastBucket upper count rep).buckets =
      init ++ [{ c with upper, count, «repeat» := rep }] := by
  simp [updateLastBucket, h]

end Histogram

/-! ## Merging neighbours -/

section MergePairs


@[simp]
theorem mergePairs_cons_cons (a b : Bucket α) (rest : List (Bucket α)) :
    mergePairs (a :: b :: rest) = { b with lower := a.lower } :: mergePairs rest := rfl

theorem length_mergePairs : ∀ bs : List (Bucket α), (mergePairs bs).length = (bs.length + 1) / 2
  | _ :: _ :: rest => by
    rw [mergePairs_cons_cons, List.length_cons, length_mergePairs rest]
    simp only [List.length_cons]
    omega
  | [_] => by simp [mergePairs]
  | [] => by simp [mergePairs]

/-- Every merged bucket is a bucket of the list with the lower bound of another. -/
theorem mem_mergePairs : ∀ {bs : List (Bucket α)} {c : Bucket α}, c ∈ mergePairs bs →
    ∃ a ∈ bs, ∃ b ∈ bs, c = { b with lower := a.lower }
  | a :: b :: rest, c, hc => by
    rcases List.mem_cons.mp hc with rfl | hc
    · exact ⟨a, by simp, b, by simp, rfl⟩
    · obtain ⟨a', ha', b', hb', rfl⟩ := mem_mergePairs hc
      exact ⟨a', by simp [ha'], b', by simp [hb'], rfl⟩
  | [a], c, hc => by
    rw [List.mem_singleton.mp hc]
    exact ⟨a, by simp, a, by simp, rfl⟩
  | [], _, hc => by simp [mergePairs] at hc

theorem head?_mergePairs {bs : List (Bucket α)} {c : Bucket α} (hc : c ∈ (mergePairs bs).head?) :
    ∃ c' ∈ bs.head?, c.lower = c'.lower := by
  match bs, hc with
  | a :: b :: rest, hc =>
    rw [mergePairs_cons_cons, List.head?_cons, Option.mem_some_iff] at hc
    exact ⟨a, rfl, by rw [← hc]⟩
  | [a], hc =>
    have hac : a = c := by simpa [mergePairs] using hc
    exact ⟨a, rfl, by rw [hac]⟩
  | [], hc => simp [mergePairs] at hc

theorem getLast?_mergePairs : ∀ {bs : List (Bucket α)} {c : Bucket α},
    c ∈ (mergePairs bs).getLast? → ∃ c' ∈ bs.getLast?, c.upper = c'.upper ∧ c.count = c'.count
  | [a, b], c, hc => by
    simp only [mergePairs, List.getLast?_singleton, Option.mem_def, Option.some.injEq] at hc
    exact ⟨b, by simp, by rw [← hc], by rw [← hc]⟩
  | a :: b :: d :: rest, c, hc => by
    have hne : 0 < (mergePairs (d :: rest)).length := by
      rw [length_mergePairs, List.length_cons]
      omega
    obtain ⟨m, ms, hms⟩ := List.exists_cons_of_length_pos hne
    rw [mergePairs_cons_cons, hms, List.getLast?_cons_cons, ← hms] at hc
    obtain ⟨c', hc', hup, hcount⟩ := getLast?_mergePairs hc
    exact ⟨c', by simpa [List.getLast?_cons_cons] using hc', hup, hcount⟩
  | [a], c, hc => by
    have hac : a = c := by simpa [mergePairs] using hc
    exact ⟨a, by simp, by rw [hac], by rw [hac]⟩
  | [], _, hc => by simp [mergePairs] at hc

theorem forall_getLast?_mergePairs {bs : List (Bucket α)} {p : α → Prop}
    (h : ∀ a ∈ bs.getLast?, p a.upper) : ∀ a ∈ (mergePairs bs).getLast?, p a.upper := by
  intro a ha
  obtain ⟨a', ha', hup, -⟩ := getLast?_mergePairs ha
  rw [hup]
  exact h a' ha'

theorem forall_head?_mergePairs {bs : List (Bucket α)} {p : α → Prop}
    (h : ∀ b ∈ bs.head?, p b.lower) : ∀ b ∈ (mergePairs bs).head?, p b.lower := by
  intro b hb
  obtain ⟨b', hb', hlo⟩ := head?_mergePairs hb
  rw [hlo]
  exact h b' hb'

theorem mergeBuckets_len_sub_one (hg : Histogram α) :
    hg.mergeBuckets (hg.len - 1) = { hg with buckets := mergePairs hg.buckets } := by
  rw [mergeBuckets, List.take_of_length_le (by rw [len]; omega)]

/-- The loop of `mergeWhileLonger` keeps any property that merging neighbours keeps. -/
theorem mergeWhileLonger_induction {P : Histogram α → Prop}
    (hP : ∀ hg, P hg → P { hg with buckets := mergePairs hg.buckets }) {k : Int} :
    ∀ fuel hg, P hg → P (hg.mergeWhileLonger k fuel)
  | 0, _, h => h
  | fuel + 1, hg, h => by
    rw [mergeWhileLonger]
    split_ifs
    · apply mergeWhileLonger_induction hP fuel
      rw [mergeBuckets_len_sub_one]
      exact hP hg h
    · exact h

theorem mergeWhileSparser_induction {P : Histogram α → Prop}
    (hP : ∀ hg, P hg → P { hg with buckets := mergePairs hg.buckets }) {other : Float} :
    ∀ fuel hg avg, P hg → P (mergeWhileSparser other fuel (hg, avg)).1
  | 0, _, _, h => h
  | fuel + 1, hg, avg, h => by
    rw [mergeWhileSparser]
    split_ifs
    · apply mergeWhileSparser_induction hP fuel
      rw [mergeBuckets_len_sub_one]
      exact hP hg h
    · exact h

/-- With `bucketSize ≥ 1` and a fuel of the length, the loop leaves at most `bucketSize` buckets:
each merge of two or more buckets removes at least one. -/
theorem len_mergeWhileLonger_le {k : Int} (hk : 1 ≤ k) :
    ∀ fuel (hg : Histogram α), hg.len ≤ fuel → ((hg.mergeWhileLonger k fuel).len : Int) ≤ k
  | 0, hg, h => by
    rw [mergeWhileLonger]
    omega
  | fuel + 1, hg, h => by
    rw [mergeWhileLonger]
    split_ifs with hlong
    · apply len_mergeWhileLonger_le hk fuel
      rw [mergeBuckets_len_sub_one, len, length_mergePairs]
      rw [len] at h hlong
      omega
    · exact not_lt.mp hlong

end MergePairs

variable [LinearOrder α]

/-- `MergeHistograms`. When the last upper bound of `lh` is the first lower bound of `rh`, that
value is counted as one distinct value and the two buckets become one. -/
def mergeHistograms (lh rh : Histogram α) (bucketSize : Int) : Histogram α :=
  match lh.buckets.getLast?, rh.buckets.head? with
  | none, _ => rh
  | _, none => lh
  | some lLast, some rFirst =>
    let lh := { lh with ndv := lh.ndv + rh.ndv }
    let fused := compare lLast.upper rFirst.lower = .eq
    let lh := if fused then
        { lh with ndv := lh.ndv - 1 }.updateLastBucket rFirst.upper (lLast.count + rFirst.count)
          rFirst.repeat
      else lh
    let offset := if fused then rFirst.count else 0
    let rh := if fused then rh.popFirstBucket else rh
    let lh := lh.mergeWhileLonger bucketSize lh.len
    if rh.len = 0 then lh
    else mergeBalanced lh (rh.mergeWhileLonger bucketSize rh.len) offset bucketSize

/-! ## What a histogram describes -/

section Describes

/-- The buckets ascend: each lower bound is at most its upper bound, which is below the next
bucket's lower bound. -/
def Ordered (bs : List (Bucket α)) : Prop :=
  (∀ b ∈ bs, b.lower ≤ b.upper) ∧ bs.IsChain fun a b => a.upper < b.lower

instance (bs : List (Bucket α)) : Decidable (Ordered bs) :=
  inferInstanceAs (Decidable (_ ∧ _))

/-- The buckets `bs` summarize the multiset of `S`: they ascend, every element lies in one of them,
and a bucket's count and repeats are the numbers of elements up to and at its upper bound. -/
structure Summarizes (bs : List (Bucket α)) (S : List α) : Prop where
  ordered : Ordered bs
  covers : ∀ x ∈ S, ∃ b ∈ bs, b.lower ≤ x ∧ x ≤ b.upper
  count_eq : ∀ b ∈ bs, b.count = S.countP (· ≤ b.upper)
  repeat_eq : ∀ b ∈ bs, b.repeat = S.count b.upper

/-- `hg` describes the multiset of `S`: its buckets summarize `S` and its `NDV` is the number of
distinct elements of `S`. Only the multiset matters: both parts are invariant under permuting
`S`. -/
structure Describes (hg : Histogram α) (S : List α) : Prop where
  summarizes : Summarizes hg.buckets S
  ndv_eq : hg.ndv = S.dedup.length

instance (bs : List (Bucket α)) (S : List α) : Decidable (Summarizes bs S) :=
  decidable_of_iff (Ordered bs ∧ (∀ x ∈ S, ∃ b ∈ bs, b.lower ≤ x ∧ x ≤ b.upper) ∧
      (∀ b ∈ bs, b.count = S.countP (· ≤ b.upper)) ∧ ∀ b ∈ bs, b.repeat = S.count b.upper)
    ⟨fun ⟨h₁, h₂, h₃, h₄⟩ => ⟨h₁, h₂, h₃, h₄⟩, fun h => ⟨h.1, h.2, h.3, h.4⟩⟩

instance (hg : Histogram α) (S : List α) : Decidable (Describes hg S) :=
  decidable_of_iff (Summarizes hg.buckets S ∧ hg.ndv = S.dedup.length)
    ⟨fun ⟨h₁, h₂⟩ => ⟨h₁, h₂⟩, fun h => ⟨h.1, h.2⟩⟩

theorem pairwise_of_isChain :
    ∀ {bs : List (Bucket α)}, (∀ b ∈ bs, b.lower ≤ b.upper) →
      (bs.IsChain fun a b => a.upper < b.lower) → bs.Pairwise fun a b => a.upper < b.lower
  | [], _, _ => .nil
  | [_], _, _ => List.pairwise_singleton _ _
  | a :: b :: rest, hle, hc => by
    rw [List.isChain_cons_cons] at hc
    have ih := pairwise_of_isChain (fun c hc' => hle c (List.mem_cons_of_mem _ hc')) hc.2
    refine List.Pairwise.cons (fun c hc' => ?_) ih
    rcases List.mem_cons.mp hc' with rfl | hmem
    · exact hc.1
    -- a.upper < b.lower ≤ b.upper < c.lower
    · have hbc := (List.pairwise_cons.mp ih).1 c hmem
      exact hc.1.trans (lt_of_le_of_lt (hle b (by simp)) hbc)

theorem ordered_iff_pairwise {bs : List (Bucket α)} :
    Ordered bs ↔ (∀ b ∈ bs, b.lower ≤ b.upper) ∧ bs.Pairwise fun a b => a.upper < b.lower :=
  ⟨fun h => ⟨h.1, pairwise_of_isChain h.1 h.2⟩, fun h => ⟨h.1, h.2.isChain⟩⟩

theorem ordered_cons {b : Bucket α} {bs : List (Bucket α)} :
    Ordered (b :: bs) ↔ b.lower ≤ b.upper ∧ (∀ c ∈ bs, b.upper < c.lower) ∧ Ordered bs := by
  simp only [ordered_iff_pairwise, List.forall_mem_cons, List.pairwise_cons]
  tauto

theorem ordered_append {l₁ l₂ : List (Bucket α)} :
    Ordered (l₁ ++ l₂) ↔ Ordered l₁ ∧ Ordered l₂ ∧ ∀ a ∈ l₁, ∀ b ∈ l₂, a.upper < b.lower := by
  simp only [ordered_iff_pairwise, List.forall_mem_append, List.pairwise_append]
  tauto

theorem ordered_snoc {init : List (Bucket α)} {c : Bucket α} :
    Ordered (init ++ [c]) ↔ Ordered init ∧ c.lower ≤ c.upper ∧ ∀ a ∈ init, a.upper < c.lower := by
  simp only [ordered_iff_pairwise, List.forall_mem_append, List.pairwise_append,
    List.mem_singleton, forall_eq, List.pairwise_singleton]
  tauto

theorem ordered_singleton {b : Bucket α} : Ordered [b] ↔ b.lower ≤ b.upper := by
  simp [Ordered]

theorem Ordered.upper_le_of_getLast? {bs : List (Bucket α)} {b c : Bucket α} (h : Ordered bs)
    (hc : c ∈ bs.getLast?) (hb : b ∈ bs) : b.upper ≤ c.upper := by
  obtain ⟨init, rfl⟩ := List.getLast?_eq_some_iff.mp hc
  obtain ⟨-, hc, hbefore⟩ := ordered_snoc.mp h
  rcases List.mem_append.mp hb with hb | hb
  · exact (hbefore b hb).le.trans hc
  · rw [List.mem_singleton.mp hb]

theorem Ordered.lower_le_of_head? {bs : List (Bucket α)} {b c : Bucket α} (h : Ordered bs)
    (hc : c ∈ bs.head?) (hb : b ∈ bs) : c.lower ≤ b.lower := by
  obtain ⟨rest, rfl⟩ := List.head?_eq_some_iff.mp hc
  obtain ⟨hle, hbefore, -⟩ := ordered_cons.mp h
  rcases List.mem_cons.mp hb with rfl | hb
  · exact le_rfl
  · exact hle.trans (hbefore b hb).le

theorem length_dedup_append_singleton (S : List α) (x : α) :
    (S ++ [x]).dedup.length = S.dedup.length + if x ∈ S then 0 else 1 := by
  rw [((List.perm_append_singleton x S).dedup).length_eq]
  split_ifs with hx
  · rw [List.dedup_cons_of_mem hx, Nat.add_zero]
  · rw [List.dedup_cons_of_notMem hx, List.length_cons]

/-- An element above a bucket's upper bound changes neither its count nor its repeats. -/
theorem counts_append_of_lt {S T : List α} {b : Bucket α} (hT : ∀ y ∈ T, b.upper < y)
    (hcount : b.count = S.countP (· ≤ b.upper)) (hrep : b.repeat = S.count b.upper) :
    b.count = (S ++ T).countP (· ≤ b.upper) ∧ b.repeat = (S ++ T).count b.upper := by
  have hle : T.countP (· ≤ b.upper) = 0 :=
    List.countP_eq_zero.mpr fun y hy => by simpa using hT y hy
  have hcnt : T.count b.upper = 0 := List.count_eq_zero.mpr fun hy => lt_irrefl _ (hT _ hy)
  rw [List.countP_append, List.count_append, hle, hcnt]
  exact ⟨by simpa using hcount, by simpa using hrep⟩

namespace Summarizes

variable {bs : List (Bucket α)} {S : List α}

theorem eq_nil_of_buckets_nil (h : Summarizes [] S) : S = [] :=
  List.eq_nil_iff_forall_not_mem.mpr fun x hx => by simpa using h.covers x hx

theorem nil : Summarizes ([] : List (Bucket α)) [] :=
  ⟨by simp [Ordered], by simp, by simp, by simp⟩

theorem le_upper_of_getLast? {c : Bucket α} (h : Summarizes bs S) (hc : c ∈ bs.getLast?) :
    ∀ x ∈ S, x ≤ c.upper := by
  intro x hx
  obtain ⟨b, hb, -, hxb⟩ := h.covers x hx
  exact hxb.trans (h.ordered.upper_le_of_getLast? hc hb)

theorem lower_le_of_head? {c : Bucket α} (h : Summarizes bs S) (hc : c ∈ bs.head?) :
    ∀ x ∈ S, c.lower ≤ x := by
  intro x hx
  obtain ⟨b, hb, hbx, -⟩ := h.covers x hx
  exact (h.ordered.lower_le_of_head? hc hb).trans hbx

theorem count_of_getLast? {c : Bucket α} (h : Summarizes bs S) (hc : c ∈ bs.getLast?) :
    c.count = S.length := by
  rw [h.count_eq c (List.mem_of_mem_getLast? hc), List.countP_eq_length.mpr]
  intro x hx
  simpa using h.le_upper_of_getLast? hc x hx

/-- The last bucket gives way to buckets `tail` that cover its range and a new element `x` at or
above it, and count the elements with `x`. -/
theorem replaceLast {init tail : List (Bucket α)} {c : Bucket α} {x : α}
    (h : Summarizes (init ++ [c]) S) (hx : c.upper ≤ x) (hord : Ordered (init ++ tail))
    (hold : ∀ y, c.lower ≤ y → y ≤ c.upper → ∃ b ∈ tail, b.lower ≤ y ∧ y ≤ b.upper)
    (hnew : ∃ b ∈ tail, b.lower ≤ x ∧ x ≤ b.upper)
    (htail : ∀ b ∈ tail,
      b.count = (S ++ [x]).countP (· ≤ b.upper) ∧ b.repeat = (S ++ [x]).count b.upper) :
    Summarizes (init ++ tail) (S ++ [x]) := by
  obtain ⟨-, hc, hbefore⟩ := ordered_snoc.mp h.ordered
  -- the buckets before the last end below `x`, so their counts stand
  have hinit : ∀ b ∈ init,
      b.count = (S ++ [x]).countP (· ≤ b.upper) ∧ b.repeat = (S ++ [x]).count b.upper := by
    intro b hb
    have hbx : b.upper < x := (hbefore b hb).trans_le (hc.trans hx)
    have hmem : b ∈ init ++ [c] := List.mem_append_left _ hb
    exact counts_append_of_lt (by simpa using hbx) (h.count_eq b hmem) (h.repeat_eq b hmem)
  have hcounts : ∀ b ∈ init ++ tail,
      b.count = (S ++ [x]).countP (· ≤ b.upper) ∧ b.repeat = (S ++ [x]).count b.upper := by
    intro b hb
    rcases List.mem_append.mp hb with hb | hb
    · exact hinit b hb
    · exact htail b hb
  refine ⟨hord, ?_, fun b hb => (hcounts b hb).1, fun b hb => (hcounts b hb).2⟩
  intro y hy
  rcases List.mem_append.mp hy with hy | hy
  · obtain ⟨b, hb, hlo, hhi⟩ := h.covers y hy
    rcases List.mem_append.mp hb with hb | hb
    · exact ⟨b, List.mem_append_left _ hb, hlo, hhi⟩
    · rw [List.mem_singleton.mp hb] at hlo hhi
      obtain ⟨b', hb', hlo', hhi'⟩ := hold y hlo hhi
      exact ⟨b', List.mem_append_right _ hb', hlo', hhi'⟩
  · rw [List.mem_singleton.mp hy]
    obtain ⟨b', hb', hlo', hhi'⟩ := hnew
    exact ⟨b', List.mem_append_right _ hb', hlo', hhi'⟩

end Summarizes

end Describes

section OrderedMerge

theorem ordered_mergePairs : ∀ {bs : List (Bucket α)}, Ordered bs → Ordered (mergePairs bs)
  | a :: b :: rest, h => by
    obtain ⟨ha, hab, h⟩ := ordered_cons.mp h
    obtain ⟨hb, hbrest, hrest⟩ := ordered_cons.mp h
    rw [mergePairs_cons_cons, ordered_cons]
    -- the merged bucket spans `a.lower ≤ a.upper < b.lower ≤ b.upper`
    refine ⟨ha.trans ((hab b (by simp)).le.trans hb), fun c hc => ?_, ordered_mergePairs hrest⟩
    obtain ⟨d, hd, -, -, rfl⟩ := mem_mergePairs hc
    exact hbrest d hd
  | [_], h => h
  | [], h => h

/-- A merged bucket spans each of the buckets it was made of. -/
theorem covers_mergePairs : ∀ {bs : List (Bucket α)}, Ordered bs → ∀ b ∈ bs,
    ∃ c ∈ mergePairs bs, c.lower ≤ b.lower ∧ b.upper ≤ c.upper
  | a :: b :: rest, h, x, hx => by
    obtain ⟨ha, hab, h⟩ := ordered_cons.mp h
    obtain ⟨hb, -, hrest⟩ := ordered_cons.mp h
    have hab' : a.upper < b.lower := hab b (by simp)
    rw [mergePairs_cons_cons]
    rcases List.mem_cons.mp hx with rfl | hx
    · exact ⟨_, List.mem_cons_self, le_rfl, hab'.le.trans hb⟩
    rcases List.mem_cons.mp hx with rfl | hx
    · exact ⟨_, List.mem_cons_self, ha.trans hab'.le, le_rfl⟩
    · obtain ⟨c, hc, hlo, hhi⟩ := covers_mergePairs hrest x hx
      exact ⟨c, List.mem_cons_of_mem _ hc, hlo, hhi⟩
  | [a], _, x, hx => ⟨x, hx, le_rfl, le_rfl⟩
  | [], _, _, hx => by simp at hx

theorem Summarizes.mergePairs {bs : List (Bucket α)} {S : List α} (h : Summarizes bs S) :
    Summarizes (mergePairs bs) S := by
  refine ⟨ordered_mergePairs h.ordered, ?_, ?_, ?_⟩
  · intro x hx
    obtain ⟨b, hb, hlo, hhi⟩ := h.covers x hx
    obtain ⟨c, hc, hclo, hchi⟩ := covers_mergePairs h.ordered b hb
    exact ⟨c, hc, hclo.trans hlo, hhi.trans hchi⟩
  · intro c hc
    obtain ⟨-, -, b, hb, rfl⟩ := mem_mergePairs hc
    exact h.count_eq b hb
  · intro c hc
    obtain ⟨-, -, b, hb, rfl⟩ := mem_mergePairs hc
    exact h.repeat_eq b hb

end OrderedMerge

/-! ## Merging two histograms -/

section MergeHistograms

theorem Ordered.map_count {bs : List (Bucket α)} (h : Ordered bs) (f : Bucket α → Int) :
    Ordered (bs.map fun b => { b with count := f b }) := by
  rw [ordered_iff_pairwise] at h ⊢
  refine ⟨?_, List.pairwise_map.mpr h.2⟩
  intro b hb
  obtain ⟨b', hb', rfl⟩ := List.mem_map.mp hb
  exact h.1 b' hb'

/-- Two ordered runs of buckets, the first ending below the start of the second, are apart bucket
by bucket. -/
theorem Ordered.upper_lt_lower {l₁ l₂ : List (Bucket α)} (h₁ : Ordered l₁) (h₂ : Ordered l₂)
    (hsep : ∀ a ∈ l₁.getLast?, ∀ b ∈ l₂.head?, a.upper < b.lower) :
    ∀ a ∈ l₁, ∀ b ∈ l₂, a.upper < b.lower := by
  intro a ha b hb
  obtain ⟨last, hlast⟩ := Option.ne_none_iff_exists'.mp
    (mt List.getLast?_eq_none_iff.mp (List.ne_nil_of_mem ha))
  obtain ⟨first, hfirst⟩ := Option.ne_none_iff_exists'.mp
    (mt List.head?_eq_none_iff.mp (List.ne_nil_of_mem hb))
  calc a.upper ≤ last.upper := h₁.upper_le_of_getLast? hlast ha
    _ < first.lower := hsep last hlast first hfirst
    _ ≤ b.lower := h₂.lower_le_of_head? hfirst hb

theorem Summarizes.lt_of_sep {l₁ l₂ : List (Bucket α)} {S₁ S₂ : List α}
    (h₁ : Summarizes l₁ S₁) (h₂ : Summarizes l₂ S₂)
    (hsep : ∀ a ∈ l₁.getLast?, ∀ b ∈ l₂.head?, a.upper < b.lower) :
    ∀ x ∈ S₁, ∀ y ∈ S₂, x < y := by
  intro x hx y hy
  obtain ⟨a, ha, -, hxa⟩ := h₁.covers x hx
  obtain ⟨b, hb, hby, -⟩ := h₂.covers y hy
  exact hxa.trans_lt ((h₁.ordered.upper_lt_lower h₂.ordered hsep a ha b hb).trans_le hby)

theorem Summarizes.getD_count_getLast? {bs : List (Bucket α)} {S : List α} (h : Summarizes bs S) :
    (bs.getLast?.map (·.count)).getD 0 = S.length := by
  cases hl : bs.getLast? with
  | none =>
    rw [List.getLast?_eq_none_iff.mp hl] at h
    simp [h.eq_nil_of_buckets_nil]
  | some c => simpa using h.count_of_getLast? hl

theorem length_dedup_append_of_lt {S₁ S₂ : List α} (h : ∀ x ∈ S₁, ∀ y ∈ S₂, x < y) :
    (S₁ ++ S₂).dedup.length = S₁.dedup.length + S₂.dedup.length := by
  rw [← List.card_toFinset, List.toFinset_append, Finset.card_union_of_disjoint,
    List.card_toFinset, List.card_toFinset]
  rw [List.disjoint_toFinset_iff_disjoint]
  intro x hx₁ hx₂
  exact lt_irrefl x (h x hx₁ x hx₂)

/-- The right-hand buckets, appended with their counts moved past the left-hand elements. -/
theorem Summarizes.append {l₁ l₂ : List (Bucket α)} {S₁ S₂ : List α} {lCount offset : Int}
    (h₁ : Summarizes l₁ S₁) (h₂ : Summarizes l₂ S₂)
    (hsep : ∀ a ∈ l₁.getLast?, ∀ b ∈ l₂.head?, a.upper < b.lower)
    (hshift : lCount - offset = S₁.length) :
    Summarizes (l₁ ++ l₂.map fun b => { b with count := b.count + lCount - offset })
      (S₁ ++ S₂) := by
  have hapart := h₁.ordered.upper_lt_lower h₂.ordered hsep
  have habove : ∀ a ∈ l₁, ∀ y ∈ S₂, a.upper < y := by
    intro a ha y hy
    obtain ⟨b, hb, hby, -⟩ := h₂.covers y hy
    exact (hapart a ha b hb).trans_le hby
  have hbelow : ∀ b ∈ l₂, ∀ x ∈ S₁, x < b.upper := by
    intro b hb x hx
    obtain ⟨a, ha, -, hxa⟩ := h₁.covers x hx
    exact hxa.trans_lt ((hapart a ha b hb).trans_le ((ordered_iff_pairwise.mp h₂.ordered).1 b hb))
  -- a left-hand bucket counts no right-hand element; a right-hand one counts every left-hand one
  have hleft : ∀ a ∈ l₁,
      a.count = (S₁ ++ S₂).countP (· ≤ a.upper) ∧ a.repeat = (S₁ ++ S₂).count a.upper :=
    fun a ha => counts_append_of_lt (habove a ha) (h₁.count_eq a ha) (h₁.repeat_eq a ha)
  have hright : ∀ b ∈ l₂, b.count + lCount - offset = (S₁ ++ S₂).countP (· ≤ b.upper) ∧
      b.repeat = (S₁ ++ S₂).count b.upper := by
    intro b hb
    have hall : S₁.countP (· ≤ b.upper) = S₁.length :=
      List.countP_eq_length.mpr fun x hx => by simpa using (hbelow b hb x hx).le
    have hnone : S₁.count b.upper = 0 :=
      List.count_eq_zero.mpr fun hx => lt_irrefl _ (hbelow b hb _ hx)
    rw [List.countP_append, List.count_append, hall, hnone, h₂.count_eq b hb, h₂.repeat_eq b hb]
    constructor
    · push_cast
      omega
    · simp
  refine ⟨ordered_append.mpr ⟨h₁.ordered, h₂.ordered.map_count _, ?_⟩, ?_, ?_, ?_⟩
  · intro a ha b hb
    obtain ⟨b', hb', rfl⟩ := List.mem_map.mp hb
    exact hapart a ha b' hb'
  · intro x hx
    rcases List.mem_append.mp hx with hx | hx
    · obtain ⟨a, ha, hlo, hhi⟩ := h₁.covers x hx
      exact ⟨a, List.mem_append_left _ ha, hlo, hhi⟩
    · obtain ⟨b, hb, hlo, hhi⟩ := h₂.covers x hx
      exact ⟨_, List.mem_append_right _ (List.mem_map_of_mem hb), hlo, hhi⟩
  · intro c hc
    rcases List.mem_append.mp hc with hc | hc
    · exact (hleft c hc).1
    · obtain ⟨b, hb, rfl⟩ := List.mem_map.mp hc
      exact (hright b hb).1
  · intro c hc
    rcases List.mem_append.mp hc with hc | hc
    · exact (hleft c hc).2
    · obtain ⟨b, hb, rfl⟩ := List.mem_map.mp hc
      exact (hright b hb).2

theorem Describes.mergeWhileLonger {hg : Histogram α} {S : List α} (h : Describes hg S) (k : Int)
    (fuel : Nat) : Describes (hg.mergeWhileLonger k fuel) S :=
  mergeWhileLonger_induction (P := fun hg => Describes hg S)
    (fun _ h => ⟨h.summarizes.mergePairs, h.ndv_eq⟩) fuel hg h

/-- The end of the merge, on two sides apart from each other whose summaries are right and whose
distinct-value counts add up to the union's. -/
theorem describes_mergeBalanced {L R : Histogram α} {S₁ S₂ : List α} {offset k : Int}
    (h₁ : Summarizes L.buckets S₁) (h₂ : Summarizes R.buckets S₂)
    (hsep : ∀ a ∈ L.buckets.getLast?, ∀ b ∈ R.buckets.head?, a.upper < b.lower)
    (hshift : (L.buckets.getLast?.map (·.count)).getD 0 - offset = S₁.length)
    (hndv : L.ndv = (S₁ ++ S₂).dedup.length) (hk : 1 ≤ k) :
    Describes (mergeBalanced L R offset k) (S₁ ++ S₂) ∧
      ((mergeBalanced L R offset k).len : Int) ≤ k := by
  -- the balancing loops keep each side's summary and the bounds that face the other side
  have hleft : ∀ (other : Float) avg,
      Summarizes (mergeWhileSparser other L.len (L, avg)).1.buckets S₁ ∧
      (mergeWhileSparser other L.len (L, avg)).1.ndv = L.ndv ∧
      ∀ a ∈ (mergeWhileSparser other L.len (L, avg)).1.buckets.getLast?,
        ∀ b ∈ R.buckets.head?, a.upper < b.lower := by
    intro other avg
    refine mergeWhileSparser_induction (P := fun hg => Summarizes hg.buckets S₁ ∧ hg.ndv = L.ndv ∧
      ∀ a ∈ hg.buckets.getLast?, ∀ b ∈ R.buckets.head?, a.upper < b.lower) ?_ _ _ _ ⟨h₁, rfl, hsep⟩
    rintro hg ⟨hs, hndv', hlast⟩
    exact ⟨hs.mergePairs, hndv',
      forall_getLast?_mergePairs (p := fun u => ∀ b ∈ R.buckets.head?, u < b.lower) hlast⟩
  have hright : ∀ (M : Histogram α) (other : Float) avg,
      (∀ a ∈ M.buckets.getLast?, ∀ b ∈ R.buckets.head?, a.upper < b.lower) →
      Summarizes (mergeWhileSparser other R.len (R, avg)).1.buckets S₂ ∧
      ∀ a ∈ M.buckets.getLast?, ∀ b ∈ (mergeWhileSparser other R.len (R, avg)).1.buckets.head?,
        a.upper < b.lower := by
    intro M other avg hM
    refine mergeWhileSparser_induction (P := fun hg => Summarizes hg.buckets S₂ ∧
      ∀ a ∈ M.buckets.getLast?, ∀ b ∈ hg.buckets.head?, a.upper < b.lower) ?_ _ _ _ ⟨h₂, hM⟩
    rintro hg ⟨hs, hfirst⟩
    refine ⟨hs.mergePairs, fun a ha => ?_⟩
    exact forall_head?_mergePairs (p := fun l => a.upper < l) fun b hb => hfirst a ha b hb
  simp only [mergeBalanced]
  obtain ⟨hl, hlndv, hlsep⟩ := hleft _ _
  obtain ⟨hr, hrsep⟩ := hright _ _ _ hlsep
  have happ : Describes ⟨_, _⟩ (S₁ ++ S₂) := ⟨hl.append hr hrsep hshift, hlndv.trans hndv⟩
  exact ⟨happ.mergeWhileLonger _ _, len_mergeWhileLonger_le hk _ _ le_rfl⟩

/-- `MergeHistograms` of two histograms apart from each other describes the union of what they
describe, in at most `bucketSize` buckets when neither side is empty. -/
theorem describes_mergeHistograms {lh rh : Histogram α} {S₁ S₂ : List α} {k : Int}
    (h₁ : Describes lh S₁) (h₂ : Describes rh S₂)
    (hsep : ∀ a ∈ lh.buckets.getLast?, ∀ b ∈ rh.buckets.head?, a.upper < b.lower) (hk : 1 ≤ k) :
    Describes (mergeHistograms lh rh k) (S₁ ++ S₂) ∧
      (lh.buckets ≠ [] → rh.buckets ≠ [] → ((mergeHistograms lh rh k).len : Int) ≤ k) := by
  cases hl : lh.buckets.getLast? with
  | none =>
    have hnil := List.getLast?_eq_none_iff.mp hl
    have hS₁ : S₁ = [] := (hnil ▸ h₁.summarizes).eq_nil_of_buckets_nil
    simp only [mergeHistograms, hl, hS₁, List.nil_append]
    exact ⟨h₂, fun h => absurd hnil h⟩
  | some lLast =>
    cases hr : rh.buckets.head? with
    | none =>
      have hnil := List.head?_eq_none_iff.mp hr
      have hS₂ : S₂ = [] := (hnil ▸ h₂.summarizes).eq_nil_of_buckets_nil
      simp only [mergeHistograms, hl, hr, hS₂, List.append_nil]
      exact ⟨h₁, fun _ h => absurd hnil h⟩
    | some rFirst =>
      have hlt : lLast.upper < rFirst.lower := hsep lLast hl rFirst hr
      have hrlen : rh.len ≠ 0 := by
        rw [len, Ne, List.length_eq_zero_iff, ← List.head?_eq_none_iff, hr]
        exact Option.some_ne_none _
      simp only [mergeHistograms, hl, hr, compare_eq_iff_eq, hlt.ne, if_false, hrlen]
      -- neither loop that shrinks a side moves the bounds where the two sides meet
      obtain ⟨hLs, hLn, hLu⟩ := mergeWhileLonger_induction (P := fun hg =>
          Summarizes hg.buckets S₁ ∧ hg.ndv = lh.ndv + rh.ndv ∧
            ∀ a ∈ hg.buckets.getLast?, a.upper ≤ lLast.upper)
        (fun _ ⟨hs, hn, hu⟩ =>
          ⟨hs.mergePairs, hn, forall_getLast?_mergePairs (p := (· ≤ lLast.upper)) hu⟩) (k := k)
        lh.len ⟨lh.ndv + rh.ndv, lh.buckets⟩
        ⟨h₁.summarizes, rfl, fun a ha => by rw [hl, Option.mem_some_iff] at ha; rw [ha]⟩
      obtain ⟨hRs, hRl⟩ := mergeWhileLonger_induction (P := fun hg =>
          Summarizes hg.buckets S₂ ∧ ∀ b ∈ hg.buckets.head?, rFirst.lower ≤ b.lower)
        (fun _ ⟨hs, hl⟩ => ⟨hs.mergePairs, forall_head?_mergePairs (p := (rFirst.lower ≤ ·)) hl⟩)
        (k := k) rh.len rh
        ⟨h₂.summarizes, fun b hb => by rw [hr, Option.mem_some_iff] at hb; rw [hb]⟩
      have hndv : lh.ndv + rh.ndv = (S₁ ++ S₂).dedup.length := by
        rw [h₁.ndv_eq, h₂.ndv_eq,
          length_dedup_append_of_lt (h₁.summarizes.lt_of_sep h₂.summarizes hsep)]
        push_cast
        rfl
      obtain ⟨hd, hlen⟩ := describes_mergeBalanced hLs hRs
        (fun a ha b hb => (hLu a ha).trans_lt (hlt.trans_le (hRl b hb)))
        (by rw [hLs.getD_count_getLast?, sub_zero]) (hLn.trans hndv) hk
      exact ⟨hd, fun _ _ => hlen⟩
end MergeHistograms

end TinySql.Statistics
