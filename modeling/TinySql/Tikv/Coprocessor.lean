import TinySql.Tikv.Scanner

/-!
# Coprocessor tasks

`store/tikv/coprocessor.go`: `buildCopTasks` cuts the key ranges of a request by region, as
`splitRanges` walks them, into one task per region and at most `rangesPerTask` ranges. The ranges
are a `copRanges`: an optional first range, a shared middle slice and an optional last range, so
that a range cut at a region's end can be re-queued at the front without copying the slice.

`splitRanges` takes ranges from the front while `loc.Contains(r.EndKey)` or `r.EndKey` is the
region's end. An empty end key stands for `+∞`, and `Contains` reads an empty key as the least key:
the first region, which starts at the empty key, contains it. An unbounded range that starts in the
first region is then taken whole into that region's task.

The region cache is the cluster's list of regions, as in `TinySql.Tikv.Scanner`. The loop runs on
fuel, one round for each region, which is enough when the ranges are sorted and the regions
partition the keys; a key no region contains, or fuel that runs out, gives `none`.
-/

namespace TinySql.Tikv

open TinySql.Codec

/-- `kv.KeyRange`; an empty end key is unbounded. -/
structure KeyRange where
  startKey : Key
  endKey : Key
  deriving DecidableEq, Repr, Inhabited

/-- `copRanges`. -/
structure CopRanges where
  first : Option KeyRange
  mid : List KeyRange
  last : Option KeyRange
  deriving DecidableEq, Repr

namespace CopRanges

/-- `do`: the ranges in order. -/
def toList (r : CopRanges) : List KeyRange :=
  r.first.toList ++ r.mid ++ r.last.toList

def len (r : CopRanges) : Nat :=
  (if r.first.isSome then 1 else 0) + r.mid.length + (if r.last.isSome then 1 else 0)

/-- `at`, past the first range: the middle slice, then the last range. -/
def atMid (r : CopRanges) (i : Nat) : KeyRange :=
  if h : i < r.mid.length then r.mid[i] else r.last.getD default

/-- `copRanges.at`. -/
def rangeAt (r : CopRanges) (i : Nat) : KeyRange :=
  match r.first with
  | some f => if i = 0 then f else r.atMid (i - 1)
  | none => r.atMid i

/-- `copRanges.slice`: the first range kept when the slice starts at it, then the indexes moved into
the middle slice, whose tail takes the last range when the slice reaches it. -/
def slice (r : CopRanges) (fromIdx toIdx : Nat) : CopRanges :=
  let (first, fromIdx, toIdx) := match r.first with
    | some f => (if fromIdx = 0 ∧ 0 < toIdx then some f else none, fromIdx - 1, toIdx - 1)
    | none => (none, fromIdx, toIdx)
  if toIdx ≤ r.mid.length then ⟨first, (r.mid.drop fromIdx).take (toIdx - fromIdx), none⟩
  else
    ⟨first, if fromIdx ≤ r.mid.length then r.mid.drop fromIdx else [],
      if fromIdx < toIdx then r.last else none⟩

theorem len_eq (r : CopRanges) : r.len = r.toList.length := by
  cases hf : r.first <;> cases hl : r.last <;> simp [len, toList, hf, hl] <;> omega

theorem atMid_eq (r : CopRanges) (i : Nat) (hi : i < r.mid.length + r.last.toList.length) :
    r.atMid i = (r.mid ++ r.last.toList).getD i default := by
  unfold atMid
  split
  · next h => simp [List.getD_eq_getElem?_getD, List.getElem?_append_left h, List.getElem?_eq_getElem h]
  · next h =>
    cases hl : r.last with
    | none => simp [hl] at hi; omega
    | some l =>
      simp only [hl, Option.toList_some, List.length_singleton] at hi
      have hi' : i = r.mid.length := by omega
      subst hi'
      simp [List.getD_eq_getElem?_getD]

/-- `at` reads the list the three parts make. -/
theorem rangeAt_eq (r : CopRanges) (i : Nat) (hi : i < r.len) :
    r.rangeAt i = r.toList.getD i default := by
  obtain ⟨first, mid, last⟩ := r
  have hi' : i < first.toList.length + mid.length + last.toList.length := by
    rw [len_eq] at hi
    simp only [toList, List.length_append] at hi
    omega
  cases first with
  | none =>
    simp only [rangeAt, toList, Option.toList_none, List.nil_append]
    exact atMid_eq _ i (by simpa using hi')
  | some f =>
    cases i with
    | zero => rfl
    | succ i =>
      simp only [rangeAt, toList, Option.toList_some, List.singleton_append, Nat.add_one_ne_zero,
        if_false, Nat.add_sub_cancel]
      exact atMid_eq _ i (by simp at hi'; simp; omega)
/-- The middle slice and the last range cut as `slice` cuts them past the first range. -/
theorem slice_rest_toList (mid : List KeyRange) (last : Option KeyRange) (first : Option KeyRange)
    (fromIdx toIdx : Nat) (h1 : fromIdx ≤ toIdx) (h2 : toIdx ≤ mid.length + last.toList.length) :
    (if toIdx ≤ mid.length then (⟨first, (mid.drop fromIdx).take (toIdx - fromIdx), none⟩ : CopRanges)
      else ⟨first, if fromIdx ≤ mid.length then mid.drop fromIdx else [],
        if fromIdx < toIdx then last else none⟩).toList =
      first.toList ++ ((mid ++ last.toList).drop fromIdx).take (toIdx - fromIdx) := by
  split
  · next ht =>
    simp only [toList, Option.toList_none, List.append_nil]
    rw [List.drop_append_of_le_length (by omega), List.take_append_of_le_length (by simp; omega)]
  · next ht =>
    cases last with
    | none => simp at h2; omega
    | some l =>
      simp only [Option.toList_some, List.length_singleton] at h2
      have ht' : toIdx = mid.length + 1 := by omega
      subst ht'
      by_cases hf : fromIdx ≤ mid.length
      · simp only [toList, hf, if_true, show fromIdx < mid.length + 1 by omega, Option.toList_some,
          List.append_assoc]
        rw [List.drop_append_of_le_length hf, List.take_of_length_le (by simp; omega)]
      · have : fromIdx = mid.length + 1 := by omega
        subst this
        simp [toList]
/-- `slice` cuts the list the three parts make, the first range and the last one included. -/
theorem toList_slice (r : CopRanges) (fromIdx toIdx : Nat) (h1 : fromIdx ≤ toIdx)
    (h2 : toIdx ≤ r.len) :
    (r.slice fromIdx toIdx).toList = (r.toList.drop fromIdx).take (toIdx - fromIdx) := by
  obtain ⟨first, mid, last⟩ := r
  rw [len_eq] at h2
  simp only [toList, List.length_append] at h2
  cases first with
  | none =>
    simp only [Option.toList_none, List.length_nil, zero_add] at h2
    simp only [slice]
    rw [slice_rest_toList mid last none fromIdx toIdx h1 h2]
    simp [toList]
  | some f =>
    simp only [Option.toList_some, List.length_singleton] at h2
    cases fromIdx with
    | zero =>
      cases toIdx with
      | zero => simp [slice, toList]
      | succ t =>
        simp only [slice, Nat.zero_lt_succ, and_self, if_true, Nat.zero_sub, Nat.add_sub_cancel]
        rw [slice_rest_toList mid last (some f) 0 t (by omega) (by omega)]
        simp [toList]
    | succ fr =>
      obtain ⟨t, rfl⟩ : ∃ t, toIdx = t + 1 := ⟨toIdx - 1, by omega⟩
      simp only [slice, Nat.add_one_ne_zero, false_and, if_false, Nat.add_sub_cancel]
      rw [slice_rest_toList mid last none fr t (by omega) (by omega)]
      simp [toList]

/-- A `copRanges` is the list of its first range, its middle slice and its last range: `len` is
the length of that list, `at` reads it and `slice` cuts it. -/
theorem toList_spec (r : CopRanges) :
    r.len = r.toList.length ∧ (∀ i < r.len, r.rangeAt i = r.toList.getD i default) ∧
      ∀ fromIdx toIdx, fromIdx ≤ toIdx → toIdx ≤ r.len →
        (r.slice fromIdx toIdx).toList = (r.toList.drop fromIdx).take (toIdx - fromIdx) :=
  ⟨r.len_eq, fun i hi => r.rangeAt_eq i hi, fun _ _ h1 h2 => r.toList_slice _ _ h1 h2⟩

end CopRanges

/-- The loop of `splitRanges` that looks for the first range not complete in the region, from
range `i` on. -/
def firstIncomplete (loc : KeyLocation) (ranges : CopRanges) : Nat → Nat → Nat
  | 0, i => i
  | n + 1, i =>
    let r := ranges.rangeAt i
    if loc.contains r.endKey || loc.endKey == r.endKey then firstIncomplete loc ranges n (i + 1) else i

/-- One round of `splitRanges` in the region `loc` of the first range: the ranges of its task, and
the ranges left, `none` when all of them went to the task. -/
def splitRound (loc : KeyLocation) (ranges : CopRanges) : CopRanges × Option CopRanges :=
  let i := firstIncomplete loc ranges ranges.len 0
  if i = ranges.len then (ranges, none)
  else
    let r := ranges.rangeAt i
    if loc.contains r.startKey then
      ({ ranges.slice 0 i with last := some ⟨r.startKey, loc.endKey⟩ },
        some { ranges.slice (i + 1) ranges.len with first := some ⟨loc.endKey, r.endKey⟩ })
    else (ranges.slice 0 i, some (ranges.slice i ranges.len))

/-- The loop of `splitRanges`: the calls of the callback, in order. -/
def splitRangesLoop (regions : List KeyLocation) : Nat → CopRanges →
    Option (List (KeyLocation × CopRanges))
  | 0, _ => none
  | fuel + 1, ranges =>
    if ranges.len = 0 then some []
    else do
      let loc ← locateKey regions (ranges.rangeAt 0).startKey
      match splitRound loc ranges with
      | (task, none) => some [(loc, task)]
      | (task, some rest) => ((loc, task) :: ·) <$> splitRangesLoop regions fuel rest

def splitRanges (regions : List KeyLocation) (ranges : CopRanges) :
    Option (List (KeyLocation × CopRanges)) :=
  splitRangesLoop regions (regions.length + 1) ranges

def rangesPerTask : Nat := 25000

structure CopTask where
  region : KeyLocation
  ranges : CopRanges
  deriving DecidableEq, Repr

/-- The loop of `appendTask` from range `i` on: a task for each `rangesPerTask` ranges. -/
def appendTaskLoop (loc : KeyLocation) (ranges : CopRanges) : Nat → Nat → List CopTask
  | 0, _ => []
  | n + 1, i =>
    if i < ranges.len then
      let nextI := min (i + rangesPerTask) ranges.len
      ⟨loc, ranges.slice i nextI⟩ :: appendTaskLoop loc ranges n nextI
    else []

def buildCopTasks (regions : List KeyLocation) (ranges : CopRanges) (desc : Bool) :
    Option (List CopTask) :=
  (splitRanges regions ranges).map fun calls =>
    let tasks := calls.flatMap fun (loc, rs) => appendTaskLoop loc rs rs.len 0
    if desc then tasks.reverse else tasks

/-- Whether a range lies inside the region: it starts there, and it ends at the region's end or
before it. -/
def KeyLocation.includesRange (loc : KeyLocation) (r : KeyRange) : Bool :=
  loc.contains r.startKey &&
    (loc.endKey.isEmpty || (!r.endKey.isEmpty && compare r.endKey loc.endKey != .gt))

/-- The regions `["", "m")` and `["m", +∞)`, and the one range `["a", +∞)`. -/
def twoRegions : List KeyLocation :=
  [⟨[], [109]⟩, ⟨[109], []⟩]

def unboundedRanges : CopRanges :=
  ⟨none, [⟨[97], []⟩], none⟩

/-- The unbounded range is handed whole to the first region, which ends at `"m"`. -/
theorem splitRanges_unbounded_range_outside_region :
    splitRanges twoRegions unboundedRanges = some [(⟨[], [109]⟩, unboundedRanges)] ∧
      KeyLocation.includesRange ⟨[], [109]⟩ ⟨[97], []⟩ = false ∧
      buildCopTasks twoRegions unboundedRanges false = some [⟨⟨[], [109]⟩, unboundedRanges⟩] := by
  decide

end TinySql.Tikv
