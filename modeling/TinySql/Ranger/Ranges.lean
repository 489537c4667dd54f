import TinySql.Lib.GoUtf8
import TinySql.Lib.IntervalSweep
import TinySql.Codec.Key
import TinySql.Ranger.Points

/-!
# Index ranges

`util/ranger/ranger.go`: the ranges of a multi-column index that `buildCNFIndexRange` builds from
the points of its access conditions, the cut of prefix columns and the merge of overlapping ranges
in `unionRanges`.

An index scan over a range reads the keys from `EncodeKey(LowVal)`, or its `PrefixNext` when the
low end is open, up to `EncodeKey(HighVal)`, or its `PrefixNext` when the high end is closed.
`unionRanges` sorts the ranges by that start and sweeps over them as `TinySql.Lib.sweep` does, so
what it returns is sorted and no key lies in two of its ranges. `buildCNFIndexRange` runs it after a
prefix cut only when `fixPrefixColRange` says a range was cut, and that flag is overwritten by
every range: it says whether the last one was.
-/

namespace TinySql.Ranger

open TinySql.Lib TinySql.Types TinySql.Codec

structure Range where
  lowVal : List Datum
  highVal : List Datum
  lowExclude : Bool
  highExclude : Bool
  deriving DecidableEq, Repr

/-- The first key a scan over the range reads. -/
def Range.encodedStart (ran : Range) : Key :=
  let left := encodeKey ran.lowVal
  if ran.lowExclude then prefixNext left else left

/-- The first key above the range. -/
def Range.encodedEnd (ran : Range) : Key :=
  let right := encodeKey ran.highVal
  if !ran.highExclude then prefixNext right else right

/-- The keys a scan over the range reads. -/
def Range.keys (ran : Range) : Set Key :=
  Set.Ico ran.encodedStart ran.encodedEnd

/-- No key lies in two ranges of the list. -/
def RangesDisjoint (ranges : List Range) : Prop :=
  ranges.Pairwise fun a b => Disjoint a.keys b.keys

/-- `validInterval`: the interval from `low` to `high` holds a key. -/
def validInterval (low high : Point) : Bool :=
  let l := encodeKey [low.value]
  let l := if low.excl then prefixNext l else l
  let r := encodeKey [high.value]
  let r := if !high.excl then prefixNext r else r
  decide (l < r)

/-- `convertPoint`: the point's value in the column's type, moving the point inward where the
conversion moved the value. -/
def convertPoint (sc : StatementContext) (point : Point) (tp : FieldType) :
    Except ConvError Point :=
  match point.value with
  | .maxValue | .minNotNull => .ok point
  | _ => do
    let casted ← convertTo sc point.value tp
    let valCmpCasted := compareDatum point.value casted
    let converted := { point with value := casted }
    if valCmpCasted = .eq then return converted
    if point.start then
      if point.excl then
        return if valCmpCasted = .lt then { converted with excl := false } else converted
      else
        return if valCmpCasted = .gt then { converted with excl := true } else converted
    else
      if point.excl then
        return if valCmpCasted = .gt then { converted with excl := false } else converted
      else
        return if valCmpCasted = .lt then { converted with excl := true } else converted

/-- `points2Ranges`: the ranges of the first index column, one for each interval that holds a key;
`[NULL, NULL]` goes on a `NOT NULL` column. -/
def points2Ranges (sc : StatementContext) (tp : FieldType) :
    List Point → Except ConvError (List Range)
  | s :: e :: rest => do
    let startPoint ← convertPoint sc s tp
    let endPoint ← convertPoint sc e tp
    let ranges ← points2Ranges sc tp rest
    if !validInterval startPoint endPoint then return ranges
    if hasNotNullFlag tp.flag && endPoint.value = .null then return ranges
    return ⟨[startPoint.value], [endPoint.value], startPoint.excl, endPoint.excl⟩ :: ranges
  | _ => .ok []

/-- `Range.IsPoint`: every column is at one value that is not `NULL`. -/
def Range.isPoint (ran : Range) : Bool :=
  ran.lowVal.length == ran.highVal.length &&
    (ran.lowVal.zip ran.highVal).all (fun (a, b) =>
      a ≠ .minNotNull && b ≠ .maxValue && compareDatum a b = .eq && a ≠ .null) &&
    !ran.lowExclude && !ran.highExclude

/-- `appendPoints2IndexRange`: a point range extended by the intervals of the next column. -/
def appendPoints2IndexRange (sc : StatementContext) (origin : Range) (ft : FieldType) :
    List Point → Except ConvError (List Range)
  | s :: e :: rest => do
    let startPoint ← convertPoint sc s ft
    let endPoint ← convertPoint sc e ft
    let newRanges ← appendPoints2IndexRange sc origin ft rest
    if !validInterval startPoint endPoint then return newRanges
    return ⟨origin.lowVal ++ [startPoint.value], origin.highVal ++ [endPoint.value],
      startPoint.excl, endPoint.excl⟩ :: newRanges
  | _ => .ok []

/-- `appendPoints2Ranges`: only point ranges take the next column. -/
def appendPoints2Ranges (sc : StatementContext) (origin : List Range) (rangePoints : List Point)
    (ft : FieldType) : Except ConvError (List Range) := do
  let newRanges ← origin.mapM fun oRange =>
    if !oRange.isPoint then pure [oRange] else appendPoints2IndexRange sc oRange ft rangePoints
  return newRanges.flatten

/-! ### Prefix columns -/

/-- `CutDatumByPrefixLen`: a string longer than the prefix length is cut to it, in runes for a
UTF-8 column and in bytes otherwise; the second component says whether it was cut. -/
def cutDatumByPrefixLen (v : Datum) (length : Int) (tp : FieldType) : Datum × Bool :=
  match v with
  | .bytes colValue =>
    if tp.charset = charsetUTF8 ∨ tp.charset = charsetUTF8MB4 then
      if length ≠ unspecifiedLength ∧ length < runeCount colValue then
        (.bytes (encodeRunes ((runes colValue).take length.toNat)), true)
      else (v, false)
    else if length ≠ unspecifiedLength ∧ length < colValue.length then
      (.bytes (colValue.take length.toNat), true)
    else (v, false)
  | _ => (v, false)

/-- `newFieldType`: integer columns are compared as `bigint` and the others at an unspecified
length, so that no constant overflows or is truncated. -/
def newFieldType (tp : FieldType) : FieldType :=
  if tp.tp.isInteger then
    ⟨.longlong, tp.flag, unspecifiedLength, tp.charset, ""⟩
  else ⟨tp.tp, 0, unspecifiedLength, tp.charset, ""⟩

/-- The loops of `fixPrefixColRange` over the values of one end: each is cut to its column's
prefix length, and the second component says whether the last one was. -/
def cutPrefix : List Datum → List Int → List FieldType → List Datum × Bool
  | [v], l :: _, t :: _ =>
    let cut := cutDatumByPrefixLen v l t
    ([cut.1], cut.2)
  | v :: vs, l :: ls, t :: ts =>
    let rest := cutPrefix vs ls ts
    ((cutDatumByPrefixLen v l t).1 :: rest.1, rest.2)
  | vs, _, _ => (vs, false)

/-- One range of `fixPrefixColRange`: an end whose last value was cut becomes closed, and the flag
is set anew, `hasCut = lowCut || highCut`. -/
def fixPrefixColRangeStep (lengths : List Int) (tp : List FieldType) (acc : List Range × Bool)
    (ran : Range) : List Range × Bool :=
  let (lowVal, lowCut) := cutPrefix ran.lowVal lengths tp
  let (highVal, highCut) := cutPrefix ran.highVal lengths tp
  (acc.1 ++ [⟨lowVal, highVal, if lowCut then false else ran.lowExclude,
    if highCut then false else ran.highExclude⟩], lowCut || highCut)

def fixPrefixColRange (ranges : List Range) (lengths : List Int) (tp : List FieldType) :
    List Range × Bool :=
  ranges.foldl (fixPrefixColRangeStep lengths tp) ([], false)

def hasPrefix (lengths : List Int) : Bool :=
  lengths.any (· ≠ unspecifiedLength)

/-- `sortRange`: a range with its encoded ends, which it carries by construction. -/
structure SortRange where
  originalValue : Range
  encodedStart : Key
  encodedEnd : Key
  start_eq : encodedStart = originalValue.encodedStart
  end_eq : encodedEnd = originalValue.encodedEnd

def SortRange.ofRange (ran : Range) : SortRange :=
  ⟨ran, ran.encodedStart, ran.encodedEnd, rfl, rfl⟩

/-- The last range grown to the high end of the next, as the loop of `unionRanges` does. -/
def SortRange.absorb (last o : SortRange) : SortRange where
  originalValue := { last.originalValue with
    highVal := o.originalValue.highVal, highExclude := o.originalValue.highExclude }
  encodedStart := last.encodedStart
  encodedEnd := o.encodedEnd
  start_eq := last.start_eq
  end_eq := o.end_eq

/-- The order of `sort.Slice` in `unionRanges`. -/
def SortRange.startLE (a b : SortRange) : Prop :=
  a.encodedStart ≤ b.encodedStart

instance : DecidableRel SortRange.startLE := fun a b =>
  inferInstanceAs (Decidable (a.encodedStart ≤ b.encodedStart))

/-- `unionRanges`: the ranges sorted by their first key, the overlapping ones merged. -/
def unionRanges (ranges : List Range) : List Range :=
  match (ranges.map SortRange.ofRange).insertionSort SortRange.startLE with
  | [] => []
  | o :: os =>
    (sweep SortRange.encodedStart SortRange.encodedEnd SortRange.absorb o os).map
      SortRange.originalValue

/-! ### `buildCNFIndexRange` -/

/-- `newTp[i]`; the index has a field type for every column a condition is on. -/
def tpAt (newTp : List FieldType) (i : Nat) : FieldType :=
  newTp.getD i ⟨.longlong, 0, unspecifiedLength, "", ""⟩

/-- The loop over the `=` and `IN` conditions, one column each, which stops at the first other. -/
def buildEqInRanges (sc : StatementContext) (newTp : List FieldType) (ranges : List Range) :
    Nat → List Cond → Except ConvError (List Range)
  | _, [] => .ok ranges
  | i, cond :: rest =>
    if !cond.isEqOrIn then .ok ranges
    else do
      let point := build sc cond
      let ranges ← if i = 0 then points2Ranges sc (tpAt newTp i) point
        else appendPoints2Ranges sc ranges point (tpAt newTp i)
      buildEqInRanges sc newTp ranges (i + 1) rest

/-- `buildCNFIndexRange`: point ranges for the first `eqAndInCount` columns, the intersection of the
other conditions for the next column, and the prefix cut. -/
def buildCNFIndexRange (sc : StatementContext) (cols newTp : List FieldType) (lengths : List Int)
    (eqAndInCount : Nat) (accessCondition : List Cond) : Except ConvError (List Range) := do
  let newTp := newTp ++ cols.map newFieldType
  let ranges ← buildEqInRanges sc newTp [] 0 (accessCondition.take eqAndInCount)
  let rangePoints :=
    (accessCondition.drop eqAndInCount).foldl (fun rp c => intersection rp (build sc c)) fullRange
  let ranges ←
    if eqAndInCount = 0 then points2Ranges sc (tpAt newTp 0) rangePoints
    else if eqAndInCount < accessCondition.length then
      appendPoints2Ranges sc ranges rangePoints (tpAt newTp eqAndInCount)
    else pure ranges
  if hasPrefix lengths then
    let (ranges, hasCut) := fixPrefixColRange ranges lengths newTp
    return if hasCut then unionRanges ranges else ranges
  else return ranges

/-! ### The flag of `fixPrefixColRange` -/

/-- Whether `fixPrefixColRange` cuts an end of a range. -/
def cutsRange (lengths : List Int) (tp : List FieldType) (ran : Range) : Bool :=
  (cutPrefix ran.lowVal lengths tp).2 || (cutPrefix ran.highVal lengths tp).2

/-! ### What `unionRanges` returns -/

instance : Std.Total SortRange.startLE := ⟨fun a b => le_total a.encodedStart b.encodedStart⟩

instance : IsTrans SortRange SortRange.startLE := ⟨fun _ _ _ => le_trans⟩

theorem keys_eq (o : SortRange) : o.originalValue.keys = Set.Ico o.encodedStart o.encodedEnd := by
  rw [Range.keys, o.start_eq, o.end_eq]

/-- The keys the ranges of a list read are those their sort ranges cover. -/
theorem keys_of_sortRanges (os : List SortRange) (k : Key) :
    (∃ r ∈ os.map SortRange.originalValue, k ∈ r.keys) ↔
      k ∈ cover SortRange.encodedStart SortRange.encodedEnd os := by
  simp only [List.mem_map, cover, Set.mem_ofPred_eq]
  constructor
  · rintro ⟨_, ⟨o, ho, rfl⟩, hk⟩
    exact ⟨o, ho, keys_eq o ▸ hk⟩
  · rintro ⟨o, ho, hk⟩
    exact ⟨_, ⟨o, ho, rfl⟩, (keys_eq o).symm ▸ hk⟩

theorem sweep_absorb_spec (o : SortRange) (os : List SortRange)
    (hsorted : (o :: os).Pairwise SortRange.startLE) :
    let out := sweep SortRange.encodedStart SortRange.encodedEnd SortRange.absorb o os
    out.Pairwise (fun a b => a.encodedStart ≤ b.encodedStart) ∧
      out.Pairwise (fun a b => Disjoint (Set.Ico a.encodedStart a.encodedEnd)
        (Set.Ico b.encodedStart b.encodedEnd)) ∧
      cover SortRange.encodedStart SortRange.encodedEnd out =
        cover SortRange.encodedStart SortRange.encodedEnd (o :: os) := by
  rw [List.pairwise_cons] at hsorted
  have hlo : ∀ a b : SortRange, (a.absorb b).encodedStart = a.encodedStart := fun _ _ => rfl
  have hhi : ∀ a b : SortRange, (a.absorb b).encodedEnd = b.encodedEnd := fun _ _ => rfl
  exact ⟨(sweep_spec hlo hhi o os hsorted.2 hsorted.1).1.imp And.left,
    sweep_disjoint hlo hhi o os hsorted.2 hsorted.1, sweep_cover hlo hhi o os hsorted.2 hsorted.1⟩

/-- `unionRanges` returns ranges sorted by their first key, no key in two of them, and reading
exactly the keys of the ranges it was given. -/
theorem unionRanges_spec (ranges : List Range) :
    (unionRanges ranges).Pairwise (fun a b => a.encodedStart ≤ b.encodedStart) ∧
      RangesDisjoint (unionRanges ranges) ∧
      ∀ k, (∃ r ∈ unionRanges ranges, k ∈ r.keys) ↔ ∃ r ∈ ranges, k ∈ r.keys := by
  have hsorted := List.pairwise_insertionSort SortRange.startLE (ranges.map SortRange.ofRange)
  have hvals : List.Perm (((ranges.map SortRange.ofRange).insertionSort SortRange.startLE).map
      SortRange.originalValue) ranges := by
    simpa [Function.comp_def, SortRange.ofRange] using
      (List.perm_insertionSort SortRange.startLE (ranges.map SortRange.ofRange)).map
        SortRange.originalValue
  unfold unionRanges
  generalize (ranges.map SortRange.ofRange).insertionSort SortRange.startLE = sorted at hsorted hvals ⊢
  -- the sorted ranges read the keys of the given ones, in another order
  have hkeys : ∀ k, (∃ r ∈ ranges, k ∈ r.keys) ↔
      k ∈ cover SortRange.encodedStart SortRange.encodedEnd sorted := fun k => by
    rw [← keys_of_sortRanges]
    exact exists_congr fun r => and_congr_left' hvals.mem_iff.symm
  cases sorted with
  | nil =>
    refine ⟨List.Pairwise.nil, List.Pairwise.nil, fun k => ?_⟩
    rw [hkeys k]
    simp
  | cons o os =>
    obtain ⟨hle, hdisj, hcov⟩ := sweep_absorb_spec o os hsorted
    refine ⟨List.pairwise_map.mpr (hle.imp fun {a b} h => ?_),
      List.pairwise_map.mpr (hdisj.imp fun {a b} h => ?_), fun k => ?_⟩
    · rwa [← a.start_eq, ← b.start_eq]
    · rwa [keys_eq, keys_eq]
    · rw [keys_of_sortRanges, hcov, hkeys k]

/-! ### A prefix cut that leaves two ranges on one key -/

/-- A `VARCHAR` column in `utf8mb4`, indexed on its first two characters. -/
def prefixCol : FieldType :=
  ⟨.varchar, 0, 10, charsetUTF8MB4, "utf8mb4_bin"⟩

/-- `d IN ('abc', 'abd', 'z')`. -/
def prefixInCond : Cond :=
  .isIn [.bytes [0x61, 0x62, 0x63], .bytes [0x61, 0x62, 0x64], .bytes [0x7A]]

/-- The two prefix ranges `['ab', 'ab']`. -/
def prefixAbRange : Range :=
  ⟨[.bytes [0x61, 0x62]], [.bytes [0x61, 0x62]], false, false⟩

theorem buildCNFIndexRange_prefix_in_overlaps :
    ∃ ranges, buildCNFIndexRange ⟨false, false⟩ [prefixCol] [newFieldType prefixCol] [2] 1
        [prefixInCond] = .ok ranges ∧ ¬ RangesDisjoint ranges := by
  refine ⟨[prefixAbRange, prefixAbRange, ⟨[.bytes [0x7A]], [.bytes [0x7A]], false, false⟩],
    by decide, fun h => ?_⟩
  have hself := (List.pairwise_cons.mp h).1 prefixAbRange List.mem_cons_self
  have hkey : encodeKey prefixAbRange.lowVal ∈ prefixAbRange.keys := by
    simp only [Range.keys, Set.mem_Ico]
    decide
  exact Set.disjoint_left.mp hself hkey hkey

end TinySql.Ranger
