import TinySql.Kv.Key
import TinySql.Ranger.Ranges
import TinySql.Rowcodec.Common

/-!
# Key ranges of a table scan

`distsql/request_builder.go`, with the record keys of `tablecodec/tablecodec.go`. A row key is `t`,
the table id, `_r` and the handle, the numbers in the order-preserving `EncodeInt`.
`TableRangesToKVRanges` turns a handle range into the key range from the encoded low handle to the
encoded high handle, moving an excluded low end and an included high end on with `PrefixNext`.
`TableHandlesToKVRanges` walks sorted handles and gives one range to each run of consecutive
handles, ending a run at `MaxInt64`, whose successor would wrap.

Both are read through `KeyRange.Contains`. The row key of a handle is in the key range of a handle
range exactly when the handle is in it, also at `MinInt64` and `MaxInt64`, where `PrefixNext` of an
all-`0xFF` encoding appends a byte (`contains_encodeRowKeyWithHandle_iff`). The ranges of strictly
increasing handles are ordered and disjoint, hold exactly the row keys of the handles, each holds
the row keys of an interval of handles, and there are as many as maximal runs.
-/

namespace TinySql.Types

/-- `Datum.GetInt64`: the 64 bits `i` that the setters of the integer and float kinds fill. The
other kinds do not set `i`, and a fresh datum has it zero. -/
def Datum.getInt64 : Datum → Int64
  | .int64 i => i
  | .uint64 u => u.toInt64
  | .float32 f | .float64 f => f.toInt64
  | .null | .bytes _ | .minNotNull | .maxValue => 0

end TinySql.Types

namespace TinySql.Distsql

open TinySql.Lib TinySql.Types TinySql.Codec TinySql.Kv TinySql.Ranger

/-! ### Record keys -/

def tablePrefix : Key := [0x74]

def recordPrefixSep : Key := [0x5F, 0x72]

/-- `appendTableRecordPrefix`. -/
def appendTableRecordPrefix (buf : Key) (tableID : Int64) : Key :=
  buf ++ tablePrefix ++ encodeInt tableID ++ recordPrefixSep

/-- `EncodeRowKeyWithHandle`. -/
def encodeRowKeyWithHandle (tableID handle : Int64) : Key :=
  appendTableRecordPrefix [] tableID ++ encodeInt handle

/-- `EncodeRowKey`. -/
def encodeRowKey (tableID : Int64) (encodedHandle : Key) : Key :=
  appendTableRecordPrefix [] tableID ++ encodedHandle

theorem encodeRowKeyWithHandle_eq (tableID handle : Int64) :
    encodeRowKeyWithHandle tableID handle = encodeRowKey tableID (encodeInt handle) := rfl

/-- Row keys sort by table, then by what follows the prefix. -/
theorem compare_encodeRowKey (t u : Int64) (a b : Key) :
    compare (encodeRowKey t a) (encodeRowKey u b) = (compare t u).then (compare a b) := by
  have hlen : ∀ t, (appendTableRecordPrefix [] t).length = 11 := by
    intro t
    simp [appendTableRecordPrefix, tablePrefix, recordPrefixSep, encodeInt]
  rw [encodeRowKey, encodeRowKey, compare_append_of_length_eq (by rw [hlen, hlen])]
  -- the prefixes differ only in the eight bytes of the table id
  have htable : compare (appendTableRecordPrefix [] t) (appendTableRecordPrefix [] u) = compare t u := by
    simp only [appendTableRecordPrefix, List.nil_append, List.append_assoc, tablePrefix,
      compare_append_left]
    rw [compare_append_of_length_eq (by simp [encodeInt]), compare_encodeInt]
    cases compare t u <;> rfl
  rw [htable]

/-! ### Handle ranges -/

/-- `encodeHandleKey`. `LowVal[0]` of a range without values is Go's index panic. -/
def encodeHandleKey (ran : Range) : Except String (Key × Key) := do
  let some lowVal := ran.lowVal.head? | throw Rowcodec.errIndexOutOfRange
  let some highVal := ran.highVal.head? | throw Rowcodec.errIndexOutOfRange
  let low := encodeInt lowVal.getInt64
  let high := encodeInt highVal.getInt64
  let low := if ran.lowExclude then prefixNext low else low
  let high := if !ran.highExclude then prefixNext high else high
  return (low, high)

/-- `TableRangesToKVRanges`. -/
def tableRangesToKVRanges (tid : Int64) (ranges : List Range) : Except String (List KeyRange) :=
  ranges.mapM fun ran => do
    let (low, high) ← encodeHandleKey ran
    return ⟨encodeRowKey tid low, encodeRowKey tid high⟩

theorem start_ne_gt_iff (lo h : Int64) (lowExclude : Bool) :
    compare (if lowExclude then prefixNext (encodeInt lo) else encodeInt lo) (encodeInt h) ≠ .gt ↔
      if lowExclude then lo < h else lo ≤ h := by
  cases lowExclude
  · rw [if_neg Bool.false_ne_true, if_neg Bool.false_ne_true, compare_encodeInt, Ne,
      compare_eq_compare_toInt, compare_gt_iff_gt, not_lt, Int64.le_iff_toInt_le]
  · rw [if_pos rfl, if_pos rfl]
    exact compare_prefixNext_encodeInt_ne_gt_iff lo h

theorem lt_end_iff (h hi : Int64) (highExclude : Bool) :
    compare (encodeInt h) (if !highExclude then prefixNext (encodeInt hi) else encodeInt hi) = .lt ↔
      if highExclude then h < hi else h ≤ hi := by
  cases highExclude
  · exact compare_encodeInt_prefixNext_eq_lt_iff h hi
  · rw [if_neg (by decide), if_pos rfl, compare_encodeInt, compare_eq_compare_toInt,
      compare_lt_iff_lt, Int64.lt_iff_toInt_lt]

/-- The row key of handle `h` of table `tid'` is in the key range of table `tid` from `lo` to `hi`,
with the ends moved as `encodeHandleKey` moves them, exactly when the tables agree and the handle
is in the handle range. -/
theorem contains_encodeRowKeyWithHandle_iff (tid tid' lo hi h : Int64) (lowExclude highExclude : Bool) :
    (KeyRange.mk (encodeRowKey tid (if lowExclude then prefixNext (encodeInt lo) else encodeInt lo))
      (encodeRowKey tid (if !highExclude then prefixNext (encodeInt hi) else encodeInt hi))).Contains
        (encodeRowKeyWithHandle tid' h) ↔
      tid' = tid ∧ (if lowExclude then lo < h else lo ≤ h) ∧ (if highExclude then h < hi else h ≤ hi) := by
  rw [KeyRange.Contains, encodeRowKeyWithHandle_eq, compare_encodeRowKey, compare_encodeRowKey,
    compare_eq_compare_toInt tid, compare_eq_compare_toInt tid']
  rcases lt_trichotomy tid.toInt tid'.toInt with ht | ht | ht
  · -- a later table: the row key is past the end
    have hne : tid' ≠ tid := fun h => by rw [h] at ht; exact lt_irrefl _ ht
    rw [compare_gt_iff_gt.mpr ht]
    simp [Ordering.then, hne]
  · have heq : tid' = tid := Int64.toInt_inj.mp ht.symm
    rw [ht, compare_eq_iff_eq.mpr rfl, Ordering.eq_then, Ordering.eq_then, start_ne_gt_iff,
      lt_end_iff]
    simp [heq]
  · -- an earlier table: the row key is before the start
    have hne : tid' ≠ tid := fun h => by rw [h] at ht; exact lt_irrefl _ ht
    rw [compare_gt_iff_gt.mpr ht]
    simp [Ordering.then, hne]

theorem tableRangesToKVRanges_handleRange (tid tid' lo hi h : Int64) (lowRest highRest : List Datum)
    (lowExclude highExclude : Bool) :
    ∃ kr, tableRangesToKVRanges tid
        [⟨.int64 lo :: lowRest, .int64 hi :: highRest, lowExclude, highExclude⟩] = .ok [kr] ∧
      (kr.Contains (encodeRowKeyWithHandle tid' h) ↔
        tid' = tid ∧ (if lowExclude then lo < h else lo ≤ h) ∧
          (if highExclude then h < hi else h ≤ hi)) :=
  ⟨_, rfl, contains_encodeRowKeyWithHandle_iff tid tid' lo hi h lowExclude highExclude⟩

/-! ### Runs of handles -/

/-- The inner loop of `TableHandlesToKVRanges`: how far `j` gets from `i + 1`, counted from the
handle at `i`. A run goes on while its last handle is not `MaxInt64` and the next is one above it. -/
def runLength : List Int64 → Nat
  | a :: b :: rest => if a ≠ maxInt64 ∧ b = a + 1 then runLength (b :: rest) + 1 else 1
  | _ => 1

/-- `handles[j-1]`, the last handle of the run. -/
def runLast (handles : List Int64) : Int64 :=
  handles.getD (runLength handles - 1) 0

theorem one_le_runLength (handles : List Int64) : 1 ≤ runLength handles := by
  unfold runLength
  split
  · split <;> omega
  · exact le_refl 1

theorem exists_runLength_eq_succ (handles : List Int64) : ∃ n, runLength handles = n + 1 :=
  ⟨_, (Nat.succ_pred_eq_of_pos (one_le_runLength handles)).symm⟩

/-- `TableHandlesToKVRanges`. -/
def tableHandlesToKVRanges (tid : Int64) : List Int64 → List KeyRange
  | [] => []
  | first :: rest =>
    let low := encodeInt first
    let high := prefixNext (encodeInt (runLast (first :: rest)))
    ⟨encodeRowKey tid low, encodeRowKey tid high⟩ ::
      tableHandlesToKVRanges tid ((first :: rest).drop (runLength (first :: rest)))
termination_by handles => handles.length
decreasing_by
  have := one_le_runLength (first :: rest)
  simp only [List.length_drop, List.length_cons]
  omega

/-- The number of maximal runs of consecutive integers in a list of handles. -/
def runCount : List Int64 → Nat
  | [] => 0
  | [_] => 1
  | a :: b :: rest => runCount (b :: rest) + if b.toInt = a.toInt + 1 then 0 else 1

section Runs

variable {a b : Int64} {rest : List Int64}

theorem ne_maxInt64_of_lt (hab : a < b) : a ≠ maxInt64 := by
  rintro rfl
  have := Int64.lt_iff_toInt_lt.mp hab
  have := b.toInt_lt
  simp only [toInt_maxInt64] at *
  omega

/-- Below a larger handle the loop's test is that the next handle is one above, as integers. -/
theorem runLength_cons_cons (hab : a < b) :
    runLength (a :: b :: rest) = if b.toInt = a.toInt + 1 then runLength (b :: rest) + 1 else 1 := by
  have hne := ne_maxInt64_of_lt hab
  rw [runLength]
  simp only [ne_eq, hne, not_false_eq_true, true_and, ← Int64.toInt_inj,
    toInt_add_one_of_ne_maxInt64 hne]

theorem runLast_cons_cons_of_succ (hab : a < b) (hsucc : b.toInt = a.toInt + 1) :
    runLast (a :: b :: rest) = runLast (b :: rest) := by
  obtain ⟨n, hn⟩ := exists_runLength_eq_succ (b :: rest)
  rw [runLast, runLast, runLength_cons_cons hab, if_pos hsucc, hn]
  rfl

theorem runLast_cons_cons_of_not_succ (hab : a < b) (hsucc : ¬ b.toInt = a.toInt + 1) :
    runLast (a :: b :: rest) = a := by
  rw [runLast, runLength_cons_cons hab, if_neg hsucc]
  rfl

theorem mem_singleton_iff_toInt {a h : Int64} : h ∈ [a] ↔ a.toInt ≤ h.toInt ∧ h.toInt ≤ a.toInt := by
  rw [List.mem_singleton, ← Int64.toInt_inj]
  omega

theorem head_mem_take_runLength : a ∈ (a :: rest).take (runLength (a :: rest)) := by
  obtain ⟨n, hn⟩ := exists_runLength_eq_succ (a :: rest)
  rw [hn, List.take_succ_cons]
  exact List.mem_cons_self

/-- The run taken from the front of strictly increasing handles is every integer from its first
handle to its last. -/
theorem mem_take_runLength_iff (hs : (a :: rest).Pairwise (· < ·)) :
    ∀ h, h ∈ (a :: rest).take (runLength (a :: rest)) ↔
      a.toInt ≤ h.toInt ∧ h.toInt ≤ (runLast (a :: rest)).toInt := by
  induction rest generalizing a with
  | nil => exact fun _ => mem_singleton_iff_toInt
  | cons b rest ih =>
    have hab : a < b := List.rel_of_pairwise_cons hs List.mem_cons_self
    by_cases hsucc : b.toInt = a.toInt + 1
    · have htail := ih hs.of_cons
      have hb : b.toInt ≤ (runLast (b :: rest)).toInt :=
        ((htail b).mp head_mem_take_runLength).2
      intro h
      rw [runLength_cons_cons hab, if_pos hsucc, List.take_succ_cons, List.mem_cons, htail,
        runLast_cons_cons_of_succ hab hsucc, ← Int64.toInt_inj]
      omega
    · rw [runLength_cons_cons hab, if_neg hsucc, runLast_cons_cons_of_not_succ hab hsucc]
      exact fun _ => mem_singleton_iff_toInt

/-- After a run the next handle is more than one above its last: the runs are maximal. -/
theorem lt_of_mem_drop_runLength (hs : (a :: rest).Pairwise (· < ·)) :
    ∀ h ∈ (a :: rest).drop (runLength (a :: rest)), (runLast (a :: rest)).toInt + 1 < h.toInt := by
  induction rest generalizing a with
  | nil => simp [runLength]
  | cons b rest ih =>
    have hab : a < b := List.rel_of_pairwise_cons hs List.mem_cons_self
    by_cases hsucc : b.toInt = a.toInt + 1
    · rw [runLength_cons_cons hab, if_pos hsucc, runLast_cons_cons_of_succ hab hsucc]
      exact ih hs.of_cons
    · rw [runLength_cons_cons hab, if_neg hsucc, runLast_cons_cons_of_not_succ hab hsucc]
      intro h hh
      have hb := Int64.lt_iff_toInt_lt.mp hab
      rcases List.mem_cons.mp hh with rfl | hrest
      · omega
      · have := Int64.lt_iff_toInt_lt.mp (List.rel_of_pairwise_cons hs.of_cons hrest)
        omega

theorem runCount_eq_runCount_drop (hs : (a :: rest).Pairwise (· < ·)) :
    runCount (a :: rest) = runCount ((a :: rest).drop (runLength (a :: rest))) + 1 := by
  induction rest generalizing a with
  | nil => rfl
  | cons b rest ih =>
    have hab : a < b := List.rel_of_pairwise_cons hs List.mem_cons_self
    by_cases hsucc : b.toInt = a.toInt + 1
    · rw [runLength_cons_cons hab, if_pos hsucc, runCount, if_pos hsucc, ih hs.of_cons]
      rfl
    · rw [runLength_cons_cons hab, if_neg hsucc, runCount, if_neg hsucc]
      rfl

end Runs

/-- The key range of the handles from `first` to `last`, as one pass of `TableHandlesToKVRanges`
builds it. -/
def handleKeyRange (tid first last : Int64) : KeyRange :=
  ⟨encodeRowKey tid (encodeInt first), encodeRowKey tid (prefixNext (encodeInt last))⟩

theorem contains_handleKeyRange_iff (tid tid' first last h : Int64) :
    (handleKeyRange tid first last).Contains (encodeRowKeyWithHandle tid' h) ↔
      tid' = tid ∧ first ≤ h ∧ h ≤ last :=
  contains_encodeRowKeyWithHandle_iff tid tid' first last h false false

theorem tableHandlesToKVRanges_cons (tid first : Int64) (rest : List Int64) :
    tableHandlesToKVRanges tid (first :: rest) =
      handleKeyRange tid first (runLast (first :: rest)) ::
        tableHandlesToKVRanges tid ((first :: rest).drop (runLength (first :: rest))) := by
  rw [tableHandlesToKVRanges]
  rfl

section Handles

variable (tid : Int64)

/-- Every range of strictly increasing handles is that of an interval from one handle to a later one. -/
theorem exists_handleKeyRange_of_mem : ∀ {handles : List Int64}, handles.Pairwise (· < ·) →
    ∀ kr ∈ tableHandlesToKVRanges tid handles,
      ∃ first ∈ handles, ∃ last ∈ handles, first ≤ last ∧ kr = handleKeyRange tid first last
  | [], _ => by simp [tableHandlesToKVRanges]
  | first :: rest, hs => by
    have hfirst := (mem_take_runLength_iff hs first).mp head_mem_take_runLength
    have hlast := (mem_take_runLength_iff hs (runLast (first :: rest))).mpr
      ⟨hfirst.2, le_refl _⟩
    rw [tableHandlesToKVRanges_cons]
    rintro kr (_ | ⟨_, hkr⟩)
    · exact ⟨first, List.mem_cons_self, _, List.mem_of_mem_take hlast,
        Int64.le_iff_toInt_le.mpr hfirst.2, rfl⟩
    · have hdrop := List.drop_sublist (runLength (first :: rest)) (first :: rest)
      obtain ⟨a, ha, b, hb, hab, rfl⟩ :=
        exists_handleKeyRange_of_mem (hs.sublist hdrop) kr hkr
      exact ⟨a, hdrop.subset ha, b, hdrop.subset hb, hab, rfl⟩
termination_by handles => handles.length
decreasing_by
  have := one_le_runLength (first :: rest)
  simp only [List.length_drop, List.length_cons]
  omega

/-- The row keys in the ranges of strictly increasing handles are those of the handles. -/
theorem exists_contains_iff : ∀ {handles : List Int64}, handles.Pairwise (· < ·) →
    ∀ tid' h, (∃ kr ∈ tableHandlesToKVRanges tid handles, kr.Contains (encodeRowKeyWithHandle tid' h)) ↔
      tid' = tid ∧ h ∈ handles
  | [], _ => by simp [tableHandlesToKVRanges]
  | first :: rest, hs => by
    intro tid' h
    have hdrop := List.drop_sublist (runLength (first :: rest)) (first :: rest)
    -- the first range holds the run, the others what follows it
    have hsplit : h ∈ first :: rest ↔ h ∈ (first :: rest).take (runLength (first :: rest)) ∨
        h ∈ (first :: rest).drop (runLength (first :: rest)) := by
      rw [← List.mem_append, List.take_append_drop]
    rw [tableHandlesToKVRanges_cons, hsplit]
    simp only [List.mem_cons, or_and_right, exists_or, exists_eq_left]
    rw [contains_handleKeyRange_iff, exists_contains_iff (hs.sublist hdrop) tid' h, mem_take_runLength_iff hs,
      Int64.le_iff_toInt_le, Int64.le_iff_toInt_le]
    tauto
termination_by handles => handles.length
decreasing_by
  have := one_le_runLength (first :: rest)
  simp only [List.length_drop, List.length_cons]
  omega

/-- Each range ends where or before every later one starts. -/
theorem pairwise_endKey_le : ∀ {handles : List Int64}, handles.Pairwise (· < ·) →
    (tableHandlesToKVRanges tid handles).Pairwise (fun r s => compare r.endKey s.startKey ≠ .gt)
  | [], _ => by simp [tableHandlesToKVRanges]
  | first :: rest, hs => by
    have hdrop := List.drop_sublist (runLength (first :: rest)) (first :: rest)
    rw [tableHandlesToKVRanges_cons, List.pairwise_cons]
    refine ⟨?_, pairwise_endKey_le (hs.sublist hdrop)⟩
    intro s hs'
    obtain ⟨a, ha, b, -, -, rfl⟩ := exists_handleKeyRange_of_mem tid (hs.sublist hdrop) s hs'
    -- a later range starts at a handle past the run, so past its last handle's successor
    have hgap := lt_of_mem_drop_runLength hs a ha
    have hself : compare tid tid = .eq := by
      rw [compare_eq_compare_toInt]
      exact compare_eq_iff_eq.mpr rfl
    rw [handleKeyRange, handleKeyRange, compare_encodeRowKey, hself, Ordering.eq_then,
      compare_prefixNext_encodeInt_ne_gt_iff, Int64.lt_iff_toInt_lt]
    omega
termination_by handles => handles.length
decreasing_by
  have := one_le_runLength (first :: rest)
  simp only [List.length_drop, List.length_cons]
  omega

theorem length_tableHandlesToKVRanges : ∀ {handles : List Int64}, handles.Pairwise (· < ·) →
    (tableHandlesToKVRanges tid handles).length = runCount handles
  | [], _ => by simp [tableHandlesToKVRanges, runCount]
  | first :: rest, hs => by
    have hdrop := List.drop_sublist (runLength (first :: rest)) (first :: rest)
    rw [tableHandlesToKVRanges_cons, List.length_cons,
      length_tableHandlesToKVRanges (hs.sublist hdrop), runCount_eq_runCount_drop hs]
termination_by handles => handles.length
decreasing_by
  have := one_le_runLength (first :: rest)
  simp only [List.length_drop, List.length_cons]
  omega

end Handles

theorem tableHandlesToKVRanges_runs (tid : Int64) (handles : List Int64)
    (hsorted : handles.Pairwise (· < ·)) :
    (tableHandlesToKVRanges tid handles).Pairwise (fun r s => ∀ k, ¬ (r.Contains k ∧ s.Contains k)) ∧
    (∀ tid' h, (∃ kr ∈ tableHandlesToKVRanges tid handles, kr.Contains (encodeRowKeyWithHandle tid' h)) ↔
      tid' = tid ∧ h ∈ handles) ∧
    (∀ kr ∈ tableHandlesToKVRanges tid handles, ∃ first last, first ≤ last ∧
      ∀ tid' h, kr.Contains (encodeRowKeyWithHandle tid' h) ↔ tid' = tid ∧ first ≤ h ∧ h ≤ last) ∧
    (tableHandlesToKVRanges tid handles).length = runCount handles := by
  refine ⟨(pairwise_endKey_le tid hsorted).imp fun hle => KeyRange.not_contains_of_endKey_le hle,
    exists_contains_iff tid hsorted, ?_, length_tableHandlesToKVRanges tid hsorted⟩
  intro kr hkr
  obtain ⟨first, -, last, -, hle, rfl⟩ := exists_handleKeyRange_of_mem tid hsorted kr hkr
  exact ⟨first, last, hle, fun tid' h => contains_handleKeyRange_iff tid tid' first last h⟩

/-- The key range of a handle range holds exactly the row keys of its handles, and the ranges of
strictly increasing handles are disjoint, hold exactly their row keys and are one to a maximal run. -/
theorem tableKVRanges_spec :
    (∀ (tid tid' lo hi h : Int64) (lowRest highRest : List Datum) (lowExclude highExclude : Bool),
      ∃ kr, tableRangesToKVRanges tid
          [⟨.int64 lo :: lowRest, .int64 hi :: highRest, lowExclude, highExclude⟩] = .ok [kr] ∧
        (kr.Contains (encodeRowKeyWithHandle tid' h) ↔
          tid' = tid ∧ (if lowExclude then lo < h else lo ≤ h) ∧
            (if highExclude then h < hi else h ≤ hi))) ∧
    ∀ (tid : Int64) (handles : List Int64), handles.Pairwise (· < ·) →
      (tableHandlesToKVRanges tid handles).Pairwise
        (fun r s => ∀ k, ¬ (r.Contains k ∧ s.Contains k)) ∧
      (∀ tid' h, (∃ kr ∈ tableHandlesToKVRanges tid handles,
          kr.Contains (encodeRowKeyWithHandle tid' h)) ↔ tid' = tid ∧ h ∈ handles) ∧
      (∀ kr ∈ tableHandlesToKVRanges tid handles, ∃ first last, first ≤ last ∧
        ∀ tid' h, kr.Contains (encodeRowKeyWithHandle tid' h) ↔ tid' = tid ∧ first ≤ h ∧ h ≤ last) ∧
      (tableHandlesToKVRanges tid handles).length = runCount handles :=
  ⟨tableRangesToKVRanges_handleRange, tableHandlesToKVRanges_runs⟩

theorem tableKVRanges_spec_maxInt64 :
    ([maxInt64 - 3, maxInt64 - 1, maxInt64] : List Int64).Pairwise (· < ·) ∧
    (tableHandlesToKVRanges 5 [maxInt64 - 3, maxInt64 - 1, maxInt64]).Pairwise
      (fun r s => ∀ k, ¬ (r.Contains k ∧ s.Contains k)) ∧
    (∀ tid' h, (∃ kr ∈ tableHandlesToKVRanges 5 [maxInt64 - 3, maxInt64 - 1, maxInt64],
        kr.Contains (encodeRowKeyWithHandle tid' h)) ↔
      tid' = 5 ∧ h ∈ [maxInt64 - 3, maxInt64 - 1, maxInt64]) ∧
    (∀ kr ∈ tableHandlesToKVRanges 5 [maxInt64 - 3, maxInt64 - 1, maxInt64], ∃ first last,
      first ≤ last ∧
      ∀ tid' h, kr.Contains (encodeRowKeyWithHandle tid' h) ↔ tid' = 5 ∧ first ≤ h ∧ h ≤ last) ∧
    (tableHandlesToKVRanges 5 [maxInt64 - 3, maxInt64 - 1, maxInt64]).length =
      runCount [maxInt64 - 3, maxInt64 - 1, maxInt64] :=
  ⟨by decide, tableKVRanges_spec.2 5 _ (by decide)⟩

end TinySql.Distsql
