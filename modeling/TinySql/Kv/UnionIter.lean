import TinySql.Kv.Key
import TinySql.Lib.SortedAssoc
import TinySql.Lib.ExceptList

/-!
# The union iterator of a transaction buffer and its snapshot

`kv/union_iter.go`, `kv/buffer_store.go` and the iterators of `kv/memdb_buffer.go`. A transaction
reads through a `BufferStore`: its own writes (the dirty buffer, where a deletion is a key with an
empty value) over the snapshot it reads from. `UnionIter` walks both in one direction at once, and
`updateCur` stops at the next entry to show: the dirty one when its key comes first or ties (the
snapshot's entry of that key is then passed), the snapshot's when its key comes first, and it moves
past a tombstone together with the snapshot entry it deletes.

An iterator is the list of entries it has left to visit: `Valid` is that one is left, `Key` and
`Value` read the first, `Next` drops it. Each stop of `updateCur` leaves the map the two sides show
unchanged (`Merged`), and the entry it stops at comes before everything left, so iterating the union
to the end lists the snapshot overridden by the buffer, tombstones removed, each key once, in the
direction of the walk (`collect_newUnionIter`). `BufferStore.Iter` and `IterReverse` therefore agree
with `BufferStore.Get` on every key of their range.
-/

namespace TinySql.Kv

open TinySql.Codec TinySql.Lib

/-- A key and its value; in a buffer an empty value is the deletion of the key. -/
abbrev Entry := Key × List (Fin 256)

/-- `UnionIter`. `dirtyValid` and `snapshotValid`, which cache whether each side has entries left,
are read off the lists. -/
structure UnionIter where
  dirtyIt : List Entry
  snapshotIt : List Entry
  curIsDirty : Bool
  isValid : Bool
  reverse : Bool
  deriving DecidableEq, Repr

/-- `dirtyKey.Cmp(snapshotKey)`, negated when the walk is in reverse. -/
def dirCompare (reverse : Bool) (dirtyKey snapshotKey : Key) : Ordering :=
  let cmp := compare dirtyKey snapshotKey
  if reverse then cmp.swap else cmp

/-- The loop of `updateCur`, on the entries both sides have left. -/
def updateCurLoop (reverse curIsDirty : Bool) : List Entry → List Entry → UnionIter
  | [], [] => ⟨[], [], curIsDirty, false, reverse⟩
  | [], e :: snapshotIt => ⟨[], e :: snapshotIt, false, true, reverse⟩
  | (dirtyKey, dirtyValue) :: dirtyIt, [] =>
    -- if delete it
    if dirtyValue.isEmpty then updateCurLoop reverse true dirtyIt []
    else ⟨(dirtyKey, dirtyValue) :: dirtyIt, [], true, true, reverse⟩
  | (dirtyKey, dirtyValue) :: dirtyIt, (snapshotKey, snapshotValue) :: snapshotIt =>
    match dirCompare reverse dirtyKey snapshotKey with
    | .eq =>
      -- snapshot has a record, but txn says we have deleted it
      if dirtyValue.isEmpty then updateCurLoop reverse curIsDirty dirtyIt snapshotIt
      -- both go next
      else ⟨(dirtyKey, dirtyValue) :: dirtyIt, snapshotIt, true, true, reverse⟩
    -- record from snapshot comes first
    | .gt =>
      ⟨(dirtyKey, dirtyValue) :: dirtyIt, (snapshotKey, snapshotValue) :: snapshotIt, false, true,
        reverse⟩
    | .lt =>
      -- jump over the deletion of a record the snapshot does not have
      if dirtyValue.isEmpty then
        updateCurLoop reverse curIsDirty dirtyIt ((snapshotKey, snapshotValue) :: snapshotIt)
      else
        ⟨(dirtyKey, dirtyValue) :: dirtyIt, (snapshotKey, snapshotValue) :: snapshotIt, true, true,
          reverse⟩

/-- `updateCur`. -/
def UnionIter.updateCur (it : UnionIter) : UnionIter :=
  updateCurLoop it.reverse it.curIsDirty it.dirtyIt it.snapshotIt

/-- `NewUnionIter`. -/
def newUnionIter (dirtyIt snapshotIt : List Entry) (reverse : Bool) : UnionIter :=
  UnionIter.updateCur ⟨dirtyIt, snapshotIt, false, false, reverse⟩

/-- `Next`: the side that holds the current entry moves on. -/
def UnionIter.next (it : UnionIter) : UnionIter :=
  if !it.curIsDirty then UnionIter.updateCur { it with snapshotIt := it.snapshotIt.tail }
  else UnionIter.updateCur { it with dirtyIt := it.dirtyIt.tail }

/-- `Key` and `Value`. -/
def UnionIter.entry (it : UnionIter) : Option Entry :=
  if !it.curIsDirty then it.snapshotIt.head? else it.dirtyIt.head?

/-- A caller's loop `for it.Valid() { read it.Key(), it.Value(); it.Next() }`, for at most `fuel`
entries. -/
def UnionIter.collect : Nat → UnionIter → List Entry
  | 0, _ => []
  | fuel + 1, it =>
    if it.isValid then
      match it.entry with
      | some e => e :: collect fuel it.next
      | none => []
    else []

/-- The map the union shows: the buffer's value of a key unless it is a deletion, else the
snapshot's. -/
def overlay (dirty snapshot : List Entry) (k : Key) : Option (List (Fin 256)) :=
  match dirty.lookup k with
  | some v => if v.isEmpty then none else some v
  | none => snapshot.lookup k

example : (newUnionIter [([1], []), ([2], [7])] [([1], [5]), ([3], [6])] false).collect 5 =
    [([2], [7]), ([3], [6])] := by decide

/-! ### The order of the walk -/

theorem dirCompare_false : dirCompare false = compare := rfl

theorem dirCompare_true : dirCompare true = fun a b => compare b a := by
  funext a b
  exact (Std.OrientedCmp.eq_swap).symm

instance (reverse : Bool) : Std.TransCmp (dirCompare reverse) := by
  cases reverse
  · rw [dirCompare_false]
    infer_instance
  · rw [dirCompare_true]
    infer_instance

instance (reverse : Bool) : Std.LawfulEqCmp (dirCompare reverse) := by
  cases reverse
  · rw [dirCompare_false]
    infer_instance
  · rw [dirCompare_true]
    infer_instance

theorem dirCompare_eq_lt_iff (reverse : Bool) (a b : Key) :
    dirCompare reverse a b = .lt ↔ compare a b = if reverse then .gt else .lt := by
  cases reverse
  · rfl
  · rw [dirCompare, if_pos rfl, if_pos rfl, Ordering.swap_eq_lt]

/-! ### The map shown -/

section Overlay

variable {k : Key} {d s : List Entry}

theorem overlay_cons_tombstone (hd : ∀ e ∈ d, e.1 ≠ k) (hs : ∀ e ∈ s, e.1 ≠ k) :
    overlay ((k, []) :: d) s = overlay d s := by
  funext k'
  by_cases hk : k' = k
  · subst hk
    rw [overlay, List.lookup_cons_self, overlay, lookup_eq_none_of_forall_ne hd,
      lookup_eq_none_of_forall_ne hs]
    rfl
  · rw [overlay, lookup_cons_of_ne hk, overlay]

theorem overlay_cons_tombstone_tie {sv : List (Fin 256)} (hd : ∀ e ∈ d, e.1 ≠ k)
    (hs : ∀ e ∈ s, e.1 ≠ k) : overlay ((k, []) :: d) ((k, sv) :: s) = overlay d s := by
  funext k'
  by_cases hk : k' = k
  · subst hk
    rw [overlay, List.lookup_cons_self, overlay, lookup_eq_none_of_forall_ne hd,
      lookup_eq_none_of_forall_ne hs]
    rfl
  · rw [overlay, lookup_cons_of_ne hk, overlay, lookup_cons_of_ne hk]

/-- A dirty value hides the snapshot's value of its key. -/
theorem overlay_cons_tie {v sv : List (Fin 256)} :
    overlay ((k, v) :: d) ((k, sv) :: s) = overlay ((k, v) :: d) s := by
  funext k'
  by_cases hk : k' = k
  · subst hk
    simp only [overlay, List.lookup_cons_self]
  · rw [overlay, lookup_cons_of_ne hk, overlay, lookup_cons_of_ne hk, lookup_cons_of_ne hk]

theorem mem_of_overlay_eq_some {v : List (Fin 256)} (h : overlay d s k = some v) :
    (k, v) ∈ d ∨ (k, v) ∈ s := by
  rw [overlay] at h
  split at h
  · rename_i v' hv'
    split_ifs at h
    cases h
    exact .inl (mem_of_lookup_eq_some hv')
  · exact .inr (mem_of_lookup_eq_some h)

end Overlay

/-! ### One stop of `updateCur` -/

/-- The entries the two sides have left, in the order of the walk, the snapshot without deletions. -/
structure Ordered (reverse : Bool) (d s : List Entry) : Prop where
  dirty_sorted : SortedKeys (dirCompare reverse) d
  snapshot_sorted : SortedKeys (dirCompare reverse) s
  snapshot_values : ∀ e ∈ s, e.2 ≠ []

theorem Ordered.of_suffix {reverse : Bool} {d s d' s' : List Entry} (h : Ordered reverse d s)
    (hd : List.IsSuffix d' d) (hs : List.IsSuffix s' s) : Ordered reverse d' s' :=
  ⟨h.dirty_sorted.sublist hd.sublist, h.snapshot_sorted.sublist hs.sublist,
    fun e he => h.snapshot_values e (hs.subset he)⟩

/-- Where `updateCur` stops on an entry: at the front of its side, before every entry left on the
other side, and not a deletion when it is dirty. -/
def UnionIter.Current (it : UnionIter) : Prop :=
  if it.curIsDirty then
    ∃ k v rest, it.dirtyIt = (k, v) :: rest ∧ v ≠ [] ∧
      ∀ e ∈ it.snapshotIt, dirCompare it.reverse k e.1 = .lt
  else
    ∃ k v rest, it.snapshotIt = (k, v) :: rest ∧
      ∀ e ∈ it.dirtyIt, dirCompare it.reverse k e.1 = .lt

/-- What `updateCur` makes of the sides `d` and `s`: it drops entries from their fronts only, shows
the same map, and either stops on an entry or has run both sides out. -/
structure Merged (reverse : Bool) (d s : List Entry) (it : UnionIter) : Prop where
  reverse_eq : it.reverse = reverse
  dirty_suffix : List.IsSuffix it.dirtyIt d
  snapshot_suffix : List.IsSuffix it.snapshotIt s
  overlay_eq : overlay it.dirtyIt it.snapshotIt = overlay d s
  current : it.isValid = true → it.Current
  exhausted : it.isValid = false → it.dirtyIt = [] ∧ it.snapshotIt = []

/-- Skipping entries that show nothing keeps what `updateCur` goes on to make of the rest. -/
theorem Merged.skip {reverse : Bool} {d s d' s' : List Entry} {it : UnionIter}
    (h : Merged reverse d' s' it) (hd : List.IsSuffix d' d) (hs : List.IsSuffix s' s)
    (hoverlay : overlay d' s' = overlay d s) : Merged reverse d s it :=
  ⟨h.reverse_eq, h.dirty_suffix.trans hd, h.snapshot_suffix.trans hs,
    h.overlay_eq.trans hoverlay, h.current, h.exhausted⟩

/-- A stop of `updateCur` where it is: the sides as they are, the current entry on top. -/
theorem merged_self {reverse : Bool} {d s : List Entry} {curIsDirty : Bool}
    (hcurrent : UnionIter.Current ⟨d, s, curIsDirty, true, reverse⟩) :
    Merged reverse d s ⟨d, s, curIsDirty, true, reverse⟩ :=
  ⟨rfl, List.suffix_refl d, List.suffix_refl s, rfl, fun _ => hcurrent, fun h => by cases h⟩

theorem current_dirty_iff {d s : List Entry} {isValid reverse : Bool} :
    UnionIter.Current ⟨d, s, true, isValid, reverse⟩ ↔
      ∃ k v rest, d = (k, v) :: rest ∧ v ≠ [] ∧ ∀ e ∈ s, dirCompare reverse k e.1 = .lt :=
  Iff.rfl

theorem current_snapshot_iff {d s : List Entry} {isValid reverse : Bool} :
    UnionIter.Current ⟨d, s, false, isValid, reverse⟩ ↔
      ∃ k v rest, s = (k, v) :: rest ∧ ∀ e ∈ d, dirCompare reverse k e.1 = .lt :=
  Iff.rfl

/-- Each run of the loop of `updateCur` over ordered sides: passing deletions shows the same map,
and where it stops the current entry comes first. The induction follows the loop, one dirty entry
dropped per turn. -/
theorem updateCurLoop_merged {reverse : Bool} :
    ∀ {d s : List Entry} (curIsDirty : Bool), Ordered reverse d s →
      Merged reverse d s (updateCurLoop reverse curIsDirty d s)
  | [], [], _, _ =>
    ⟨rfl, List.suffix_refl _, List.suffix_refl _, rfl, (fun h => by cases h), fun _ => ⟨rfl, rfl⟩⟩
  | [], (k, v) :: s, _, _ =>
    merged_self (current_snapshot_iff.mpr ⟨k, v, s, rfl, fun _ he => by cases he⟩)
  | (dk, dv) :: d, [], _, ho => by
    have hd := ho.dirty_sorted
    rw [updateCurLoop]
    by_cases hdv : dv.isEmpty
    · -- a deletion with no snapshot entry left: pass it
      rw [if_pos hdv, List.isEmpty_iff.mp hdv]
      have hrest := updateCurLoop_merged true (ho.of_suffix (List.suffix_cons _ _) (List.suffix_refl _))
      refine hrest.skip (List.suffix_cons _ _) (List.suffix_refl _) ?_
      refine (overlay_cons_tombstone ?_ fun _ he => by cases he).symm
      exact fun e he => (ne_of_cmp_eq_lt (hd.lt_of_cons e he)).symm
    · rw [if_neg hdv]
      exact merged_self (current_dirty_iff.mpr
        ⟨dk, dv, d, rfl, fun h => hdv (List.isEmpty_iff.mpr h), fun _ he => by cases he⟩)
  | (dk, dv) :: d, (sk, sv) :: s, c, ho => by
    have hd := ho.dirty_sorted
    have hs := ho.snapshot_sorted
    rw [updateCurLoop]
    cases hcmp : dirCompare reverse dk sk with
    | lt =>
      -- every snapshot key left comes after the dirty key
      have hafter : ∀ e ∈ (sk, sv) :: s, dirCompare reverse dk e.1 = .lt := by
        intro e he
        rcases List.mem_cons.mp he with rfl | he
        · exact hcmp
        · exact Std.TransCmp.lt_trans hcmp (hs.lt_of_cons e he)
      dsimp only
      by_cases hdv : dv.isEmpty
      · -- "delete a record not exists?": pass the deletion
        rw [if_pos hdv, List.isEmpty_iff.mp hdv]
        have hrest := updateCurLoop_merged c (ho.of_suffix (List.suffix_cons _ _) (List.suffix_refl _))
        refine hrest.skip (List.suffix_cons _ _) (List.suffix_refl _) ?_
        refine (overlay_cons_tombstone ?_ ?_).symm
        · exact fun e he => (ne_of_cmp_eq_lt (hd.lt_of_cons e he)).symm
        · exact fun e he => (ne_of_cmp_eq_lt (hafter e he)).symm
      · rw [if_neg hdv]
        exact merged_self (current_dirty_iff.mpr
          ⟨dk, dv, d, rfl, fun h => hdv (List.isEmpty_iff.mpr h), hafter⟩)
    | eq =>
      have hk : dk = sk := Std.LawfulEqCmp.eq_of_compare hcmp
      subst hk
      dsimp only
      by_cases hdv : dv.isEmpty
      · -- the deletion of a snapshot record: pass both
        rw [if_pos hdv, List.isEmpty_iff.mp hdv]
        have hrest := updateCurLoop_merged c (ho.of_suffix (List.suffix_cons _ _) (List.suffix_cons _ _))
        refine hrest.skip (List.suffix_cons _ _) (List.suffix_cons _ _) ?_
        refine (overlay_cons_tombstone_tie ?_ ?_).symm
        · exact fun e he => (ne_of_cmp_eq_lt (hd.lt_of_cons e he)).symm
        · exact fun e he => (ne_of_cmp_eq_lt (hs.lt_of_cons e he)).symm
      · -- the dirty value hides the snapshot's, which is passed
        rw [if_neg hdv]
        have hcur : Merged reverse ((dk, dv) :: d) s ⟨(dk, dv) :: d, s, true, true, reverse⟩ :=
          merged_self (current_dirty_iff.mpr
            ⟨dk, dv, d, rfl, fun h => hdv (List.isEmpty_iff.mpr h), hs.lt_of_cons⟩)
        exact hcur.skip (List.suffix_refl _) (List.suffix_cons _ _) overlay_cons_tie.symm
    | gt =>
      dsimp only
      refine merged_self (current_snapshot_iff.mpr ⟨sk, sv, s, rfl, ?_⟩)
      intro e he
      have hsk : dirCompare reverse sk dk = .lt := Std.OrientedCmp.gt_iff_lt.mp hcmp
      rcases List.mem_cons.mp he with rfl | he
      · exact hsk
      · exact Std.TransCmp.lt_trans hsk (hd.lt_of_cons e he)

/-! ### Iterating to the end -/

/-- Each entry the union shows comes out in the order of the walk, each key once: the stop of
`updateCur` is the first key of the map, and `Next` leaves the map without it. The induction is on
the fuel, which the entries left bound. -/
theorem collect_updateCurLoop {reverse : Bool} :
    ∀ (fuel : Nat) {d s : List Entry} (curIsDirty : Bool), Ordered reverse d s →
      d.length + s.length < fuel →
      Enumerates (dirCompare reverse) ((updateCurLoop reverse curIsDirty d s).collect fuel)
        (overlay d s)
  | 0, _, _, _, _, hlen => absurd hlen (Nat.not_lt_zero _)
  | fuel + 1, d, s, c, ho, hlen => by
    obtain ⟨hrev, hdsuf, hssuf, hover, hcur, hexh⟩ := updateCurLoop_merged c ho
    have ho' := ho.of_suffix hdsuf hssuf
    have hdlen := hdsuf.length_le
    have hslen := hssuf.length_le
    set it := updateCurLoop reverse c d s with hit
    rw [UnionIter.collect, ← hover]
    cases hvalid : it.isValid
    · -- both sides ran out: nothing is shown
      simp only [Bool.false_eq_true, ↓reduceIte]
      obtain ⟨hd0, hs0⟩ := hexh hvalid
      rw [hd0, hs0]
      exact Enumerates.nil fun _ => rfl
    simp only [↓reduceIte]
    have hc := hcur hvalid
    cases hdirty : it.curIsDirty
    · -- the snapshot's entry comes first
      simp only [UnionIter.Current, hdirty, Bool.false_eq_true, ↓reduceIte] at hc
      obtain ⟨k, v, rest, hsnap, hbefore⟩ := hc
      rw [hrev] at hbefore
      have hsorted := ho'.snapshot_sorted
      rw [hsnap] at hsorted
      have hentry : it.entry = some (k, v) := by
        simp only [UnionIter.entry, hdirty, hsnap, Bool.not_false, ↓reduceIte, List.head?_cons]
      have hnext : it.next = updateCurLoop reverse false it.dirtyIt rest := by
        simp only [UnionIter.next, UnionIter.updateCur, hdirty, hsnap, hrev, Bool.not_false,
          ↓reduceIte, List.tail_cons]
      have hrestlen : rest.length + 1 = it.snapshotIt.length := by rw [hsnap, List.length_cons]
      have hrest := collect_updateCurLoop fuel false
        (ho'.of_suffix (List.suffix_refl _) (hsnap ▸ List.suffix_cons _ _)) (by omega)
      rw [← hnext] at hrest
      rw [hentry]
      refine Enumerates.cons ?_ ?_ ?_ hrest
      · rw [hsnap, overlay, lookup_eq_none_of_forall_lt hbefore]
        exact List.lookup_cons_self
      · intro k'
        rw [hsnap]
        split_ifs with hk
        · subst hk
          rw [overlay, lookup_eq_none_of_forall_lt hbefore, lookup_eq_none_of_forall_lt hsorted.lt_of_cons]
        · rw [overlay, overlay, lookup_cons_of_ne hk]
      · intro k' v' h
        rcases mem_of_overlay_eq_some h with hmem | hmem
        · exact hbefore _ hmem
        · exact hsorted.lt_of_cons _ hmem
    · -- the dirty entry comes first
      simp only [UnionIter.Current, hdirty, ↓reduceIte] at hc
      obtain ⟨k, v, rest, hdirt, hv, hbefore⟩ := hc
      rw [hrev] at hbefore
      have hsorted := ho'.dirty_sorted
      rw [hdirt] at hsorted
      have hentry : it.entry = some (k, v) := by
        simp only [UnionIter.entry, hdirty, hdirt, Bool.not_true, Bool.false_eq_true, ↓reduceIte,
          List.head?_cons]
      have hnext : it.next = updateCurLoop reverse true rest it.snapshotIt := by
        simp only [UnionIter.next, UnionIter.updateCur, hdirty, hdirt, hrev, Bool.not_true,
          Bool.false_eq_true, ↓reduceIte, List.tail_cons]
      have hrestlen : rest.length + 1 = it.dirtyIt.length := by rw [hdirt, List.length_cons]
      have hrest := collect_updateCurLoop fuel true
        (ho'.of_suffix (hdirt ▸ List.suffix_cons _ _) (List.suffix_refl _)) (by omega)
      rw [← hnext] at hrest
      rw [hentry]
      refine Enumerates.cons ?_ ?_ ?_ hrest
      · rw [hdirt, overlay, List.lookup_cons_self]
        simp only [List.isEmpty_iff, hv, ↓reduceIte]
      · intro k'
        rw [hdirt]
        split_ifs with hk
        · subst hk
          rw [overlay, lookup_eq_none_of_forall_lt hsorted.lt_of_cons, lookup_eq_none_of_forall_lt hbefore]
        · rw [overlay, overlay, lookup_cons_of_ne hk]
      · intro k' v' h
        rcases mem_of_overlay_eq_some h with hmem | hmem
        · exact hsorted.lt_of_cons _ hmem
        · exact hbefore _ hmem

theorem sortedKeys_dirCompare_iff (reverse : Bool) (l : List Entry) :
    SortedKeys (dirCompare reverse) l ↔
      l.Pairwise fun a b => compare a.1 b.1 = if reverse then .gt else .lt := by
  simp only [SortedKeys, dirCompare_eq_lt_iff]

/-- Iterating a union to the end lists the snapshot overridden by the buffer, deletions removed,
each key once, in the direction of the walk. -/
theorem collect_newUnionIter (reverse : Bool) (dirty snapshot : List Entry)
    (hdirty : dirty.Pairwise fun a b => compare a.1 b.1 = if reverse then .gt else .lt)
    (hsnapshot : snapshot.Pairwise fun a b => compare a.1 b.1 = if reverse then .gt else .lt)
    (hvalues : ∀ e ∈ snapshot, e.2 ≠ []) (fuel : Nat)
    (hfuel : dirty.length + snapshot.length < fuel) :
    ((newUnionIter dirty snapshot reverse).collect fuel).Pairwise
        (fun a b => compare a.1 b.1 = if reverse then .gt else .lt) ∧
      ∀ k v, (k, v) ∈ (newUnionIter dirty snapshot reverse).collect fuel ↔
        overlay dirty snapshot k = some v := by
  have ho : Ordered reverse dirty snapshot :=
    ⟨(sortedKeys_dirCompare_iff reverse dirty).mpr hdirty,
      (sortedKeys_dirCompare_iff reverse snapshot).mpr hsnapshot, hvalues⟩
  obtain ⟨hsorted, hmem⟩ := collect_updateCurLoop fuel false ho hfuel
  exact ⟨(sortedKeys_dirCompare_iff reverse _).mp hsorted, hmem⟩

/-! ### The buffer store -/

def errNotExist : String := "Error: key not exist"

/-- `BufferStore`: the entries of its `MemBuffer` in key order, a deletion being an empty value
(`Set` refuses an empty value and `Delete` stores one), over the entries its `Retriever`, the
snapshot, reads, in key order and never empty. -/
structure BufferStore where
  memBuffer : List Entry
  retriever : List Entry
  memBuffer_sorted : SortedKeys compare memBuffer
  retriever_sorted : SortedKeys compare retriever
  retriever_values : ∀ e ∈ retriever, e.2 ≠ []

/-- `memDbBuffer.Get`, and the retriever's `Get`: `ErrNotExist` for a key without an entry. A
deleted key reads as its empty value. -/
def getEntry (entries : List Entry) (k : Key) : Except String (List (Fin 256)) :=
  match entries.lookup k with
  | some v => .ok v
  | none => .error errNotExist

/-- `BufferStore.Get`. -/
def BufferStore.get (bs : BufferStore) (k : Key) : Except String (List (Fin 256)) := do
  let val ← match getEntry bs.memBuffer k with
    | .error err => if err = errNotExist then getEntry bs.retriever k else .error err
    | .ok val => .ok val
  if val.isEmpty then .error errNotExist else .ok val

/-- `memDbBuffer.Iter`: `Seek(k)` to the first key not below `k`, then valid while below
`upperBound` (`none` is a nil bound). The retriever's iterator reads its entries the same way. -/
def iterFrom (entries : List Entry) (k : Key) (upperBound : Option Key) : List Entry :=
  (entries.dropWhile fun e => compare e.1 k == .lt).takeWhile fun e =>
    upperBound.all fun u => compare e.1 u == .lt

/-- `memDbBuffer.IterReverse`: `SeekForExclusivePrev(k)` to the last key below `k`, or `SeekToLast`
for a nil `k`, then backwards. -/
def iterReverseFrom (entries : List Entry) (k : Option Key) : List Entry :=
  (entries.takeWhile fun e => k.all fun u => compare e.1 u == .lt).reverse

/-- `BufferStore.Iter`. -/
def BufferStore.iter (bs : BufferStore) (k : Key) (upperBound : Option Key) : UnionIter :=
  newUnionIter (iterFrom bs.memBuffer k upperBound) (iterFrom bs.retriever k upperBound) false

/-- `BufferStore.IterReverse`. -/
def BufferStore.iterReverse (bs : BufferStore) (k : Option Key) : UnionIter :=
  newUnionIter (iterReverseFrom bs.memBuffer k) (iterReverseFrom bs.retriever k) true

theorem BufferStore.get_eq_ok_iff (bs : BufferStore) (k : Key) (v : List (Fin 256)) :
    bs.get k = .ok v ↔ overlay bs.memBuffer bs.retriever k = some v := by
  rw [BufferStore.get, getEntry, overlay]
  cases hmem : bs.memBuffer.lookup k with
  | some w =>
    by_cases hw : w.isEmpty
    · simp only [except_bind_ok, hw, ↓reduceIte, reduceCtorEq]
    · simp only [except_bind_ok, hw, Bool.false_eq_true, ↓reduceIte, Except.ok.injEq,
        Option.some.injEq]
  | none =>
    rw [getEntry]
    cases hret : bs.retriever.lookup k with
    | none => simp only [↓reduceIte, except_bind_error, reduceCtorEq]
    | some w =>
      -- the retriever never holds an empty value
      have hw : w.isEmpty = false := by
        rw [Bool.eq_false_iff, Ne, List.isEmpty_iff]
        exact bs.retriever_values _ (mem_of_lookup_eq_some hret)
      simp only [↓reduceIte, except_bind_ok, hw, Bool.false_eq_true, Except.ok.injEq,
        Option.some.injEq]

section Ranges

variable {l : List Entry}

theorem mem_iterFrom_iff (hl : SortedKeys compare l) (k : Key) (upperBound : Option Key)
    (e : Entry) :
    e ∈ iterFrom l k upperBound ↔
      e ∈ l ∧ compare e.1 k ≠ .lt ∧ ∀ u ∈ upperBound, compare e.1 u = .lt := by
  -- on a sorted list `Seek` and the upper bound cut where a filter would
  have hdrop : l.dropWhile (fun e => compare e.1 k == .lt) =
      l.filter fun e => !(compare e.1 k == .lt) := by
    refine dropWhile_eq_filter_of_pairwise ?_ hl
    intro a b hab hb
    simp only [beq_iff_eq] at hb ⊢
    exact Std.TransCmp.lt_trans hab hb
  have hsorted : SortedKeys compare (l.filter fun e => !(compare e.1 k == .lt)) :=
    hl.sublist List.filter_sublist
  have htake := takeWhile_eq_filter_of_pairwise (p := fun e => upperBound.all fun u => compare e.1 u == .lt)
    ?_ hsorted
  · rw [iterFrom, hdrop, htake, List.mem_filter, List.mem_filter]
    cases upperBound <;> simp [and_assoc]
  · intro a b hab hb
    cases upperBound with
    | none => rfl
    | some u =>
      simp only [Option.all_some, beq_iff_eq] at hb ⊢
      exact Std.TransCmp.lt_trans hab hb

theorem mem_iterReverseFrom_iff (hl : SortedKeys compare l) (k : Option Key) (e : Entry) :
    e ∈ iterReverseFrom l k ↔ e ∈ l ∧ ∀ u ∈ k, compare e.1 u = .lt := by
  have htake := takeWhile_eq_filter_of_pairwise (p := fun e => k.all fun u => compare e.1 u == .lt)
    ?_ hl
  · rw [iterReverseFrom, List.mem_reverse, htake, List.mem_filter]
    cases k <;> simp
  · intro a b hab hb
    cases k with
    | none => rfl
    | some u =>
      simp only [Option.all_some, beq_iff_eq] at hb ⊢
      exact Std.TransCmp.lt_trans hab hb

theorem sorted_iterFrom (hl : SortedKeys compare l) (k : Key) (upperBound : Option Key) :
    SortedKeys (dirCompare false) (iterFrom l k upperBound) :=
  hl.sublist ((List.takeWhile_sublist _).trans (List.dropWhile_sublist _))

/-- The backward cut of a list in key order is in the order of a reverse walk. -/
theorem sorted_iterReverseFrom (hl : SortedKeys compare l) (k : Option Key) :
    SortedKeys (dirCompare true) (iterReverseFrom l k) := by
  rw [iterReverseFrom, SortedKeys, List.pairwise_reverse, dirCompare_true]
  exact hl.sublist (List.takeWhile_sublist _)

/-- The map two cut sides show is the map of the whole sides, on the keys the cut keeps. -/
theorem overlay_of_mem_iff {d s d' s' : List Entry} (hd : SortedKeys compare d)
    (hs : SortedKeys compare s) {reverse : Bool} (hd' : SortedKeys (dirCompare reverse) d')
    (hs' : SortedKeys (dirCompare reverse) s') (P : Key → Prop) [DecidablePred P]
    (hdmem : ∀ e, e ∈ d' ↔ e ∈ d ∧ P e.1) (hsmem : ∀ e, e ∈ s' ↔ e ∈ s ∧ P e.1) (k : Key) :
    overlay d' s' k = if P k then overlay d s k else none := by
  rw [overlay, overlay, lookup_eq_ite_of_mem_iff hd.pairwise_ne hd'.pairwise_ne hdmem,
    lookup_eq_ite_of_mem_iff hs.pairwise_ne hs'.pairwise_ne hsmem]
  split_ifs <;> rfl

end Ranges

theorem length_iterFrom_le (l : List Entry) (k : Key) (upperBound : Option Key) :
    (iterFrom l k upperBound).length ≤ l.length :=
  ((List.takeWhile_sublist _).trans (List.dropWhile_sublist _)).length_le

theorem length_iterReverseFrom_le (l : List Entry) (k : Option Key) :
    (iterReverseFrom l k).length ≤ l.length := by
  rw [iterReverseFrom, List.length_reverse]
  exact (List.takeWhile_sublist _).length_le

/-- `BufferStore.Iter` lists, in key order, exactly the keys of its range that `Get` reads, with
the values `Get` reads. -/
theorem BufferStore.collect_iter (bs : BufferStore) (k : Key) (upperBound : Option Key) (fuel : Nat)
    (hfuel : bs.memBuffer.length + bs.retriever.length < fuel) :
    ((bs.iter k upperBound).collect fuel).Pairwise (fun a b => compare a.1 b.1 = .lt) ∧
      ∀ key v, (key, v) ∈ (bs.iter k upperBound).collect fuel ↔
        (compare key k ≠ .lt ∧ ∀ u ∈ upperBound, compare key u = .lt) ∧ bs.get key = .ok v := by
  classical
  have hd := sorted_iterFrom bs.memBuffer_sorted k upperBound
  have hs := sorted_iterFrom bs.retriever_sorted k upperBound
  have hmems := mem_iterFrom_iff bs.retriever_sorted k upperBound
  have ho : Ordered false (iterFrom bs.memBuffer k upperBound) (iterFrom bs.retriever k upperBound) :=
    ⟨hd, hs, fun e he => bs.retriever_values e ((hmems e).mp he).1⟩
  have hlend := length_iterFrom_le bs.memBuffer k upperBound
  have hlens := length_iterFrom_le bs.retriever k upperBound
  obtain ⟨hsorted, hmem⟩ := collect_updateCurLoop fuel false ho (by omega)
  refine ⟨hsorted, fun key v => (hmem key v).trans ?_⟩
  rw [overlay_of_mem_iff bs.memBuffer_sorted bs.retriever_sorted hd hs
    (fun key => compare key k ≠ .lt ∧ ∀ u ∈ upperBound, compare key u = .lt)
    (mem_iterFrom_iff bs.memBuffer_sorted k upperBound) hmems key]
  split_ifs with hrange
  · rw [BufferStore.get_eq_ok_iff, and_iff_right hrange]
  · exact iff_of_false (by simp) fun h => hrange h.1

/-- `BufferStore.IterReverse` lists, in descending key order, exactly the keys below its start that
`Get` reads, with the values `Get` reads. -/
theorem BufferStore.collect_iterReverse (bs : BufferStore) (k : Option Key) (fuel : Nat)
    (hfuel : bs.memBuffer.length + bs.retriever.length < fuel) :
    ((bs.iterReverse k).collect fuel).Pairwise (fun a b => compare a.1 b.1 = .gt) ∧
      ∀ key v, (key, v) ∈ (bs.iterReverse k).collect fuel ↔
        (∀ u ∈ k, compare key u = .lt) ∧ bs.get key = .ok v := by
  classical
  have hd := sorted_iterReverseFrom bs.memBuffer_sorted k
  have hs := sorted_iterReverseFrom bs.retriever_sorted k
  have hmems := mem_iterReverseFrom_iff bs.retriever_sorted k
  have ho : Ordered true (iterReverseFrom bs.memBuffer k) (iterReverseFrom bs.retriever k) :=
    ⟨hd, hs, fun e he => bs.retriever_values e ((hmems e).mp he).1⟩
  have hlend := length_iterReverseFrom_le bs.memBuffer k
  have hlens := length_iterReverseFrom_le bs.retriever k
  obtain ⟨hsorted, hmem⟩ := collect_updateCurLoop fuel false ho (by omega)
  refine ⟨(sortedKeys_dirCompare_iff true _).mp hsorted, fun key v => (hmem key v).trans ?_⟩
  rw [overlay_of_mem_iff bs.memBuffer_sorted bs.retriever_sorted hd hs
    (fun key => ∀ u ∈ k, compare key u = .lt)
    (mem_iterReverseFrom_iff bs.memBuffer_sorted k) hmems key]
  split_ifs with hrange
  · rw [BufferStore.get_eq_ok_iff, and_iff_right hrange]
  · exact iff_of_false (by simp) fun h => hrange h.1

theorem unionIter_spec :
    (∀ (reverse : Bool) (dirty snapshot : List Entry),
      (dirty.Pairwise fun a b => compare a.1 b.1 = if reverse then .gt else .lt) →
      (snapshot.Pairwise fun a b => compare a.1 b.1 = if reverse then .gt else .lt) →
      (∀ e ∈ snapshot, e.2 ≠ []) → ∀ fuel, dirty.length + snapshot.length < fuel →
      ((newUnionIter dirty snapshot reverse).collect fuel).Pairwise
          (fun a b => compare a.1 b.1 = if reverse then .gt else .lt) ∧
        ∀ k v, (k, v) ∈ (newUnionIter dirty snapshot reverse).collect fuel ↔
          overlay dirty snapshot k = some v) ∧
    (∀ (bs : BufferStore) (k : Key) (upperBound : Option Key) (fuel : Nat),
      bs.memBuffer.length + bs.retriever.length < fuel →
      ((bs.iter k upperBound).collect fuel).Pairwise (fun a b => compare a.1 b.1 = .lt) ∧
        ∀ key v, (key, v) ∈ (bs.iter k upperBound).collect fuel ↔
          (compare key k ≠ .lt ∧ ∀ u ∈ upperBound, compare key u = .lt) ∧ bs.get key = .ok v) ∧
    ∀ (bs : BufferStore) (k : Option Key) (fuel : Nat),
      bs.memBuffer.length + bs.retriever.length < fuel →
      ((bs.iterReverse k).collect fuel).Pairwise (fun a b => compare a.1 b.1 = .gt) ∧
        ∀ key v, (key, v) ∈ (bs.iterReverse k).collect fuel ↔
          (∀ u ∈ k, compare key u = .lt) ∧ bs.get key = .ok v :=
  ⟨collect_newUnionIter, BufferStore.collect_iter, BufferStore.collect_iterReverse⟩

theorem unionIter_spec_deletes :
    ([([1], []), ([2], [7])] : List Entry).Pairwise
        (fun a b => compare a.1 b.1 = if false then .gt else .lt) ∧
      ([([1], [5]), ([3], [6])] : List Entry).Pairwise
        (fun a b => compare a.1 b.1 = if false then .gt else .lt) ∧
      (∀ e ∈ ([([1], [5]), ([3], [6])] : List Entry), e.2 ≠ []) ∧
      (((newUnionIter [([1], []), ([2], [7])] [([1], [5]), ([3], [6])] false).collect 5).Pairwise
          (fun a b => compare a.1 b.1 = if false then .gt else .lt) ∧
        ∀ k v, (k, v) ∈ (newUnionIter [([1], []), ([2], [7])] [([1], [5]), ([3], [6])] false).collect 5 ↔
          overlay [([1], []), ([2], [7])] [([1], [5]), ([3], [6])] k = some v) :=
  ⟨by decide, by decide, by decide,
    unionIter_spec.1 false _ _ (by decide) (by decide) (by decide) 5 (by decide)⟩

end TinySql.Kv
