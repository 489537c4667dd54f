import TinySql.Structure.Repr

/-!
# Strings and hashes refine their content

The writing operations of `string.go` and `hash.go`, run on a store that represents a content,
give a store that represents the content after the operation, and fail where the content
operation does: on an empty value, and on an increment of a value that is not a decimal integer.
A write may also meet a size limit of the membuffer (`OkOr` with `isTooLarge`); deletions never
do.

The field count in the meta key of a hash is the length of the hash's listing (`HashRepr.count`).
`updateHash` adds one for a new field; the loop of `HDel` takes one off for each field it deletes
(`hDelLoop_spec`), and `HDel` writes the count back, or deletes the meta key when it is zero. Both
tests of the count against zero read the length right because the count stays below `2^63`.
-/

namespace TinySql.Structure

open TinySql.Codec TinySql.Lib

theorem formatInt_ne_nil (i : Int) : Expression.formatInt i ≠ [] := by
  unfold Expression.formatInt
  cases i with
  | ofNat n =>
    simp only [toString, Int.repr, Nat.repr, Nat.toDigits, ne_eq, List.map_eq_nil_iff,
      String.toList_ofList, Nat.toDigitsCore]
    split
    · simp
    · rw [← ne_eq, ← List.length_pos_iff, Nat.toDigitsCore_lens_eq]
      omega
  | negSucc n => simp [toString, Int.repr]

namespace TxStructure

theorem hashMetaValue_ne_nil (x : Int64) : hashMetaValue x ≠ [] := by
  rw [← List.length_pos_iff, hashMetaValue, length_bigEndian]
  decide

theorem ofNat_le_zero_iff {n : Nat} (h : n < 2 ^ 63) : Int64.ofNat n ≤ 0 ↔ n = 0 := by
  rw [Int64.le_iff_toInt_le, Int64.toInt_ofNat_of_lt h]
  simp

variable {t : TxStructure} {c : Content} {b : Nat}

theorem loadHashMeta_of_get {k : Key} {n : Nat} (hk : t.store.get k = hashMetaEntry n) :
    t.loadHashMeta k = .ok (Int64.ofNat n) := by
  unfold loadHashMeta
  rw [hk, hashMetaEntry]
  split_ifs with hn
  · subst hn
    rfl
  · simp [hashMetaValue, readBigEndian_bigEndian]

/-! ### Strings -/

/-- A non-empty value written at the string key. -/
theorem Repr.writeString (h : t.Repr c b) (key : List (Fin 256)) {v : List (Fin 256)} (hv : v ≠ [])
    (mb : MemBuffer) :
    (t.withStore ⟨Store.insertPair (t.encodeStringDataKey key) v t.store.pairs⟩ mb).Repr
      (c.setString key (some v)) b :=
  h.setString (Writes.insert h.wf (F := .string key) rfl hv mb)
    (by rw [withStore_store, Store.get_insertPair, if_pos rfl])

theorem Repr.set (h : t.Repr c b) (key : List (Fin 256)) {value : List (Fin 256)} (hv : value ≠ []) :
    OkOr (·.isTooLarge) (·.Repr (c.setString key (some value)) b) (t.set key value) := by
  rw [TxStructure.set, if_neg (by simp [h.wf.writable])]
  exact (setKey_of_ne_nil t hv _).imp fun t' ht' => ht' ▸ h.writeString key hv _

theorem Repr.set_nil (h : t.Repr c b) (key : List (Fin 256)) :
    t.set key [] = .error .cannotSetNilValue := by
  simp [TxStructure.set, h.wf.writable, setKey_nil]

theorem Repr.clear (h : t.Repr c b) (key : List (Fin 256)) :
    ∃ t', t.clear key = .ok t' ∧ t'.Repr (c.setString key none) b :=
  ⟨_, by simp [TxStructure.clear, h.wf.writable, deleteKey_eq],
    h.setString (Writes.delete h.wf (F := .string key) rfl
      (t.memBuffer.delete (t.encodeStringDataKey key)))
      (by rw [withStore_store, Store.get_delete, if_pos rfl])⟩

/-- `IncInt64` adds to the integer the content holds, and fails where the content does. -/
theorem Repr.inc (h : t.Repr c b) (key : List (Fin 256)) (step : Int64) :
    match incBase (c.string key) step with
    | none => t.inc key step = .error .parse
    | some n => OkOr (·.isTooLarge) (fun r => r.1 = n ∧
        r.2.Repr (c.setString key (some (Expression.formatInt n.toInt))) b) (t.inc key step) := by
  have hs : t.store.get (t.encodeStringDataKey key) = c.string key := h.part (.string key)
  -- both branches that succeed write the decimal text of the new value
  have hwrite : ∀ n : Int64, OkOr (·.isTooLarge) (fun r => r.1 = n ∧
      r.2.Repr (c.setString key (some (Expression.formatInt n.toInt))) b)
      (do return (n, ← t.setKey (t.encodeStringDataKey key) (Expression.formatInt n.toInt))) :=
    fun n => (setKey_of_ne_nil t (formatInt_ne_nil _) _).bind fun t' ht' =>
      (okOr_pure _).mpr ⟨rfl, ht' ▸ h.writeString key (formatInt_ne_nil n.toInt) _⟩
  simp only [TxStructure.inc, h.wf.writable, Bool.not_true, Bool.false_eq_true, if_false, hs]
  cases c.string key with
  | none => exact hwrite step
  | some v =>
    simp only [incBase]
    rcases Types.parseInt10 v with ⟨n, _ | e⟩
    · exact hwrite _
    · rfl

/-! ### Hashes -/

variable {key : List (Fin 256)} {m : List (Fin 256) → Option (List (Fin 256))}

theorem HashRepr.loadHashMeta (h : t.HashRepr key m b) :
    t.loadHashMeta (t.encodeHashMetaKey key) = .ok (Int64.ofNat (t.hashDataAsc key).length) :=
  loadHashMeta_of_get h.count

theorem HashRepr.mono (h : t.HashRepr key m b) {b' : Nat} (hb : b ≤ b') : t.HashRepr key m b' :=
  ⟨h.data, h.count, h.count_le.trans hb⟩

/-- A hash with no pairs has no fields. -/
theorem HashRepr.eq_none_of_length (h : t.HashRepr key m b) (hwf : t.Wf)
    (hz : (t.hashDataAsc key).length = 0) (field : List (Fin 256)) : m field = none := by
  rw [← h.data field, Option.eq_none_iff_forall_ne_some]
  intro v hv
  have hmem : (t.encodeHashDataKey key field, v) ∈ t.hashDataAsc key :=
    hwf.mem_hashDataAsc_iff.mpr ⟨⟨field, rfl⟩, hv⟩
  rw [List.length_eq_zero_iff.mp hz] at hmem
  cases hmem

/-- `updateHash` with a new value that is not empty: the field gets it, and the count grows when
the field is new, unless a write meets a size limit. -/
theorem HashRepr.updateHash (h : t.HashRepr key m b) (hwf : t.Wf) (field : List (Fin 256))
    (fn : Option (List (Fin 256)) → Except StructureError (List (Fin 256))) {v : List (Fin 256)}
    (hfn : fn (m field) = .ok v) (hv : v ≠ []) :
    OkOr (·.isTooLarge) (fun t' => t.Writes (.hash key) t' ∧
      t'.HashRepr key (Function.update m field (some v)) (b + 1)) (t.updateHash key field fn) := by
  have hold : t.store.get (t.encodeHashDataKey key field) = m field := h.data field
  by_cases hsame : (m field).getD [] = v
  · -- the value is already there, and nothing is written
    have hm : m field = some v := by
      cases hmf : m field with
      | none =>
        rw [hmf] at hsame
        exact absurd hsame.symm hv
      | some w =>
        rw [hmf] at hsame
        rw [← hsame]
        rfl
    refine okOr_of_eq_ok (by simp [TxStructure.updateHash, hold, hfn, hsame]; rfl) ⟨Writes.refl hwf _, ?_⟩
    rw [Function.update_eq_self_iff.mpr hm.symm]
    exact h.mono (Nat.le_succ b)
  have hdata₁ : ∀ f, (Store.mk (Store.insertPair (t.encodeHashDataKey key field) v
      t.store.pairs)).get (t.encodeHashDataKey key f) = Function.update m field (some v) f := by
    intro f
    rw [Store.get_insertPair, Function.update_apply]
    by_cases hf : f = field
    · simp [hf]
    · rw [if_neg (encodeHashDataKey_inj.not.mpr hf), if_neg hf]
      exact h.data f
  have hmeta₁ : (Store.mk (Store.insertPair (t.encodeHashDataKey key field) v
      t.store.pairs)).get (t.encodeHashMetaKey key) = hashMetaEntry (t.hashDataAsc key).length := by
    rw [Store.get_insertPair, if_neg (encodeHashMetaKey_ne_encodeHashDataKey _ _ _)]
    exact h.count
  have hlen₁ := Store.length_insertPair (t.encodeHashDataKey key field) v
    (hwf.sortedKeys_hashDataAsc key)
  rw [hwf.get_hashDataAsc, hold,
    ← hashDataAsc_insert hwf _ _ _ (t.memBuffer.put (t.encodeHashDataKey key field) v)] at hlen₁
  simp only [TxStructure.updateHash, hold, hfn, except_bind_ok, if_neg hsame]
  -- the data key is written first
  refine okOr_setKey_bind hv _ ?_
  set t₁ := t.withStore ⟨Store.insertPair (t.encodeHashDataKey key field) v t.store.pairs⟩
    (t.memBuffer.put (t.encodeHashDataKey key field) v) with ht₁
  have hw₁ : t.Writes (.hash key) t₁ := Writes.insert hwf (F := .hash key) (.inr ⟨field, rfl⟩) hv _
  have hload₁ : t₁.loadHashMeta (t₁.encodeHashMetaKey key) =
      .ok (Int64.ofNat (t.hashDataAsc key).length) :=
    loadHashMeta_of_get hmeta₁
  simp only [hload₁, except_bind_ok]
  cases hmf : m field with
  | none =>
    -- a new field: the count grows by one
    rw [hmf] at hlen₁
    simp only [Option.isNone_none, if_true]
    refine (setKey_of_ne_nil t₁ (hashMetaValue_ne_nil _) _).imp fun t₂ ht₂ => ?_
    subst ht₂
    have hw₂ := Writes.insert hw₁.wf (F := .hash key) (.inl rfl)
      (hashMetaValue_ne_nil (Int64.ofNat (t.hashDataAsc key).length + 1))
      (t₁.memBuffer.put (t₁.encodeHashMetaKey key)
        (hashMetaValue (Int64.ofNat (t.hashDataAsc key).length + 1)))
    refine ⟨hw₁.trans hw₂, fun f => ?_, ?_, ?_⟩
    · simp only [ht₁, withStore_store, encodeHashDataKey_withStore, encodeHashMetaKey_withStore]
      rw [Store.get_insertPair, if_neg (encodeHashMetaKey_ne_encodeHashDataKey _ _ _).symm]
      exact hdata₁ f
    · rw [hashDataAsc_insert_meta hw₁.wf, hlen₁, if_pos rfl]
      simp only [ht₁, withStore_store, encodeHashMetaKey_withStore]
      rw [Store.get_insertPair, if_pos rfl, hashMetaEntry, if_neg (Nat.succ_ne_zero _),
        Int64.ofNat_add]
      rfl
    · rw [hashDataAsc_insert_meta hw₁.wf, hlen₁, if_pos rfl]
      exact Nat.succ_le_succ h.count_le
  | some old =>
    -- a field that was there: the count stays
    rw [hmf] at hlen₁
    simp only [Option.isNone_some, Bool.false_eq_true, if_false, okOr_pure]
    refine ⟨hw₁, fun f => hdata₁ f, ?_, ?_⟩
    · rw [ht₁, withStore_store, encodeHashMetaKey_withStore, hmeta₁, ← ht₁, hlen₁]
      rfl
    · rw [hlen₁]
      exact Nat.le_succ_of_le h.count_le

theorem Repr.hSet (h : t.Repr c b) (key field : List (Fin 256)) {value : List (Fin 256)}
    (hv : value ≠ []) :
    OkOr (·.isTooLarge) (·.Repr (c.setField key field (some value)) (b + 1)) (t.hSet key field value) := by
  have hh : t.HashRepr key (c.hash key) b := h.part (.hash key)
  rw [TxStructure.hSet, if_neg (by simp [h.wf.writable])]
  exact (hh.updateHash h.wf field (fun _ => .ok value) rfl hv).imp fun t' ⟨hw, hr⟩ =>
    h.setHash hw hr (Nat.le_succ b)

/-- `HSet` of an empty value changes nothing over a missing field, and is refused over a present
one, whose value is not empty. -/
theorem Repr.hSet_nil (h : t.Repr c b) (key field : List (Fin 256)) :
    t.hSet key field [] =
      if c.hash key field = none then .ok t else .error .cannotSetNilValue := by
  have hold : t.store.get (t.encodeHashDataKey key field) = c.hash key field :=
    (show t.HashRepr key (c.hash key) b from h.part (.hash key)).data field
  simp only [TxStructure.hSet, h.wf.writable, Bool.not_true, Bool.false_eq_true, if_false,
    TxStructure.updateHash, bind, Except.bind, pure, Except.pure, hold]
  cases hf : c.hash key field with
  | none => rfl
  | some w =>
    have hw : w ≠ [] := h.wf.get_ne_nil (hold.trans hf)
    simp [hw, setKey_nil]

/-- `HIncInt64` adds to the integer of the field, and fails where the content does. -/
theorem Repr.hInc (h : t.Repr c b) (key field : List (Fin 256)) (step : Int64) :
    match incBase (c.hash key field) step with
    | none => t.hInc key field step = .error .parse
    | some n => OkOr (·.isTooLarge) (fun r => r.1 = n ∧
        r.2.Repr (c.setField key field (some (Expression.formatInt n.toInt))) (b + 1))
        (t.hInc key field step) := by
  have hh : t.HashRepr key (c.hash key) b := h.part (.hash key)
  -- both branches that succeed write the decimal text of the new value
  have hwrite : ∀ n : Int64, OkOr (·.isTooLarge) (fun r => r.1 = n ∧
      r.2.Repr (c.setField key field (some (Expression.formatInt n.toInt))) (b + 1))
      (do return (n, ← t.updateHash key field fun _ => .ok (Expression.formatInt n.toInt))) :=
    fun n => (hh.updateHash h.wf field _ rfl (formatInt_ne_nil n.toInt)).bind fun _ ⟨hw, hr⟩ =>
      (okOr_pure _).mpr ⟨rfl, h.setHash hw hr (Nat.le_succ b)⟩
  simp only [TxStructure.hInc, h.wf.writable, Bool.not_true, Bool.false_eq_true, if_false, hGet,
    hh.data field]
  cases c.hash key field with
  | none => exact hwrite step
  | some v =>
    simp only [incBase]
    rcases Types.parseInt10 v with ⟨n, _ | e⟩
    · exact hwrite (n + step)
    · rfl

/-- A store whose fields of a hash are among those of another lists no more pairs for it. -/
theorem length_hashDataAsc_le (hwf : t.Wf) {t' : TxStructure} (hwf' : t'.Wf)
    (hpre : t'.keyPrefix = t.keyPrefix)
    (hsub : ∀ f v, t'.store.get (t.encodeHashDataKey key f) = some v →
      t.store.get (t.encodeHashDataKey key f) = some v) :
    (t'.hashDataAsc key).length ≤ (t.hashDataAsc key).length := by
  have hnodup : (t'.hashDataAsc key).Nodup :=
    ((hwf'.sortedKeys_hashDataAsc key).pairwise_ne).imp fun hne heq => hne (congrArg Prod.fst heq)
  apply hnodup.length_le_of_subset
  intro p hp
  obtain ⟨⟨f, hf⟩, hget⟩ := hwf'.mem_hashDataAsc_iff.mp hp
  have hk : t'.encodeHashDataKey key f = t.encodeHashDataKey key f := by
    simp [encodeHashDataKey, hashDataKeyPrefix, hpre]
  rw [hk] at hf
  exact hwf.mem_hashDataAsc_iff.mpr ⟨⟨f, hf⟩, hf ▸ hsub f p.2 (hf ▸ hget)⟩

/-- The loop of `HDel` deletes the fields it is given, leaves the meta key alone, and takes one off
the count for each field it finds. -/
theorem hDelLoop_spec (key : List (Fin 256)) :
    ∀ (fields : List (List (Fin 256))) {t : TxStructure} (cnt : Int64), t.Wf →
      ∃ t' cnt', hDelLoop key fields (t, cnt) = (t', cnt') ∧ t.Writes (.hash key) t' ∧
        (∀ f, t'.store.get (t.encodeHashDataKey key f) =
          if f ∈ fields then none else t.store.get (t.encodeHashDataKey key f)) ∧
        t'.store.get (t.encodeHashMetaKey key) = t.store.get (t.encodeHashMetaKey key) ∧
        cnt' + Int64.ofNat (t.hashDataAsc key).length = cnt + Int64.ofNat (t'.hashDataAsc key).length
  | [], t, cnt, hwf => ⟨t, cnt, rfl, Writes.refl hwf _, fun f => by simp, rfl, rfl⟩
  | field :: fields, t, cnt, hwf => by
    rw [hDelLoop]
    cases hget : t.store.get (t.encodeHashDataKey key field) with
    | none =>
      -- a missing field is passed over
      obtain ⟨t', cnt', heq, hw, hdata, hmeta, hcnt⟩ := hDelLoop_spec key fields cnt hwf
      refine ⟨t', cnt', by simpa [hget] using heq, hw, fun f => ?_, hmeta, hcnt⟩
      rw [hdata f]
      by_cases hf : f = field
      · subst hf
        simp [hget]
      · simp [hf]
    | some old =>
      -- a present field is deleted, and the count goes down by one
      have hw₁ := Writes.delete hwf (F := .hash key) (.inr ⟨field, rfl⟩)
        (t.memBuffer.delete (t.encodeHashDataKey key field))
      obtain ⟨t', cnt', heq, hw, hdata, hmeta, hcnt⟩ := hDelLoop_spec key fields (cnt - 1) hw₁.wf
      have hlen := Store.length_filter_ne (hwf.sortedKeys_hashDataAsc key)
        (t.encodeHashDataKey key field)
      rw [hwf.get_hashDataAsc, hget,
        ← hashDataAsc_delete _ _ (t.memBuffer.delete (t.encodeHashDataKey key field)),
        if_neg (Option.some_ne_none old)] at hlen
      simp only [encodeHashDataKey_withStore, encodeHashMetaKey_withStore, withStore_store]
        at hdata hmeta
      refine ⟨t', cnt', by simpa [hget, deleteKey_eq] using heq, hw₁.trans hw, fun f => ?_, ?_, ?_⟩
      · rw [hdata f]
        simp only [Store.get_delete, encodeHashDataKey_inj, List.mem_cons]
        by_cases hf : f = field <;> simp [hf]
      · rw [hmeta, Store.get_delete, if_neg (encodeHashMetaKey_ne_encodeHashDataKey _ _ _)]
      · rw [← hlen, Int64.ofNat_add]
        grind

/-- The loop of `HDel` only deletes, so the membuffer keeps its limits. -/
theorem hDelLoop_entrySizeLimit (key : List (Fin 256)) :
    ∀ (fields : List (List (Fin 256))) (t : TxStructure) (cnt : Int64),
      (hDelLoop key fields (t, cnt)).1.memBuffer.entrySizeLimit = t.memBuffer.entrySizeLimit
  | [], _, _ => rfl
  | field :: fields, t, cnt => by
    rw [hDelLoop]
    split_ifs
    · exact hDelLoop_entrySizeLimit key fields _ _
    · exact hDelLoop_entrySizeLimit key fields _ _

/-- `HDel` can write back the count of the hash: the hash has no field, so that no count is
written, or the count fits an entry of the membuffer. -/
def CountFits (t : TxStructure) (key : List (Fin 256)) : Prop :=
  (t.hashDataAsc key).length = 0 ∨
    ¬ t.memBuffer.entrySizeLimit < (t.encodeHashMetaKey key).length + 8

/-- `HDel` on a hash of fewer than `2^63` fields fails only at a size limit. Where it succeeds, or
where the count it writes back fits an entry, the transaction it leaves has the fields given
deleted, and the count written back or the meta key deleted: the buffer keeps a count that takes
it past its limit. -/
theorem HashRepr.hDelState (h : t.HashRepr key m b) (hwf : t.Wf) (hb : b < 2 ^ 63)
    (fields : List (List (Fin 256))) :
    (∀ e, (t.hDelState key fields).2 = some e → e.isTooLarge) ∧
      ((t.hDelState key fields).2 = none ∨ t.CountFits key →
        t.Writes (.hash key) (t.hDelState key fields).1 ∧
        (t.hDelState key fields).1.HashRepr key (fun f => if f ∈ fields then none else m f) b ∧
        (t.hDelState key fields).1.CountFits key) := by
  have hn := h.count_le
  by_cases hz : (t.hashDataAsc key).length = 0
  · -- an empty hash: `HDel` returns at once
    have hstate : t.hDelState key fields = (t, none) := by
      simp [TxStructure.hDelState, hwf.writable, h.loadHashMeta, hz]
    rw [hstate]
    refine ⟨fun e he => (by cases he), fun _ => ⟨Writes.refl hwf _, ⟨fun f => ?_, h.count, hn⟩, .inl hz⟩⟩
    rw [h.data f, h.eq_none_of_length hwf hz f]
    simp
  obtain ⟨t', cnt', hloop, hw, hdata, hmeta, hcnt⟩ :=
    hDelLoop_spec key fields (Int64.ofNat (t.hashDataAsc key).length) hwf
  have hlimit := hDelLoop_entrySizeLimit key fields t (Int64.ofNat (t.hashDataAsc key).length)
  rw [hloop] at hlimit
  have hcnt' : cnt' = Int64.ofNat (t'.hashDataAsc key).length := by
    grind
  obtain ⟨s', mb', rfl⟩ := hw.eq
  have hle : ((t.withStore s' mb').hashDataAsc key).length ≤ (t.hashDataAsc key).length :=
    length_hashDataAsc_le hwf hw.wf rfl fun f v hv => by
      rw [hdata f] at hv
      split_ifs at hv
      exact hv
  have hpos : ¬ Int64.ofNat (t.hashDataAsc key).length ≤ 0 := (ofNat_le_zero_iff (by omega)).not.mpr hz
  have hfields : ∀ f, s'.get (t.encodeHashDataKey key f) = if f ∈ fields then none else m f := by
    intro f
    rw [← h.data f]
    exact hdata f
  simp only [TxStructure.hDelState, hwf.writable, Bool.not_true, Bool.false_eq_true, if_false,
    h.loadHashMeta, if_neg hpos, hloop, hcnt']
  by_cases hz' : ((t.withStore s' mb').hashDataAsc key).length = 0
  · -- no field is left: the meta key is deleted
    rw [if_pos ((ofNat_le_zero_iff (by omega)).mpr hz')]
    refine ⟨fun e he => (by cases he), fun _ => ⟨hw.trans (Writes.delete hw.wf (F := .hash key)
      (.inl rfl) _), ⟨fun f => ?_, ?_, ?_⟩, .inl ?_⟩⟩
    · simp only [deleteKey_eq, withStore_withStore, withStore_store, encodeHashDataKey_withStore]
      rw [Store.get_delete, if_neg (encodeHashMetaKey_ne_encodeHashDataKey _ _ _).symm]
      exact hfields f
    · simp only [deleteKey_eq, withStore_withStore, withStore_store, encodeHashMetaKey_withStore]
      rw [hashDataAsc_withStore_delete _ _ mb', List.length_eq_zero_iff.mp hz', Store.get_delete,
        if_pos rfl]
      rfl
    · simp only [deleteKey_eq, withStore_withStore, withStore_store]
      rw [hashDataAsc_withStore_delete _ _ mb', List.length_eq_zero_iff.mp hz']
      exact Nat.zero_le b
    · simp only [deleteKey_eq, withStore_withStore, withStore_store]
      rw [hashDataAsc_withStore_delete _ _ mb', List.length_eq_zero_iff.mp hz']
      rfl
  -- the count of the fields left is written back
  rw [if_neg ((ofNat_le_zero_iff (by omega)).not.mpr hz')]
  have hlen : (hashMetaValue (Int64.ofNat ((t.withStore s' mb').hashDataAsc key).length)).length = 8 :=
    length_bigEndian _
  by_cases hfit : (t.withStore s' mb').memBuffer.entrySizeLimit <
      (t.encodeHashMetaKey key).length +
        (hashMetaValue (Int64.ofNat ((t.withStore s' mb').hashDataAsc key).length)).length
  · -- the count does not fit an entry: refused, and so was it before the loop
    rw [setKeyState_of_not_fits _ (hashMetaValue_ne_nil _) _ hfit]
    refine ⟨fun e he => (by cases he; rfl), fun hfits => absurd hfit ?_⟩
    rcases hfits with hnone | hz₀ | hfits
    · cases hnone
    · exact absurd hz₀ hz
    · rw [hlen]
      exact hlimit ▸ hfits
  obtain ⟨hstate, herr⟩ := setKeyState_of_fits _ (hashMetaValue_ne_nil _) _ hfit
  rw [hstate]
  refine ⟨herr, fun _ => ⟨hw.trans (Writes.insert hw.wf (F := .hash key) (.inl rfl)
    (hashMetaValue_ne_nil _) _), ⟨fun f => ?_, ?_, ?_⟩, .inr ?_⟩⟩
  · simp only [withStore_withStore, withStore_store, encodeHashDataKey_withStore]
    rw [Store.get_insertPair, if_neg (encodeHashMetaKey_ne_encodeHashDataKey _ _ _).symm]
    exact hfields f
  · simp only [withStore_withStore, withStore_store, encodeHashMetaKey_withStore]
    rw [hashDataAsc_withStore_insert_meta (s := s') hw.wf.sorted key key _ _ mb',
      Store.get_insertPair, if_pos rfl, hashMetaEntry, if_neg hz']
  · simp only [withStore_withStore, withStore_store]
    rw [hashDataAsc_withStore_insert_meta (s := s') hw.wf.sorted key key _ _ mb']
    omega
  · -- the buffer keeps its limit, and the meta key its length
    rw [hlen] at hfit
    exact hfit

/-- `HDel` on a hash of fewer than `2^63` fields deletes the fields given, and writes back the
count, or deletes the meta key once no field is left, unless the count meets a size limit. -/
theorem HashRepr.hDel (h : t.HashRepr key m b) (hwf : t.Wf) (hb : b < 2 ^ 63)
    (fields : List (List (Fin 256))) :
    OkOr (·.isTooLarge) (fun t' => t.Writes (.hash key) t' ∧
      t'.HashRepr key (fun f => if f ∈ fields then none else m f) b ∧ t'.CountFits key)
      (t.hDel key fields) := by
  obtain ⟨herr, hok⟩ := h.hDelState hwf hb fields
  exact okOr_errorOr herr fun hnone => hok (.inl hnone)

/-- The pair of a data key decodes to its field and value. -/
theorem decodeHashPair_of_eq {p : Key × List (Fin 256)} {field : List (Fin 256)}
    (hp : p.1 = t.encodeHashDataKey key field) : t.decodeHashPair p = .ok (field, p.2) := by
  simp [decodeHashPair, hp, decodeHashDataKey_encodeHashDataKey]

/-- The fold of `HClear` deletes the data keys of the fields it is given, and nothing else. The
store it starts from may be any with the prefix of `t₀`, so that the induction can go on from the
store after the first deletion. -/
theorem foldl_deleteHashData (t₀ : TxStructure) (key : List (Fin 256)) :
    ∀ (qs : List (List (Fin 256) × List (Fin 256))) {t : TxStructure}, t.Wf →
      t.keyPrefix = t₀.keyPrefix →
      t.Writes (.hash key)
          (qs.foldl (fun t (field, _) => t.deleteKey (t.encodeHashDataKey key field)) t) ∧
        (∀ q ∈ qs, (qs.foldl (fun t (field, _) => t.deleteKey (t.encodeHashDataKey key field))
          t).store.get (t₀.encodeHashDataKey key q.1) = none) ∧
        ∀ k, k ∉ qs.map (fun q => t₀.encodeHashDataKey key q.1) →
          (qs.foldl (fun t (field, _) => t.deleteKey (t.encodeHashDataKey key field)) t).store.get k =
            t.store.get k
  | [], t, hwf, _ => ⟨Writes.refl hwf _, fun q hq => absurd hq List.not_mem_nil, fun _ _ => rfl⟩
  | (field, v) :: qs, t, hwf, hpre => by
    have hk₀ : t.encodeHashDataKey key field = t₀.encodeHashDataKey key field := by
      simp [encodeHashDataKey, hashDataKeyPrefix, hpre]
    have hw₁ : t.Writes (.hash key) (t.deleteKey (t.encodeHashDataKey key field)) :=
      Writes.delete hwf (F := .hash key) (.inr ⟨field, rfl⟩) _
    obtain ⟨hw, hdel, hkeep⟩ := foldl_deleteHashData t₀ key qs hw₁.wf hpre
    -- the fold from `(field, v) :: qs` is the fold from `qs` after the first deletion
    have hget₁ : ∀ k, (t.deleteKey (t.encodeHashDataKey key field)).store.get k =
        if k = t₀.encodeHashDataKey key field then none else t.store.get k := fun k => by
      rw [← hk₀]
      exact Store.get_delete _ _ _
    refine ⟨hw₁.trans hw, fun q hq => ?_, fun k hk => ?_⟩
    · rcases List.mem_cons.mp hq with rfl | hq
      · by_cases hmem : t₀.encodeHashDataKey key field ∈ qs.map (fun q => t₀.encodeHashDataKey key q.1)
        · obtain ⟨q', hq', heq⟩ := List.mem_map.mp hmem
          exact heq ▸ hdel q' hq'
        · exact (hkeep _ hmem).trans ((hget₁ _).trans (if_pos rfl))
      · exact hdel q hq
    · rw [List.map_cons, List.mem_cons, not_or] at hk
      exact (hkeep k hk.2).trans ((hget₁ k).trans (if_neg hk.1))

/-- `HClear` of a hash with a positive count deletes the data keys of the pairs it lists, and then
the meta key. -/
theorem hClear_eq {n : Int64} (hload : t.loadHashMeta (t.encodeHashMetaKey key) = .ok n)
    (hpos : ¬ n ≤ 0) {qs : List (List (Fin 256) × List (Fin 256))} (hqs : t.iterateHash key = .ok qs) :
    t.hClear key = .ok ((qs.foldl (fun t (field, _) => t.deleteKey (t.encodeHashDataKey key field))
      t).deleteKey (t.encodeHashMetaKey key)) := by
  simp [TxStructure.hClear, hload, hpos, hqs]

/-- `HClear` on a hash of fewer than `2^63` fields deletes all of them and the meta key. -/
theorem HashRepr.hClear (h : t.HashRepr key m b) (hwf : t.Wf) (hb : b < 2 ^ 63) :
    ∃ t', t.hClear key = .ok t' ∧ t.Writes (.hash key) t' ∧ t'.HashRepr key (fun _ => none) b := by
  have hn := h.count_le
  by_cases hz : (t.hashDataAsc key).length = 0
  · -- an empty hash: `HClear` returns at once
    refine ⟨t, ?_, Writes.refl hwf _, fun f => ?_, h.count, hn⟩
    · simp [TxStructure.hClear, h.loadHashMeta, hz]
      rfl
    · rw [h.data f, h.eq_none_of_length hwf hz f]
  have hpos : ¬ Int64.ofNat (t.hashDataAsc key).length ≤ 0 := (ofNat_le_zero_iff (by omega)).not.mpr hz
  obtain ⟨qs, hqs⟩ : ∃ qs, t.iterateHash key = .ok qs := by
    apply mapM_ok_of_forall
    intro p hp
    obtain ⟨⟨field, hf⟩, -⟩ := hwf.mem_hashDataAsc_iff.mp hp
    exact ⟨_, decodeHashPair_of_eq hf⟩
  obtain ⟨hw, hdel, hkeep⟩ := foldl_deleteHashData t key qs hwf rfl
  rw [hClear_eq h.loadHashMeta hpos hqs]
  generalize qs.foldl (fun t (field, _) => t.deleteKey (t.encodeHashDataKey key field)) t = T
    at hw hdel hkeep ⊢
  obtain ⟨s', mb', rfl⟩ := hw.eq
  -- every field of the hash is among those the fold deletes
  have hgone : ∀ f, s'.get (t.encodeHashDataKey key f) = none := by
    intro f
    rw [Option.eq_none_iff_forall_ne_some]
    intro v hv
    by_cases hmem : t.encodeHashDataKey key f ∈ qs.map (fun q => t.encodeHashDataKey key q.1)
    · obtain ⟨q, hq, heq⟩ := List.mem_map.mp hmem
      have := hdel q hq
      rw [withStore_store, heq, hv] at this
      cases this
    · have hv' : t.store.get (t.encodeHashDataKey key f) = some v := by
        rw [← hkeep _ hmem]
        exact hv
      obtain ⟨q, hq, hdec⟩ := mapM_ok_of_mem hqs
        ((hwf.mem_hashDataAsc_iff (p := (t.encodeHashDataKey key f, v))).mpr ⟨⟨f, rfl⟩, hv'⟩)
      rw [decodeHashPair_of_eq rfl] at hdec
      cases hdec
      exact hmem (List.mem_map.mpr ⟨_, hq, rfl⟩)
  have hwf₂ : (t.withStore (s'.delete (t.encodeHashMetaKey key))
      (mb'.delete (t.encodeHashMetaKey key))).Wf := hw.wf.delete _ _
  have hget₂ : ∀ f, (s'.delete (t.encodeHashMetaKey key)).get (t.encodeHashDataKey key f) = none := by
    intro f
    rw [Store.get_delete, if_neg (encodeHashMetaKey_ne_encodeHashDataKey _ _ _).symm]
    exact hgone f
  have hasc : (t.withStore (s'.delete (t.encodeHashMetaKey key))
      (mb'.delete (t.encodeHashMetaKey key))).hashDataAsc key = [] := by
    rw [List.eq_nil_iff_forall_not_mem]
    intro p hp
    obtain ⟨⟨f, hf⟩, hv⟩ := hwf₂.mem_hashDataAsc_iff.mp hp
    rw [withStore_store, hf, encodeHashDataKey_withStore, hget₂ f] at hv
    cases hv
  refine ⟨_, rfl, hw.trans (Writes.delete hw.wf (F := .hash key) (.inl rfl) _), hget₂, ?_, ?_⟩
  · simp only [deleteKey_eq, withStore_withStore, withStore_store, withStore_memBuffer,
      encodeHashMetaKey_withStore]
    rw [hasc, Store.get_delete, if_pos rfl]
    rfl
  · simp only [deleteKey_eq, withStore_withStore, withStore_store, withStore_memBuffer]
    rw [hasc]
    exact Nat.zero_le b

theorem Repr.hDel (h : t.Repr c b) (hb : b < 2 ^ 63) (key : List (Fin 256))
    (fields : List (List (Fin 256))) :
    OkOr (·.isTooLarge) (fun t' => t'.Repr (fields.foldl (fun c field => c.setField key field none) c) b ∧
      t'.CountFits key) (t.hDel key fields) := by
  have hh : t.HashRepr key (c.hash key) b := h.part (.hash key)
  rw [Content.foldl_setField_none]
  exact (hh.hDel h.wf hb fields).imp fun _ ⟨hw, hr, hfit⟩ => ⟨h.setHash hw hr le_rfl, hfit⟩

/-- The transaction `HDel` leaves where the count it writes back fits an entry, whether or not it
fails: the buffer keeps a count that takes it past its limit. -/
theorem Repr.hDelState (h : t.Repr c b) (hb : b < 2 ^ 63) (key : List (Fin 256))
    (fields : List (List (Fin 256))) (hfit : t.CountFits key) :
    (t.hDelState key fields).1.Repr (fields.foldl (fun c field => c.setField key field none) c) b ∧
      (t.hDelState key fields).1.CountFits key := by
  have hh : t.HashRepr key (c.hash key) b := h.part (.hash key)
  obtain ⟨hw, hr, hfit'⟩ := (hh.hDelState h.wf hb fields).2 (.inr hfit)
  rw [Content.foldl_setField_none]
  exact ⟨h.setHash hw hr le_rfl, hfit'⟩

theorem Repr.hClear (h : t.Repr c b) (hb : b < 2 ^ 63) (key : List (Fin 256)) :
    ∃ t', t.hClear key = .ok t' ∧ t'.Repr (c.clearHash key) b := by
  have hh : t.HashRepr key (c.hash key) b := h.part (.hash key)
  obtain ⟨t', hclear, hw, hr⟩ := hh.hClear h.wf hb
  exact ⟨t', hclear, h.setHash hw hr le_rfl⟩

end TxStructure

end TinySql.Structure
