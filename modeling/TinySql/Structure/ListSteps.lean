import TinySql.Structure.HashSteps

/-!
# Lists refine their content

A list of `n` elements is kept at the data indices `[l, l + n)` (`ListLayout`), so the element at
position `j` is read at the data index `l + j` (`listAt_eq`). Each operation of `list.go` moves one
end: `LPush` and `LPop` move `l`, `RPush` and `RPop` move `r = l + n`, and the structural lemmas on
`listAt` (`listAt_cons`, `listAt_append_singleton`, `listAt_tail`, `listAt_dropLast`, `listAt_set`)
say what that does to the positions. Within the bound `b < 2^63` of `ListLayout` no index the code
computes wraps, and `adjustIndex` with its range check finds the position `listPosition` names.
-/

namespace TinySql.Structure

open TinySql.Codec TinySql.Lib

/-! ### Positions of the data indices -/

section ListAt

variable {xs : List (List (Fin 256))} {l i : Int64}

/-- The data index `l + j` holds the element at position `j`. -/
theorem listAt_eq {j : Nat} (hj : i.toInt = l.toInt + j) : listAt xs l i = xs[j]? := by
  rw [listAt, if_pos (by omega)]
  congr 1
  omega

theorem listAt_of_lt (h : i.toInt < l.toInt) : listAt xs l i = none := by
  rw [listAt, if_neg (by omega)]

theorem listAt_of_le (h : l.toInt + xs.length ≤ i.toInt) : listAt xs l i = none := by
  rw [listAt_eq (j := (i.toInt - l.toInt).toNat) (by omega)]
  exact List.getElem?_eq_none (by omega)

/-- Every data index is below `l`, or `l + j` for a position `j`. -/
theorem exists_pos_of_le (h : l.toInt ≤ i.toInt) : ∃ j : Nat, i.toInt = l.toInt + j :=
  ⟨(i.toInt - l.toInt).toNat, by omega⟩

/-- An element put before the list, at the index below `l`. -/
theorem listAt_cons {l' : Int64} (hl : l'.toInt = l.toInt - 1) (v : List (Fin 256)) :
    listAt (v :: xs) l' i = if i = l' then some v else listAt xs l i := by
  by_cases hi : i.toInt < l.toInt
  · by_cases heq : i = l'
    · rw [if_pos heq, listAt_eq (j := 0) (by rw [heq]; omega)]
      rfl
    · have hlt : i.toInt < l'.toInt := by
        have := Int64.toInt_inj.not.mpr heq
        omega
      rw [if_neg heq, listAt_of_lt hlt, listAt_of_lt hi]
  · obtain ⟨j, hj⟩ := exists_pos_of_le (not_lt.mp hi)
    have hne : i ≠ l' := fun heq => by rw [heq] at hj; omega
    rw [if_neg hne, listAt_eq (j := j + 1) (by omega), listAt_eq hj]
    rfl

/-- An element put after the list, at the index `r = l + n`. -/
theorem listAt_append_singleton {r : Int64} (hr : r.toInt = l.toInt + xs.length)
    (v : List (Fin 256)) :
    listAt (xs ++ [v]) l i = if i = r then some v else listAt xs l i := by
  by_cases hi : i.toInt < l.toInt
  · have hne : i ≠ r := fun heq => by rw [heq] at hi; omega
    rw [if_neg hne, listAt_of_lt hi, listAt_of_lt hi]
  obtain ⟨j, hj⟩ := exists_pos_of_le (not_lt.mp hi)
  rw [listAt_eq hj, listAt_eq hj]
  by_cases heq : i = r
  · have hjn : j = xs.length := by rw [heq] at hj; omega
    rw [if_pos heq, hjn]
    simp
  · have hjn : j ≠ xs.length := fun hjn => heq (Int64.toInt_inj.mp (by omega))
    rw [if_neg heq]
    rcases Nat.lt_or_gt_of_ne hjn with hlt | hgt
    · exact List.getElem?_append_left hlt
    · rw [List.getElem?_eq_none (by simp; omega), List.getElem?_eq_none (by omega)]

/-- The first element taken off, the list starting one index up. -/
theorem listAt_tail {l' : Int64} (hl : l'.toInt = l.toInt + 1) :
    listAt xs.tail l' i = if i = l then none else listAt xs l i := by
  by_cases heq : i = l
  · rw [if_pos heq, listAt_of_lt (by rw [heq]; omega)]
  rw [if_neg heq]
  by_cases hi : i.toInt < l.toInt
  · rw [listAt_of_lt (by omega), listAt_of_lt hi]
  obtain ⟨j, hj⟩ := exists_pos_of_le (not_lt.mp hi)
  have hj0 : j ≠ 0 := fun hj0 => heq (Int64.toInt_inj.mp (by omega))
  obtain ⟨j', rfl⟩ := Nat.exists_eq_succ_of_ne_zero hj0
  rw [listAt_eq (j := j') (by omega), listAt_eq hj, List.getElem?_tail]

/-- The last element taken off, at the index `r - 1`. -/
theorem listAt_dropLast {r : Int64} (hr : r.toInt = l.toInt + xs.length - 1) :
    listAt xs.dropLast l i = if i = r then none else listAt xs l i := by
  by_cases hi : i.toInt < l.toInt
  · rw [listAt_of_lt hi, listAt_of_lt hi]
    split_ifs <;> rfl
  obtain ⟨j, hj⟩ := exists_pos_of_le (not_lt.mp hi)
  rw [listAt_eq hj, listAt_eq hj, List.getElem?_dropLast]
  by_cases heq : i = r
  · have hjn : j = xs.length - 1 := by rw [heq] at hj; omega
    rw [if_pos heq, if_neg (by omega)]
  · have hjn : j ≠ xs.length - 1 ∨ xs.length = 0 := by
      by_cases hn : xs.length = 0
      · exact .inr hn
      · exact .inl fun hjn => heq (Int64.toInt_inj.mp (by omega))
    rw [if_neg heq]
    split_ifs with hlt
    · rfl
    · rw [List.getElem?_eq_none (by omega)]

/-- An element replaced at the position `j`, at the index `l + j`. -/
theorem listAt_set {j : Nat} (hj : j < xs.length) {idx : Int64} (hidx : idx.toInt = l.toInt + j)
    (v : List (Fin 256)) :
    listAt (xs.set j v) l i = if i = idx then some v else listAt xs l i := by
  by_cases hi : i.toInt < l.toInt
  · have hne : i ≠ idx := fun heq => by rw [heq] at hi; omega
    rw [if_neg hne, listAt_of_lt hi, listAt_of_lt hi]
  obtain ⟨k, hk⟩ := exists_pos_of_le (not_lt.mp hi)
  rw [listAt_eq hk, listAt_eq hk, List.getElem?_set]
  by_cases heq : i = idx
  · have hkj : j = k := by rw [heq] at hk; omega
    rw [if_pos hkj, if_pos heq, if_pos (hkj ▸ hj)]
  · have hkj : j ≠ k := fun hkj => heq (Int64.toInt_inj.mp (by omega))
    rw [if_neg hkj, if_neg heq]

end ListAt

namespace TxStructure

variable {t : TxStructure} {c : Content} {b : Nat} {key : List (Fin 256)}
  {xs : List (List (Fin 256))} {l : Int64}

/-! ### The meta key -/

theorem ListMeta.value_ne_nil (lm : ListMeta) : lm.value ≠ [] := by
  rw [← List.length_pos_iff, ListMeta.value, List.length_append, length_bigEndian,
    length_bigEndian]
  decide

theorem loadListMeta_of_get {k : Key} {n : Nat} (hk : t.store.get k = listMetaEntry l n) :
    t.loadListMeta k = .ok (if n = 0 then ⟨0, 0⟩ else ⟨l, l + Int64.ofNat n⟩) := by
  unfold loadListMeta
  rw [hk, listMetaEntry]
  split_ifs with hn
  · rfl
  · have hlen : (bigEndian l.toUInt64).length = 8 := length_bigEndian _
    simp [ListMeta.value, readBigEndian_bigEndian, Int64.toInt64_toUInt64]

theorem setListKey_of_ne_nil {v : List (Fin 256)} (hv : v ≠ []) (k : Key) :
    OkOr (·.isTooLarge) (· = t.withStore ⟨Store.insertPair k v t.store.pairs⟩ (t.memBuffer.put k v))
      (t.setListKey k v) :=
  (setKey_of_ne_nil t hv k).mapError fun _ he => he

theorem okOr_setListKey_bind {β : Type} {Q : β → Prop} {v : List (Fin 256)} (hv : v ≠ []) (k : Key)
    {f : TxStructure → Except ListError β}
    (hf : OkOr (·.isTooLarge) Q
      (f (t.withStore ⟨Store.insertPair k v t.store.pairs⟩ (t.memBuffer.put k v)))) :
    OkOr (·.isTooLarge) Q (t.setListKey k v >>= f) :=
  (setListKey_of_ne_nil hv k).bind fun _ ht' => ht' ▸ hf

theorem getListData_of_get {k : Key} {v : List (Fin 256)} (hk : t.store.get k = some v) :
    t.getListData k = .ok v := by
  simp [getListData, hk]

/-! ### The layout -/

theorem ListLayout.toInt_right (h : t.ListLayout key xs b l) (hb : b < 2 ^ 63) :
    (l + Int64.ofNat xs.length).toInt = l.toInt + xs.length := by
  have := h.lower
  have := h.upper
  exact toInt_add_ofNat l _ (by omega) (by omega)

/-- The meta key of a list reads as its bounds; an empty list reads as `[0, 0)`, and is laid out
from `0` as well as from anywhere. -/
theorem ListRepr.load (h : t.ListRepr key xs b) :
    ∃ l, t.ListLayout key xs b l ∧
      t.loadListMeta (t.encodeListMetaKey key) = .ok ⟨l, l + Int64.ofNat xs.length⟩ := by
  obtain ⟨l, hl⟩ := h
  by_cases hxs : xs = []
  · subst hxs
    refine ⟨0, ⟨by simp, by simp, ?_, fun i => ?_⟩, ?_⟩
    · rw [hl.bounds]
      rfl
    · rw [hl.data i]
      simp
    · rw [loadListMeta_of_get hl.bounds]
      rfl
  · have hn : xs.length ≠ 0 := fun hn => hxs (List.eq_nil_of_length_eq_zero hn)
    exact ⟨l, hl, by rw [loadListMeta_of_get hl.bounds, if_neg hn]⟩

theorem ListLayout.isEmpty_iff (h : t.ListLayout key xs b l) (hb : b < 2 ^ 63) :
    (ListMeta.isEmpty ⟨l, l + Int64.ofNat xs.length⟩) = true ↔ xs = [] := by
  simp only [ListMeta.isEmpty, decide_eq_true_eq, Int64.le_iff_toInt_le, h.toInt_right hb]
  rw [← List.length_eq_zero_iff]
  omega

theorem ListLayout.mono (h : t.ListLayout key xs b l) {b' : Nat} (hb : b ≤ b') :
    t.ListLayout key xs b' l :=
  ⟨by have := h.lower; omega, by have := h.upper; omega, h.bounds, h.data⟩

/-! ### Pushes -/

theorem sub_one_sub_ofNat (l : Int64) (n : Nat) : l - 1 - Int64.ofNat n = l - Int64.ofNat (n + 1) := by
  rw [Int64.ofNat_add]
  grind

theorem add_one_add_ofNat (r : Int64) (n : Nat) : r + 1 + Int64.ofNat n = r + Int64.ofNat (n + 1) := by
  rw [Int64.ofNat_add]
  grind

theorem add_ofNat_eq_add_one_add {n : Nat} (hn : n ≠ 0) (l : Int64) :
    l + Int64.ofNat n = l + 1 + Int64.ofNat (n - 1) := by
  obtain ⟨m, rfl⟩ := Nat.exists_eq_succ_of_ne_zero hn
  rw [Nat.succ_sub_one, Nat.succ_eq_add_one, Int64.ofNat_add]
  grind

theorem add_ofNat_sub_one {n : Nat} (hn : n ≠ 0) (l : Int64) :
    l + Int64.ofNat n - 1 = l + Int64.ofNat (n - 1) := by
  obtain ⟨m, rfl⟩ := Nat.exists_eq_succ_of_ne_zero hn
  rw [Nat.succ_sub_one, Nat.succ_eq_add_one, Int64.ofNat_add]
  grind

theorem toInt_sub_one (l : Int64) (hl : -2 ^ 63 < l.toInt) : (l - 1).toInt = l.toInt - 1 :=
  toInt_sub_of_range (by rw [show (1 : Int64).toInt = 1 from rfl]; omega)
    (by have := Int64.toInt_lt l; rw [show (1 : Int64).toInt = 1 from rfl]; omega)

theorem toInt_add_one (r : Int64) (hr : r.toInt < 2 ^ 63 - 1) : (r + 1).toInt = r.toInt + 1 :=
  toInt_add_of_range (by have := Int64.le_toInt r; rw [show (1 : Int64).toInt = 1 from rfl]; omega)
    (by rw [show (1 : Int64).toInt = 1 from rfl]; omega)

/-- A round of a push writes the value at a data key, and the data keys then read `xs'`. -/
theorem Writes.insertListData (hwf : t.Wf) (key : List (Fin 256)) {idx : Int64}
    {v : List (Fin 256)} (hv : v ≠ []) (xs' : List (List (Fin 256))) (l' : Int64) (m : MemBuffer)
    (hdata : ∀ i, listAt xs' l' i = if i = idx then some v else
      t.store.get (t.encodeListDataKey key i)) :
    t.Writes (.list key)
        (t.withStore ⟨Store.insertPair (t.encodeListDataKey key idx) v t.store.pairs⟩ m) ∧
      (Store.mk (Store.insertPair (t.encodeListDataKey key idx) v t.store.pairs)).get
        (t.encodeListMetaKey key) = t.store.get (t.encodeListMetaKey key) ∧
      ∀ i, (Store.mk (Store.insertPair (t.encodeListDataKey key idx) v t.store.pairs)).get
        (t.encodeListDataKey key i) = listAt xs' l' i := by
  refine ⟨Writes.insert hwf (F := .list key) (.inr ⟨idx, rfl⟩) hv m, ?_, fun i => ?_⟩
  · rw [Store.get_insertPair, if_neg (encodeListMetaKey_ne_encodeListDataKey _ _ _)]
  · rw [Store.get_insertPair, hdata i]
    by_cases hi : i = idx
    · rw [if_pos (by rw [hi]), if_pos hi]
    · rw [if_neg (encodeListDataKey_inj.not.mpr hi), if_neg hi]

/-- The loop of `LPush`: each value goes at the index below the list, and the left bound moves down
with it. -/
theorem listPushLoop_left (key : List (Fin 256)) :
    ∀ (values : List (List (Fin 256))) {t : TxStructure} {xs : List (List (Fin 256))} {l r : Int64},
      t.Wf → (∀ i, t.store.get (t.encodeListDataKey key i) = listAt xs l i) →
      -2 ^ 63 ≤ l.toInt - values.length → [] ∉ values →
      OkOr (·.isTooLarge) (fun p => p.2 = ⟨l - Int64.ofNat values.length, r⟩ ∧
          t.Writes (.list key) p.1 ∧
          p.1.store.get (t.encodeListMetaKey key) = t.store.get (t.encodeListMetaKey key) ∧
          ∀ i, p.1.store.get (t.encodeListDataKey key i) =
            listAt (values.reverse ++ xs) (l - Int64.ofNat values.length) i)
        (listPushLoop key true values (t, ⟨l, r⟩))
  | [], t, xs, l, r, hwf, hdata, _, _ =>
    ⟨by simp, Writes.refl hwf _, rfl, fun i => by simpa using hdata i⟩
  | v :: values, t, xs, l, r, hwf, hdata, hlo, hnil => by
    have hv : v ≠ [] := fun h => hnil (h ▸ List.mem_cons_self)
    have hl₁ : (l - 1).toInt = l.toInt - 1 := toInt_sub_one l (by simp at hlo; omega)
    obtain ⟨hw₁, hmeta₁, hdata₁⟩ := Writes.insertListData hwf key hv (v :: xs) (l - 1)
      (t.memBuffer.put (t.encodeListDataKey key (l - 1)) v) fun i => by rw [listAt_cons hl₁, hdata i]
    simp only [listPushLoop, pushIndex, if_true]
    refine okOr_setListKey_bind hv _ ((listPushLoop_left key values hw₁.wf hdata₁
      (by simp at hlo; omega) fun h => hnil (List.mem_cons_of_mem _ h)).imp fun p hp => ?_)
    obtain ⟨hlm, hw, hmeta, hdata'⟩ := hp
    simp only [encodeListMetaKey_withStore, encodeListDataKey_withStore, withStore_store,
      sub_one_sub_ofNat] at hlm hmeta hdata'
    refine ⟨by rw [hlm, List.length_cons], hw₁.trans hw, hmeta.trans hmeta₁, fun i => ?_⟩
    rw [hdata' i, List.reverse_cons, List.append_assoc, List.singleton_append, List.length_cons]

/-- The loop of `RPush`: each value goes at the index above the list, and the right bound moves up
with it. -/
theorem listPushLoop_right (key : List (Fin 256)) :
    ∀ (values : List (List (Fin 256))) {t : TxStructure} {xs : List (List (Fin 256))} {l r : Int64},
      t.Wf → (∀ i, t.store.get (t.encodeListDataKey key i) = listAt xs l i) →
      r.toInt = l.toInt + xs.length → r.toInt + values.length < 2 ^ 63 → [] ∉ values →
      OkOr (·.isTooLarge) (fun p => p.2 = ⟨l, r + Int64.ofNat values.length⟩ ∧
          t.Writes (.list key) p.1 ∧
          p.1.store.get (t.encodeListMetaKey key) = t.store.get (t.encodeListMetaKey key) ∧
          ∀ i, p.1.store.get (t.encodeListDataKey key i) = listAt (xs ++ values) l i)
        (listPushLoop key false values (t, ⟨l, r⟩))
  | [], t, xs, l, r, hwf, hdata, _, _, _ =>
    ⟨by simp, Writes.refl hwf _, rfl, fun i => by simpa using hdata i⟩
  | v :: values, t, xs, l, r, hwf, hdata, hr, hhi, hnil => by
    have hv : v ≠ [] := fun h => hnil (h ▸ List.mem_cons_self)
    have hr₁ : (r + 1).toInt = r.toInt + 1 := toInt_add_one r (by simp at hhi; omega)
    obtain ⟨hw₁, hmeta₁, hdata₁⟩ := Writes.insertListData hwf key hv (xs ++ [v]) l
      (t.memBuffer.put (t.encodeListDataKey key r) v)
      fun i => by rw [listAt_append_singleton hr, hdata i]
    simp only [listPushLoop, pushIndex, Bool.false_eq_true, if_false]
    refine okOr_setListKey_bind hv _ ((listPushLoop_right key values hw₁.wf hdata₁
      (by rw [hr₁, hr, List.length_append, List.length_singleton]; push_cast; ring)
      (by simp at hhi; omega) fun h => hnil (List.mem_cons_of_mem _ h)).imp fun p hp => ?_)
    obtain ⟨hlm, hw, hmeta, hdata'⟩ := hp
    simp only [encodeListMetaKey_withStore, encodeListDataKey_withStore, withStore_store,
      add_one_add_ofNat] at hlm hmeta hdata'
    refine ⟨by rw [hlm, List.length_cons], hw₁.trans hw, hmeta.trans hmeta₁, fun i => ?_⟩
    rw [hdata' i, List.append_assoc, List.singleton_append]

/-- A push with an empty value fails, at that value or at a write before it. -/
theorem listPushLoop_error (key : List (Fin 256)) (left : Bool) :
    ∀ (values : List (List (Fin 256))) (acc : TxStructure × ListMeta), [] ∈ values →
      ∃ e, listPushLoop key left values acc = .error e
  | [], _, h => absurd h List.not_mem_nil
  | v :: values, (t, lm), h => by
    by_cases hv : v = []
    · subst hv
      exact ⟨_, by simp [listPushLoop, setListKey, setKey_nil, Except.mapError]; rfl⟩
    have hmem : [] ∈ values := (List.mem_cons.mp h).resolve_left fun h' => hv h'.symm
    cases hs : t.setListKey (t.encodeListDataKey key (pushIndex left lm).1) v with
    | error e => exact ⟨e, by simp [listPushLoop, hs]⟩
    | ok t₁ =>
      obtain ⟨e, he⟩ := listPushLoop_error key left values (t₁, (pushIndex left lm).2) hmem
      exact ⟨e, by simp [listPushLoop, hs, he]⟩

theorem Repr.listRepr (h : t.Repr c b) (key : List (Fin 256)) : t.ListRepr key (c.list key) b :=
  h.part (.list key)

/-- `LPush` puts the values before the list, the last one first. -/
theorem Repr.lPush (h : t.Repr c b) (key : List (Fin 256)) {values : List (List (Fin 256))}
    (hb : b + values.length < 2 ^ 63) (hv : [] ∉ values) :
    OkOr (·.isTooLarge)
      (·.Repr (c.setList key (values.reverse ++ c.list key)) (b + values.length))
      (t.lPush key values) := by
  obtain ⟨l, hl, hload⟩ := (h.listRepr key).load
  by_cases hnil : values = []
  · subst hnil
    refine okOr_of_eq_ok (show t.lPush key [] = .ok t by simp [TxStructure.lPush, listPush,
      h.wf.writable]) ?_
    simpa [Content.setList] using h
  have hlo := hl.lower
  have hhi := hl.upper
  simp only [TxStructure.lPush, listPush, h.wf.writable, Bool.not_true, Bool.false_eq_true,
    if_false, hnil, hload, except_bind_ok]
  -- the loop writes the data keys, and then the bounds are written once
  refine (listPushLoop_left key values h.wf hl.data (r := l + Int64.ofNat (c.list key).length)
    (by omega) hv).bind fun p hp => ?_
  obtain ⟨t₁, lm⟩ := p
  obtain ⟨rfl, hw₁, hmeta₁, hdata₁⟩ := hp
  obtain ⟨s₁, mb₁, rfl⟩ := hw₁.eq
  refine (setListKey_of_ne_nil (ListMeta.value_ne_nil _) _).imp fun t₂ ht₂ => ?_
  subst ht₂
  refine h.setList (hw₁.trans (Writes.insert hw₁.wf (F := .list key) (.inl rfl)
    (ListMeta.value_ne_nil _) _)) ⟨l - Int64.ofNat values.length, ?_, ?_, ?_, fun i => ?_⟩
    (Nat.le_add_right b _)
  · rw [toInt_sub_ofNat l _ (by omega) (by omega)]
    push_cast
    omega
  · rw [toInt_sub_ofNat l _ (by omega) (by omega), List.length_append, List.length_reverse]
    push_cast
    omega
  · have hlen : (values.reverse ++ c.list key).length ≠ 0 := by simp [hnil]
    simp only [withStore_withStore, withStore_store, encodeListMetaKey_withStore]
    rw [Store.get_insertPair, if_pos rfl, listMetaEntry, if_neg hlen, List.length_append,
      List.length_reverse, Int64.ofNat_add]
    congr 3
    grind
  · simp only [withStore_withStore, withStore_store, encodeListDataKey_withStore,
      encodeListMetaKey_withStore]
    rw [Store.get_insertPair, if_neg (encodeListMetaKey_ne_encodeListDataKey _ _ _).symm]
    exact hdata₁ i

/-- `RPush` puts the values after the list, in their order. -/
theorem Repr.rPush (h : t.Repr c b) (key : List (Fin 256)) {values : List (List (Fin 256))}
    (hb : b + values.length < 2 ^ 63) (hv : [] ∉ values) :
    OkOr (·.isTooLarge) (·.Repr (c.setList key (c.list key ++ values)) (b + values.length))
      (t.rPush key values) := by
  obtain ⟨l, hl, hload⟩ := (h.listRepr key).load
  by_cases hnil : values = []
  · subst hnil
    refine okOr_of_eq_ok (show t.rPush key [] = .ok t by simp [TxStructure.rPush, listPush,
      h.wf.writable]) ?_
    simpa [Content.setList] using h
  have hlo := hl.lower
  have hhi := hl.upper
  have hr := hl.toInt_right (by omega)
  simp only [TxStructure.rPush, listPush, h.wf.writable, Bool.not_true, Bool.false_eq_true,
    if_false, hnil, hload, except_bind_ok]
  refine (listPushLoop_right key values h.wf hl.data hr (by omega) hv).bind fun p hp => ?_
  obtain ⟨t₁, lm⟩ := p
  obtain ⟨rfl, hw₁, hmeta₁, hdata₁⟩ := hp
  obtain ⟨s₁, mb₁, rfl⟩ := hw₁.eq
  refine (setListKey_of_ne_nil (ListMeta.value_ne_nil _) _).imp fun t₂ ht₂ => ?_
  subst ht₂
  refine h.setList (hw₁.trans (Writes.insert hw₁.wf (F := .list key) (.inl rfl)
    (ListMeta.value_ne_nil _) _)) ⟨l, by omega, ?_, ?_, fun i => ?_⟩ (Nat.le_add_right b _)
  · rw [List.length_append]
    push_cast
    omega
  · have hlen : (c.list key ++ values).length ≠ 0 := by simp [hnil]
    simp only [withStore_withStore, withStore_store, encodeListMetaKey_withStore]
    rw [Store.get_insertPair, if_pos rfl, listMetaEntry, if_neg hlen, List.length_append,
      Int64.ofNat_add]
    congr 3
    grind
  · simp only [withStore_withStore, withStore_store, encodeListDataKey_withStore,
      encodeListMetaKey_withStore]
    rw [Store.get_insertPair, if_neg (encodeListMetaKey_ne_encodeListDataKey _ _ _).symm]
    exact hdata₁ i

/-- A push with an empty value fails. -/
theorem Repr.listPush_error (h : t.Repr c b) (key : List (Fin 256)) (left : Bool)
    {values : List (List (Fin 256))} (hv : [] ∈ values) : ∃ e, t.listPush key left values = .error e := by
  obtain ⟨l, -, hload⟩ := (h.listRepr key).load
  have hne : values ≠ [] := fun h => by rw [h] at hv; exact List.not_mem_nil hv
  obtain ⟨e, he⟩ := listPushLoop_error key left values (t, ⟨l, l + Int64.ofNat (c.list key).length⟩) hv
  exact ⟨e, by simp [listPush, h.wf.writable, hne, hload, he]⟩

/-! ### Pops -/

/-- A pop deletes the data key of the element it takes, and then writes the new bounds, or deletes
the meta key of a list it empties. -/
theorem Repr.popList (h : t.Repr c b) (hl : t.ListLayout key (c.list key) b l) (idx l' r' : Int64)
    (xs' : List (List (Fin 256))) (hlo : -(b : Int) ≤ l'.toInt) (hhi : l'.toInt + xs'.length ≤ b)
    (hr' : r' = l' + Int64.ofNat xs'.length)
    (hdata : ∀ i, listAt xs' l' i = if i = idx then none else listAt (c.list key) l i) :
    (xs' = [] → ((t.deleteKey (t.encodeListDataKey key idx)).deleteKey
        (t.encodeListMetaKey key)).Repr (c.setList key xs') b) ∧
      ∀ mb : MemBuffer, xs' ≠ [] → ((t.deleteKey (t.encodeListDataKey key idx)).withStore
        ⟨Store.insertPair (t.encodeListMetaKey key) (ListMeta.value ⟨l', r'⟩)
          (t.deleteKey (t.encodeListDataKey key idx)).store.pairs⟩ mb).Repr (c.setList key xs') b := by
  have hw₁ : t.Writes (.list key) (t.deleteKey (t.encodeListDataKey key idx)) :=
    Writes.delete h.wf (F := .list key) (.inr ⟨idx, rfl⟩) _
  have hdata₁ : ∀ i, (t.store.delete (t.encodeListDataKey key idx)).get (t.encodeListDataKey key i) =
      listAt xs' l' i := by
    intro i
    rw [hdata i, Store.get_delete]
    by_cases hi : i = idx
    · rw [if_pos (by rw [hi]), if_pos hi]
    · rw [if_neg (encodeListDataKey_inj.not.mpr hi), if_neg hi, hl.data i]
  refine ⟨fun hxs' => ?_, fun mb hxs' => ?_⟩
  · -- the list is emptied: its meta key is deleted
    refine h.setList (hw₁.trans (Writes.delete hw₁.wf (F := .list key) (.inl rfl) _))
      ⟨l', hlo, hhi, ?_, fun i => ?_⟩ le_rfl
    · simp only [deleteKey_eq, withStore_withStore, withStore_store, encodeListMetaKey_withStore]
      rw [Store.get_delete, if_pos rfl, listMetaEntry, if_pos (by rw [hxs']; rfl)]
    · simp only [deleteKey_eq, withStore_withStore, withStore_store, encodeListDataKey_withStore,
        encodeListMetaKey_withStore]
      rw [Store.get_delete, if_neg (encodeListMetaKey_ne_encodeListDataKey _ _ _).symm]
      exact hdata₁ i
  · -- the new bounds are written back
    have hlen : xs'.length ≠ 0 := fun hn => hxs' (List.eq_nil_of_length_eq_zero hn)
    refine h.setList (hw₁.trans (Writes.insert hw₁.wf (F := .list key) (.inl rfl)
      (ListMeta.value_ne_nil _) mb)) ⟨l', hlo, hhi, ?_, fun i => ?_⟩ le_rfl
    · simp only [deleteKey_eq, withStore_withStore, withStore_store, encodeListMetaKey_withStore]
      rw [Store.get_insertPair, if_pos rfl, listMetaEntry, if_neg hlen, hr']
    · simp only [deleteKey_eq, withStore_withStore, withStore_store, encodeListDataKey_withStore,
        encodeListMetaKey_withStore]
      rw [Store.get_insertPair, if_neg (encodeListMetaKey_ne_encodeListDataKey _ _ _).symm]
      exact hdata₁ i

/-- A pop of an empty list takes nothing and changes nothing. -/
theorem Repr.listPop_nil (h : t.Repr c b) (hb : b < 2 ^ 63) (key : List (Fin 256)) (left : Bool)
    (hxs : c.list key = []) : t.listPop key left = .ok (none, t) := by
  obtain ⟨l, hl, hload⟩ := (h.listRepr key).load
  have hempty := (hl.isEmpty_iff hb).mpr hxs
  simp [listPop, h.wf.writable, hload, hempty]
  rfl

/-- `LPop` takes the first element. -/
theorem Repr.lPop (h : t.Repr c b) (hb : b < 2 ^ 63) (key : List (Fin 256)) :
    OkOr (·.isTooLarge)
      (fun r => r.1 = (c.list key).head? ∧ r.2.Repr (c.setList key (c.list key).tail) b)
      (t.lPop key) := by
  by_cases hxs : c.list key = []
  · refine okOr_of_eq_ok (by rw [TxStructure.lPop, h.listPop_nil hb key true hxs])
      ⟨by rw [hxs]; rfl, ?_⟩
    rw [hxs, List.tail_nil, ← hxs, Content.setList_self]
    exact h
  obtain ⟨l, hl, hload⟩ := (h.listRepr key).load
  have hlo := hl.lower
  have hhi := hl.upper
  have hn : (c.list key).length ≠ 0 := fun hn => hxs (List.eq_nil_of_length_eq_zero hn)
  have hl₁ : (l + 1).toInt = l.toInt + 1 := toInt_add_one l (by omega)
  have hr := hl.toInt_right hb
  obtain ⟨x, xs, hcons⟩ := List.exists_cons_of_ne_nil hxs
  have hx : t.store.get (t.encodeListDataKey key l) = some x := by
    rw [hl.data l, listAt_eq (j := 0) (by omega), hcons]
    rfl
  have hempty : ListMeta.isEmpty ⟨l, l + Int64.ofNat (c.list key).length⟩ = false := by
    rw [Bool.eq_false_iff, ne_eq, hl.isEmpty_iff hb]
    exact hxs
  have hempty' : ListMeta.isEmpty ⟨l + 1, l + Int64.ofNat (c.list key).length⟩ =
      decide ((c.list key).tail = []) := by
    simp only [ListMeta.isEmpty, Int64.le_iff_toInt_le, hr, hl₁, decide_eq_decide,
      ← List.length_eq_zero_iff, List.length_tail]
    omega
  obtain ⟨hdel, hset⟩ := h.popList hl l (l + 1) (l + Int64.ofNat (c.list key).length)
    (c.list key).tail (by omega) (by rw [hl₁, List.length_tail]; omega)
    (by rw [List.length_tail, add_ofNat_eq_add_one_add hn]) fun i => listAt_tail hl₁
  have hhead : (c.list key).head? = some x := by rw [hcons]; rfl
  simp only [TxStructure.lPop, listPop, h.wf.writable, Bool.not_true, Bool.false_eq_true, if_false,
    hload, except_bind_ok, hempty, popIndex, if_true, getListData_of_get hx, hempty']
  by_cases htail : (c.list key).tail = []
  · -- the list is emptied
    simp only [decide_eq_true htail, Bool.not_true, Bool.false_eq_true, if_false, okOr_pure]
    exact ⟨hhead.symm, hdel htail⟩
  · simp only [decide_eq_false htail, Bool.not_false, if_true]
    exact (setListKey_of_ne_nil (ListMeta.value_ne_nil _) _).bind fun t₂ ht₂ =>
      (okOr_pure _).mpr ⟨hhead.symm, ht₂ ▸ hset _ htail⟩

/-- `RPop` takes the last element. -/
theorem Repr.rPop (h : t.Repr c b) (hb : b < 2 ^ 63) (key : List (Fin 256)) :
    OkOr (·.isTooLarge)
      (fun r => r.1 = (c.list key).getLast? ∧ r.2.Repr (c.setList key (c.list key).dropLast) b)
      (t.rPop key) := by
  by_cases hxs : c.list key = []
  · refine okOr_of_eq_ok (by rw [TxStructure.rPop, h.listPop_nil hb key false hxs])
      ⟨by rw [hxs]; rfl, ?_⟩
    rw [hxs, List.dropLast_nil, ← hxs, Content.setList_self]
    exact h
  obtain ⟨l, hl, hload⟩ := (h.listRepr key).load
  have hlo := hl.lower
  have hhi := hl.upper
  have hn : (c.list key).length ≠ 0 := fun hn => hxs (List.eq_nil_of_length_eq_zero hn)
  have hr := hl.toInt_right hb
  have hr₁ : (l + Int64.ofNat (c.list key).length - 1).toInt = l.toInt + (c.list key).length - 1 :=
    by rw [toInt_sub_one _ (by omega), hr]
  have hlast : (c.list key).getLast? = some ((c.list key).getLast hxs) :=
    List.getLast?_eq_some_getLast hxs
  have hx : t.store.get (t.encodeListDataKey key (l + Int64.ofNat (c.list key).length - 1)) =
      some ((c.list key).getLast hxs) := by
    rw [hl.data, listAt_eq (j := (c.list key).length - 1) (by omega), ← List.getLast?_eq_getElem?,
      hlast]
  have hempty : ListMeta.isEmpty ⟨l, l + Int64.ofNat (c.list key).length⟩ = false := by
    rw [Bool.eq_false_iff, ne_eq, hl.isEmpty_iff hb]
    exact hxs
  have hempty' : ListMeta.isEmpty ⟨l, l + Int64.ofNat (c.list key).length - 1⟩ =
      decide ((c.list key).dropLast = []) := by
    simp only [ListMeta.isEmpty, Int64.le_iff_toInt_le, hr₁, decide_eq_decide,
      ← List.length_eq_zero_iff, List.length_dropLast]
    omega
  obtain ⟨hdel, hset⟩ := h.popList hl (l + Int64.ofNat (c.list key).length - 1) l
    (l + Int64.ofNat (c.list key).length - 1) (c.list key).dropLast hlo
    (by rw [List.length_dropLast]; omega)
    (by rw [List.length_dropLast, add_ofNat_sub_one hn]) fun i => listAt_dropLast hr₁
  simp only [TxStructure.rPop, listPop, h.wf.writable, Bool.not_true, Bool.false_eq_true, if_false,
    hload, except_bind_ok, hempty, popIndex, getListData_of_get hx, hempty']
  by_cases hdrop : (c.list key).dropLast = []
  · -- the list is emptied
    simp only [decide_eq_true hdrop, Bool.not_true, Bool.false_eq_true, if_false, okOr_pure]
    exact ⟨hlast.symm, hdel hdrop⟩
  · simp only [decide_eq_false hdrop, Bool.not_false, if_true]
    exact (setListKey_of_ne_nil (ListMeta.value_ne_nil _) _).bind fun t₂ ht₂ =>
      (okOr_pure _).mpr ⟨hlast.symm, ht₂ ▸ hset _ hdrop⟩

/-! ### Indices -/

theorem listPosition_zero (index : Int64) : listPosition 0 index = none := by
  simp [listPosition]

/-- `adjustIndex` adds `min` to an index that is not negative, `max` to one that is. -/
theorem toInt_adjustIndex (index min max : Int64) :
    (adjustIndex index min max).toInt =
      if 0 ≤ index.toInt then (index + min).toInt else (index + max).toInt := by
  have hzero : (0 : Int64).toInt = 0 := rfl
  unfold adjustIndex
  split_ifs with h h' h'
  · rfl
  · exact absurd (hzero ▸ Int64.le_iff_toInt_le.mp h) h'
  · exact absurd (Int64.le_iff_toInt_le.mpr (hzero ▸ h')) h
  · rfl

section Adjust

variable {n : Nat} (hb : b < 2 ^ 63) (hlo : -(b : Int) ≤ l.toInt) (hhi : l.toInt + n ≤ b)
include hb hlo hhi

/-- An index `LSet` and `LIndex` accept names the position `listPosition` finds, at the data index
`l + j`. -/
theorem adjustIndex_of_listPosition {index : Int64} {j : Nat} (h : listPosition n index = some j) :
    l ≤ adjustIndex index l (l + Int64.ofNat n) ∧ adjustIndex index l (l + Int64.ofNat n) < l + Int64.ofNat n ∧
      (adjustIndex index l (l + Int64.ofNat n)).toInt = l.toInt + j := by
  have hr := toInt_add_ofNat l n (by omega) (by omega)
  have hadj := toInt_adjustIndex index l (l + Int64.ofNat n)
  rw [Int64.le_iff_toInt_le, Int64.lt_iff_toInt_lt, hr]
  unfold listPosition at h
  by_cases hpos : 0 ≤ index.toInt
  · -- the index counts from the left end, and `index + l` does not wrap
    simp only [if_pos hpos] at h hadj
    split_ifs at h with hj
    cases h
    rw [toInt_add_eq_ite, if_neg (by omega), if_neg (by omega)] at hadj
    omega
  · -- the index counts from the right end, and `index + r` does not wrap
    simp only [if_neg hpos] at h hadj
    split_ifs at h with hj
    cases h
    rw [toInt_add_eq_ite, hr, if_neg (by omega), if_neg (by omega)] at hadj
    omega

/-- An index outside the list is refused: the sum `adjustIndex` makes is outside `[l, r)`, also
where it wraps. -/
theorem adjustIndex_of_listPosition_none {index : Int64} (h : listPosition n index = none) :
    ¬ (l ≤ adjustIndex index l (l + Int64.ofNat n) ∧
      adjustIndex index l (l + Int64.ofNat n) < l + Int64.ofNat n) := by
  have hr := toInt_add_ofNat l n (by omega) (by omega)
  have hadj := toInt_adjustIndex index l (l + Int64.ofNat n)
  have := Int64.le_toInt index
  have := Int64.toInt_lt index
  rw [Int64.le_iff_toInt_le, Int64.lt_iff_toInt_lt, hr]
  unfold listPosition at h
  by_cases hpos : 0 ≤ index.toInt
  · simp only [if_pos hpos] at h hadj
    split_ifs at h with hj
    rw [toInt_add_eq_ite] at hadj
    split_ifs at hadj <;> omega
  · simp only [if_neg hpos] at h hadj
    split_ifs at h with hj
    rw [toInt_add_eq_ite, hr] at hadj
    split_ifs at hadj <;> omega

end Adjust

/-! ### Setting and reading by index -/

/-- `LSet` on a list that is not empty writes at the adjusted index if it is in the list. -/
theorem Repr.lSet_eq (h : t.Repr c b) (hb : b < 2 ^ 63) (key : List (Fin 256)) (hxs : c.list key ≠ [])
    (index : Int64) (value : List (Fin 256)) :
    ∃ l, t.ListLayout key (c.list key) b l ∧ t.lSet key index value =
      let r := l + Int64.ofNat (c.list key).length
      if l ≤ adjustIndex index l r ∧ adjustIndex index l r < r then
        t.setListKey (t.encodeListDataKey key (adjustIndex index l r)) value
      else .error (.invalidListIndex (adjustIndex index l r)) := by
  obtain ⟨l, hl, hload⟩ := (h.listRepr key).load
  have hempty : ListMeta.isEmpty ⟨l, l + Int64.ofNat (c.list key).length⟩ = false := by
    rw [Bool.eq_false_iff, ne_eq, hl.isEmpty_iff hb]
    exact hxs
  refine ⟨l, hl, ?_⟩
  simp [TxStructure.lSet, h.wf.writable, hload, hempty]

/-- `LSet` at a position of the list replaces the element there. -/
theorem Repr.lSet (h : t.Repr c b) (hb : b < 2 ^ 63) (key : List (Fin 256)) {index : Int64}
    {j : Nat} (hj : listPosition (c.list key).length index = some j) {value : List (Fin 256)}
    (hv : value ≠ []) :
    OkOr (·.isTooLarge) (·.Repr (c.setList key ((c.list key).set j value)) b)
      (t.lSet key index value) := by
  have hxs : c.list key ≠ [] := fun hxs => by
    rw [hxs, List.length_nil, listPosition_zero] at hj
    cases hj
  obtain ⟨l, hl, hset⟩ := h.lSet_eq hb key hxs index value
  obtain ⟨hle, hlt, hidx⟩ := adjustIndex_of_listPosition hb hl.lower hl.upper hj
  have hjn : j < (c.list key).length := by
    have := (Int64.lt_iff_toInt_lt.mp hlt)
    rw [toInt_add_ofNat l _ (by have := hl.lower; omega) (by have := hl.upper; omega)] at this
    omega
  rw [hset, if_pos ⟨hle, hlt⟩]
  refine (setListKey_of_ne_nil hv _).imp fun t' ht' => ?_
  subst ht'
  obtain ⟨hw, hmeta, hdata⟩ := Writes.insertListData h.wf key hv
    ((c.list key).set j value) l _ fun i => by rw [listAt_set hjn hidx, hl.data i]
  refine h.setList hw ⟨l, hl.lower, by rw [List.length_set]; exact hl.upper, ?_, hdata⟩ le_rfl
  rw [withStore_store, encodeListMetaKey_withStore, hmeta, List.length_set]
  exact hl.bounds

/-- `LSet` at an index outside a list that is not empty is refused. -/
theorem Repr.lSet_none (h : t.Repr c b) (hb : b < 2 ^ 63) (key : List (Fin 256)) (hxs : c.list key ≠ [])
    {index : Int64} (hj : listPosition (c.list key).length index = none) (value : List (Fin 256)) :
    ∃ e, t.lSet key index value = .error e := by
  obtain ⟨l, hl, hset⟩ := h.lSet_eq hb key hxs index value
  exact ⟨_, by rw [hset, if_neg (adjustIndex_of_listPosition_none hb hl.lower hl.upper hj)]⟩

/-- `LSet` of an empty value at a position of the list is refused by the store. -/
theorem Repr.lSet_nil (h : t.Repr c b) (hb : b < 2 ^ 63) (key : List (Fin 256)) {index : Int64}
    {j : Nat} (hj : listPosition (c.list key).length index = some j) :
    ∃ e, t.lSet key index [] = .error e := by
  have hxs : c.list key ≠ [] := fun hxs => by
    rw [hxs, List.length_nil, listPosition_zero] at hj
    cases hj
  obtain ⟨l, hl, hset⟩ := h.lSet_eq hb key hxs index []
  obtain ⟨hle, hlt, -⟩ := adjustIndex_of_listPosition hb hl.lower hl.upper hj
  exact ⟨_, by rw [hset, if_pos ⟨hle, hlt⟩]; rfl⟩

/-- `LSet` on an empty list does nothing, whatever the index and the value. -/
theorem Repr.lSet_empty (h : t.Repr c b) (hb : b < 2 ^ 63) (key : List (Fin 256)) (hxs : c.list key = [])
    (index : Int64) (value : List (Fin 256)) : t.lSet key index value = .ok t := by
  obtain ⟨l, hl, hload⟩ := (h.listRepr key).load
  have hempty := (hl.isEmpty_iff hb).mpr hxs
  simp [TxStructure.lSet, h.wf.writable, hload, hempty]
  rfl

/-- `LIndex` reads the element at the position the index names, and nil for an index outside the
list. -/
theorem Repr.lIndex (h : t.Repr c b) (hb : b < 2 ^ 63) (key : List (Fin 256)) (index : Int64) :
    t.lIndex key index =
      .ok ((listPosition (c.list key).length index).bind fun j => (c.list key)[j]?) := by
  obtain ⟨l, hl, hload⟩ := (h.listRepr key).load
  by_cases hxs : c.list key = []
  · have hempty := (hl.isEmpty_iff hb).mpr hxs
    simp only [hxs, List.length_nil, listPosition_zero, Option.bind_none]
    simp [TxStructure.lIndex, hload, hempty]
    rfl
  have hempty : ListMeta.isEmpty ⟨l, l + Int64.ofNat (c.list key).length⟩ = false := by
    rw [Bool.eq_false_iff, ne_eq, hl.isEmpty_iff hb]
    exact hxs
  cases hj : listPosition (c.list key).length index with
  | none =>
    have hout := adjustIndex_of_listPosition_none hb hl.lower hl.upper hj
    simp [TxStructure.lIndex, hload, hempty, hout]
    rfl
  | some j =>
    obtain ⟨hle, hlt, hidx⟩ := adjustIndex_of_listPosition hb hl.lower hl.upper hj
    have hjn : j < (c.list key).length := by
      have := (Int64.lt_iff_toInt_lt.mp hlt)
      rw [toInt_add_ofNat l _ (by have := hl.lower; omega) (by have := hl.upper; omega)] at this
      omega
    have hget : t.store.get (t.encodeListDataKey key (adjustIndex index l
        (l + Int64.ofNat (c.list key).length))) = some (c.list key)[j] := by
      rw [hl.data, listAt_eq hidx, List.getElem?_eq_getElem hjn]
    simp [TxStructure.lIndex, hload, hempty, hle, hlt, getListData_of_get hget,
      List.getElem?_eq_getElem hjn]

/-- The store that `RPush(k, [1], [2])` and then `LPush(k, [3])` build from the empty one
represents the list `[3], [1], [2]`, laid out from the data index `-1`. -/
theorem pushed_repr :
    ∃ t c, (emptyTx.rPush [107] [[1], [2]] >>= (·.lPush [107] [[3]])) = .ok t ∧ t.Repr c 3 ∧
      c.list [107] = [[3], [1], [2]] := by
  obtain ⟨t, ht⟩ : ∃ t, (emptyTx.rPush [107] [[1], [2]] >>= (·.lPush [107] [[3]])) = .ok t :=
    ⟨_, rfl⟩
  exact ⟨t, _, ht, (((repr_empty newMemDbBuffer [109]).rPush [107] (by decide) (by decide)).bind
    fun _ h₁ => h₁.lPush [107] (by decide) (by decide)).of_eq_ok ht, rfl⟩

/-- On that list, index `-1` names the last element. -/
theorem lIndex_pushed :
    ∃ t, (emptyTx.rPush [107] [[1], [2]] >>= (·.lPush [107] [[3]])) = .ok t ∧
      t.lIndex [107] (-1) = .ok (some [2]) := by
  obtain ⟨t, c, ht, hr, hc⟩ := pushed_repr
  refine ⟨t, ht, ?_⟩
  rw [hr.lIndex (by decide) [107] (-1), hc]
  rfl

/-- `LLen` is the length of the list. -/
theorem Repr.lLen (h : t.Repr c b) (key : List (Fin 256)) :
    t.lLen key = .ok (Int64.ofNat (c.list key).length) := by
  obtain ⟨l, -, hload⟩ := (h.listRepr key).load
  simp only [TxStructure.lLen, hload, except_bind_ok]
  congr 1
  grind

/-- The list built by `RPush` and `LPush` has length three. -/
theorem lLen_pushed :
    ∃ t, (emptyTx.rPush [107] [[1], [2]] >>= (·.lPush [107] [[3]])) = .ok t ∧
      t.lLen [107] = .ok 3 := by
  obtain ⟨t, c, ht, hr, hc⟩ := pushed_repr
  refine ⟨t, ht, ?_⟩
  rw [hr.lLen [107], hc]
  rfl

/-- The loop of `LGetAll` from the data index `l + j - 1` down reads the first `j` elements, from
the last of them to the first. -/
theorem ListLayout.lGetAllLoop_eq (hl : t.ListLayout key xs b l) (hb : b < 2 ^ 63) :
    ∀ (j : Nat) (index : Int64) (elements : List (List (Fin 256))), j ≤ xs.length →
      index.toInt = l.toInt + j - 1 →
      t.lGetAllLoop key l j index elements = .ok (elements ++ (xs.take j).reverse)
  | 0, index, elements, _, _ => by simp [TxStructure.lGetAllLoop]
  | j + 1, index, elements, hj, hidx => by
    have hlo := hl.lower
    have hge : index ≥ l := Int64.le_iff_toInt_le.mpr (by omega)
    have hget : t.store.get (t.encodeListDataKey key index) = some xs[j] := by
      rw [hl.data, listAt_eq (j := j) (by omega), List.getElem?_eq_getElem (by omega)]
    have hrest := hl.lGetAllLoop_eq hb j (index - 1) (elements ++ [xs[j]]) (by omega)
      (by rw [toInt_sub_one index (by omega)]; omega)
    rw [TxStructure.lGetAllLoop, if_pos hge, getListData_of_get hget, except_bind_ok, hrest,
      List.take_add_one, List.getElem?_eq_getElem (show j < xs.length by omega), Option.toList_some,
      List.reverse_append, List.reverse_singleton, List.append_assoc]

/-- `LGetAll` lists the elements from the right end to the left. -/
theorem Repr.lGetAll (h : t.Repr c b) (hb : b < 2 ^ 63) (key : List (Fin 256)) :
    t.lGetAll key = .ok (c.list key).reverse := by
  obtain ⟨l, hl, hload⟩ := (h.listRepr key).load
  by_cases hxs : c.list key = []
  · have hempty := (hl.isEmpty_iff hb).mpr hxs
    rw [TxStructure.lGetAll, hload, except_bind_ok, if_pos hempty, hxs]
    rfl
  have hempty : ListMeta.isEmpty ⟨l, l + Int64.ofNat (c.list key).length⟩ = false := by
    rw [Bool.eq_false_iff, ne_eq, hl.isEmpty_iff hb]
    exact hxs
  have hr := hl.toInt_right hb
  have hlo := hl.lower
  have hfuel : ((l + Int64.ofNat (c.list key).length).toInt - l.toInt).toNat = (c.list key).length := by
    omega
  have hloop := hl.lGetAllLoop_eq hb (c.list key).length (l + Int64.ofNat (c.list key).length - 1) [] le_rfl
    (by rw [toInt_sub_one _ (by omega), hr])
  simp only [List.take_length, List.nil_append] at hloop
  rw [TxStructure.lGetAll, hload, except_bind_ok, if_neg (by rw [hempty]; exact Bool.false_ne_true)]
  simp only
  rw [hfuel, hloop]

/-- The list built by `RPush` and `LPush` is listed from its right end. -/
theorem lGetAll_pushed :
    ∃ t, (emptyTx.rPush [107] [[1], [2]] >>= (·.lPush [107] [[3]])) = .ok t ∧
      t.lGetAll [107] = .ok [[2], [1], [3]] := by
  obtain ⟨t, c, ht, hr, hc⟩ := pushed_repr
  refine ⟨t, ht, ?_⟩
  rw [hr.lGetAll (by decide) [107], hc]
  rfl

/-! ### Clearing -/

/-- The loop of `LClear` from the data index `r - j` up deletes the data keys of `[r - j, r)`. The
store it starts from may be any with the prefix of `t₀`, so that the induction can go on from the
store after the first deletion. -/
theorem lClearLoop_spec (t₀ : TxStructure) (key : List (Fin 256)) (r : Int64) :
    ∀ (j : Nat) {t : TxStructure} (index : Int64), t.Wf → t.keyPrefix = t₀.keyPrefix →
      index.toInt = r.toInt - j → -2 ^ 63 ≤ r.toInt - j →
      t.Writes (.list key) (lClearLoop key r j index t) ∧
        (lClearLoop key r j index t).store.get (t₀.encodeListMetaKey key) =
          t.store.get (t₀.encodeListMetaKey key) ∧
        ∀ i, (lClearLoop key r j index t).store.get (t₀.encodeListDataKey key i) =
          if r.toInt - j ≤ i.toInt ∧ i.toInt < r.toInt then none
          else t.store.get (t₀.encodeListDataKey key i)
  | 0, t, index, hwf, _, _, _ => ⟨Writes.refl hwf _, rfl, fun i => by rw [if_neg (by omega)]; rfl⟩
  | j + 1, t, index, hwf, hpre, hidx, hlo => by
    have hkey : ∀ i, t.encodeListDataKey key i = t₀.encodeListDataKey key i := fun i => by
      simp [encodeListDataKey, hpre]
    have hmkey : t.encodeListMetaKey key = t₀.encodeListMetaKey key := by
      simp [encodeListMetaKey, hpre]
    have hlt : index < r := Int64.lt_iff_toInt_lt.mpr (by omega)
    have hw₁ : t.Writes (.list key) (t.deleteKey (t.encodeListDataKey key index)) :=
      Writes.delete hwf (F := .list key) (.inr ⟨index, rfl⟩) _
    obtain ⟨hw, hmeta, hdata⟩ := lClearLoop_spec t₀ key r j (index + 1) hw₁.wf hpre
      (by rw [toInt_add_one index (by have := Int64.toInt_lt r; omega)]; omega) (by omega)
    rw [lClearLoop, if_pos hlt]
    refine ⟨hw₁.trans hw, ?_, fun i => ?_⟩
    · rw [hmeta, deleteKey_eq, withStore_store, Store.get_delete, if_neg (by
        rw [hkey]; exact encodeListMetaKey_ne_encodeListDataKey _ _ _ |>.symm ∘ Eq.symm)]
    · rw [hdata i, deleteKey_eq, withStore_store, Store.get_delete, ← hkey]
      by_cases hi : i = index
      · subst hi
        split_ifs <;> first | rfl | omega | exact absurd rfl ‹_›
      · have hne : i.toInt ≠ index.toInt := fun heq => hi (Int64.toInt_inj.mp heq)
        rw [if_neg (encodeListDataKey_inj.not.mpr hi)]
        split_ifs <;> first | rfl | omega

/-- `LClear` deletes the elements and the meta key. -/
theorem Repr.lClear (h : t.Repr c b) (hb : b < 2 ^ 63) (key : List (Fin 256)) :
    ∃ t', t.lClear key = .ok t' ∧ t'.Repr (c.setList key []) b := by
  obtain ⟨l, hl, hload⟩ := (h.listRepr key).load
  by_cases hxs : c.list key = []
  · have hempty := (hl.isEmpty_iff hb).mpr hxs
    refine ⟨t, by simp [TxStructure.lClear, h.wf.writable, hload, hempty]; rfl, ?_⟩
    rw [← hxs, Content.setList_self]
    exact h
  have hempty : ListMeta.isEmpty ⟨l, l + Int64.ofNat (c.list key).length⟩ = false := by
    rw [Bool.eq_false_iff, ne_eq, hl.isEmpty_iff hb]
    exact hxs
  have hr := hl.toInt_right hb
  have hlo := hl.lower
  have hhi := hl.upper
  obtain ⟨hw, hmeta, hdata⟩ := lClearLoop_spec t key (l + Int64.ofNat (c.list key).length)
    (c.list key).length l h.wf rfl (by omega) (by omega)
  have hfuel : ((l + Int64.ofNat (c.list key).length).toInt - l.toInt).toNat = (c.list key).length := by
    omega
  generalize hT : lClearLoop key (l + Int64.ofNat (c.list key).length) (c.list key).length l t = T
    at hw hmeta hdata
  obtain ⟨s', mb', rfl⟩ := hw.eq
  refine ⟨_, ?_, h.setList (hw.trans (Writes.delete hw.wf (F := .list key) (.inl rfl)
    (mb'.delete (t.encodeListMetaKey key)))) ⟨l, hlo, by simp; omega, ?_, fun i => ?_⟩ le_rfl⟩
  · rw [TxStructure.lClear, if_neg (by simp [h.wf.writable])]
    dsimp only
    rw [hload, except_bind_ok, if_neg (by rw [hempty]; exact Bool.false_ne_true)]
    dsimp only
    rw [hfuel, hT]
    rfl
  · simp only [withStore_withStore, withStore_store, encodeListMetaKey_withStore]
    rw [Store.get_delete, if_pos rfl]
    rfl
  · simp only [withStore_withStore, withStore_store, encodeListDataKey_withStore,
      encodeListMetaKey_withStore, listAt_nil]
    rw [Store.get_delete, if_neg (encodeListMetaKey_ne_encodeListDataKey _ _ _).symm]
    rw [withStore_store] at hdata
    rw [hdata i, hl.data i, hr]
    split_ifs with hin
    · rfl
    · by_cases hil : i.toInt < l.toInt
      · exact listAt_of_lt hil
      · exact listAt_of_le (by omega)

end TxStructure

end TinySql.Structure
