import TinySql.Structure.Spec

/-!
# The content a store represents

`Repr t c b` says that the store of `t` holds the content `c` and nothing else: the string of each
key at its string key; the fields of each hash at their data keys, with the field count in the
meta key, which an empty hash does not have; each list at the data keys of `[LIndex, RIndex)`, with
the two bounds in the meta key, which an empty list does not have. `b` bounds the field counts and
the list indices, so that the int64 arithmetic of the code does not wrap.

The keys split into families, the string, the hash and the list of each key (`Owns`), which the
flags keep apart. An operation writes the keys of one family; `Repr.update` carries every other
family over, so that the proof of an operation is about its own family only.

None of this reads the membuffer: a write of a non-empty value either meets a size limit of the
buffer or puts its pair in the view (`setKey_of_ne_nil`), whatever the buffer holds, so that the
proofs of the operations carry the buffer along as an arbitrary one.
-/

namespace TinySql.Structure

open TinySql.Codec TinySql.Lib

namespace Store

/-- Deleting a key of a sorted list drops one pair if the key has one. -/
theorem length_filter_ne {ps : List (Key × List (Fin 256))} (hs : SortedKeys compare ps) (k : Key) :
    (ps.filter (·.1 != k)).length + (if (⟨ps⟩ : Store).get k = none then 0 else 1) = ps.length := by
  induction ps with
  | nil => simp
  | cons p ps ih =>
    obtain ⟨pk, pv⟩ := p
    by_cases hpk : pk = k
    · subst hpk
      -- the keys after `p` are above its key, so the filter keeps all of them
      have hkeep : ps.filter (·.1 != pk) = ps := by
        rw [List.filter_eq_self]
        intro q hq
        have hlt := hs.lt_of_cons q hq
        rw [bne_iff_ne, ne_eq]
        intro heq
        rw [heq, Std.compare_self] at hlt
        cases hlt
      simp [hkeep, get_cons]
    · rw [List.filter_cons, if_pos (by simpa using hpk), get_cons, if_neg hpk, List.length_cons,
        List.length_cons, ← ih hs.of_cons]
      omega

/-- A pair whose key the filter keeps is put in its place in the filtered list. -/
theorem filter_insertPair (P : Key → Bool) {k : Key} (hk : P k = true) (v : List (Fin 256))
    {ps : List (Key × List (Fin 256))} (hs : SortedKeys compare ps) :
    (insertPair k v ps).filter (P ·.1) = insertPair k v (ps.filter (P ·.1)) := by
  have hfs : SortedKeys compare (ps.filter (P ·.1)) := List.Pairwise.filter _ hs
  apply SortedKeys.eq_of_mem_iff (List.Pairwise.filter _ (sortedKeys_insertPair k v hs))
    (sortedKeys_insertPair k v hfs)
  intro q
  rw [List.mem_filter, mem_insertPair_iff hs, mem_insertPair_iff hfs, List.mem_filter]
  constructor
  · rintro ⟨h | ⟨hq, hne⟩, hP⟩
    · exact .inl h
    · exact .inr ⟨⟨hq, hP⟩, hne⟩
  · rintro (rfl | ⟨⟨hq, hP⟩, hne⟩)
    · exact ⟨.inl rfl, hk⟩
    · exact ⟨.inr ⟨hq, hne⟩, hP⟩

/-- A pair whose key the filter drops leaves the filtered list as it is. -/
theorem filter_insertPair_of_false (P : Key → Bool) {k : Key} (hk : P k = false)
    (v : List (Fin 256)) {ps : List (Key × List (Fin 256))} (hs : SortedKeys compare ps) :
    (insertPair k v ps).filter (P ·.1) = ps.filter (P ·.1) := by
  apply SortedKeys.eq_of_mem_iff (List.Pairwise.filter _ (sortedKeys_insertPair k v hs))
    (List.Pairwise.filter _ hs)
  intro q
  rw [List.mem_filter, mem_insertPair_iff hs, List.mem_filter]
  constructor
  · rintro ⟨rfl | ⟨hq, -⟩, hP⟩
    · rw [hk] at hP
      cases hP
    · exact ⟨hq, hP⟩
  · rintro ⟨hq, hP⟩
    refine ⟨.inr ⟨hq, fun heq => ?_⟩, hP⟩
    rw [heq, hk] at hP
    cases hP

end Store

namespace TxStructure

section WithStore

variable (t : TxStructure) (s : Store) (m : MemBuffer)

@[simp] theorem withStore_store : (t.withStore s m).store = s := rfl

@[simp] theorem withStore_memBuffer : (t.withStore s m).memBuffer = m := rfl

@[simp] theorem withStore_keyPrefix : (t.withStore s m).keyPrefix = t.keyPrefix := rfl

@[simp] theorem withStore_writable : (t.withStore s m).writable = t.writable := rfl

@[simp] theorem withStore_withStore (s' : Store) (m' : MemBuffer) :
    (t.withStore s m).withStore s' m' = t.withStore s' m' :=
  rfl

@[simp] theorem withStore_self : t.withStore t.store t.memBuffer = t := rfl

@[simp] theorem encodeStringDataKey_withStore :
    (t.withStore s m).encodeStringDataKey = t.encodeStringDataKey := rfl

@[simp] theorem encodeHashMetaKey_withStore :
    (t.withStore s m).encodeHashMetaKey = t.encodeHashMetaKey := rfl

@[simp] theorem hashDataKeyPrefix_withStore :
    (t.withStore s m).hashDataKeyPrefix = t.hashDataKeyPrefix := rfl

@[simp] theorem encodeHashDataKey_withStore :
    (t.withStore s m).encodeHashDataKey = t.encodeHashDataKey := rfl

@[simp] theorem encodeListMetaKey_withStore :
    (t.withStore s m).encodeListMetaKey = t.encodeListMetaKey := rfl

@[simp] theorem encodeListDataKey_withStore :
    (t.withStore s m).encodeListDataKey = t.encodeListDataKey := rfl

theorem isStructureKey_withStore {k : Key} :
    (t.withStore s m).IsStructureKey k ↔ t.IsStructureKey k := by
  constructor <;> rintro (_ | _ | _ | _ | _) <;> constructor

theorem deleteKey_eq (k : Key) :
    t.deleteKey k = t.withStore (t.store.delete k) (t.memBuffer.delete k) :=
  rfl

end WithStore

/-! ### The invariant of the store -/

/-- The store a structure keeps: writable, its pairs ascending by key, every key one the structure
writes, and no value empty. -/
structure Wf (t : TxStructure) : Prop where
  writable : t.writable = true
  sorted : t.store.Sorted
  keys : ∀ p ∈ t.store.pairs, t.IsStructureKey p.1
  values : ∀ p ∈ t.store.pairs, p.2 ≠ []

variable {t : TxStructure}

/-! ### Writes and the limits of the membuffer -/

section SetKey

variable (t) {v : List (Fin 256)} (hv : v ≠ []) (k : Key)
include hv

/-- A non-empty value that fits an entry is written, also when the buffer is then too large. -/
theorem setKeyState_of_fits (hfit : ¬ t.memBuffer.entrySizeLimit < k.length + v.length) :
    (t.setKeyState k v).1 = t.withStore ⟨Store.insertPair k v t.store.pairs⟩ (t.memBuffer.put k v) ∧
      ∀ e, (t.setKeyState k v).2 = some e → e.isTooLarge := by
  unfold setKeyState MemBuffer.set
  rw [if_neg hv, if_neg hfit]
  refine ⟨rfl, fun e he => ?_⟩
  dsimp only at he
  -- only the `ErrTxnTooLarge` branch reports an error
  split_ifs at he
  cases he
  rfl

/-- A value that does not fit an entry is refused before it is written. -/
theorem setKeyState_of_not_fits (hfit : t.memBuffer.entrySizeLimit < k.length + v.length) :
    t.setKeyState k v = (t, some (.entryTooLarge t.memBuffer.entrySizeLimit (k.length + v.length))) := by
  unfold setKeyState MemBuffer.set
  rw [if_neg hv, if_pos hfit]

/-- A write of a non-empty value: the view gets the pair, unless the membuffer refuses it for its
size. -/
theorem setKey_of_ne_nil :
    OkOr (·.isTooLarge) (· = t.withStore ⟨Store.insertPair k v t.store.pairs⟩ (t.memBuffer.put k v))
      (t.setKey k v) := by
  by_cases hfit : t.memBuffer.entrySizeLimit < k.length + v.length
  · rw [setKey, setKeyState_of_not_fits t hv k hfit]
    rfl
  · obtain ⟨hstate, herr⟩ := setKeyState_of_fits t hv k hfit
    exact okOr_errorOr herr fun _ => hstate

end SetKey

variable (t) in
theorem setKey_nil (k : Key) : t.setKey k [] = .error .cannotSetNilValue := rfl

/-- A computation that writes a non-empty value first ends as its continuation after the write
does, or in a size error. -/
theorem okOr_setKey_bind {β : Type} {Q : β → Prop} {v : List (Fin 256)} (hv : v ≠ []) (k : Key)
    {f : TxStructure → Except StructureError β}
    (hf : OkOr (·.isTooLarge) Q (f (t.withStore ⟨Store.insertPair k v t.store.pairs⟩ (t.memBuffer.put k v)))) :
    OkOr (·.isTooLarge) Q (t.setKey k v >>= f) :=
  (setKey_of_ne_nil t hv k).bind fun _ ht' => ht' ▸ hf

theorem Wf.get_ne_nil (h : t.Wf) {k : Key} {v : List (Fin 256)} (hk : t.store.get k = some v) :
    v ≠ [] :=
  h.values (k, v) ((h.sorted.get_eq_some_iff).mp hk)

theorem Wf.insert (h : t.Wf) {k : Key} (hk : t.IsStructureKey k) {v : List (Fin 256)} (hv : v ≠ [])
    (m : MemBuffer) : (t.withStore ⟨Store.insertPair k v t.store.pairs⟩ m).Wf where
  writable := h.writable
  sorted := Store.sortedKeys_insertPair k v h.sorted
  keys p hp := by
    rw [isStructureKey_withStore]
    rcases Store.mem_insertPair hp with rfl | hp
    · exact hk
    · exact h.keys p hp
  values p hp := by
    rcases Store.mem_insertPair hp with rfl | hp
    · exact hv
    · exact h.values p hp

theorem Wf.delete (h : t.Wf) (k : Key) (m : MemBuffer) : (t.withStore (t.store.delete k) m).Wf where
  writable := h.writable
  sorted := h.sorted.delete k
  keys p hp := (isStructureKey_withStore t _ _).mpr (h.keys p (List.mem_filter.mp hp).1)
  values p hp := h.values p (List.mem_filter.mp hp).1

theorem Wf.setKey (h : t.Wf) {k : Key} (hk : t.IsStructureKey k) {v : List (Fin 256)}
    {t' : TxStructure} (hset : t.setKey k v = .ok t') : t'.Wf := by
  by_cases hv : v = []
  · rw [hv, setKey_nil] at hset
    cases hset
  · rw [(setKey_of_ne_nil t hv k).of_eq_ok hset]
    exact h.insert hk hv _

/-! ### The pairs of a hash -/

/-- The pairs of a hash are those of its data keys. -/
theorem Wf.mem_hashDataAsc_iff (h : t.Wf) {key : List (Fin 256)} {p : Key × List (Fin 256)} :
    p ∈ t.hashDataAsc key ↔ (∃ field, p.1 = t.encodeHashDataKey key field) ∧
      t.store.get p.1 = some p.2 := by
  rw [hashDataAsc_eq, List.mem_filter, h.sorted.get_eq_some_iff, List.isPrefixOf_iff_prefix]
  constructor
  · rintro ⟨hp, hpre⟩
    exact ⟨(h.keys p hp).eq_of_hashDataKeyPrefix hpre, hp⟩
  · rintro ⟨⟨field, hf⟩, hp⟩
    refine ⟨hp, ?_⟩
    rw [hf]
    exact t.hashDataKeyPrefix_prefix_encodeHashDataKey key field

theorem Wf.sortedKeys_hashDataAsc (h : t.Wf) (key : List (Fin 256)) :
    SortedKeys compare (t.hashDataAsc key) := by
  rw [hashDataAsc_eq]
  exact h.sorted.filter _

/-- The pairs of a hash are read at its data keys as in the store. -/
theorem Wf.get_hashDataAsc (h : t.Wf) (key field : List (Fin 256)) :
    (⟨t.hashDataAsc key⟩ : Store).get (t.encodeHashDataKey key field) =
      t.store.get (t.encodeHashDataKey key field) := by
  have hs : (⟨t.hashDataAsc key⟩ : Store).Sorted := h.sortedKeys_hashDataAsc key
  apply Option.ext
  intro v
  rw [hs.get_eq_some_iff, h.mem_hashDataAsc_iff]
  exact ⟨fun h => h.2, fun hv => ⟨⟨field, rfl⟩, hv⟩⟩

/-- Two stores that read alike at the data keys of a hash list the same pairs for it. -/
theorem hashDataAsc_congr (h : t.Wf) {s : Store} {m : MemBuffer} (h' : (t.withStore s m).Wf)
    (key : List (Fin 256))
    (hagree : ∀ field, s.get (t.encodeHashDataKey key field) =
      t.store.get (t.encodeHashDataKey key field)) :
    (t.withStore s m).hashDataAsc key = t.hashDataAsc key := by
  apply SortedKeys.eq_of_mem_iff (h'.sortedKeys_hashDataAsc key) (h.sortedKeys_hashDataAsc key)
  intro p
  rw [h'.mem_hashDataAsc_iff, h.mem_hashDataAsc_iff, encodeHashDataKey_withStore, withStore_store]
  constructor
  · rintro ⟨⟨field, hf⟩, hp⟩
    exact ⟨⟨field, hf⟩, by rw [hf, ← hagree, ← hf, hp]⟩
  · rintro ⟨⟨field, hf⟩, hp⟩
    exact ⟨⟨field, hf⟩, by rw [hf, hagree, ← hf, hp]⟩

/-- Writing a data key of a hash puts its pair in the hash's listing. -/
theorem hashDataAsc_insert (h : t.Wf) (key field : List (Fin 256)) (v : List (Fin 256)) (m : MemBuffer) :
    (t.withStore ⟨Store.insertPair (t.encodeHashDataKey key field) v t.store.pairs⟩ m).hashDataAsc key =
      Store.insertPair (t.encodeHashDataKey key field) v (t.hashDataAsc key) := by
  rw [hashDataAsc_eq, hashDataAsc_eq]
  exact Store.filter_insertPair _ (List.isPrefixOf_iff_prefix.mpr
    (t.hashDataKeyPrefix_prefix_encodeHashDataKey key field)) v h.sorted

/-- Writing the meta key of a hash leaves the hash's listing as it is. -/
theorem hashDataAsc_withStore_insert_meta {s : Store} (hs : s.Sorted) (key key' : List (Fin 256))
    (v : List (Fin 256)) (m m' : MemBuffer) :
    (t.withStore ⟨Store.insertPair (t.encodeHashMetaKey key') v s.pairs⟩ m).hashDataAsc key =
      (t.withStore s m').hashDataAsc key := by
  rw [hashDataAsc_eq, hashDataAsc_eq, hashDataKeyPrefix_withStore, withStore_store,
    withStore_store]
  refine Store.filter_insertPair_of_false _ ?_ v hs
  rw [Bool.eq_false_iff, ne_eq, List.isPrefixOf_iff_prefix, hashDataKeyPrefix_eq,
    encodeHashMetaKey_eq, t.structKey_prefix_iff]
  exact fun hpre => absurd hpre.2 (by decide)

theorem hashDataAsc_insert_meta (h : t.Wf) (key key' : List (Fin 256)) (v : List (Fin 256))
    (m : MemBuffer) :
    (t.withStore ⟨Store.insertPair (t.encodeHashMetaKey key') v t.store.pairs⟩ m).hashDataAsc key =
      t.hashDataAsc key :=
  hashDataAsc_withStore_insert_meta h.sorted key key' v m t.memBuffer

/-- Deleting a key drops its pair from the listing of every hash. -/
theorem hashDataAsc_withStore_delete (s : Store) (m m' : MemBuffer) (k : Key) (key : List (Fin 256)) :
    (t.withStore (s.delete k) m).hashDataAsc key =
      ((t.withStore s m').hashDataAsc key).filter (·.1 != k) := by
  rw [hashDataAsc_eq, hashDataAsc_eq, withStore_store, withStore_store, Store.delete,
    List.filter_filter, List.filter_filter]
  congr 1
  funext p
  exact Bool.and_comm _ _

theorem hashDataAsc_delete (k : Key) (key : List (Fin 256)) (m : MemBuffer) :
    (t.withStore (t.store.delete k) m).hashDataAsc key = (t.hashDataAsc key).filter (·.1 != k) :=
  hashDataAsc_withStore_delete t.store m t.memBuffer k key

/-! ### The families of keys -/

/-- The keys of one string, one hash or one list. -/
inductive Family
  | string (key : List (Fin 256))
  | hash (key : List (Fin 256))
  | list (key : List (Fin 256))
  deriving DecidableEq

namespace Family

/-- The key of the structure. -/
def key : Family → List (Fin 256)
  | .string key | .hash key | .list key => key

/-- The flags of the keys a family is kept at. -/
def flags : Family → List UInt64
  | .string _ => [stringData]
  | .hash _ => [hashMeta, hashData]
  | .list _ => [listMeta, listData]

end Family

variable (t) in
/-- The keys a family is kept at. -/
def Owns : Family → Key → Prop
  | .string key, k => k = t.encodeStringDataKey key
  | .hash key, k => k = t.encodeHashMetaKey key ∨ ∃ field, k = t.encodeHashDataKey key field
  | .list key, k => k = t.encodeListMetaKey key ∨ ∃ index, k = t.encodeListDataKey key index

theorem Owns.exists_structKey {F : Family} {k : Key} (h : t.Owns F k) :
    ∃ flag suffix, flag ∈ F.flags ∧ k = t.structKey F.key flag suffix := by
  cases F with
  | string key => exact ⟨stringData, [], by simp [Family.flags], h.trans (encodeStringDataKey_eq t key)⟩
  | hash key =>
    rcases h with rfl | ⟨field, rfl⟩
    · exact ⟨hashMeta, [], by simp [Family.flags], encodeHashMetaKey_eq t key⟩
    · exact ⟨hashData, encodeBytes field, by simp [Family.flags], encodeHashDataKey_eq t key field⟩
  | list key =>
    rcases h with rfl | ⟨index, rfl⟩
    · exact ⟨listMeta, [], by simp [Family.flags], encodeListMetaKey_eq t key⟩
    · exact ⟨listData, encodeInt index, by simp [Family.flags], encodeListDataKey_eq t key index⟩

/-- No key belongs to two families: the flags and the keys of the structures tell them apart. -/
theorem Owns.unique {F G : Family} {k : Key} (hF : t.Owns F k) (hG : t.Owns G k) : F = G := by
  obtain ⟨flag, suffix, hflag, rfl⟩ := hF.exists_structKey
  obtain ⟨flag', suffix', hflag', heq⟩ := hG.exists_structKey
  obtain ⟨hkey, rfl, -⟩ := t.structKey_inj.mp heq
  cases F <;> cases G <;>
    simp [Family.flags, Family.key, stringData, hashMeta, hashData, listMeta, listData] at hflag hflag' hkey ⊢ <;>
    grind

end TxStructure

/-! ### The representation -/

/-- The meta value of a hash of `n` fields; an empty hash has none. -/
def hashMetaEntry (n : Nat) : Option (List (Fin 256)) :=
  if n = 0 then none else some (TxStructure.hashMetaValue (Int64.ofNat n))

/-- The meta value of a list of `n` elements from the index `l` on; an empty list has none. -/
def listMetaEntry (l : Int64) (n : Nat) : Option (List (Fin 256)) :=
  if n = 0 then none else some (ListMeta.value ⟨l, l + Int64.ofNat n⟩)

/-- The element at a data index of a list whose first element is at the index `l`. -/
def listAt (xs : List (List (Fin 256))) (l index : Int64) : Option (List (Fin 256)) :=
  if l.toInt ≤ index.toInt then xs[(index.toInt - l.toInt).toNat]? else none

@[simp] theorem listAt_nil (l index : Int64) : listAt [] l index = none := by
  simp [listAt]

namespace TxStructure

variable (t : TxStructure)

/-- The store holds the hash `m` of `key`, with at most `b` fields. -/
structure HashRepr (key : List (Fin 256)) (m : List (Fin 256) → Option (List (Fin 256))) (b : Nat) :
    Prop where
  data : ∀ field, t.store.get (t.encodeHashDataKey key field) = m field
  count : t.store.get (t.encodeHashMetaKey key) = hashMetaEntry (t.hashDataAsc key).length
  count_le : (t.hashDataAsc key).length ≤ b

/-- The store holds the list `xs` of `key` from the index `l` on, within `[-b, b]`. -/
structure ListLayout (key : List (Fin 256)) (xs : List (List (Fin 256))) (b : Nat) (l : Int64) :
    Prop where
  lower : -(b : Int) ≤ l.toInt
  upper : l.toInt + xs.length ≤ b
  bounds : t.store.get (t.encodeListMetaKey key) = listMetaEntry l xs.length
  data : ∀ index, t.store.get (t.encodeListDataKey key index) = listAt xs l index

/-- The store holds the list `xs` of `key`. -/
def ListRepr (key : List (Fin 256)) (xs : List (List (Fin 256))) (b : Nat) : Prop :=
  ∃ l, t.ListLayout key xs b l

/-- The store holds the part of the content a family is kept at. -/
def Part (c : Content) (b : Nat) : Family → Prop
  | .string key => t.store.get (t.encodeStringDataKey key) = c.string key
  | .hash key => t.HashRepr key (c.hash key) b
  | .list key => t.ListRepr key (c.list key) b

/-- The store holds the content `c` and nothing else, within the bound `b`. -/
structure Repr (c : Content) (b : Nat) : Prop where
  wf : t.Wf
  part : ∀ F, t.Part c b F

variable {t} {c : Content} {b : Nat}

theorem Part.mono {F : Family} (h : t.Part c b F) {b' : Nat} (hb : b ≤ b') : t.Part c b' F := by
  cases F with
  | string key => exact h
  | hash key => exact ⟨h.data, h.count, h.count_le.trans hb⟩
  | list key =>
    obtain ⟨l, hl⟩ := h
    exact ⟨l, by have := hl.lower; omega, by have := hl.upper; omega, hl.bounds, hl.data⟩

theorem Repr.mono (h : t.Repr c b) {b' : Nat} (hb : b ≤ b') : t.Repr c b' :=
  ⟨h.wf, fun F => (h.part F).mono hb⟩

/-- A store that reads alike at the keys of a family holds the same part of the content. -/
theorem Part.congr {F : Family} (h : t.Part c b F) (hwf : t.Wf) {s : Store} {m : MemBuffer}
    (hwf' : (t.withStore s m).Wf) (hagree : ∀ k, t.Owns F k → s.get k = t.store.get k) :
    (t.withStore s m).Part c b F := by
  cases F with
  | string key =>
    simp only [Part, withStore_store, encodeStringDataKey_withStore]
    rw [hagree _ rfl]
    exact h
  | hash key =>
    have hasc := hashDataAsc_congr hwf hwf' key fun field => hagree _ (.inr ⟨field, rfl⟩)
    refine ⟨fun field => ?_, ?_, ?_⟩
    · simp only [withStore_store, encodeHashDataKey_withStore]
      rw [hagree _ (.inr ⟨field, rfl⟩)]
      exact h.data field
    · simp only [withStore_store, encodeHashMetaKey_withStore]
      rw [hasc, hagree _ (.inl rfl)]
      exact h.count
    · rw [hasc]
      exact h.count_le
  | list key =>
    obtain ⟨l, hl⟩ := h
    refine ⟨l, hl.lower, hl.upper, ?_, fun index => ?_⟩
    · simp only [withStore_store, encodeListMetaKey_withStore]
      rw [hagree _ (.inl rfl)]
      exact hl.bounds
    · simp only [withStore_store, encodeListDataKey_withStore]
      rw [hagree _ (.inr ⟨index, rfl⟩)]
      exact hl.data index

theorem encodeHashDataKey_inj {key field field' : List (Fin 256)} :
    t.encodeHashDataKey key field = t.encodeHashDataKey key field' ↔ field = field' := by
  rw [encodeHashDataKey_eq, encodeHashDataKey_eq, structKey_inj]
  constructor
  · rintro ⟨-, -, h⟩
    exact (eq_of_read_append (decodeBytes_encodeBytes field []) (decodeBytes_encodeBytes field' [])
      (by rw [h])).1
  · rintro rfl
    exact ⟨rfl, rfl, rfl⟩

theorem encodeHashMetaKey_ne_encodeHashDataKey (key key' field : List (Fin 256)) :
    t.encodeHashMetaKey key ≠ t.encodeHashDataKey key' field := by
  rw [encodeHashMetaKey_eq, encodeHashDataKey_eq, ne_eq, structKey_inj]
  exact fun h => absurd h.2.1 (by decide)

theorem encodeListDataKey_inj {key : List (Fin 256)} {index index' : Int64} :
    t.encodeListDataKey key index = t.encodeListDataKey key index' ↔ index = index' := by
  rw [encodeListDataKey_eq, encodeListDataKey_eq, structKey_inj]
  constructor
  · rintro ⟨-, -, h⟩
    exact (eq_of_read_append (decodeInt_encodeInt [] index)
      (decodeInt_encodeInt [] index') (by rw [h])).1
  · rintro rfl
    exact ⟨rfl, rfl, rfl⟩

theorem encodeListMetaKey_ne_encodeListDataKey (key key' : List (Fin 256)) (index : Int64) :
    t.encodeListMetaKey key ≠ t.encodeListDataKey key' index := by
  rw [encodeListMetaKey_eq, encodeListDataKey_eq, ne_eq, structKey_inj]
  exact fun h => absurd h.2.1 (by decide)

theorem owns_withStore (s : Store) (m : MemBuffer) (F : Family) (k : Key) :
    (t.withStore s m).Owns F k ↔ t.Owns F k := by
  cases F <;> rfl

theorem Owns.isStructureKey {F : Family} {k : Key} (h : t.Owns F k) : t.IsStructureKey k := by
  cases F with
  | string key => exact h ▸ .string key
  | hash key =>
    rcases h with rfl | ⟨field, rfl⟩
    · exact .hashMeta key
    · exact .hashData key field
  | list key =>
    rcases h with rfl | ⟨index, rfl⟩
    · exact .listMeta key
    · exact .listData key index

/-- `t'` is `t` with writes to the keys of the family `F` only, and well formed. -/
structure Writes (t : TxStructure) (F : Family) (t' : TxStructure) : Prop where
  eq : ∃ s m, t' = t.withStore s m
  wf : t'.Wf
  frame : ∀ k, ¬ t.Owns F k → t'.store.get k = t.store.get k

theorem Writes.refl (h : t.Wf) (F : Family) : t.Writes F t :=
  ⟨⟨t.store, t.memBuffer, rfl⟩, h, fun _ _ => rfl⟩

theorem Writes.trans {F : Family} {t₁ t₂ : TxStructure} (h₁ : t.Writes F t₁) (h₂ : t₁.Writes F t₂) :
    t.Writes F t₂ := by
  obtain ⟨s₁, m₁, rfl⟩ := h₁.eq
  obtain ⟨s₂, m₂, rfl⟩ := h₂.eq
  refine ⟨⟨s₂, m₂, rfl⟩, h₂.wf, fun k hk => ?_⟩
  rw [h₂.frame k ((owns_withStore s₁ m₁ F k).not.mpr hk), h₁.frame k hk]

/-- Writing a key of the family `F` leaves every other key as it was. -/
theorem Writes.insert (h : t.Wf) {F : Family} {k₀ : Key} (hk₀ : t.Owns F k₀) {v : List (Fin 256)}
    (hv : v ≠ []) (m : MemBuffer) : t.Writes F (t.withStore ⟨Store.insertPair k₀ v t.store.pairs⟩ m) := by
  refine ⟨⟨_, _, rfl⟩, h.insert hk₀.isStructureKey hv m, fun k hk => ?_⟩
  have hne : k ≠ k₀ := fun heq => hk (heq ▸ hk₀)
  rw [withStore_store, Store.get_insertPair, if_neg hne]

theorem Writes.delete (h : t.Wf) {F : Family} {k₀ : Key} (hk₀ : t.Owns F k₀) (m : MemBuffer) :
    t.Writes F (t.withStore (t.store.delete k₀) m) := by
  refine ⟨⟨_, _, rfl⟩, h.delete k₀ m, fun k hk => ?_⟩
  have hne : k ≠ k₀ := fun heq => hk (heq ▸ hk₀)
  rw [withStore_store, Store.get_delete, if_neg hne]

/-- An operation that writes the keys of the family `F` only keeps every other part of the
content. -/
theorem Repr.update (h : t.Repr c b) {F : Family} {t' : TxStructure} (hw : t.Writes F t')
    {c' : Content} {b' : Nat} (hpart : t'.Part c' b' F)
    (hc : ∀ G, G ≠ F → (t'.Part c' b' G ↔ t'.Part c b' G)) (hb : b ≤ b') : t'.Repr c' b' := by
  refine ⟨hw.wf, fun G => ?_⟩
  by_cases hG : G = F
  · exact hG ▸ hpart
  · obtain ⟨s, m, rfl⟩ := hw.eq
    refine (hc G hG).mpr (((h.part G).mono hb).congr h.wf hw.wf fun k hk => hw.frame k fun hkF => ?_)
    exact hG (hk.unique hkF)

theorem Repr.setString (h : t.Repr c b) {key : List (Fin 256)} {t' : TxStructure}
    (hw : t.Writes (.string key) t') {v : Option (List (Fin 256))}
    (hnew : t'.store.get (t.encodeStringDataKey key) = v) : t'.Repr (c.setString key v) b := by
  obtain ⟨s, m, rfl⟩ := hw.eq
  refine h.update hw (by simpa [Part, Content.setString] using hnew) (fun G hG => ?_) le_rfl
  cases G with
  | string key' =>
    have hne : key' ≠ key := fun heq => hG (heq ▸ rfl)
    simp [Part, Content.setString, hne]
  | hash key' => rfl
  | list key' => rfl

theorem Repr.setHash (h : t.Repr c b) {key : List (Fin 256)} {t' : TxStructure}
    (hw : t.Writes (.hash key) t') {m : List (Fin 256) → Option (List (Fin 256))} {b' : Nat}
    (hnew : t'.HashRepr key m b') (hb : b ≤ b') : t'.Repr (c.setHash key m) b' := by
  refine h.update hw (by simpa [Part, Content.setHash] using hnew) (fun G hG => ?_) hb
  cases G with
  | string key' => rfl
  | hash key' =>
    have hne : key' ≠ key := fun heq => hG (heq ▸ rfl)
    simp [Part, Content.setHash, hne]
  | list key' => rfl

theorem Repr.setList (h : t.Repr c b) {key : List (Fin 256)} {t' : TxStructure}
    (hw : t.Writes (.list key) t') {xs : List (List (Fin 256))} {b' : Nat}
    (hnew : t'.ListRepr key xs b') (hb : b ≤ b') : t'.Repr (c.setList key xs) b' := by
  refine h.update hw (by simpa [Part, Content.setList] using hnew) (fun G hG => ?_) hb
  cases G with
  | string key' => rfl
  | hash key' => rfl
  | list key' =>
    have hne : key' ≠ key := fun heq => hG (heq ▸ rfl)
    simp [Part, Content.setList, hne]

end TxStructure

/-- An empty transaction holds the empty content, whatever the membuffer. -/
theorem repr_empty (memBuffer : MemBuffer) (keyPrefix : List (Fin 256)) :
    (⟨⟨[]⟩, memBuffer, keyPrefix, true⟩ : TxStructure).Repr Content.empty 0 := by
  refine ⟨⟨rfl, List.Pairwise.nil, fun p hp => absurd hp List.not_mem_nil,
    fun p hp => absurd hp List.not_mem_nil⟩, fun F => ?_⟩
  have hasc : ∀ key, (⟨⟨[]⟩, memBuffer, keyPrefix, true⟩ : TxStructure).hashDataAsc key = [] := fun key => by
    rw [TxStructure.hashDataAsc_eq]
    rfl
  cases F with
  | string key => rfl
  | hash key => exact ⟨fun _ => rfl, by rw [hasc]; rfl, by rw [hasc]; rfl⟩
  | list key => exact ⟨0, by simp, by simp [Content.empty], rfl, fun _ => by simp [Content.empty]⟩

end TinySql.Structure
