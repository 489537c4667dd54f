import TinySql.Structure.List
import TinySql.Lib.SortedAssoc

/-!
# The store as a sorted map, and the layout of the structure keys

The pairs of a transaction's view ascend strictly by key (`Store.Sorted`); `Set` and `Delete` keep
that, and a `Get` after them reads what they wrote. An `Iter` between a data prefix and its
`PrefixNext` visits exactly the keys that extend the prefix, because the prefix of every data key
ends in a flag byte below `0xFF` (`between_snoc_iff`).

Every key a `TxStructure` writes is `prefix + EncodeBytes(key) + flag + suffix`. `EncodeBytes` is
read back whatever follows it and the flag has eight bytes, so two such keys are equal exactly when
their keys, flags and suffixes are, and a key extends the data prefix of a hash exactly when it is
one of that hash's data keys (`IsStructureKey.eq_of_hashDataKeyPrefix`).
-/

namespace TinySql.Structure

open TinySql.Codec TinySql.Lib

namespace Store

/-- The pairs of the store ascend strictly by key. -/
def Sorted (s : Store) : Prop :=
  SortedKeys compare s.pairs

@[simp] theorem get_nil (k : Key) : (⟨[]⟩ : Store).get k = none := rfl

theorem get_cons (k k' : Key) (v : List (Fin 256)) (ps : List (Key × List (Fin 256))) :
    (⟨(k, v) :: ps⟩ : Store).get k' = if k = k' then some v else (⟨ps⟩ : Store).get k' := by
  by_cases h : k = k' <;> simp [get, h]

theorem get_eq_none_iff (s : Store) (k : Key) : s.get k = none ↔ ∀ p ∈ s.pairs, p.1 ≠ k := by
  simp [get, List.find?_eq_none]

theorem get_insertPair (k k' : Key) (v : List (Fin 256)) :
    ∀ ps : List (Key × List (Fin 256)),
      (⟨insertPair k v ps⟩ : Store).get k' = if k' = k then some v else (⟨ps⟩ : Store).get k'
  | [] => by
    rw [insertPair, get_cons, get_nil]
    by_cases h : k' = k
    · simp [h]
    · simp [h, Ne.symm h]
  | p :: ps => by
    rw [insertPair]
    rcases hcmp : compare k p.1 with _ | _ | _
    -- the pair goes before `p`
    · rw [get_cons]
      by_cases h : k' = k
      · simp [h]
      · simp [h, Ne.symm h]
    -- the pair replaces `p`, whose key is `k`
    · have hk : k = p.1 := Std.compare_eq_iff_eq.mp hcmp
      obtain ⟨pk, pv⟩ := p
      subst hk
      rw [get_cons, get_cons]
      by_cases h : k' = k
      · simp [h]
      · simp [h, Ne.symm h]
    · rw [get_cons, get_cons, get_insertPair k k' v ps]
      by_cases h : k' = k
      · have hne : p.1 ≠ k := fun he => by simp [he, Std.compare_self] at hcmp
        simp [h, hne]
      · simp [h]

theorem mem_insertPair {k : Key} {v : List (Fin 256)} {q : Key × List (Fin 256)} :
    ∀ {ps : List (Key × List (Fin 256))}, q ∈ insertPair k v ps → q = (k, v) ∨ q ∈ ps
  | [], h => by simpa [insertPair] using h
  | p :: ps, h => by
    rw [insertPair] at h
    split at h
    · simpa using h
    · rcases List.mem_cons.mp h with h | h
      · exact .inl h
      · exact .inr (List.mem_cons_of_mem _ h)
    · rcases List.mem_cons.mp h with h | h
      · exact .inr (h ▸ List.mem_cons_self)
      · rcases mem_insertPair h with h | h
        · exact .inl h
        · exact .inr (List.mem_cons_of_mem _ h)

theorem sortedKeys_insertPair (k : Key) (v : List (Fin 256)) :
    ∀ {ps : List (Key × List (Fin 256))}, SortedKeys compare ps →
      SortedKeys compare (insertPair k v ps)
  | [], _ => List.pairwise_singleton _ _
  | p :: ps, hs => by
    have hp := hs.lt_of_cons
    have hps := hs.of_cons
    rw [insertPair]
    rcases hcmp : compare k p.1 with _ | _ | _
    · -- `k` is below `p` and so below every key after it
      refine List.pairwise_cons.mpr ⟨fun q hq => ?_, hs⟩
      rcases List.mem_cons.mp hq with rfl | hq
      · exact hcmp
      · exact Std.TransCmp.lt_trans hcmp (hp q hq)
    · have hk : k = p.1 := Std.compare_eq_iff_eq.mp hcmp
      refine List.pairwise_cons.mpr ⟨fun q hq => ?_, hps⟩
      rw [hk]
      exact hp q hq
    · refine List.pairwise_cons.mpr ⟨fun q hq => ?_, sortedKeys_insertPair k v hps⟩
      rcases mem_insertPair hq with rfl | hq
      · exact Std.OrientedCmp.gt_iff_lt.mp hcmp
      · exact hp q hq

/-- In a sorted list the pair replaces the one of its key, or is added. -/
theorem mem_insertPair_iff {k : Key} {v : List (Fin 256)} {q : Key × List (Fin 256)} :
    ∀ {ps : List (Key × List (Fin 256))}, SortedKeys compare ps →
      (q ∈ insertPair k v ps ↔ q = (k, v) ∨ q ∈ ps ∧ q.1 ≠ k)
  | [], _ => by simp [insertPair]
  | p :: ps, hs => by
    have hp := hs.lt_of_cons
    rw [insertPair]
    rcases hcmp : compare k p.1 with _ | _ | _
    · -- every key of the list is above `k`
      have habove : ∀ q ∈ p :: ps, q.1 ≠ k := by
        intro q hq heq
        rcases List.mem_cons.mp hq with rfl | hq
        · rw [heq, Std.compare_self] at hcmp
          cases hcmp
        · have := Std.TransCmp.lt_trans hcmp (hp q hq)
          rw [heq, Std.compare_self] at this
          cases this
      simp only [List.mem_cons]
      constructor
      · rintro (h | h)
        · exact .inl h
        · exact .inr ⟨h, habove q (List.mem_cons.mpr h)⟩
      · rintro (h | ⟨h, -⟩)
        · exact .inl h
        · exact .inr h
    · have hk : k = p.1 := Std.compare_eq_iff_eq.mp hcmp
      have hafter : ∀ q ∈ ps, q.1 ≠ k := fun q hq heq => by
        have := hp q hq
        rw [heq, hk, Std.compare_self] at this
        cases this
      simp only [List.mem_cons]
      constructor
      · rintro (h | h)
        · exact .inl h
        · exact .inr ⟨.inr h, hafter q h⟩
      · rintro (h | ⟨h | h, hne⟩)
        · exact .inl h
        · exact absurd (h ▸ hk.symm) hne
        · exact .inr h
    · have hne : p.1 ≠ k := fun heq => by
        rw [heq, Std.compare_self] at hcmp
        cases hcmp
      rw [List.mem_cons, mem_insertPair_iff hs.of_cons, List.mem_cons]
      constructor
      · rintro (rfl | h | ⟨h, hq⟩)
        · exact .inr ⟨.inl rfl, hne⟩
        · exact .inl h
        · exact .inr ⟨.inr h, hq⟩
      · rintro (h | ⟨rfl | h, hq⟩)
        · exact .inr (.inl h)
        · exact .inl rfl
        · exact .inr (.inr ⟨h, hq⟩)

/-- A pair for a new key lengthens a sorted list by one; one for a present key does not. -/
theorem length_insertPair (k : Key) (v : List (Fin 256)) :
    ∀ {ps : List (Key × List (Fin 256))}, SortedKeys compare ps →
      (insertPair k v ps).length = ps.length + if (⟨ps⟩ : Store).get k = none then 1 else 0
  | [], _ => by simp [insertPair]
  | p :: ps, hs => by
    have hp := hs.lt_of_cons
    rw [insertPair]
    rcases hcmp : compare k p.1 with _ | _ | _
    · have hnone : (⟨p :: ps⟩ : Store).get k = none := by
        rw [get_eq_none_iff]
        intro q hq heq
        rcases List.mem_cons.mp hq with rfl | hq
        · rw [heq, Std.compare_self] at hcmp
          cases hcmp
        · have := Std.TransCmp.lt_trans hcmp (hp q hq)
          rw [heq, Std.compare_self] at this
          cases this
      simp [hnone]
    · have hk : k = p.1 := Std.compare_eq_iff_eq.mp hcmp
      obtain ⟨pk, pv⟩ := p
      subst hk
      simp [get_cons]
    · have hne : p.1 ≠ k := fun heq => by
        rw [heq, Std.compare_self] at hcmp
        cases hcmp
      obtain ⟨pk, pv⟩ := p
      rw [List.length_cons, length_insertPair k v hs.of_cons, get_cons, if_neg hne,
        List.length_cons]
      omega

theorem Sorted.filter {s : Store} (hs : s.Sorted) (f : Key × List (Fin 256) → Bool) :
    SortedKeys compare (s.pairs.filter f) :=
  List.Pairwise.filter f hs

theorem get_delete (s : Store) (k k' : Key) :
    (s.delete k).get k' = if k' = k then none else s.get k' := by
  by_cases h : k' = k
  · subst h
    simp [delete, get, List.find?_filter]
  · simp only [delete, get, h, if_false]
    congr 1
    rw [List.find?_filter]
    congr 1
    funext p
    by_cases hp : p.1 = k' <;> simp [hp, h]

theorem Sorted.delete {s : Store} (hs : s.Sorted) (k : Key) : (s.delete k).Sorted :=
  hs.filter _

/-- `Get` is `List.lookup` on the pairs. -/
theorem get_eq_lookup (k : Key) : ∀ ps : List (Key × List (Fin 256)), (⟨ps⟩ : Store).get k = ps.lookup k
  | [] => rfl
  | (k', v) :: ps => by
    rw [get_cons, List.lookup_cons, get_eq_lookup k ps]
    by_cases h : k' = k
    · simp [h]
    · rw [if_neg h, beq_false_of_ne (Ne.symm h)]

/-- On a sorted store a key is read exactly when its pair is there. -/
theorem Sorted.get_eq_some_iff {s : Store} (hs : s.Sorted) {k : Key} {v : List (Fin 256)} :
    s.get k = some v ↔ (k, v) ∈ s.pairs := by
  rw [get_eq_lookup]
  exact SortedKeys.lookup_eq_some_iff hs

end Store

/-! ### Ranges of a data prefix -/

theorem compare_byte_eq_lt {a b : Fin 256} : compare a b = .lt ↔ a.val < b.val := by
  rw [show compare a b = compare a.val b.val from rfl, Nat.compare_eq_lt]

theorem val_byte_succ {c : Fin 256} (hc : c.val < 255) : (c + 1).val = c.val + 1 := by
  simp [Fin.val_add]
  omega

theorem compare_byte_succ {c : Fin 256} (hc : c.val < 255) : compare c (c + 1) = .lt := by
  rw [compare_byte_eq_lt, val_byte_succ hc]
  omega

/-- No byte lies strictly between `c` and `c + 1`. -/
theorem not_between_byte_succ {c : Fin 256} (hc : c.val < 255) (x : Fin 256)
    (hcx : compare c x = .lt) : compare x (c + 1) ≠ .lt := by
  rw [compare_byte_eq_lt] at hcx
  rw [ne_eq, compare_byte_eq_lt, val_byte_succ hc]
  omega

theorem prefixNext_snoc {p : Key} {c : Fin 256} (hc : c.val < 255) :
    prefixNext (p ++ [c]) = p ++ [c + 1] := by
  have hne : c + 1 ≠ 0 := by
    intro h
    have := congrArg Fin.val h
    simp [Fin.val_add] at this
    omega
  simp [prefixNext, incrementLast, hne]

/-- The keys between a prefix ending below `0xFF` and its `PrefixNext` are those that extend it. -/
theorem between_prefixNext_iff {p k : Key} {c : Fin 256} (hc : c.val < 255) :
    (compare k (p ++ [c]) != .lt && compare k (prefixNext (p ++ [c])) == .lt) = true ↔
      p ++ [c] <+: k := by
  rw [prefixNext_snoc hc, ← between_snoc_iff (compare_byte_succ hc) (not_between_byte_succ hc),
    ne_eq, Std.OrientedCmp.gt_iff_lt, Bool.and_eq_true, bne_iff_ne, beq_iff_eq]

/-! ### The structure keys -/

namespace TxStructure

variable (t : TxStructure)

/-- A key of the structure: `prefix + EncodeBytes(key) + flag + suffix`. -/
def structKey (key : List (Fin 256)) (flag : UInt64) (suffix : Key) : Key :=
  t.keyPrefix ++ encodeBytes key ++ encodeUint flag ++ suffix

theorem encodeStringDataKey_eq (key : List (Fin 256)) :
    t.encodeStringDataKey key = t.structKey key stringData [] := by
  simp [encodeStringDataKey, structKey]

theorem encodeHashMetaKey_eq (key : List (Fin 256)) :
    t.encodeHashMetaKey key = t.structKey key hashMeta [] := by
  simp [encodeHashMetaKey, structKey]

theorem hashDataKeyPrefix_eq (key : List (Fin 256)) :
    t.hashDataKeyPrefix key = t.structKey key hashData [] := by
  simp [hashDataKeyPrefix, structKey]

theorem encodeHashDataKey_eq (key field : List (Fin 256)) :
    t.encodeHashDataKey key field = t.structKey key hashData (encodeBytes field) := by
  simp [encodeHashDataKey, hashDataKeyPrefix, structKey]

theorem encodeListMetaKey_eq (key : List (Fin 256)) :
    t.encodeListMetaKey key = t.structKey key listMeta [] := by
  simp [encodeListMetaKey, structKey]

theorem encodeListDataKey_eq (key : List (Fin 256)) (index : Int64) :
    t.encodeListDataKey key index = t.structKey key listData (encodeInt index) := by
  simp [encodeListDataKey, structKey]

/-- Two structure keys are equal exactly when their keys, flags and suffixes are. -/
theorem structKey_inj {key key' : List (Fin 256)} {flag flag' : UInt64} {suffix suffix' : Key} :
    t.structKey key flag suffix = t.structKey key' flag' suffix' ↔
      key = key' ∧ flag = flag' ∧ suffix = suffix' := by
  constructor
  · intro h
    simp only [structKey, List.append_assoc, List.append_cancel_left_eq] at h
    obtain ⟨hkey, hrest⟩ := eq_of_read_append (decodeBytes_encodeBytes key _)
      (decodeBytes_encodeBytes key' _) h
    obtain ⟨hflag, hsuffix⟩ := eq_of_read_append (decodeUint_encodeUint _ flag)
      (decodeUint_encodeUint _ flag') hrest
    exact ⟨hkey, hflag, hsuffix⟩
  · rintro ⟨rfl, rfl, rfl⟩
    rfl

theorem structKey_prefix_iff {key key' : List (Fin 256)} {flag flag' : UInt64} {suffix : Key} :
    t.structKey key flag [] <+: t.structKey key' flag' suffix ↔ key = key' ∧ flag = flag' := by
  constructor
  · rintro ⟨rest, h⟩
    have h' : t.structKey key flag rest = t.structKey key' flag' suffix := by
      simpa [structKey] using h
    obtain ⟨hkey, hflag, -⟩ := (t.structKey_inj).mp h'
    exact ⟨hkey, hflag⟩
  · rintro ⟨rfl, rfl⟩
    exact ⟨suffix, by simp [structKey]⟩

/-- The keys a structure writes. -/
inductive IsStructureKey : Key → Prop
  | string (key : List (Fin 256)) : IsStructureKey (t.encodeStringDataKey key)
  | hashMeta (key : List (Fin 256)) : IsStructureKey (t.encodeHashMetaKey key)
  | hashData (key field : List (Fin 256)) : IsStructureKey (t.encodeHashDataKey key field)
  | listMeta (key : List (Fin 256)) : IsStructureKey (t.encodeListMetaKey key)
  | listData (key : List (Fin 256)) (index : Int64) : IsStructureKey (t.encodeListDataKey key index)

variable {t}

/-- A structure key that extends the data prefix of a hash is a data key of that hash. -/
theorem IsStructureKey.eq_of_hashDataKeyPrefix {k : Key} (hk : t.IsStructureKey k)
    {key : List (Fin 256)} (hpre : t.hashDataKeyPrefix key <+: k) :
    ∃ field, k = t.encodeHashDataKey key field := by
  rw [hashDataKeyPrefix_eq] at hpre
  cases hk with
  | string k' =>
    rw [encodeStringDataKey_eq, t.structKey_prefix_iff] at hpre
    exact absurd hpre.2 (by decide)
  | hashMeta k' =>
    rw [encodeHashMetaKey_eq, t.structKey_prefix_iff] at hpre
    exact absurd hpre.2 (by decide)
  | hashData k' field =>
    rw [encodeHashDataKey_eq, t.structKey_prefix_iff] at hpre
    rw [← hpre.1]
    exact ⟨field, rfl⟩
  | listMeta k' =>
    rw [encodeListMetaKey_eq, t.structKey_prefix_iff] at hpre
    exact absurd hpre.2 (by decide)
  | listData k' index =>
    rw [encodeListDataKey_eq, t.structKey_prefix_iff] at hpre
    exact absurd hpre.2 (by decide)

variable (t)

/-- The data keys of a hash compare as their fields. -/
theorem compare_encodeHashDataKey (key f g : List (Fin 256)) :
    compare (t.encodeHashDataKey key f) (t.encodeHashDataKey key g) = compare f g := by
  rw [encodeHashDataKey, encodeHashDataKey, compare_append_left]
  exact (encodeBytes_encodesAt f g).compare_eq

theorem hashDataKeyPrefix_prefix_encodeHashDataKey (key field : List (Fin 256)) :
    t.hashDataKeyPrefix key <+: t.encodeHashDataKey key field :=
  ⟨encodeBytes field, rfl⟩

/-- The keys from the data prefix of a hash on and below its `PrefixNext` are those that extend
it: the prefix ends in the flag byte `'h'`, below `0xFF`. -/
theorem between_hashDataKeyPrefix_iff (key : List (Fin 256)) (k : Key) :
    (compare k (t.hashDataKeyPrefix key) != .lt &&
        compare k (prefixNext (t.hashDataKeyPrefix key)) == .lt) = true ↔
      (t.hashDataKeyPrefix key).isPrefixOf k = true := by
  have hflag : encodeUint hashData = [0, 0, 0, 0, 0, 0, 0] ++ [104] := by decide
  have hsplit : t.hashDataKeyPrefix key =
      (t.keyPrefix ++ encodeBytes key ++ [0, 0, 0, 0, 0, 0, 0]) ++ [104] := by
    simp [hashDataKeyPrefix, hflag]
  rw [hsplit, between_prefixNext_iff (by decide), List.isPrefixOf_iff_prefix]

/-- `iterateHash` visits the pairs whose keys extend the data prefix of the hash. -/
theorem hashDataAsc_eq (key : List (Fin 256)) :
    t.hashDataAsc key = t.store.pairs.filter fun p => (t.hashDataKeyPrefix key).isPrefixOf p.1 := by
  have hfilter : t.store.iter (t.hashDataKeyPrefix key) (prefixNext (t.hashDataKeyPrefix key)) =
      t.store.pairs.filter fun p => (t.hashDataKeyPrefix key).isPrefixOf p.1 := by
    unfold Store.iter
    congr 1
    funext p
    rw [Bool.eq_iff_iff, between_hashDataKeyPrefix_iff]
  rw [hashDataAsc, hfilter, List.takeWhile_eq_self_iff]
  intro p hp
  exact (List.mem_filter.mp hp).2

/-- `iterReverseHash` visits, on a sorted store, the pairs `iterateHash` visits in reverse: the
pairs below `PrefixNext` of the data prefix descend, and those of the hash come first. -/
theorem hashDataDesc_eq (hs : t.store.Sorted) (key : List (Fin 256)) :
    t.hashDataDesc key = (t.hashDataAsc key).reverse := by
  set P := t.hashDataKeyPrefix key
  set below := t.store.pairs.filter fun p => compare p.1 (prefixNext P) == .lt
  have hbetween : ∀ k : Key, (compare k P != .lt && compare k (prefixNext P) == .lt) = true ↔
      P.isPrefixOf k = true :=
    between_hashDataKeyPrefix_iff t key
  have hdesc : (below.reverse).Pairwise fun a b =>
      compare b.1 a.1 = .lt ∧ a ∈ below.reverse ∧ b ∈ below.reverse := by
    have hsorted : below.Pairwise fun a b => compare a.1 b.1 = .lt := List.Pairwise.filter _ hs
    exact (List.pairwise_reverse.mpr hsorted).imp_of_mem fun ha hb hab => ⟨hab, ha, hb⟩
  -- a pair below `PrefixNext P` and above one of the hash is also one of the hash
  have hextend : ∀ a b : Key × List (Fin 256),
      (compare b.1 a.1 = .lt ∧ a ∈ below.reverse ∧ b ∈ below.reverse) →
      P.isPrefixOf b.1 = true → P.isPrefixOf a.1 = true := by
    rintro a b ⟨hba, ha, -⟩ hb
    have hanext : compare a.1 (prefixNext P) = .lt :=
      beq_iff_eq.mp (List.mem_filter.mp (List.mem_reverse.mp ha)).2
    have hbP : compare b.1 P ≠ .lt := by
      have := (hbetween b.1).mpr hb
      simpa using (Bool.and_eq_true_iff.mp this).1
    have haP : compare a.1 P ≠ .lt := fun haP => hbP (Std.TransCmp.lt_trans hba haP)
    exact (hbetween a.1).mp (by simp [haP, hanext])
  have hbelow : (below.filter fun p => P.isPrefixOf p.1) =
      t.store.pairs.filter fun p => P.isPrefixOf p.1 := by
    rw [List.filter_filter]
    congr 1
    funext p
    cases hpre : P.isPrefixOf p.1
    · simp
    · have := (hbetween p.1).mpr hpre
      simp only [Bool.and_eq_true, beq_iff_eq] at this
      simp [this.2]
  rw [hashDataDesc, Store.iterReverse, takeWhile_eq_filter_of_pairwise hextend hdesc,
    List.filter_reverse, hbelow, hashDataAsc_eq]

theorem decodeHashDataKey_encodeHashDataKey (key field : List (Fin 256)) :
    t.decodeHashDataKey (t.encodeHashDataKey key field) = .ok (key, field) := by
  have hprefix : t.keyPrefix.isPrefixOf (t.encodeHashDataKey key field) = true := by
    rw [List.isPrefixOf_iff_prefix]
    exact ⟨encodeBytes key ++ encodeUint hashData ++ encodeBytes field, by
      simp [encodeHashDataKey, hashDataKeyPrefix]⟩
  have hdrop : (t.encodeHashDataKey key field).drop t.keyPrefix.length =
      encodeBytes key ++ (encodeUint hashData ++ (encodeBytes field ++ [])) := by
    simp [encodeHashDataKey, hashDataKeyPrefix]
  simp only [decodeHashDataKey, hprefix, Bool.not_true, hdrop, decodeBytes_encodeBytes,
    decodeUint_encodeUint, Except.mapError, bind, Except.bind, pure, Except.pure]
  rfl

end TxStructure

end TinySql.Structure
