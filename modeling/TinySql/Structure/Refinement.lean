import TinySql.Structure.ListSteps

/-!
# The store refines the content

`TxStructure.apply` runs a writing operation of `structure/` on the store; `Content.apply` says what
it does to the content. From a store that represents a content the two agree
(`Repr.simulates_apply`): both fail, or both give the same answer and the store after represents
the content after, or the store fails at a size limit of the membuffer (`ErrEntryTooLarge`,
`ErrTxnTooLarge`), which the content does not have. By induction the same holds of every run
(`Repr.simulates_run`), so of every run from an empty store (`repr_empty`).

The reads of `structure/` read a represented content: `Get` and `HGet` its string and field,
`HGetAll` its hash in the order of the fields, with `HLen` their number, and `LIndex`, `LLen` and
`LGetAll` its list (`ListSteps`).

The bound of a representation is the room the int64 counts and indices need. An operation may take
`Op.size` of it, so a run needs the sum of its sizes below `2^63`.
-/

namespace TinySql.Structure

open TinySql.Codec TinySql.Lib

namespace TxStructure

variable {t : TxStructure} {c : Content} {b : Nat}

/-- The store's outcome simulates the content's: both fail, or both answer alike and the store
represents the content within `b`, or the store meets a size limit. -/
def Simulates {α : Type} (b : Nat) : Except ListError (α × TxStructure) → Option (α × Content) → Prop
  | .ok (r, t'), some (r', c') => r = r' ∧ t'.Repr c' b
  | .error _, none => True
  | .error e, some _ => e.isTooLarge
  | .ok _, none => False

@[simp] theorem simulates_ok_some {α : Type} {r r' : α} {t' : TxStructure} {c' : Content} :
    Simulates b (.ok (r, t')) (some (r', c')) ↔ r = r' ∧ t'.Repr c' b :=
  Iff.rfl

@[simp] theorem simulates_error_none {α : Type} {e : ListError} :
    Simulates (α := α) b (.error e) none :=
  trivial

/-- A size limit met by the store is simulated by whatever the content does. -/
theorem simulates_error_of_isTooLarge {α : Type} {e : ListError} (he : e.isTooLarge)
    (y : Option (α × Content)) : Simulates b (.error e) y := by
  cases y with
  | none => trivial
  | some _ => exact he

/-- Simulation goes through a bind: the continuations are run on an answer and a store that
represents the content they are run on. -/
theorem Simulates.bind {α β : Type} {x : Except ListError (α × TxStructure)} {y : Option (α × Content)}
    (hxy : Simulates b x y) {b' : Nat} {f : α × TxStructure → Except ListError (β × TxStructure)}
    {g : α × Content → Option (β × Content)}
    (hfg : ∀ r t' c', t'.Repr c' b → Simulates b' (f (r, t')) (g (r, c'))) :
    Simulates b' (x >>= f) (y >>= g) := by
  match x, y, hxy with
  | .ok (r, t'), some (r', c'), ⟨hr, hrepr⟩ =>
    subst hr
    exact hfg r t' c' hrepr
  | .error _, none, _ => trivial
  | .error _, some _, he => exact simulates_error_of_isTooLarge he _

/-- A store operation that answers what the content's does and represents its content, unless it
meets a size limit. -/
theorem simulates_of_okOr {α : Type} {e : Except ListError (α × TxStructure)} {f : α → Reply} {a : α}
    {c' : Content} (he : OkOr (·.isTooLarge) (fun r => r.1 = a ∧ r.2.Repr c' b) e) :
    Simulates b ((fun r => (f r.1, r.2)) <$> e) (some (f a, c')) := by
  cases e with
  | ok r =>
    obtain ⟨rfl, hr⟩ := he
    exact ⟨rfl, hr⟩
  | error _ => exact he

/-- The same for an operation that answers nothing but `done`. -/
theorem simulates_done {e : Except ListError TxStructure} {c' : Content}
    (he : OkOr (·.isTooLarge) (·.Repr c' b) e) :
    Simulates b (((Reply.done, ·)) <$> e) (some (.done, c')) := by
  cases e with
  | ok _ => exact ⟨rfl, he⟩
  | error _ => exact he

/-- An operation of `string.go` or `hash.go`, whose errors the list operations wrap. -/
theorem simulates_structure_done {e : Except StructureError TxStructure} {c' : Content}
    (he : OkOr (·.isTooLarge) (·.Repr c' b) e) :
    Simulates b (((Reply.done, ·)) <$> e.mapError ListError.structure) (some (.done, c')) :=
  simulates_done (he.mapError fun _ h => h)

theorem simulates_list_error {e : Except ListError TxStructure} (he : ∃ err, e = .error err) :
    Simulates b (((Reply.done, ·)) <$> e) none := by
  obtain ⟨err, rfl⟩ := he
  trivial

/-- One operation: the store does what the content does. The hash operations that add a field take
one of the bound, the pushes one for each value. -/
theorem Repr.simulates_apply (h : t.Repr c b) (op : Op) (hb : b + op.size < 2 ^ 63) :
    Simulates (b + op.size) (t.apply op) (c.apply op) := by
  have hb₀ : b < 2 ^ 63 := lt_of_le_of_lt (Nat.le_add_right b _) hb
  cases op with
  | set key value =>
    by_cases hv : value = []
    · subst hv
      simp [TxStructure.apply, Content.apply, h.set_nil key, Except.mapError]
    · rw [TxStructure.apply, Content.apply, if_neg hv]
      exact simulates_structure_done (h.set key hv)
  | inc key step =>
    have hinc := h.inc key step
    rw [TxStructure.apply, Content.apply]
    cases hbase : incBase (c.string key) step with
    | none =>
      rw [hbase] at hinc
      simp [hinc, Except.mapError]
    | some n =>
      rw [hbase] at hinc
      exact simulates_of_okOr (hinc.mapError fun _ h => h)
  | clear key =>
    obtain ⟨t', hclear, hr⟩ := h.clear key
    exact simulates_structure_done (okOr_of_eq_ok hclear hr)
  | hSet key field value =>
    by_cases hv : value = []
    · subst hv
      rw [TxStructure.apply, Content.apply, if_pos rfl, h.hSet_nil key field]
      by_cases hf : c.hash key field = none
      · rw [if_pos hf, if_pos hf]
        exact ⟨rfl, h.mono (Nat.le_add_right b _)⟩
      · simp [hf, Except.mapError]
    · rw [TxStructure.apply, Content.apply, if_neg hv]
      exact simulates_structure_done (h.hSet key field hv)
  | hInc key field step =>
    have hinc := h.hInc key field step
    rw [TxStructure.apply, Content.apply]
    cases hbase : incBase (c.hash key field) step with
    | none =>
      rw [hbase] at hinc
      simp [hinc, Except.mapError]
    | some n =>
      rw [hbase] at hinc
      exact simulates_of_okOr (hinc.mapError fun _ h => h)
  | hDel key fields => exact simulates_structure_done ((h.hDel hb₀ key fields).imp fun _ hr => hr.1)
  | hClear key =>
    obtain ⟨t', hclear, hr⟩ := h.hClear hb₀ key
    exact simulates_structure_done (okOr_of_eq_ok hclear hr)
  | lPush key values =>
    rw [TxStructure.apply, Content.apply]
    by_cases hv : [] ∈ values
    · rw [if_pos hv]
      exact simulates_list_error (h.listPush_error key true hv)
    · rw [if_neg hv]
      exact simulates_done (h.lPush key hb hv)
  | rPush key values =>
    rw [TxStructure.apply, Content.apply]
    by_cases hv : [] ∈ values
    · rw [if_pos hv]
      exact simulates_list_error (h.listPush_error key false hv)
    · rw [if_neg hv]
      exact simulates_done (h.rPush key hb hv)
  | lPop key => exact simulates_of_okOr (h.lPop hb₀ key)
  | rPop key => exact simulates_of_okOr (h.rPop hb₀ key)
  | lSet key index value =>
    rw [TxStructure.apply, Content.apply]
    by_cases hxs : c.list key = []
    · rw [if_pos hxs]
      exact simulates_done (okOr_of_eq_ok (h.lSet_empty hb₀ key hxs index value) h)
    rw [if_neg hxs]
    cases hj : listPosition (c.list key).length index with
    | none => exact simulates_list_error (h.lSet_none hb₀ key hxs hj value)
    | some j =>
      by_cases hv : value = []
      · subst hv
        exact simulates_list_error (h.lSet_nil hb₀ key hj)
      · dsimp only
        rw [if_neg hv]
        exact simulates_done (h.lSet hb₀ key hj hv)
  | lClear key =>
    obtain ⟨t', hclear, hr⟩ := h.lClear hb₀ key
    exact simulates_done (okOr_of_eq_ok hclear hr)

/-- A run of operations: the store does what the content does, within the bound grown by the
sizes of the operations. -/
theorem Repr.simulates_run (h : t.Repr c b) (ops : List Op) (hb : b + (ops.map Op.size).sum < 2 ^ 63) :
    Simulates (b + (ops.map Op.size).sum) (t.run ops) (c.run ops) := by
  induction ops generalizing t c b with
  | nil => exact ⟨rfl, h⟩
  | cons op ops ih =>
    rw [List.map_cons, List.sum_cons] at hb ⊢
    rw [TxStructure.run, Content.run]
    refine (h.simulates_apply op (by omega)).bind fun r t' c' hr => ?_
    rw [← Nat.add_assoc]
    exact (ih hr (by omega)).bind fun rs t'' c'' hr' => ⟨rfl, hr'⟩

/-- A run that sets a field, pushes two values and pops one, from an empty store. -/
theorem simulates_run_emptyTx :
    Simulates (0 + ([Op.hSet [104] [102] [118], .rPush [107] [[1], [2]], .lPop [107]].map
        Op.size).sum)
      (emptyTx.run [.hSet [104] [102] [118], .rPush [107] [[1], [2]], .lPop [107]])
      (Content.empty.run [.hSet [104] [102] [118], .rPush [107] [[1], [2]], .lPop [107]]) :=
  (repr_empty newMemDbBuffer [109]).simulates_run _ (by decide)

/-! ### Reads -/

theorem Repr.get (h : t.Repr c b) (key : List (Fin 256)) : t.get key = c.string key :=
  h.part (.string key)

theorem Repr.hGet (h : t.Repr c b) (key field : List (Fin 256)) : t.hGet key field = c.hash key field :=
  (show t.HashRepr key (c.hash key) b from h.part (.hash key)).data field

/-- `iterateHash` reads the fields of the hash with their values, ascending by field. -/
theorem Repr.iterateHash_enumerates (h : t.Repr c b) (key : List (Fin 256)) :
    ∃ ps, t.iterateHash key = .ok ps ∧ Enumerates compare ps (c.hash key) := by
  have hh : t.HashRepr key (c.hash key) b := h.part (.hash key)
  -- every pair listed is at a data key, so its key decodes to the field
  have hdec : ∀ p ∈ t.hashDataAsc key, ∃ field, p.1 = t.encodeHashDataKey key field ∧
      t.decodeHashPair p = .ok (field, p.2) := fun p hp => by
    obtain ⟨⟨field, hf⟩, -⟩ := h.wf.mem_hashDataAsc_iff.mp hp
    exact ⟨field, hf, decodeHashPair_of_eq hf⟩
  obtain ⟨ps, hps⟩ : ∃ ps, t.iterateHash key = .ok ps :=
    mapM_ok_of_forall _ _ fun p hp => by
      obtain ⟨field, -, hq⟩ := hdec p hp
      exact ⟨_, hq⟩
  have hsorted : SortedKeys compare ps := by
    have hasc : (t.hashDataAsc key).Pairwise fun p p' =>
        p ∈ t.hashDataAsc key ∧ p' ∈ t.hashDataAsc key ∧ compare p.1 p'.1 = .lt :=
      List.Pairwise.imp_of_mem (fun hp hp' hlt => ⟨hp, hp', hlt⟩) (h.wf.sortedKeys_hashDataAsc key)
    refine mapM_ok_pairwise hps hasc fun p p' q q' hq hq' hpp' => ?_
    obtain ⟨hp, hp', hlt⟩ := hpp'
    obtain ⟨f, hf, hfq⟩ := hdec p hp
    obtain ⟨f', hf', hfq'⟩ := hdec p' hp'
    rw [hfq] at hq
    rw [hfq'] at hq'
    cases hq
    cases hq'
    rwa [hf, hf', compare_encodeHashDataKey] at hlt
  have hmem : ∀ f v, (f, v) ∈ ps ↔ c.hash key f = some v := fun f v => by
    rw [← hh.data f]
    constructor
    · intro hq
      obtain ⟨p, hp, hpq⟩ := mapM_ok_mem hps hq
      obtain ⟨f', hf', hfq⟩ := hdec p hp
      rw [hfq] at hpq
      cases hpq
      rw [← hf']
      exact (h.wf.mem_hashDataAsc_iff.mp hp).2
    · intro hv
      obtain ⟨q, hq, hdecq⟩ := mapM_ok_of_mem hps
        (h.wf.mem_hashDataAsc_iff (p := (t.encodeHashDataKey key f, v)) |>.mpr ⟨⟨f, rfl⟩, hv⟩)
      rw [decodeHashPair_of_eq rfl] at hdecq
      cases hdecq
      exact hq
  exact ⟨ps, hps, hsorted, hmem⟩

/-- `HGetAll` lists the fields of the hash with their values, ascending by field; `HKeys` lists the
fields, and `HLen` is their number. -/
theorem Repr.hGetAll (h : t.Repr c b) (key : List (Fin 256)) :
    ∃ ps, t.hGetAll key = .ok ps ∧ Enumerates compare ps (c.hash key) ∧
      t.hKeys key = .ok (ps.map Prod.fst) ∧ t.hLen key = .ok (Int64.ofNat ps.length) := by
  obtain ⟨ps, hps, henum⟩ := h.iterateHash_enumerates key
  have hlen : ps.length = (t.hashDataAsc key).length :=
    ((mapM_ok_iff_forall₂ _ _ _).mp hps).length_eq.symm
  refine ⟨ps, hps, henum, ?_, ?_⟩
  · simp [hKeys, hps]
  · rw [hLen, (show t.HashRepr key (c.hash key) b from h.part (.hash key)).loadHashMeta, hlen]

/-- The hash that two `HSet`s build from the empty store is listed by field. -/
theorem hGetAll_hashed :
    ∃ t, (emptyTx.hSet [104] [102] [118] >>= (·.hSet [104] [97] [119])) = .ok t ∧
      t.hGetAll [104] = .ok [([97], [119]), ([102], [118])] ∧ t.hKeys [104] = .ok [[97], [102]] ∧
      t.hLen [104] = .ok 2 := by
  obtain ⟨t, ht⟩ : ∃ t, (emptyTx.hSet [104] [102] [118] >>= (·.hSet [104] [97] [119])) = .ok t :=
    ⟨_, rfl⟩
  have hr := (((repr_empty newMemDbBuffer [109]).hSet [104] [102] (by decide)).bind
    fun _ h₁ => h₁.hSet [104] [97] (by decide)).of_eq_ok ht
  obtain ⟨ps, hps, -, hkeys, hlen⟩ := hr.hGetAll [104]
  have hall : (emptyTx.hSet [104] [102] [118] >>= (·.hSet [104] [97] [119]) >>= (·.hGetAll [104])) =
      .ok [([97], [119]), ([102], [118])] := rfl
  rw [ht, except_bind_ok, hps] at hall
  cases hall
  exact ⟨t, ht, hps, hkeys, hlen⟩

/-- `HGetLastN` lists the fields of the hash by descending field: the last `num` of them, and the
last one also for a count of zero; a negative count panics in `make`. -/
theorem Repr.hGetLastN (h : t.Repr c b) (key : List (Fin 256)) :
    ∃ ps, Enumerates compare ps (c.hash key) ∧
      (∀ num : Nat, t.hGetLastN key num = .ok (ps.reverse.take (max num 1))) ∧
      ∀ num : Int, num < 0 → t.hGetLastN key num = .error .makesliceCapOutOfRange := by
  obtain ⟨ps, hps, henum⟩ := h.iterateHash_enumerates key
  -- the reverse iteration reads the pairs of the hash backwards
  have hdesc : (t.hashDataDesc key).mapM t.decodeHashPair = .ok ps.reverse := by
    rw [hashDataDesc_eq t h.wf.sorted key, mapM_ok_iff_forall₂]
    exact List.forall₂_reverse_iff.mpr ((mapM_ok_iff_forall₂ _ _ _).mp hps)
  exact ⟨ps, henum, fun num => t.hGetLastN_of_nonneg key num hdesc,
    fun _ hnum => t.hGetLastN_of_neg key hnum⟩

/-- The hash that two `HSet`s build from the empty store, read backwards. -/
theorem hGetLastN_hashed :
    ∃ t, (emptyTx.hSet [104] [102] [118] >>= (·.hSet [104] [97] [119])) = .ok t ∧ ∃ c b,
      t.Repr c b ∧ ∃ ps, Enumerates compare ps (c.hash [104]) ∧
        (∀ num : Nat, t.hGetLastN [104] num = .ok (ps.reverse.take (max num 1))) ∧
        ∀ num : Int, num < 0 → t.hGetLastN [104] num = .error .makesliceCapOutOfRange := by
  obtain ⟨t, ht⟩ : ∃ t, (emptyTx.hSet [104] [102] [118] >>= (·.hSet [104] [97] [119])) = .ok t :=
    ⟨_, rfl⟩
  have hr := (((repr_empty newMemDbBuffer [109]).hSet [104] [102] (by decide)).bind
    fun _ h₁ => h₁.hSet [104] [97] (by decide)).of_eq_ok ht
  exact ⟨t, ht, _, _, hr, hr.hGetLastN [104]⟩

/-! ### Round trips

What a client of `structure/` relies on, read off the content through the refinement. -/

/-- `HSet` is read back by `HGet`, and no other field of any hash changes, unless the write meets a
size limit. -/
theorem Repr.hSet_hGet (h : t.Repr c b) (key field : List (Fin 256)) {value : List (Fin 256)}
    (hv : value ≠ []) :
    OkOr (·.isTooLarge) (fun t' => ∀ key' field', t'.hGet key' field' =
      if key' = key ∧ field' = field then some value else t.hGet key' field')
      (t.hSet key field value) :=
  (h.hSet key field hv).imp fun _ hr key' field' => by
    rw [hr.hGet, h.hGet, Content.setField_hash]

/-- Overwriting a field of the hash that two `HSet`s build. -/
theorem hSet_hGet_hashed :
    ∃ t, (emptyTx.hSet [104] [102] [118] >>= (·.hSet [104] [97] [119])) = .ok t ∧
      OkOr (·.isTooLarge) (fun t' => ∀ key' field', t'.hGet key' field' =
        if key' = [104] ∧ field' = [102] then some [120] else t.hGet key' field')
        (t.hSet [104] [102] [120]) := by
  obtain ⟨t, ht⟩ : ∃ t, (emptyTx.hSet [104] [102] [118] >>= (·.hSet [104] [97] [119])) = .ok t :=
    ⟨_, rfl⟩
  have hr := (((repr_empty newMemDbBuffer [109]).hSet [104] [102] (by decide)).bind
    fun _ h₁ => h₁.hSet [104] [97] (by decide)).of_eq_ok ht
  exact ⟨t, ht, hr.hSet_hGet [104] [102] (by decide)⟩

/-- `RPush` of a value and then `RPop` give the value back and the content as it was, unless a
write meets a size limit. -/
theorem Repr.rPush_rPop (h : t.Repr c b) (key : List (Fin 256)) {v : List (Fin 256)} (hv : v ≠ [])
    (hb : b + 1 < 2 ^ 63) :
    OkOr (·.isTooLarge) (fun r => r.1 = some v ∧ r.2.Repr c (b + 1))
      (t.rPush key [v] >>= (·.rPop key)) := by
  have hv' : [] ∉ [v] := by simpa [eq_comm] using hv
  refine (h.rPush key (show b + [v].length < 2 ^ 63 from hb) hv').bind fun t₁ hr₁ => ?_
  refine (hr₁.rPop hb key).imp fun r hr => ?_
  obtain ⟨hpop, hr₂⟩ := hr
  rw [Content.setList_list, List.getLast?_concat] at hpop
  rw [Content.setList_list, List.dropLast_concat, Content.setList_setList, Content.setList_self] at hr₂
  exact ⟨hpop, hr₂⟩

/-- A push and a pop at the right end of the list `[3], [1], [2]`. -/
theorem rPush_rPop_pushed :
    ∃ t c, (emptyTx.rPush [107] [[1], [2]] >>= (·.lPush [107] [[3]])) = .ok t ∧ t.Repr c 3 ∧
      OkOr (·.isTooLarge) (fun r => r.1 = some [4] ∧ r.2.Repr c (3 + 1))
        (t.rPush [107] [[4]] >>= (·.rPop [107])) := by
  obtain ⟨t, c, ht, hr, -⟩ := pushed_repr
  exact ⟨t, c, ht, hr, hr.rPush_rPop [107] (by decide) (by decide)⟩

/-- `LPush` of a value and then `LPop` give the value back and the content as it was, unless a
write meets a size limit. -/
theorem Repr.lPush_lPop (h : t.Repr c b) (key : List (Fin 256)) {v : List (Fin 256)} (hv : v ≠ [])
    (hb : b + 1 < 2 ^ 63) :
    OkOr (·.isTooLarge) (fun r => r.1 = some v ∧ r.2.Repr c (b + 1))
      (t.lPush key [v] >>= (·.lPop key)) := by
  have hv' : [] ∉ [v] := by simpa [eq_comm] using hv
  refine (h.lPush key (show b + [v].length < 2 ^ 63 from hb) hv').bind fun t₁ hr₁ => ?_
  refine (hr₁.lPop hb key).imp fun r hr => ?_
  obtain ⟨hpop, hr₂⟩ := hr
  rw [Content.setList_list, List.reverse_singleton, List.singleton_append, List.head?_cons] at hpop
  rw [Content.setList_list, List.reverse_singleton, List.singleton_append, List.tail_cons,
    Content.setList_setList, Content.setList_self] at hr₂
  exact ⟨hpop, hr₂⟩

/-- A push and a pop at the left end of the list `[3], [1], [2]`. -/
theorem lPush_lPop_pushed :
    ∃ t c, (emptyTx.rPush [107] [[1], [2]] >>= (·.lPush [107] [[3]])) = .ok t ∧ t.Repr c 3 ∧
      OkOr (·.isTooLarge) (fun r => r.1 = some [4] ∧ r.2.Repr c (3 + 1))
        (t.lPush [107] [[4]] >>= (·.lPop [107])) := by
  obtain ⟨t, c, ht, hr, -⟩ := pushed_repr
  exact ⟨t, c, ht, hr, hr.lPush_lPop [107] (by decide) (by decide)⟩

end TxStructure

end TinySql.Structure
