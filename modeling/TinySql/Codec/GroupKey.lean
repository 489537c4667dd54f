import TinySql.Codec.Key

/-!
# Group keys of the hash aggregation

`HashGroupKey` of `util/codec/codec.go`, as `getGroupKey` of `executor/aggregate.go` calls it: each
group-by item is evaluated into a column of its eval type, and the encoding of each row's value is
appended to that row's key, the flag `NilFlag` for a NULL. An integer is a varint, a double the
eight bytes of `EncodeFloat`, a string its compact bytes.

Each of these words is prefix-free against the words of its own column, so two keys are equal
exactly when they are equal column by column (`flatten_map_eq_iff`), and a word determines the
value: a double up to the sign of zero, as SQL compares doubles. A NaN breaks this: its bits are
inverted as those of a negative double, and a NaN with its sign clear lands on the word of a
positive double (`groupKeys_nan_collides`).
-/

namespace TinySql.Codec

open TinySql.Lib

/-- A column `getGroupKey` evaluates a group-by item into: its eval type, and each row's value,
`none` for NULL. -/
inductive EvalColumn
  | int (rows : List (Option Int64))
  | real (rows : List (Option UInt64))
  | string (rows : List (Option (List (Fin 256))))
  deriving DecidableEq, Repr

namespace EvalColumn

/-- What `HashGroupKey` appends to the key of row `i`. -/
def groupKeyPart : EvalColumn → Nat → Key
  | .int rows, i =>
    match rows.getD i none with
    | none => [nilFlag]
    | some v => encodeSignedInt v false
  | .real rows, i =>
    match rows.getD i none with
    | none => [nilFlag]
    | some f => floatFlag :: encodeFloat f
  | .string rows, i =>
    match rows.getD i none with
    | none => [nilFlag]
    | some b => encodeFlaggedBytes b false

/-- Rows `i` and `j` fall in one group: both NULL, or both values and equal, doubles as `==`
compares them. -/
def rowsAgree : EvalColumn → Nat → Nat → Bool
  | .int rows, i, j => rows.getD i none == rows.getD j none
  | .real rows, i, j =>
    match rows.getD i none, rows.getD j none with
    | none, none => true
    | some f, some g => Float64.beq f g
    | _, _ => false
  | .string rows, i, j => rows.getD i none == rows.getD j none

/-- The values the column holds have the words `rowsAgree` reads: no double is a NaN, and every
string is shorter than `2 ^ 63` bytes, as every Go slice is. -/
def inDomain : EvalColumn → Bool
  | .int _ => true
  | .real rows => rows.all fun r => r.all fun f => !Float64.isNaN f
  | .string rows => rows.all fun r => r.all fun b => decide (b.length < 2 ^ 63)

end EvalColumn

/-- `HashGroupKey`: the keys of the first `n` rows get the column's words appended; Go indexes
`buf[i]` and panics on a short buffer. -/
def hashGroupKey (n : Nat) (col : EvalColumn) (buf : List Key) : Except String (List Key) :=
  if buf.length < n then .error "runtime error: index out of range"
  else .ok (buf.mapIdx fun i key => if i < n then key ++ col.groupKeyPart i else key)

/-- The keys `getGroupKey` builds for `n` rows: `HashGroupKey` on each group-by column in turn,
from empty keys. -/
def groupKeys (n : Nat) (cols : List EvalColumn) : Except String (List Key) :=
  cols.foldlM (fun buf col => hashGroupKey n col buf) (List.replicate n [])

/-! ### The words of one column -/

theorem encodeSignedInt_append_inj {a b : Int64} {s t : Key}
    (h : encodeSignedInt a false ++ s = encodeSignedInt b false ++ t) : a = b ∧ s = t := by
  simp only [encodeSignedInt, Bool.false_eq_true, ite_false, List.cons_append, List.cons.injEq,
    true_and] at h
  exact eq_of_read_append (decodeVarint_encodeVarint s a) (decodeVarint_encodeVarint t b) h

theorem encodeFlaggedBytes_append_inj {a b : List (Fin 256)} (ha : a.length < 2 ^ 63)
    (hb : b.length < 2 ^ 63) {s t : Key}
    (h : encodeFlaggedBytes a false ++ s = encodeFlaggedBytes b false ++ t) : a = b ∧ s = t := by
  simp only [encodeFlaggedBytes, Bool.false_eq_true, ite_false, List.cons_append, List.cons.injEq,
    true_and] at h
  exact eq_of_read_append (decodeCompactBytes_encodeCompactBytes ha s)
    (decodeCompactBytes_encodeCompactBytes hb t) h

/-- The eight bytes of `EncodeFloat` tell two doubles apart exactly as `==` does, for doubles
that are no NaN. -/
theorem encodeFloat_eq_iff {f g : UInt64} (hf : Float64.isNaN f = false)
    (hg : Float64.isNaN g = false) : encodeFloat f = encodeFloat g ↔ Float64.beq f g = true := by
  rw [← encodeFloatToCmpUint64_eq_iff hf hg]
  constructor
  · intro h
    have hread := congrArg readBigEndian h
    rwa [encodeFloat, encodeFloat, encodeUint, encodeUint, readBigEndian_bigEndian,
      readBigEndian_bigEndian] at hread
  · intro h
    rw [encodeFloat, encodeFloat, h]

theorem mem_of_getD_eq_some {α : Type*} {rows : List (Option α)} {i : Nat} {x : α}
    (h : rows.getD i none = some x) : some x ∈ rows := by
  rw [List.getD_eq_getElem?_getD] at h
  cases hget : rows[i]? with
  | none => simp [hget] at h
  | some o =>
    rw [hget, Option.getD_some] at h
    subst h
    exact List.mem_of_getElem? hget

namespace EvalColumn

theorem not_isNaN_of_inDomain {rows : List (Option UInt64)} (hc : (real rows).inDomain = true)
    {i : Nat} {f : UInt64} (h : rows.getD i none = some f) : Float64.isNaN f = false := by
  have hall := List.all_eq_true.mp hc _ (mem_of_getD_eq_some h)
  simpa using hall

theorem length_lt_of_inDomain {rows : List (Option (List (Fin 256)))}
    (hc : (string rows).inDomain = true) {i : Nat} {b : List (Fin 256)}
    (h : rows.getD i none = some b) : b.length < 2 ^ 63 := by
  have hall := List.all_eq_true.mp hc _ (mem_of_getD_eq_some h)
  simpa using hall

/-- The word of a NULL and the word of a value differ in their flag. -/
theorem nil_append_ne_cons (flag : Fin 256) (hflag : nilFlag ≠ flag) (w s t : Key) :
    [nilFlag] ++ s ≠ flag :: w ++ t :=
  fun h => hflag (List.cons.inj h).1

/-- The word of a row is never a proper prefix of the word of another row of its column. -/
theorem groupKeyPart_prefix {c : EvalColumn} (hc : c.inDomain = true) (i j : Nat) {s t : Key}
    (h : c.groupKeyPart i ++ s = c.groupKeyPart j ++ t) : c.groupKeyPart i = c.groupKeyPart j := by
  cases c with
  | int rows =>
    cases hi : rows.getD i none <;> cases hj : rows.getD j none <;>
      simp only [groupKeyPart, hi, hj] at h ⊢
    · exact absurd h (nil_append_ne_cons varintFlag (by decide) _ s t)
    · exact absurd h.symm (nil_append_ne_cons varintFlag (by decide) _ t s)
    · rw [(encodeSignedInt_append_inj h).1]
  | real rows =>
    cases hi : rows.getD i none <;> cases hj : rows.getD j none <;>
      simp only [groupKeyPart, hi, hj] at h ⊢
    · exact absurd h (nil_append_ne_cons floatFlag (by decide) _ s t)
    · exact absurd h.symm (nil_append_ne_cons floatFlag (by decide) _ t s)
    · -- every double is eight bytes
      exact (List.append_inj h (by simp [encodeFloat, encodeUint])).1
  | string rows =>
    cases hi : rows.getD i none <;> cases hj : rows.getD j none <;>
      simp only [groupKeyPart, hi, hj] at h ⊢
    · exact absurd h (nil_append_ne_cons compactBytesFlag (by decide) _ s t)
    · exact absurd h.symm (nil_append_ne_cons compactBytesFlag (by decide) _ t s)
    · rw [(encodeFlaggedBytes_append_inj (length_lt_of_inDomain hc hi)
        (length_lt_of_inDomain hc hj) h).1]

/-- Two rows have one word exactly when they fall in one group. -/
theorem groupKeyPart_eq_iff {c : EvalColumn} (hc : c.inDomain = true) (i j : Nat) :
    c.groupKeyPart i = c.groupKeyPart j ↔ c.rowsAgree i j = true := by
  cases c with
  | int rows =>
    cases hi : rows.getD i none <;> cases hj : rows.getD j none <;>
      simp only [groupKeyPart, rowsAgree, hi, hj, beq_iff_eq, reduceCtorEq, Option.some.injEq]
    · simp [encodeSignedInt, nilFlag, varintFlag]
    · simp [encodeSignedInt, nilFlag, varintFlag]
    · constructor
      · intro h
        exact (encodeSignedInt_append_inj (s := []) (t := []) (by rw [h])).1
      · rintro rfl
        rfl
  | real rows =>
    cases hi : rows.getD i none <;> cases hj : rows.getD j none <;>
      simp only [groupKeyPart, rowsAgree, hi, hj, reduceCtorEq, List.cons.injEq, true_and]
    · simp [nilFlag, floatFlag]
    · simp [nilFlag, floatFlag]
    · exact encodeFloat_eq_iff (not_isNaN_of_inDomain hc hi) (not_isNaN_of_inDomain hc hj)
  | string rows =>
    cases hi : rows.getD i none <;> cases hj : rows.getD j none <;>
      simp only [groupKeyPart, rowsAgree, hi, hj, beq_iff_eq, reduceCtorEq, Option.some.injEq]
    · simp [encodeFlaggedBytes, nilFlag, compactBytesFlag]
    · simp [encodeFlaggedBytes, nilFlag, compactBytesFlag]
    · constructor
      · intro h
        exact (encodeFlaggedBytes_append_inj (length_lt_of_inDomain hc hi)
          (length_lt_of_inDomain hc hj) (s := []) (t := []) (by rw [h])).1
      · rintro rfl
        rfl

end EvalColumn

/-! ### Keys column by column -/

theorem hashGroupKey_map (n : Nat) (col : EvalColumn) (pre : Nat → Key) :
    hashGroupKey n col ((List.range n).map pre) =
      .ok ((List.range n).map fun i => pre i ++ col.groupKeyPart i) := by
  rw [hashGroupKey, if_neg (by simp)]
  congr 1
  apply List.ext_getElem
  · simp
  · intro i h1 h2
    have hi : i < n := by simpa using h2
    simp [hi]

/-- Each row's key is the words of its values, column after column. -/
theorem groupKeys_eq (n : Nat) (cols : List EvalColumn) :
    groupKeys n cols = .ok ((List.range n).map fun i => (cols.map (·.groupKeyPart i)).flatten) := by
  -- the run over the columns, from any keys of `n` rows
  suffices h : ∀ pre : Nat → Key, cols.foldlM (fun buf col => hashGroupKey n col buf)
      ((List.range n).map pre) =
      .ok ((List.range n).map fun i => pre i ++ (cols.map (·.groupKeyPart i)).flatten) by
    have hinit : List.replicate n ([] : Key) = (List.range n).map fun _ => [] := by simp
    rw [groupKeys, hinit, h]
    simp
  induction cols with
  | nil =>
    intro pre
    simp only [List.foldlM_nil, List.map_nil, List.flatten_nil, List.append_nil]
    rfl
  | cons col cols ih =>
    intro pre
    rw [List.foldlM_cons, hashGroupKey_map]
    change cols.foldlM _ _ = _
    rw [ih]
    simp [List.append_assoc]

/-- The keys `getGroupKey` builds for `n` rows, over columns of values that have words, tell two
rows apart exactly when some column does. -/
theorem groupKeys_injective (n : Nat) (cols : List EvalColumn)
    (hcols : ∀ c ∈ cols, c.inDomain = true) :
    ∃ keys, groupKeys n cols = .ok keys ∧ keys.length = n ∧
      ∀ i < n, ∀ j < n, (keys[i]? = keys[j]? ↔ ∀ c ∈ cols, c.rowsAgree i j = true) := by
  refine ⟨_, groupKeys_eq n cols, by simp, ?_⟩
  intro i hi j hj
  rw [List.getElem?_map, List.getElem?_range hi, List.getElem?_map, List.getElem?_range hj,
    Option.map_some, Option.map_some, Option.some.injEq,
    flatten_map_eq_iff fun c hc _ _ h => EvalColumn.groupKeyPart_prefix (hcols c hc) i j h]
  exact forall₂_congr fun c hc => EvalColumn.groupKeyPart_eq_iff (hcols c hc) i j

/-- `0` and `-0` in one group, an integer column beside them. -/
theorem groupKeys_injective_zeros :
    (∀ c ∈ [EvalColumn.int [some 1, some 1], .real [some 0, some 0x8000000000000000]],
        c.inDomain = true) ∧
      ∃ keys, groupKeys 2 [.int [some 1, some 1], .real [some 0, some 0x8000000000000000]] =
          .ok keys ∧ keys.length = 2 ∧
        ∀ i < 2, ∀ j < 2, (keys[i]? = keys[j]? ↔
          ∀ c ∈ [EvalColumn.int [some 1, some 1], .real [some 0, some 0x8000000000000000]],
            c.rowsAgree i j = true) :=
  ⟨by decide, groupKeys_injective 2 _ (by decide)⟩

/-- A NaN with its sign clear gets the word of a positive double: `math.NaN()` and the double of
bits `0x0007FFFFFFFFFFFE` get one key, though `==` tells them apart. -/
theorem groupKeys_nan_collides :
    groupKeys 2 [.real [some 0x7FF8000000000001, some 0x0007FFFFFFFFFFFE]] =
        .ok [[5, 0x80, 0x07, 0xFF, 0xFF, 0xFF, 0xFF, 0xFF, 0xFE],
          [5, 0x80, 0x07, 0xFF, 0xFF, 0xFF, 0xFF, 0xFF, 0xFE]] ∧
      (EvalColumn.real [some 0x7FF8000000000001, some 0x0007FFFFFFFFFFFE]).rowsAgree 0 1 =
        false := by
  decide

end TinySql.Codec
