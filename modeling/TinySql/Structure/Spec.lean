import TinySql.Structure.Store

/-!
# What the structures hold

The abstract layer of `structure/`: under every key a structure holds a string, a hash from fields
to values, and a list. `Content.apply` says what each writing operation does to that and what it
answers, and where it fails: an empty value, which the store refuses; an increment of a value that
is not a decimal integer; a list index outside the list. A negative list index counts from the
right end (`listPosition`).

`TxStructure.apply` runs the same operation on the store. That it refines `Content.apply` is the
subject of the next modules.
-/

namespace TinySql.Structure

open TinySql.Codec TinySql.Lib

/-- The content of a structure: a string, a hash and a list under every key. -/
@[ext]
structure Content where
  string : List (Fin 256) → Option (List (Fin 256))
  hash : List (Fin 256) → List (Fin 256) → Option (List (Fin 256))
  list : List (Fin 256) → List (List (Fin 256))

/-- The writing operations of a structure. -/
inductive Op
  | set (key value : List (Fin 256))
  | inc (key : List (Fin 256)) (step : Int64)
  | clear (key : List (Fin 256))
  | hSet (key field value : List (Fin 256))
  | hInc (key field : List (Fin 256)) (step : Int64)
  | hDel (key : List (Fin 256)) (fields : List (List (Fin 256)))
  | hClear (key : List (Fin 256))
  | lPush (key : List (Fin 256)) (values : List (List (Fin 256)))
  | rPush (key : List (Fin 256)) (values : List (List (Fin 256)))
  | lPop (key : List (Fin 256))
  | rPop (key : List (Fin 256))
  | lSet (key : List (Fin 256)) (index : Int64) (value : List (Fin 256))
  | lClear (key : List (Fin 256))
  deriving DecidableEq, Repr

/-- What an operation answers: the integer of an increment, the element of a pop. -/
inductive Reply
  | done
  | int (n : Int64)
  | elem (v : Option (List (Fin 256)))
  deriving DecidableEq, Repr

/-- How many values an operation may add: the room it needs in the int64 counts and indices. -/
def Op.size : Op → Nat
  | .hSet .. | .hInc .. => 1
  | .lPush _ values | .rPush _ values => values.length
  | _ => 0

/-- The position an index names in a list of `n` elements, a negative one counting from the end. -/
def listPosition (n : Nat) (index : Int64) : Option Nat :=
  let j : Int := if 0 ≤ index.toInt then index.toInt else n + index.toInt
  if 0 ≤ j ∧ j < n then some j.toNat else none

/-- The integer an increment adds `step` to: `0` for a missing value, none for one that is not a
decimal integer. -/
def incBase (old : Option (List (Fin 256))) (step : Int64) : Option Int64 :=
  match old with
  | none => some step
  | some v =>
    match Types.parseInt10 v with
    | (n, none) => some (n + step)
    | (_, some _) => none

namespace Content

def empty : Content :=
  ⟨fun _ => none, fun _ _ => none, fun _ => []⟩

def setString (c : Content) (key : List (Fin 256)) (v : Option (List (Fin 256))) : Content :=
  { c with string := Function.update c.string key v }

def setHash (c : Content) (key : List (Fin 256))
    (m : List (Fin 256) → Option (List (Fin 256))) : Content :=
  { c with hash := Function.update c.hash key m }

def setField (c : Content) (key field : List (Fin 256)) (v : Option (List (Fin 256))) : Content :=
  c.setHash key (Function.update (c.hash key) field v)

def clearHash (c : Content) (key : List (Fin 256)) : Content :=
  c.setHash key fun _ => none

def setList (c : Content) (key : List (Fin 256)) (xs : List (List (Fin 256))) : Content :=
  { c with list := Function.update c.list key xs }

/-- What an operation does to the content and answers; `none` where it fails. -/
def apply (c : Content) : Op → Option (Reply × Content)
  | .set key value => if value = [] then none else some (.done, c.setString key (some value))
  | .inc key step =>
    (incBase (c.string key) step).map fun n =>
      (.int n, c.setString key (some (Expression.formatInt n.toInt)))
  | .clear key => some (.done, c.setString key none)
  | .hSet key field value =>
    -- an empty value over a missing field is no change; over a present one it is refused
    if value = [] then (if c.hash key field = none then some (.done, c) else none)
    else some (.done, c.setField key field (some value))
  | .hInc key field step =>
    (incBase (c.hash key field) step).map fun n =>
      (.int n, c.setField key field (some (Expression.formatInt n.toInt)))
  | .hDel key fields => some (.done, fields.foldl (fun c field => c.setField key field none) c)
  | .hClear key => some (.done, c.clearHash key)
  | .lPush key values =>
    if [] ∈ values then none else some (.done, c.setList key (values.reverse ++ c.list key))
  | .rPush key values =>
    if [] ∈ values then none else some (.done, c.setList key (c.list key ++ values))
  | .lPop key => some (.elem (c.list key).head?, c.setList key (c.list key).tail)
  | .rPop key => some (.elem (c.list key).getLast?, c.setList key (c.list key).dropLast)
  | .lSet key index value =>
    if c.list key = [] then some (.done, c)
    else
      match listPosition (c.list key).length index with
      | none => none
      | some i => if value = [] then none else some (.done, c.setList key ((c.list key).set i value))
  | .lClear key => some (.done, c.setList key [])

@[simp] theorem setList_list (c : Content) (key : List (Fin 256)) (xs : List (List (Fin 256))) :
    (c.setList key xs).list key = xs := by
  simp [setList]

theorem setList_setList (c : Content) (key : List (Fin 256)) (xs ys : List (List (Fin 256))) :
    (c.setList key xs).setList key ys = c.setList key ys := by
  simp [setList]

theorem setList_self (c : Content) (key : List (Fin 256)) : c.setList key (c.list key) = c := by
  simp [setList]

theorem setField_hash (c : Content) (key field : List (Fin 256)) (v : Option (List (Fin 256)))
    (key' field' : List (Fin 256)) :
    (c.setField key field v).hash key' field' =
      if key' = key ∧ field' = field then v else c.hash key' field' := by
  by_cases hk : key' = key
  · subst hk
    by_cases hf : field' = field <;> simp [setField, setHash, hf]
  · simp [setField, setHash, hk]

theorem setHash_setHash (c : Content) (key : List (Fin 256))
    (m m' : List (Fin 256) → Option (List (Fin 256))) :
    (c.setHash key m).setHash key m' = c.setHash key m' := by
  simp [setHash]

/-- Deleting fields one after another deletes all of them at once. -/
theorem foldl_setField_none (key : List (Fin 256)) :
    ∀ (fields : List (List (Fin 256))) (c : Content),
      fields.foldl (fun c field => c.setField key field none) c =
        c.setHash key fun f => if f ∈ fields then none else c.hash key f
  | [], c => by
    ext1
    · rfl
    · simp [setHash]
    · rfl
  | field :: fields, c => by
    rw [List.foldl_cons, foldl_setField_none key fields, setField, setHash_setHash]
    congr 1
    funext f
    by_cases hf : f = field <;> simp [hf, setHash]

/-- A run of operations, with their answers; `none` once one fails. -/
def run (c : Content) : List Op → Option (List Reply × Content)
  | [] => some ([], c)
  | op :: ops => do
    let (r, c) ← c.apply op
    let (rs, c) ← run c ops
    return (r :: rs, c)

end Content

namespace TxStructure

/-- An operation on the store, by the function of `structure/` that does it. -/
def apply (t : TxStructure) : Op → Except ListError (Reply × TxStructure)
  | .set key value => ((.done, ·)) <$> (t.set key value).mapError .structure
  | .inc key step => (fun r => (.int r.1, r.2)) <$> (t.inc key step).mapError .structure
  | .clear key => ((.done, ·)) <$> (t.clear key).mapError .structure
  | .hSet key field value => ((.done, ·)) <$> (t.hSet key field value).mapError .structure
  | .hInc key field step => (fun r => (.int r.1, r.2)) <$> (t.hInc key field step).mapError .structure
  | .hDel key fields => ((.done, ·)) <$> (t.hDel key fields).mapError .structure
  | .hClear key => ((.done, ·)) <$> (t.hClear key).mapError .structure
  | .lPush key values => ((.done, ·)) <$> t.lPush key values
  | .rPush key values => ((.done, ·)) <$> t.rPush key values
  | .lPop key => (fun r => (.elem r.1, r.2)) <$> t.lPop key
  | .rPop key => (fun r => (.elem r.1, r.2)) <$> t.rPop key
  | .lSet key index value => ((.done, ·)) <$> t.lSet key index value
  | .lClear key => ((.done, ·)) <$> t.lClear key

/-- A run of operations on the store, with their answers, up to the first error. -/
def run (t : TxStructure) : List Op → Except ListError (List Reply × TxStructure)
  | [] => .ok ([], t)
  | op :: ops => do
    let (r, t) ← t.apply op
    let (rs, t) ← run t ops
    return (r :: rs, t)

end TxStructure

end TinySql.Structure
