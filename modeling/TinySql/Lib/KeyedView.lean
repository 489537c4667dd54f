import TinySql.Lib.SortedAssoc

/-!
# A map read through an encoding of its keys

A map `m : κ → Option β` holds a partial view `v : ι → Option γ` when the key `key i` of each index
holds the encoding of the view's value there, and nothing where the view has none (`Encodes`); that
the map has values at chosen keys only is `Covers`. With `key` injective, an update of the map at
`key i` is an update of the view at `i` (`Encodes.update`), an update at a key no index is encoded
as leaves the view as it is (`Encodes.update_of_ne`), and an emptied map holds the empty view.
A listing of such a map in the order of its keys lists the view, each index once
(`Enumerates.view`).
-/

namespace TinySql.Lib

variable {ι κ β γ : Type*}

/-- The map `m` holds at `key i` the encoding by `enc` of the view's value at `i`. -/
def Encodes (m : κ → Option β) (key : ι → κ) (enc : γ → β) (v : ι → Option γ) : Prop :=
  ∀ i, m (key i) = (v i).map enc

/-- The map `m` has values at the keys of `S` only. -/
def Covers (m : κ → Option β) (S : Set κ) : Prop :=
  ∀ k, m k ≠ none → k ∈ S

section Encodes

variable {m : κ → Option β} {key : ι → κ} {enc : γ → β} {v : ι → Option γ}

theorem Encodes.update [DecidableEq ι] [DecidableEq κ] (h : Encodes m key enc v)
    (hkey : key.Injective) (i : ι) (g : Option γ) :
    Encodes (Function.update m (key i) (g.map enc)) key enc (Function.update v i g) := by
  intro j
  by_cases hj : j = i
  · subst hj
    simp
  · rw [Function.update_of_ne (hkey.ne hj), Function.update_of_ne hj]
    exact h j

theorem Encodes.update_of_ne [DecidableEq κ] (h : Encodes m key enc v) {k : κ}
    (hk : ∀ i, key i ≠ k) (b : Option β) : Encodes (Function.update m k b) key enc v := by
  intro i
  rw [Function.update_of_ne (hk i)]
  exact h i

theorem encodes_none (key : ι → κ) (enc : γ → β) :
    Encodes (fun _ => (none : Option β)) key enc fun _ => none :=
  fun _ => rfl

end Encodes

section Covers

variable {m : κ → Option β} {S : Set κ}

theorem Covers.update [DecidableEq κ] (h : Covers m S) {k : κ} (hk : k ∈ S) (b : Option β) :
    Covers (Function.update m k b) S := by
  intro k' hk'
  by_cases he : k' = k
  · exact he ▸ hk
  · rw [Function.update_of_ne he] at hk'
    exact h k' hk'

theorem covers_none (S : Set κ) : Covers (fun _ => (none : Option β)) S :=
  fun _ hk => absurd rfl hk

end Covers

section Listings

variable {m : κ → Option β} {cmp : κ → κ → Ordering} {out : List (κ × β)}

/-- Keeping the pairs whose key passes `p` lists the map cut down to those keys. -/
theorem Enumerates.filter (hout : Enumerates cmp out m) (p : κ → Bool) :
    Enumerates cmp (out.filter fun e => p e.1) fun k => if p k then m k else none := by
  refine ⟨hout.1.sublist List.filter_sublist, fun k b => ?_⟩
  rw [List.mem_filter, hout.2]
  by_cases hk : p k <;> simp [hk]

/-- A listing of a map that holds an encoded view, at the keys of its indices only, lists the view:
each index with a value once, in the order of its key. -/
theorem Enumerates.view [Nonempty ι] {key : ι → κ} {enc : γ → β} {v : ι → Option γ}
    (hout : Enumerates cmp out m) (hc : Covers m (Set.range key)) (henc : Encodes m key enc v)
    (hkey : key.Injective) :
    ∃ is : List ι, List.Forall₂ (fun i b => (v i).map enc = some b) is (out.map Prod.snd) ∧
      is.Pairwise (fun i j => cmp (key i) (key j) = .lt) ∧ ∀ i, i ∈ is ↔ (v i).isSome := by
  -- every key listed is the key of an index, and `invFun` finds it
  have hinv : ∀ e ∈ out, key (Function.invFun key e.1) = e.1 := fun e he =>
    Function.invFun_eq (hc e.1 (by rw [(hout.2 e.1 e.2).mp he]; exact Option.some_ne_none e.2))
  refine ⟨out.map fun e => Function.invFun key e.1, ?_, ?_, fun i => ?_⟩
  · rw [List.forall₂_map_left_iff, List.forall₂_map_right_iff, List.forall₂_same]
    intro e he
    rw [← henc, hinv e he]
    exact (hout.2 e.1 e.2).mp he
  · rw [List.pairwise_map]
    exact hout.1.imp_of_mem fun ha hb hab => by rw [hinv _ ha, hinv _ hb]; exact hab
  · rw [List.mem_map]
    constructor
    · rintro ⟨e, he, rfl⟩
      have hm := (hout.2 e.1 e.2).mp he
      rw [← hinv e he, henc] at hm
      simpa using congrArg Option.isSome hm
    · intro hi
      obtain ⟨g, hg⟩ := Option.isSome_iff_exists.mp hi
      exact ⟨(key i, enc g), (hout.2 _ _).mpr (by rw [henc, hg]; rfl), Function.leftInverse_invFun hkey i⟩

end Listings

end TinySql.Lib
