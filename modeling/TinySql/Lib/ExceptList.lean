import Mathlib

/-!
# Mapping a fallible function over a list

`List.mapM` in `Except ε` runs the function on each element in order and stops at the first
error. Loops of the source that walk a slice and return on the first failing element are modelled
this way, and their proofs reach the loop only through the facts here: the run succeeds
exactly when every element does, elementwise; one failing element makes the run fail; and a
failed run has a failing element. A loop that folds what it evaluates is, once every evaluation
succeeds, a fold over the evaluated list.

`OkOr E P x` says what a computation may end in: a result with `P`, or an error with `E`. It goes
through `pure`, `bind`, `map` and `mapError`, so that a computation made of steps that each end
so ends so too. A call that leaves its state whether or not it fails returns the pair of the two,
and `errorOr` is what its callers that pass the error on see.
-/

namespace TinySql.Lib

variable {ε α β : Type}

/-- The error of a result, when it is one. -/
def errorOf : Except ε α → Option ε
  | .error e => some e
  | .ok _ => none

@[simp] theorem errorOf_ok (a : α) : errorOf (Except.ok a : Except ε α) = none := rfl

@[simp] theorem errorOf_error (e : ε) : errorOf (Except.error e : Except ε α) = some e := rfl

@[simp] theorem except_bind_ok (a : α) (f : α → Except ε β) :
    ((Except.ok a : Except ε α) >>= f) = f a := rfl

@[simp] theorem except_bind_error (e : ε) (f : α → Except ε β) :
    ((Except.error e : Except ε α) >>= f) = .error e := rfl

/-- A run that succeeds went through a success of its first step. -/
theorem bind_eq_ok {x : Except ε α} {f : α → Except ε β} {b : β} (h : (x >>= f) = .ok b) :
    ∃ a, x = .ok a ∧ f a = .ok b := by
  cases x with
  | error e => cases h
  | ok a => exact ⟨a, rfl, h⟩

/-! ### Outcomes -/

/-- A result with `P`, or an error with `E`. -/
def OkOr (E : ε → Prop) (P : α → Prop) : Except ε α → Prop
  | .ok a => P a
  | .error e => E e

section OkOr

variable {E E' : ε → Prop} {P Q : α → Prop}

@[simp] theorem okOr_ok (a : α) : OkOr E P (.ok a) ↔ P a := Iff.rfl

@[simp] theorem okOr_error (e : ε) : OkOr E P (.error e : Except ε α) ↔ E e := Iff.rfl

@[simp] theorem okOr_pure (a : α) : OkOr E P (pure a : Except ε α) ↔ P a := Iff.rfl

theorem OkOr.imp {x : Except ε α} (h : OkOr E P x) (hP : ∀ a, P a → Q a) : OkOr E Q x := by
  cases x with
  | ok a => exact hP a h
  | error e => exact h

theorem OkOr.bind {x : Except ε α} (hx : OkOr E P x) {f : α → Except ε β} {Q : β → Prop}
    (hf : ∀ a, P a → OkOr E Q (f a)) : OkOr E Q (x >>= f) := by
  cases x with
  | ok a => exact hf a hx
  | error e => exact hx

theorem OkOr.map {x : Except ε α} (hx : OkOr E P x) {f : α → β} {Q : β → Prop}
    (hf : ∀ a, P a → Q (f a)) : OkOr E Q (f <$> x) := by
  cases x with
  | ok a => exact hf a hx
  | error e => exact hx

theorem OkOr.mapError {ε' : Type} {E' : ε' → Prop} {x : Except ε α} (hx : OkOr E P x)
    {f : ε → ε'} (hf : ∀ e, E e → E' (f e)) : OkOr E' P (x.mapError f) := by
  cases x with
  | ok a => exact hx
  | error e => exact hf e hx

theorem OkOr.of_eq_ok {x : Except ε α} (h : OkOr E P x) {a : α} (hx : x = .ok a) : P a := by
  subst hx
  exact h

/-- A computation known to succeed ends as its result says. -/
theorem okOr_of_eq_ok {x : Except ε α} {a : α} (hx : x = .ok a) (ha : P a) : OkOr E P x := by
  subst hx
  exact ha

end OkOr

/-- The state a call leaves with the error it returns, as the callers that pass the error on see
it: the state of a failed call is dropped. -/
def errorOr : α × Option ε → Except ε α
  | (a, none) => .ok a
  | (_, some e) => .error e

@[simp] theorem errorOr_none (a : α) : errorOr ((a, none) : α × Option ε) = .ok a := rfl

@[simp] theorem errorOr_some (a : α) (e : ε) : errorOr (a, some e) = .error e := rfl

theorem okOr_errorOr {E : ε → Prop} {P : α → Prop} {p : α × Option ε}
    (herr : ∀ e, p.2 = some e → E e) (hok : p.2 = none → P p.1) : OkOr E P (errorOr p) := by
  obtain ⟨a, _ | e⟩ := p
  · exact hok rfl
  · exact herr e rfl

theorem mapM_ok_iff_forall₂ (f : α → Except ε β) (l : List α) (res : List β) :
    l.mapM f = .ok res ↔ List.Forall₂ (fun a b => f a = .ok b) l res := by
  induction l generalizing res with
  | nil => cases res <;> simp [pure, Except.pure]
  | cons a l ih =>
    rw [List.mapM_cons]
    -- the head's outcome decides the bind; on success the tail's outcome decides the rest
    cases hfa : f a with
    | error e => cases res <;> simp [bind, Except.bind, hfa]
    | ok b =>
      cases hl : l.mapM f with
      | error e => cases res <;> simp [bind, Except.bind, ← ih, hl]
      | ok bs => cases res <;> simp [bind, Except.bind, pure, Except.pure, ← ih, hl, hfa]

theorem mapM_ok_of_forall (f : α → Except ε β) (l : List α) (h : ∀ a ∈ l, ∃ b, f a = .ok b) :
    ∃ res, l.mapM f = .ok res := by
  induction l with
  | nil => exact ⟨[], rfl⟩
  | cons a l ih =>
    obtain ⟨b, hb⟩ := h a (List.mem_cons_self ..)
    obtain ⟨bs, hbs⟩ := ih fun a' ha' => h a' (List.mem_cons_of_mem _ ha')
    exact ⟨b :: bs, by simp [List.mapM_cons, hb, hbs, bind, Except.bind, pure, Except.pure]⟩

/-- Each result of a successful run is the function's result on an element. -/
theorem mapM_ok_mem {f : α → Except ε β} {l : List α} {res : List β} (h : l.mapM f = .ok res)
    {b : β} (hb : b ∈ res) : ∃ a ∈ l, f a = .ok b := by
  obtain ⟨hlen, hzip⟩ := List.forall₂_iff_zip.mp ((mapM_ok_iff_forall₂ f l res).mp h)
  obtain ⟨i, hi, rfl⟩ := List.getElem_of_mem hb
  have hil : i < l.length := by omega
  refine ⟨l[i], List.getElem_mem hil, hzip ?_⟩
  rw [List.mem_iff_getElem]
  exact ⟨i, by simp; omega, by simp⟩

/-- Each element of a successful run has its result among the results. -/
theorem mapM_ok_of_mem {f : α → Except ε β} {l : List α} {res : List β} (h : l.mapM f = .ok res)
    {a : α} (ha : a ∈ l) : ∃ b ∈ res, f a = .ok b := by
  obtain ⟨hlen, hzip⟩ := List.forall₂_iff_zip.mp ((mapM_ok_iff_forall₂ f l res).mp h)
  obtain ⟨i, hi, rfl⟩ := List.getElem_of_mem ha
  have hir : i < res.length := by omega
  refine ⟨res[i], List.getElem_mem hir, hzip ?_⟩
  rw [List.mem_iff_getElem]
  exact ⟨i, by simp; omega, by simp⟩

/-- A successful run maps every element as that element's result says. -/
theorem mapM_ok_map {γ : Type} {f : α → Except ε β} {l : List α} {res : List β}
    (h : l.mapM f = .ok res) (g : β → γ) (k : α → γ) (hk : ∀ a b, f a = .ok b → g b = k a) :
    res.map g = l.map k := by
  induction l generalizing res with
  | nil =>
    cases res with
    | nil => rfl
    | cons b res => simp [pure, Except.pure] at h
  | cons a l ih =>
    rw [List.mapM_cons] at h
    obtain ⟨b, hb, hrest⟩ := bind_eq_ok h
    obtain ⟨bs, hbs, hres⟩ := bind_eq_ok hrest
    cases hres
    rw [List.map_cons, List.map_cons, hk a b hb, ih hbs]

/-- A relation that holds between elements holds between their results, when the function carries
it over. -/
theorem mapM_ok_pairwise {R : α → α → Prop} {S : β → β → Prop} {f : α → Except ε β} {l : List α}
    {res : List β} (h : l.mapM f = .ok res) (hl : l.Pairwise R)
    (hf : ∀ a a' b b', f a = .ok b → f a' = .ok b' → R a a' → S b b') : res.Pairwise S := by
  induction l generalizing res with
  | nil =>
    cases h
    exact List.Pairwise.nil
  | cons a l ih =>
    rw [List.mapM_cons] at h
    obtain ⟨b, hb, hrest⟩ := bind_eq_ok h
    obtain ⟨bs, hbs, hres⟩ := bind_eq_ok hrest
    cases hres
    rw [List.pairwise_cons] at hl ⊢
    refine ⟨fun b' hb' => ?_, ih hbs hl.2⟩
    obtain ⟨a', ha', hfa'⟩ := mapM_ok_mem hbs hb'
    exact hf a a' b b' hb hfa' (hl.1 a' ha')

theorem mapM_error_of_mem (f : α → Except ε β) {l : List α} {a : α} {e : ε} (ha : a ∈ l)
    (hfa : f a = .error e) : ∃ e', l.mapM f = .error e' := by
  induction l with
  | nil => cases ha
  | cons a' l ih =>
    rw [List.mapM_cons]
    cases hfa' : f a' with
    | error e' => exact ⟨e', by simp [bind, Except.bind]⟩
    | ok b =>
      have hl : a ∈ l := by
        rcases List.mem_cons.mp ha with rfl | hl
        · rw [hfa] at hfa'
          cases hfa'
        · exact hl
      obtain ⟨e', he'⟩ := ih hl
      exact ⟨e', by simp [bind, Except.bind, he']⟩

/-- A fold that evaluates each element before its step is the fold over the evaluated list, when
every evaluation succeeds. -/
theorem foldlM_bind_of_mapM {σ : Type} {f : α → Except ε β} {l : List α} {xs : List β}
    (h : l.mapM f = .ok xs) (step : σ → β → Except ε σ) (init : σ) :
    l.foldlM (fun acc a => do step acc (← f a)) init = xs.foldlM step init := by
  induction l generalizing xs init with
  | nil =>
    cases h
    rfl
  | cons a l ih =>
    rw [List.mapM_cons] at h
    obtain ⟨b, hb, hrest⟩ := bind_eq_ok h
    obtain ⟨bs, hbs, hxs⟩ := bind_eq_ok hrest
    cases hxs
    rw [List.foldlM_cons, List.foldlM_cons, hb, except_bind_ok]
    cases step init b with
    | error e => rfl
    | ok s => exact ih hbs s

end TinySql.Lib
