import Mathlib.Data.List.Forall2
import Mathlib.Data.Set.Basic

/-!
# Lists equal up to rewrites

A list `l` agrees with `l'` up to `W` when both have one length and each value of `l` is the value
of `l'` at its position or one of `W` (`Forall₂ (UpTo W) l l'`). A queue whose elements may be
rewritten in place keeps that relation with the list of what was put in: a rewrite at one position
puts a value of `W` there (`forall₂_upTo_set`), and the relation composes (`Forall₂.upTo_trans`), so
it lasts over a whole run. With nothing rewritten it is equality.
-/

namespace TinySql.Lib

variable {α : Type*} {W W' : Set α} {a b c : α}

/-- `a` is `b`, or one of the values of `W`. -/
def UpTo (W : Set α) (a b : α) : Prop :=
  a = b ∨ a ∈ W

@[simp] theorem upTo_refl (W : Set α) (a : α) : UpTo W a a :=
  Or.inl rfl

theorem UpTo.trans (hab : UpTo W a b) (hbc : UpTo W b c) : UpTo W a c := by
  rcases hab with rfl | ha
  · exact hbc
  · exact Or.inr ha

theorem UpTo.mono (h : UpTo W a b) (hW : W ⊆ W') : UpTo W' a b :=
  h.imp_right fun ha => hW ha

section Lists

variable {l₁ l₂ l₃ : List α}

theorem forall₂_upTo_refl (W : Set α) (l : List α) : List.Forall₂ (UpTo W) l l :=
  List.forall₂_same.mpr fun a _ => upTo_refl W a

theorem Forall₂.upTo_trans (h₁ : List.Forall₂ (UpTo W) l₁ l₂) (h₂ : List.Forall₂ (UpTo W) l₂ l₃) :
    List.Forall₂ (UpTo W) l₁ l₃ := by
  induction h₁ generalizing l₃ with
  | nil =>
    cases h₂
    exact .nil
  | cons hab _ ih =>
    cases h₂ with
    | cons hbc h₂ => exact .cons (hab.trans hbc) (ih h₂)

theorem Forall₂.upTo_mono (h : List.Forall₂ (UpTo W) l₁ l₂) (hW : W ⊆ W') :
    List.Forall₂ (UpTo W') l₁ l₂ :=
  h.imp fun _ _ hab => hab.mono hW

/-- Rewriting one position with a value of `W` keeps a list equal to itself up to `W`. -/
theorem forall₂_upTo_set (l : List α) (j : Nat) (ha : a ∈ W) : List.Forall₂ (UpTo W) (l.set j a) l := by
  induction l generalizing j with
  | nil => exact .nil
  | cons x l ih =>
    cases j with
    | zero => exact .cons (Or.inr ha) (forall₂_upTo_refl W l)
    | succ j => exact .cons (upTo_refl W x) (ih j)

end Lists

end TinySql.Lib
