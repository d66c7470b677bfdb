import Mathlib.Tactic.Common

/-!
# Going around an array

A search that starts in the middle of an array and goes on at its beginning meets the places in
the order of their distance from the start. The first of some numbers in this order is the one at
the nearest place, and the smallest one there.
-/
namespace Lib

/-- How many steps a place lies behind a start, going around `length` places. -/
def around (length start place : Nat) : Nat := (place + length - start) % length

section Places

variable {length start : Nat} (inside : start < length)

include inside

/-- Every place is met in one turn. -/
theorem around_lt (place : Nat) : around length start place < length :=
  Nat.mod_lt _ (Nat.zero_lt_of_lt inside)

/-- So many steps lead to the place. -/
theorem step_around {place : Nat} (there : place < length) :
    (start + around length start place) % length = place := by
  rw [around, Nat.add_mod_mod, Nat.add_sub_cancel' (by omega), Nat.add_mod_right,
    Nat.mod_eq_of_lt there]

/-- The steps to the place that some steps lead to. -/
theorem around_step {steps : Nat} (turn : steps < length) :
    around length start ((start + steps) % length) = steps := by
  rw [around]
  by_cases before : start + steps < length
  · rw [Nat.mod_eq_of_lt before, Nat.add_assoc, Nat.add_sub_cancel_left, Nat.add_mod_right,
      Nat.mod_eq_of_lt turn]
  · have behind : (start + steps) % length = start + steps - length := by
      rw [Nat.mod_eq_sub_mod (Nat.not_lt.mp before), Nat.mod_eq_of_lt (by omega)]
    rw [behind, Nat.sub_add_cancel (Nat.not_lt.mp before), Nat.add_sub_cancel_left,
      Nat.mod_eq_of_lt turn]

end Places

/-- The first of the numbers in `numbers`, each of which lies at a place, when the places are met
from `start` on and the numbers of one place in their order. -/
def FirstAround (length start : Nat) (place : Nat → Nat) (numbers : Nat → Prop) (x : Nat) : Prop :=
  numbers x ∧ ∀ y, numbers y →
    around length start (place x) < around length start (place y) ∨
      (around length start (place x) = around length start (place y) ∧ x ≤ y)

/-- There is only one first number. -/
theorem FirstAround.unique {length start x y : Nat} {place : Nat → Nat} {numbers : Nat → Prop}
    (first : FirstAround length start place numbers x)
    (other : FirstAround length start place numbers y) : x = y := by
  have left := first.2 y other.1
  have right := other.2 x first.1
  omega

/-- A search that visits the places in turn finds the first number: none lies at a place visited
before, and no smaller one at its own. -/
theorem FirstAround.of_search {length start steps x : Nat} {place : Nat → Nat}
    {numbers : Nat → Prop} (inside : start < length) (turn : steps < length)
    (bounded : ∀ y, numbers y → place y < length)
    (before : ∀ k < steps, ∀ y, numbers y → place y ≠ (start + k) % length)
    (found : numbers x) (here : place x = (start + steps) % length)
    (least : ∀ y, numbers y → place y = place x → x ≤ y) :
    FirstAround length start place numbers x := by
  refine ⟨found, fun y mem => ?_⟩
  have mine : around length start (place x) = steps := by
    rw [here]
    exact around_step inside turn
  have reach := step_around inside (bounded y mem)
  rw [mine]
  rcases Nat.lt_trichotomy steps (around length start (place y)) with later | same | sooner
  · exact .inl later
  · have shared : place y = place x := by
      rw [← reach, ← same, here]
    exact .inr ⟨same, least y mem shared⟩
  · exact absurd reach.symm (before _ sooner y mem)

end Lib
