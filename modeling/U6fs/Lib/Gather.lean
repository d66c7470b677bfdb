import Mathlib.Data.List.Basic
import Mathlib.Tactic.Common

/-!
# Reading piece by piece

A sequence of pieces is read one after the other until one fails. What was read is the
concatenation of the pieces before the failing one. The rules split a sequence in two: the second
part is read exactly when no piece of the first one fails.
-/
namespace Lib

variable {α ε : Type}

/-- What is read of a sequence of pieces, and the error that ends it, if one does. -/
def gather : List (Except ε (List α)) → List α × Option ε
  | [] => ([], none)
  | .error code :: _ => ([], some code)
  | .ok piece :: rest => (piece ++ (gather rest).1, (gather rest).2)

/-- The second part of a sequence is read when the first one has no failing piece. -/
theorem gather_append (first second : List (Except ε (List α))) :
    gather (first ++ second) =
      match (gather first).2 with
      | some _ => gather first
      | none => ((gather first).1 ++ (gather second).1, (gather second).2) := by
  induction first with
  | nil => rfl
  | cons piece rest ih =>
    cases piece with
    | error code => rfl
    | ok piece =>
      simp only [List.cons_append, gather, ih]
      cases tail : (gather rest).2 with
      | some code => simp only [tail]
      | none => simp only [List.append_assoc]

/-- Pieces that are all there are read one after another. -/
theorem gather_ok (pieces : List (List α)) :
    gather (pieces.map (.ok : List α → Except ε (List α))) = (pieces.flatten, none) := by
  induction pieces with
  | nil => rfl
  | cons piece rest ih => rw [List.map_cons, gather, ih, List.flatten_cons]

/-- Where nothing stops the reading, no piece fails. -/
theorem gather_none {pieces : List (Except ε (List α))} (none : (gather pieces).2 = none)
    {code : ε} : .error code ∉ pieces := by
  induction pieces with
  | nil => exact List.not_mem_nil
  | cons piece rest ih =>
    cases piece with
    | error other =>
      rw [gather] at none
      cases none
    | ok piece =>
      intro mem
      rcases List.mem_cons.mp mem with absurdity | mem
      · cases absurdity
      · exact ih none mem

/-- Nothing stops the reading of pieces of which none fails. -/
theorem gather_whole {pieces : List (Except ε (List α))} (whole : ∀ code, .error code ∉ pieces) :
    (gather pieces).2 = none := by
  induction pieces with
  | nil => rfl
  | cons piece rest ih =>
    cases piece with
    | error code => exact absurd List.mem_cons_self (whole code)
    | ok piece => exact ih fun code mem => whole code (List.mem_cons_of_mem _ mem)

/-- An error is that of a piece. -/
theorem gather_error {pieces : List (Except ε (List α))} {code : ε}
    (failed : (gather pieces).2 = some code) : .error code ∈ pieces := by
  induction pieces with
  | nil => cases failed
  | cons piece rest ih =>
    cases piece with
    | error other =>
      cases failed
      exact List.mem_cons_self
    | ok piece => exact List.mem_cons_of_mem _ (ih failed)

/-- Pieces of one width: what is read has at most that width for each piece, and exactly that
when none fails. -/
theorem gather_length {width : Nat} {pieces : List (Except ε (List α))}
    (sized : ∀ piece, .ok piece ∈ pieces → piece.length = width) :
    (gather pieces).1.length ≤ width * pieces.length ∧
      ((gather pieces).2 = none → (gather pieces).1.length = width * pieces.length) := by
  induction pieces with
  | nil => exact ⟨Nat.le_refl _, fun _ => rfl⟩
  | cons piece rest ih =>
    have tail := ih fun other mem => sized other (List.mem_cons_of_mem _ mem)
    cases piece with
    | error code => exact ⟨Nat.zero_le _, fun none => by cases none⟩
    | ok piece =>
      have head := sized piece List.mem_cons_self
      simp only [gather, List.length_append, List.length_cons, head, Nat.mul_add, Nat.mul_one]
      exact ⟨by omega, fun none => by have := tail.2 none; omega⟩

/-- Pieces of one width, one after the other, by position. -/
theorem flatMap_range_getElem? {width count : Nat} {piece : Nat → List α}
    (sized : ∀ k < count, (piece k).length = width) {i : Nat} (inside : i < width * count) :
    ((List.range count).flatMap piece)[i]? = (piece (i / width))[i % width]? := by
  induction count with
  | zero => exact absurd inside (Nat.not_lt_zero i)
  | succ count ih =>
    have before : ((List.range count).flatMap piece).length = width * count := by
      rw [List.length_flatMap, List.map_congr_left fun k mem =>
        sized k (Nat.lt_succ_of_lt (List.mem_range.mp mem)), List.map_const', List.length_range,
        List.sum_replicate_nat, Nat.mul_comm]
    rw [List.range_succ, List.flatMap_append, List.flatMap_singleton]
    by_cases early : i < width * count
    · rw [List.getElem?_append_left (by omega)]
      exact ih (fun k small => sized k (Nat.lt_succ_of_lt small)) early
    · have place : i = width * count + (i - width * count) := by
        omega
      have short : i - width * count < width := by
        rw [Nat.mul_succ] at inside
        omega
      have block : i / width = count := by
        rw [place, Nat.mul_add_div (by omega), Nat.div_eq_of_lt short, Nat.add_zero]
      have rest : i % width = i - width * count := by
        conv_lhs => rw [place]
        rw [Nat.mul_add_mod, Nat.mod_eq_of_lt short]
      rw [List.getElem?_append_right (by omega), before, block, rest]

end Lib
