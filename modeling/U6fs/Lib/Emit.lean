import Mathlib.Data.List.Basic
import Mathlib.Tactic.Common

/-!
# Loops that emit

A loop takes a step for every index in turn. Each step leaves a code and emits some values, and the
loop stops at the first code that fails. What a loop emits that runs to its end is what its steps
emit, one after another.
-/
namespace Lib

variable {ι ε α : Type}

/-- The steps for a list of indices: the first failing code, or `done`, and what was emitted. -/
def emitAll (fails : ε → Bool) (done : ε) (step : ι → ε × List α) : List ι → ε × List α
  | [] => (done, [])
  | i :: rest =>
    if fails (step i).1 then step i
    else ((emitAll fails done step rest).1, (step i).2 ++ (emitAll fails done step rest).2)

/-- A loop that runs to its end emits what its steps do. -/
theorem emitAll_done {fails : ε → Bool} {done : ε} {step : ι → ε × List α}
    (fine : fails done = false) {indices : List ι} {emitted : List α}
    (run : emitAll fails done step indices = (done, emitted)) :
    (∀ i ∈ indices, fails (step i).1 = false) ∧ emitted = indices.flatMap fun i => (step i).2 := by
  induction indices generalizing emitted with
  | nil =>
    cases run
    refine ⟨?_, rfl⟩
    intro i mem
    cases mem
  | cons i rest ih =>
    rw [emitAll] at run
    cases failed : fails (step i).1 with
    | true =>
      rw [failed, if_pos rfl] at run
      rw [run, fine] at failed
      cases failed
    | false =>
      rw [failed, if_neg Bool.false_ne_true] at run
      obtain ⟨code, values⟩ := Prod.mk.inj run
      have tail : emitAll fails done step rest = (done, (emitAll fails done step rest).2) :=
        Prod.ext code rfl
      have each := ih tail
      refine ⟨fun j mem => ?_, ?_⟩
      · rcases List.mem_cons.mp mem with rfl | mem
        · exact failed
        · exact each.1 j mem
      · rw [← values, List.flatMap_cons]
        exact congrArg _ each.2

/-- What holds of `done` and of the failing codes of the steps holds of the code of the loop. -/
theorem emitAll_code {fails : ε → Bool} {done : ε} {step : ι → ε × List α} {P : ε → Prop}
    {indices : List ι} (ends : P done)
    (stops : ∀ i ∈ indices, fails (step i).1 = true → P (step i).1) :
    P (emitAll fails done step indices).1 := by
  induction indices with
  | nil => exact ends
  | cons i rest ih =>
    rw [emitAll]
    by_cases failed : fails (step i).1 = true
    · rw [if_pos failed]
      exact stops i List.mem_cons_self failed
    · rw [if_neg failed]
      exact ih fun j mem => stops j (List.mem_cons_of_mem i mem)

/-- A loop none of whose steps fails emits what its steps do. -/
theorem emitAll_runs {fails : ε → Bool} {done : ε} {step : ι → ε × List α} {indices : List ι}
    (fine : ∀ i ∈ indices, fails (step i).1 = false) :
    emitAll fails done step indices = (done, indices.flatMap fun i => (step i).2) := by
  induction indices with
  | nil => rfl
  | cons i rest ih =>
    have first : ¬fails (step i).1 = true := by
      rw [fine i List.mem_cons_self]
      exact Bool.false_ne_true
    rw [emitAll, if_neg first, ih fun j mem => fine j (List.mem_cons_of_mem i mem),
      List.flatMap_cons]

/-- Emitting the indices with a property selects them. -/
theorem flatMap_select (p : ι → Bool) (indices : List ι) :
    (indices.flatMap fun i => if p i then [i] else []) = indices.filter p := by
  induction indices with
  | nil => rfl
  | cons i rest ih =>
    rw [List.flatMap_cons, ih]
    cases is : p i with
    | true => rw [List.filter_cons_of_pos is, if_pos rfl, List.singleton_append]
    | false =>
      rw [List.filter_cons_of_neg (by rw [is]; decide), if_neg Bool.false_ne_true,
        List.nil_append]

/-- The values of a grid, row by row. -/
theorem flatMap_grid (values : Nat → List α) (width rows : Nat) :
    ((List.range rows).flatMap fun k => (List.range width).flatMap fun j =>
      values (width * k + j)) = (List.range (width * rows)).flatMap values := by
  induction rows with
  | zero => rw [Nat.mul_zero, List.range_zero, List.flatMap_nil, List.flatMap_nil]
  | succ rows ih =>
    rw [List.range_succ, List.flatMap_append, ih, List.flatMap_singleton, Nat.mul_succ,
      List.range_add, List.flatMap_append, List.flatMap_map]

/-- Rows of consecutive numbers, of which those with a property are emitted. -/
theorem flatMap_rows (p : Nat → Bool) (width rows : Nat) :
    ((List.range rows).flatMap fun k => (List.range width).flatMap fun j =>
      if p (width * k + j + 1) then [width * k + j + 1] else []) =
      (List.range' 1 (width * rows)).filter p := by
  have numbers : (List.range (width * rows)).map (fun i => i + 1) =
      List.range' 1 (width * rows) := by
    rw [List.range'_eq_map_range]
    apply List.map_congr_left
    intro i _
    exact Nat.add_comm i 1
  have grid := flatMap_grid (fun i => if p (i + 1) then [i + 1] else []) width rows
  rw [grid, ← flatMap_select, ← numbers, List.flatMap_map]

end Lib
