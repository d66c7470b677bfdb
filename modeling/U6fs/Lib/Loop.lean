import Mathlib.Tactic.Common

/-!
# Loops without a bound

A `while` loop is a turn repeated until it stops. Nothing bounds the number of turns: a run has a
result when some number of turns is enough, and more of them do not change it. The rule of the loop
takes an invariant that every turn keeps and a measure that every turn lowers.
-/
namespace Lib

/-- What a turn of a loop comes to. -/
inductive Turn (σ ρ : Type) where
  /-- The loop goes on with a new state. -/
  | again (state : σ)
  /-- The loop stops. -/
  | stop (result : ρ)

variable {σ ρ : Type}

/-- The result of a loop that stops within a number of turns. -/
def loop (turn : σ → Turn σ ρ) : Nat → σ → Option ρ
  | 0, _ => none
  | turns + 1, state =>
    match turn state with
    | .again next => loop turn turns next
    | .stop result => some result

/-- More turns than needed do not change the result. -/
theorem loop_more {turn : σ → Turn σ ρ} {turns : Nat} {state : σ} {result : ρ}
    (run : loop turn turns state = some result) {more : Nat} (enough : turns ≤ more) :
    loop turn more state = some result := by
  induction turns generalizing state more with
  | zero => cases run
  | succ turns ih =>
    obtain ⟨more, rfl⟩ : ∃ rest, more = rest + 1 := ⟨more - 1, by omega⟩
    rw [loop] at run ⊢
    cases next : turn state with
    | again state' =>
      rw [next] at run
      exact ih run (by omega)
    | stop result' =>
      rw [next] at run
      exact run

/-- A loop whose turns keep an invariant and lower a measure stops, with a result of which every
turn that stops assures a property. -/
theorem loop_stops {turn : σ → Turn σ ρ} {Inv : σ → Prop} {Post : ρ → Prop} (measure : σ → Nat)
    (again : ∀ state next, Inv state → turn state = .again next →
      Inv next ∧ measure next < measure state)
    (stop : ∀ state result, Inv state → turn state = .stop result → Post result)
    (turns : Nat) {state : σ} (start : Inv state) (enough : measure state < turns) :
    ∃ result, loop turn turns state = some result ∧ Post result := by
  induction turns generalizing state with
  | zero => omega
  | succ turns ih =>
    rw [loop]
    cases outcome : turn state with
    | again next =>
      obtain ⟨kept, lower⟩ := again state next start outcome
      exact ih kept (by omega)
    | stop result => exact ⟨result, rfl, stop state result start outcome⟩

end Lib
