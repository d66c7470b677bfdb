import Mathlib.Tactic.Common

/-!
# Loops over lists

Rules for a loop whose body returns a new state or an error. When a body succeeds exactly on the
good elements, whatever the state, so does the loop on the lists of good ones; and what every round
relates, the loop relates. A loop that keeps the last value written to it holds just that.
-/
namespace Lib

/-- A register after some elements, each of which may write it, holds what was written last. -/
theorem foldl_register {α β : Type} (writes : α → Option β) (values : List α) (start : β) :
    values.foldl (fun held value => (writes value).getD held) start =
      (values.filterMap writes).getLast?.getD start := by
  induction values generalizing start with
  | nil => rfl
  | cons value values ih =>
    rw [List.foldl_cons, ih, List.filterMap_cons]
    cases writes value with
    | none => rfl
    | some new =>
      simp only [Option.getD_some, List.getLast?_cons]

variable {σ α ε : Type} (step : σ → α → Except ε σ) (Inv : σ → Prop)

/-- The loop succeeds exactly when every element is one the body succeeds on. -/
theorem foldlM_ok_iff {Good : α → Prop}
    (keeps : ∀ s a s', Inv s → step s a = .ok s' → Inv s')
    (good : ∀ s a, Inv s → ((∃ s', step s a = .ok s') ↔ Good a))
    (values : List α) {s : σ} (start : Inv s) :
    (∃ s', values.foldlM step s = .ok s') ↔ ∀ a ∈ values, Good a := by
  induction values generalizing s with
  | nil => simp [pure, Except.pure]
  | cons value values ih =>
    simp only [List.foldlM_cons, List.forall_mem_cons]
    cases first : step s value with
    | error code =>
      have bad : ¬Good value := fun holds => by
        obtain ⟨s', ok⟩ := (good _ _ start).mpr holds
        rw [first] at ok
        contradiction
      simp [bind, Except.bind, bad]
    | ok next =>
      simp only [bind, Except.bind]
      rw [ih (keeps _ _ _ start first), and_iff_right ((good _ _ start).mp ⟨next, first⟩)]

/-- A result is a state with one property or an error with another one. -/
def Yields (Post : ε → Prop) : Except ε σ → Prop
  | .ok s => Inv s
  | .error code => Post code

/-- A loop keeps what every round keeps, and ends early only as a round does. -/
theorem foldlM_yields {Post : ε → Prop} (round : ∀ s a, Inv s → Yields Inv Post (step s a))
    (values : List α) {s : σ} (start : Inv s) : Yields Inv Post (values.foldlM step s) := by
  induction values generalizing s with
  | nil => exact start
  | cons value values ih =>
    have first := round s value start
    simp only [List.foldlM_cons]
    cases outcome : step s value with
    | error code =>
      rw [outcome] at first
      exact first
    | ok next =>
      rw [outcome] at first
      exact ih first

/-- Two results are related states or related errors. -/
def Agree {τ ε' : Type} (Rel : σ → τ → Prop) (Ends : ε → ε' → Prop) :
    Except ε σ → Except ε' τ → Prop
  | .ok s, .ok t => Rel s t
  | .error code, .error code' => Ends code code'
  | _, _ => False

/-- The two cases. -/
theorem Agree.cases {τ ε' : Type} {Rel : σ → τ → Prop} {Ends : ε → ε' → Prop}
    {left : Except ε σ} {right : Except ε' τ} (agree : Agree Rel Ends left right) :
    (∃ s t, left = .ok s ∧ right = .ok t ∧ Rel s t) ∨
      ∃ code code', left = .error code ∧ right = .error code' ∧ Ends code code' := by
  cases left with
  | error code =>
    cases right with
    | error code' => exact .inr ⟨code, code', rfl, rfl, agree⟩
    | ok t => exact agree.elim
  | ok s =>
    cases right with
    | error code' => exact agree.elim
    | ok t => exact .inl ⟨s, t, rfl, rfl, agree⟩

/-- Two loops whose rounds go from related states to related states end in related states, or early
and together. -/
theorem foldlM_agree {τ ε' : Type} (step' : τ → α → Except ε' τ) (Rel : σ → τ → Prop)
    (Ends : ε → ε' → Prop) (round : ∀ s t a, Rel s t → Agree Rel Ends (step s a) (step' t a))
    (values : List α) {s : σ} {t : τ} (start : Rel s t) :
    Agree Rel Ends (values.foldlM step s) (values.foldlM step' t) := by
  induction values generalizing s t with
  | nil => exact start
  | cons value values ih =>
    simp only [List.foldlM_cons]
    rcases (round s t value start).cases with
      ⟨next, next', left, right, related⟩ | ⟨code, code', left, right, ends⟩
    · rw [left, right]
      exact ih related
    · rw [left, right]
      exact ends

/-- What a round relates and what composes is related by the whole loop. -/
theorem foldlM_rel (Rel : List α → σ → σ → Prop)
    (keeps : ∀ s a s', Inv s → step s a = .ok s' → Inv s')
    (nil : ∀ s, Rel [] s s)
    (cons : ∀ s a s' rest s'', Inv s → step s a = .ok s' → Rel rest s' s'' →
      Rel (a :: rest) s s'')
    (values : List α) {s t : σ} (start : Inv s) (run : values.foldlM step s = .ok t) :
    Rel values s t ∧ Inv t := by
  induction values generalizing s with
  | nil =>
    simp only [List.foldlM_nil, pure, Except.pure, Except.ok.injEq] at run
    subst run
    exact ⟨nil s, start⟩
  | cons value values ih =>
    simp only [List.foldlM_cons] at run
    cases first : step s value with
    | error code =>
      rw [first] at run
      contradiction
    | ok next =>
      rw [first] at run
      obtain ⟨rest, last⟩ := ih (keeps _ _ _ start first) run
      exact ⟨cons _ _ _ _ _ start first rest, last⟩

end Lib
