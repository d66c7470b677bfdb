import Mathlib.Data.List.Sort

/-!
# Serving from a supply

A server answers each call with the first item of a supply, which it takes out of the supply, and
has an answer for the empty supply. A run of calls is then answered by the first items of the
supply, in order. One kind of supply are the numbers below a bound with a property; a number is
among the first `n` of them when fewer than `n` come before it. What is served is counted one by
one, if no item comes twice.
-/
namespace Lib

variable {α σ β : Type}

/-- The answers to `n` calls in a row, and the state after them. -/
def serve (call : σ → β × σ) : Nat → σ → List β × σ
  | 0, state => ([], state)
  | n + 1, state =>
    let (answer, state) := call state
    let (answers, state) := serve call n state
    (answer :: answers, state)

/-- What every call keeps holds after a run of calls. -/
theorem serve_keeps {call : σ → β × σ} {Inv : σ → Prop} (keeps : ∀ s, Inv s → Inv (call s).2)
    (n : Nat) : ∀ s, Inv s → Inv (serve call n s).2 := by
  induction n with
  | zero => exact fun _ start => start
  | succ n ih => exact fun s start => ih _ (keeps s start)

/-- A run of calls in two parts. -/
theorem serve_add (call : σ → β × σ) (m n : Nat) (state : σ) :
    serve call (m + n) state =
      ((serve call m state).1 ++ (serve call n (serve call m state).2).1,
        (serve call n (serve call m state).2).2) := by
  induction m generalizing state with
  | zero => rw [Nat.zero_add]; rfl
  | succ m ih =>
    rw [Nat.succ_add, serve, serve]
    simp only [ih, List.cons_append]

/-- A call answers with the first item of the supply and takes it out. -/
structure Serves (call : σ → β × σ) (left : σ → List α) (answer : Option α → β) (state : σ) :
    Prop where
  /-- The answer is about the first item. -/
  answers : (call state).1 = answer (left state).head?
  /-- The others are left. -/
  leaves : left (call state).2 = (left state).tail

/-- A run of calls is answered from the supply in order, and then with the answer for the empty
supply. -/
theorem serve_spec {call : σ → β × σ} {left : σ → List α} {answer : Option α → β}
    (Inv : σ → Prop) (keeps : ∀ s, Inv s → Inv (call s).2)
    (serves : ∀ s, Inv s → Serves call left answer s) (n : Nat) {s : σ} (start : Inv s) :
    (serve call n s).1 = ((left s).take n).map (fun x => answer (some x)) ++
      List.replicate (n - (left s).length) (answer none) := by
  induction n generalizing s with
  | zero => rw [List.take_zero, Nat.zero_sub]; rfl
  | succ n ih =>
    have first := serves s start
    simp only [serve]
    rw [ih (keeps s start), first.answers, first.leaves]
    cases left s with
    | nil =>
      simp only [List.tail_nil, List.take_nil, List.map_nil, List.length_nil, List.nil_append,
        Nat.sub_zero, List.head?_nil, List.replicate_succ]
    | cons x rest =>
      simp only [List.tail_cons, List.head?_cons, List.take_succ_cons, List.map_cons,
        List.cons_append, List.length_cons, Nat.add_sub_add_right]

/-- One more element of a list without repetitions counts. -/
theorem countP_one_more [DecidableEq α] {p q : α → Bool} {x : α} {values : List α}
    (distinct : values.Nodup) (mem : x ∈ values) (fresh : p x = false)
    (more : ∀ y ∈ values, q y = (p y || decide (y = x))) :
    values.countP q = values.countP p + 1 := by
  induction values with
  | nil => cases mem
  | cons y values ih =>
    obtain ⟨absent, distinct⟩ := List.nodup_cons.mp distinct
    rw [List.countP_cons, List.countP_cons, more y List.mem_cons_self]
    by_cases here : y = x
    · subst here
      have same : values.countP q = values.countP p := by
        apply List.countP_congr
        intro z inside
        have other : z ≠ y := fun is => absent (is ▸ inside)
        rw [more z (List.mem_cons_of_mem y inside), decide_eq_false other, Bool.or_false]
      rw [same, fresh]
      simp
    · have inside := (List.mem_cons.mp mem).resolve_left (Ne.symm here)
      rw [ih distinct inside fun z there => more z (List.mem_cons_of_mem y there)]
      simp only [here, decide_false, Bool.or_false]
      omega

/-- The numbers below a bound that have a property, in order. -/
def below (bound : Nat) (P : Nat → Prop) [DecidablePred P] : List Nat :=
  (List.range bound).filter fun x => P x

section Below

variable {P Q : Nat → Prop} [DecidablePred P] [DecidablePred Q]

/-- The members of such a supply. -/
theorem mem_below {bound x : Nat} : x ∈ below bound P ↔ x < bound ∧ P x := by
  rw [below, List.mem_filter, List.mem_range, decide_eq_true_eq]

/-- They are in increasing order. -/
theorem below_increasing (bound : Nat) (P : Nat → Prop) [DecidablePred P] :
    (below bound P).Pairwise (· < ·) :=
  List.Pairwise.filter _ List.pairwise_lt_range

/-- More properties leave fewer numbers. -/
theorem below_length_le {bound bound' : Nat} (upTo : bound ≤ bound')
    (implies : ∀ x < bound, P x → Q x) : (below bound P).length ≤ (below bound' Q).length := by
  have nodup := (below_increasing bound P).imp (S := (· ≠ ·)) fun less => Nat.ne_of_lt less
  apply (List.subperm_of_subset nodup fun x mem => ?_).length_le
  rw [mem_below] at mem ⊢
  exact ⟨Nat.lt_of_lt_of_le mem.1 upTo, implies x mem.1 mem.2⟩

/-- The least number with the property comes first, before those that have it besides. -/
theorem below_eq_cons {bound x : Nat} (inside : x < bound) (holds : P x)
    (least : ∀ y < bound, P y → x ≤ y) (others : ∀ y < bound, Q y ↔ P y ∧ y ≠ x) :
    below bound P = x :: below bound Q := by
  have sorted : (x :: below bound Q).Pairwise (· < ·) := by
    apply List.pairwise_cons.mpr
    refine ⟨fun y mem => ?_, below_increasing bound Q⟩
    obtain ⟨upTo, has⟩ := mem_below.mp mem
    obtain ⟨too, different⟩ := (others y upTo).mp has
    have := least y upTo too
    omega
  apply (below_increasing bound P).eq_of_mem_iff sorted
  intro y
  rw [List.mem_cons, mem_below, mem_below]
  constructor
  · rintro ⟨upTo, has⟩
    by_cases same : y = x
    · exact .inl same
    · exact .inr ⟨upTo, (others y upTo).mpr ⟨has, same⟩⟩
  · rintro (rfl | ⟨upTo, has⟩)
    · exact ⟨inside, holds⟩
    · exact ⟨upTo, ((others y upTo).mp has).1⟩

/-- A member comes right after the smaller ones. -/
theorem below_split {bound x : Nat} (inside : x < bound) (holds : P x) :
    ∃ larger, below bound P = below x P ++ x :: larger := by
  obtain ⟨rest, whole⟩ : ∃ rest, bound = x + (1 + rest) := ⟨bound - (x + 1), by omega⟩
  refine ⟨((List.range rest).map fun y => x + (1 + y)).filter fun y => P y, ?_⟩
  have one : List.range 1 = [0] := rfl
  have parts : List.range bound =
      List.range x ++ x :: (List.range rest).map fun y => x + (1 + y) := by
    simp only [whole, List.range_add, one, List.map_cons,
      Nat.add_zero, List.cons_append, List.nil_append, List.map_map, Function.comp_def]
  rw [below, parts, List.filter_append, List.filter_cons_of_pos]
  · rfl
  · exact decide_eq_true holds

/-- A number is among the first `n` when fewer than `n` are below it. -/
theorem mem_take_below {bound n x : Nat} :
    x ∈ (below bound P).take n ↔ (x < bound ∧ P x) ∧ (below x P).length < n := by
  by_cases mem : x < bound ∧ P x
  · obtain ⟨larger, parts⟩ := below_split mem.1 mem.2
    have notBefore : x ∉ below x P := fun before => absurd (mem_below.mp before).1 (by omega)
    simp only [mem, true_and]
    rw [parts, List.take_append]
    constructor
    · intro taken
      by_contra enough
      rw [Nat.sub_eq_zero_of_le (Nat.not_lt.mp enough), List.take_zero, List.append_nil] at taken
      exact notBefore (List.mem_of_mem_take taken)
    · intro few
      obtain ⟨more, count⟩ : ∃ more, n - (below x P).length = more + 1 :=
        ⟨n - (below x P).length - 1, by omega⟩
      rw [count, List.take_succ_cons]
      exact List.mem_append_right _ List.mem_cons_self
  · simp only [mem, false_and, iff_false]
    exact fun taken => mem (mem_below.mp (List.mem_of_mem_take taken))

end Below

end Lib
