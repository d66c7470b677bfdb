import Mathlib.Data.List.DropRight
import Mathlib.Tactic.Common

/-!
# Paths with separators

A path is a list of symbols, one of which separates its components. The laws relate the components
to how a program scans a path: from the front, a run of separators and then the first component;
from the back, the last component and then a run of separators. A path ends in a number of
separators, and equal neighbours among them can be merged into one.
-/
namespace Lib

variable {α : Type} [DecidableEq α] (sep : α)

/-- The parts of a path between separators, without the empty ones. -/
def components (path : List α) : List (List α) := (path.splitOn sep).filter (· ≠ [])

/-- The empty path has no component. -/
theorem components_nil : components sep [] = [] := by
  rw [components, List.splitOn_nil]
  rfl

/-- A separator cuts a path in two. -/
theorem components_cut (first second : List α) :
    components sep (first ++ sep :: second) = components sep first ++ components sep second := by
  rw [components, List.splitOn_append_cons_self, List.filter_append, components, components]

/-- A separator in front adds no component. -/
theorem components_cons (path : List α) : components sep (sep :: path) = components sep path := by
  have cut := components_cut sep [] path
  rwa [components_nil, List.nil_append, List.nil_append] at cut

/-- A string without separators is one component. -/
theorem components_name {name : List α} (plain : sep ∉ name) (nonempty : name ≠ []) :
    components sep name = [name] := by
  rw [components, List.splitOn_eq_singleton plain, List.filter_singleton, decide_eq_true nonempty]
  rfl

/-- The parts of a path between separators have none. -/
theorem mem_splitOn {path part : List α} (mem : part ∈ path.splitOn sep) : sep ∉ part := by
  induction path generalizing part with
  | nil =>
    rw [List.splitOn_nil, List.mem_singleton] at mem
    rw [mem]
    exact List.not_mem_nil
  | cons x rest ih =>
    rw [List.splitOn_cons_eq_if_modifyHead] at mem
    split at mem
    · rcases List.mem_cons.mp mem with rfl | mem
      · exact List.not_mem_nil
      · exact ih mem
    · rename_i other
      cases parts : rest.splitOn sep with
      | nil =>
        rw [parts] at mem
        cases mem
      | cons first others =>
        rw [parts] at mem ih
        rcases List.mem_cons.mp mem with rfl | mem
        · intro here
          rcases List.mem_cons.mp here with same | here
          · exact other (beq_iff_eq.mpr same.symm)
          · exact ih List.mem_cons_self here
        · exact ih (List.mem_cons_of_mem _ mem)

/-- A component is not empty and has no separator. -/
theorem mem_components {path name : List α} (mem : name ∈ components sep path) :
    name ≠ [] ∧ sep ∉ name := by
  obtain ⟨part, nonempty⟩ := List.mem_filter.mp mem
  exact ⟨of_decide_eq_true nonempty, mem_splitOn sep part⟩

/-- Separators in front add no component. -/
theorem components_skip (path : List α) :
    components sep (path.dropWhile (· = sep)) = components sep path := by
  induction path with
  | nil => rfl
  | cons x rest ih =>
    rw [List.dropWhile_cons]
    split
    · rename_i same
      rw [ih, of_decide_eq_true same, components_cons]
    · rfl

/-- The first component of a path that is more than separators. -/
theorem front_name {path : List α} (more : path.dropWhile (· = sep) ≠ []) :
    sep ∉ (path.dropWhile (· = sep)).takeWhile (· ≠ sep) ∧
      (path.dropWhile (· = sep)).takeWhile (· ≠ sep) ≠ [] := by
  constructor
  · intro mem
    have different := List.mem_takeWhile_imp mem
    exact absurd rfl (of_decide_eq_true different)
  · have head := List.head_dropWhile_not (· = sep) more
    cases rest : path.dropWhile (· = sep) with
    | nil => exact absurd rest more
    | cons x tail =>
      simp only [rest, List.head_cons] at head
      rw [List.takeWhile_cons, if_pos (by simpa using head)]
      exact List.cons_ne_nil _ _

/-- Scanned from the front, a path that is more than separators has a first component and what
comes after it. -/
theorem components_front {path : List α} (more : path.dropWhile (· = sep) ≠ []) :
    components sep path = (path.dropWhile (· = sep)).takeWhile (· ≠ sep) ::
      components sep ((path.dropWhile (· = sep)).dropWhile (· ≠ sep)) := by
  obtain ⟨plain, nonempty⟩ := front_name sep more
  have single := components_name sep plain nonempty
  rw [← components_skip]
  generalize path.dropWhile (· = sep) = rest at single ⊢
  have whole := List.takeWhile_append_dropWhile (p := (· ≠ sep)) (l := rest)
  cases after : rest.dropWhile (· ≠ sep) with
  | nil =>
    rw [after, List.append_nil] at whole
    rw [whole] at single ⊢
    rw [single, components_nil]
  | cons x tail =>
    have head := List.head_dropWhile_not (· ≠ sep) (l := rest)
      (by rw [after]; exact List.cons_ne_nil _ _)
    have same : x = sep := by
      simp only [after, List.head_cons] at head
      simpa using head
    rw [after, same] at whole
    conv_lhs => rw [← whole]
    rw [components_cut, single, same, components_cons]
    rfl

/-- A run of separators cuts a path in two; there may be none if nothing is before it. -/
theorem components_run {first run : List α} (same : ∀ x ∈ run, x = sep)
    (apart : run = [] → first = []) (rest : List α) :
    components sep (first ++ run ++ rest) = components sep first ++ components sep rest := by
  cases run with
  | nil =>
    rw [apart rfl, components_nil, List.nil_append, List.nil_append, List.nil_append]
  | cons x tail =>
    have skip := components_skip sep (tail ++ rest)
    rw [List.dropWhile_append_of_pos fun y mem =>
      decide_eq_true (same y (List.mem_cons_of_mem x mem)), components_skip] at skip
    rw [same x List.mem_cons_self, List.append_assoc, List.cons_append, components_cut, ← skip]

/-- The number of separators that a path ends in. -/
def trailing (path : List α) : Nat := (path.rtakeWhile (· = sep)).length

/-- The empty path ends in no separator. -/
theorem trailing_nil : trailing sep [] = 0 := by rw [trailing, List.rtakeWhile_nil, List.length_nil]

/-- The end of a path of two parts is in the second, or goes on in the first. -/
theorem trailing_append (first second : List α) :
    trailing sep (first ++ second) =
      if ∀ x ∈ second, x = sep then trailing sep first + second.length
      else trailing sep second := by
  rw [trailing, trailing, trailing, List.rtakeWhile, List.reverse_append, List.takeWhile_append,
    List.rtakeWhile, List.rtakeWhile]
  have all : (second.reverse.takeWhile (· = sep)).length = second.reverse.length ↔
      ∀ x ∈ second, x = sep := by
    constructor
    · intro length x mem
      have whole := (List.takeWhile_prefix (· = sep)).eq_of_length length
      have symbols := List.takeWhile_eq_self_iff.mp whole x (List.mem_reverse.mpr mem)
      exact of_decide_eq_true symbols
    · intro same
      rw [List.takeWhile_eq_self_iff.mpr fun x mem =>
        decide_eq_true (same x (List.mem_reverse.mp mem))]
  by_cases same : ∀ x ∈ second, x = sep
  · rw [if_pos (all.mpr same), if_pos same]
    simp only [List.reverse_append, List.reverse_reverse, List.length_append, List.length_reverse]
  · rw [if_neg fun length => same (all.mp length), if_neg same]

/-- A path ends in separators exactly when its last symbol is one. -/
theorem trailing_eq_zero_iff (path : List α) :
    trailing sep path = 0 ↔ path.getLast? ≠ some sep := by
  rw [trailing, List.length_eq_zero_iff, List.rtakeWhile_eq_nil_iff]
  cases path with
  | nil => simp
  | cons x rest =>
    rw [List.getLast?_eq_some_getLast (List.cons_ne_nil x rest)]
    simp

/-- A path of separators only ends in all of them. -/
theorem trailing_all {path : List α} (same : ∀ x ∈ path, x = sep) :
    trailing sep path = path.length := by
  have whole := trailing_append sep [] path
  rwa [List.nil_append, if_pos same, trailing_nil, Nat.zero_add] at whole

/-- A name ends in no separator. -/
theorem trailing_name {name : List α} (plain : sep ∉ name) : trailing sep name = 0 := by
  rw [trailing_eq_zero_iff]
  exact fun last => plain (List.mem_of_getLast? last)

/-- Behind the last component, a path ends in the separators that its rest ends in. -/
theorem trailing_after (first : List α) {name : List α} (plain : sep ∉ name) (nonempty : name ≠ [])
    (rest : List α) : trailing sep (first ++ name ++ rest) = trailing sep rest := by
  have none : trailing sep (first ++ name) = 0 := by
    rw [trailing_append, if_neg, trailing_name sep plain]
    intro same
    obtain ⟨x, mem⟩ := List.exists_mem_of_ne_nil name nonempty
    exact plain (same x mem ▸ mem)
  rw [trailing_append, none, Nat.zero_add]
  split
  · rename_i same
    exact (trailing_all sep same).symm
  · rfl

/-- Scanned from the front, a path ends in the separators that its rest ends in. -/
theorem trailing_front {path : List α} (more : path.dropWhile (· = sep) ≠ []) :
    trailing sep path =
      trailing sep ((path.dropWhile (· = sep)).dropWhile (· ≠ sep)) := by
  obtain ⟨plain, nonempty⟩ := front_name sep more
  have parts : path = path.takeWhile (· = sep) ++ (path.dropWhile (· = sep)).takeWhile (· ≠ sep) ++
      (path.dropWhile (· = sep)).dropWhile (· ≠ sep) := by
    rw [List.append_assoc, List.takeWhile_append_dropWhile, List.takeWhile_append_dropWhile]
  conv_lhs => rw [parts]
  exact trailing_after sep _ plain nonempty _

/-- The canonical path of a list of components, with one separator before each of them. -/
def joined (names : List (List α)) : List α := names.flatMap (sep :: ·)

omit [DecidableEq α] in
/-- The canonical path of one component. -/
theorem joined_singleton (name : List α) : joined sep [name] = sep :: name := by
  rw [joined, List.flatMap_singleton]

omit [DecidableEq α] in
/-- The first component of a canonical path. -/
theorem joined_cons (name : List α) (names : List (List α)) :
    joined sep (name :: names) = sep :: name ++ joined sep names := by
  rw [joined, joined, List.flatMap_cons]

omit [DecidableEq α] in
/-- A canonical path with one component more. -/
theorem joined_concat (names : List (List α)) (name : List α) :
    joined sep (names ++ [name]) = joined sep names ++ sep :: name := by
  rw [joined, joined, List.flatMap_append, List.flatMap_singleton]

/-- A canonical path has the components that it is made of. -/
theorem components_joined {names : List (List α)}
    (plain : ∀ name ∈ names, name ≠ [] ∧ sep ∉ name) :
    components sep (joined sep names) = names := by
  induction names using List.reverseRecOn with
  | nil => exact components_nil sep
  | append_singleton names name ih =>
    obtain ⟨nonempty, apart⟩ := plain name (List.mem_append_right _ List.mem_cons_self)
    rw [joined_concat, components_cut, components_name sep apart nonempty,
      ih fun other mem => plain other (List.mem_append_left _ mem)]

/-- A canonical path does not end in a separator. -/
theorem trailing_joined {names : List (List α)}
    (plain : ∀ name ∈ names, name ≠ [] ∧ sep ∉ name) : trailing sep (joined sep names) = 0 := by
  induction names using List.reverseRecOn with
  | nil => exact trailing_nil sep
  | append_singleton names name ih =>
    obtain ⟨nonempty, apart⟩ := plain name (List.mem_append_right _ List.mem_cons_self)
    have last := trailing_after sep (joined sep names ++ [sep]) apart nonempty []
    rwa [List.append_nil, trailing_nil, List.append_assoc, List.singleton_append,
      ← joined_concat] at last

/-- A path with equal neighbouring separators merged. -/
def collapse : List α → List α
  | [] => []
  | x :: rest => if x = sep ∧ rest.head? = some sep then collapse rest else x :: collapse rest

/-- Merging loses no symbol. -/
theorem mem_collapse {x : α} {path : List α} : x ∈ collapse sep path ↔ x ∈ path := by
  induction path with
  | nil => rfl
  | cons y rest ih =>
    rw [collapse]
    split
    · rename_i run
      obtain ⟨rfl, head⟩ := run
      have there : y ∈ rest := List.mem_of_mem_head? head
      rw [ih, List.mem_cons]
      constructor
      · exact Or.inr
      · rintro (rfl | mem)
        · exact there
        · exact mem
    · rw [List.mem_cons, List.mem_cons, ih]

/-- Merging keeps the first part of a path, and the other components. -/
theorem splitOn_collapse (path : List α) :
    ∃ first others others', (collapse sep path).splitOn sep = first :: others ∧
      path.splitOn sep = first :: others' ∧
      others.filter (· ≠ []) = others'.filter (· ≠ []) := by
  induction path with
  | nil => exact ⟨[], [], [], List.splitOn_nil sep, List.splitOn_nil sep, rfl⟩
  | cons x rest ih =>
    obtain ⟨first, others, others', merged, parts, same⟩ := ih
    rw [collapse, List.splitOn_cons_eq_if_modifyHead x rest]
    split
    · rename_i run
      obtain ⟨rfl, head⟩ := run
      -- the rest starts with a separator, so that its first part is empty
      obtain ⟨tail, rfl⟩ := List.head?_eq_some_iff.mp head
      rw [List.splitOn_cons_eq_if_modifyHead, if_pos (beq_self_eq_true x)] at parts
      obtain ⟨rfl, rfl⟩ := List.cons.inj parts
      refine ⟨[], others, _, merged, if_pos (beq_self_eq_true x), ?_⟩
      rw [same, List.splitOn_cons_eq_if_modifyHead, if_pos (beq_self_eq_true x)]
      rfl
    · rw [List.splitOn_cons_eq_if_modifyHead, merged, parts]
      split
      · exact ⟨[], _, _, rfl, rfl, by rw [List.filter_cons, List.filter_cons, same]⟩
      · exact ⟨x :: first, others, others', rfl, rfl, same⟩

/-- Merging changes no component. -/
theorem components_collapse (path : List α) :
    components sep (collapse sep path) = components sep path := by
  obtain ⟨first, others, others', merged, parts, same⟩ := splitOn_collapse sep path
  rw [components, components, merged, parts, List.filter_cons, List.filter_cons, same]

/-- Of the separators that a path ends in, one is left. -/
theorem trailing_collapse (path : List α) :
    trailing sep (collapse sep path) = min 1 (trailing sep path) := by
  have front : ∀ x rest, trailing sep (x :: rest) =
      if ∀ y ∈ rest, y = sep then trailing sep [x] + rest.length else trailing sep rest :=
    fun x rest => trailing_append sep [x] rest
  induction path with
  | nil => rfl
  | cons x rest ih =>
    rw [collapse]
    split
    · rename_i run
      obtain ⟨rfl, head⟩ := run
      rw [ih, front]
      split
      · rename_i same
        have more := List.length_pos_of_mem (List.mem_of_mem_head? head)
        rw [trailing_all x same]
        omega
      · rfl
    · rename_i alone
      rw [front, front x rest]
      simp only [mem_collapse]
      split
      · rename_i same
        rw [trailing_all sep fun y mem => same y ((mem_collapse sep).mp mem)] at ih
        rw [trailing_all sep same] at ih
        rw [ih]
        by_cases separator : x = sep
        · cases rest with
          | nil =>
            rw [separator, trailing_all sep fun y mem => List.mem_singleton.mp mem]
            rfl
          | cons y tail =>
            exact absurd ⟨separator, by rw [same y List.mem_cons_self]; rfl⟩ alone
        · have none : trailing sep [x] = 0 := by
            rw [trailing_eq_zero_iff, List.getLast?_singleton]
            exact fun is => separator (Option.some.inj is)
          rw [none, Nat.zero_add, Nat.zero_add]
      · exact ih

section Walk

variable {σ ν ε : Type}

/-- Follow names from a place. A step may be undefined, fail, or lead to the next place. -/
def walk (step : σ → ν → Option (Except ε σ)) : σ → List ν → Option (Except ε σ)
  | place, [] => some (.ok place)
  | place, name :: names =>
    match step place name with
    | none => none
    | some (.error code) => some (.error code)
    | some (.ok next) => walk step next names

/-- Names are followed one after the other. -/
theorem walk_append (step : σ → ν → Option (Except ε σ)) (place : σ) (first second : List ν) :
    walk step place (first ++ second) =
      match walk step place first with
      | none => none
      | some (.error code) => some (.error code)
      | some (.ok next) => walk step next second := by
  induction first generalizing place with
  | nil => rfl
  | cons name names ih =>
    rw [List.cons_append, walk, walk]
    cases step place name with
    | none => rfl
    | some result =>
      cases result with
      | error code => rfl
      | ok next => exact ih next

/-- A walk is a fold when the steps are the same at the places to which the fold comes. -/
theorem walk_eq_foldlM {step : σ → ν → Option (Except ε σ)} {next : σ → ν → Except ε σ}
    {names : List ν} : ∀ {place : σ},
    (∀ before name after spot, names = before ++ name :: after →
      before.foldlM next place = .ok spot → step spot name = some (next spot name)) →
        walk step place names = some (names.foldlM next place) := by
  induction names with
  | nil => exact fun _ => rfl
  | cons name names ih =>
    intro place same
    rw [walk, same [] name names place rfl rfl, List.foldlM_cons]
    cases taken : next place name with
    | error code => rfl
    | ok found =>
      apply ih
      intro before other after spot parts comes
      apply same (name :: before) other after spot
      · rw [parts, List.cons_append]
      · rw [List.foldlM_cons, taken]
        exact comes

/-- Where no step is undefined, a walk is a fold. -/
theorem walk_defined {step : σ → ν → Option (Except ε σ)} {next : σ → ν → Except ε σ}
    (defined : ∀ place name, step place name = some (next place name)) (place : σ)
    (names : List ν) : walk step place names = some (names.foldlM next place) :=
  walk_eq_foldlM fun _ name _ spot _ _ => defined spot name

/-- The places at which a walk takes a step. -/
def visited (step : σ → ν → Option (Except ε σ)) : σ → List ν → List σ
  | _, [] => []
  | place, name :: names =>
    place :: match step place name with
      | some (.ok next) => visited step next names
      | _ => []

/-- A walk that goes on visits more places. -/
theorem visited_append (step : σ → ν → Option (Except ε σ)) {place found : σ} {first : List ν}
    (arrives : walk step place first = some (.ok found)) (second : List ν) :
    visited step place (first ++ second) =
      visited step place first ++ visited step found second := by
  induction first generalizing place with
  | nil =>
    cases arrives
    rfl
  | cons name names ih =>
    rw [walk] at arrives
    rw [List.cons_append, visited, visited]
    cases taken : step place name with
    | none =>
      rw [taken] at arrives
      cases arrives
    | some result =>
      rw [taken] at arrives
      cases result with
      | error code => cases arrives
      | ok next =>
        simp only [List.cons_append]
        rw [ih arrives]

/-- A walk arrives where it did when the steps at the places that it visits are kept. -/
theorem walk_kept {step step' : σ → ν → Option (Except ε σ)} {place found : σ} {names : List ν}
    (arrives : walk step place names = some (.ok found))
    (kept : ∀ spot ∈ visited step place names, ∀ name next,
      step spot name = some (.ok next) → step' spot name = some (.ok next)) :
    walk step' place names = some (.ok found) := by
  induction names generalizing place with
  | nil => exact arrives
  | cons name names ih =>
    rw [walk] at arrives
    rw [visited] at kept
    cases taken : step place name with
    | none =>
      rw [taken] at arrives
      cases arrives
    | some result =>
      cases result with
      | error code =>
        rw [taken] at arrives
        cases arrives
      | ok next =>
        rw [taken] at arrives kept
        have same := kept place List.mem_cons_self name next taken
        rw [walk, same]
        exact ih arrives fun spot mem => kept spot (List.mem_cons_of_mem place mem)

end Walk

end Lib
