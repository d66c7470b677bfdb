import Mathlib.Data.Fintype.Card
import Mathlib.Data.List.Pairwise
import Mathlib.Logic.Relation
import Mathlib.Tactic.Common

/-!
# Trees of named records

A table lists the records of every node, each with a node and a name. A path of names leads from
node to node. Over finitely many nodes, paths from a node are bounded exactly when no cycle can be
reached from it, and then a depth-first enumeration lists every path once.
-/
namespace Lib

variable {σ α : Type} (children : σ → List (σ × α))

/-- A node has a record of another one. -/
def Child (a b : σ) : Prop := ∃ name, (b, name) ∈ children a

/-- A path of names leads from one node to another. -/
inductive Leads : σ → List α → σ → Prop
  /-- The empty path stays. -/
  | here (a : σ) : Leads a [] a
  /-- A name is followed by its record. -/
  | step {a b c : σ} {name : α} {names : List α} (record : (b, name) ∈ children a)
    (rest : Leads b names c) : Leads a (name :: names) c

/-- No cycle can be reached. -/
def Acyclic (a : σ) : Prop :=
  ∀ b, Relation.ReflTransGen (Child children) a b → ¬Relation.TransGen (Child children) b b

/-- No path has more than so many names. -/
def Shallow (depth : Nat) (a : σ) : Prop :=
  ∀ names b, Leads children a names b → names.length ≤ depth

section Paths

variable {children}

/-- Paths are put together. -/
theorem Leads.append {a b c : σ} {first second : List α} (leads : Leads children a first b)
    (leads' : Leads children b second c) : Leads children a (first ++ second) c := by
  induction leads with
  | here => exact leads'
  | step record rest ih => exact .step record (ih leads')

/-- A node to which a path leads can be reached. -/
theorem Leads.reachable {a b : σ} {names : List α} (leads : Leads children a names b) :
    Relation.ReflTransGen (Child children) a b := by
  induction leads with
  | here => exact .refl
  | step record rest ih => exact .head ⟨_, record⟩ ih

/-- A path leads to a node that can be reached. -/
theorem exists_leads {a b : σ} (reachable : Relation.ReflTransGen (Child children) a b) :
    ∃ names, Leads children a names b := by
  induction reachable with
  | refl => exact ⟨[], .here a⟩
  | tail _ child ih =>
    obtain ⟨names, leads⟩ := ih
    obtain ⟨name, record⟩ := child
    exact ⟨names ++ [name], leads.append (.step record (.here _))⟩

/-- Around a cycle there are paths of any length. -/
theorem exists_long {a : σ} (cycle : Relation.TransGen (Child children) a a) (n : Nat) :
    ∃ names, n ≤ names.length ∧ Leads children a names a := by
  obtain ⟨b, ⟨name, record⟩, back⟩ := Relation.TransGen.head'_iff.mp cycle
  obtain ⟨rest, leads⟩ := exists_leads back
  induction n with
  | zero => exact ⟨[], Nat.zero_le _, .here a⟩
  | succ n ih =>
    obtain ⟨names, long, around⟩ := ih
    refine ⟨name :: rest ++ names, ?_, (Leads.step record leads).append around⟩
    rw [List.length_append, List.length_cons]
    omega

/-- Where paths are bounded, no cycle can be reached. -/
theorem Shallow.acyclic {depth : Nat} {a : σ} (shallow : Shallow children depth a) :
    Acyclic children a := by
  intro b reachable cycle
  obtain ⟨front, leads⟩ := exists_leads reachable
  obtain ⟨loop, long, around⟩ := exists_long cycle (depth + 1)
  have bound := shallow _ _ (leads.append around)
  rw [List.length_append] at bound
  omega

/-- The start of a path is a path. -/
theorem Leads.take {a b : σ} {names : List α} (leads : Leads children a names b) (n : Nat) :
    ∃ c, Leads children a (names.take n) c := by
  induction leads generalizing n with
  | here a => exact ⟨a, by rw [List.take_nil]; exact .here a⟩
  | @step a b c name names record rest ih =>
    cases n with
    | zero => exact ⟨a, .here a⟩
    | succ n =>
      obtain ⟨d, front⟩ := ih n
      exact ⟨d, .step record front⟩

/-- The children of a node with bounded paths have shorter ones. -/
theorem Shallow.child {depth : Nat} {a b : σ} {name : α} (shallow : Shallow children depth a)
    (record : (b, name) ∈ children a) : ∃ less, depth = less + 1 ∧ Shallow children less b := by
  have one := shallow [name] b (.step record (.here b))
  rw [List.length_singleton] at one
  refine ⟨depth - 1, by omega, fun names c leads => ?_⟩
  have bound := shallow (name :: names) c (.step record leads)
  rw [List.length_cons] at bound
  omega

/-- What can be reached from a node without cycles has none either. -/
theorem Acyclic.of_child {a b : σ} (acyclic : Acyclic children a) (child : Child children a b) :
    Acyclic children b :=
  fun c reachable => acyclic c (.head child reachable)

/-- A path that goes on from different nodes before it has at most as many names as there are other
nodes. -/
theorem Acyclic.bound [Fintype σ] {a c : σ} {names : List α} (leads : Leads children a names c) :
    ∀ before : List σ, before.Nodup → (∀ x ∈ before, Relation.TransGen (Child children) x a) →
      Acyclic children a → before.length + names.length ≤ Fintype.card σ := by
  induction leads with
  | here a =>
    intro before different _ _
    exact different.length_le_card
  | @step a b c name names record rest ih =>
    intro before different leading acyclic
    have child : Child children a b := ⟨name, record⟩
    have fresh : a ∉ before := fun mem => acyclic a .refl (leading a mem)
    have bound := ih (a :: before) (List.nodup_cons.mpr ⟨fresh, different⟩) (fun x mem => ?_)
      (acyclic.of_child child)
    · rw [List.length_cons] at bound ⊢
      omega
    · rcases List.mem_cons.mp mem with rfl | mem
      · exact .single child
      · exact (leading x mem).tail child

/-- Over finitely many nodes, paths are bounded where no cycle can be reached. -/
theorem Acyclic.shallow [Fintype σ] {a : σ} (acyclic : Acyclic children a) :
    Shallow children (Fintype.card σ) a := by
  intro names b leads
  have bound := Acyclic.bound leads [] List.nodup_nil (fun x mem => by cases mem) acyclic
  rwa [List.length_nil, Nat.zero_add] at bound

end Paths

/-- The paths from a node with at most so many names, in depth-first order, and the nodes to which
they lead. -/
def preorder : Nat → σ → List (List α × σ)
  | 0, _ => []
  | depth + 1, a => (children a).flatMap fun (b, name) =>
      ([name], b) :: (preorder depth b).map fun (names, c) => (name :: names, c)

/-- The order in which a depth-first enumeration meets paths: a path before those that go on from
it, and otherwise by the records at which two paths part. -/
inductive Before : σ → List α → List α → Prop
  /-- A path that goes on is later. -/
  | inside (a : σ) (name : α) (names : List α) : Before a [] (name :: names)
  /-- The records at which the paths part. -/
  | part {a b c : σ} {first second : α} (order : [(b, first), (c, second)].Sublist (children a))
    (names names' : List α) : Before a (first :: names) (second :: names')
  /-- The paths start with the same record. -/
  | step {a b : σ} {name : α} {names names' : List α} (record : (b, name) ∈ children a)
    (rest : Before b names names') : Before a (name :: names) (name :: names')

section Enumeration

variable {children}

/-- A node without records has no paths. -/
theorem preorder_leaf {a : σ} (none : children a = []) (depth : Nat) :
    preorder children depth a = [] := by
  cases depth with
  | zero => rfl
  | succ depth => rw [preorder, none, List.flatMap_nil]

/-- The enumeration has the paths up to its depth. -/
theorem mem_preorder {depth : Nat} {a c : σ} {names : List α} :
    (names, c) ∈ preorder children depth a ↔
      names ≠ [] ∧ names.length ≤ depth ∧ Leads children a names c := by
  induction depth generalizing a names with
  | zero =>
    constructor
    · intro mem
      cases mem
    · rintro ⟨more, none, -⟩
      exact absurd (List.length_eq_zero_iff.mp (Nat.le_zero.mp none)) more
  | succ depth ih =>
    rw [preorder, List.mem_flatMap]
    constructor
    · rintro ⟨⟨b, name⟩, record, mem⟩
      rcases List.mem_cons.mp mem with first | below
      · cases first
        refine ⟨List.cons_ne_nil _ _, ?_, .step record (.here _)⟩
        rw [List.length_singleton]
        omega
      · obtain ⟨⟨rest, d⟩, there, is⟩ := List.mem_map.mp below
        cases is
        obtain ⟨-, bound, leads⟩ := ih.mp there
        refine ⟨List.cons_ne_nil _ _, ?_, .step record leads⟩
        rw [List.length_cons]
        omega
    · rintro ⟨more, bound, leads⟩
      cases leads with
      | here => exact absurd rfl more
      | @step _ b _ name rest record leads =>
        refine ⟨(b, name), record, ?_⟩
        rw [List.length_cons] at bound
        by_cases last : rest = []
        · subst last
          cases leads
          exact List.mem_cons_self
        · apply List.mem_cons_of_mem
          exact List.mem_map.mpr ⟨(rest, c), ih.mpr ⟨last, by omega, leads⟩, rfl⟩

/-- Paths are bounded when the enumeration one level deeper finds no longer path. -/
theorem shallow_iff {depth : Nat} {a : σ} : Shallow children depth a ↔
    ∀ path ∈ preorder children (depth + 1) a, path.1.length ≤ depth := by
  constructor
  · rintro shallow ⟨names, b⟩ mem
    exact shallow names b (mem_preorder.mp mem).2.2
  · intro bound names b leads
    by_contra long
    obtain ⟨c, front⟩ := leads.take (depth + 1)
    have length : (names.take (depth + 1)).length = depth + 1 := by
      rw [List.length_take]
      omega
    have mem := mem_preorder.mpr
      ⟨List.ne_nil_of_length_eq_add_one length, length.le, front⟩
    have short := bound _ mem
    rw [length] at short
    omega

/-- Where paths are bounded, a deep enough enumeration has every other node that can be reached. -/
theorem Shallow.reachable {depth deep : Nat} {a b : σ} (shallow : Shallow children depth a)
    (enough : depth ≤ deep) (reachable : Relation.ReflTransGen (Child children) a b) :
    b = a ∨ ∃ names, (names, b) ∈ preorder children deep a := by
  obtain ⟨names, leads⟩ := exists_leads reachable
  by_cases none : names = []
  · subst none
    cases leads
    exact .inl rfl
  · exact .inr ⟨names, mem_preorder.mpr ⟨none, (shallow names b leads).trans enough, leads⟩⟩

/-- The enumeration is in depth-first order. -/
theorem preorder_pairwise (depth : Nat) (a : σ) :
    (preorder children depth a).Pairwise fun x y => Before children a x.1 y.1 := by
  induction depth generalizing a with
  | zero => exact .nil
  | succ depth ih =>
    rw [preorder, List.pairwise_flatMap]
    constructor
    · rintro ⟨b, name⟩ record
      rw [List.pairwise_cons, List.pairwise_map]
      constructor
      · intro path mem
        obtain ⟨⟨names, c⟩, there, rfl⟩ := List.mem_map.mp mem
        have more := (mem_preorder.mp there).1
        obtain ⟨next, rest, rfl⟩ := List.exists_cons_of_ne_nil more
        exact .step record (.inside b next rest)
      · exact (ih b).imp fun earlier => .step record earlier
    · rw [List.pairwise_iff_forall_sublist]
      rintro ⟨b, first⟩ ⟨c, second⟩ order path mem path' mem'
      have start : ∀ d name p, p ∈ ([name], d) :: (preorder children depth d).map
          (fun (names, e) => (name :: names, e)) → ∃ names, p.1 = name :: names := by
        intro d name p mem
        rcases List.mem_cons.mp mem with rfl | mem
        · exact ⟨[], rfl⟩
        · obtain ⟨⟨names, e⟩, -, rfl⟩ := List.mem_map.mp mem
          exact ⟨names, rfl⟩
      obtain ⟨names, is⟩ := start b first path mem
      obtain ⟨names', is'⟩ := start c second path' mem'
      rw [is, is']
      exact .part order names names'

/-- Where the names of records are distinct, a path is not before itself. -/
theorem Before.ne {a : σ} {names names' : List α} (earlier : Before children a names names')
    (distinct : ∀ b, Relation.ReflTransGen (Child children) a b →
      ((children b).map Prod.snd).Nodup) : names ≠ names' := by
  induction earlier with
  | inside a name names => exact (List.cons_ne_nil _ _).symm
  | @part a b c first second order names names' =>
    have pair := (order.map Prod.snd).nodup (distinct a .refl)
    rintro same
    cases same
    exact (List.nodup_cons.mp pair).1 List.mem_cons_self
  | @step a b name names names' record rest ih =>
    intro same
    have child : Child children a b := ⟨name, record⟩
    exact ih (fun c reachable => distinct c (.head child reachable)) (List.cons.inj same).2

/-- Where the names of records are distinct, every path is enumerated once. -/
theorem preorder_nodup {a : σ} (distinct : ∀ b, Relation.ReflTransGen (Child children) a b →
    ((children b).map Prod.snd).Nodup) (depth : Nat) :
    ((preorder children depth a).map Prod.fst).Nodup := by
  rw [List.Nodup, List.pairwise_map]
  exact (preorder_pairwise depth a).imp fun earlier => earlier.ne distinct

end Enumeration

section Tables

variable {children children' : σ → List (σ × α)} {a : σ}
  (same : ∀ b, Relation.ReflTransGen (Child children) a b → children' b = children b)

include same

/-- Two tables that agree on what can be reached by one of them reach the same nodes. -/
theorem reachable_of_same {b : σ} (reachable : Relation.ReflTransGen (Child children') a b) :
    Relation.ReflTransGen (Child children) a b := by
  induction reachable with
  | refl => exact .refl
  | @tail b c _ child ih =>
    obtain ⟨name, record⟩ := child
    rw [same b ih] at record
    exact ih.tail ⟨name, record⟩

/-- They have the same cycles there. -/
theorem Acyclic.of_same (acyclic : Acyclic children a) : Acyclic children' a := by
  intro b reachable cycle
  have here := reachable_of_same same reachable
  have path : ∀ {c}, Relation.TransGen (Child children') b c →
      Relation.TransGen (Child children) b c := by
    intro c leads
    have copied : ∀ {x y}, Relation.ReflTransGen (Child children) b x → Child children' x y →
        Child children x y := by
      rintro x y there ⟨name, record⟩
      rw [same x (here.trans there)] at record
      exact ⟨name, record⟩
    induction leads with
    | single child => exact .single (copied .refl child)
    | tail _ child ih => exact ih.tail (copied ih.to_reflTransGen child)
  exact acyclic b here (path cycle)

/-- And they have the same enumeration. -/
theorem preorder_of_same (depth : Nat) :
    preorder children' depth a = preorder children depth a := by
  induction depth generalizing a with
  | zero => rfl
  | succ depth ih =>
    rw [preorder, preorder, same a .refl]
    apply List.flatMap_congr
    rintro ⟨b, name⟩ record
    have child : Child children a b := ⟨name, record⟩
    simp only [ih fun c reachable => same c (.head child reachable)]

end Tables

end Lib
