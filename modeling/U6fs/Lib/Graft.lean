import U6fs.Lib.Tree

/-!
# Growing a tree of named records

A table of records is a tree when no node in use has two records and the root has none. Then every
node has at most one path from the root, and no cycle can be reached. Grafting puts a record of a
new node behind the records of another one. The tree stays a tree, the paths are the old ones and
one path to the new node, and the depth-first enumeration has one line more.
-/
namespace Lib

variable {σ α : Type}

/-- The records form a tree of the nodes in use. -/
structure IsTree (children : σ → List (σ × α)) (used : σ → Prop) (root : σ) : Prop where
  /-- The root is in use. -/
  start : used root
  /-- Records stand in nodes in use and name nodes in use. -/
  records : ∀ a b name, (b, name) ∈ children a → used a ∧ used b
  /-- No node has two records. -/
  single : ∀ a a' b name name', (b, name) ∈ children a → (b, name') ∈ children a' →
    a = a' ∧ name = name'
  /-- The root has no record. -/
  rootless : ∀ a name, (root, name) ∉ children a
  /-- No name stands twice in a node. -/
  distinct : ∀ a, ((children a).map Prod.snd).Nodup

/-- A record is put behind the records of a node. -/
def graft [DecidableEq σ] (children : σ → List (σ × α)) (parent : σ) (entry : σ × α) :
    σ → List (σ × α) :=
  fun a => if a = parent then children parent ++ [entry] else children a

/-- A path that is extended by a name goes over the node before. -/
theorem leads_concat {children : σ → List (σ × α)} {a c : σ} {names : List α} {name : α} :
    Leads children a (names ++ [name]) c ↔
      ∃ b, Leads children a names b ∧ (c, name) ∈ children b := by
  constructor
  · intro leads
    induction names generalizing a with
    | nil =>
      cases leads with
      | step record rest =>
        cases rest
        exact ⟨a, .here a, record⟩
    | cons first names ih =>
      cases leads with
      | step record rest =>
        obtain ⟨b, front, last⟩ := ih rest
        exact ⟨b, .step record front, last⟩
  · intro ⟨b, front, last⟩
    exact front.append (.step last (.here c))

/-- One level of the enumeration. -/
theorem preorder_succ (children : σ → List (σ × α)) (depth : Nat) (a : σ) :
    preorder children (depth + 1) a = (children a).flatMap fun x =>
      ([x.2], x.1) :: (preorder children depth x.1).map fun y => (x.2 :: y.1, y.2) := rfl

section Records

variable [DecidableEq σ]

/-- The records after grafting. -/
theorem mem_graft (children : σ → List (σ × α)) {parent n a b : σ} {name m : α} :
    (b, m) ∈ graft children parent (n, name) a ↔
      (b, m) ∈ children a ∨ (a = parent ∧ b = n ∧ m = name) := by
  unfold graft
  by_cases here : a = parent
  · rw [if_pos here, List.mem_append, List.mem_singleton, Prod.mk.injEq, ← here]
    simp only [true_and]
  · rw [if_neg here]
    simp only [here, false_and, or_false]

/-- What does not get to the node with the new record is enumerated as before. -/
theorem preorder_unreached (children : σ → List (σ × α)) {parent : σ} (entry : σ × α)
    {depth : Nat} :
    ∀ {a : σ}, (∀ names, Leads children a names parent → depth ≤ names.length) →
      preorder (graft children parent entry) depth a = preorder children depth a := by
  induction depth with
  | zero =>
    intro a _
    rfl
  | succ depth ih =>
    intro a far
    have other : a ≠ parent := by
      rintro rfl
      have close := far [] (.here a)
      exact absurd close (Nat.not_succ_le_zero depth)
    rw [preorder_succ, preorder_succ, graft, if_neg other]
    apply List.flatMap_congr
    rintro ⟨b, m⟩ record
    have below : preorder (graft children parent entry) depth b = preorder children depth b := by
      apply ih
      intro names leads
      have bound := far (m :: names) (.step record leads)
      exact Nat.le_of_succ_le_succ bound
    simp only [below]

end Records

namespace IsTree

variable {children : σ → List (σ × α)} {used : σ → Prop} {root : σ}
  (tree : IsTree children used root)

include tree

/-- At most one path leads from the root to a node. -/
theorem unique {b : σ} {names names' : List α} (leads : Leads children root names b)
    (leads' : Leads children root names' b) : names = names' := by
  induction names using List.reverseRecOn generalizing b names' with
  | nil =>
    cases leads
    rcases List.eq_nil_or_concat' names' with none | ⟨front, last, more⟩
    · exact none.symm
    · rw [more, leads_concat] at leads'
      obtain ⟨c, -, record⟩ := leads'
      exact absurd record (tree.rootless c last)
  | append_singleton names name ih =>
    obtain ⟨c, front, record⟩ := leads_concat.mp leads
    rcases List.eq_nil_or_concat' names' with none | ⟨names', name', more⟩
    · subst none
      cases leads'
      exact absurd record (tree.rootless c name)
    · subst more
      obtain ⟨c', front', record'⟩ := leads_concat.mp leads'
      obtain ⟨same, last⟩ := tree.single c c' b name name' record record'
      rw [← same] at front'
      rw [ih front front', last]

/-- A path from the root leads to a node in use. -/
theorem leads_used {b : σ} {names : List α} (leads : Leads children root names b) : used b := by
  rcases List.eq_nil_or_concat' names with none | ⟨front, last, more⟩
  · subst none
    cases leads
    exact tree.start
  · subst more
    obtain ⟨c, -, record⟩ := leads_concat.mp leads
    exact (tree.records c b last record).2

/-- At most one path leads from a node that can be reached to another one. -/
theorem unique_from {a b : σ} {names names' : List α}
    (reachable : Relation.ReflTransGen (Child children) root a) (leads : Leads children a names b)
    (leads' : Leads children a names' b) : names = names' := by
  obtain ⟨front, start⟩ := exists_leads reachable
  have same := tree.unique (start.append leads) (start.append leads')
  exact List.append_cancel_left same

/-- No cycle can be reached from the root. -/
theorem acyclic : Acyclic children root := by
  intro b reachable cycle
  obtain ⟨loop, long, around⟩ := exists_long cycle 1
  have none : loop = [] := tree.unique_from reachable around (.here b)
  subst none
  exact absurd long (Nat.not_succ_le_zero 0)

/-- A node in use is reached, or it is no record's and no other's. -/
theorem children_of_unused {n : σ} (unused : ¬used n) : children n = [] := by
  rcases list : children n with _ | ⟨⟨b, name⟩, rest⟩
  · rfl
  · have record : (b, name) ∈ children n := by
      rw [list]
      exact List.mem_cons_self
    exact absurd (tree.records n b name record).1 unused

/-- A node that comes into use without a record leaves a tree. -/
theorem weaken {used' : σ → Prop} (more : ∀ a, used a → used' a) : IsTree children used' root where
  start := more root tree.start
  records a b name record :=
    ⟨more a (tree.records a b name record).1, more b (tree.records a b name record).2⟩
  single := tree.single
  rootless := tree.rootless
  distinct := tree.distinct

section Graft

variable [DecidableEq σ] {parent n : σ} {name : α} (unused : ¬used n) (inside : used parent)

include unused inside

/-- A new node that is grafted under a new name leaves a tree. -/
theorem graft (fresh : name ∉ (children parent).map Prod.snd) :
    IsTree (Lib.graft children parent (n, name)) (fun a => used a ∨ a = n) root := by
  have target : ∀ a m, (n, m) ∉ children a :=
    fun a m record => unused (tree.records a n m record).2
  constructor
  case start => exact .inl tree.start
  case records =>
    intro a b m record
    rcases (mem_graft children).mp record with old | ⟨rfl, rfl, rfl⟩
    · have both := tree.records a b m old
      exact ⟨.inl both.1, .inl both.2⟩
    · exact ⟨.inl inside, .inr rfl⟩
  case single =>
    intro a a' b m m' record record'
    rcases (mem_graft children).mp record with old | ⟨rfl, rfl, rfl⟩
    · rcases (mem_graft children).mp record' with old' | ⟨rfl, rfl, rfl⟩
      · exact tree.single a a' b m m' old old'
      · exact absurd old (target a m)
    · rcases (mem_graft children).mp record' with old' | ⟨rfl, -, rfl⟩
      · exact absurd old' (target a' m')
      · exact ⟨rfl, rfl⟩
  case rootless =>
    intro a m record
    rcases (mem_graft children).mp record with old | ⟨-, is, -⟩
    · exact tree.rootless a m old
    · exact unused (is ▸ tree.start)
  case distinct =>
    intro a
    unfold Lib.graft
    by_cases here : a = parent
    · rw [if_pos here, List.map_append, List.map_singleton]
      apply List.Nodup.append (tree.distinct parent) (List.nodup_singleton name)
      intro m mem last
      rw [List.mem_singleton] at last
      exact fresh (last ▸ mem)
    · rw [if_neg here]
      exact tree.distinct a

/-- The enumeration gets one line more, for the path to the new node. -/
theorem preorder_graft {a : σ} {path : List α} (leads : Leads children a path parent) :
    ∀ {depth : Nat}, Relation.ReflTransGen (Child children) root a → path.length < depth →
      ∃ before after, preorder children depth a = before ++ after ∧
        preorder (Lib.graft children parent (n, name)) depth a =
          before ++ (path ++ [name], n) :: after := by
  have leaf : children n = [] := tree.children_of_unused unused
  have apart : n ≠ parent := fun same => unused (same ▸ inside)
  have alone : Lib.graft children parent (n, name) n = [] := by
    rw [Lib.graft, if_neg apart, leaf]
  induction leads with
  | here a =>
    intro depth reachable enough
    obtain ⟨depth, rfl⟩ := Nat.exists_eq_succ_of_ne_zero (Nat.ne_of_gt enough)
    refine ⟨preorder children (depth + 1) a, [], (List.append_nil _).symm, ?_⟩
    rw [preorder_succ, Lib.graft, if_pos rfl, List.flatMap_append, List.flatMap_singleton,
      preorder_leaf alone, List.map_nil, List.nil_append, preorder_succ]
    congr 1
    apply List.flatMap_congr
    rintro ⟨b, m⟩ record
    have below : preorder (Lib.graft children a (n, name)) depth b = preorder children depth b := by
      apply preorder_unreached
      intro names back
      have cycle := tree.unique_from reachable (.step record back) (.here a)
      exact absurd cycle (List.cons_ne_nil m names)
    simp only [below]
  | @step a b parent m names record rest ih =>
    intro depth reachable enough
    obtain ⟨depth, rfl⟩ := Nat.exists_eq_succ_of_ne_zero (Nat.ne_of_gt (Nat.zero_lt_of_lt enough))
    have whole : Leads children a (m :: names) parent := .step record rest
    have other : a ≠ parent := by
      rintro rfl
      have cycle := tree.unique_from reachable whole (.here a)
      exact absurd cycle (List.cons_ne_nil m names)
    obtain ⟨before, after, was, is⟩ :=
      ih inside apart alone (reachable.tail ⟨m, record⟩) (Nat.lt_of_succ_lt_succ enough)
    obtain ⟨front, back, split⟩ := List.append_of_mem record
    -- the siblings have other names, so the path does not go over them
    have distinct := tree.distinct a
    rw [split, List.map_append, List.map_cons, List.nodup_append] at distinct
    obtain ⟨-, distinctBack, parts⟩ := distinct
    have siblings : ∀ c l, (c, l) ∈ front ∨ (c, l) ∈ back → l ≠ m := by
      rintro c l (mem | mem) rfl
      · exact parts l (List.mem_map.mpr ⟨(c, l), mem, rfl⟩) l List.mem_cons_self rfl
      · exact (List.nodup_cons.mp distinctBack).1 (List.mem_map.mpr ⟨(c, l), mem, rfl⟩)
    have same : ∀ c l, (c, l) ∈ front ∨ (c, l) ∈ back →
        preorder (Lib.graft children parent (n, name)) depth c = preorder children depth c := by
      intro c l mem
      apply preorder_unreached
      intro path leads
      have there : (c, l) ∈ children a := by
        rw [split, List.mem_append, List.mem_cons]
        exact mem.imp id .inr
      have equal := tree.unique_from reachable (.step there leads) whole
      exact absurd (List.head_eq_of_cons_eq equal) (siblings c l mem)
    have unchanged : ∀ part : List (σ × α), (∀ entry ∈ part, entry ∈ front ∨ entry ∈ back) →
        part.flatMap (fun x => ([x.2], x.1) ::
          (preorder (Lib.graft children parent (n, name)) depth x.1).map
            fun y => (x.2 :: y.1, y.2)) =
        part.flatMap (fun x => ([x.2], x.1) ::
          (preorder children depth x.1).map fun y => (x.2 :: y.1, y.2)) := by
      intro part mem
      apply List.flatMap_congr
      rintro ⟨c, l⟩ there
      simp only [same c l (mem (c, l) there)]
    refine ⟨front.flatMap (fun x => ([x.2], x.1) ::
          (preorder children depth x.1).map fun y => (x.2 :: y.1, y.2)) ++
        ([m], b) :: before.map (fun y => (m :: y.1, y.2)),
      after.map (fun y => (m :: y.1, y.2)) ++ back.flatMap (fun x => ([x.2], x.1) ::
          (preorder children depth x.1).map fun y => (x.2 :: y.1, y.2)), ?_, ?_⟩
    · rw [preorder_succ, split, List.flatMap_append, List.flatMap_cons, was]
      simp only [List.map_append, List.append_assoc, List.cons_append]
    · rw [preorder_succ, Lib.graft, if_neg other, split, List.flatMap_append, List.flatMap_cons, is,
        unchanged front (fun entry => .inl), unchanged back (fun entry => .inr)]
      simp only [List.map_append, List.map_cons, List.append_assoc, List.cons_append]

end Graft

end IsTree

end Lib
