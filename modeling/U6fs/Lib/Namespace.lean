import U6fs.Lib.Graft

/-!
# Namespaces

Numbered nodes are files or directories. A directory has records, each with a number and a name;
a file has content; both have an attribute. Paths are resolved name by name. A node is stored under
a number, a record is put behind those of a directory, and content is put into a file. A directory
whose new record names a new empty node grows the tree of records by a graft.
-/
namespace Lib

/-- What a node holds. -/
inductive Body (ι α β : Type) where
  /-- The records of a directory, in order. -/
  | directory (entries : List (ι × α))
  /-- The content of a file. -/
  | file (content : β)
deriving DecidableEq

/-- A file or a directory. -/
structure Node (ι α β κ : Type) where
  /-- What is known of it besides what it holds. -/
  attr : κ
  /-- What it holds. -/
  body : Body ι α β
deriving DecidableEq

/-- The nodes by their numbers. -/
abbrev Namespace (ι α β κ : Type) := ι → Option (Node ι α β κ)

/-- Why a name is not found. -/
inductive LookupError where
  /-- The number is not in use. -/
  | unused
  /-- The number is that of a file. -/
  | notDirectory
  /-- The directory has no record of that name. -/
  | absent
deriving DecidableEq

namespace Namespace

variable {ι α β κ : Type} (ns : Namespace ι α β κ)

/-- The records of a node; a file and an unused number have none. -/
def entries (i : ι) : List (ι × α) :=
  match ns i with
  | some ⟨_, .directory entries⟩ => entries
  | _ => []

/-- The number of the first record of a name. -/
def lookup [DecidableEq α] (i : ι) (name : α) : Except LookupError ι :=
  match ns i with
  | none => .error .unused
  | some ⟨_, .file _⟩ => .error .notDirectory
  | some ⟨_, .directory entries⟩ =>
    match entries.find? fun entry => entry.2 = name with
    | some entry => .ok entry.1
    | none => .error .absent

/-- The number to which a path of names leads. -/
def resolve [DecidableEq α] (i : ι) (names : List α) : Except LookupError ι :=
  names.foldlM ns.lookup i

section Changes

variable [DecidableEq ι]

/-- A node is stored under a number. -/
def store (n : ι) (node : Node ι α β κ) : Namespace ι α β κ :=
  fun i => if i = n then some node else ns i

/-- A record is put behind the records of a directory. -/
def record (parent : ι) (entry : ι × α) : Namespace ι α β κ :=
  match ns parent with
  | some ⟨attr, .directory entries⟩ => ns.store parent ⟨attr, .directory (entries ++ [entry])⟩
  | _ => ns

/-- Content is put into a file. -/
def fill (n : ι) (content : β) : Namespace ι α β κ :=
  match ns n with
  | some ⟨attr, .file _⟩ => ns.store n ⟨attr, .file content⟩
  | _ => ns

end Changes

/-- The records form a tree of the nodes. -/
def Tree (root : ι) : Prop := IsTree ns.entries (fun i => ns i ≠ none) root

variable {ns}

/-- The records of a directory. -/
theorem entries_directory {i : ι} {attr : κ} {entries : List (ι × α)}
    (is : ns i = some ⟨attr, .directory entries⟩) : ns.entries i = entries := by
  rw [Namespace.entries, is]

/-- A file has no records. -/
theorem entries_file {i : ι} {attr : κ} {content : β} (is : ns i = some ⟨attr, .file content⟩) :
    ns.entries i = [] := by
  rw [Namespace.entries, is]

/-- An unused number has no records. -/
theorem entries_unused {i : ι} (is : ns i = none) : ns.entries i = [] := by
  rw [Namespace.entries, is]

section Resolve

variable [DecidableEq α]

/-- Where names are distinct, a name is looked up as the number of its record. -/
theorem lookup_eq_ok_iff {i b : ι} {name : α} (distinct : ((ns.entries i).map Prod.snd).Nodup) :
    ns.lookup i name = .ok b ↔ (b, name) ∈ ns.entries i := by
  unfold lookup
  unfold Namespace.entries at distinct ⊢
  rcases found : ns i with _ | ⟨attr, records | content⟩
  · simp
  · simp only [found] at distinct ⊢
    constructor
    · intro run
      split at run
      · rename_i entry first
        have is := List.find?_some first
        rw [decide_eq_true_eq] at is
        cases run
        rw [← is]
        exact List.mem_of_find?_eq_some first
      · cases run
    · intro record
      have there : (records.find? fun entry => decide (entry.2 = name)) = some (b, name) := by
        obtain ⟨front, back, split⟩ := List.append_of_mem record
        rw [split, List.map_append, List.map_cons, List.nodup_append] at distinct
        have before : ∀ entry ∈ front, ¬decide (entry.2 = name) = true := by
          intro entry mem is
          rw [decide_eq_true_eq] at is
          exact distinct.2.2 entry.2 (List.mem_map_of_mem mem) name List.mem_cons_self is
        rw [split, List.find?_append, List.find?_eq_none.mpr before, Option.none_or]
        exact List.find?_cons_of_pos (decide_eq_true rfl)
      rw [there]
  · simp

/-- A name is absent from a directory that has no record of it. -/
theorem lookup_absent_iff {i : ι} {name : α} : ns.lookup i name = .error .absent ↔
    (∃ attr records, ns i = some ⟨attr, .directory records⟩) ∧
      name ∉ (ns.entries i).map Prod.snd := by
  unfold lookup
  rcases found : ns i with _ | ⟨attr, records | content⟩
  · simp
  · have directory : ∃ attr' records', (some ⟨attr, .directory records⟩ : Option (Node ι α β κ)) =
        some ⟨attr', .directory records'⟩ := ⟨attr, records, rfl⟩
    rw [entries_directory found, List.mem_map]
    simp only [directory, true_and]
    cases first : records.find? fun entry => decide (entry.2 = name) with
    | none =>
      refine ⟨fun _ => ?_, fun _ => rfl⟩
      rintro ⟨entry, mem, is⟩
      have other := List.find?_eq_none.mp first entry mem
      rw [decide_eq_true_eq] at other
      exact other is
    | some entry =>
      have is := List.find?_some first
      rw [decide_eq_true_eq] at is
      constructor
      · intro wrong
        cases wrong
      · intro none
        exact absurd ⟨entry, List.mem_of_find?_eq_some first, is⟩ none
  · simp

/-- Where names are distinct, a path resolves to the number to which its records lead. -/
theorem resolve_eq_ok_iff (distinct : ∀ i, ((ns.entries i).map Prod.snd).Nodup)
    {names : List α} : ∀ {i b : ι}, ns.resolve i names = .ok b ↔ Leads ns.entries i names b := by
  induction names with
  | nil =>
    intro i b
    constructor
    · intro run
      cases run
      exact .here i
    · intro leads
      cases leads
      rfl
  | cons name names ih =>
    intro i b
    have unfolded : ns.resolve i (name :: names) =
        match ns.lookup i name with
        | .ok next => ns.resolve next names
        | .error failure => .error failure := by
      rw [resolve, List.foldlM_cons]
      cases ns.lookup i name <;> rfl
    rw [unfolded]
    constructor
    · intro run
      cases first : ns.lookup i name with
      | error failure =>
        rw [first] at run
        cases run
      | ok next =>
        rw [first] at run
        exact .step ((lookup_eq_ok_iff (distinct i)).mp first) (ih.mp run)
    · intro leads
      cases leads with
      | @step _ next _ _ _ record rest =>
        rw [(lookup_eq_ok_iff (distinct i)).mpr record]
        exact ih.mpr rest

end Resolve

/-- The stored node is found under its number, and the others under theirs. -/
theorem store_apply [DecidableEq ι] (ns : Namespace ι α β κ) (n : ι) (node : Node ι α β κ) (i : ι) :
    ns.store n node i = if i = n then some node else ns i := rfl

/-- A directory with a record more. -/
theorem record_directory [DecidableEq ι] {parent : ι} {attr : κ} {records : List (ι × α)}
    (is : ns parent = some ⟨attr, .directory records⟩) (entry : ι × α) :
    ns.record parent entry = ns.store parent ⟨attr, .directory (records ++ [entry])⟩ := by
  rw [record, is]

/-- A node that names no other: an empty directory, or a file. -/
def Body.Leaf : Body ι α β → Prop
  | .directory entries => entries = []
  | .file _ => True

/-- A leaf has no records. -/
theorem entries_leaf {n : ι} {node : Node ι α β κ} (is : ns n = some node)
    (leaf : Body.Leaf node.body) : ns.entries n = [] := by
  obtain ⟨attr, records | content⟩ := node
  · rw [entries_directory is]
    exact leaf
  · exact entries_file is

section Growth

variable [DecidableEq ι]

/-- A leaf that is stored under an unused number changes no records. -/
theorem entries_store {n : ι} {node : Node ι α β κ} (unused : ns n = none)
    (leaf : Body.Leaf node.body) : (ns.store n node).entries = ns.entries := by
  funext i
  by_cases new : i = n
  · rw [new, entries_unused unused]
    exact entries_leaf (by rw [store_apply, if_pos rfl]) leaf
  · unfold Namespace.entries
    rw [store_apply, if_neg new]

/-- The records stay a tree when a leaf is stored under an unused number. -/
theorem Tree.store {root n : ι} {node : Node ι α β κ} (tree : ns.Tree root)
    (unused : ns n = none) (leaf : Body.Leaf node.body) : (ns.store n node).Tree root := by
  unfold Tree
  rw [entries_store unused leaf]
  apply IsTree.weaken tree
  intro i used
  rw [store_apply]
  split
  · exact Option.some_ne_none _
  · exact used

/-- A namespace grows by a leaf with a record: the number was not in use, and the name is new in the
directory. -/
structure Grows (ns ns' : Namespace ι α β κ) (parent n : ι) (name : α) (node : Node ι α β κ) :
    Prop where
  /-- The number was not in use. -/
  unused : ns n = none
  /-- The record is in a directory. -/
  directory : ∃ attr records, ns parent = some ⟨attr, .directory records⟩
  /-- The name is new there. -/
  fresh : name ∉ (ns.entries parent).map Prod.snd
  /-- The new node names no other. -/
  leaf : Body.Leaf node.body
  /-- The node is stored and recorded. -/
  is : ns' = (ns.store n node).record parent (n, name)

namespace Grows

variable {ns' : Namespace ι α β κ} {parent n : ι} {name : α} {node : Node ι α β κ}
  (grows : Grows ns ns' parent n name node)

include grows

/-- The new node is another one than the directory. -/
theorem apart : parent ≠ n := by
  obtain ⟨attr, records, is⟩ := grows.directory
  rintro rfl
  rw [grows.unused] at is
  cases is

/-- What is found under a number afterwards. -/
theorem apply {attr : κ} {records : List (ι × α)}
    (is : ns parent = some ⟨attr, .directory records⟩) (i : ι) :
    ns' i = if i = parent then some ⟨attr, .directory (records ++ [(n, name)])⟩
      else if i = n then some node else ns i := by
  have kept : ns.store n node parent = some ⟨attr, .directory records⟩ := by
    rw [store_apply, if_neg grows.apart, is]
  rw [grows.is, record_directory kept, store_apply, store_apply]

/-- The new node. -/
theorem new : ns' n = some node := by
  obtain ⟨attr, records, is⟩ := grows.directory
  rw [grows.apply is, if_neg (Ne.symm grows.apart), if_pos rfl]

/-- Other nodes than the new one and the directory are as before. -/
theorem kept {i : ι} (other : i ≠ parent) (old : i ≠ n) : ns' i = ns i := by
  obtain ⟨attr, records, is⟩ := grows.directory
  rw [grows.apply is, if_neg other, if_neg old]

/-- Files are as before. -/
theorem file {i : ι} {attr : κ} {content : β} (is : ns i = some ⟨attr, .file content⟩) :
    ns' i = some ⟨attr, .file content⟩ := by
  obtain ⟨_, records, there⟩ := grows.directory
  rw [grows.kept, is]
  · rintro rfl
    rw [there] at is
    cases is
  · rintro rfl
    rw [grows.unused] at is
    cases is

omit grows in
/-- Content that is put into the new file grows the namespace by a file with that content. -/
theorem fill {attr : κ} {content : β} (content' : β)
    (grows : Grows ns ns' parent n name ⟨attr, .file content⟩) :
    Grows ns (ns'.fill n content') parent n name ⟨attr, .file content'⟩ where
  unused := grows.unused
  directory := grows.directory
  fresh := grows.fresh
  leaf := trivial
  is := by
    obtain ⟨attr', records, is⟩ := grows.directory
    have apart := grows.apart
    have kept : ns.store n ⟨attr, .file content'⟩ parent = some ⟨attr', .directory records⟩ := by
      rw [store_apply, if_neg apart, is]
    rw [Namespace.fill, grows.new, record_directory kept]
    funext i
    simp only [store_apply, grows.apply is]
    by_cases new : i = n
    · rw [if_pos new, new, if_neg (Ne.symm apart), if_pos rfl]
    · simp only [if_neg new]

/-- The records of the directory end with the new one; the others are as before. -/
theorem entries : ns'.entries = graft ns.entries parent (n, name) := by
  obtain ⟨attr, records, is⟩ := grows.directory
  funext i
  unfold graft
  by_cases here : i = parent
  · rw [if_pos here, here, entries_directory is]
    apply entries_directory
    rw [grows.apply is, if_pos rfl]
  · rw [if_neg here]
    by_cases new : i = n
    · rw [new, entries_unused grows.unused]
      exact entries_leaf grows.new grows.leaf
    · unfold Namespace.entries
      rw [grows.kept here new]

/-- The numbers in use are the old ones and the new one. -/
theorem used (i : ι) : ns' i ≠ none ↔ ns i ≠ none ∨ i = n := by
  obtain ⟨attr, records, is⟩ := grows.directory
  rw [grows.apply is]
  by_cases here : i = parent
  · rw [if_pos here, here, is]
    simp
  · rw [if_neg here]
    by_cases new : i = n
    · rw [if_pos new]
      simp [new]
    · rw [if_neg new]
      simp [new]

/-- The records form a tree again. -/
theorem tree {root : ι} (tree : ns.Tree root) : ns'.Tree root := by
  have inside : ns parent ≠ none := by
    obtain ⟨attr, records, is⟩ := grows.directory
    rw [is]
    exact Option.some_ne_none _
  have grown := IsTree.graft tree (not_not.mpr grows.unused) inside grows.fresh
  rw [← grows.entries] at grown
  unfold Tree
  simp only [grows.used]
  exact grown

/-- A record that was there is there. -/
theorem mem_entries {i : ι} {entry : ι × α} (mem : entry ∈ ns.entries i) :
    entry ∈ ns'.entries i := by
  rw [grows.entries]
  exact (mem_graft ns.entries).mpr (.inl mem)

/-- Names stay distinct. -/
theorem distinct (distinct : ∀ i, ((ns.entries i).map Prod.snd).Nodup) (i : ι) :
    ((ns'.entries i).map Prod.snd).Nodup := by
  rw [grows.entries, graft]
  by_cases here : i = parent
  · rw [if_pos here, List.map_append, List.map_singleton]
    apply List.Nodup.append (distinct parent) (List.nodup_singleton name)
    intro m mem last
    rw [List.mem_singleton] at last
    exact grows.fresh (last ▸ mem)
  · rw [if_neg here]
    exact distinct i

/-- What a path resolves to stays. -/
theorem resolve [DecidableEq α] (distinct : ∀ i, ((ns.entries i).map Prod.snd).Nodup) {i b : ι}
    {names : List α} (resolved : ns.resolve i names = .ok b) : ns'.resolve i names = .ok b := by
  rw [resolve_eq_ok_iff (grows.distinct distinct)]
  rw [resolve_eq_ok_iff distinct] at resolved
  induction resolved with
  | here i => exact .here i
  | step record rest ih => exact .step (grows.mem_entries record) ih

/-- The path of the directory and the name lead to the new node. -/
theorem resolve_new [DecidableEq α] (distinct : ∀ i, ((ns.entries i).map Prod.snd).Nodup)
    {root : ι} {names : List α} (resolved : ns.resolve root names = .ok parent) :
    ns'.resolve root (names ++ [name]) = .ok n := by
  have front := (resolve_eq_ok_iff (grows.distinct distinct)).mp (grows.resolve distinct resolved)
  apply (resolve_eq_ok_iff (grows.distinct distinct)).mpr
  apply leads_concat.mpr
  refine ⟨parent, front, ?_⟩
  rw [grows.entries]
  exact (mem_graft ns.entries).mpr (.inr ⟨rfl, rfl, rfl⟩)

end Grows

end Growth

end Namespace

end Lib
