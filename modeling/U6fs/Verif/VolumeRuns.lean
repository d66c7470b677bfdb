import U6fs.Spec.Namespace

/-!
# Runs of requests on a volume

A request leaves a volume as it is, or stores an empty node that no record names, since no sector is
free, or enters a new node under a path. So the records of a volume stay a tree through any run, and
files stay under their paths with the content they have.
-/
namespace U6fs

open Lib

/-- The next number is not in use, and every smaller one is. -/
theorem nextNumber_spec {ns : Volume} (positive : 1 ≤ ns.nextNumber.toNat) :
    ns ns.nextNumber = none ∧
      ∀ k : UInt16, 1 ≤ k.toNat → k.toNat < ns.nextNumber.toNat → ns k ≠ none := by
  unfold Volume.nextNumber at positive ⊢
  cases found : (List.range' 1 65535).find? fun n => (ns (UInt16.ofNat n)).isNone with
  | none =>
    rw [found] at positive
    exact absurd positive (by decide)
  | some n =>
    obtain ⟨unused, mem, before⟩ := List.find?_range'_eq_some.mp found
    rw [List.mem_range'_1] at mem
    have number : (UInt16.ofNat n).toNat = n := by
      rw [UInt16.toNat_ofNat']
      exact Nat.mod_eq_of_lt (by omega)
    simp only [number]
    refine ⟨Option.isNone_iff_eq_none.mp unused, fun k low high free => ?_⟩
    have used := before k.toNat low high
    rw [UInt16.ofNat_toNat, free] at used
    exact absurd used (by decide)

namespace Volume

/-- A new node is entered under a path. -/
structure Enters (ns ns' : Volume) (entry : List UInt8) (n : UInt16)
    (node : Node UInt16 (List UInt8) (List UInt8) UInt16) : Prop where
  /-- The path has a last component. -/
  named : (splitPath entry).2 ≠ []
  /-- The node is recorded in the directory of the path. -/
  grows : ∃ parent, ns.resolve 1 (splitPath entry).1 = .ok parent ∧
    Namespace.Grows ns ns' parent n (splitPath entry).2 node

/-- An empty node names no other. -/
theorem emptyNode_leaf (mode : UInt16) :
    Namespace.Body.Leaf (emptyNode mode).body := by
  unfold emptyNode
  split
  · exact rfl
  · exact trivial

/-- A code of the checks of a creation. -/
def Refused (code : Int) : Prop := code < 0 ∧ code ≠ errBitmapFull ∧ code ≠ errIo

instance (code : Int) : Decidable (Refused code) := inferInstanceAs (Decidable (_ ∧ _))

section Requests

variable {ns ns' : Volume} {room : Bool} {entry : List UInt8} {mode : UInt16} {code : Int}
  (number : 1 ≤ ns.nextNumber.toNat)

include number

/-- A creation fails and changes nothing, or it stores a node without a record, or enters one. -/
theorem create_cases (is : ns.create room entry mode = (code, ns')) :
    (Refused code ∧ ns' = ns) ∨
    (code = errBitmapFull ∧
      (∃ parent, ns.resolve 1 (splitPath entry).1 = .ok parent ∧ ns.FillsSectors parent) ∧
      ns' = ns.store ns.nextNumber (emptyNode mode)) ∨
    (code = (ns.nextNumber.toNat : Int) ∧
      ns.Enters ns' entry ns.nextNumber (emptyNode mode)) := by
  have refused : ∀ failure, Refused (lookupErrorCode failure) := by
    intro failure
    cases failure <;> decide
  rw [create] at is
  by_cases long : 14 < (splitPath entry).2.length
  · rw [if_pos long] at is
    cases is
    exact .inl ⟨by decide, rfl⟩
  · rw [if_neg long] at is
    cases resolved : ns.resolve 1 (splitPath entry).1 with
    | error failure =>
      rw [resolved] at is
      cases is
      exact .inl ⟨refused failure, rfl⟩
    | ok parent =>
      rw [resolved] at is
      simp only at is
      cases last : ns.lookupLast parent (splitPath entry).2 with
      | ok found =>
        rw [last] at is
        cases is
        exact .inl ⟨by decide, rfl⟩
      | error failure =>
        rw [last] at is
        cases failure with
        | unused =>
          cases is
          exact .inl ⟨by decide, rfl⟩
        | notDirectory =>
          cases is
          exact .inl ⟨by decide, rfl⟩
        | absent =>
          simp only at is
          have named : (splitPath entry).2 ≠ [] := by
            intro none
            rw [lookupLast, if_pos none] at last
            cases last
          rw [lookupLast, if_neg named, Namespace.lookup_absent_iff] at last
          rw [enter] at is
          split_ifs at is with blocked
          · cases is
            exact .inr (.inl ⟨rfl, ⟨parent, rfl, blocked.1⟩, rfl⟩)
          · cases is
            exact .inr (.inr ⟨rfl, named, parent, resolved, (nextNumber_spec number).1, last.1,
              last.2, emptyNode_leaf mode, rfl⟩)

/-- Adding a file fails and changes nothing, or it stores a node without a record, or enters an
empty file and no sector is free for its content, or enters a file with its content. -/
theorem addfile_cases {buf : List UInt8} (file : (mode ||| 0x8000) &&& ifdir = 0)
    (is : ns.addfile room entry mode buf = (code, ns')) :
    (Refused code ∧ ns' = ns) ∨
    (code = errBitmapFull ∧
      (∃ parent, ns.resolve 1 (splitPath entry).1 = .ok parent ∧ ns.FillsSectors parent) ∧
      ns' = ns.store ns.nextNumber (emptyNode mode)) ∨
    (code = errBitmapFull ∧ buf ≠ [] ∧ ns.Enters ns' entry ns.nextNumber (emptyNode mode)) ∨
    (code = errNone ∧ ns.Enters ns' entry ns.nextNumber ⟨mode ||| 0x8000, .file buf⟩) := by
  have node : emptyNode mode = ⟨mode ||| 0x8000, .file []⟩ := by
    rw [emptyNode, file]
    rfl
  rw [addfile] at is
  cases created : ns.create room entry mode with
  | mk first ns₁ =>
    rw [created] at is
    simp only at is
    rcases create_cases number created with ⟨refused, rfl⟩ | ⟨rfl, fills, rfl⟩ | ⟨rfl, enters⟩
    · rw [if_pos refused.1] at is
      cases is
      exact .inl ⟨refused, rfl⟩
    · rw [if_pos (by decide)] at is
      cases is
      exact .inr (.inl ⟨rfl, fills, rfl⟩)
    · have same : UInt16.ofNat ((ns.nextNumber.toNat : Int)).toNat = ns.nextNumber := by
        rw [Int.toNat_natCast, UInt16.ofNat_toNat]
      rw [if_neg (by omega), same] at is
      split_ifs at is with empty full
      · cases is
        rw [node, ← empty] at enters
        exact .inr (.inr (.inr ⟨rfl, enters⟩))
      · cases is
        exact .inr (.inr (.inl ⟨rfl, empty, enters⟩))
      · cases is
        rw [node] at enters
        obtain ⟨named, parent, resolved, grows⟩ := enters
        exact .inr (.inr (.inr ⟨rfl, named, parent, resolved, grows.fill buf⟩))

end Requests

/-- The number of a volume that admits a request to write is there. -/
theorem Admits.positive {ns : Volume} {last : Nat} {request : Request}
    (admits : ns.Admits last request) (writes : request ≠ .read) :
    1 ≤ ns.nextNumber.toNat := by
  cases request with
  | read => exact absurd rfl writes
  | mkdir entry =>
    have ready : ns.Ready last entry := admits
    exact ready.number.1
  | add entry buf =>
    have ready : ns.ReadyFile last entry buf := admits
    exact ready.number.1

/-- A creation that fails with a free sector fails without one, with the same code. -/
theorem create_fails {ns : Volume} {entry : List UInt8} {mode : UInt16}
    (fails : (ns.create true entry mode).1 < 0) (room : Bool) :
    ns.create room entry mode = ((ns.create true entry mode).1, ns) := by
  unfold create at fails ⊢
  by_cases long : 14 < (splitPath entry).2.length
  · simp only [if_pos long]
  · simp only [if_neg long] at fails ⊢
    cases resolved : ns.resolve 1 (splitPath entry).1 with
    | error failure => rfl
    | ok parent =>
      rw [resolved] at fails
      simp only at fails ⊢
      cases last : ns.lookupLast parent (splitPath entry).2 with
      | ok found => rfl
      | error failure =>
        rw [last] at fails
        cases failure with
        | unused => rfl
        | notDirectory => rfl
        | absent =>
          simp only [enter, Bool.true_eq_false, and_false, if_false] at fails
          exact absurd fails (Int.not_lt.mpr (Int.natCast_nonneg _))

/-- What a request may do to a volume. -/
inductive Changes (ns : Volume) : Volume → Prop
  /-- Nothing. -/
  | same : Changes ns ns
  /-- A node more is stored, without a record. -/
  | store {n : UInt16} {node : Node UInt16 (List UInt8) (List UInt8) UInt16} (unused : ns n = none)
    (leaf : Namespace.Body.Leaf node.body) : Changes ns (ns.store n node)
  /-- A new node is entered under a path. -/
  | enter {ns' : Volume} {entry : List UInt8} {n : UInt16}
    {node : Node UInt16 (List UInt8) (List UInt8) UInt16} (enters : ns.Enters ns' entry n node) :
    Changes ns ns'

namespace Changes

variable {ns ns' : Volume} (changes : ns.Changes ns') (rooted : Namespace.Tree ns 1)

include changes rooted

/-- The records stay a tree. -/
theorem tree : Namespace.Tree ns' 1 := by
  cases changes with
  | same => exact rooted
  | store unused leaf => exact rooted.store unused leaf
  | enter enters =>
    obtain ⟨-, parent, -, grows⟩ := enters
    exact grows.tree rooted

/-- Files stay under their paths, with the content they have. -/
theorem keeps {names : List (List UInt8)} {i : UInt16} {attr : UInt16} {content : List UInt8}
    (resolved : ns.resolve 1 names = .ok i) (is : ns i = some ⟨attr, .file content⟩) :
    ns'.resolve 1 names = .ok i ∧ ns' i = some ⟨attr, .file content⟩ := by
  cases changes with
  | same => exact ⟨resolved, is⟩
  | @store n node unused leaf =>
    have entries := Namespace.entries_store unused leaf
    constructor
    · rw [Namespace.resolve_eq_ok_iff rooted.distinct] at resolved
      rw [Namespace.resolve_eq_ok_iff (by rw [entries]; exact rooted.distinct), entries]
      exact resolved
    · rw [Namespace.store_apply, if_neg]
      · exact is
      · rintro rfl
        rw [unused] at is
        cases is
  | enter enters =>
    obtain ⟨-, parent, -, grows⟩ := enters
    exact ⟨grows.resolve rooted.distinct resolved, grows.file is⟩

end Changes

section Stages

variable {ns : Volume} {room : Bool} {entry : List UInt8} {mode : UInt16}
  (number : 1 ≤ ns.nextNumber.toNat)

include number

/-- The new node before it has a record. -/
theorem store_changes : ns.Changes (ns.store ns.nextNumber (emptyNode mode)) :=
  .store (nextNumber_spec number).1 (emptyNode_leaf mode)

/-- A creation. -/
theorem create_changes : ns.Changes (ns.create room entry mode).2 := by
  cases created : ns.create room entry mode with
  | mk code ns' =>
    rcases create_cases number created with ⟨-, rfl⟩ | ⟨-, -, rfl⟩ | ⟨-, enters⟩
    · exact .same
    · exact store_changes number
    · exact .enter enters

/-- Adding a file. -/
theorem addfile_changes {buf : List UInt8} (file : (mode ||| 0x8000) &&& ifdir = 0) :
    ns.Changes (ns.addfile room entry mode buf).2 := by
  cases added : ns.addfile room entry mode buf with
  | mk code ns' =>
    rcases addfile_cases number file added with
      ⟨-, rfl⟩ | ⟨-, -, rfl⟩ | ⟨-, -, enters⟩ | ⟨-, enters⟩
    · exact .same
    · exact store_changes number
    · exact .enter enters
    · exact .enter enters

/-- What a creation may leave when it is cut off. -/
theorem creations_changes {ns' : Volume} (stage : ns' ∈ ns.creations room entry mode) :
    ns.Changes ns' := by
  rw [creations] at stage
  split_ifs at stage with fails
  · obtain rfl := List.mem_singleton.mp stage
    exact .same
  · simp only [List.mem_cons, List.not_mem_nil, or_false] at stage
    rcases stage with rfl | rfl | rfl
    · exact .same
    · exact store_changes number
    · exact create_changes number

end Stages

/-- A creation may be cut off before it has done anything. -/
theorem creations_start (ns : Volume) (room : Bool) (entry : List UInt8) (mode : UInt16) :
    ns ∈ ns.creations room entry mode := by
  rw [creations]
  split_ifs <;> exact List.mem_cons_self

/-- A creation goes through all its stages. -/
theorem creations_end (ns : Volume) (room : Bool) (entry : List UInt8) (mode : UInt16) :
    (ns.create room entry mode).2 ∈ ns.creations room entry mode := by
  rw [creations]
  split_ifs with fails
  · rw [create_fails fails room]
    exact List.mem_singleton_self ns
  · simp only [List.mem_cons, true_or, or_true]

/-- A request may be cut off before it has done anything. -/
theorem stages_start (ns : Volume) (room : Bool) (request : Request) :
    ns ∈ ns.stages room request := by
  cases request with
  | read => exact List.mem_singleton_self ns
  | mkdir entry => exact ns.creations_start room entry ifdir
  | add entry buf => exact List.mem_append_left _ (ns.creations_start room entry allRights)

/-- A request that is served has gone through all its stages. -/
theorem Serves.stage {ns ns' : Volume} {closes room : Bool} {request : Request} {code : Int}
    (serves : ns.Serves closes room request code ns') : ns' ∈ ns.stages room request := by
  cases serves with
  | read => exact List.mem_singleton_self ns
  | mkdir entry => exact ns.creations_end room entry ifdir
  | add entry buf => exact List.mem_append_right _ (List.mem_singleton_self _)

/-- What each stage of a request that is admitted does. -/
theorem stages_changes {ns ns' : Volume} {room : Bool} {request : Request} {last : Nat}
    (admits : ns.Admits last request) (stage : ns' ∈ ns.stages room request) : ns.Changes ns' := by
  cases request with
  | read =>
    obtain rfl := List.mem_singleton.mp stage
    exact .same
  | mkdir entry => exact creations_changes (admits.positive (by simp)) stage
  | add entry buf =>
    have number := admits.positive (by simp)
    rcases List.mem_append.mp stage with stage | stage
    · exact creations_changes number stage
    · obtain rfl := List.mem_singleton.mp stage
      exact addfile_changes number (by decide)

/-- A request to write that succeeds enters the node that it makes. -/
theorem Serves.makes {ns ns' : Volume} {closes room : Bool} {request : Request} {last : Nat}
    {entry : List UInt8} {node : Node UInt16 (List UInt8) (List UInt8) UInt16}
    (admits : ns.Admits last request) (makes : request.makes = some (entry, node))
    (serves : ns.Serves closes room request errNone ns') :
    ns.Enters ns' entry ns.nextNumber node := by
  have file : (allRights ||| 0x8000) &&& ifdir = 0 := by decide
  generalize is : errNone = code at serves
  have failed : ∀ code < 0, exitCode closes code ≠ errNone := by
    intro code negative
    rw [exitCode, if_pos negative]
    unfold errNone
    omega
  cases serves with
  | read => cases makes
  | mkdir entry =>
    cases makes
    have number := admits.positive (by simp)
    rcases create_cases number (@Prod.mk.eta _ _ (ns.create room entry ifdir)).symm with
      ⟨refused, -⟩ | ⟨full, -, -⟩ | ⟨-, enters⟩
    · exact absurd is.symm (failed _ refused.1)
    · exact absurd is.symm (failed _ (by rw [full]; decide))
    · exact enters
  | add entry buf =>
    cases makes
    have number := admits.positive (by simp)
    have done := @Prod.mk.eta _ _ (ns.addfile room entry allRights buf)
    rcases addfile_cases number file done.symm with
      ⟨refused, -⟩ | ⟨full, -, -⟩ | ⟨full, -, -⟩ | ⟨-, enters⟩
    · exact absurd is.symm (failed _ refused.1)
    · exact absurd is.symm (failed _ (by rw [full]; decide))
    · exact absurd is.symm (failed _ (by rw [full]; decide))
    · exact enters

/-- The components of a path with a last component. -/
theorem components_split {entry : List UInt8} (named : (splitPath entry).2 ≠ []) :
    components pathToken entry = (splitPath entry).1 ++ [(splitPath entry).2] := by
  rw [splitPath] at named ⊢
  split
  · rename_i ends
    rw [if_pos ends] at named
    rcases List.eq_nil_or_concat' (components pathToken entry) with none | ⟨front, name, is⟩
    · rw [none] at named
      exact absurd rfl named
    · rw [is, List.dropLast_concat, List.getLastD_concat]
  · rename_i ends
    rw [if_neg ends] at named
    exact absurd rfl named

section Runs

variable {ns ns' : Volume} {log : List ServedRequest} (run : ns.Run log ns')
  (start : Namespace.Tree ns 1)

include run start

/-- The records stay a tree through any run. -/
theorem Run.tree : Namespace.Tree ns' 1 := by
  induction run with
  | start => exact start
  | next before admits serves ih => exact (stages_changes admits serves.stage).tree ih

/-- Files stay under their paths through any run, with the content they have. -/
theorem Run.keeps {names : List (List UInt8)} {i : UInt16} {attr : UInt16} {content : List UInt8}
    (resolved : ns.resolve 1 names = .ok i) (is : ns i = some ⟨attr, .file content⟩) :
    ns'.resolve 1 names = .ok i ∧ ns' i = some ⟨attr, .file content⟩ := by
  induction run with
  | start => exact ⟨resolved, is⟩
  | next before admits serves ih =>
    obtain ⟨resolved', is'⟩ := ih
    exact (stages_changes admits serves.stage).keeps (before.tree start) resolved' is'

end Runs

section Lives

variable {ns ns' : Volume} {requests : List Request} (life : ns.Life requests ns')
  (start : Namespace.Tree ns 1)

include life start

/-- The records stay a tree, also when requests are cut off. -/
theorem Life.tree : Namespace.Tree ns' 1 := by
  induction life with
  | start => exact start
  | next before admits stage ih => exact (stages_changes admits stage).tree ih

/-- Files stay under their paths, also when requests are cut off. -/
theorem Life.keeps {names : List (List UInt8)} {i : UInt16} {attr : UInt16} {content : List UInt8}
    (resolved : ns.resolve 1 names = .ok i) (is : ns i = some ⟨attr, .file content⟩) :
    ns'.resolve 1 names = .ok i ∧ ns' i = some ⟨attr, .file content⟩ := by
  induction life with
  | start => exact ⟨resolved, is⟩
  | next before admits stage ih =>
    obtain ⟨resolved', is'⟩ := ih
    exact (stages_changes admits stage).keeps (before.tree start) resolved' is'

end Lives

end Volume

end U6fs
