import U6fs.Lib.Supply
import U6fs.Verif.CommandView

/-!
# What a session takes

No command gives an inode back. A process that creates a file or directory takes one, and so does a
process that finds no free sector after its checks; the latter enters no path, unless only the
content of a file is missing. So the codes of a session tell how many lines more `inode` and `tree`
print after it.
-/
namespace U6fs

open Lib

/-- A process has taken an inode: it has made what it was asked for, or no sector was free. -/
def ServedRequest.takes (served : ServedRequest) : Bool :=
  served.request ≠ .read &&
    (served.code = errNone || served.code = errIo || served.code = errBitmapFull)

/-- A process has entered a path: it has made what it was asked for, or no sector was free for the
content of a file. -/
def ServedRequest.enters (served : ServedRequest) : Bool :=
  match served.request with
  | .read => false
  | .mkdir _ => served.code = errNone || served.code = errIo
  | .add _ buf => served.code = errNone || served.code = errIo ||
      (served.code = errBitmapFull && buf ≠ [])

namespace Volume

variable {ns ns' : Volume}

/-- One number more in use is one line more. -/
theorem listed_length {n : UInt16} (unused : ns n = none) (positive : 1 ≤ n.toNat)
    (used : ∀ i, ns' i ≠ none ↔ ns i ≠ none ∨ i = n) :
    (ns'.listed inodeLine).length = (ns.listed inodeLine).length + 1 := by
  rw [listed, listed, List.length_filterMap_eq_countP, List.length_filterMap_eq_countP]
  have bound := n.toNat_lt
  apply countP_one_more (x := n.toNat) List.nodup_range'
  · rw [List.mem_range'_1]
    omega
  · rw [UInt16.ofNat_toNat, unused]
    rfl
  · intro k mem
    rw [List.mem_range'_1] at mem
    have number : UInt16.ofNat k = n ↔ k = n.toNat := by
      rw [← UInt16.toNat_inj, UInt16.toNat_ofNat', Nat.mod_eq_of_lt (by omega)]
    have both := used (UInt16.ofNat k)
    rw [number, ← Option.isSome_iff_ne_none, ← Option.isSome_iff_ne_none] at both
    rw [Option.isSome_map, Option.isSome_map, Bool.eq_iff_iff, both, Bool.or_eq_true,
      decide_eq_true_eq]

/-- A node without a record has no line in the listing of all paths. -/
theorem treeLines_store {n : UInt16} {node : Node UInt16 (List UInt8) (List UInt8) UInt16}
    (tree : Namespace.Tree ns 1) (unused : ns n = none) (leaf : Namespace.Body.Leaf node.body) :
    treeLines (ns.store n node) = ns.treeLines := by
  have entries := Namespace.entries_store unused leaf
  rw [treeLines, treeLines, entries]
  congr 1
  apply List.filterMap_congr
  rintro ⟨names, inr⟩ there
  obtain ⟨-, -, path⟩ := mem_preorder.mp there
  have old : inr ≠ n := by
    rintro rfl
    exact tree.leads_used path unused
  rw [pathLine, pathLine, Namespace.store_apply, if_neg old]

/-- The listings of a volume have so many lines more than those of another one. -/
structure LinesMore (ns ns' : Volume) (inodes paths : Nat) : Prop where
  /-- The listing of inodes. -/
  inodes : (ns'.listed inodeLine).length = (ns.listed inodeLine).length + inodes
  /-- The listing of paths. -/
  paths : ns'.treeLines.length = ns.treeLines.length + paths

/-- A node that is stored without a record is a line more of inodes. -/
theorem linesMore_store {n : UInt16} {node : Node UInt16 (List UInt8) (List UInt8) UInt16}
    (tree : Namespace.Tree ns 1) (unused : ns n = none) (positive : 1 ≤ n.toNat)
    (leaf : Namespace.Body.Leaf node.body) : LinesMore ns (ns.store n node) 1 0 := by
  constructor
  · apply listed_length unused positive
    intro i
    rw [Namespace.store_apply]
    by_cases same : i = n
    · simp [same]
    · simp [same]
  · rw [treeLines_store tree unused leaf]
    rfl

/-- A node that is entered is a line more of both. -/
theorem Enters.linesMore {entry : List UInt8} {n : UInt16}
    {node : Node UInt16 (List UInt8) (List UInt8) UInt16} (enters : ns.Enters ns' entry n node)
    (tree : Namespace.Tree ns 1) (positive : 1 ≤ n.toNat) : LinesMore ns ns' 1 1 := by
  obtain ⟨before, after, was, is⟩ := enters.treeLines tree
  obtain ⟨-, parent, -, grows⟩ := enters
  constructor
  · exact listed_length grows.unused positive grows.used
  · rw [was, is, List.length_append, List.length_append, List.length_cons]
    omega

/-- Nothing is a line more of nothing. -/
theorem LinesMore.refl (ns : Volume) : LinesMore ns ns 0 0 := ⟨rfl, rfl⟩

/-- One step after another. -/
theorem LinesMore.trans {ns'' : Volume} {inodes inodes' paths paths' : Nat}
    (first : LinesMore ns ns' inodes paths) (second : LinesMore ns' ns'' inodes' paths') :
    LinesMore ns ns'' (inodes + inodes') (paths + paths') := by
  constructor
  · rw [second.inodes, first.inodes, Nat.add_assoc]
  · rw [second.paths, first.paths, Nat.add_assoc]

/-- The exit code of a process that has made what it was asked for. -/
theorem exitCode_made (closes : Bool) {code : Int} (made : 0 ≤ code) :
    exitCode closes code = errNone ∨ exitCode closes code = errIo := by
  rw [exitCode, if_neg (Int.not_lt.mpr made)]
  cases closes with
  | true => exact .inl rfl
  | false => exact .inr rfl

/-- The exit code of a process that has failed is its code. -/
theorem exitCode_failed (closes : Bool) {code : Int} (failed : code < 0) :
    exitCode closes code = code := if_pos failed

/-- A process that the checks refuse is no line more. -/
theorem linesMore_refused (ns : Volume) (request : Request) {closes room : Bool} {code : Int}
    (refused : Refused code) :
    LinesMore ns ns (ServedRequest.takes ⟨request, closes, room, exitCode closes code⟩).toNat
      (ServedRequest.enters ⟨request, closes, room, exitCode closes code⟩).toNat := by
  obtain ⟨failed, finds, writes⟩ := refused
  have none : code ≠ errNone := Int.ne_of_lt failed
  rw [exitCode_failed closes failed]
  cases request with
  | read => exact .refl ns
  | mkdir entry =>
    simp only [ServedRequest.takes, ServedRequest.enters, none, writes, finds]
    exact .refl ns
  | add entry buf =>
    simp only [ServedRequest.takes, ServedRequest.enters, none, writes, finds]
    exact .refl ns

/-- A process that has made what it was asked for is a line more of both. -/
theorem LinesMore.made {closes room : Bool} {request : Request} {code : Int}
    (lines : LinesMore ns ns' 1 1) (asks : request ≠ .read) (made : 0 ≤ code) :
    LinesMore ns ns' (ServedRequest.takes ⟨request, closes, room, exitCode closes code⟩).toNat
      (ServedRequest.enters ⟨request, closes, room, exitCode closes code⟩).toNat := by
  cases request with
  | read => exact absurd rfl asks
  | mkdir entry =>
    rcases exitCode_made closes made with exit | exit
    · rw [exit]
      exact lines
    · rw [exit]
      exact lines
  | add entry buf =>
    rcases exitCode_made closes made with exit | exit
    · rw [exit]
      exact lines
    · rw [exit]
      exact lines

/-- A request that a volume serves takes an inode and enters a path as its code tells. -/
theorem Serves.linesMore {closes room : Bool} {request : Request} {code : Int} {last : Nat}
    (tree : Namespace.Tree ns 1) (admits : ns.Admits last request)
    (serves : ns.Serves closes room request code ns') :
    LinesMore ns ns' (ServedRequest.takes ⟨request, closes, room, code⟩).toNat
      (ServedRequest.enters ⟨request, closes, room, code⟩).toNat := by
  have full : exitCode closes errBitmapFull = errBitmapFull := exitCode_failed closes (by decide)
  have file : (allRights ||| 0x8000) &&& ifdir = 0 := by decide
  cases serves with
  | read code => exact .refl ns
  | mkdir entry =>
    have number := admits.positive (by simp)
    have unused := (nextNumber_spec number).1
    rcases create_cases number (@Prod.mk.eta _ _ (ns.create room entry ifdir)).symm with
      ⟨refused, same⟩ | ⟨is, -, stored⟩ | ⟨is, enters⟩
    · rw [same]
      exact linesMore_refused ns _ refused
    · rw [stored, is, full]
      exact linesMore_store tree unused number (emptyNode_leaf ifdir)
    · exact (enters.linesMore tree number).made (by simp) (by omega)
  | add entry buf =>
    have ready : ns.ReadyFile last entry buf := admits
    have number := ready.number.1
    have unused := (nextNumber_spec number).1
    rcases addfile_cases number file (@Prod.mk.eta _ _ (ns.addfile room entry allRights buf)).symm
      with ⟨refused, same⟩ | ⟨is, ⟨parent, resolved, fills⟩, stored⟩ | ⟨is, more, enters⟩ |
        ⟨is, enters⟩
    · rw [same]
      exact linesMore_refused ns _ refused
    · -- a record that takes a sector is that of an empty file
      have empty : buf = [] := by
        by_contra more
        exact ready.single more parent resolved fills
      rw [stored, is, full, empty]
      exact linesMore_store tree unused number (emptyNode_leaf allRights)
    · have lines := enters.linesMore tree number
      rw [is, full, ServedRequest.takes, ServedRequest.enters]
      simp only [more, ne_eq, not_false_eq_true, decide_true, Bool.and_true]
      exact lines
    · exact (enters.linesMore tree number).made (by simp) (le_of_eq is.symm)

/-- A run takes inodes and enters paths as its codes tell. -/
theorem Run.linesMore {log : List ServedRequest} (run : ns.Run log ns')
    (tree : Namespace.Tree ns 1) :
    LinesMore ns ns' (log.countP ServedRequest.takes) (log.countP ServedRequest.enters) := by
  induction run with
  | start => exact .refl ns
  | next before admits serves ih =>
    rename_i log served last
    have lines := ih.trans (serves.linesMore (before.tree tree) admits)
    have count (counted : Bool) : (if counted = true then 1 else 0) = counted.toNat := by
      cases counted <;> rfl
    rw [List.countP_append, List.countP_append, List.countP_singleton, List.countP_singleton,
      count, count]
    exact lines

end Volume

/-- After any session on the disk file of a volume in good health whose records form a tree, the
command `inode` prints a line more for each process that has taken an inode, and `tree` a line more
for each that has entered a path. -/
theorem session_accounts {u : UnixFilesystem} (healthy : Healthy u)
    (tree : Namespace.Tree (namespaceOf u) 1) {log : List ServedRequest} {f : Disk}
    (session : Session u.f log f) :
    ∃ inodes inodes' paths paths', Prints u.f "inode" 3 (.inodes inodes) ∧
      Prints f "inode" 3 (.inodes inodes') ∧ PrintsTree u.f paths ∧ PrintsTree f paths' ∧
      inodes'.length = inodes.length + log.countP ServedRequest.takes ∧
      paths'.length = paths.length + log.countP ServedRequest.enters := by
  obtain ⟨w, mounted, well, run⟩ := session.reaches healthy
  obtain ⟨rfl, -⟩ := mountv6_coherent mounted
  have before := healthy.printed tree
  have after := well.printed (run.tree tree)
  have lines := run.linesMore tree
  exact ⟨_, _, _, _, before.inodes, after.inodes, before.tree, after.tree, lines.inodes,
    lines.paths⟩

/-- The directory and the file that are added to the empty volume are two lines more of both. -/
theorem session_accounts_empty :
    ∃ f inodes inodes' paths paths', Prints emptyVolume "inode" 3 (.inodes inodes) ∧
      Prints f "inode" 3 (.inodes inodes') ∧ PrintsTree emptyVolume paths ∧ PrintsTree f paths' ∧
      inodes'.length = inodes.length + 2 ∧ paths'.length = paths.length + 2 := by
  obtain ⟨u, output, f, v, output', f', mounted, admits, run, mounted', admits', run'⟩ :=
    emptyVolume_commands
  obtain ⟨disk, -⟩ := mountv6_coherent mounted
  obtain ⟨room, session⟩ := Session.start.serve mounted admits run
  obtain ⟨room', session'⟩ := session.serve mounted' admits' run'
  rw [← disk] at session'
  obtain ⟨inodes, inodes', paths, paths', was, is, before, after, more, longer⟩ :=
    session_accounts (emptyVolume_healthy mounted) (emptyVolume_tree mounted) session'
  rw [disk] at was before
  exact ⟨f', inodes, inodes', paths, paths', was, is, before, after, more, longer⟩

end U6fs
