import U6fs.Verif.StoredWalk
import U6fs.Verif.Tree

/-!
# The tree on the disk and its listing

The tree of a volume is given by the records that its directories have on the disk. The listing of
it agrees with the lookup of paths, in the order of these records, when every sector of its
directories is found where the format has it. A root of exactly 4096 bytes is read elsewhere, and
its listing fails.
-/
namespace U6fs

open Lib

/-- The records of a directory on the disk: inode numbers and names. -/
def Disk.dirEntries (f : Disk) (inode : Inode) : List (UInt16 × List UInt8) :=
  (records (f.contents inode)).map Direntv6.pair

/-- The records on the disk of a number; none if it is not that of a directory in use. -/
def storedTree (u : UnixFilesystem) (inr : UInt16) : List (UInt16 × List UInt8) :=
  if (inodeRead u inr Inode.zero).1 = errNone ∧ (inodeRead u inr Inode.zero).2.isDirectory = true
  then u.f.dirEntries (inodeRead u inr Inode.zero).2
  else []

/-- A directory of whole records, all of whose sectors can be read, with distinct names that are
components of paths, for numbers in use. -/
structure StoredDirectory (u : UnixFilesystem) (inode : Inode) : Prop where
  /-- It has whole records. -/
  whole : inodeGetsize inode % 16 = 0
  /-- All its sectors can be read. -/
  read : ∀ k < sectorCount inode, ∃ sector, storedBlock u inode k = .ok sector
  /-- No name stands twice. -/
  distinct : ((u.f.dirEntries inode).map Prod.snd).Nodup
  /-- Names are components of paths. -/
  names : ∀ entry ∈ u.f.dirEntries inode, entry.2 ≠ [] ∧ pathToken ∉ entry.2
  /-- The records are those of allocated inodes. -/
  targets : ∀ entry ∈ u.f.dirEntries inode, (inodeRead u entry.1 Inode.zero).1 = errNone

/-- The directories that can be reached from the root by records on the disk form no cycle and are
such. -/
structure StoredListable (u : UnixFilesystem) : Prop where
  /-- The root is an allocated directory. -/
  root : ∃ inode, inodeRead u 1 Inode.zero = (errNone, inode) ∧ inode.isDirectory = true
  /-- There is no cycle. -/
  acyclic : Acyclic (storedTree u) 1
  /-- Every directory is such. -/
  directories : ∀ inr inode, Relation.ReflTransGen (Child (storedTree u)) 1 inr →
    inodeRead u inr Inode.zero = (errNone, inode) → inode.isDirectory = true →
      StoredDirectory u inode

/-- Every sector of the directories that can be reached from the root is found where the format has
it. -/
def TreeFollows (u : UnixFilesystem) : Prop :=
  ∀ inr inode, Relation.ReflTransGen (Child (storedTree u)) 1 inr →
    inodeRead u inr Inode.zero = (errNone, inode) → inode.isDirectory = true →
      ∀ k < sectorCount inode, FindsAsFormat u inode k

section Directories

variable {u : UnixFilesystem}

/-- The records on the disk of a directory. -/
theorem storedTree_of_read {inr : UInt16} {inode : Inode}
    (read : inodeRead u inr Inode.zero = (errNone, inode)) (directory : inode.isDirectory = true) :
    storedTree u inr = u.f.dirEntries inode := by
  rw [storedTree, read, if_pos ⟨rfl, directory⟩]

/-- Other numbers have none. -/
theorem storedTree_of_file {inr : UInt16}
    (file : (inodeRead u inr Inode.zero).2.isDirectory = false) : storedTree u inr = [] := by
  rw [storedTree, if_neg]
  rintro ⟨-, directory⟩
  rw [file] at directory
  cases directory

/-- A directory whose sectors are found is read as it is stored. -/
theorem StoredDirectory.content {inode : Inode} (stored : StoredDirectory u inode)
    (used : inode.isAllocated = true) (follows : ∀ k < sectorCount inode, FindsAsFormat u inode k) :
    fileContent u inode = (u.f.contents inode, errNone) ∧
      dirEntries u inode = u.f.dirEntries inode := by
  have content : fileContent u inode = (u.f.contents inode, errNone) := by
    rw [fileContent_eq_stored used follows, storedContent_contents stored.read]
  exact ⟨content, by rw [U6fs.dirEntries, content, Disk.dirEntries]⟩

/-- So it can be listed. -/
theorem StoredDirectory.listable {inode : Inode} (stored : StoredDirectory u inode)
    (used : inode.isAllocated = true) (follows : ∀ k < sectorCount inode, FindsAsFormat u inode k) :
    ListableDirectory u inode := by
  obtain ⟨content, entries⟩ := stored.content used follows
  constructor
  case whole => exact stored.whole
  case read => rw [content]
  case distinct => rw [entries]; exact stored.distinct
  case names => rw [entries]; exact stored.names
  case targets => rw [entries]; exact stored.targets

/-- Where the sectors of all directories are found, the records that are read are those on the
disk. -/
theorem StoredListable.treeEntries (stored : StoredListable u) (follows : TreeFollows u)
    (inr : UInt16) (reachable : Relation.ReflTransGen (Child (storedTree u)) 1 inr) :
    treeEntries u inr = storedTree u inr := by
  rcases direntv6Opendir_cases u inr with ⟨code, -, none, refused⟩ | ⟨inode, read, directory⟩
  · rw [none, storedTree, if_neg]
    rintro ⟨ok, directory⟩
    have opened := (direntv6Opendir_of_read u (Prod.ext ok rfl) directory).2 zeroSector
    rw [refused] at opened
    cases opened
  · have used := (inodeRead_allocated u (congrArg Prod.fst read)).2
    rw [read] at used
    rw [(direntv6Opendir_of_read u read directory).1, storedTree_of_read read directory]
    exact ((stored.directories inr inode reachable read directory).content used
      (follows inr inode reachable read directory)).2

/-- And the tree can be listed. -/
theorem StoredListable.listable (stored : StoredListable u) (follows : TreeFollows u) :
    Listable u := by
  have same := stored.treeEntries follows
  constructor
  case root => exact stored.root
  case acyclic => exact stored.acyclic.of_same same
  case directories =>
    intro inr inode reachable read directory
    have there := reachable_of_same same reachable
    have used := (inodeRead_allocated u (congrArg Prod.fst read)).2
    rw [read] at used
    exact (stored.directories inr inode there read directory).listable used
      (follows inr inode there read directory)

end Directories

/-- When the sectors of all directories are found where the format has them, the tree listing
returns `ERR_NONE`, and its lines agree with the lookup of paths, in the order of the records on
the disk. -/
theorem direntv6PrintTree_agrees {u : UnixFilesystem} (stored : StoredListable u)
    (follows : TreeFollows u) :
    ∃ lines tree, (∀ fuel > 65536, direntv6PrintTree u fuel 1 [] = some (errNone, lines)) ∧
      Agrees u (storedTree u) lines tree := by
  obtain ⟨lines, listed, agrees⟩ := (stored.listable follows).agrees
  refine ⟨lines, _, listed, { agrees with order := ?_ }⟩
  rw [preorder_of_same (stored.treeEntries follows)]
  exact preorder_pairwise 65536 1

/-- A file with a small size is found where the format has it. -/
theorem findsAsFormat_of_small {u : UnixFilesystem} {inode : Inode}
    (small : inodeGetsize inode < 4096) {k : Nat} (inside : k < sectorCount inode) :
    FindsAsFormat u inode k := by
  have count := sectorCount_eq inode
  constructor
  case behind =>
    intro whole behind
    rw [if_pos whole] at count
    omega
  all_goals omega

section Enumeration

variable {u : UnixFilesystem} {depth : Nat}

/-- In a tree that an enumeration finds to be no deeper than `depth`, it meets all numbers. -/
theorem reachable_preorder
    (bound : ∀ path ∈ preorder (storedTree u) (depth + 1) 1, path.1.length ≤ depth) {inr : UInt16}
    (reachable : Relation.ReflTransGen (Child (storedTree u)) 1 inr) :
    inr ∈ 1 :: (preorder (storedTree u) (depth + 1) 1).map Prod.snd := by
  rcases (shallow_iff.mpr bound).reachable (Nat.le_succ depth) reachable with rfl | ⟨names, mem⟩
  · exact List.mem_cons_self
  · exact List.mem_cons_of_mem _ (List.mem_map_of_mem mem)

/-- Such a tree can be listed when each of its directories can. -/
theorem storedListable_of_preorder
    (bound : ∀ path ∈ preorder (storedTree u) (depth + 1) 1, path.1.length ≤ depth)
    (root : ∃ inode, inodeRead u 1 Inode.zero = (errNone, inode) ∧ inode.isDirectory = true)
    (each : ∀ inr ∈ 1 :: (preorder (storedTree u) (depth + 1) 1).map Prod.snd,
      (inodeRead u inr Inode.zero).2.isDirectory = true →
        StoredDirectory u (inodeRead u inr Inode.zero).2) : StoredListable u := by
  refine ⟨root, (shallow_iff.mpr bound).acyclic, fun inr inode reachable read directory => ?_⟩
  have stored := each inr (reachable_preorder bound reachable)
  rw [read] at stored
  exact stored directory

/-- Its sectors are found where the format has them when its directories are small. -/
theorem treeFollows_of_preorder
    (bound : ∀ path ∈ preorder (storedTree u) (depth + 1) 1, path.1.length ≤ depth)
    (each : ∀ inr ∈ 1 :: (preorder (storedTree u) (depth + 1) 1).map Prod.snd,
      (inodeRead u inr Inode.zero).2.isDirectory = true →
        inodeGetsize (inodeRead u inr Inode.zero).2 < 4096) : TreeFollows u := by
  intro inr inode reachable read directory k inside
  have small := each inr (reachable_preorder bound reachable)
  rw [read] at small
  exact findsAsFormat_of_small (small directory) inside

end Enumeration

/-- The volume whose root fills eight sectors with records for an empty file has a tree. -/
theorem storedListable_packed {u : UnixFilesystem} (f : u.f = packedVolume)
    (root : inodeRead u 1 Inode.zero = (errNone, packedDirectory))
    (file : inodeRead u 20 Inode.zero = (errNone, emptyFile)) : StoredListable u := by
  have directory : packedDirectory.isDirectory = true := by decide
  have entries : u.f.dirEntries packedDirectory =
      ((List.range 256).map packedRecord).map Direntv6.pair := by
    rw [f, Disk.dirEntries, packedVolume_records]
  have numbers : ∀ entry ∈ u.f.dirEntries packedDirectory, entry.1 = 20 := by
    intro entry mem
    rw [entries] at mem
    obtain ⟨record, inside, rfl⟩ := List.mem_map.mp mem
    obtain ⟨i, -, rfl⟩ := List.mem_map.mp inside
    rfl
  have leaf : storedTree u 20 = [] := storedTree_of_file (by rw [file]; decide)
  have paths : ∀ path ∈ preorder (storedTree u) 2 1, path.1.length = 1 ∧ path.2 = 20 := by
    intro path mem
    rw [preorder, storedTree_of_read root directory, List.mem_flatMap] at mem
    obtain ⟨⟨child, name⟩, record, here⟩ := mem
    obtain rfl : child = 20 := numbers _ record
    simp only [preorder_leaf leaf, List.map_nil, List.mem_singleton] at here
    rw [here]
    exact ⟨rfl, rfl⟩
  have stored : StoredDirectory u packedDirectory := by
    constructor
    case whole => rw [packedDirectory_size]
    case read => exact packedVolume_stored f
    case distinct =>
      rw [entries, List.map_map]
      exact packedRecord_names
    case names =>
      rw [entries]
      decide +kernel
    case targets =>
      intro entry mem
      rw [numbers entry mem, file]
  apply storedListable_of_preorder (fun path mem => (paths path mem).1.le) ⟨_, root, directory⟩
  intro inr mem isDirectory
  rcases List.mem_cons.mp mem with rfl | below
  · rw [root]
    exact stored
  · obtain ⟨path, there, rfl⟩ := List.mem_map.mp below
    rw [(paths path there).2, file] at isDirectory
    exact absurd isDirectory (by decide)

set_option maxRecDepth 10000 in
/-- On the well-formed volume whose root fills eight sectors, the listing fails: the first sector of
the root is taken for an indirect one, which names a sector that does not exist. -/
theorem direntv6PrintTree_fails :
    packedVolume.WellFormed (volumeSuperblock 3 13) ∧
      ∃ u, mountv6 packedVolume = .ok u ∧ StoredListable u ∧
        (∀ fuel > 65536, direntv6PrintTree u fuel 1 [] = some (errIo, [])) ∧
        ¬∃ lines tree, (∀ fuel > 65536, direntv6PrintTree u fuel 1 [] = some (errNone, lines)) ∧
          Agrees u (storedTree u) lines tree := by
  obtain ⟨u, mounted, root, file, listed⟩ := mountv6_check (f := packedVolume)
    (P := fun u => inodeRead u 1 Inode.zero = (errNone, packedDirectory) ∧
      inodeRead u 20 Inode.zero = (errNone, emptyFile) ∧
      direntv6PrintTree u 1 1 [] = some (errIo, [])) (by decide +kernel)
  have fails : ∀ fuel > 65536, direntv6PrintTree u fuel 1 [] = some (errIo, []) :=
    fun fuel enough => direntv6PrintTree_mono u (by omega) listed
  refine ⟨packedVolume_wellFormed, u, mounted,
    storedListable_packed (mountv6_coherent mounted).1 root file, fails, ?_⟩
  rintro ⟨lines, tree, succeeds, -⟩
  have both := (fails 65537 (by decide)).symm.trans (succeeds 65537 (by decide))
  exact absurd (Prod.mk.inj (Option.some.inj both)).1 (by decide)

instance (u : UnixFilesystem) (inode : Inode) : Decidable (StoredDirectory u inode) :=
  decidable_of_iff (inodeGetsize inode % 16 = 0 ∧
      (∀ k < sectorCount inode, (storedBlock u inode k).toOption.isSome = true) ∧
      ((u.f.dirEntries inode).map Prod.snd).Nodup ∧
      (∀ entry ∈ u.f.dirEntries inode, entry.2 ≠ [] ∧ pathToken ∉ entry.2) ∧
      ∀ entry ∈ u.f.dirEntries inode, (inodeRead u entry.1 Inode.zero).1 = errNone) (by
    have blocks : ∀ k, (storedBlock u inode k).toOption.isSome = true ↔
        ∃ sector, storedBlock u inode k = .ok sector := by
      intro k
      cases storedBlock u inode k with
      | error code => simp [Except.toOption]
      | ok sector => simp [Except.toOption]
    simp only [blocks]
    exact ⟨fun ⟨whole, read, distinct, names, targets⟩ => ⟨whole, read, distinct, names, targets⟩,
      fun stored => ⟨stored.whole, stored.read, stored.distinct, stored.names, stored.targets⟩⟩)

/-- A volume whose root has a directory `d` and a file `f`, and the directory has a record for that
file too. -/
def treeVolume : Disk :=
  volume 2 6 [(1, fileInode 0x4000 32 (oneAddress 4)),
      (2, fileInode 0x4000 16 (oneAddress 5)),
      (3, fileInode 0 0 (oneAddress 0))]
    [Block.ofBytes sectorSize
        (direntCodec.encode (letterRecord 2 100) ++ direntCodec.encode (letterRecord 3 102)),
      Block.ofBytes sectorSize (direntCodec.encode (letterRecord 3 103)), zeroSector]

set_option maxRecDepth 10000 in
/-- The tree of this volume is listed as it is looked up. -/
theorem direntv6PrintTree_agrees_tree :
    ∃ u, mountv6 treeVolume = .ok u ∧ ∃ lines tree,
      (∀ fuel > 65536, direntv6PrintTree u fuel 1 [] = some (errNone, lines)) ∧
        Agrees u (storedTree u) lines tree := by
  obtain ⟨u, mounted, read, tree, root, below, file⟩ := mountv6_check (f := treeVolume)
    (P := fun u => ((inodeRead u 1 Inode.zero).1 = errNone ∧
        (inodeRead u 1 Inode.zero).2.isDirectory = true) ∧
      preorder (storedTree u) 3 1 = [([[100]], 2), ([[100], [103]], 3), ([[102]], 3)] ∧
      (StoredDirectory u (inodeRead u 1 Inode.zero).2 ∧
        inodeGetsize (inodeRead u 1 Inode.zero).2 < 4096) ∧
      (StoredDirectory u (inodeRead u 2 Inode.zero).2 ∧
        inodeGetsize (inodeRead u 2 Inode.zero).2 < 4096) ∧
      (inodeRead u 3 Inode.zero).2.isDirectory = false) (by decide +kernel)
  have each : ∀ inr ∈ 1 :: (preorder (storedTree u) 3 1).map Prod.snd,
      (inodeRead u inr Inode.zero).2.isDirectory = true →
        StoredDirectory u (inodeRead u inr Inode.zero).2 ∧
          inodeGetsize (inodeRead u inr Inode.zero).2 < 4096 := by
    rw [tree]
    intro inr mem directory
    have numbers : inr = 1 ∨ inr = 2 ∨ inr = 3 := by simpa using mem
    rcases numbers with rfl | rfl | rfl
    · exact root
    · exact below
    · exact absurd directory (by rw [file]; decide)
  have bound : ∀ path ∈ preorder (storedTree u) 3 1, path.1.length ≤ 2 := by
    rw [tree]
    decide
  have stored := storedListable_of_preorder bound ⟨_, Prod.ext read.1 rfl, read.2⟩
    fun inr mem directory => (each inr mem directory).1
  have follows := treeFollows_of_preorder bound fun inr mem directory =>
    (each inr mem directory).2
  exact ⟨u, mounted, direntv6PrintTree_agrees stored follows⟩

set_option maxRecDepth 10000 in
example : ∃ u, mountv6 treeVolume = .ok u ∧ direntv6PrintTree u 3 1 [] =
    some (errNone, [.dir [47], .dir [47, 100, 47], .fil [47, 100, 47, 103], .fil [47, 102]]) :=
  mountv6_check (by decide +kernel)

end U6fs
