import U6fs.Spec.Namespace
import U6fs.Verif.RoundTrip

/-!
# Volumes in good health

A volume is sound when its image is well formed, the scan of a mount visits all inodes in use (so
none is in the last sector of the table), and every file can be read to its end and has a size that
the scan can deal with. Then the code reads what the format says, and the volume that its users see
is a namespace. A sound volume that was just mounted is in good health: its bitmaps have the inodes
in use and the sectors of files.
-/
namespace U6fs

open Lib

/-- The file or directory that an inode is, as the code reads it. -/
def nodeOf (u : UnixFilesystem) (inode : Inode) :
    Node UInt16 (List UInt8) (List UInt8) UInt16 where
  attr := inode.iMode
  body := if inode.isDirectory then .directory (dirEntries u inode)
    else .file (fileContent u inode).1

/-- The files and directories of a mounted volume. -/
def namespaceOf (u : UnixFilesystem) : Volume := fun inr =>
  ((u.f.inodeAt u.s inr.toNat).filter Inode.isAllocated).map (nodeOf u)

/-- A sound volume. It is more than well formed: no inode in use is in the last sector of the table,
which a mount leaves out, and no file has exactly 4096 bytes or a positive multiple of 131072. -/
structure Sound (u : UnixFilesystem) : Prop where
  /-- The image is well formed. -/
  image : u.f.WellFormed u.s
  /-- The scan finds the sectors of every file: none has 8 whole sectors or fills an indirect
  sector. -/
  sizes : ∀ inr inode, u.f.Allocated u.s inr inode → inodeGetsize inode ≠ 4096 ∧
    (0 < inodeGetsize inode → inodeGetsize inode % 131072 ≠ 0)
  /-- Every file can be read to its end. -/
  readable : ∀ inr inode, u.f.Allocated u.s inr inode → Readable u inode
  /-- The scan visits every inode in use: none is in the last sector of the table. -/
  visited : ∀ inr, u.f.InUse u.s inr → inr ≤ u.s.lastScanned
  /-- Names are components of paths. -/
  plain : ∀ inr inode, u.f.Allocated u.s inr inode → inode.isDirectory = true →
    ∀ entry ∈ dirEntries u inode, pathToken ∉ entry.2

/-- A mounted volume in good health. -/
structure Healthy (u : UnixFilesystem) : Prop extends Sound u where
  /-- It is as a mount of its disk leaves it. -/
  mounted : mountv6 u.f = .ok u

/-- What is read of a file depends on the disk. -/
theorem fileContent_congr {u u' : UnixFilesystem} (f : u'.f = u.f) (inode : Inode) :
    fileContent u' inode = fileContent u inode := by
  have block : fileBlock u' inode = fileBlock u inode := by
    funext k
    rw [fileBlock, fileBlock, inodeFindsector_congr f, f]
  unfold fileContent filePieces
  rw [block]

/-- The files and directories depend on the disk and the superblock. -/
theorem namespaceOf_congr {u u' : UnixFilesystem} (f : u'.f = u.f) (s : u'.s = u.s) :
    namespaceOf u' = namespaceOf u := by
  have nodes : nodeOf u' = nodeOf u := by
    funext inode
    unfold nodeOf dirEntries
    rw [fileContent_congr f]
  funext inr
  rw [namespaceOf, namespaceOf, f, s, nodes]

section Contents

variable {u : UnixFilesystem} {inode : Inode}

/-- A file that is read to its end can be read. -/
theorem readable_of_whole (whole : (fileContent u inode).2 = errNone) : Readable u inode := by
  intro k inside
  have none := filePieces_whole u inode whole
  cases read : fileBlock u inode k with
  | ok sector => exact ⟨sector, rfl⟩
  | error code =>
    have mem : .error code ∈ filePieces u inode 0 (sectorCount inode) := by
      apply List.mem_map.mpr
      refine ⟨k, List.mem_range'_1.mpr ⟨Nat.zero_le k, by omega⟩, ?_⟩
      rw [read]
      rfl
    exact absurd mem (gather_none none)

/-- What is read of a file is its content, as the format has it. -/
theorem fileContent_contents (used : inode.isAllocated = true) (other : inodeGetsize inode ≠ 4096)
    (readable : Readable u inode) : (fileContent u inode).1 = u.f.contents inode := by
  have piece : ∀ k < sectorCount inode,
      (fileBlock u inode k).map Block.bytes = .ok (u.f.contentSector inode k) := by
    intro k inside
    obtain ⟨sector, read⟩ := readable k inside
    obtain ⟨x, found, there⟩ := fileBlock_ok u inode read
    have maps := mapped_of_found used other inside found
    rw [read, Disk.contentSector, maps]
    simp only [there, Option.map_some, Option.getD_some]
    rfl
  have pieces : filePieces u inode 0 (sectorCount inode) =
      ((List.range (sectorCount inode)).map (u.f.contentSector inode)).map .ok := by
    rw [filePieces, List.map_map, List.range_eq_range']
    apply List.map_congr_left
    intro k mem
    have inside : k < sectorCount inode := by
      have bounds := List.mem_range'_1.mp mem
      omega
    exact piece k inside
  rw [fileContent, pieces, gather_ok, Disk.contents, List.flatMap_def]

end Contents

/-- The node under a number is that of its inode. -/
theorem namespaceOf_eq_some_iff {u : UnixFilesystem} {inr : UInt16}
    {node : Node UInt16 (List UInt8) (List UInt8) UInt16} :
    namespaceOf u inr = some node ↔
      ∃ inode, u.f.Allocated u.s inr.toNat inode ∧ nodeOf u inode = node := by
  simp only [namespaceOf, Option.map_eq_some_iff, Option.filter_eq_some_iff, Disk.Allocated]

/-- The node of an inode in use. -/
theorem namespaceOf_of_allocated {u : UnixFilesystem} {inr : UInt16} {inode : Inode}
    (allocated : u.f.Allocated u.s inr.toNat inode) :
    namespaceOf u inr = some (nodeOf u inode) :=
  namespaceOf_eq_some_iff.mpr ⟨inode, allocated, rfl⟩

/-- There is no node under a number that is not in use. -/
theorem namespaceOf_eq_none_iff {u : UnixFilesystem} {inr : UInt16} :
    namespaceOf u inr = none ↔ ¬u.f.InUse u.s inr.toNat := by
  constructor
  · rintro none ⟨inode, allocated⟩
    rw [namespaceOf_of_allocated allocated] at none
    cases none
  · intro unused
    rcases is : namespaceOf u inr with _ | node
    · rfl
    · obtain ⟨inode, allocated, -⟩ := namespaceOf_eq_some_iff.mp is
      exact absurd ⟨inode, allocated⟩ unused

/-- The records of a directory. -/
theorem entries_of_allocated {u : UnixFilesystem} {inr : UInt16} {inode : Inode}
    (allocated : u.f.Allocated u.s inr.toNat inode) (directory : inode.isDirectory = true) :
    (namespaceOf u).entries inr = dirEntries u inode := by
  have node : namespaceOf u inr = some ⟨inode.iMode, .directory (dirEntries u inode)⟩ := by
    rw [namespaceOf_of_allocated allocated, nodeOf, if_pos directory]
  exact Namespace.entries_directory node

namespace Sound

variable {u : UnixFilesystem} (sound : Sound u)

include sound

/-- Whether a volume is sound depends on the disk and the superblock. -/
theorem congr {u' : UnixFilesystem} (f : u'.f = u.f) (s : u'.s = u.s) : Sound u' := by
  have block : fileBlock u' = fileBlock u := by
    funext inode k
    rw [fileBlock, fileBlock, inodeFindsector_congr f, f]
  have entries : dirEntries u' = dirEntries u := by
    funext inode
    rw [dirEntries, dirEntries, fileContent_congr f]
  constructor
  case image =>
    rw [f, s]
    exact sound.image
  case sizes =>
    rw [f, s]
    exact sound.sizes
  case readable =>
    unfold Readable
    rw [f, s, block]
    exact sound.readable
  case visited =>
    rw [f, s]
    exact sound.visited
  case plain =>
    rw [f, s, entries]
    exact sound.plain

/-- Files are read to their end. -/
theorem whole {inr : Nat} {inode : Inode} (allocated : u.f.Allocated u.s inr inode) :
    (fileContent u inode).2 = errNone :=
  (sound.readable inr inode allocated).whole

/-- What is read of a file is its content. -/
theorem contents {inr : Nat} {inode : Inode} (allocated : u.f.Allocated u.s inr inode) :
    (fileContent u inode).1 = u.f.contents inode :=
  fileContent_contents allocated.2 (sound.sizes inr inode allocated).1
    (sound.readable inr inode allocated)

/-- The records that are read are those of the format. -/
theorem dirEntries_eq {inr : Nat} {inode : Inode} (allocated : u.f.Allocated u.s inr inode) :
    dirEntries u inode = (records (u.f.contents inode)).map Direntv6.pair := by
  rw [dirEntries, sound.contents allocated]

/-- No entry of an indirect sector is taken for a negative number. -/
theorem entry_small {inr k e : Nat} {inode : Inode} (allocated : u.f.Allocated u.s inr inode)
    (big : 4096 < inodeGetsize inode) (inside : k < sectorCount inode)
    (there : u.f.entry inode k = some e) : e < 32768 := by
  obtain ⟨sector, read⟩ := sound.readable inr inode allocated k inside
  obtain ⟨x, found, -⟩ := fileBlock_ok u inode read
  have fits : inodeGetsize inode / 512 + 1 ≤ 1792 := by
    by_contra large
    have inner : k ≤ inodeGetsize inode / 512 := by
      rw [sectorCount_eq] at inside
      split at inside <;> omega
    have failed := inodeFindsector_tooLarge u allocated.2 inner (by omega)
    rw [found] at failed
    unfold errFileTooLarge at failed
    omega
  have inner : k ≤ inodeGetsize inode / 512 := by
    rw [sectorCount_eq] at inside
    split at inside <;> omega
  obtain ⟨e', there', small, -⟩ :=
    entry_of_found u allocated.2 (by omega) fits inner (by rw [found]; omega)
  rw [there, Option.some.injEq] at there'
  omega

/-- Names are distinct and not empty. -/
theorem distinct {inr : Nat} {inode : Inode} (allocated : u.f.Allocated u.s inr inode)
    (directory : inode.isDirectory = true) :
    ((dirEntries u inode).map Prod.snd).Nodup ∧ [] ∉ (dirEntries u inode).map Prod.snd := by
  have names := sound.image.names inr inode allocated directory
  rw [sound.dirEntries_eq allocated, List.map_map]
  exact names

/-- Records name files that are in use. -/
theorem live {inr : Nat} {inode : Inode} (allocated : u.f.Allocated u.s inr inode)
    (directory : inode.isDirectory = true) {entry : UInt16 × List UInt8}
    (mem : entry ∈ dirEntries u inode) : u.f.InUse u.s entry.1.toNat := by
  rw [sound.dirEntries_eq allocated] at mem
  obtain ⟨record, inside, rfl⟩ := List.mem_map.mp mem
  exact sound.image.live inr inode allocated directory record inside

/-- A directory has a record for each 16 bytes. -/
theorem entries_length {inr : Nat} {inode : Inode} (allocated : u.f.Allocated u.s inr inode)
    (directory : inode.isDirectory = true) :
    inodeGetsize inode = 16 * (dirEntries u inode).length := by
  have whole := sound.image.whole inr inode allocated directory
  rw [dirEntries, List.length_map, records, List.length_map, List.length_range,
    fileContent_length u inode (sound.whole allocated)]
  omega

/-- The records in use by name. -/
theorem names_nodup (inr : UInt16) : (((namespaceOf u).entries inr).map Prod.snd).Nodup := by
  rcases is : namespaceOf u inr with _ | node
  · rw [Namespace.entries_unused is]
    exact List.nodup_nil
  · obtain ⟨inode, allocated, rfl⟩ := namespaceOf_eq_some_iff.mp is
    by_cases directory : inode.isDirectory = true
    · rw [entries_of_allocated allocated directory]
      exact (sound.distinct allocated directory).1
    · have node : namespaceOf u inr = some ⟨inode.iMode, .file (fileContent u inode).1⟩ := by
        rw [is, nodeOf, if_neg directory]
      rw [Namespace.entries_file node]
      exact List.nodup_nil

end Sound

namespace Healthy

variable {u : UnixFilesystem} (healthy : Healthy u)

include healthy

/-- The bitmaps are those of a scan. -/
theorem coherent : Coherent u := (mountv6_coherent healthy.mounted).2

/-- The machine works and the regions are disjoint. -/
theorem geometry : Geometry u := (mountv6_geometry healthy.image.regions healthy.mounted).2.2.2

/-- The volume is intact. -/
theorem intact : Intact u := (Intact.start healthy.image healthy.mounted).2.2

/-- The sectors of every file are marked. -/
theorem ownersMarked : OwnersMarked u := by
  intro inr inode allocated
  have visited := healthy.visited inr ⟨inode, allocated⟩
  apply (healthy.coherent.sectorsMarked_iff visited allocated).mpr
  rintro x (⟨eight, -⟩ | ⟨big, last, k, before, stops, there⟩) -
  · exact absurd eight (healthy.sizes inr inode allocated).1
  · have inside := Disk.mapped_hasPosition there
    simp only [HasPosition] at inside
    have small := healthy.entry_small allocated big (Nat.lt_of_le_of_lt before inside) stops
    exact absurd small (by decide)

end Healthy

end U6fs
