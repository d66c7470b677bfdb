import U6fs.Spec.Image

/-!
# Volumes that can be checked

The properties of an image quantify over numbers, inodes and block maps. For a given image
there are finitely many of each, so the properties can be decided, and a concrete volume can be
shown to be well formed by evaluation. A volume is put together here from its superblock, the
inodes in use and the sectors of its data region.
-/
namespace U6fs

open Lib

/-- The places of the block map of a file, in order. -/
def positions (inode : Inode) : List Position :=
  (List.range (sectorCount inode)).map .data ++
    if 8 < sectorCount inode then
      (List.range ((sectorCount inode + 255) / 256)).map .indirect
    else []

/-- The list has exactly the places of the block map. -/
theorem mem_positions (inode : Inode) (p : Position) :
    p ∈ positions inode ↔ HasPosition inode p := by
  cases p <;> by_cases big : 8 < sectorCount inode <;> simp [positions, HasPosition, big]

/-- Only places of the block map have a sector. -/
theorem Disk.mapped_hasPosition {f : Disk} {inode : Inode} {p : Position} {x : Nat}
    (holds : f.mapped inode p = some x) : HasPosition inode p := by
  cases p with
  | data k =>
    simp only [Disk.mapped, HasPosition] at holds ⊢
    by_contra outside
    simp [outside] at holds
  | indirect j =>
    simp only [Disk.mapped, HasPosition] at holds ⊢
    by_contra outside
    simp [outside] at holds

namespace Disk

variable (f : Disk) (s : Superblock)

/-- The inodes in use and their numbers. -/
def inodesInUse : List (Nat × Inode) :=
  (List.range s.inodes).filterMap fun inr =>
    ((f.inodeAt s inr).filter Inode.isAllocated).map (inr, ·)

variable {f s}

/-- The list has exactly the allocated inodes. -/
theorem mem_inodesInUse {inr : Nat} {inode : Inode} :
    (inr, inode) ∈ f.inodesInUse s ↔ f.Allocated s inr inode := by
  simp only [inodesInUse, List.mem_filterMap, List.mem_range, Option.map_eq_some_iff,
    Option.filter_eq_some_iff, Prod.mk.injEq, Allocated]
  constructor
  · rintro ⟨_, -, _, there, rfl, rfl⟩
    exact there
  · intro allocated
    refine ⟨inr, ?_, inode, allocated, rfl, rfl⟩
    have there := allocated.1
    unfold inodeAt at there
    split at there
    · rename_i inside
      exact inside.2
    · contradiction

/-- What holds of every allocated inode can be checked on the list of them. -/
theorem forall_inodesInUse {P : Nat → Inode → Prop} :
    (∀ entry ∈ f.inodesInUse s, P entry.1 entry.2) ↔
      ∀ inr inode, f.Allocated s inr inode → P inr inode :=
  ⟨fun all inr inode allocated => all (inr, inode) (mem_inodesInUse.mpr allocated),
    fun all entry mem => all entry.1 entry.2 (mem_inodesInUse.mp mem)⟩

variable (f s)

/-- The uses of sectors of the data region: number and place, and the sector. -/
def dataUses : List ((Nat × Position) × Nat) :=
  (f.inodesInUse s).flatMap fun (inr, inode) =>
    (positions inode).filterMap fun p =>
      ((f.mapped inode p).filter fun x => s.InData x).map ((inr, p), ·)

variable {f s}

/-- The list has exactly the uses of sectors of the data region. -/
theorem mem_dataUses {inr : Nat} {p : Position} {x : Nat} :
    ((inr, p), x) ∈ f.dataUses s ↔
      ∃ inode, f.Allocated s inr inode ∧ f.mapped inode p = some x ∧ s.InData x := by
  simp only [dataUses, List.mem_flatMap, List.mem_filterMap, Option.map_eq_some_iff,
    Option.filter_eq_some_iff, Prod.mk.injEq, Prod.exists, decide_eq_true_eq]
  constructor
  · rintro ⟨_, inode, mem, _, -, _, there, ⟨rfl, rfl⟩, rfl⟩
    exact ⟨inode, mem_inodesInUse.mp mem, there⟩
  · rintro ⟨inode, allocated, there⟩
    exact ⟨inr, inode, mem_inodesInUse.mpr allocated, p,
      (mem_positions inode p).mpr (mapped_hasPosition there.1), x, there, ⟨rfl, rfl⟩, rfl⟩

instance (inr : Nat) : Decidable (f.InUse s inr) :=
  decidable_of_iff ((f.inodeAt s inr).any Inode.isAllocated = true) (by
    simp only [InUse, Allocated, Option.any_eq_true])

instance : Decidable (f.Mapped s) :=
  decidable_of_iff (∀ entry ∈ f.inodesInUse s, sectorCount entry.2 ≤ 1792 ∧
      ∀ p ∈ positions entry.2,
        (f.mapped entry.2 p).any (fun x => s.InData x ∧ x < f.sectors.length) = true) (by
    rw [forall_inodesInUse (P := fun _ inode => sectorCount inode ≤ 1792 ∧
      ∀ p ∈ positions inode,
        (f.mapped inode p).any (fun x => s.InData x ∧ x < f.sectors.length) = true)]
    simp only [mem_positions, Option.any_eq_true, decide_eq_true_eq]
    exact ⟨fun all => ⟨fun inr inode allocated => (all inr inode allocated).1,
        fun inr inode p allocated => (all inr inode allocated).2 p⟩,
      fun mapped inr inode allocated =>
        ⟨mapped.size inr inode allocated, fun p => mapped.data inr inode p allocated⟩⟩)

instance : Decidable (f.Unshared s) :=
  decidable_of_iff (∀ a ∈ f.dataUses s, ∀ b ∈ f.dataUses s, a.2 = b.2 → a.1 = b.1) (by
    constructor
    · intro all inr inode p inr' inode' p' x allocated allocated' there there' data
      have := all ((inr, p), x) (mem_dataUses.mpr ⟨inode, allocated, there, data⟩)
        ((inr', p'), x) (mem_dataUses.mpr ⟨inode', allocated', there', data⟩) rfl
      simpa using this
    · rintro unshared ⟨⟨inr, p⟩, x⟩ mem ⟨⟨inr', p'⟩, x'⟩ mem' same
      obtain rfl : x = x' := same
      obtain ⟨inode, allocated, there, data⟩ := mem_dataUses.mp mem
      obtain ⟨inode', allocated', there', -⟩ := mem_dataUses.mp mem'
      obtain ⟨rfl, rfl⟩ := unshared _ _ _ _ _ _ _ allocated allocated' there there' data
      rfl)

instance : Decidable (f.WholeRecords s) := decidable_of_iff _ forall_inodesInUse

instance : Decidable (f.DistinctNames s) := decidable_of_iff _ forall_inodesInUse

instance : Decidable (f.LiveEntries s) :=
  decidable_of_iff (∀ entry ∈ f.inodesInUse s, entry.2.isDirectory = true →
      ∀ record ∈ records (f.contents entry.2), f.InUse s record.dInumber.toNat)
    (forall_inodesInUse (P := fun _ inode => inode.isDirectory = true →
      ∀ record ∈ records (f.contents inode), f.InUse s record.dInumber.toNat))

end Disk

/-- The tests of `Disk.Regions` that concern the content of the file. -/
def Disk.regionsCheck (f : Disk) (s : Superblock) : Bool :=
  f.sectors[0]?.any (fun boot => boot.bytes.headD 0 == bootblockMagicNum) &&
    f.sectors[1]?.any (fun sector => Superblock.ofSector sector == s) &&
    2 ≤ s.sInodeStart.toNat && s.sInodeStart.toNat + s.sIsize.toNat ≤ s.sBlockStart.toNat &&
    s.sBlockStart.toNat ≤ s.sFsize.toNat && s.sFsize.toNat ≤ f.sectors.length

/-- On a working host the regions are right when the tests succeed. -/
theorem Disk.regions_of_check {f : Disk} {s : Superblock} (works : f.host.Faultless)
    (check : f.regionsCheck s = true) : f.Regions s := by
  simp only [regionsCheck, Bool.and_eq_true, decide_eq_true_eq, Option.any_eq_true,
    beq_iff_eq] at check
  obtain ⟨⟨⟨⟨⟨magic, superblock⟩, table⟩, data⟩, ends⟩, inside⟩ := check
  exact ⟨magic, superblock, table, data, ends, inside, works⟩

/-- On a working host an image is well formed when the properties, decided one by one, hold. -/
theorem Disk.wellFormed_of_check {f : Disk} {s : Superblock} (works : f.host.Faultless)
    (check : f.regionsCheck s = true ∧
      (∃ entry ∈ f.inodesInUse s, entry.1 = rootInumber ∧ entry.2.isDirectory = true) ∧
      f.Mapped s ∧ f.Unshared s ∧ f.WholeRecords s ∧ f.DistinctNames s ∧ f.LiveEntries s) :
    f.WellFormed s := by
  obtain ⟨regions, ⟨⟨_, inode⟩, mem, rfl, directory⟩, mapped, unshared, whole, names, live⟩ := check
  exact ⟨regions_of_check works regions, ⟨inode, mem_inodesInUse.mp mem, directory⟩, mapped,
    unshared, whole, names, live⟩

/-- A machine on which every transfer works and uninitialised buffers hold zeros. -/
def Host.quiet : Host where
  seekFails _ _ := false
  freadFails _ _ := false
  seekWriteFails _ _ := false
  fwriteFails _ _ := false
  stack _ := Block.fill sectorSize 0

/-- Every transfer works on the quiet machine. -/
theorem Host.quiet_faultless : Host.quiet.Faultless :=
  ⟨fun _ _ => rfl, fun _ _ => rfl, fun _ _ => rfl, fun _ _ => rfl⟩

/-- The sector that holds a superblock. -/
def Superblock.toSector (s : Superblock) : Sector :=
  Codec.u16.set (Codec.u16.set (Codec.u16.set (Codec.u16.set (Block.fill sectorSize 0)
    0 s.sIsize) 1 s.sFsize) 4 s.sInodeStart) 5 s.sBlockStart

/-- The table sector `k` of a volume with the given inodes. -/
def tableSector (inodes : List (Nat × Inode)) (k : Nat) : Sector :=
  inodes.foldl (fun sector (inr, inode) =>
    if inr / inodesPerSector = k then inodeCodec.set sector (inr % inodesPerSector) inode
    else sector) (Block.fill sectorSize 0)

/-- A volume with its inode table in sector 2 and after, and its data region behind it. -/
def volume (isize fsize : UInt16) (inodes : List (Nat × Inode)) (data : List Sector) : Disk where
  sectors := Block.ofBytes sectorSize [bootblockMagicNum] ::
    Superblock.toSector ⟨isize, fsize, 2, 2 + isize⟩ ::
    ((List.range isize.toNat).map (tableSector inodes) ++ data)
  tail := []
  short := by decide
  log := []
  host := Host.quiet

/-- The superblock of such a volume. -/
def volumeSuperblock (isize fsize : UInt16) : Superblock := ⟨isize, fsize, 2, 2 + isize⟩

/-- A file of at most 65535 bytes with the given addresses. -/
def fileInode (mode : UInt16) (size : UInt16) (addresses : Vector UInt16 addrSmallLength) :
    Inode :=
  { Inode.zero with iMode := mode ||| 0x8000, iSize1 := size, iAddr := addresses }

/-- An empty directory. -/
def emptyDirectory : Inode := fileInode 0x4000 0 (Vector.replicate addrSmallLength 0)

/-- An empty file. -/
def emptyFile : Inode := fileInode 0 0 (Vector.replicate addrSmallLength 0)

/-- The addresses of a file of one sector. -/
def oneAddress (x : UInt16) : Vector UInt16 addrSmallLength := #v[x, 0, 0, 0, 0, 0, 0, 0]

/-- The addresses of a file in the sectors 4 to 11. -/
def eightAddresses : Vector UInt16 addrSmallLength := #v[4, 5, 6, 7, 8, 9, 10, 11]

/-- A record with a name of one letter. -/
def letterRecord (inumber : UInt16) (letter : UInt8) : Direntv6 :=
  ⟨inumber, #v[letter, 0, 0, 0, 0, 0, 0, 0, 0, 0, 0, 0, 0, 0]⟩

/-- A sector of zeros. -/
def zeroSector : Sector := Block.fill sectorSize 0

/-- The sector that holds the given 16-bit entries. -/
def entrySector (entries : List UInt16) : Sector :=
  Block.ofBytes sectorSize (entries.flatMap Codec.u16.encode)

/-- A volume with an empty root in the first of two table sectors. -/
def emptyVolume : Disk := volume 2 6 [(1, emptyDirectory)] (List.replicate 3 zeroSector)

set_option maxRecDepth 10000 in
/-- The root is the only file of the empty volume. -/
theorem emptyVolume_allocated {inr : Nat} {inode : Inode}
    (allocated : emptyVolume.Allocated (volumeSuperblock 2 6) inr inode) :
    inr = 1 ∧ inode = emptyDirectory := by
  have all : ∀ entry ∈ emptyVolume.inodesInUse (volumeSuperblock 2 6),
      entry.1 = 1 ∧ entry.2 = emptyDirectory := by decide +kernel
  exact all (inr, inode) (Disk.mem_inodesInUse.mpr allocated)

/-- The root of the empty volume is empty. -/
theorem emptyDirectory_size : inodeGetsize emptyDirectory = 0 := by decide

set_option maxRecDepth 10000 in
/-- The empty volume is well formed. -/
theorem emptyVolume_wellFormed : emptyVolume.WellFormed (volumeSuperblock 2 6) :=
  Disk.wellFormed_of_check Host.quiet_faultless (by decide +kernel)

/-- The root of the next volume: it has one record. -/
def singleDirectory : Inode := fileInode 0x4000 16 (oneAddress 4)

/-- A volume like the empty one whose root has a record for itself, of name `r`. -/
def singleVolume : Disk :=
  volume 2 6 [(1, singleDirectory)]
    [Block.ofBytes sectorSize (direntCodec.encode (letterRecord 1 114)), zeroSector, zeroSector]

set_option maxRecDepth 10000 in
/-- The root is the only file of the volume. -/
theorem singleVolume_allocated {inr : Nat} {inode : Inode}
    (allocated : singleVolume.Allocated (volumeSuperblock 2 6) inr inode) :
    inr = 1 ∧ inode = singleDirectory := by
  have all : ∀ entry ∈ singleVolume.inodesInUse (volumeSuperblock 2 6),
      entry.1 = 1 ∧ entry.2 = singleDirectory := by decide +kernel
  exact all (inr, inode) (Disk.mem_inodesInUse.mpr allocated)

/-- The size of its root. -/
theorem singleDirectory_size : inodeGetsize singleDirectory = 16 := by decide

set_option maxRecDepth 10000 in
/-- The volume is well formed. -/
theorem singleVolume_wellFormed : singleVolume.WellFormed (volumeSuperblock 2 6) :=
  Disk.wellFormed_of_check Host.quiet_faultless (by decide +kernel)

end U6fs
