import U6fs.Spec.Volume
import U6fs.Verif.BlockMap
import U6fs.Verif.Mounted

/-!
# The bitmaps of a freshly mounted volume

How far the bits that a mount computes say what is in use. The scan stops one sector before the
end of the inode table, so the inode bits are exact when that sector is free. It marks the
sectors that `inode_findsector` walks, so a sector of a file may be left out when the file has
exactly 4096 bytes, or when an entry of its indirect sectors is 65420, which the scan takes for
the end of the file.
-/
namespace U6fs

open Lib

/-- Among the numbers that `inode_read` takes, the inode bitmap has the inodes in use. -/
def InodeBitmapExact (u : UnixFilesystem) : Prop :=
  ∀ inr : UInt16, inodeOutOfRange u.s inr = false →
    (bmGet u.ibm inr.toNat = 1 ↔ u.f.InUse u.s inr.toNat)

/-- `inode_alloc` hands out no inode in use. -/
def AllocatesUnused (u : UnixFilesystem) : Prop :=
  ∀ inr u', inodeAlloc u = (inr, u') → 0 ≤ inr → ¬u.f.InUse u.s inr.toNat

/-- Every sector of the data region in the block map of an inode has its bit set. -/
def SectorsMarked (u : UnixFilesystem) (inode : Inode) : Prop :=
  ∀ p x, u.f.mapped inode p = some x → u.s.InData x → bmGet u.fbm x = 1

/-- The sector bitmap has the sectors of every inode in use that a mount visits. -/
def SectorBitmapSound (u : UnixFilesystem) : Prop :=
  ∀ inr inode, inr ≤ u.s.lastScanned → u.f.Allocated u.s inr inode → SectorsMarked u inode

/-- `bm_find_next` finds no sector that a visited inode uses. -/
def FindsUnused (u : UnixFilesystem) : Prop :=
  ∀ r fbm, bmFindNext u.fbm = (r, fbm) → 0 ≤ r →
    ∀ inr inode, inr ≤ u.s.lastScanned → u.f.Allocated u.s inr inode → ¬u.f.Uses inode r.toNat

/-- The sectors of a file that the scan leaves out when it visits the file. -/
def Skipped (f : Disk) (inode : Inode) (x : Nat) : Prop :=
  (inodeGetsize inode = 4096 ∧ ∃ k, 1 ≤ k ∧ f.mapped inode (.data k) = some x) ∨
    (4096 < inodeGetsize inode ∧ ∃ last k, last ≤ k ∧ f.entry inode last = some 65420 ∧
      f.mapped inode (.data k) = some x)

/-- The inode bits of a coherent state at a number in range. -/
theorem Coherent.bmGet_ibm_iff {u : UnixFilesystem} (coherent : Coherent u) (inr : Nat) :
    (bmGet u.ibm inr = 1 ↔ u.f.InUse u.s inr) ↔
      (u.f.InUse u.s inr → inr ≤ u.s.lastScanned) := by
  have bits := coherent.ibm inr
  rw [BmblockArray.Marked] at bits
  rw [bits, Disk.InUse]
  tauto

/-- After a mount, the inode bitmap is exact, and so `inode_alloc` hands out unused inodes only,
exactly when no inode of the last sector of the table is in use. -/
theorem mountv6_inodeBitmap_iff {f : Disk} {u : UnixFilesystem} (mounted : mountv6 f = .ok u) :
    (InodeBitmapExact u ∧ AllocatesUnused u) ↔
      ∀ inr, f.InUse u.s inr → inr ≤ 16 * (u.s.sIsize.toNat - 1) := by
  obtain ⟨rfl, coherent⟩ := mountv6_coherent mounted
  have size := coherent.size
  constructor
  · rintro ⟨same, -⟩ inr used
    obtain ⟨inode, allocated⟩ := used
    obtain ⟨low, high⟩ := allocated.number
    rw [Superblock.inodes] at high
    have number : (UInt16.ofNat inr).toNat = inr := by
      rw [UInt16.toNat_ofNat']
      exact Nat.mod_eq_of_lt (by omega)
    have bits := same (UInt16.ofNat inr) ((inodeOutOfRange_eq_false_iff _ _).mpr (by omega))
    rw [number] at bits
    exact (coherent.bmGet_ibm_iff inr).mp bits ⟨inode, allocated⟩
  · intro covered
    refine ⟨fun inr _ => (coherent.bmGet_ibm_iff _).mpr (covered _), fun inr u' run found => ?_⟩
    obtain ⟨_, -, -, result⟩ := inodeAlloc_spec
      (by rw [coherent.ibmRange.2, Superblock.inodes]; omega) run
    rcases result with ⟨x, rfl, clear, -⟩ | ⟨rfl, -⟩
    · intro used
      rw [Int.toNat_natCast] at used
      obtain ⟨-, free⟩ := (bmGet_eq_zero_iff _ _).mp clear
      exact free ((coherent.ibm x).mpr ⟨covered x used, used⟩)
    · contradiction

/-- A volume whose only inode in use, the root, is in the last sector of its table. -/
def lastSectorVolume : Disk := volume 1 6 [(1, emptyDirectory)] (List.replicate 4 zeroSector)

set_option maxRecDepth 10000 in
/-- On a well-formed volume with one table sector the bit of the root is clear, and the root is
what `inode_alloc` hands out. -/
theorem mountv6_inodeBitmap_rootClear :
    lastSectorVolume.WellFormed (volumeSuperblock 1 6) ∧
      ∃ u, mountv6 lastSectorVolume = .ok u ∧ inodeOutOfRange u.s 1 = false ∧
        u.f.InUse u.s 1 ∧ bmGet u.ibm 1 = 0 ∧ (inodeAlloc u).1 = 1 :=
  ⟨Disk.wellFormed_of_check Host.quiet_faultless (by decide +kernel),
    mountv6_check (by decide +kernel)⟩

set_option maxRecDepth 10000 in
/-- With the root in the first of two table sectors the inode bitmap is exact. -/
theorem mountv6_inodeBitmap_rootSet :
    ∃ u, mountv6 emptyVolume = .ok u ∧ InodeBitmapExact u ∧ AllocatesUnused u := by
  obtain ⟨u, mounted, super⟩ := mountv6_check (f := emptyVolume)
    (P := fun u => u.s = volumeSuperblock 2 6) (by decide +kernel)
  refine ⟨u, mounted, (mountv6_inodeBitmap_iff mounted).mpr ?_⟩
  rw [super]
  rintro inr ⟨inode, allocated⟩
  rw [(emptyVolume_allocated allocated).1]
  decide

section Sectors

variable {u : UnixFilesystem} {inode : Inode}

/-- The scan takes an entry for the end of the file when it is 65420. -/
theorem inodeFindsectorBigfile_endOfFile {k : Nat} (slot : k < 1792)
    (stops : inodeFindsectorBigfile u inode k = errOffsetOutOfRange) :
    u.f.entry inode k = some 65420 := by
  rcases inodeFindsectorBigfile_cases u inode slot with failed | ⟨e, there, value⟩
  · rw [failed] at stops
    contradiction
  · have small := entry_lt there
    rw [value, bmod_entry small] at stops
    rw [there]
    congr 1
    unfold errOffsetOutOfRange at stops
    split at stops <;> omega

/-- A walk that ends is about a file that is not too large. -/
theorem WalkEnds.fits (ends : WalkEnds u inode) (used : inode.isAllocated = true) :
    inodeGetsize inode / 512 + 1 ≤ 1792 := by
  by_contra large
  obtain ⟨n, positive, stops⟩ := ends
  have first := inodeFindsector_tooLarge u used (Nat.zero_le _) (by omega)
  rcases Nat.eq_zero_or_pos n with rfl | later
  · rw [first] at stops
    contradiction
  · have := positive 0 later
    rw [first] at this
    contradiction

/-- A sector that a walk returns, when the walk does not end before. -/
theorem WalkEnds.walked_or (ends : WalkEnds u inode) (used : inode.isAllocated = true)
    (big : 4096 ≤ inodeGetsize inode) {k x : Nat} (inside : k ≤ inodeGetsize inode / 512)
    (there : u.f.entry inode k = some x) :
    Walked u inode x ∨ ∃ last ≤ k, u.f.entry inode last = some 65420 := by
  have fits := ends.fits used
  obtain ⟨n, positive, stops⟩ := ends
  rcases Nat.lt_or_ge k n with before | after
  · left
    obtain ⟨e, here, -, value⟩ := entry_of_found u used big fits inside (positive k before)
    rw [there, Option.some.injEq] at here
    rw [← here] at value
    exact ⟨k, fun i upTo => positive i (by omega), value⟩
  · right
    rw [inodeFindsector_indirect u used (by omega) big fits] at stops
    exact ⟨n, after, inodeFindsectorBigfile_endOfFile (by omega) stops⟩

/-- What the scan does not mark of a file it visits, it skips. -/
theorem WalkEnds.scanned_or_skipped (ends : WalkEnds u inode) (used : inode.isAllocated = true)
    {p : Position} {x : Nat} (there : u.f.mapped inode p = some x) :
    x ∈ scanned u inode ∨ Skipped u.f inode x := by
  have fits := ends.fits used
  have count := sectorCount_eq inode
  have place := Disk.mapped_hasPosition there
  cases p with
  | data k =>
    simp only [HasPosition] at place
    rcases Nat.lt_trichotomy (inodeGetsize inode) 4096 with small | exactly | large
    · -- all the sectors are addresses, and the walk returns each of them
      have direct : ∀ i : Nat, i ≤ k →
          inodeFindsector u inode i = (inode.iAddr.toList.getD i 0).toNat := fun i upTo =>
        inodeFindsector_direct u used (by split at count <;> omega) small
      rw [mapped_direct u.f (by split at count <;> omega) place, Option.some.injEq] at there
      refine .inl (.inr ⟨k, fun i upTo => ?_, ?_⟩)
      · rw [direct i upTo]
        exact Int.natCast_nonneg _
      · rw [direct k le_rfl, there]
    · -- the first address is marked as that of an indirect sector, the others are not looked at
      rcases Nat.eq_zero_or_pos k with rfl | later
      · rw [mapped_direct u.f (by split at count <;> omega) place, Option.some.injEq] at there
        exact .inl (.inl ⟨fits, 0, Nat.zero_le _, there⟩)
      · exact .inr (.inl ⟨exactly, k, later, there⟩)
    · have entry := there
      rw [mapped_entry u.f (by split at count <;> omega) place] at entry
      rcases ends.walked_or used large.le (by split at count <;> omega) entry with
        walked | ⟨last, upTo, stop⟩
      · exact .inl (.inr walked)
      · exact .inr (.inr ⟨large, last, k, upTo, stop, there⟩)
  | indirect j =>
    obtain ⟨big, inside⟩ := place
    rw [mapped_indirect u.f big (by split at count <;> omega) inside, Option.some.injEq] at there
    exact .inl (.inl ⟨fits, j, by split at count <;> omega, there⟩)

end Sectors

/-- The sectors of a visited inode have their bits set exactly when those that the scan leaves
out for this inode are reached by the scan for another reason. -/
theorem Coherent.sectorsMarked_iff {u : UnixFilesystem} (coherent : Coherent u) {inr : Nat}
    {inode : Inode} (visited : inr ≤ u.s.lastScanned) (allocated : u.f.Allocated u.s inr inode) :
    SectorsMarked u inode ↔ ∀ x, Skipped u.f inode x → u.s.InData x → ScanReaches u x := by
  constructor
  · intro marked x skipped data
    have used : ∃ p, u.f.mapped inode p = some x := by
      rcases skipped with ⟨-, k, -, there⟩ | ⟨-, -, k, -, -, there⟩
      · exact ⟨_, there⟩
      · exact ⟨_, there⟩
    obtain ⟨p, there⟩ := used
    exact ((coherent.fbm x).mp (marked p x there data)).2
  · intro reached p x there data
    refine (coherent.fbm x).mpr ⟨data, ?_⟩
    have ends := coherent.walkEnds visited allocated
    rcases ends.scanned_or_skipped allocated.2 there with mem | skipped
    · exact .inl ⟨inr, inode, visited, allocated, mem⟩
    · exact reached x skipped data

/-- After a mount the sector bitmap has the sectors of every inode visited, and so
`bm_find_next` finds a sector that none of them uses, exactly when every sector of the data
region that the scan leaves out for the inode it belongs to is reached for another reason. -/
theorem mountv6_sectorBitmap_iff {f : Disk} {u : UnixFilesystem} (mounted : mountv6 f = .ok u) :
    (SectorBitmapSound u ∧ FindsUnused u) ↔
      ∀ inr inode, inr ≤ 16 * (u.s.sIsize.toNat - 1) → f.Allocated u.s inr inode →
        ∀ x, Skipped f inode x → u.s.InData x → ScanReaches u x := by
  obtain ⟨rfl, coherent⟩ := mountv6_coherent mounted
  constructor
  · rintro ⟨sound, -⟩ inr inode visited allocated
    exact (coherent.sectorsMarked_iff visited allocated).mp (sound inr inode visited allocated)
  · intro reached
    have sound : SectorBitmapSound u := fun inr inode visited allocated =>
      (coherent.sectorsMarked_iff visited allocated).mpr (reached inr inode visited allocated)
    refine ⟨sound, ?_⟩
    rintro r fbm run found inr inode visited allocated ⟨p, there⟩
    obtain ⟨-, ⟨x, clear, value⟩ | ⟨full, -⟩⟩ := bmFindNext_spec run
    · obtain ⟨range, free⟩ := (bmGet_eq_zero_iff _ _).mp clear
      rw [coherent.fbmRange.1, coherent.fbmRange.2] at range
      have small := u.s.sFsize.toNat_lt
      rw [value, toInt32_of_small (by omega), Int.toNat_natCast] at there
      exact free (sound inr inode visited allocated p x there range)
    · rw [full] at found
      contradiction

/-- A file of 4096 bytes in the sectors 4 to 11. -/
def eightSectorVolume : Disk :=
  volume 2 14 [(1, emptyDirectory), (2, fileInode 0 4096 eightAddresses)]
    (List.replicate 11 zeroSector)

set_option maxRecDepth 10000 in
/-- On a well-formed volume with a file of 4096 bytes the bit of its second sector is clear, and
this sector is the first that `bm_find_next` finds. -/
theorem mountv6_sectorBitmap_eightSectors :
    eightSectorVolume.WellFormed (volumeSuperblock 2 14) ∧
      ∃ u, mountv6 eightSectorVolume = .ok u ∧
        (u.s.InData 5 ∧ bmGet u.fbm 5 = 0 ∧ (bmFindNext u.fbm).1 = 5) ∧
        ∃ entry ∈ u.f.inodesInUse u.s, entry.1 = 2 ∧ u.f.mapped entry.2 (.data 1) = some 5 :=
  ⟨Disk.wellFormed_of_check Host.quiet_faultless (by decide +kernel),
    mountv6_check (by decide +kernel)⟩

set_option maxRecDepth 10000 in
/-- On a volume without files the sector bitmap is sound. -/
theorem mountv6_sectorBitmap_noFile :
    ∃ u, mountv6 emptyVolume = .ok u ∧ SectorBitmapSound u ∧ FindsUnused u := by
  obtain ⟨u, mounted, super⟩ := mountv6_check (f := emptyVolume)
    (P := fun u => u.s = volumeSuperblock 2 6) (by decide +kernel)
  refine ⟨u, mounted, (mountv6_sectorBitmap_iff mounted).mpr ?_⟩
  rw [super]
  intro inr inode _ allocated x skipped
  obtain ⟨-, rfl⟩ := emptyVolume_allocated allocated
  rw [Skipped, emptyDirectory_size] at skipped
  simp at skipped

end U6fs
