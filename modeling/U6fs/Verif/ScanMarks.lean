import U6fs.Verif.MountBitmaps

/-!
# What the scan of a mount marks beyond the block maps

The scan counts `size / 512 + 1` sectors for every file. For a file that fills its last sector, an
empty one among them, it walks one sector past the end; for a file whose last indirect sector is
full it marks one address more; and a file of exactly 4096 bytes is walked through its first sector
as if that were an indirect sector. So a stale address can set the bit of a free sector. For all
other sizes the scan stays in the block map.
-/
namespace U6fs

open Lib

/-- A sector is in the block map of an inode in use, of a size that the format has. -/
def InBlockMap (f : Disk) (s : Superblock) (x : Nat) : Prop :=
  ∃ inr inode, f.Allocated s inr inode ∧ sectorCount inode ≤ 1792 ∧ f.Uses inode x

/-- The sector bitmap has no sector but those in block maps. -/
def MarksBlockMaps (u : UnixFilesystem) : Prop :=
  ∀ x, bmGet u.fbm x = 1 → InBlockMap u.f u.s x

/-- None of the entries up to `k` is the number that the scan takes for the end of the file. -/
def WalkComesTo (f : Disk) (inode : Inode) (k : Nat) : Prop :=
  ∀ i ≤ k, f.entry inode i ≠ some 65420

/-- The sectors that the scan marks for a file and that lie past its end. -/
inductive Overmarked (f : Disk) (inode : Inode) : Nat → Prop
  /-- The address after the last one, when the last sector is full. -/
  | address (small : inodeGetsize inode < 4096) (whole : inodeGetsize inode % 512 = 0) :
    Overmarked f inode (inode.iAddr.toList.getD (inodeGetsize inode / 512) 0).toNat
  /-- The entry after the last one, when the last sector is full. -/
  | entry (x : Nat) (big : 4096 < inodeGetsize inode) (whole : inodeGetsize inode % 512 = 0)
    (comes : WalkComesTo f inode (inodeGetsize inode / 512))
    (there : f.entry inode (inodeGetsize inode / 512) = some x) : Overmarked f inode x
  /-- The address after the last indirect sector, when the count of the scan goes beyond. -/
  | indirect (j : Nat) (big : 4096 < inodeGetsize inode)
    (past : (sectorCount inode + 255) / 256 ≤ j) (upTo : j ≤ (inodeGetsize inode / 512 + 1) / 256) :
    Overmarked f inode (inode.iAddr.toList.getD j 0).toNat
  /-- One of the first nine words of a file of eight sectors, taken for an entry. -/
  | eight (x k : Nat) (exactly : inodeGetsize inode = 4096) (upTo : k ≤ 8)
    (comes : WalkComesTo f inode k) (there : f.entry inode k = some x) : Overmarked f inode x

/-- Whether the scan goes beyond a file is decided by the residues of its size. -/
theorem Overmarked.residue {f : Disk} {inode : Inode} {x : Nat} (marked : Overmarked f inode x) :
    inodeGetsize inode % 512 = 0 ∨ sectorCount inode % 256 = 0 := by
  have count := sectorCount_eq inode
  cases marked with
  | address _ whole => exact .inl whole
  | entry _ _ whole => exact .inl whole
  | indirect j _ past upTo =>
    by_cases whole : inodeGetsize inode % 512 = 0
    · exact .inl whole
    · rw [if_neg whole] at count
      right
      omega
  | eight _ _ exactly =>
    left
    rw [exactly]

section Scan

variable {u : UnixFilesystem} {inode : Inode}

/-- A walk through indirect sectors returns their entries and meets none that ends it. -/
theorem walked_entries (used : inode.isAllocated = true) (big : 4096 ≤ inodeGetsize inode)
    (fits : inodeGetsize inode / 512 + 1 ≤ 1792) {k x : Nat} (inside : k ≤ inodeGetsize inode / 512)
    (positive : ∀ i : Nat, i ≤ k → 0 ≤ inodeFindsector u inode i)
    (found : inodeFindsector u inode k = x) :
    WalkComesTo u.f inode k ∧ u.f.entry inode k = some x := by
  have entries : ∀ i : Nat, i ≤ k →
      ∃ e, u.f.entry inode i = some e ∧ e < 32768 ∧ inodeFindsector u inode i = e :=
    fun i upTo => entry_of_found u used big fits (by omega) (positive i upTo)
  constructor
  · -- the number that ends the walk has its sign bit set
    intro i upTo stop
    obtain ⟨e, there, small, -⟩ := entries i upTo
    rw [there, Option.some.injEq] at stop
    omega
  · obtain ⟨e, there, -, value⟩ := entries k le_rfl
    rw [found, Int.natCast_inj] at value
    rw [there, value]

/-- What the scan marks before it walks is in the block map or past the end. -/
theorem AddressMarked.uses_or_overmarked {f : Disk} {x : Nat} (marked : AddressMarked inode x) :
    f.Uses inode x ∨ Overmarked f inode x := by
  obtain ⟨fits, j, upTo, rfl⟩ := marked
  have count := sectorCount_eq inode
  by_cases small : inodeGetsize inode ≤ 4096
  · have first : j = 0 := by omega
    subst first
    by_cases empty : inodeGetsize inode = 0
    · have past : Overmarked f inode _ := .address (by omega) (by omega)
      rw [empty] at past
      exact .inr past
    · have inside : 0 < sectorCount inode := by split at count <;> omega
      have few : sectorCount inode ≤ 8 := by split at count <;> omega
      exact .inl ⟨.data 0, mapped_direct f few inside⟩
  · by_cases past : (sectorCount inode + 255) / 256 ≤ j
    · exact .inr (.indirect j (by omega) past upTo)
    · have many : 8 < sectorCount inode := by split at count <;> omega
      have limit : sectorCount inode ≤ 1792 := by split at count <;> omega
      exact .inl ⟨.indirect j, mapped_indirect f many limit (by omega)⟩

/-- What the scan walks to is in the block map or past the end. -/
theorem Walked.uses_or_overmarked (used : inode.isAllocated = true)
    (fits : inodeGetsize inode / 512 + 1 ≤ 1792) {x : Nat} (walked : Walked u inode x) :
    u.f.Uses inode x ∨ Overmarked u.f inode x := by
  obtain ⟨k, positive, found⟩ := walked
  have count := sectorCount_eq inode
  have inside : k ≤ inodeGetsize inode / 512 := by
    by_contra outside
    have sign := positive k le_rfl
    rw [inodeFindsector_end u used (by omega)] at sign
    contradiction
  rcases Nat.lt_trichotomy (inodeGetsize inode) 4096 with small | exactly | large
  · rw [inodeFindsector_direct u used inside small, Int.natCast_inj] at found
    subst found
    by_cases place : k < sectorCount inode
    · have few : sectorCount inode ≤ 8 := by split at count <;> omega
      exact .inl ⟨.data k, mapped_direct u.f few place⟩
    · have whole : inodeGetsize inode % 512 = 0 := by split at count <;> omega
      have last : k = inodeGetsize inode / 512 := by omega
      subst last
      exact .inr (.address small whole)
  · obtain ⟨comes, there⟩ := walked_entries used exactly.ge fits inside positive found
    exact .inr (.eight x k exactly (by omega) comes there)
  · by_cases place : k < sectorCount inode
    · exact .inl ⟨.data k, mapped_of_found used large.ne' place found⟩
    · have whole : inodeGetsize inode % 512 = 0 := by split at count <;> omega
      have last : k = inodeGetsize inode / 512 := by split at count <;> omega
      obtain ⟨comes, there⟩ := walked_entries used large.le fits inside positive found
      subst last
      exact .inr (.entry x large whole comes there)

/-- What lies past the end of a file that the scan visits is marked. -/
theorem Overmarked.scanned (ends : WalkEnds u inode) (used : inode.isAllocated = true) {x : Nat}
    (marked : Overmarked u.f inode x) : x ∈ scanned u inode := by
  have fits := ends.fits used
  -- an entry that the walk comes to is walked to
  have reached : ∀ {k x : Nat}, 4096 ≤ inodeGetsize inode → k ≤ inodeGetsize inode / 512 →
      WalkComesTo u.f inode k → u.f.entry inode k = some x → Walked u inode x := by
    intro k x big inside comes there
    rcases ends.walked_or used big inside there with walked | ⟨last, upTo, stop⟩
    · exact walked
    · exact absurd stop (comes last upTo)
  cases marked with
  | address small whole =>
    have direct : ∀ i : Nat, i ≤ inodeGetsize inode / 512 →
        inodeFindsector u inode i = (inode.iAddr.toList.getD i 0).toNat := fun i upTo =>
      inodeFindsector_direct u used upTo small
    refine .inr ⟨inodeGetsize inode / 512, fun i upTo => ?_, direct _ le_rfl⟩
    rw [direct i upTo]
    exact Int.natCast_nonneg _
  | entry _ big _ comes there => exact .inr (reached big.le le_rfl comes there)
  | indirect j _ _ upTo => exact .inl ⟨fits, j, upTo, rfl⟩
  | eight _ k exactly upTo comes there =>
    exact .inr (reached exactly.ge (by omega) comes there)

end Scan

/-- What the scan marks beyond the block maps of the files it visits, and of the table itself, is
outside the data region or in the block map of some file. -/
structure OvermarksInMaps (f : Disk) (s : Superblock) : Prop where
  /-- The sectors past the end of a visited file. -/
  files : ∀ inr inode, inr ≤ 16 * (s.sIsize.toNat - 1) → f.Allocated s inr inode →
    ∀ x, Overmarked f inode x → s.InData x → InBlockMap f s x
  /-- The visited sectors of the inode table that hold an inode in use. -/
  table : ∀ k < s.sIsize.toNat - 1, ∀ inr, 16 * k < inr → inr ≤ 16 * k + 16 → f.InUse s inr →
    s.InData (s.sInodeStart.toNat + k) → InBlockMap f s (s.sInodeStart.toNat + k)

/-- After a mount every sector whose bit is set is in the block map of a file exactly when the
sectors that the scan marks beyond the block maps are. -/
theorem mountv6_marksBlockMaps_iff {f : Disk} {u : UnixFilesystem} (mounted : mountv6 f = .ok u) :
    MarksBlockMaps u ↔ OvermarksInMaps f u.s := by
  obtain ⟨rfl, coherent⟩ := mountv6_coherent mounted
  constructor
  · intro only
    constructor
    case files =>
      intro inr inode visited allocated x past data
      have ends := coherent.walkEnds visited allocated
      have reached : ScanReaches u x :=
        .inl ⟨inr, inode, visited, allocated, past.scanned ends allocated.2⟩
      exact only x ((coherent.fbm x).mpr ⟨data, reached⟩)
    case table =>
      rintro k sector inr low high ⟨inode, allocated⟩ data
      have reached : ScanReaches u (u.s.sInodeStart.toNat + k) :=
        .inr ⟨k, sector, rfl, inr, inode, low, high, allocated⟩
      exact only _ ((coherent.fbm _).mpr ⟨data, reached⟩)
  · intro inMaps x marked
    obtain ⟨data, reached⟩ := (coherent.fbm x).mp marked
    rcases reached with
      ⟨inr, inode, visited, allocated, mem⟩ | ⟨k, sector, rfl, inr, inode, low, high, allocated⟩
    · have fits := (coherent.walkEnds visited allocated).fits allocated.2
      have limit : sectorCount inode ≤ 1792 := by
        have count := sectorCount_eq inode
        split at count <;> omega
      have place : u.f.Uses inode x ∨ Overmarked u.f inode x := by
        rcases mem with addressed | walked
        · exact addressed.uses_or_overmarked
        · exact walked.uses_or_overmarked allocated.2 fits
      rcases place with uses | past
      · exact ⟨inr, inode, allocated, limit, uses⟩
      · exact inMaps.files inr inode visited allocated x past data
    · exact inMaps.table k sector inr low high ⟨inode, allocated⟩ data

/-- A file of 512 bytes in sector 4, whose next address is that of the free sector 5. -/
def staleAddressVolume : Disk :=
  volume 2 6 [(1, emptyDirectory), (2, fileInode 0 512 #v[4, 5, 0, 0, 0, 0, 0, 0])]
    (List.replicate 3 zeroSector)

set_option maxRecDepth 10000 in
/-- On this well-formed volume the bit of the free sector 5 is set. -/
theorem mountv6_marksStaleAddress :
    staleAddressVolume.WellFormed (volumeSuperblock 2 6) ∧
      ∃ u, mountv6 staleAddressVolume = .ok u ∧ bmGet u.fbm 5 = 1 ∧ ¬MarksBlockMaps u := by
  obtain ⟨u, mounted, data, marked, free⟩ := mountv6_check (f := staleAddressVolume)
    (P := fun u => u.s.InData 5 ∧ bmGet u.fbm 5 = 1 ∧ ∀ use ∈ u.f.dataUses u.s, use.2 ≠ 5)
    (by decide +kernel)
  refine ⟨Disk.wellFormed_of_check Host.quiet_faultless (by decide +kernel), u, mounted, marked,
    fun only => ?_⟩
  obtain ⟨inr, inode, allocated, -, p, there⟩ := only 5 marked
  exact free _ (Disk.mem_dataUses.mpr ⟨inode, allocated, there, data⟩) rfl

set_option maxRecDepth 10000 in
/-- On a volume whose root has 16 bytes the bits that are set are those of block maps. -/
theorem mountv6_marksBlockMaps_single :
    ∃ u, mountv6 singleVolume = .ok u ∧ bmGet u.fbm 4 = 1 ∧ MarksBlockMaps u := by
  obtain ⟨u, mounted, super, marked⟩ := mountv6_check (f := singleVolume)
    (P := fun u => u.s = volumeSuperblock 2 6 ∧ bmGet u.fbm 4 = 1) (by decide +kernel)
  refine ⟨u, mounted, marked, (mountv6_marksBlockMaps_iff mounted).mpr ?_⟩
  rw [super]
  constructor
  case files =>
    intro inr inode _ allocated x past _
    obtain ⟨-, rfl⟩ := singleVolume_allocated allocated
    have residue := past.residue
    rw [sectorCount, singleDirectory_size] at residue
    omega
  case table =>
    intro k sector _ _ _ _ data
    have start : (volumeSuperblock 2 6).sBlockStart.toNat = 4 := rfl
    have first : (volumeSuperblock 2 6).sInodeStart.toNat = 2 := rfl
    have count : (volumeSuperblock 2 6).sIsize.toNat = 2 := rfl
    rw [Superblock.InData, start, first] at data
    omega

end U6fs
