import U6fs.Verif.Scan

/-!
# What a mount establishes

A successful `mountv6` is described by the disk alone: the numbers its scan visits, what it
found there, and the bits it set. The description is exact, so later results read the bitmaps
of a mounted volume off the disk, and conclude from the disk that a mount succeeds.
-/
namespace U6fs

open Lib

/-- The largest inode number that the scan of a mount visits. -/
def Superblock.lastScanned (s : Superblock) : Nat := 16 * (s.sIsize.toNat - 1)

/-- The scan of a mount reaches sector `x`: it is scanned for an allocated inode, or it is a
sector of the table for which an allocated inode was found. -/
def ScanReaches (u : UnixFilesystem) (x : Nat) : Prop :=
  (∃ inr inode, inr ≤ u.s.lastScanned ∧ u.f.Allocated u.s inr inode ∧ x ∈ scanned u inode) ∨
    ∃ k < u.s.sIsize.toNat - 1, x = u.s.sInodeStart.toNat + k ∧
      ∃ inr inode, 16 * k < inr ∧ inr ≤ 16 * k + 16 ∧ u.f.Allocated u.s inr inode

/-- A number that the scan can deal with is in range. -/
theorem VisitOk.inRange {u : UnixFilesystem} {inr : UInt16} (visit : VisitOk u inr) :
    1 ≤ inr.toNat ∧ inr.toNat < u.s.inodes := by
  have present : ∃ inode, u.f.inodeAt u.s inr.toNat = some inode := by
    rcases visit with ⟨read, -⟩ | read
    · exact ⟨_, (inodeRead_allocated u read).1⟩
    · obtain ⟨found, there, -⟩ := inodeRead_unallocated u read
      exact ⟨found, there⟩
  obtain ⟨inode, there⟩ := present
  unfold Disk.inodeAt at there
  split at there
  · assumption
  · contradiction

/-- A number that the scan can deal with is read as used exactly when its inode is allocated. -/
theorem VisitOk.used_iff {u : UnixFilesystem} {inr : UInt16} (visit : VisitOk u inr) :
    ReadUsed u inr ↔ ∃ inode, u.f.Allocated u.s inr.toNat inode := by
  rcases visit with ⟨read, -⟩ | read
  · simp only [ReadUsed, read]
    exact ⟨fun _ => ⟨_, inodeRead_allocated u read⟩, fun _ => by decide⟩
  · simp only [ReadUsed, read, ne_eq, not_true_eq_false, false_iff, not_exists]
    rintro inode ⟨there, used⟩
    obtain ⟨found, here, free⟩ := inodeRead_unallocated u read
    rw [here, Option.some.injEq] at there
    subst there
    rw [free] at used
    contradiction

/-- What the scan marks at a number is what it scans for the allocated inode of that number. -/
theorem VisitOk.mem_visitSectors_iff {u : UnixFilesystem} {inr : UInt16} (visit : VisitOk u inr)
    (x : Nat) : x ∈ visitSectors u inr ↔
      ∃ inode, u.f.Allocated u.s inr.toNat inode ∧ x ∈ scanned u inode := by
  simp only [visitSectors, Set.mem_ofPred_eq]
  constructor
  · rintro ⟨read, mem⟩
    exact ⟨_, inodeRead_allocated u read, mem⟩
  · rintro ⟨inode, allocated, mem⟩
    have used := visit.used_iff.mpr ⟨inode, allocated⟩
    rcases visit with ⟨read, -⟩ | read
    · have same := (inodeRead_allocated u read).1
      rw [allocated.1, Option.some.injEq] at same
      exact ⟨read, same ▸ mem⟩
    · exact absurd read used

section Numbers

variable {u : UnixFilesystem}

/-- The numbers visited are 1, 2, 3, … without a wrap: one that wraps to 0 stops the scan. -/
theorem scannedInr_toNat (visits : ∀ k < u.s.sIsize.toNat - 1, ∀ j < 16, VisitOk u (scannedInr k j))
    {k j : Nat} (sector : k < u.s.sIsize.toNat - 1) (slot : j < 16) :
    (scannedInr k j).toNat = 16 * k + j + 1 ∧ u.s.sIsize.toNat ≤ 4096 := by
  have size : u.s.sIsize.toNat ≤ 4096 := by
    by_contra large
    have wrapped := (visits 4095 (by omega) 15 (by decide)).inRange.1
    contradiction
  refine ⟨?_, size⟩
  simp only [scannedInr, inodesPerSector, rootInumber, UInt16.toNat_ofNat']
  exact Nat.mod_eq_of_lt (by omega)

/-- Visits by sector and slot are visits by number. -/
theorem visits_iff (P : UInt16 → Prop)
    (visits : ∀ k < u.s.sIsize.toNat - 1, ∀ j < 16, VisitOk u (scannedInr k j)) :
    (∃ k < u.s.sIsize.toNat - 1, ∃ j < 16, P (scannedInr k j)) ↔
      ∃ inr : UInt16, 1 ≤ inr.toNat ∧ inr.toNat ≤ u.s.lastScanned ∧ P inr := by
  constructor
  · rintro ⟨k, sector, j, slot, holds⟩
    obtain ⟨number, -⟩ := scannedInr_toNat visits sector slot
    refine ⟨_, ?_, ?_, holds⟩
    · omega
    · rw [number, Superblock.lastScanned]
      omega
  · rintro ⟨inr, low, high, holds⟩
    rw [Superblock.lastScanned] at high
    refine ⟨(inr.toNat - 1) / 16, by omega, (inr.toNat - 1) % 16, Nat.mod_lt _ (by decide), ?_⟩
    have number := scannedInr_toNat visits (k := (inr.toNat - 1) / 16) (by omega)
      (Nat.mod_lt (inr.toNat - 1) (by decide : 0 < 16))
    have same : scannedInr ((inr.toNat - 1) / 16) ((inr.toNat - 1) % 16) = inr :=
      UInt16.toNat_inj.mp (by omega)
    rwa [same]

/-- An allocated inode has a number of 16 bits when the table has at most 4096 sectors. -/
theorem Disk.Allocated.number {f : Disk} {s : Superblock} {inr : Nat} {inode : Inode}
    (allocated : f.Allocated s inr inode) : 1 ≤ inr ∧ inr < s.inodes := by
  have there := allocated.1
  unfold Disk.inodeAt at there
  split at there
  · assumption
  · contradiction

variable (visits : ∀ k < u.s.sIsize.toNat - 1, ∀ j < 16, VisitOk u (scannedInr k j))

include visits

/-- The scan can deal with every number up to the last one that it visits. -/
theorem visitOk_scanned {inr : UInt16} (low : 1 ≤ inr.toNat) (high : inr.toNat ≤ u.s.lastScanned) :
    VisitOk u inr := by
  by_contra bad
  obtain ⟨k, sector, j, slot, fails⟩ :=
    (visits_iff (fun inr => ¬VisitOk u inr) visits).mpr ⟨inr, low, high, bad⟩
  exact fails (visits k sector j slot)

/-- The numbers that the scan marks are the allocated ones that it visits. -/
theorem scanned_used_iff (size : u.s.sIsize.toNat ≤ 4096) (x : Nat) :
    (∃ k < u.s.sIsize.toNat - 1, ∃ j < 16,
        ReadUsed u (scannedInr k j) ∧ x = (scannedInr k j).toNat) ↔
      x ≤ u.s.lastScanned ∧ ∃ inode, u.f.Allocated u.s x inode := by
  rw [visits_iff (fun inr => ReadUsed u inr ∧ x = inr.toNat) visits]
  constructor
  · rintro ⟨inr, low, high, used, rfl⟩
    exact ⟨high, (visitOk_scanned visits low high).used_iff.mp used⟩
  · rintro ⟨high, inode, allocated⟩
    obtain ⟨low, inside⟩ := allocated.number
    rw [Superblock.inodes] at inside
    have number : (UInt16.ofNat x).toNat = x := by
      rw [UInt16.toNat_ofNat']
      exact Nat.mod_eq_of_lt (by omega)
    refine ⟨UInt16.ofNat x, by omega, by omega, ?_, number.symm⟩
    rw [(visitOk_scanned visits (by omega) (by omega)).used_iff, number]
    exact ⟨inode, allocated⟩

/-- The sectors that the scan marks are those that it reaches. -/
theorem scanned_sectors_iff (x : Nat) :
    (∃ k < u.s.sIsize.toNat - 1, (∃ j < 16, x ∈ visitSectors u (scannedInr k j)) ∨
        (SectorUsed u k ∧ x = u.s.sInodeStart.toNat + k)) ↔ ScanReaches u x := by
  constructor
  · rintro ⟨k, inTable, ⟨j, slot, mem⟩ | ⟨⟨j, slot, used⟩, rfl⟩⟩
    · left
      obtain ⟨inode, allocated, mem⟩ :=
        ((visits k inTable j slot).mem_visitSectors_iff x).mp mem
      refine ⟨_, inode, ?_, allocated, mem⟩
      rw [(scannedInr_toNat visits inTable slot).1, Superblock.lastScanned]
      omega
    · right
      obtain ⟨inode, allocated⟩ := (visits k inTable j slot).used_iff.mp used
      rw [(scannedInr_toNat visits inTable slot).1] at allocated
      exact ⟨k, inTable, rfl, _, inode, by omega, by omega, allocated⟩
  · rintro (⟨inr, inode, high, allocated, mem⟩ |
      ⟨k, inTable, rfl, inr, inode, low, high, allocated⟩)
    · obtain ⟨low, inside⟩ := allocated.number
      rw [Superblock.lastScanned] at high
      have place := scannedInr_toNat visits (k := (inr - 1) / 16) (by omega)
        (Nat.mod_lt (inr - 1) (by decide : 0 < 16))
      refine ⟨(inr - 1) / 16, by omega, .inl ⟨(inr - 1) % 16, Nat.mod_lt _ (by decide), ?_⟩⟩
      rw [(visits _ (by omega) _ (Nat.mod_lt _ (by decide))).mem_visitSectors_iff, place.1]
      refine ⟨inode, ?_, mem⟩
      rwa [show 16 * ((inr - 1) / 16) + (inr - 1) % 16 + 1 = inr by omega]
    · have place := scannedInr_toNat visits inTable (show inr - 1 - 16 * k < 16 by omega)
      refine ⟨k, inTable, .inr ⟨⟨inr - 1 - 16 * k, by omega, ?_⟩, rfl⟩⟩
      rw [(visits k inTable _ (by omega)).used_iff, place.1,
        show 16 * k + (inr - 1 - 16 * k) + 1 = inr by omega]
      exact ⟨inode, allocated⟩

end Numbers

/-- The bitmaps say what a scan of the disk finds, and the scan finds nothing it cannot deal
with: the state that a successful mount leaves. -/
structure Coherent (u : UnixFilesystem) : Prop where
  /-- The boot sector has the magic number. -/
  magic : ∃ boot, u.f.sectors[0]? = some boot ∧ boot.bytes.headD 0 = bootblockMagicNum
  /-- The superblock is that of sector 1. -/
  superblock : ∃ sector, u.f.sectors[1]? = some sector ∧ Superblock.ofSector sector = u.s
  /-- The table is not empty, and small enough for 16-bit inode numbers. -/
  size : 1 ≤ u.s.sIsize.toNat ∧ u.s.sIsize.toNat ≤ 4096
  /-- The inode bitmap has a bit for the number after the last inode as well. -/
  ibmRange : u.ibm.min = 1 ∧ u.ibm.max = u.s.inodes
  /-- The sector bitmap covers the data region. -/
  fbmRange : u.fbm.min = u.s.sBlockStart.toNat ∧ u.fbm.max = u.s.sFsize.toNat
  /-- The search for a free inode starts before every clear bit. -/
  swept : u.ibm.Swept
  /-- The scan can deal with every number it visits. -/
  visits : ∀ inr : UInt16, 1 ≤ inr.toNat → inr.toNat ≤ u.s.lastScanned → VisitOk u inr
  /-- The inode bits are the allocated inodes among the numbers visited. -/
  ibm : ∀ x, u.ibm.Marked x ↔ x ≤ u.s.lastScanned ∧ ∃ inode, u.f.Allocated u.s x inode
  /-- The sector bits are the sectors reached in the data region. -/
  fbm : ∀ x, u.fbm.Marked x ↔ u.s.InData x ∧ ScanReaches u x

/-- The walk over an allocated inode that the scan visits comes to an end. -/
theorem Coherent.walkEnds {u : UnixFilesystem} (coherent : Coherent u) {inr : Nat} {inode : Inode}
    (visited : inr ≤ u.s.lastScanned) (allocated : u.f.Allocated u.s inr inode) :
    WalkEnds u inode := by
  obtain ⟨low, high⟩ := allocated.number
  have size := coherent.size
  rw [Superblock.inodes] at high
  have number : (UInt16.ofNat inr).toNat = inr := by
    rw [UInt16.toNat_ofNat']
    exact Nat.mod_eq_of_lt (by omega)
  rcases coherent.visits (UInt16.ofNat inr) (by omega) (by omega) with ⟨read, ends⟩ | read
  · have same := (inodeRead_allocated u read).1
    rw [number, allocated.1, Option.some.injEq] at same
    rwa [← same] at ends
  · obtain ⟨found, there, free⟩ := inodeRead_unallocated u read
    rw [number, allocated.1, Option.some.injEq] at there
    rw [← there, allocated.2] at free
    contradiction

/-- A successful mount in terms of its parts. -/
theorem mountv6_eq_ok {f : Disk} {u : UnixFilesystem} (mounted : mountv6 f = .ok u) :
    ∃ boot sector ibm fbm, sectorRead f 0 = .ok boot ∧ boot.bytes.headD 0 = bootblockMagicNum ∧
      sectorRead f 1 = .ok sector ∧
      bmAlloc 1 ((Superblock.ofSector sector).sIsize.toNat * 16) = some ibm ∧
      bmAlloc (Superblock.ofSector sector).sBlockStart.toNat
        (Superblock.ofSector sector).sFsize.toNat = some fbm ∧
      fillBitmaps { f, s := Superblock.ofSector sector, fbm, ibm } = .ok u := by
  simp only [mountv6, bind, Except.bind] at mounted
  cases first : sectorRead f bootblockSector with
  | error code => simp [first] at mounted
  | ok boot =>
    simp only [first] at mounted
    split at mounted
    · contradiction
    · rename_i magic
      cases second : sectorRead f superblockSector with
      | error code => simp [second] at mounted
      | ok sector =>
        simp only [second] at mounted
        cases inodes : bmAlloc rootInumber
            ((Superblock.ofSector sector).sIsize.toNat * inodesPerSector) with
        | none => simp [inodes] at mounted
        | some ibm =>
          simp only [inodes] at mounted
          cases blocks : bmAlloc (Superblock.ofSector sector).sBlockStart.toNat
              (Superblock.ofSector sector).sFsize.toNat with
          | none => simp [blocks] at mounted
          | some fbm =>
            simp only [blocks] at mounted
            exact ⟨boot, sector, ibm, fbm, rfl, not_not.mp magic, rfl, inodes, blocks, mounted⟩

/-- A successful mount leaves the disk as it is, with the bitmaps that its scan describes. -/
theorem mountv6_coherent {f : Disk} {u : UnixFilesystem} (mounted : mountv6 f = .ok u) :
    u.f = f ∧ Coherent u := by
  obtain ⟨boot, sector, ibm, fbm, first, magic, second, inodes, blocks, fill⟩ :=
    mountv6_eq_ok mounted
  obtain ⟨success, effect⟩ := fillBitmaps_spec { f, s := Superblock.ofSector sector, fbm, ibm }
  have visits := success.mp ⟨u, fill⟩
  have marks := effect u fill
  obtain ⟨ibmMin, ibmMax, nonempty, ibmCursor, ibmClear⟩ := bmAlloc_eq_some inodes
  obtain ⟨fbmMin, fbmMax, -, -, fbmClear⟩ := bmAlloc_eq_some blocks
  -- from here on everything is about the mounted state, which has the same disk
  generalize before : ({ f, s := Superblock.ofSector sector, fbm, ibm } : UnixFilesystem) = u₀ at *
  have disk : u₀.f = f := by rw [← before]
  have super : u₀.s = Superblock.ofSector sector := by rw [← before]
  have bitmaps : u₀.ibm = ibm ∧ u₀.fbm = fbm := by rw [← before]; exact ⟨rfl, rfl⟩
  rw [← super] at ibmMax nonempty fbmMin fbmMax
  rw [← bitmaps.1] at ibmMin ibmMax ibmCursor ibmClear
  rw [← bitmaps.2] at fbmMin fbmMax fbmClear
  have size : 1 ≤ u₀.s.sIsize.toNat ∧ u₀.s.sIsize.toNat ≤ 4096 := by
    refine ⟨by omega, ?_⟩
    by_cases one : u₀.s.sIsize.toNat = 1
    · omega
    · exact (scannedInr_toNat visits (k := 0) (j := 0) (by omega) (by decide)).2
  have reaches : ∀ x, ScanReaches u x ↔ ScanReaches u₀ x := by
    intro x
    simp only [ScanReaches, marks.f, marks.s, scanned_congr marks.f]
  have sweptIbm : u₀.ibm.Swept := fun x _ => by rw [ibmCursor]; exact Nat.zero_le _
  refine ⟨marks.f.trans disk, ?_⟩
  constructor
  case magic => exact ⟨boot, by rw [marks.f, disk]; exact sectorRead_ok first, magic⟩
  case superblock =>
    exact ⟨sector, by rw [marks.f, disk]; exact sectorRead_ok second, by rw [marks.s, super]⟩
  case size => rw [marks.s]; exact size
  case ibmRange =>
    rw [marks.ibm.min, marks.ibm.max, ibmMin, ibmMax, marks.s, Superblock.inodes, Nat.mul_comm]
    exact ⟨rfl, rfl⟩
  case fbmRange =>
    rw [marks.fbm.min, marks.fbm.max, fbmMin, fbmMax, marks.s]
    exact ⟨rfl, rfl⟩
  case swept => exact marks.ibm.swept sweptIbm
  case visits =>
    intro inr low high
    rw [marks.s] at high
    have visit := visitOk_scanned visits low high
    simp only [VisitOk, inodeRead_congr marks.f marks.s, walkEnds_congr marks.f] at visit ⊢
    exact visit
  case ibm =>
    intro x
    rw [marks.ibm.marked, or_iff_right (ibmClear x), ibmMin, ibmMax, marks.s, marks.f]
    have used := scanned_used_iff visits size.2 x
    constructor
    · rintro ⟨there, -, -⟩
      exact used.mp there
    · intro both
      obtain ⟨inode, allocated⟩ := both.2
      obtain ⟨low, inside⟩ := allocated.number
      rw [Superblock.inodes] at inside
      exact ⟨used.mpr both, low, by omega⟩
  case fbm =>
    intro x
    rw [marks.fbm.marked, or_iff_right (fbmClear x), fbmMin, fbmMax, marks.s, reaches,
      and_comm, Superblock.InData]
    exact and_congr_right fun _ => scanned_sectors_iff visits x

/-- A test that succeeds on the result of a mount holds of the mounted state. -/
theorem mountv6_check {f : Disk} {P : UnixFilesystem → Prop} [DecidablePred P]
    (check : (mountv6 f).toOption.any (fun u => decide (P u)) = true) :
    ∃ u, mountv6 f = .ok u ∧ P u := by
  cases mounted : mountv6 f with
  | error code => simp [mounted, Except.toOption] at check
  | ok u => exact ⟨u, rfl, by simpa [mounted, Except.toOption] using check⟩

/-- A result that is there is no error. -/
theorem eq_ok_of_toOption {ε α : Type} {result : Except ε α} {value : α}
    (there : result.toOption = some value) : result = .ok value := by
  cases result with
  | error code => cases there
  | ok other => exact congrArg Except.ok (Option.some.inj there)

/-- A mount of a bootable disk succeeds when its scan can deal with every number it visits. -/
theorem mountv6_succeeds {u : UnixFilesystem} (works : u.f.host.Faultless)
    (magic : ∃ boot, u.f.sectors[0]? = some boot ∧ boot.bytes.headD 0 = bootblockMagicNum)
    (superblock : ∃ sector, u.f.sectors[1]? = some sector ∧ Superblock.ofSector sector = u.s)
    (size : 1 ≤ u.s.sIsize.toNat ∧ u.s.sIsize.toNat ≤ 4096)
    (data : u.s.sBlockStart.toNat ≤ u.s.sFsize.toNat)
    (visits : ∀ inr : UInt16, 1 ≤ inr.toNat → inr.toNat ≤ u.s.lastScanned → VisitOk u inr) :
    ∃ u', mountv6 u.f = .ok u' := by
  obtain ⟨boot, bootThere, number⟩ := magic
  obtain ⟨sector, superThere, super⟩ := superblock
  have first := sectorRead_faultless works bootblockSector
  have second := sectorRead_faultless works superblockSector
  rw [bootThere] at first
  rw [superThere] at second
  simp only [mountv6, bind, Except.bind, first, second, super, if_neg (not_not.mpr number), bmAlloc,
    dif_neg (show ¬u.s.sIsize.toNat * inodesPerSector < rootInumber by
      simp only [inodesPerSector, rootInumber]; omega), dif_neg (Nat.not_lt.mpr data)]
  rw [(fillBitmaps_spec _).1]
  intro k sector j slot
  have wide : (scannedInr k j).toNat = 16 * k + j + 1 := by
    simp only [scannedInr, inodesPerSector, rootInumber, UInt16.toNat_ofNat']
    exact Nat.mod_eq_of_lt (by simp only at sector; omega)
  refine visits _ (by omega) ?_
  simp only [wide, Superblock.lastScanned] at sector ⊢
  omega

/-- Two coherent states over one disk have the same bits. -/
theorem Coherent.sameBits {u u' : UnixFilesystem} (coherent : Coherent u) (coherent' : Coherent u')
    (disk : u'.f = u.f) : u.ibm.SameBits u'.ibm ∧ u.fbm.SameBits u'.fbm := by
  have super : u'.s = u.s := by
    obtain ⟨sector, there, is⟩ := coherent.superblock
    obtain ⟨sector', there', is'⟩ := coherent'.superblock
    rw [disk, there, Option.some.injEq] at there'
    rw [← is, ← is', there']
  constructor
  · refine .of_marked ?_ ?_ fun x => ?_
    · rw [coherent.ibmRange.1, coherent'.ibmRange.1]
    · rw [coherent.ibmRange.2, coherent'.ibmRange.2, super]
    · rw [coherent.ibm, coherent'.ibm, super, disk]
  · refine .of_marked ?_ ?_ fun x => ?_
    · rw [coherent.fbmRange.1, coherent'.fbmRange.1, super]
    · rw [coherent.fbmRange.2, coherent'.fbmRange.2, super]
    · rw [coherent.fbm, coherent'.fbm]
      simp only [ScanReaches, super, disk, scanned_congr disk]

/-- A coherent state is remounted with the bits it has. -/
theorem Coherent.remount {u : UnixFilesystem} (coherent : Coherent u)
    (works : u.f.host.Faultless) :
    ∃ u', mountv6 (umountv6 u) = .ok u' ∧ u.ibm.SameBits u'.ibm ∧ u.fbm.SameBits u'.fbm := by
  have data := u.fbm.range
  rw [coherent.fbmRange.1, coherent.fbmRange.2] at data
  obtain ⟨u', mounted⟩ := mountv6_succeeds works coherent.magic coherent.superblock coherent.size
    data coherent.visits
  obtain ⟨disk, coherent'⟩ := mountv6_coherent mounted
  exact ⟨u', mounted, coherent.sameBits coherent' disk⟩

end U6fs
