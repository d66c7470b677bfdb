import U6fs.Verif.Mountability

/-!
# The bitmaps in memory and the bitmaps of the next mount

The calls keep the bitmaps in memory up to date by themselves, and a mount computes them from the
disk. Both agree as long as no call gives a sector to a file that the scan visits, since the write
path never sets the bit of a sector it takes. The invariant is the description of the bitmaps by a
scan; each change of an inode keeps it when the scan marks the same sectors after the change.
-/
namespace U6fs

open Lib

/-- The sectors outside of the inode table. -/
def outsideTable (s : Superblock) : Set Nat :=
  {x | x < s.sInodeStart.toNat ∨ s.sInodeStart.toNat + s.sIsize.toNat ≤ x}

/-- The bitmaps are those of a scan, and the scan reads no indirect sector from the table. -/
structure Synced (u : UnixFilesystem) : Prop where
  /-- The bitmaps are those of a scan. -/
  coherent : Coherent u
  /-- The regions are disjoint and the machine works. -/
  geometry : Geometry u
  /-- Indirect sectors are outside of the table. -/
  walks : ∀ inr inode, inr ≤ u.s.lastScanned → u.f.Allocated u.s inr inode →
    Walkable (outsideTable u.s) u inode

/-- Where the sectors of an inode are found depends on its addresses and the number of whole
sectors in its size. -/
theorem inodeFindsector_alike (u : UnixFilesystem) {inode inode' : Inode}
    (mode : inode'.iMode = inode.iMode)
    (size : inodeGetsize inode' / 512 = inodeGetsize inode / 512)
    (addr : inode'.iAddr = inode.iAddr) (k : Int) :
    inodeFindsector u inode' k = inodeFindsector u inode k := by
  simp only [inodeFindsector, inodeFindsectorBigfile, isAllocated_congr mode, sectorSize, size,
    addr]

/-- What is scanned for an inode depends on its addresses and the number of whole sectors in its
size. -/
theorem scanned_alike (u : UnixFilesystem) {inode inode' : Inode}
    (mode : inode'.iMode = inode.iMode)
    (size : inodeGetsize inode' / 512 = inodeGetsize inode / 512)
    (addr : inode'.iAddr = inode.iAddr) : scanned u inode' = scanned u inode := by
  simp only [scanned, AddressMarked, Walked, inodeFindsector_alike u mode size addr, size, addr]

/-- What is scanned for an inode is as before when its indirect sectors are. -/
theorem scanned_kept {u u' : UnixFilesystem} {inode : Inode} (works : u.f.host.Faultless)
    (works' : u'.f.host.Faultless)
    (same : 4096 ≤ inodeGetsize inode → ∀ j ≤ inodeGetsize inode / 512 / 256,
      u'.f.sectors[(inode.iAddr.toList.getD j 0).toNat]? =
        u.f.sectors[(inode.iAddr.toList.getD j 0).toNat]?) :
    scanned u' inode = scanned u inode := by
  simp only [scanned, Walked, inodeFindsector_kept works works' inode same]

/-- A sector that the scan reads as an indirect sector is marked if it is in the data region. -/
theorem Coherent.indirect_marked {u : UnixFilesystem} (coherent : Coherent u) {x : Nat}
    (indirect : x ∈ scannedIndirects u.f u.s) (data : u.s.InData x) : u.fbm.Marked x := by
  obtain ⟨inr, inode, visited, allocated, -, j, inside, rfl⟩ := indirect
  have fits := (coherent.walkEnds visited allocated).fits allocated.2
  have marked : AddressMarked inode (inode.iAddr.toList.getD j 0).toNat :=
    ⟨fits, j, inside.trans (Nat.div_le_div_right (Nat.le_succ _)), rfl⟩
  exact (coherent.fbm _).mpr ⟨data, .inl ⟨inr, inode, visited, allocated, .inl marked⟩⟩

/-- In the data region, the scan reaches what it scans for allocated inodes. -/
theorem Geometry.scanReaches_iff {u : UnixFilesystem} (geometry : Geometry u) {x : Nat}
    (data : u.s.InData x) : ScanReaches u x ↔
      ∃ inr inode, inr ≤ u.s.lastScanned ∧ u.f.Allocated u.s inr inode ∧ x ∈ scanned u inode := by
  constructor
  · rintro (scan | ⟨k, inside, rfl, -⟩)
    · exact scan
    · exact absurd rfl (geometry.data_ne_table data (by omega))
  · exact .inl

/-- Inode `m` is replaced by one for which the scan marks what was marked already and what was
scanned for the old one; bitmaps and disk are otherwise as before, as far as the scan sees. -/
structure Replaced (u u' : UnixFilesystem) (m : Nat) (inode' : Inode) : Prop where
  /-- The regions are disjoint and the machine works. -/
  geometry : Geometry u'
  /-- The superblock in memory is as before. -/
  s : u'.s = u.s
  /-- So is the boot sector. -/
  boot : u'.f.sectors[0]? = u.f.sectors[0]?
  /-- So is the superblock. -/
  superblock : u'.f.sectors[1]? = u.f.sectors[1]?
  /-- The other inodes are as before. -/
  table : ∀ k, u'.f.inodeAt u.s k = if k = m then some inode' else u.f.inodeAt u.s k
  /-- The sectors that the scan reads as indirect sectors are as before. -/
  kept : ∀ x ∈ scannedIndirects u.f u.s, u'.f.sectors[x]? = u.f.sectors[x]?
  /-- The search for a free inode starts before every clear bit. -/
  swept : u'.ibm.Swept
  /-- The sector bitmap is as before. -/
  fbm : u'.fbm.SameBits u.fbm
  /-- The number is marked if the scan visits it. -/
  ibm : ∀ x, u'.ibm.Marked x ↔ u.ibm.Marked x ∨ (x = m ∧ m ≤ u.s.lastScanned)
  /-- If the scan visits it, it can walk over the new inode, marks nothing new for it, and all that
  it scanned for the old one. -/
  file : m ≤ u.s.lastScanned → inode'.isAllocated = true ∧
    Walkable (outsideTable u.s) u' inode' ∧
    (∀ y, u.s.InData y → y ∈ scanned u' inode' → u.fbm.Marked y) ∧
    ∀ inode, u.f.Allocated u.s m inode → ∀ y, u.s.InData y →
      y ∈ scanned u inode → y ∈ scanned u' inode'

namespace Replaced

variable {u u' : UnixFilesystem} {m : Nat} {inode' : Inode} (replaced : Replaced u u' m inode')

include replaced

/-- The other files are allocated as before. -/
theorem others {k : Nat} {inode : Inode} (other : k ≠ m) :
    u'.f.Allocated u.s k inode ↔ u.f.Allocated u.s k inode := by
  rw [Disk.Allocated, Disk.Allocated, replaced.table, if_neg other]

/-- The indirect sectors of the files that the scan visits are as before. -/
theorem unread {k : Nat} {inode : Inode} (visited : k ≤ u.s.lastScanned)
    (allocated : u.f.Allocated u.s k inode) (big : 4096 ≤ inodeGetsize inode) {j : Nat}
    (inside : j ≤ inodeGetsize inode / 512 / 256) :
    u'.f.sectors[(inode.iAddr.toList.getD j 0).toNat]? =
      u.f.sectors[(inode.iAddr.toList.getD j 0).toNat]? :=
  replaced.kept _ ⟨k, inode, visited, allocated, big, j, inside, rfl⟩

/-- The scan visits the same numbers in use, and the new one. -/
theorem inUse {x : Nat} : (x ≤ u.s.lastScanned ∧ u'.f.InUse u.s x) ↔
    (x ≤ u.s.lastScanned ∧ u.f.InUse u.s x) ∨ (x = m ∧ m ≤ u.s.lastScanned) := by
  by_cases mine : x = m
  · subst mine
    constructor
    · rintro ⟨visited, -⟩
      exact .inr ⟨rfl, visited⟩
    · rintro (⟨visited, -⟩ | ⟨-, visited⟩)
      all_goals
        obtain ⟨used, -⟩ := replaced.file visited
        exact ⟨visited, inode', by rw [replaced.table, if_pos rfl], used⟩
  · simp only [mine, false_and, or_false]
    exact and_congr_right fun _ => exists_congr fun _ => replaced.others mine

variable (before : Synced u)

include before

/-- The same is scanned for them. -/
theorem alike {k : Nat} {inode : Inode} (visited : k ≤ u.s.lastScanned)
    (allocated : u.f.Allocated u.s k inode) : scanned u' inode = scanned u inode :=
  scanned_kept before.geometry.works replaced.geometry.works
    fun big _ inside => replaced.unread visited allocated big inside

/-- The scan can walk over the files that it visits. -/
theorem walks {k : Nat} {inode : Inode} (visited : k ≤ u.s.lastScanned)
    (allocated : u'.f.Allocated u.s k inode) : Walkable (outsideTable u.s) u' inode := by
  by_cases mine : k = m
  · subst mine
    have there := allocated.1
    rw [replaced.table, if_pos rfl, Option.some.injEq] at there
    rw [← there]
    exact (replaced.file visited).2.1
  · have old := (replaced.others mine).mp allocated
    have walkable := before.walks k inode visited old
    exact ⟨walkEnds_kept before.geometry.works replaced.geometry.works
        (fun big _ inside => replaced.unread visited old big inside) walkable.ends,
      walkable.indirect⟩

/-- The scan reaches the same sectors of the data region. -/
theorem reaches {y : Nat} (data : u.s.InData y) : ScanReaches u' y ↔ ScanReaches u y := by
  have data' : u'.s.InData y := by
    rw [replaced.s]
    exact data
  have mark := before.coherent.fbm y
  rw [replaced.geometry.scanReaches_iff data', before.geometry.scanReaches_iff data, replaced.s]
  rw [before.geometry.scanReaches_iff data] at mark
  constructor
  · rintro ⟨k, inode, visited, allocated, mem⟩
    by_cases mine : k = m
    · subst mine
      have there := allocated.1
      rw [replaced.table, if_pos rfl, Option.some.injEq] at there
      rw [← there] at mem
      exact (mark.mp ((replaced.file visited).2.2.1 y data mem)).2
    · have old := (replaced.others mine).mp allocated
      rw [replaced.alike before visited old] at mem
      exact ⟨k, inode, visited, old, mem⟩
  · rintro ⟨k, inode, visited, allocated, mem⟩
    by_cases mine : k = m
    · subst mine
      obtain ⟨used, -, -, keeps⟩ := replaced.file visited
      have stored : u'.f.inodeAt u.s k = some inode' := by rw [replaced.table, if_pos rfl]
      exact ⟨k, inode', visited, ⟨stored, used⟩, keeps inode allocated y data mem⟩
    · refine ⟨k, inode, visited, (replaced.others mine).mpr allocated, ?_⟩
      rw [replaced.alike before visited allocated]
      exact mem

end Replaced

/-- Such a change keeps the bitmaps those of a scan. -/
theorem Synced.replaced {u u' : UnixFilesystem} (before : Synced u) {m : Nat} {inode' : Inode}
    (replaced : Replaced u u' m inode') : Synced u' := by
  have coherent := before.coherent
  have geometry := replaced.geometry
  have s := replaced.s
  refine ⟨?_, geometry, fun k inode visited allocated => ?_⟩
  · constructor
    case magic => rw [replaced.boot]; exact coherent.magic
    case superblock => rw [replaced.superblock, s]; exact coherent.superblock
    case size => exact geometry.size
    case ibmRange => exact geometry.ranges.ibm
    case fbmRange => exact geometry.ranges.fbm
    case swept => exact replaced.swept
    case visits =>
      intro inr low high
      have inside : inr.toNat < u'.s.inodes := by
        rw [Superblock.lastScanned] at high
        rw [Superblock.inodes]
        omega
      refine geometry.visitOk low inside fun inode allocated => ?_
      rw [s] at high allocated
      exact (replaced.walks before high allocated).ends
    case ibm =>
      intro x
      rw [replaced.ibm x, coherent.ibm x, s]
      exact replaced.inUse.symm
    case fbm =>
      intro x
      rw [replaced.fbm.marked x, coherent.fbm x, s]
      exact and_congr_right fun data => (replaced.reaches before data).symm
  · rw [s] at visited allocated ⊢
    exact replaced.walks before visited allocated

/-- A change of the cursors changes nothing that a scan sees. -/
theorem Synced.searched {u u' : UnixFilesystem} (before : Synced u) (f : u'.f = u.f)
    (s : u'.s = u.s) (ibm : u'.ibm.SameBits u.ibm) (fbm : u'.fbm.SameBits u.fbm)
    (swept : u'.ibm.Swept) : Synced u' := by
  have coherent := before.coherent
  have geometry : Geometry u' := before.geometry.congr s (by rw [f]) (by rw [f])
    ⟨ibm.min, ibm.max⟩ ⟨fbm.min, fbm.max⟩
  refine ⟨?_, geometry, ?_⟩
  · constructor
    case magic => rw [f]; exact coherent.magic
    case superblock => rw [f, s]; exact coherent.superblock
    case size => exact geometry.size
    case ibmRange => exact geometry.ranges.ibm
    case fbmRange => exact geometry.ranges.fbm
    case swept => exact swept
    case visits =>
      intro inr low high
      rw [s] at high
      have visit := coherent.visits inr low high
      simp only [VisitOk, inodeRead_congr f s, walkEnds_congr f] at visit ⊢
      exact visit
    case ibm =>
      intro x
      rw [ibm.marked, coherent.ibm, s, f]
    case fbm =>
      intro x
      rw [fbm.marked, coherent.fbm]
      simp only [ScanReaches, f, s, scanned_congr f]
  · rw [s, f]
    intro inr inode visited allocated
    have walkable := before.walks inr inode visited allocated
    exact ⟨(walkEnds_congr f inode).mpr walkable.ends, walkable.indirect⟩

/-- Some number that the scan visits is free. -/
def ScannedInodeFree (u : UnixFilesystem) : Prop :=
  ∃ m, m ≤ u.s.lastScanned ∧ bmGet u.ibm m = 0

/-- A sector that is not in the data region or has its bit set. -/
def MarkedInData (u : UnixFilesystem) (x : Nat) : Prop := u.s.InData x → u.fbm.Marked x

/-- What lies behind a file of `k` whole sectors, of which the scan takes one more for a sector of
the file, makes the scan mark nothing new. -/
structure BehindMarked (u : UnixFilesystem) (inode : Inode) (k : Nat) : Prop where
  /-- The addresses of a file of 8 whole sectors are not taken for those of indirect sectors. -/
  eight : k ≠ 8
  /-- The address behind a smaller file is marked if it is in the data region. -/
  address : k < 8 → MarkedInData u (inode.iAddr.toList.getD k 0).toNat
  /-- A larger file does not fill its last indirect sector. -/
  inside : 8 < k → k % 256 ≠ 0
  /-- If that is filled with the sector behind, so is the address of the next one. -/
  indirect : 8 < k → (k + 1) % 256 = 0 →
    MarkedInData u (inode.iAddr.toList.getD ((k + 1) / 256) 0).toNat
  /-- The entry behind is not negative, and marked if it is in the data region, unless an entry
  before is taken for the end. -/
  entry : 8 < k → (∀ i < k, u.f.entry inode i ≠ some 65420) →
    ∃ e < 32768, u.f.entry inode k = some e ∧ MarkedInData u e

/-- It stays so while the bitmap and the indirect sectors of the file are as before. -/
theorem BehindMarked.congr {u u' : UnixFilesystem} {inode : Inode} {k : Nat}
    (behind : BehindMarked u inode k) (s : u'.s = u.s) (fbm : u'.fbm = u.fbm)
    (same : 8 < k → ∀ j ≤ k / 256, u'.f.sectors[(inode.iAddr.toList.getD j 0).toNat]? =
      u.f.sectors[(inode.iAddr.toList.getD j 0).toNat]?) : BehindMarked u' inode k := by
  have marked : ∀ x, MarkedInData u' x ↔ MarkedInData u x := by
    intro x
    rw [MarkedInData, MarkedInData, s, fbm]
  have entry : 8 < k → ∀ i ≤ k, u'.f.entry inode i = u.f.entry inode i := by
    intro large i inside
    by_cases slot : i / 256 < 8
    · simp only [Disk.entry, addr_getElem? inode slot, Option.bind_eq_bind, Option.bind_some,
        same large _ (Nat.div_le_div_right inside)]
    · have none : inode.iAddr.toList[i / 256]? = none := by
        rw [List.getElem?_eq_none_iff, Vector.length_toList]
        exact Nat.not_lt.mp slot
      simp only [Disk.entry, none, Option.bind_eq_bind, Option.bind_none]
  constructor
  case eight => exact behind.eight
  case address => exact fun small => (marked _).mpr (behind.address small)
  case inside => exact behind.inside
  case indirect => exact fun large next => (marked _).mpr (behind.indirect large next)
  case entry =>
    intro large before
    obtain ⟨e, low, there, is⟩ := behind.entry large fun i inside => by
      rw [← entry large i inside.le]
      exact before i inside
    exact ⟨e, low, (entry large k le_rfl).trans there, (marked e).mpr is⟩

/-- Appending `len` bytes to file `inr` changes nothing that the scan of a mount marks. -/
structure AppendUnseen (u : UnixFilesystem) (inr : Nat) (inode : Inode) (len : Nat) : Prop where
  /-- No address past `i_addr[7]` is stored. -/
  slots : SlotsInside (inodeGetsize inode) len
  /-- The last sector, if it is filled up, is in the data region, and the scan does not read it as
  an indirect sector. -/
  target : inodeGetsize inode % 512 ≠ 0 → ∀ x : Nat,
    inodeFindsector u inode (inodeGetsize inode / 512 : Nat) = x →
      u.s.InData x ∧ x ∉ scannedIndirects u.f u.s
  /-- The indirect sector that names the last sector is outside of the table. -/
  indirect : inodeGetsize inode % 512 ≠ 0 → 4096 ≤ inodeGetsize inode →
    lastIndirect inode ∈ outsideTable u.s
  /-- A file that the scan visits takes no new sector. -/
  fits : inr ≤ u.s.lastScanned → len ≤ (512 - inodeGetsize inode % 512) % 512
  /-- If its last sector is filled completely, what lies behind is marked. -/
  behind : inr ≤ u.s.lastScanned → inodeGetsize inode % 512 ≠ 0 →
    (inodeGetsize inode + len) % 512 = 0 → BehindMarked u inode ((inodeGetsize inode + len) / 512)

section Longer

variable {u : UnixFilesystem} {inode inode' : Inode} {k : Nat}

/-- A walk over one sector more, which is found when the walk gets there. -/
theorem walk_longer (before : ∀ i < k, inodeFindsector u inode' i = inodeFindsector u inode i)
    (last : inodeFindsector u inode k = errOffsetOutOfRange)
    (last' : inodeFindsector u inode' (k + 1 : Nat) = errOffsetOutOfRange)
    (next : (∀ i < k, 0 ≤ inodeFindsector u inode i) →
      ∃ x : Nat, inodeFindsector u inode' k = x ∧ MarkedInData u x)
    (ends : WalkEnds u inode) :
    WalkEnds u inode' ∧ (∀ y, Walked u inode' y → Walked u inode y ∨ MarkedInData u y) ∧
      ∀ y, Walked u inode y → Walked u inode' y := by
  have negative : errOffsetOutOfRange < 0 := by decide
  refine ⟨?_, ?_, ?_⟩
  · obtain ⟨n, positive, stops⟩ := ends
    have short : n ≤ k := by
      by_contra longer
      have there := positive k (Nat.not_le.mp longer)
      rw [last] at there
      omega
    rcases Nat.lt_or_eq_of_le short with early | rfl
    · exact ⟨n, fun i inside => by rw [before i (by omega)]; exact positive i inside,
        by rw [before n early]; exact stops⟩
    · obtain ⟨x, found, -⟩ := next positive
      refine ⟨n + 1, fun i inside => ?_, last'⟩
      rcases Nat.lt_or_eq_of_le (Nat.lt_succ_iff.mp inside) with early | rfl
      · rw [before i early]
        exact positive i early
      · rw [found]
        exact Int.natCast_nonneg x
  · rintro y ⟨i, positive, found⟩
    rcases Nat.lt_trichotomy i k with early | rfl | late
    · rw [before i early] at found
      exact .inl ⟨i, fun j inside => before j (by omega) ▸ positive j inside, found⟩
    · obtain ⟨x, there, marked⟩ := next fun j inside => before j inside ▸ positive j inside.le
      rw [there] at found
      rw [← Int.natCast_inj.mp found]
      exact .inr marked
    · have beyond := positive (k + 1) late
      rw [last'] at beyond
      omega
  · rintro y ⟨i, positive, found⟩
    have early : i < k := by
      by_contra late
      have there := positive k (Nat.not_lt.mp late)
      rw [last] at there
      omega
    exact ⟨i, fun j inside => by rw [before j (by omega)]; exact positive j inside,
      by rw [before i early]; exact found⟩

variable (works : u.f.host.Faultless) (used : inode.isAllocated = true)
  (mode : inode'.iMode = inode.iMode) (addr : inode'.iAddr = inode.iAddr)
  (size : inodeGetsize inode / 512 + 1 = k) (size' : inodeGetsize inode' = 512 * k)
  (behind : BehindMarked u inode k) (ends : WalkEnds u inode)

include works used mode addr size size' behind ends

/-- The walk over a file whose last sector is filled completely finds what lies behind. -/
theorem walk_filled : WalkEnds u inode' ∧
    (∀ y, Walked u inode' y → Walked u inode y ∨ MarkedInData u y) ∧
      ∀ y, Walked u inode y → Walked u inode' y := by
  have used' : inode'.isAllocated = true := by
    rw [isAllocated_congr mode]
    exact used
  have fits := ends.fits used
  have eight := behind.eight
  refine walk_longer (k := k) ?_ (inodeFindsector_end u used (by omega))
    (inodeFindsector_end u used' (by omega)) ?_ ends
  · intro i inside
    refine inodeFindsector_same works works used used' (by omega) (by omega) (fun small => ?_)
      fun big => ⟨by omega, ⟨fun _ => fits, fun _ => ?_⟩, fun _ => ⟨by rw [addr], rfl⟩⟩
    · exact ⟨by omega, by rw [addr]⟩
    · have := behind.inside (by omega)
      omega
  · intro positive
    by_cases small : k < 8
    · refine ⟨_, inodeFindsector_direct u used' (k := k) (by omega) (by omega), ?_⟩
      rw [addr]
      exact behind.address small
    · have large : 8 < k := by omega
      have divides := behind.inside large
      obtain ⟨e, low, there, marked⟩ := behind.entry large fun i inside is => by
        obtain ⟨e, there, low, -⟩ :=
          entry_of_found u used (by omega) fits (k := i) (by omega) (positive i inside)
        rw [is, Option.some.injEq] at there
        omega
      refine ⟨e, ?_, marked⟩
      have same : u.f.entry inode' k = some e := by
        rw [← there, Disk.entry, Disk.entry, addr]
      exact found_of_entry works used' (by omega) (by omega) (by omega) same low

/-- The scan marks nothing new for such a file, and all that it marked before. -/
theorem scanned_filled : WalkEnds u inode' ∧
    (∀ y ∈ scanned u inode', y ∈ scanned u inode ∨ MarkedInData u y) ∧
      ∀ y ∈ scanned u inode, y ∈ scanned u inode' := by
  obtain ⟨ends', fewer, more⟩ := walk_filled works used mode addr size size' behind ends
  have fits := ends.fits used
  have fits' : k < 1792 := by
    by_contra large
    have eight := behind.eight
    have := behind.inside (by omega)
    omega
  have count : inodeGetsize inode' / 512 + 1 = k + 1 := by omega
  refine ⟨ends', ?_, ?_⟩
  · rintro y (⟨-, j, inside, rfl⟩ | walked)
    · rw [count] at inside
      rw [addr]
      by_cases old : j ≤ k / 256
      · exact .inl (.inl ⟨fits, j, by rw [size]; exact old, rfl⟩)
      · obtain rfl : j = (k + 1) / 256 := by omega
        exact .inr (behind.indirect (by omega) (by omega))
    · rcases fewer y walked with walked | marked
      · exact .inl (.inr walked)
      · exact .inr marked
  · rintro y (⟨-, j, inside, rfl⟩ | walked)
    · refine .inl ⟨by omega, j, ?_, by rw [addr]⟩
      rw [size] at inside
      rw [count]
      omega
    · exact .inr (more y walked)

end Longer

namespace Synced

variable {u u' : UnixFilesystem}

/-- An allocated inode that the scan visits is marked. -/
theorem marked (before : Synced u) {m : Nat} (visited : m ≤ u.s.lastScanned)
    (used : u.f.InUse u.s m) : u.ibm.Marked m :=
  (before.coherent.ibm m).mpr ⟨visited, used⟩

/-- When a number that the scan visits is free, a number is reserved that the scan visits, and it
is none of an inode in use. -/
theorem reserved_visited (before : Synced u) (free : ScannedInodeFree u) {m : Nat}
    (reserved : Reserved u u' m) : m ≤ u.s.lastScanned ∧ ¬u.f.InUse u.s m := by
  obtain ⟨x, visited, clear⟩ := free
  have least := reserved.least before.coherent.swept x clear
  have low : m ≤ u.s.lastScanned := least.trans visited
  refine ⟨low, fun used => ?_⟩
  exact reserved.ne_of_marked (before.marked low used) rfl

/-- A number is reserved and an inode is stored there for which the scan marks nothing new. -/
theorem reserved (before : Synced u) (free : ScannedInodeFree u) {m : Nat} {inode' : Inode}
    (reserved : Reserved u u' m) (fbm : u'.fbm = u.fbm) (stored : Stored u.f u'.f u.s m inode')
    (used : inode'.isAllocated = true) (walkable : Walkable (outsideTable u.s) u inode')
    (marked : ∀ y, u.s.InData y → y ∈ scanned u inode' → u.fbm.Marked y) : Synced u' := by
  have geometry := before.geometry
  obtain ⟨visited, unused⟩ := before.reserved_visited free reserved
  have next : Geometry u' := geometry.congr reserved.s stored.host stored.length.ge reserved.range
    (by rw [fbm]; exact ⟨rfl, rfl⟩)
  have table := geometry.table
  have inside := stored.inside.2
  rw [Superblock.inodes] at inside
  have outside : ∀ x ∈ outsideTable u.s, u'.f.sectors[x]? = u.f.sectors[x]? := by
    intro x mem
    apply stored.other
    rintro rfl
    simp only [outsideTable, Set.mem_ofPred_eq, Superblock.tableSector] at mem
    omega
  have indirect : ∀ x ∈ scannedIndirects u.f u.s, u'.f.sectors[x]? = u.f.sectors[x]? := by
    rintro x ⟨k, inode, low, allocated, big, j, within, rfl⟩
    exact outside _ ((before.walks k inode low allocated).indirect big j within)
  have after := walkable.congr geometry.works next.works outside
  have alike : scanned u' inode' = scanned u inode' := scanned_kept geometry.works next.works
    fun big j within => outside _ (walkable.indirect big j within)
  refine before.replaced ⟨next, reserved.s, ?_, ?_, stored.inodeAt, indirect,
    reserved.swept before.coherent.swept, by rw [fbm]; exact .refl _, ?_, fun _ =>
      ⟨used, after, ?_, fun inode allocated => absurd ⟨inode, allocated⟩ unused⟩⟩
  · apply outside
    exact .inl (show 0 < u.s.sInodeStart.toNat by omega)
  · apply outside
    exact .inl (show 1 < u.s.sInodeStart.toNat by omega)
  · intro x
    rw [reserved.ibm]
    simp only [visited, and_true]
  · rw [alike]
    exact marked

/-- A sector that no scan reads as an indirect sector is written, and an inode for which the scan
marks what it marked before, and nothing new. -/
theorem put (before : Synced u) {m x : Nat} {f : Disk} {fbm : BmblockArray} {writer : Writer}
    {content : Sector} {inode inode' : Inode} (allocated : u.f.Allocated u.s m inode)
    (same : fbm.SameBits u.fbm) (put : Put u.f f u.s writer x content m inode')
    (unread : x ∉ scannedIndirects u.f u.s)
    (file : m ≤ u.s.lastScanned → inode'.isAllocated = true ∧
      Walkable {y | y ∈ outsideTable u.s ∧ x ≠ y} u inode' ∧
      (∀ y ∈ scanned u inode', y ∈ scanned u inode ∨ MarkedInData u y) ∧
      ∀ y ∈ scanned u inode, y ∈ scanned u inode') :
    Synced { u with f, fbm } := by
  have geometry := before.geometry
  have next : Geometry { u with f, fbm } := (geometry.searched same).put put
  have table := geometry.table
  have region := geometry.data
  have low := put.data.1
  have inside := put.inside.2
  rw [Superblock.inodes] at inside
  have outside : ∀ y ∈ outsideTable u.s, x ≠ y → f.sectors[y]? = u.f.sectors[y]? := by
    intro y mem other
    apply put.other y (Ne.symm other)
    rintro rfl
    simp only [outsideTable, Set.mem_ofPred_eq, Superblock.tableSector] at mem
    omega
  have indirect : ∀ y ∈ scannedIndirects u.f u.s, f.sectors[y]? = u.f.sectors[y]? := by
    intro y mem
    have apart : x ≠ y := by
      rintro rfl
      exact unread mem
    obtain ⟨k, inode, visited, allocated, big, j, within, rfl⟩ := mem
    exact outside _ ((before.walks k inode visited allocated).indirect big j within) apart
  refine before.replaced
    ⟨next, rfl, ?_, ?_, put.inodeAt, indirect, before.coherent.swept, same, ?_, ?_⟩
  · exact outside 0 (.inl (show 0 < u.s.sInodeStart.toNat by omega)) (by omega)
  · exact outside 1 (.inl (show 1 < u.s.sInodeStart.toNat by omega)) (by omega)
  · intro y
    constructor
    · exact .inl
    · rintro (marked | ⟨rfl, visited⟩)
      · exact marked
      · exact before.marked visited ⟨inode, allocated⟩
  · intro visited
    obtain ⟨used, walkable, fewer, more⟩ := file visited
    have kept : ∀ y ∈ {y | y ∈ outsideTable u.s ∧ x ≠ y}, f.sectors[y]? = u.f.sectors[y]? :=
      fun y mem => outside y mem.1 mem.2
    have after := walkable.congr geometry.works next.works kept
    have again : scanned { u with f, fbm } inode' = scanned u inode' :=
      scanned_kept geometry.works next.works
        fun big j within => kept _ (walkable.indirect big j within)
    rw [again]
    refine ⟨used, ⟨after.ends, fun big j within => (after.indirect big j within).1⟩, ?_, ?_⟩
    · intro y data mem
      rcases fewer y mem with old | marked
      · exact (before.coherent.fbm y).mpr ⟨data, .inl ⟨m, inode, visited, allocated, old⟩⟩
      · exact marked data
    · intro old there y _ mem
      obtain rfl : old = inode := Option.some.inj (there.1.symm.trans allocated.1)
      exact more y mem

/-- A free sector is not read as an indirect sector. -/
theorem unread (before : Synced u) {x : Nat} (free : bmGet u.fbm x = 0) :
    x ∉ scannedIndirects u.f u.s := by
  intro indirect
  have marked := before.coherent.indirect_marked indirect (before.geometry.data_of_free free)
  exact ((bmGet_eq_zero_iff _ _).mp free).2 marked

/-- A file that the scan does not visit may take any free sector. -/
theorem taken {inr : UInt16} {inode inode' : Inode} {size : Nat} {bytes : List UInt8} {code : Int}
    (extension : Extends inr u inode size bytes code u' inode') (before : Synced u)
    (hidden : u.s.lastScanned < inr.toNat) (allocated : u.f.Allocated u.s inr.toNat inode) :
    Synced u' := by
  induction extension with
  | done => exact before
  | full more same => exact before.searched rfl rfl (.refl _) same before.coherent.swept
  | @sector u u' inode inode' size bytes fbm f x code more free same put rest ih =>
    have next := before.put allocated same put (before.unread free)
      fun visited => absurd hidden (Nat.not_lt.mpr visited)
    apply ih next hidden
    refine ⟨?_, ?_⟩
    · show f.inodeAt u.s inr.toNat = _
      rw [put.inodeAt, if_pos rfl]
    · rw [isAllocated_congr (placed_iMode _ _ _)]
      exact allocated.2

/-- The scan marks nothing new for a file that it visits at its new size, and all that it marked
before; it reads neither the table nor the last sector of the file as an indirect sector. -/
theorem grown (before : Synced u) {m len : Nat} {inode : Inode}
    (allocated : u.f.Allocated u.s m inode) (unseen : AppendUnseen u m inode len)
    (visited : m ≤ u.s.lastScanned) (residual : inodeGetsize inode % 512 ≠ 0) {x : Nat}
    (last : inodeFindsector u inode (inodeGetsize inode / 512 : Nat) = x) :
    Walkable {y | y ∈ outsideTable u.s ∧ x ≠ y} u (inode.resized (inodeGetsize inode + len)) ∧
      (∀ y ∈ scanned u (inode.resized (inodeGetsize inode + len)),
        y ∈ scanned u inode ∨ MarkedInData u y) ∧
      ∀ y ∈ scanned u inode, y ∈ scanned u (inode.resized (inodeGetsize inode + len)) := by
  have works := before.geometry.works
  have known := before.walks m inode visited allocated
  have fits := known.ends.fits allocated.2
  have room := unseen.fits visited
  have size := inodeGetsize_resized inode (inodeGetsize inode + len) (by omega)
  have mode := resized_iMode inode (inodeGetsize inode + len)
  have addr := resized_iAddr inode (inodeGetsize inode + len)
  -- indirect sectors are those from before
  have indirect : 4096 ≤ inodeGetsize inode → ∀ j ≤ inodeGetsize inode / 512 / 256,
      (inode.iAddr.toList.getD j 0).toNat ∈ {y | y ∈ outsideTable u.s ∧ x ≠ y} := by
    refine fun big j inside => ⟨known.indirect big j inside, ?_⟩
    rintro rfl
    exact (unseen.target residual _ last).2 ⟨m, inode, visited, allocated, big, j, inside, rfl⟩
  by_cases whole : (inodeGetsize inode + len) % 512 = 0
  · have behind := unseen.behind visited residual whole
    have eight := behind.eight
    obtain ⟨ends, same⟩ := scanned_filled works allocated.2 mode addr (by omega)
      (size.trans (by omega)) behind known.ends
    refine ⟨⟨ends, fun big j inside => ?_⟩, same⟩
    rw [size] at big inside
    have divides := behind.inside (by omega)
    rw [addr]
    exact indirect (by omega) j (by omega)
  · have alike : inodeGetsize (inode.resized (inodeGetsize inode + len)) / 512 =
        inodeGetsize inode / 512 := by omega
    have same := scanned_alike u mode alike addr
    rw [same]
    refine ⟨⟨?_, fun big j inside => ?_⟩, fun y mem => .inl mem, fun y mem => mem⟩
    · obtain ⟨n, positive, stops⟩ := known.ends
      have found := inodeFindsector_alike u mode alike addr
      exact ⟨n, fun i inside => by rw [found]; exact positive i inside, by rw [found]; exact stops⟩
    · rw [alike] at inside
      rw [addr]
      exact indirect (by omega) j inside

/-- The last sector of a file is filled up without a change that the scan sees. -/
theorem filledUp (before : Synced u) {m : Nat} {inode inode' : Inode} {bytes : List UInt8}
    {len : Nat} (allocated : u.f.Allocated u.s m inode) (unseen : AppendUnseen u m inode len)
    (whole : m ≤ u.s.lastScanned → bytes.length = len)
    (filled : FilledUp u u' m inode inode' bytes) : Synced u' := by
  obtain ⟨x, sector, f', found, -, put, rfl⟩ := filled.effect
  refine before.put allocated (.refl _) put (unseen.target filled.residual x found).2
    fun visited => ?_
  rw [filled.inode, whole visited]
  refine ⟨?_, before.grown allocated unseen visited filled.residual found⟩
  rw [isAllocated_congr (resized_iMode _ _)]
  exact allocated.2

/-- A buffer is appended without a change that the scan sees. -/
theorem appends (before : Synced u) {inr : UInt16} {inode inode' : Inode} {bytes : List UInt8}
    {code : Int} (allocated : u.f.Allocated u.s inr.toNat inode)
    (unseen : AppendUnseen u inr.toNat inode bytes.length)
    (appended : Appends u u' inr inode inode' bytes code) : Synced u' := by
  obtain ⟨u₁, inode₁, first, second⟩ := appended.stages
  -- a file that the scan visits has room for all the bytes in its last sector
  have whole : inr.toNat ≤ u.s.lastScanned →
      residualLength (inodeGetsize inode) bytes.length = bytes.length := by
    intro visited
    have room := unseen.fits visited
    rw [residualLength]
    split <;> omega
  have rest : Synced u₁ → u₁.s = u.s → u₁.f.Allocated u₁.s inr.toNat inode₁ → Synced u' := by
    intro between s there
    rcases Nat.lt_or_ge u.s.lastScanned inr.toNat with hidden | visited
    · exact taken second between (by rw [s]; exact hidden) there
    · rw [whole visited, List.drop_length] at second
      rw [second.nil.1]
      exact between
  rcases first with ⟨-, rfl, rfl⟩ | ⟨-, -, rfl, rfl⟩ | filled
  · exact rest before rfl allocated
  · exact rest before rfl allocated
  · have between : Synced u₁ := by
      refine before.filledUp allocated unseen (fun visited => ?_) filled
      rw [whole visited, List.take_length]
    obtain ⟨x, sector, f', -, -, put, rfl⟩ := filled.effect
    refine rest between rfl ⟨?_, ?_⟩
    · show f'.inodeAt u.s inr.toNat = _
      rw [put.inodeAt, if_pos rfl]
    · rw [filled.inode, isAllocated_congr (resized_iMode _ _)]
      exact allocated.2

/-- Storing an empty inode changes nothing for a directory that is appended to. -/
theorem unseen_begun {u₁ : UnixFilesystem} {entry name : List UInt8} {mode parent : UInt16}
    {inode : Inode} {inr : Nat} (before : Synced u)
    (begun : Begun u u₁ entry name mode parent inode inr)
    (allocated : u.f.Allocated u.s parent.toNat inode)
    (unseen : AppendUnseen u parent.toNat inode 16) : AppendUnseen u₁ parent.toNat inode 16 := by
  have geometry := before.geometry
  have works := geometry.works
  have works' := (geometry.begun begun).works
  have s := begun.reserved.s
  have inside := begun.inside.2
  rw [Superblock.inodes] at inside
  have outside : ∀ x ∈ outsideTable u.s, u₁.f.sectors[x]? = u.f.sectors[x]? := by
    intro x mem
    apply begun.stored.other
    rintro rfl
    simp only [outsideTable, Set.mem_ofPred_eq, Superblock.tableSector] at mem
    omega
  have last : inodeGetsize inode % 512 ≠ 0 →
      inodeFindsector u₁ inode (inodeGetsize inode / 512 : Nat) =
        inodeFindsector u inode (inodeGetsize inode / 512 : Nat) := by
    intro residual
    by_cases fits : inodeGetsize inode / 512 + 1 ≤ 1792
    · exact inodeFindsector_last works works' allocated.2 allocated.2 fits rfl rfl
        fun big => outside _ (unseen.indirect residual big)
    · rw [inodeFindsector_tooLarge u allocated.2 le_rfl (by omega),
        inodeFindsector_tooLarge u₁ allocated.2 le_rfl (by omega)]
  have fewer : ∀ x ∈ scannedIndirects u₁.f u₁.s, x ∈ scannedIndirects u.f u.s := by
    rintro x ⟨k, found, visited, ⟨there, used⟩, big, rest⟩
    rw [s] at visited there
    rw [begun.stored.inodeAt] at there
    by_cases new : k = inr
    · rw [if_pos new, Option.some.injEq] at there
      rw [← there, inodeGetsize_created, inodeGetsize_zero] at big
      contradiction
    · rw [if_neg new] at there
      exact ⟨k, found, visited, ⟨there, used⟩, big, rest⟩
  constructor
  case slots => exact unseen.slots
  case target =>
    intro residual x found
    rw [last residual] at found
    obtain ⟨data, apart⟩ := unseen.target residual x found
    exact ⟨by rw [s]; exact data, fun mem => apart (fewer x mem)⟩
  case indirect => rw [s]; exact unseen.indirect
  case fits => rw [s]; exact unseen.fits
  case behind =>
    rw [s]
    intro visited residual whole
    have known := before.walks _ _ visited allocated
    have room := unseen.fits visited
    have behind := unseen.behind visited residual whole
    refine behind.congr s begun.fbm fun large j inside => outside _ (known.indirect ?_ j ?_)
    · omega
    · have divides := behind.inside large
      omega

/-- A call that stored nothing changes nothing that a scan sees. -/
theorem rejected {code : Int} (before : Synced u) (free : ScannedInodeFree u)
    (rejected : Rejected u u' code) : Synced u' := by
  rcases rejected.ibm with same | reserved
  · exact before.searched rejected.f rejected.s same (by rw [rejected.fbm]; exact .refl _)
      (rejected.swept before.coherent.swept)
  · obtain ⟨visited, -⟩ := before.reserved_visited free reserved
    rw [Superblock.lastScanned, Superblock.inodes] at visited
    have size := before.geometry.size
    omega

/-- The inode of zeros with a new mode is walked over without a mark in the data region. -/
theorem empty_unmarked (before : Synced u) (mode : UInt16) :
    ∀ y, u.s.InData y → y ∈ scanned u (Inode.zero.created mode) → u.fbm.Marked y := by
  have size : inodeGetsize (Inode.zero.created mode) = 0 := by
    rw [inodeGetsize_zero_created]
  have used := created_isAllocated Inode.zero mode
  have table := before.geometry.table
  have region := before.geometry.data
  -- the only address that is looked at is 0
  have only : ∀ y ∈ scanned u (Inode.zero.created mode), y = 0 := by
    rintro y (⟨-, j, inside, rfl⟩ | ⟨k, positive, found⟩)
    · rw [size] at inside
      obtain rfl : j = 0 := by omega
      rfl
    · cases k with
      | zero =>
        have first := inodeFindsector_direct u used (k := 0) (by omega) (by rw [size]; decide)
        have zero : ((Inode.zero.created mode).iAddr.toList.getD 0 0).toNat = 0 := rfl
        rw [first, zero] at found
        omega
      | succ k =>
        have past := inodeFindsector_end u used (k := 1) (by rw [size]; decide)
        have bound := positive 1 (by omega)
        rw [past] at bound
        contradiction
  intro y data mem
  have low := data.1
  rw [only y mem] at low
  omega

/-- `direntv6_create` keeps the bitmaps those of a scan; a file that it returns is empty. -/
theorem create (before : Synced u) {entry : List UInt8} {mode : UInt16} {code : Int}
    (ready : ∀ found ∈ parentOf u entry, ScannedInodeFree u ∧
      AppendUnseen u found.2.1.toNat found.2.2 16)
    (run : direntv6Create u entry mode = some (code, u')) :
    Synced u' ∧ (Rejected u u' code ∨ ∃ u₁ name parent inode inode' inr,
      Recorded u u₁ u' entry name mode parent inode inode' inr code) := by
  have records := direntv6Create_records before.geometry (fun found mem => ?_) ?_ run
  · refine ⟨?_, records⟩
    rcases records with rejected | ⟨u₁, name, parent, inode, inode', inr, recorded⟩
    · cases reached : parentOf u entry with
      | none => rwa [(direntv6Create_unreached reached run).1]
      | some found => exact before.rejected (ready found reached).1 rejected
    · have begun := recorded.begun
      obtain ⟨free, ready⟩ := ready _ begun.found
      obtain ⟨_, _, -, -, -, -, -, allocated⟩ := parentOf_eq_some.mp begun.found
      have used := created_isAllocated Inode.zero mode
      have between : Synced u₁ := before.reserved free begun.reserved begun.fbm begun.stored used
        (.of_small _ u used (by rw [inodeGetsize_zero_created]; decide))
        (before.empty_unmarked mode)
      have unseen := before.unseen_begun begun allocated ready
      obtain ⟨dName, written, -, ⟨-, -, same, -⟩ | appended, -⟩ := recorded.appended
      · rw [same]
        exact between
      · refine between.appends recorded.there ?_ appended
        rw [direntCodec.encode_length, direntCodec_width]
        exact unseen
  · obtain ⟨free, ready⟩ := ready found mem
    refine ⟨fun u₁ x reserved => ?_, ready.slots⟩
    obtain ⟨visited, unused⟩ := before.reserved_visited free reserved
    rintro rfl
    obtain ⟨_, _, -, -, -, -, -, allocated⟩ := parentOf_eq_some.mp mem
    exact unused ⟨_, allocated⟩
  · intro u₁ name parent inode inr begun allocated residual x found
    obtain ⟨_, _, -, -, -, -, -, old⟩ := parentOf_eq_some.mp begun.found
    exact ((before.unseen_begun begun old (ready _ begun.found).2).target residual x found).1

/-- `direntv6_addfile` without content keeps the bitmaps those of a scan. -/
theorem addfile (before : Synced u) {entry buf : List UInt8} {mode : UInt16} {code : Int}
    (ready : ∀ found ∈ parentOf u entry, buf = [] ∧ ScannedInodeFree u ∧
      AppendUnseen u found.2.1.toNat found.2.2 16)
    (run : direntv6Addfile u entry mode buf = some (code, u')) : Synced u' := by
  obtain ⟨created, u₂, creation, result⟩ := direntv6Addfile_cases run
  obtain ⟨between, records⟩ := before.create (fun found mem => (ready found mem).2) creation
  rcases result with ⟨-, rfl⟩ | ⟨found, written, fv6, positive, opened, wrote, -⟩
  · exact between
  · rcases records with rejected | ⟨u₁, name, parent, inode, inode', inr, recorded⟩
    · exact absurd rejected.failed (by omega)
    · obtain ⟨rfl, -⟩ := ready _ recorded.begun.found
      obtain ⟨number, file, appended⟩ := direntv6Addfile_appends before.geometry recorded
        (by decide) positive opened wrote
      have size : inodeGetsize (Inode.zero.created mode) = 0 := by
        rw [inodeGetsize_zero_created]
      have whole : ¬inodeGetsize (Inode.zero.created mode) % 512 ≠ 0 := by rw [size]; decide
      refine between.appends (by rw [number]; exact recorded.file) ?_ appended
      exact ⟨.inl (Nat.zero_le _), fun residual => absurd residual whole,
        fun residual => absurd residual whole, fun _ => Nat.zero_le _,
        fun _ residual => absurd residual whole⟩

/-- `filev6_create` keeps the bitmaps those of a scan when the scan marks nothing new for the
inode it is given. -/
theorem fileCreate (before : Synced u) (free : ScannedInodeFree u) {mode : UInt16}
    {fv6 fv6' : Filev6} {code : Int}
    (walkable : Walkable (outsideTable u.s) u (fv6.iNode.created mode))
    (marked : ∀ y, u.s.InData y → y ∈ scanned u (fv6.iNode.created mode) → u.fbm.Marked y)
    (run : filev6Create u mode fv6 = (code, u', fv6')) : Synced u' := by
  rcases filev6Create_cases before.geometry run with
    rejected | ⟨x, -, -, -, fbm, reserved, stored, -⟩
  · exact before.rejected free rejected
  · exact before.reserved free reserved fbm stored (created_isAllocated _ _) walkable marked

/-- `filev6_writebytes` on an open file. -/
theorem writebytes (before : Synced u) (fv6 : Filev6) {fv6' : Filev6} {buf : List UInt8}
    {code : Int} (allocated : u.f.Allocated u.s fv6.iNumber.toNat fv6.iNode)
    (unseen : AppendUnseen u fv6.iNumber.toNat fv6.iNode buf.length)
    (run : filev6Writebytes u fv6 buf = some (code, u', fv6')) : Synced u' := by
  obtain ⟨code', after, inode', run', result⟩ := before.geometry.filev6Writebytes_spec fv6 buf
    allocated.inRange unseen.slots fun residual x found => (unseen.target residual x found).1
  rw [run'] at run
  cases run
  rcases result with ⟨-, -, rfl, -⟩ | appended
  · exact before
  · exact before.appends allocated unseen appended

end Synced

/-- The calls that change nothing which the scan of a mount marks in a different way; nothing is
asked of a creation that does not come to `create_dirent`. -/
def KeepsBits (u : UnixFilesystem) : Call → Prop
  | .create entry _ => ∀ found ∈ parentOf u entry, found.1.length < direntMaxlen ∧
      ScannedInodeFree u ∧ AppendUnseen u found.2.1.toNat found.2.2 16
  | .addfile entry _ buf => ∀ found ∈ parentOf u entry, found.1.length < direntMaxlen ∧
      buf = [] ∧ ScannedInodeFree u ∧ AppendUnseen u found.2.1.toNat found.2.2 16
  | .fileCreate mode fv6 => ScannedInodeFree u ∧
      Walkable (outsideTable u.s) u (fv6.iNode.created mode) ∧
      ∀ y, u.s.InData y → y ∈ scanned u (fv6.iNode.created mode) → u.fbm.Marked y
  | .writebytes inr buf => ∀ inode, u.f.Allocated u.s inr.toNat inode →
      AppendUnseen u inr.toNat inode buf.length
  | .remount => False

/-- Every call that the condition allows keeps the bitmaps those of a scan. -/
theorem Synced.step {u u' : UnixFilesystem} {call : Call} {code : Int} (before : Synced u)
    (allowed : KeepsBits u call) (run : call.run u = some (code, u')) : Synced u' := by
  cases call with
  | create entry mode =>
    exact (before.create (fun found mem => (allowed found mem).2) run).1
  | addfile entry mode buf => exact before.addfile (fun found mem => (allowed found mem).2) run
  | fileCreate mode fv6 =>
    have created : filev6Create u mode fv6 = (code, u', (filev6Create u mode fv6).2.2) := by
      simp only [Call.run, Option.some.injEq, Prod.mk.injEq] at run
      rw [← run.1, ← run.2]
    exact before.fileCreate allowed.1 allowed.2.1 allowed.2.2 created
  | writebytes inr buf =>
    simp only [Call.run] at run
    split at run
    · cases run
      exact before
    · rename_i fv6 opened
      obtain ⟨allocated, is⟩ := filev6Open_ok opened
      have number : fv6.iNumber = inr := by rw [is]
      rw [← number] at allocated allowed
      split at run
      · cases run
      · rename_i code' after fv6' wrote
        cases run
        exact before.writebytes fv6 allocated (allowed _ allocated) wrote
  | remount => exact allowed.elim

/-- From an image with disjoint regions whose scan reads no indirect sector from the inode table,
every run of calls that change nothing which a scan marks ends with the bitmaps that a mount of
the disk computes. -/
theorem bitmaps_coherent {f : Disk} {s : Superblock} {u u' : UnixFilesystem}
    (regions : f.Regions s) (apart : ∀ x ∈ scannedIndirects f s, x ∈ outsideTable s)
    (mounted : mountv6 f = .ok u) (runs : Runs KeepsBits u u') :
    ∃ u'', mountv6 (umountv6 u') = .ok u'' ∧ u'.ibm.SameBits u''.ibm ∧ u'.fbm.SameBits u''.fbm := by
  obtain ⟨rfl, rfl, coherent, geometry⟩ := mountv6_geometry regions mounted
  have start : Synced u := ⟨coherent, geometry, fun inr inode visited allocated =>
    ⟨coherent.walkEnds visited allocated, fun big j inside =>
      apart _ ⟨inr, inode, visited, allocated, big, j, inside, rfl⟩⟩⟩
  have synced : Synced u' := Runs.invariant Synced
    (fun v call code v' before allowed run => before.step allowed run) runs start
  exact synced.coherent.remount synced.geometry.works

/-- Bytes that fit into the last sector of a small file without filling it change nothing that the
scan of a mount marks. -/
theorem AppendUnseen.of_room {u : UnixFilesystem} {inr len : Nat} {inode : Inode}
    (used : inode.isAllocated = true) (small : inodeGetsize inode < 4096)
    (residual : inodeGetsize inode % 512 ≠ 0) (room : inodeGetsize inode % 512 + len < 512)
    (target : ∀ x : Nat, inodeFindsector u inode (inodeGetsize inode / 512 : Nat) = x →
      u.s.InData x ∧ x ∉ scannedIndirects u.f u.s) : AppendUnseen u inr inode len := by
  have size := inodeGetsize_resized inode (inodeGetsize inode + len) (by omega)
  have used' : (inode.resized (inodeGetsize inode + len)).isAllocated = true := by
    rw [isAllocated_congr (resized_iMode _ _)]
    exact used
  constructor
  case slots => exact .inl (by omega)
  case target => exact fun _ => target
  case indirect => exact fun _ big => absurd big (by omega)
  case fits => exact fun _ => by omega
  case behind => exact fun _ _ whole => absurd whole (by omega)

set_option maxRecDepth 10000 in
/-- On the empty volume, a file of one byte takes a sector whose bit stays clear; a mount of the
same disk sets it. -/
theorem bitmaps_diverge :
    emptyVolume.WellFormed (volumeSuperblock 2 6) ∧
      ∃ u, mountv6 emptyVolume = .ok u ∧
        ∃ result ∈ Call.run u (.addfile [47, 97] 0 [65]), result.1 = errNone ∧
          ∃ u'', mountv6 (umountv6 result.2) = .ok u'' ∧
            bmGet result.2.fbm 4 = 0 ∧ bmGet u''.fbm 4 = 1 := by
  obtain ⟨u, mounted, result, run, success, again⟩ := mountv6_check (f := emptyVolume)
    (P := fun u => ∃ result ∈ Call.run u (.addfile [47, 97] 0 [65]), result.1 = errNone ∧
      (mountv6 (umountv6 result.2)).toOption.any (fun u'' =>
        decide (bmGet result.2.fbm 4 = 0 ∧ bmGet u''.fbm 4 = 1)) = true) (by decide +kernel)
  exact ⟨emptyVolume_wellFormed, u, mounted, result, run, success, mountv6_check again⟩

set_option maxRecDepth 10000 in
/-- Creating `/a` in a root with room in its last sector keeps the bitmaps those of a mount. -/
theorem bitmaps_coherent_create :
    ∃ u u' u'', mountv6 singleVolume = .ok u ∧ Runs KeepsBits u u' ∧ u'.f.InUse u'.s 2 ∧
      mountv6 (umountv6 u') = .ok u'' ∧ u'.ibm.SameBits u''.ibm ∧ u'.fbm.SameBits u''.fbm := by
  obtain ⟨u, mounted, free, ready, ⟨code, u'⟩, run, used⟩ := mountv6_check (f := singleVolume)
    (P := fun u => (2 ≤ u.s.lastScanned ∧ bmGet u.ibm 2 = 0) ∧
      (∀ found ∈ parentOf u [47, 97], found.1.length < direntMaxlen ∧
        found.2.2 = singleDirectory ∧ inodeFindsector u singleDirectory 0 = 4) ∧
      ∃ result ∈ Call.run u (.create [47, 97] 0), result.2.f.InUse result.2.s 2)
    (by decide +kernel)
  obtain ⟨disk, super, -, -⟩ := mountv6_geometry singleVolume_wellFormed.regions mounted
  -- no file is large enough for an indirect sector
  have none : ∀ x, x ∉ scannedIndirects singleVolume (volumeSuperblock 2 6) := by
    rintro x ⟨inr, inode, -, allocated, big, -⟩
    rw [(singleVolume_allocated allocated).2, singleDirectory_size] at big
    contradiction
  have allowed : KeepsBits u (.create [47, 97] 0) := by
    intro found mem
    obtain ⟨short, is, first⟩ := ready found mem
    refine ⟨short, ⟨2, free⟩, ?_⟩
    rw [is]
    refine .of_room (by decide) (by decide) (by decide) (by decide) fun x there => ?_
    rw [singleDirectory_size] at there
    obtain rfl : x = 4 := Int.ofNat.inj (there.symm.trans first)
    rw [super, disk]
    exact ⟨by decide, none 4⟩
  have runs : Runs KeepsBits u u' := .single ⟨.create [47, 97] 0, code, allowed, run⟩
  obtain ⟨u'', again, same⟩ := bitmaps_coherent singleVolume_wellFormed.regions
    (fun x mem => absurd mem (none x)) mounted runs
  exact ⟨u, u', u'', mounted, runs, used, again, same⟩

end U6fs
