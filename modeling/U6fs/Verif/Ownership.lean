import U6fs.Verif.Protection

/-!
# Ownership of sectors

A sector of the data region belongs to one place of one file. Appending bytes that fit into the
last sector of a file changes no block map; appending others gives free sectors to the file, and
free sectors belong to no file as long as the bitmap has every sector that belongs to one. Since
the write path sets no bit, only the first sector taken after a mount is known to be free.
-/
namespace U6fs

open Lib

/-- Every sector of the data region that belongs to a file has its bit set. -/
def OwnersMarked (u : UnixFilesystem) : Prop :=
  ∀ inr inode, u.f.Allocated u.s inr inode → SectorsMarked u inode

/-- The invariant: sectors of the data region belong to one place, indirect sectors and partly
used last sectors are in the data region. -/
structure Owned (u : UnixFilesystem) : Prop where
  /-- The regions are disjoint. -/
  regions : u.f.Regions u.s
  /-- The bitmaps have their ranges. -/
  geometry : Geometry u
  /-- Sectors belong to one place. -/
  unshared : u.f.Unshared u.s
  /-- Indirect sectors are in the data region. -/
  indirect : ∀ inr inode j x, u.f.Allocated u.s inr inode →
    u.f.mapped inode (.indirect j) = some x → u.s.InData x
  /-- Partly used last sectors are in the data region. -/
  last : ∀ inr inode, u.f.Allocated u.s inr inode → inodeGetsize inode % 512 ≠ 0 →
    LastSectorInData u inode

/-- Block maps are as before when the indirect sectors are. -/
theorem mapped_kept {f f' : Disk} {inode : Inode}
    (same : ∀ j x, f.mapped inode (.indirect j) = some x → f'.sectors[x]? = f.sectors[x]?)
    (p : Position) : f'.mapped inode p = f.mapped inode p := by
  cases p with
  | indirect j => rfl
  | data k =>
    simp only [Disk.mapped]
    split
    · rename_i inside
      split
      · rfl
      · rename_i big
        simp only [Disk.entry]
        cases slot : inode.iAddr.toList[k / 256]? with
        | none => rfl
        | some address =>
          have there : f.mapped inode (.indirect (k / 256)) = some address.toNat := by
            rw [Disk.mapped, if_pos ⟨by omega, by omega⟩, slot, Option.map_some]
          simp only [Option.bind_eq_bind, Option.bind_some, same _ _ there]
    · rfl

/-- Block maps depend on the number of sectors of a file and its addresses. -/
theorem mapped_alike (f : Disk) {inode inode' : Inode}
    (count : sectorCount inode' = sectorCount inode) (addr : inode'.iAddr = inode.iAddr)
    (p : Position) : f.mapped inode' p = f.mapped inode p := by
  cases p with
  | data k => simp only [Disk.mapped, Disk.entry, count, addr]
  | indirect j => simp only [Disk.mapped, count, addr]

/-- Files of no content have no sectors. -/
theorem mapped_empty (f : Disk) {inode : Inode} (empty : inodeGetsize inode = 0) (p : Position) :
    f.mapped inode p = none := by
  have count : sectorCount inode = 0 := by rw [sectorCount, empty]
  cases p with
  | data k => simp only [Disk.mapped, count, Nat.not_lt_zero, if_false]
  | indirect j => simp only [Disk.mapped, count, Nat.not_lt_zero, false_and, if_false]

/-- A partly used last sector belongs to the file. -/
theorem lastSector_mapped {u : UnixFilesystem} {inode : Inode} (used : inode.isAllocated = true)
    (residual : inodeGetsize inode % 512 ≠ 0) {x : Nat}
    (found : inodeFindsector u inode (inodeGetsize inode / 512 : Nat) = x) :
    Partial inode ∧ u.f.mapped inode (.data (inodeGetsize inode / 512)) = some x := by
  have part : Partial inode := by
    refine ⟨residual, ?_⟩
    by_contra large
    rw [inodeFindsector_tooLarge u used le_rfl (by omega), errFileTooLarge] at found
    omega
  exact ⟨part, mapped_last used part found⟩

/-- The sectors of a grown file: those it had at their places, and behind them those that further
slots name; when less than a sector was appended, that is one free sector. -/
theorem Grown.mapped {u : UnixFilesystem} {inode inode' : Inode} {len : Nat}
    (grown : Grown u inode inode' len) (f f' : Disk) {p : Position} {x : Nat}
    (there : f'.mapped inode' p = some x) :
    f.mapped inode p = some x ∨ ∃ k, p = .data k ∧ sectorCount inode ≤ k ∧
      (inode'.iAddr.toList.getD k 0).toNat = x ∧
      (len < 512 → k = sectorCount inode ∧ bmGet u.fbm x = 0) := by
  have bound := grown.bound
  have small := grown.small
  have more := grown.more
  rw [TakesSector] at more
  have count : sectorCount inode = (inodeGetsize inode + 511) / 512 := rfl
  have count' : sectorCount inode' = (inodeGetsize inode' + 511) / 512 := rfl
  have inside := Disk.mapped_hasPosition there
  cases p with
  | indirect j =>
    have large : 8 < sectorCount inode' := inside.1
    omega
  | data k =>
    have last : k < sectorCount inode' := inside
    rw [mapped_direct f' (by omega) last, Option.some.injEq] at there
    rcases Nat.lt_or_ge k (sectorCount inode) with old | new
    · left
      rw [mapped_direct f (by omega) old, ← there, grown.first k (by omega)]
    · right
      refine ⟨k, rfl, new, there, fun short => ?_⟩
      have place : inodeGetsize inode' / 512 = k := by omega
      have free := grown.last
      rw [place, there] at free
      exact ⟨by omega, free⟩

/-- After an append the last sector of a file is in the data region, if it was before: it is the
same one, or a sector that was free. -/
theorem Appends.lastInData {u u' : UnixFilesystem} {inr : UInt16} {inode inode' : Inode}
    {bytes : List UInt8} {code : Int} (appended : Appends u u' inr inode inode' bytes code)
    (geometry : Geometry u) (allocated : u.f.Allocated u.s inr.toNat inode)
    (slots : SlotsInside (inodeGetsize inode) bytes.length)
    (last : inodeGetsize inode % 512 ≠ 0 → LastSectorInData u inode)
    (indirect : Partial inode → 4096 ≤ inodeGetsize inode →
      u'.f.sectors[lastIndirect inode]? = u.f.sectors[lastIndirect inode]?)
    (residual : inodeGetsize inode' % 512 ≠ 0) : LastSectorInData u' inode' := by
  have framed := appended.framed
  have next := framed.geometry geometry
  have used : inode'.isAllocated = true := by
    rw [isAllocated_congr (appended.stored allocated.1).2]
    exact allocated.2
  intro x found
  rw [framed.s]
  rcases appended.layout geometry slots with ⟨addr, -, place⟩ | grown
  · obtain ⟨residual', same⟩ := place residual
    have fits := appended.fits
    rw [inodeFindsector_last geometry.works next.works allocated.2 used fits same addr
      (indirect ⟨residual', fits⟩)] at found
    exact last residual' x found
  · have small := grown.small
    have bound := grown.bound
    rw [inodeFindsector_direct u' used le_rfl (by omega)] at found
    have data := geometry.data_of_free grown.last
    rwa [Int.ofNat.inj found] at data

/-- The sectors of a file stay marked when the bits and its block map are as before. -/
theorem SectorsMarked.kept {u u' : UnixFilesystem} {inode inode' : Inode}
    (marked : SectorsMarked u inode) (s : u'.s = u.s) (fbm : u'.fbm.SameBits u.fbm)
    (maps : ∀ p, u'.f.mapped inode' p = u.f.mapped inode p) : SectorsMarked u' inode' := by
  intro p x there data
  rw [s] at data
  rw [maps] at there
  exact (fbm.marked x).mpr (marked p x there data)

/-- Bytes that fit into the last sector of a file give it no other block map. -/
theorem Appends.mapped {u u' : UnixFilesystem} {inr : UInt16} {inode inode' : Inode}
    {bytes : List UInt8} {code : Int} (appended : Appends u u' inr inode inode' bytes code)
    (geometry : Geometry u) (slots : SlotsInside (inodeGetsize inode) bytes.length)
    (room : ¬TakesSector (inodeGetsize inode) bytes.length) (f : Disk) (p : Position) :
    f.mapped inode' p = f.mapped inode p := by
  rcases appended.layout geometry slots with ⟨addr, count, -⟩ | grown
  · exact mapped_alike f count addr p
  · exact absurd grown.more room

/-- Bytes that fit into the last sector of a file leave all sectors of files marked, when they
change no block map. -/
theorem Appends.marked {u u' : UnixFilesystem} {inr : UInt16} {inode inode' : Inode}
    {bytes : List UInt8} {code : Int} (appended : Appends u u' inr inode inode' bytes code)
    (geometry : Geometry u) (allocated : u.f.Allocated u.s inr.toNat inode)
    (slots : SlotsInside (inodeGetsize inode) bytes.length)
    (room : ¬TakesSector (inodeGetsize inode) bytes.length)
    (maps : ∀ k found, u.f.Allocated u.s k found → ∀ p,
      u'.f.mapped found p = u.f.mapped found p) (all : OwnersMarked u) : OwnersMarked u' := by
  have framed := appended.framed
  have stored := (appended.stored allocated.1).1
  intro k found there
  rw [framed.s] at there
  by_cases mine : k = inr.toNat
  · subst mine
    obtain rfl : found = inode' := Option.some.inj (there.1.symm.trans stored)
    exact (all _ inode allocated).kept framed.s framed.fbm fun p =>
      (appended.mapped geometry slots room u'.f p).trans (maps _ inode allocated p)
  · rw [Disk.Allocated, framed.inodeAt k mine] at there
    exact (all k found there).kept framed.s framed.fbm (maps k found there)

/-- Storing an empty inode leaves all sectors of files marked, when it changes no block map. -/
theorem Begun.marked {u u₁ : UnixFilesystem} {entry name : List UInt8} {mode parent : UInt16}
    {inode : Inode} {inr : Nat} (begun : Begun u u₁ entry name mode parent inode inr)
    (maps : ∀ k found, u.f.Allocated u.s k found → ∀ p,
      u₁.f.mapped found p = u.f.mapped found p) (all : OwnersMarked u) : OwnersMarked u₁ := by
  intro k found there
  rw [begun.reserved.s] at there
  rcases begun.allocated there with rfl | was
  · intro p x is data
    rw [mapped_empty _ (inodeGetsize_zero_created mode)] at is
    cases is
  · exact (all k found was).kept begun.reserved.s begun.reserved.fbm (maps k found was)

namespace Owned

variable {u u' : UnixFilesystem}

/-- A mounted image is owned when its regions are disjoint and its files have their own sectors of
the data region. -/
theorem start {f : Disk} {s : Superblock} (regions : f.Regions s) (mapped : f.Mapped s)
    (unshared : f.Unshared s) (mounted : mountv6 f = .ok u) : u.f = f ∧ u.s = s ∧ Owned u := by
  obtain ⟨rfl, rfl, -, geometry⟩ := mountv6_geometry regions mounted
  have inData : ∀ inr inode p x, u.f.Allocated u.s inr inode → u.f.mapped inode p = some x →
      u.s.InData x := by
    intro inr inode p x allocated there
    obtain ⟨y, there', data, -⟩ :=
      mapped.data inr inode p allocated (Disk.mapped_hasPosition there)
    rw [there, Option.some.injEq] at there'
    rwa [there']
  refine ⟨rfl, rfl, regions, geometry, unshared, fun inr inode j x => inData inr inode _ x, ?_⟩
  intro inr inode allocated residual x found
  exact inData inr inode _ x allocated (lastSector_mapped allocated.2 residual found).2

/-- The last sector of a file that is partly used is no indirect sector. -/
theorem last_ne_indirect (before : Owned u) {m k j x y : Nat} {inode found : Inode}
    (allocated : u.f.Allocated u.s m inode) (residual : inodeGetsize inode % 512 ≠ 0)
    (last : inodeFindsector u inode (inodeGetsize inode / 512 : Nat) = x)
    (other : u.f.Allocated u.s k found) (there : u.f.mapped found (.indirect j) = some y) :
    x ≠ y := by
  rintro rfl
  have mine := (lastSector_mapped allocated.2 residual last).2
  have data := before.last m inode allocated residual x last
  have same := before.unshared _ _ _ _ _ _ _ allocated other mine there data
  cases same.2

/-- The indirect sectors of all files are untouched by an append, which takes no sector or finds
the free ones marked. -/
theorem indirect_untouched (before : Owned u) {m : Nat} {inode : Inode} {len : Nat}
    (allocated : u.f.Allocated u.s m inode)
    (marked : TakesSector (inodeGetsize inode) len → OwnersMarked u)
    {k j x : Nat} {found : Inode} (other : u.f.Allocated u.s k found)
    (there : u.f.mapped found (.indirect j) = some x) : x ∈ untouched u m inode len := by
  have data := before.indirect k found j x other there
  have inside := allocated.number.2
  rw [Superblock.inodes] at inside
  refine ⟨before.geometry.data_ne_table data (by omega), fun takes free => ?_, ?_⟩
  · have set := marked takes k found other _ x there data
    exact ((bmGet_eq_zero_iff _ _).mp free).2 set
  · intro residual last
    exact before.last_ne_indirect allocated residual last other there rfl

/-- Appending to one file changes the block map of no file. -/
theorem mapped_framed (before : Owned u) {m k len : Nat} {inode found : Inode}
    (allocated : u.f.Allocated u.s m inode)
    (marked : TakesSector (inodeGetsize inode) len → OwnersMarked u)
    (framed : Framed u u' m (untouched u m inode len)) (other : u.f.Allocated u.s k found)
    (p : Position) : u'.f.mapped found p = u.f.mapped found p := by
  apply mapped_kept
  intro j x there
  exact framed.sectors x (before.indirect_untouched allocated marked other there)

end Owned

/-- A file is appended to, and its block map changes in one place at most, where it gets a sector
whose bit is clear. -/
structure AppendedAt (u u' : UnixFilesystem) (m : Nat) (inode inode' : Inode) (len : Nat) :
    Prop where
  /-- The file was there. -/
  allocated : u.f.Allocated u.s m inode
  /-- If a sector is taken, all sectors of files are marked. -/
  marked : TakesSector (inodeGetsize inode) len → OwnersMarked u
  /-- Nothing is written that an append does not write. -/
  framed : Framed u u' m (untouched u m inode len)
  /-- The inode is stored. -/
  stored : u'.f.inodeAt u.s m = some inode'
  /-- Its block map is as before but for a sector whose bit is clear. -/
  fresh : ∃ p₀, ∀ p x, u'.f.mapped inode' p = some x → u.s.InData x →
    u.f.mapped inode p = some x ∨ (p = p₀ ∧ bmGet u.fbm x = 0 ∧ OwnersMarked u)
  /-- It has no new indirect sector. -/
  indirect : ∀ j x, u'.f.mapped inode' (.indirect j) = some x →
    u.f.mapped inode (.indirect j) = some x
  /-- Its last sector is in the data region if it is partly used. -/
  last : inodeGetsize inode' % 512 ≠ 0 → LastSectorInData u' inode'

namespace AppendedAt

variable {u u' : UnixFilesystem} {m len : Nat} {inode inode' : Inode}
  (appended : AppendedAt u u' m inode inode' len)

include appended

/-- The other files were there. -/
theorem old {k : Nat} {found : Inode} (other : k ≠ m) (there : u'.f.Allocated u.s k found) :
    u.f.Allocated u.s k found := by
  rw [Disk.Allocated, appended.framed.inodeAt k other] at there
  exact there

/-- The file has its new inode. -/
theorem mine {found : Inode} (there : u'.f.Allocated u.s m found) : found = inode' :=
  Option.some.inj (there.1.symm.trans appended.stored)

variable (before : Owned u)

include before

/-- The block maps of the files that were there are as before. -/
theorem others {k : Nat} {found : Inode} (other : u.f.Allocated u.s k found) (p : Position) :
    u'.f.mapped found p = u.f.mapped found p :=
  before.mapped_framed appended.allocated appended.marked appended.framed other p

/-- The sectors before the table are as before. -/
theorem low {x : Nat} (small : x < u.s.sInodeStart.toNat) :
    u'.f.sectors[x]? = u.f.sectors[x]? := by
  have region := before.geometry.data
  refine appended.framed.sectors x ⟨?_, fun _ free => ?_, fun residual found => ?_⟩
  · rw [Superblock.tableSector]
    omega
  · have data := (before.geometry.data_of_free free).1
    omega
  · have data := (before.last m inode appended.allocated residual x found).1
    omega

/-- The regions are as before. -/
theorem regions : u'.f.Regions u'.s := by
  have geometry := before.geometry
  have table := geometry.table
  rw [appended.framed.s]
  obtain ⟨magic, superblock, -, -, ends, -, -⟩ := before.regions
  refine ⟨?_, ?_, table, geometry.data, ends, geometry.inside.trans appended.framed.length,
    (appended.framed.geometry geometry).works⟩
  · rw [appended.low before (by omega)]
    exact magic
  · rw [appended.low before (by omega)]
    exact superblock

/-- A sector in the block map of a file was there before, or belonged to no file and is in one place
of the file that is appended to. -/
theorem origin : ∃ p₀, ∀ k found p x, u'.f.Allocated u.s k found → u'.f.mapped found p = some x →
    u.s.InData x → (∃ was, u.f.Allocated u.s k was ∧ u.f.mapped was p = some x) ∨
      (k = m ∧ p = p₀ ∧ ∀ k found p, u.f.Allocated u.s k found → u.f.mapped found p ≠ some x) := by
  obtain ⟨p₀, fresh⟩ := appended.fresh
  refine ⟨p₀, fun k found p x there maps data => ?_⟩
  by_cases same : k = m
  · subst same
    obtain rfl := appended.mine there
    rcases fresh p x maps data with was | ⟨rfl, free, all⟩
    · exact .inl ⟨inode, appended.allocated, was⟩
    · refine .inr ⟨rfl, rfl, fun k found p other there => ?_⟩
      have set := all k found other p x there data
      exact ((bmGet_eq_zero_iff _ _).mp free).2 set
  · have was := appended.old same there
    rw [appended.others before was] at maps
    exact .inl ⟨found, was, maps⟩

/-- No sector is shared. -/
theorem unshared : u'.f.Unshared u'.s := by
  obtain ⟨p₀, origin⟩ := appended.origin before
  rw [appended.framed.s]
  intro k found p k' found' p' x there there' maps maps' data
  rcases origin k found p x there maps data with ⟨was, allocated, old⟩ | ⟨rfl, rfl, none⟩
  · rcases origin k' found' p' x there' maps' data with
      ⟨was', allocated', old'⟩ | ⟨-, -, none⟩
    · exact before.unshared _ _ _ _ _ _ _ allocated allocated' old old' data
    · exact absurd old (none k was p allocated)
  · rcases origin k' found' p' x there' maps' data with
      ⟨was', allocated', old'⟩ | ⟨rfl, rfl, -⟩
    · exact absurd old' (none k' was' p' allocated')
    · exact ⟨rfl, rfl⟩

/-- The last sectors that are partly used are in the data region. -/
theorem lastInData {k : Nat} {found : Inode} (there : u'.f.Allocated u.s k found)
    (residual : inodeGetsize found % 512 ≠ 0) : LastSectorInData u' found := by
  by_cases same : k = m
  · subst same
    obtain rfl := appended.mine there
    exact appended.last residual
  · intro x found
    have was := appended.old same there
    obtain ⟨part, -⟩ := lastSector_mapped there.2 residual found
    rw [inodeFindsector_last before.geometry.works
      (appended.framed.geometry before.geometry).works was.2 was.2 part.2 rfl rfl
      fun big => appended.framed.sectors _ (before.indirect_untouched appended.allocated
        appended.marked was (mapped_lastIndirect u.f part big))] at found
    rw [appended.framed.s]
    exact before.last k _ was residual x found

end AppendedAt

namespace Owned

variable {u u' : UnixFilesystem}

/-- Such an append keeps the ownership. -/
theorem framed (before : Owned u) {m : Nat} {inode inode' : Inode} {len : Nat}
    (appended : AppendedAt u u' m inode inode' len) : Owned u' := by
  have s := appended.framed.s
  constructor
  case regions => exact appended.regions before
  case geometry => exact appended.framed.geometry before.geometry
  case unshared => exact appended.unshared before
  case indirect =>
    rw [s]
    intro k found j x there maps
    by_cases same : k = m
    · subst same
      obtain rfl := appended.mine there
      exact before.indirect _ _ j x appended.allocated (appended.indirect j x maps)
    · have was := appended.old same there
      rw [appended.others before was] at maps
      exact before.indirect k found j x was maps
  case last =>
    intro k found there residual
    rw [s] at there
    exact appended.lastInData before there residual

/-- The block map of a file whose number of sectors and addresses are as before. -/
theorem mapped_unchanged (before : Owned u) {m len : Nat} {inode inode' : Inode}
    (allocated : u.f.Allocated u.s m inode)
    (marked : TakesSector (inodeGetsize inode) len → OwnersMarked u)
    (framed : Framed u u' m (untouched u m inode len))
    (count : sectorCount inode' = sectorCount inode) (addr : inode'.iAddr = inode.iAddr)
    (p : Position) : u'.f.mapped inode' p = u.f.mapped inode p := by
  rw [mapped_alike u'.f count addr, before.mapped_framed allocated marked framed allocated]

/-- A file is appended to, and all sectors of files are marked in case it takes new ones. It gets
one sector at most when less than a sector is appended, or when it is a new file of at most 1024
bytes. -/
theorem appends (before : Owned u) {inr : UInt16} {inode inode' : Inode} {bytes : List UInt8}
    {code : Int} (allocated : u.f.Allocated u.s inr.toNat inode)
    (room : SlotsInside (inodeGetsize inode) bytes.length)
    (marked : TakesSector (inodeGetsize inode) bytes.length → OwnersMarked u)
    (single : bytes.length < 512 ∨ (inodeGetsize inode = 0 ∧
      (∀ k, inode.iAddr.toList.getD k 0 = 0) ∧ bytes.length ≤ 1024))
    (appended : Appends u u' inr inode inode' bytes code) : Owned u' := by
  have framed := appended.framed
  have stored := appended.stored allocated.1
  have last := appended.lastInData before.geometry allocated room
    (before.last _ inode allocated) fun part big => framed.sectors _
      (before.indirect_untouched allocated marked allocated (mapped_lastIndirect u.f part big))
  rcases appended.layout before.geometry room with ⟨addr, count, -⟩ | grown
  · have same := before.mapped_unchanged allocated marked framed count addr
    refine before.framed ⟨allocated, marked, framed, stored.1, ⟨.data 0, fun p x there _ => ?_⟩,
      fun j x there => ?_, last⟩
    · rw [same] at there
      exact .inl there
    · rw [same] at there
      exact there
  · refine before.framed
      ⟨allocated, marked, framed, stored.1, ?_, fun j x there => ?_, last⟩
    · rcases Nat.lt_or_ge bytes.length 512 with short | long
      · -- the only new sector is the last one
        refine ⟨.data (sectorCount inode), fun p x there _ => ?_⟩
        rcases grown.mapped u.f u'.f there with old | ⟨k, rfl, -, -, free⟩
        · exact .inl old
        · obtain ⟨rfl, clear⟩ := free short
          exact .inr ⟨rfl, clear, marked grown.more⟩
      · -- a new file of more than 511 bytes leaves its first address 0
        obtain ⟨empty, zeros, most⟩ := single.resolve_left (by omega)
        refine ⟨.data 1, fun p x there data => ?_⟩
        rcases grown.mapped u.f u'.f there with old | ⟨k, rfl, -, named, -⟩
        · exact .inl old
        · right
          have notZero : x ≠ 0 := by
            have table := before.geometry.table
            have region := before.geometry.data
            have low := data.1
            omega
          have free : bmGet u.fbm x = 0 := by
            rcases grown.slots k with kept | clear
            · rw [kept, zeros] at named
              exact absurd named.symm notZero
            · rwa [named] at clear
          have first : k ≠ 0 := by
            rintro rfl
            have count : sectorCount inode = (inodeGetsize inode + 511) / 512 := rfl
            rw [grown.first 0 (by omega), zeros] at named
            exact notZero named.symm
          have inside : k < sectorCount inode' := Disk.mapped_hasPosition there
          have bound := grown.bound
          rw [sectorCount] at inside
          obtain rfl : k = 1 := by omega
          exact ⟨rfl, free, marked grown.more⟩
    · rcases grown.mapped u.f u'.f there with old | ⟨k, wrong, -⟩
      · exact old
      · cases wrong

/-- Storing an empty inode keeps the ownership, and all sectors of files marked. -/
theorem begun (before : Owned u) {u₁ : UnixFilesystem} {entry name : List UInt8}
    {mode parent : UInt16} {inode : Inode} {inr : Nat}
    (begun : Begun u u₁ entry name mode parent inode inr) :
    Owned u₁ ∧ (OwnersMarked u → OwnersMarked u₁) := by
  have geometry := before.geometry
  have next := geometry.begun begun
  have s := begun.reserved.s
  have table := geometry.table
  have region := geometry.data
  have empty := inodeGetsize_zero_created mode
  have low : ∀ x, x < u.s.sInodeStart.toNat → u₁.f.sectors[x]? = u.f.sectors[x]? := by
    intro x small
    apply begun.stored.other
    rw [Superblock.tableSector]
    omega
  have same : ∀ k found, u.f.Allocated u.s k found → ∀ p,
      u₁.f.mapped found p = u.f.mapped found p := by
    intro k found there p
    apply mapped_kept
    intro j x maps
    exact geometry.stored_data begun.stored (before.indirect k found j x there maps)
  have owner : ∀ k found p x, u₁.f.Allocated u.s k found → u₁.f.mapped found p = some x →
      u.f.Allocated u.s k found ∧ u.f.mapped found p = some x := by
    intro k found p x there maps
    rcases begun.allocated there with rfl | was
    · rw [mapped_empty _ empty] at maps
      cases maps
    · rw [same k found was] at maps
      exact ⟨was, maps⟩
  refine ⟨?_, begun.marked same⟩
  · constructor
    case regions =>
      rw [s]
      obtain ⟨magic, superblock, -, -, ends, inside, -⟩ := before.regions
      refine ⟨?_, ?_, table, region, ends, ?_, next.works⟩
      · rw [low 0 (by omega)]
        exact magic
      · rw [low 1 (by omega)]
        exact superblock
      · rw [begun.stored.length]
        exact inside
    case geometry => exact next
    case unshared =>
      rw [s]
      intro k found p k' found' p' x there there' maps maps' data
      obtain ⟨was, maps⟩ := owner k found p x there maps
      obtain ⟨was', maps'⟩ := owner k' found' p' x there' maps'
      exact before.unshared _ _ _ _ _ _ _ was was' maps maps' data
    case indirect =>
      rw [s]
      intro k found j x there maps
      obtain ⟨was, maps⟩ := owner k found _ x there maps
      exact before.indirect k found j x was maps
    case last =>
      rw [s]
      intro k found there residual x at_x
      rw [s]
      rcases begun.allocated there with rfl | was
      · exact absurd (by rw [empty]) residual
      · obtain ⟨part, -⟩ := lastSector_mapped there.2 residual at_x
        rw [inodeFindsector_last geometry.works next.works was.2 was.2 part.2 rfl rfl fun big =>
          geometry.stored_data begun.stored (before.indirect k found _ _ was
            (mapped_lastIndirect u.f part big))] at at_x
        exact before.last k found was residual x at_x

/-- A call that stored nothing keeps the ownership. -/
theorem rejected {code : Int} (before : Owned u) (rejected : Rejected u u' code) : Owned u' := by
  have geometry := before.geometry.rejected rejected
  have works := before.geometry.works
  have works' := geometry.works
  refine ⟨?_, geometry, ?_, ?_, ?_⟩
  · rw [rejected.f, rejected.s]
    exact before.regions
  · rw [rejected.f, rejected.s]
    exact before.unshared
  · rw [rejected.f, rejected.s]
    exact before.indirect
  · intro inr inode there residual x found
    rw [inodeFindsector_congr rejected.f] at found
    rw [rejected.f, rejected.s] at there
    rw [rejected.s]
    exact before.last inr inode there residual x found

/-- `direntv6_create`, when all sectors of files are marked in case the directory takes one. -/
theorem create (before : Owned u) {entry : List UInt8} {mode : UInt16} {code : Int}
    (ready : ∀ found ∈ parentOf u entry, u.ibm.Marked found.2.1.toNat ∧
      SlotsInside (inodeGetsize found.2.2) 16 ∧
      (TakesSector (inodeGetsize found.2.2) 16 → OwnersMarked u))
    (run : direntv6Create u entry mode = some (code, u')) :
    Owned u' ∧ (Rejected u u' code ∨ ∃ u₁ name parent inode inode' inr,
      Recorded u u₁ u' entry name mode parent inode inode' inr code ∧
      (¬TakesSector (inodeGetsize inode) 16 → OwnersMarked u → OwnersMarked u')) := by
  have records := direntv6Create_records before.geometry (fun found mem => ?_) ?_ run
  · rcases records with rejected | ⟨u₁, name, parent, inode, inode', inr, recorded⟩
    · exact ⟨before.rejected rejected, .inl rejected⟩
    · have begun := recorded.begun
      obtain ⟨-, slots, all⟩ := ready _ begun.found
      obtain ⟨between, marks⟩ := before.begun begun
      obtain ⟨dName, written, copied, appended, is⟩ := recorded.appended
      have length : (direntCodec.encode { dInumber := UInt16.ofNat inr, dName }).length = 16 := by
        rw [direntCodec.encode_length, direntCodec_width]
      have result : Owned u' ∧
          (¬TakesSector (inodeGetsize inode) 16 → OwnersMarked u → OwnersMarked u') := by
        rcases appended with ⟨-, -, rfl, -⟩ | appended
        · exact ⟨between, fun _ => marks⟩
        · rw [← length] at slots all ⊢
          exact ⟨between.appends recorded.there slots (fun takes => marks (all takes))
              (.inl (by rw [length]; decide)) appended,
            fun fits set => appended.marked between.geometry recorded.there slots fits
              (fun k found => between.mapped_framed recorded.there (fun takes => absurd takes fits)
                appended.framed) (marks set)⟩
      exact ⟨result.1, .inr ⟨u₁, name, parent, inode, inode', inr, recorded, result.2⟩⟩
  · exact ⟨fun u₁ x reserved => reserved.ne_of_marked (ready found mem).1, (ready found mem).2.1⟩
  · intro u₁ name parent inode inr begun allocated residual
    exact (before.begun begun).1.last _ inode allocated residual

end Owned

/-- The directory of a path can take a record: its bit is set, no slot past `i_addr[7]` is needed,
the name with its NUL fits into a record, and if the directory takes a new sector, all sectors of
files are marked. -/
def ParentOwns (u : UnixFilesystem) (entry : List UInt8) : Prop :=
  ∀ found ∈ parentOf u entry, found.1.length < direntMaxlen ∧ u.ibm.Marked found.2.1.toNat ∧
    SlotsInside (inodeGetsize found.2.2) 16 ∧
    (TakesSector (inodeGetsize found.2.2) 16 → OwnersMarked u)

instance (u : UnixFilesystem) : Decidable (OwnersMarked u) :=
  decidable_of_iff (∀ use ∈ u.f.dataUses u.s, u.fbm.Marked use.2) (by
    constructor
    · intro all inr inode allocated p x maps data
      exact all ((inr, p), x) (Disk.mem_dataUses.mpr ⟨inode, allocated, maps, data⟩)
    · rintro all ⟨⟨inr, p⟩, x⟩ mem
      obtain ⟨inode, allocated, maps, data⟩ := Disk.mem_dataUses.mp mem
      exact all inr inode allocated p x maps data)

instance (u : UnixFilesystem) (entry : List UInt8) : Decidable (ParentOwns u entry) :=
  inferInstanceAs (Decidable (∀ found ∈ parentOf u entry, _))

/-- The calls that give one sector at most to a file, and one only if all sectors of files are
marked; nothing is asked of a creation that does not come to `create_dirent`. -/
def TakesOne (u : UnixFilesystem) : Call → Prop
  | .create entry _ => ParentOwns u entry
  | .addfile entry _ buf => ParentOwns u entry ∧ ∀ found ∈ parentOf u entry,
      buf.length ≤ 1024 ∧
        (buf ≠ [] → OwnersMarked u ∧ ¬TakesSector (inodeGetsize found.2.2) 16)
  | .remount => True
  | _ => False

instance (u : UnixFilesystem) (call : Call) : Decidable (TakesOne u call) :=
  match call with
  | .create entry _ => inferInstanceAs (Decidable (ParentOwns u entry))
  | .addfile entry _ buf => inferInstanceAs (Decidable (ParentOwns u entry ∧
      ∀ found ∈ parentOf u entry, buf.length ≤ 1024 ∧
        (buf ≠ [] → OwnersMarked u ∧ ¬TakesSector (inodeGetsize found.2.2) 16)))
  | .remount => .isTrue trivial
  | .fileCreate _ _ => .isFalse id
  | .writebytes _ _ => .isFalse id

/-- `direntv6_addfile`, with content only if the directory takes no sector. -/
theorem Owned.addfile {u u' : UnixFilesystem} (before : Owned u) {entry buf : List UInt8}
    {mode : UInt16} {code : Int} (allowed : TakesOne u (.addfile entry mode buf))
    (run : direntv6Addfile u entry mode buf = some (code, u')) : Owned u' := by
  obtain ⟨ready, content⟩ := allowed
  obtain ⟨created, u₂, creation, result⟩ := direntv6Addfile_cases run
  obtain ⟨between, records⟩ := before.create (fun found mem => (ready found mem).2) creation
  rcases result with ⟨-, rfl⟩ | ⟨found, written, fv6, positive, opened, wrote, -⟩
  · exact between
  · rcases records with rejected | ⟨u₁, name, parent, inode, inode', inr, recorded, marks⟩
    · exact absurd rejected.failed (by omega)
    · obtain ⟨short, full⟩ := content (name, parent, inode) recorded.begun.found
      obtain ⟨number, file, appended⟩ := direntv6Addfile_appends before.geometry recorded
        (by omega) positive opened wrote
      have empty := inodeGetsize_zero_created mode
      have there : u₂.f.Allocated u₂.s (UInt16.ofNat inr).toNat (Inode.zero.created mode) := by
        rw [number]
        exact recorded.file
      have marked : TakesSector (inodeGetsize (Inode.zero.created mode)) buf.length →
          OwnersMarked u₂ := by
        intro takes
        have more : buf ≠ [] := by
          rintro rfl
          rw [empty] at takes
          exact absurd takes (by decide)
        obtain ⟨all, room⟩ := full more
        exact marks room all
      have slots : SlotsInside (inodeGetsize (Inode.zero.created mode)) buf.length := by
        rw [empty]
        exact .inr (by omega)
      exact between.appends there slots marked (.inr ⟨empty, addr_zero_created mode, short⟩)
        appended

/-- From an image with disjoint regions, whose files have their own sectors in the data region,
every run of creations that give one sector at most to a file, and one only if all sectors of files
are marked, keeps every sector of the data region with one owner. -/
theorem sectors_unshared {f : Disk} {s : Superblock} {u u' : UnixFilesystem}
    (regions : f.Regions s) (mapped : f.Mapped s) (unshared : f.Unshared s)
    (mounted : mountv6 f = .ok u) (runs : Runs TakesOne u u') : u'.f.Unshared u'.s := by
  obtain ⟨-, -, start⟩ := Owned.start regions mapped unshared mounted
  refine (Runs.invariant Owned ?_ runs start).unshared
  intro v call code v' before allowed run
  cases call with
  | create entry mode => exact (before.create (fun found mem => (allowed found mem).2) run).1
  | addfile entry mode buf => exact before.addfile allowed run
  | fileCreate => exact allowed.elim
  | writebytes => exact allowed.elim
  | remount =>
    simp only [Call.run] at run
    split at run
    · cases run
    · rename_i after again
      cases run
      obtain ⟨disk, super, -, geometry⟩ := mountv6_geometry before.regions again
      have f : v'.f = v.f := disk
      refine ⟨?_, geometry, ?_, ?_, ?_⟩
      · rw [f, super]
        exact before.regions
      · rw [f, super]
        exact before.unshared
      · rw [f, super]
        exact before.indirect
      · intro inr inode there residual x found
        rw [inodeFindsector_congr f] at found
        rw [f, super] at there
        rw [super]
        exact before.last inr inode there residual x found

set_option maxRecDepth 10000 in
/-- Adding a file of one byte to the empty volume gives one sector to the root and to the file. -/
theorem sectors_shared :
    emptyVolume.WellFormed (volumeSuperblock 2 6) ∧
      ∃ u, mountv6 emptyVolume = .ok u ∧
        ∃ result ∈ Call.run u (.addfile [47, 97] 0 [65]),
          result.1 = errNone ∧ ¬result.2.f.Unshared result.2.s :=
  ⟨emptyVolume_wellFormed, mountv6_check (by decide +kernel)⟩

set_option maxRecDepth 10000 in
/-- Two files of one byte, with a remount between them, have their own sectors. -/
theorem sectors_unshared_files :
    ∃ u u', mountv6 singleVolume = .ok u ∧ Runs TakesOne u u' ∧ u'.f.InUse u'.s 3 ∧
      u'.f.Unshared u'.s := by
  obtain ⟨u, mounted, allow, ⟨code, u₁⟩, run, ⟨code₁, u₂⟩, run₁, allow₂, ⟨code₂, u'⟩, run₂, used⟩ :=
    mountv6_check (f := singleVolume)
      (P := fun u => TakesOne u (.addfile [47, 97] 0 [65]) ∧
        ∃ first ∈ Call.run u (.addfile [47, 97] 0 [65]), ∃ again ∈ Call.run first.2 .remount,
          TakesOne again.2 (.addfile [47, 98] 0 [66]) ∧
            ∃ last ∈ Call.run again.2 (.addfile [47, 98] 0 [66]), last.2.f.InUse last.2.s 3)
      (by decide +kernel)
  have runs : Runs TakesOne u u' :=
    ((Relation.ReflTransGen.single ⟨.addfile [47, 97] 0 [65], code, allow, run⟩).tail
      ⟨.remount, code₁, trivial, run₁⟩).tail ⟨.addfile [47, 98] 0 [66], code₂, allow₂, run₂⟩
  exact ⟨u, u', mounted, runs, used, sectors_unshared singleVolume_wellFormed.regions
    singleVolume_wellFormed.mapped singleVolume_wellFormed.unshared mounted runs⟩

end U6fs
