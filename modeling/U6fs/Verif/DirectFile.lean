import U6fs.Verif.Isolation
import U6fs.Verif.Rounds

/-!
# Files of at most eight sectors

The content of such a file is behind the slots of its inode, and below 4096 bytes the file is read
from there. A write of one sector and then of an inode is described by what every sector of the disk
holds afterwards, table sectors included. Filling up the last sector of such a file is one; it keeps
the slots and the bytes before.
-/
namespace U6fs

open Lib

/-- Sector `y` of a disk once inode `inr` of its table is replaced. -/
def Disk.sectorWithInode (f : Disk) (s : Superblock) (inr : Nat) (inode : Inode) (y : Nat) :
    Option Sector :=
  if y = s.tableSector inr then
    f.sectors[y]?.map fun sector => inodeCodec.set sector (inr % 16) inode
  else f.sectors[y]?

/-- Other sectors than the one of the inode are as they were. -/
theorem sectorWithInode_other (f : Disk) {s : Superblock} {inr y : Nat} (inode : Inode)
    (other : y ≠ s.tableSector inr) : f.sectorWithInode s inr inode y = f.sectors[y]? :=
  if_neg other

/-- Sector `x` and then inode `inr` were written, and nothing else. -/
structure Rewrites (u u' : UnixFilesystem) (x : Nat) (content : Sector) (inr : Nat)
    (inode : Inode) : Prop where
  /-- The volume is the same. -/
  geometry : Geometry u'
  /-- So is the superblock. -/
  s : u'.s = u.s
  /-- The sector is in the data region. -/
  data : u.s.InData x
  /-- The number is in the table. -/
  inside : inr < u.s.inodes
  /-- The table holds the inode. -/
  inodeAt : u'.f.inodeAt u'.s inr = some inode
  /-- The disk file does not get shorter. -/
  length : u.f.sectors.length ≤ u'.f.sectors.length
  /-- What every sector holds. -/
  sectors : ∀ y, u'.f.sectors[y]? =
    if y = x then some content else u.f.sectorWithInode u.s inr inode y

namespace Rewrites

variable {u u' : UnixFilesystem} {x inr : Nat} {content : Sector} {inode : Inode}

/-- The sector holds its content. -/
theorem same (rewrites : Rewrites u u' x content inr inode) : u'.f.sectors[x]? = some content := by
  rw [rewrites.sectors, if_pos rfl]

/-- Another sector of the data region is kept. -/
theorem kept (rewrites : Rewrites u u' x content inr inode) (geometry : Geometry u) {y : Nat}
    (data : u.s.InData y) (other : y ≠ x) : u'.f.sectors[y]? = u.f.sectors[y]? := by
  have inside := rewrites.inside
  rw [Superblock.inodes] at inside
  have apart : y ≠ u.s.tableSector inr := geometry.data_ne_table data (by omega)
  rw [rewrites.sectors, if_neg other, sectorWithInode_other _ _ apart]

/-- The last of two such writes counts. -/
theorem trans {u'' : UnixFilesystem} {content' : Sector} {inode' : Inode}
    (first : Rewrites u u' x content inr inode) (second : Rewrites u' u'' x content' inr inode') :
    Rewrites u u'' x content' inr inode' := by
  refine ⟨second.geometry, second.s.trans first.s, first.data, first.inside, second.inodeAt,
    first.length.trans second.length, fun y => ?_⟩
  rw [second.sectors]
  by_cases here : y = x
  · rw [if_pos here, if_pos here]
  rw [if_neg here, if_neg here, Disk.sectorWithInode, Disk.sectorWithInode, first.s,
    first.sectors, if_neg here, Disk.sectorWithInode]
  by_cases table : y = u.s.tableSector inr
  · have fits : (inr % 16 + 1) * inodeCodec.width ≤ sectorSize := by
      rw [inodeCodec_width, sectorSize]
      omega
    rw [if_pos table, if_pos table, if_pos table, Option.map_map]
    congr 1
    funext sector
    exact inodeCodec.set_set sector inode inode' fits
  · rw [if_neg table, if_neg table, if_neg table]

end Rewrites

/-- A sector of the data region and then an inode are written. -/
theorem Geometry.put_rewrites {u : UnixFilesystem} (geometry : Geometry u) {x : Nat}
    (data : u.s.InData x) (writer : Writer) (content : Sector) {inr : UInt16}
    (inRange : inodeOutOfRange u.s inr = false) (inode : Inode) :
    ∃ f₁ f', sectorWrite writer u.f x content = (errNone, f₁) ∧
      inodeWrite { u with f := f₁ } inr inode = (errNone, { u with f := f' }) ∧
      Advanced u { u with f := f' } 2 ∧
      Rewrites u { u with f := f' } x content inr.toNat inode := by
  obtain ⟨f₁, f', written, stored, put⟩ := geometry.put_spec data writer content inRange inode
  have inside := put.inside.2
  rw [Superblock.inodes] at inside
  have apart : x ≠ u.s.tableSector inr.toNat := geometry.data_ne_table data (by omega)
  have present : u.s.tableSector inr.toNat < u.f.sectors.length :=
    geometry.table_inside (by omega)
  have time : f'.time = u.f.time + 2 := by
    rw [Disk.time, put.log]
    rfl
  have table : f'.sectors[u.s.tableSector inr.toNat]? = u.f.sectors[u.s.tableSector inr.toNat]?.map
      fun sector => inodeCodec.set sector (inr.toNat % 16) inode := by
    have place : inodeSectorNb u.s inr = u.s.tableSector inr.toNat := Nat.add_comm _ _
    rw [sectorWrite_faultless geometry.works, Prod.mk.injEq] at written
    obtain ⟨-, rfl⟩ := written
    have kept := u.f.overwrite_other content apart.symm present
    have there := List.getElem?_eq_getElem present
    rw [there] at kept
    have read := sectorRead_faultless (f := { u.f.overwrite x content with
      log := (writer, x) :: u.f.log }) geometry.works (u.s.tableSector inr.toNat)
    rw [kept] at read
    rw [inodeWrite, if_neg (Bool.eq_false_iff.mp inRange)] at stored
    simp only [place, read] at stored
    rw [sectorWrite_faultless (f := { u.f.overwrite x content with
      log := (writer, x) :: u.f.log }) geometry.works, Prod.mk.injEq] at stored
    have disk : f' = _ := (congrArg UnixFilesystem.f stored.2).symm
    rw [disk, there, Option.map_some, ← inodeIndex_eq]
    exact Disk.overwrite_same _ _ _
  refine ⟨f₁, f', written, stored, ⟨rfl, put.host, time⟩, geometry.put put, rfl, data,
    put.inside.2, ?_, ?_, fun y => ?_⟩
  · show f'.inodeAt u.s _ = _
    rw [put.inodeAt, if_pos rfl]
  · show _ ≤ f'.sectors.length
    rw [put.length]
    exact Nat.le_max_left _ _
  · by_cases here : y = x
    · rw [if_pos here, here]
      exact put.same
    · rw [if_neg here, Disk.sectorWithInode]
      by_cases there : y = u.s.tableSector inr.toNat
      · rw [if_pos there, there]
        exact table
      · rw [if_neg there]
        exact put.other y here there

/-- The sector that slot `k` of an inode names. -/
def Inode.slot (inode : Inode) (k : Nat) : Nat := (inode.iAddr.toList.getD k 0).toNat

/-- A file of at most 8 sectors has the sectors that its slots name. -/
theorem mapped_slot (f : Disk) {inode : Inode} (few : sectorCount inode ≤ 8) {k : Nat}
    (inside : k < sectorCount inode) : f.mapped inode (.data k) = some (inode.slot k) :=
  mapped_direct f few inside

/-- Below 4096 bytes `inode_findsector` finds them. -/
theorem inodeFindsector_slot (u : UnixFilesystem) {inode : Inode}
    (used : inode.isAllocated = true) {k : Nat} (inside : k ≤ inodeGetsize inode / 512)
    (small : inodeGetsize inode < 4096) : inodeFindsector u inode k = inode.slot k :=
  inodeFindsector_direct u used inside small

/-- Byte `i` behind the addresses of an inode, each of which names a sector of content. -/
def slotByte (f : Disk) (inode : Inode) (i : Nat) : Option UInt8 :=
  f.sectors[inode.slot (i / 512)]?.bind fun sector => sector.bytes[i % 512]?

/-- These sectors start with some bytes. -/
def Holds (f : Disk) (inode : Inode) (bytes : List UInt8) : Prop :=
  ∀ i < bytes.length, slotByte f inode i = bytes[i]?

/-- A byte in a sector that is there. -/
theorem slotByte_eq {f : Disk} {inode : Inode} {i : Nat} {sector : Sector}
    (there : f.sectors[inode.slot (i / 512)]? = some sector) :
    slotByte f inode i = sector.bytes[i % 512]? := by
  rw [slotByte, there, Option.bind_some]

section Contents

variable {u : UnixFilesystem} {inode : Inode}

/-- The content of a file of at most 8 sectors is behind its addresses. -/
theorem contents_direct (few : sectorCount inode ≤ 8)
    (present : ∀ k < sectorCount inode, inode.slot k < u.f.sectors.length) :
    (u.f.contents inode).length = inodeGetsize inode ∧ Holds u.f inode (u.f.contents inode) := by
  have sector : ∀ k < sectorCount inode, ∃ sector : Sector,
      u.f.sectors[inode.slot k]? = some sector ∧ u.f.contentSector inode k = sector.bytes := by
    intro k inside
    have there := List.getElem?_eq_getElem (present k inside)
    refine ⟨_, there, ?_⟩
    rw [Disk.contentSector, mapped_slot u.f few inside]
    simp only [there, Option.map_some, Option.getD_some]
  have sized : ∀ k < sectorCount inode, (u.f.contentSector inode k).length = 512 := by
    intro k inside
    obtain ⟨sector, -, is⟩ := sector k inside
    rw [is]
    exact sector.sized
  have count : 512 * sectorCount inode < inodeGetsize inode + 512 ∧
      inodeGetsize inode ≤ 512 * sectorCount inode := by
    rw [sectorCount]
    omega
  have whole : ((List.range (sectorCount inode)).flatMap (u.f.contentSector inode)).length =
      512 * sectorCount inode := by
    rw [List.length_flatMap, List.map_congr_left fun k mem => sized k (List.mem_range.mp mem),
      List.map_const', List.length_range, List.sum_replicate_nat, Nat.mul_comm]
  have length : (u.f.contents inode).length = inodeGetsize inode := by
    rw [Disk.contents, List.length_take, whole]
    omega
  refine ⟨length, fun i inside => ?_⟩
  rw [length] at inside
  have block : i / 512 < sectorCount inode := by
    omega
  obtain ⟨sector, there, is⟩ := sector _ block
  rw [slotByte_eq there, Disk.contents, List.getElem?_take, if_pos inside,
    flatMap_range_getElem? sized (by omega), is]

end Contents

section Read

variable {u : UnixFilesystem} {inr : UInt16} {inode : Inode}

/-- A byte that is there is in a block that is found and in the disk file. -/
theorem fileByte_eq_some {i : Nat} {byte : UInt8} (there : fileByte u inode i = some byte) :
    ∃ (x : Nat) (sector : Sector), inodeFindsector u inode (i / 512 : Nat) = x ∧
      u.f.sectors[x]? = some sector := by
  rw [fileByte] at there
  by_cases missing : inodeFindsector u inode (i / 512 : Nat) < 0
  · rw [if_pos missing] at there
    cases there
  rw [if_neg missing, Option.bind_eq_some_iff] at there
  obtain ⟨sector, present, -⟩ := there
  exact ⟨_, sector, (Int.toNat_of_nonneg (Int.not_lt.mp missing)).symm, present⟩

/-- A file is read to its end with given bytes exactly when these are the bytes of its blocks. -/
theorem readFile_bytes_iff (works : u.f.host.Faultless)
    (allocated : u.f.Allocated u.s inr.toNat inode) {bytes : List UInt8}
    (size : bytes.length = inodeGetsize inode) :
    readFile u inr = some (bytes, errNone) ↔
      ∀ i < bytes.length, fileByte u inode i = bytes[i]? := by
  rw [readFile_of_allocated works allocated, Option.some.injEq]
  constructor
  · intro read i inside
    have whole : (fileContent u inode).2 = errNone := congrArg Prod.snd read
    have content : (fileContent u inode).1 = bytes := congrArg Prod.fst read
    rw [← fileContent_getElem? u inode whole (by omega), content]
  · intro holds
    have readable : Readable u inode := by
      intro k inside
      rw [sectorCount] at inside
      have byte := holds (512 * k) (by omega)
      have block : 512 * k / 512 = k := by omega
      rw [List.getElem?_eq_getElem (by omega)] at byte
      obtain ⟨x, sector, found, there⟩ := fileByte_eq_some byte
      rw [block] at found
      exact ⟨sector, fileBlock_of_found works found there⟩
    have whole := readable.whole
    have length := fileContent_length u inode whole
    have content : (fileContent u inode).1 = bytes := by
      apply List.ext_getElem?
      intro i
      by_cases inside : i < inodeGetsize inode
      · rw [fileContent_getElem? u inode whole inside, holds i (by omega)]
      · rw [List.getElem?_eq_none (by omega), List.getElem?_eq_none (by omega)]
    exact Prod.ext content whole

/-- A byte in a block that is found. -/
theorem fileByte_of_found {k x : Nat} (found : inodeFindsector u inode k = x) {i : Nat}
    (block : i / 512 = k) :
    fileByte u inode i = u.f.sectors[x]?.bind fun sector => sector.bytes[i % 512]? := by
  rw [fileByte, block, found, if_neg (by omega), Int.toNat_natCast]

/-- A file below 4096 bytes is read to its end with given bytes exactly when the sectors that its
slots name hold them. -/
theorem readFile_slots_iff (works : u.f.host.Faultless)
    (allocated : u.f.Allocated u.s inr.toNat inode) (small : inodeGetsize inode < 4096)
    {bytes : List UInt8} (size : bytes.length = inodeGetsize inode) :
    readFile u inr = some (bytes, errNone) ↔ Holds u.f inode bytes := by
  rw [readFile_bytes_iff works allocated size]
  apply forall₂_congr
  intro i inside
  have found := inodeFindsector_slot u allocated.2 (by omega : i / 512 ≤ _) small
  rw [fileByte_of_found found rfl, slotByte]

end Read

/-- A file of at most 8 sectors, which are in the data region and in the disk file, different from
one another and marked. -/
structure DirectFile (u : UnixFilesystem) (inr : UInt16) (inode : Inode) : Prop where
  /-- The volume is mounted on a working machine. -/
  geometry : Geometry u
  /-- The file is there. -/
  allocated : u.f.Allocated u.s inr.toNat inode
  /-- It has at most 8 sectors. -/
  few : inodeGetsize inode ≤ 4096
  /-- They are in the data region. -/
  data : ∀ k < sectorCount inode, u.s.InData (inode.slot k)
  /-- They are in the disk file. -/
  present : ∀ k < sectorCount inode, inode.slot k < u.f.sectors.length
  /-- They are different from one another. -/
  apart : ∀ j < sectorCount inode, ∀ k < sectorCount inode, inode.slot j = inode.slot k → j = k
  /-- They are marked. -/
  marked : ∀ k < sectorCount inode, bmGet u.fbm (inode.slot k) ≠ 0

/-- So are the files of at most 8 sectors of a well-formed image with a sound bitmap. -/
theorem DirectFile.of_wellFormed {u : UnixFilesystem} {inr : UInt16} {inode : Inode}
    (geometry : Geometry u) (wellFormed : u.f.WellFormed u.s) (sound : OwnersMarked u)
    (allocated : u.f.Allocated u.s inr.toNat inode) (few : inodeGetsize inode ≤ 4096) :
    DirectFile u inr inode := by
  have count : sectorCount inode ≤ 8 := by
    rw [sectorCount]
    omega
  have maps : ∀ k < sectorCount inode, u.f.mapped inode (.data k) = some (inode.slot k) :=
    fun k inside => mapped_slot u.f count inside
  have there : ∀ k < sectorCount inode,
      u.s.InData (inode.slot k) ∧ inode.slot k < u.f.sectors.length := by
    intro k inside
    obtain ⟨x, is, data, present⟩ :=
      wellFormed.mapped.data inr.toNat inode (.data k) allocated inside
    rw [maps k inside, Option.some.injEq] at is
    rw [is]
    exact ⟨data, present⟩
  refine ⟨geometry, allocated, few, fun k inside => (there k inside).1,
    fun k inside => (there k inside).2, fun j insideJ k inside same => ?_, fun k inside => ?_⟩
  · have mapsJ := maps j insideJ
    rw [same] at mapsJ
    have unshared := wellFormed.unshared inr.toNat inode (.data j) inr.toNat inode (.data k)
      (inode.slot k) allocated allocated mapsJ (maps k inside) (there k inside).1
    exact Position.data.inj unshared.2
  · rw [sound inr.toNat inode allocated (.data k) _ (maps k inside) (there k inside).1]
    decide

section DirectFile

variable {u : UnixFilesystem} {inr : UInt16} {inode : Inode} (file : DirectFile u inr inode)

include file

/-- The number of its sectors. -/
theorem DirectFile.count : sectorCount inode ≤ 8 := by
  have few := file.few
  rw [sectorCount]
  omega

/-- Its content is behind its slots. -/
theorem DirectFile.contents :
    (u.f.contents inode).length = inodeGetsize inode ∧ Holds u.f inode (u.f.contents inode) :=
  contents_direct file.count file.present

/-- At eight sectors the first one of the file is read as an indirect sector, so blocks are found as
before when another one is written. -/
theorem DirectFile.found_kept {v : UnixFilesystem} {x m : Nat} {content : Sector}
    {stored full : Inode} (rewrites : Rewrites u v x content m stored)
    (more : 0 < sectorCount inode) (apart : inode.slot 0 ≠ x) (addr : full.iAddr = inode.iAddr)
    (eight : inodeGetsize full = 4096) (k : Nat) :
    inodeFindsector v full k = inodeFindsector u full k := by
  apply inodeFindsector_kept file.geometry.works rewrites.geometry.works
  intro big j small
  have zero : j = 0 := by
    omega
  rw [zero, addr]
  exact rewrites.kept file.geometry (file.data 0 more) apart

end DirectFile

/-- A sector written behind the bytes of whole sectors holds the bytes written to it, if its slot
names it. -/
theorem Holds.put {u u' : UnixFilesystem} {inr : UInt16} {inode inode' : Inode} {x : Nat}
    {content : Sector} {bytes chunk : List UInt8} (file : DirectFile u inr inode)
    (holds : Holds u.f inode bytes) (whole : bytes.length = 512 * sectorCount inode)
    (rewrites : Rewrites u u' x (content.splice 0 chunk) inr.toNat inode')
    (free : bmGet u.fbm x = 0) (short : chunk.length ≤ 512)
    (kept : ∀ k < sectorCount inode, inode'.slot k = inode.slot k)
    (named : inode'.slot (sectorCount inode) = x) : Holds u'.f inode' (bytes ++ chunk) := by
  intro i inside
  rw [List.length_append] at inside
  by_cases old : i < bytes.length
  · have block : i / 512 < sectorCount inode := by
      omega
    have other : inode.slot (i / 512) ≠ x := by
      intro same
      apply file.marked _ block
      rw [same]
      exact free
    rw [slotByte, kept _ block, rewrites.kept file.geometry (file.data _ block) other,
      List.getElem?_append_left old]
    exact holds i old
  · have block : i / 512 = sectorCount inode := by
      omega
    have place : i % 512 = i - bytes.length := by
      omega
    have fits : 0 + chunk.length ≤ sectorSize := by
      rw [sectorSize]
      omega
    rw [slotByte, block, named, rewrites.same, Option.bind_some, Block.splice_getElem? _ fits,
      if_pos (by omega), place, Nat.sub_zero, List.getElem?_append_right (by omega)]

/-- The last sector of a file holds more bytes behind those that it held. -/
theorem Holds.fill {u u' : UnixFilesystem} {inr : UInt16} {inode inode' : Inode} {old : Sector}
    {bytes chunk : List UInt8} (file : DirectFile u inr inode) (holds : Holds u.f inode bytes)
    (whole : bytes.length = inodeGetsize inode) (partly : inodeGetsize inode % 512 ≠ 0)
    (there : u.f.sectors[inode.slot (inodeGetsize inode / 512)]? = some old)
    (rewrites : Rewrites u u' (inode.slot (inodeGetsize inode / 512))
      (old.splice (inodeGetsize inode % 512) chunk) inr.toNat inode')
    (room : inodeGetsize inode % 512 + chunk.length ≤ 512)
    (slots : ∀ k, inode'.slot k = inode.slot k) : Holds u'.f inode' (bytes ++ chunk) := by
  have count := sectorCount_eq inode
  rw [if_neg partly] at count
  intro i inside
  rw [List.length_append] at inside
  rw [slotByte, slots]
  by_cases last : i / 512 = inodeGetsize inode / 512
  · rw [last, rewrites.same, Option.bind_some, Block.splice_getElem? _ room]
    by_cases early : i < bytes.length
    · have byte := holds i early
      rw [slotByte, last, there, Option.bind_some] at byte
      rw [if_neg (by omega), byte, List.getElem?_append_left early]
    · have place : i % 512 - inodeGetsize inode % 512 = i - bytes.length := by
        omega
      rw [if_pos (by omega), place, List.getElem?_append_right (by omega)]
  · have block : i / 512 < sectorCount inode := by
      omega
    have other : inode.slot (i / 512) ≠ inode.slot (inodeGetsize inode / 512) := fun same =>
      last (file.apart _ block _ (by omega) same)
    rw [rewrites.kept file.geometry (file.data _ block) other, List.getElem?_append_left (by omega)]
    exact holds i (by omega)

/-- The inode of a file once its last sector is filled up with what it takes of `len` bytes. -/
def Inode.filled (inode : Inode) (len : Nat) : Inode :=
  inode.resized (inodeGetsize inode + residualLength (inodeGetsize inode) len)

section Fill

variable {u : UnixFilesystem} {fv6 : Filev6} (file : DirectFile u fv6.iNumber fv6.iNode)

include file

/-- A partly used last sector of a file of at most 8 sectors is filled up. -/
theorem DirectFile.filledUp_partly (buf : List UInt8) (partly : inodeGetsize fv6.iNode % 512 ≠ 0) :
    ∃ v old, u.f.sectors[fv6.iNode.slot (inodeGetsize fv6.iNode / 512)]? = some old ∧
      filledUp u fv6 buf = (v, { fv6 with iNode := fv6.iNode.filled buf.length }) ∧
      v.fbm = u.fbm ∧
      Rewrites u v (fv6.iNode.slot (inodeGetsize fv6.iNode / 512))
        (old.splice (inodeGetsize fv6.iNode % 512)
          (buf.take (residualLength (inodeGetsize fv6.iNode) buf.length))) fv6.iNumber.toNat
        (fv6.iNode.filled buf.length) := by
  have few := file.few
  have count := sectorCount_eq fv6.iNode
  rw [if_neg partly] at count
  have last : inodeGetsize fv6.iNode / 512 < sectorCount fv6.iNode := by
    omega
  have found := inodeFindsector_slot u file.allocated.2 le_rfl (by omega)
  obtain ⟨old, there⟩ : ∃ old, u.f.sectors[fv6.iNode.slot (inodeGetsize fv6.iNode / 512)]? =
      some old := ⟨_, List.getElem?_eq_getElem (file.present _ last)⟩
  have read := sectorRead_faultless file.geometry.works
    (fv6.iNode.slot (inodeGetsize fv6.iNode / 512))
  rw [there] at read
  rw [filledUp, Inode.filled, residualLength, if_neg partly, if_neg partly]
  generalize length : min buf.length (512 - inodeGetsize fv6.iNode % 512) = filled
  have taken : (buf.take filled).length = filled := by
    rw [List.length_take]
    omega
  have set := inodeSetsize_ok fv6.iNode (inodeGetsize fv6.iNode + filled) (by omega)
  rw [Int.natCast_add] at set
  generalize fv6.iNode.resized (inodeGetsize fv6.iNode + filled) = inode at *
  obtain ⟨f₁, f, written, stored, -, rewrites⟩ := file.geometry.put_rewrites (file.data _ last)
    .filev6WritesectorResidual (old.splice (inodeGetsize fv6.iNode % 512) (buf.take filled))
    file.allocated.inRange inode
  refine ⟨{ u with f }, old, there, ?_, rfl, rewrites⟩
  have run : filev6WritesectorResidual u fv6 (buf.take filled) (inodeGetsize fv6.iNode / 512 + 1)
      (inodeGetsize fv6.iNode % 512) (inodeGetsize fv6.iNode) =
        (errNone, { u with f }, { fv6 with iNode := inode }) := by
    rw [filev6WritesectorResidual, Nat.add_sub_cancel, found, taken, set, if_neg (by omega),
      Int.toNat_natCast]
    simp only [read, written, stored, Int.lt_irrefl, if_false]
  rw [run]

/-- After the attempt the file has no partly used sector, unless it takes all bytes. -/
theorem DirectFile.filledUp (buf : List UInt8) :
    ∃ v inode, U6fs.filledUp u fv6 buf = (v, { fv6 with iNode := inode }) ∧
      v.s = u.s ∧ v.fbm = u.fbm ∧ DirectFile v fv6.iNumber inode ∧
      (∀ k, inode.slot k = fv6.iNode.slot k) ∧ inodeGetsize inode =
        inodeGetsize fv6.iNode + residualLength (inodeGetsize fv6.iNode) buf.length ∧
      ∀ bytes, bytes.length = inodeGetsize fv6.iNode → Holds u.f fv6.iNode bytes →
        Holds v.f inode
          (bytes ++ buf.take (residualLength (inodeGetsize fv6.iNode) buf.length)) := by
  have few := file.few
  by_cases whole : inodeGetsize fv6.iNode % 512 = 0
  · rw [U6fs.filledUp, residualLength, if_pos whole, if_pos whole, List.take_zero]
    refine ⟨u, fv6.iNode, rfl, rfl, rfl, file, fun _ => rfl, rfl, fun bytes _ holds => ?_⟩
    rw [List.append_nil]
    exact holds
  obtain ⟨v, old, there, run, bitmap, rewrites⟩ := file.filledUp_partly buf whole
  rw [Inode.filled] at run rewrites
  have room : residualLength (inodeGetsize fv6.iNode) buf.length ≤
      512 - inodeGetsize fv6.iNode % 512 := by
    rw [residualLength, if_neg whole]
    exact Nat.min_le_right _ _
  generalize filled : residualLength (inodeGetsize fv6.iNode) buf.length = n at *
  have count := sectorCount_eq fv6.iNode
  rw [if_neg whole] at count
  have size := inodeGetsize_resized fv6.iNode (inodeGetsize fv6.iNode + n) (by omega)
  have used : (fv6.iNode.resized (inodeGetsize fv6.iNode + n)).isAllocated = true :=
    (isAllocated_congr (resized_iMode _ _)).trans file.allocated.2
  have slots : ∀ k, (fv6.iNode.resized (inodeGetsize fv6.iNode + n)).slot k = fv6.iNode.slot k :=
    fun _ => rfl
  have same : sectorCount (fv6.iNode.resized (inodeGetsize fv6.iNode + n)) =
      sectorCount fv6.iNode := by
    rw [count, sectorCount, size]
    omega
  refine ⟨v, _, run, rewrites.s, bitmap, ⟨rewrites.geometry, ⟨rewrites.inodeAt, used⟩, by omega,
    ?_, ?_, ?_, ?_⟩, slots, size, fun bytes is holds => ?_⟩
  · intro k inside
    rw [rewrites.s]
    exact file.data k (by omega)
  · intro k inside
    exact Nat.lt_of_lt_of_le (file.present k (by omega)) rewrites.length
  · intro j insideJ k inside
    exact file.apart j (by omega) k (by omega)
  · intro k inside
    rw [bitmap]
    exact file.marked k (by omega)
  · have taken : (buf.take n).length ≤ n := List.length_take_le _ _
    exact holds.fill file is whole there rewrites (by omega) slots

end Fill

end U6fs
