import U6fs.Direntv6

/-!
# Volumes as the handouts lay them out

An image is read here as the format defines it, without the code: the inode table as an array
of inodes, the block map of an inode, the contents of a file and the records of a directory.
A file of at most 8 sectors has their numbers in `i_addr`; a file of 9 to 1792 sectors has in
`i_addr` the numbers of indirect sectors, which hold 256 sector numbers each.

Well-formedness is split into the properties that different results need.
-/
namespace U6fs

open Lib

/-- The number of sectors that the content of a file takes. -/
def sectorCount (inode : Inode) : Nat := (inodeGetsize inode + 511) / 512

/-- The number of inodes of the table, inode 0 included. -/
def Superblock.inodes (s : Superblock) : Nat := 16 * s.sIsize.toNat

/-- A sector number is in the data region. -/
def Superblock.InData (s : Superblock) (x : Nat) : Prop :=
  s.sBlockStart.toNat ≤ x ∧ x ≤ s.sFsize.toNat

instance (s : Superblock) (x : Nat) : Decidable (s.InData x) :=
  inferInstanceAs (Decidable (_ ∧ _))

/-- A place of a block map: a sector of content, or an indirect sector. -/
inductive Position where
  /-- The content at sector offset `k`. -/
  | data (k : Nat)
  /-- The indirect sector named by `i_addr[j]`. -/
  | indirect (j : Nat)
deriving DecidableEq

/-- The places of the block map of a file. -/
def HasPosition (inode : Inode) : Position → Prop
  | .data k => k < sectorCount inode
  | .indirect j => 8 < sectorCount inode ∧ j < (sectorCount inode + 255) / 256

namespace Disk

/-- Inode number `inr` of the table. -/
def inodeAt (f : Disk) (s : Superblock) (inr : Nat) : Option Inode :=
  if 1 ≤ inr ∧ inr < s.inodes then
    f.sectors[s.sInodeStart.toNat + inr / 16]?.map fun sector => inodeCodec.get sector (inr % 16)
  else none

/-- Inode number `inr` is in use and holds `inode`. -/
def Allocated (f : Disk) (s : Superblock) (inr : Nat) (inode : Inode) : Prop :=
  f.inodeAt s inr = some inode ∧ inode.isAllocated = true

/-- Inode number `inr` is in use. -/
def InUse (f : Disk) (s : Superblock) (inr : Nat) : Prop := ∃ inode, f.Allocated s inr inode

/-- Entry `k` of the indirect sectors of a file, as an unsigned number. -/
def entry (f : Disk) (inode : Inode) (k : Nat) : Option Nat := do
  let address ← inode.iAddr.toList[k / 256]?
  let sector ← f.sectors[address.toNat]?
  some (Codec.u16.get sector (k % 256)).toNat

/-- The sector that the block map of a file has at a place. -/
def mapped (f : Disk) (inode : Inode) : Position → Option Nat
  | .data k =>
    if k < sectorCount inode then
      if sectorCount inode ≤ 8 then inode.iAddr.toList[k]?.map UInt16.toNat else f.entry inode k
    else none
  | .indirect j =>
    if 8 < sectorCount inode ∧ j < (sectorCount inode + 255) / 256 then
      inode.iAddr.toList[j]?.map UInt16.toNat
    else none

/-- A file uses a sector, for its content or as an indirect sector. -/
def Uses (f : Disk) (inode : Inode) (x : Nat) : Prop := ∃ p, f.mapped inode p = some x

/-- The bytes of a file in sector `k` of its content. -/
def contentSector (f : Disk) (inode : Inode) (k : Nat) : List UInt8 :=
  match f.mapped inode (.data k) with
  | none => []
  | some x => (f.sectors[x]?.map Block.bytes).getD []

/-- The content of a file: the first bytes, as many as its size says, of its sectors. -/
def contents (f : Disk) (inode : Inode) : List UInt8 :=
  ((List.range (sectorCount inode)).flatMap (f.contentSector inode)).take (inodeGetsize inode)

end Disk

/-- The records of the content of a directory. -/
def records (bytes : List UInt8) : List Direntv6 :=
  (List.range (bytes.length / 16)).map fun i => direntCodec.decode (window bytes (16 * i) 16)

/-- Records that were encoded one after another are read back. -/
theorem records_flatMap (values : List Direntv6) :
    records (values.flatMap direntCodec.encode) = values := by
  have length : (values.flatMap direntCodec.encode).length = 16 * values.length := by
    simp only [List.length_flatMap, direntCodec.encode_length, direntCodec_width, List.map_const',
      List.sum_replicate_nat, Nat.mul_comm]
  unfold records
  apply List.ext_getElem
  · rw [List.length_map, List.length_range, length]
    omega
  · intro i inside inside'
    have there := Codec.window_flatMap direntCodec values i inside'
    rw [direntCodec_width, Nat.mul_comm] at there
    simp only [List.getElem_map, List.getElem_range, there, direntCodec.decode_encode]

/-- The records of two contents, one after the other. -/
theorem records_append {first : List UInt8} (second : List UInt8) (whole : first.length % 16 = 0) :
    records (first ++ second) = records first ++ records second := by
  have count : (first ++ second).length / 16 = first.length / 16 + second.length / 16 := by
    rw [List.length_append]
    omega
  rw [records, records, records, count, List.range_add, List.map_append, List.map_map]
  congr 1
  · apply List.map_congr_left
    intro i mem
    rw [List.mem_range] at mem
    rw [window_append_left second (by omega)]
  · apply List.map_congr_left
    intro i _
    have place : 16 * (first.length / 16 + i) = first.length + 16 * i := by omega
    simp only [Function.comp_apply, place, window_append_right]

/-- The inode number and the name of a record. -/
def Direntv6.pair (record : Direntv6) : UInt16 × List UInt8 :=
  (record.dInumber, cString record.dName.toList)

/-- The boot sector, the superblock, the inode table and the data region are disjoint, in order
and inside the disk file, whose host works. -/
structure Disk.Regions (f : Disk) (s : Superblock) : Prop where
  /-- The magic number is there. -/
  magic : ∃ boot, f.sectors[0]? = some boot ∧ boot.bytes.headD 0 = bootblockMagicNum
  /-- The superblock is in sector 1. -/
  superblock : ∃ sector, f.sectors[1]? = some sector ∧ Superblock.ofSector sector = s
  /-- The inode table comes after the superblock. -/
  table : 2 ≤ s.sInodeStart.toNat
  /-- The data region comes after the inode table. -/
  data : s.sInodeStart.toNat + s.sIsize.toNat ≤ s.sBlockStart.toNat
  /-- The data region ends at the last sector. -/
  ends : s.sBlockStart.toNat ≤ s.sFsize.toNat
  /-- All the sectors of the volume are in the file. -/
  inside : s.sFsize.toNat ≤ f.sectors.length
  /-- Transfers work. -/
  works : f.host.Faultless

/-- Every place of the block map of an allocated inode has a sector of the data region. -/
structure Disk.Mapped (f : Disk) (s : Superblock) : Prop where
  /-- No file is larger than 1792 sectors. -/
  size : ∀ inr inode, f.Allocated s inr inode → sectorCount inode ≤ 1792
  /-- The sectors are in the data region and in the file. -/
  data : ∀ inr inode p, f.Allocated s inr inode → HasPosition inode p →
    ∃ x, f.mapped inode p = some x ∧ s.InData x ∧ x < f.sectors.length

/-- No sector of the data region has two places in the block maps of allocated inodes. -/
def Disk.Unshared (f : Disk) (s : Superblock) : Prop :=
  ∀ inr inode p inr' inode' p' x, f.Allocated s inr inode → f.Allocated s inr' inode' →
    f.mapped inode p = some x → f.mapped inode' p' = some x → s.InData x → inr = inr' ∧ p = p'

/-- Directories hold whole records. -/
def Disk.WholeRecords (f : Disk) (s : Superblock) : Prop :=
  ∀ inr inode, f.Allocated s inr inode → inode.isDirectory = true → inodeGetsize inode % 16 = 0

/-- The names of a directory are distinct and not empty. -/
def Disk.DistinctNames (f : Disk) (s : Superblock) : Prop :=
  ∀ inr inode, f.Allocated s inr inode → inode.isDirectory = true →
    ((records (f.contents inode)).map fun r => r.pair.2).Nodup ∧
      [] ∉ (records (f.contents inode)).map fun r => r.pair.2

/-- The records of directories name allocated inodes. -/
def Disk.LiveEntries (f : Disk) (s : Superblock) : Prop :=
  ∀ inr inode, f.Allocated s inr inode → inode.isDirectory = true →
    ∀ record ∈ records (f.contents inode), ∃ child, f.Allocated s record.dInumber.toNat child

/-- A well-formed image. -/
structure Disk.WellFormed (f : Disk) (s : Superblock) : Prop where
  /-- The regions of the volume. -/
  regions : f.Regions s
  /-- Inode 1 is an allocated directory. -/
  root : ∃ inode, f.Allocated s rootInumber inode ∧ inode.isDirectory = true
  /-- Sectors of files are in the data region. -/
  mapped : f.Mapped s
  /-- Sectors of files are not shared. -/
  unshared : f.Unshared s
  /-- Directories hold whole records. -/
  whole : f.WholeRecords s
  /-- The names of a directory are distinct and not empty. -/
  names : f.DistinctNames s
  /-- Records name allocated inodes. -/
  live : f.LiveEntries s

end U6fs
