import U6fs.Inode

/-!
# Mounting (`mount.c`)

Mounting reads the superblock, allocates the two bitmaps and fills them by a scan of the inode
table and of the block map of every allocated inode. A failing mount frees the bitmaps, so it
returns its error code only.
-/
namespace U6fs

open Lib

/-- The first loop of `write_sector_on_bitmap`: the addresses that may name indirect sectors. -/
def markIndirect (inode : Inode) (u : UnixFilesystem) : UnixFilesystem :=
  let sizeTot := inodeGetsize inode / sectorSize + 1
  if sizeTot ≤ mediumFilesysSize then
    (List.range (sizeTot / addressesPerSector + 1)).foldl (fun u indexIAddr =>
      { u with fbm := bmSet u.fbm (inode.iAddr.toList.getD indexIAddr 0).toNat }) u
  else u

/-- The second loop of `write_sector_on_bitmap`, from a sector that `inode_findsector` returned
and the next offset to ask for. It stops on a negative number; `fuel` bounds its rounds. -/
def markSectors (inode : Inode) : Nat → UnixFilesystem → Int → Nat → Int × UnixFilesystem
  | 0, u, sIndexInode, _ => (sIndexInode, u)
  | fuel + 1, u, sIndexInode, sectorIndex =>
    if 0 ≤ sIndexInode then
      let u := { u with fbm := bmSet u.fbm sIndexInode.toNat }
      markSectors inode fuel u (inodeFindsector u inode sectorIndex) (sectorIndex + 1)
    else (sIndexInode, u)

/-- `write_sector_on_bitmap`. -/
def writeSectorOnBitmap (inode : Inode) (u : UnixFilesystem) : Except Int UnixFilesystem :=
  let u := markIndirect inode u
  let sizeTot := inodeGetsize inode / sectorSize + 1
  let (sIndexInode, u) := markSectors inode (sizeTot + 2) u (inodeFindsector u inode 0) 0
  if sIndexInode ≠ errOffsetOutOfRange then .error sIndexInode else .ok u

/-- `inr` in `fill_bitmaps`: slot `j` of table sector `i`, counted from 1 and cut to 16 bits. -/
def scannedInr (k j : Nat) : UInt16 := UInt16.ofNat (inodesPerSector * k + j + rootInumber)

/-- The body of the inner loop of `fill_bitmaps`, for slot `j` of the sector `k` sectors after
the start of the table. -/
def fillBitmapsSlot (k : Nat) (state : UnixFilesystem × Bool) (j : Nat) :
    Except Int (UnixFilesystem × Bool) :=
  let (u, foundAUsedInode) := state
  let inr := scannedInr k j
  let (ret, myInode) := inodeRead u inr Inode.zero
  let used := ret ≠ errUnallocatedInode
  let u := if used then { u with ibm := bmSet u.ibm inr.toNat } else u
  if ret = errNone then do
    let u ← writeSectorOnBitmap myInode u
    .ok (u, foundAUsedInode || used)
  else if ret ≠ errUnallocatedInode then .error ret
  else .ok (u, foundAUsedInode || used)

/-- The body of the outer loop of `fill_bitmaps`. -/
def fillBitmapsSector (u : UnixFilesystem) (k : Nat) : Except Int UnixFilesystem := do
  let (u, foundAUsedInode) ← (List.range inodesPerSector).foldlM (fillBitmapsSlot k) (u, false)
  .ok (if foundAUsedInode then
    { u with fbm := bmSet u.fbm (u.s.sInodeStart.toNat + k) } else u)

/-- `fill_bitmaps`. The table sectors are scanned from `s_inode_start` up to, and without,
`s_inode_start + s_isize - 1`. An empty table never gets here (`bm_alloc` fails before). -/
def fillBitmaps (u : UnixFilesystem) : Except Int UnixFilesystem :=
  let inodeSectorStart := u.s.sInodeStart.toNat
  let inodeSectorEnd := u.s.sIsize.toNat + inodeSectorStart - 1
  (List.range (inodeSectorEnd - inodeSectorStart)).foldlM fillBitmapsSector u

/-- `mountv6` on a file that `fopen` opens. -/
def mountv6 (f : Disk) : Except Int UnixFilesystem := do
  let table ← sectorRead f bootblockSector
  if table.bytes.headD 0 ≠ bootblockMagicNum then .error errBadBootSector
  else
    let superblock ← sectorRead f superblockSector
    let s := Superblock.ofSector superblock
    match bmAlloc rootInumber (s.sIsize.toNat * inodesPerSector) with
    | none => .error errNomem
    | some ibm =>
      match bmAlloc s.sBlockStart.toNat s.sFsize.toNat with
      | none => .error errNomem
      | some fbm => fillBitmaps { f, s, fbm, ibm }

/-- `umountv6`: the bitmaps are freed and the disk file stays. -/
def umountv6 (u : UnixFilesystem) : Disk := u.f

end U6fs
