import U6fs.Lib.Emit
import U6fs.Filev6
import U6fs.Mount

/-!
# Listings of inodes (`inode.c` and `u6fs_utils.c`)

The commands `inode` and `shafiles` go through the table and print a line for every inode in use.
The line of a file has the bytes of which the digest is taken; the digest itself is a parameter of
the text printed.
-/
namespace U6fs

open Lib

/-- `UTILS_HASHED_LENGTH`. -/
abbrev utilsHashedLength : Nat := 16 * sectorSize

/-- The codes that stop a listing: all but that of an inode that is not allocated. -/
def stopsListing (ret : Int) : Bool := ret ≠ errNone && ret ≠ errUnallocatedInode

/-- A line of `inode_scan_print`. -/
structure InodeLine where
  /-- The inode number. -/
  inr : UInt16
  /-- `DIR` or `FIL`. -/
  directory : Bool
  /-- The size. -/
  size : Nat
deriving DecidableEq

/-- The body of the inner loop of `inode_scan_print`. -/
def inodeScanSlot (u : UnixFilesystem) (inr : UInt16) : Int × List InodeLine :=
  match inodeRead u inr Inode.zero with
  | (ret, myInode) =>
    (ret, if ret = errNone then [⟨inr, myInode.isDirectory, inodeGetsize myInode⟩] else [])

/-- `inode_scan_print`. The table sectors and the numbers are those of `fill_bitmaps`. With
`s_isize` and `s_inode_start` both 0 the bound of the source wraps, so that it asks for a number and
ends with `ERR_INODE_OUT_OF_RANGE`; here the loop is empty. No mount leaves such a superblock: its
table has a sector. -/
def inodeScanPrint (u : UnixFilesystem) : Int × List InodeLine :=
  let inodeSectorStart := u.s.sInodeStart.toNat
  let inodeSectorEnd := u.s.sIsize.toNat + inodeSectorStart - 1
  emitAll (fun ret => ret ≠ errNone) errNone
    (fun k => emitAll stopsListing errNone (fun j => inodeScanSlot u (scannedInr k j))
      (List.range inodesPerSector))
    (List.range (inodeSectorEnd - inodeSectorStart))

/-- What `utils_print_shafile` prints behind the number of an inode. -/
inductive ShaText where
  /-- `DIR`. -/
  | directory
  /-- The digest of some bytes. -/
  | digest (hashed : List UInt8)
  /-- Nothing, since a block could not be read. -/
  | unread
deriving DecidableEq

/-- `%02x` of a byte. -/
def hexByte (byte : UInt8) : List Char :=
  [Nat.digitChar (byte.toNat / 16), Nat.digitChar (byte.toNat % 16)]

/-- `utils_print_SHA_buffer`: the text that it prints. -/
def utilsPrintSHABuffer (sha256 : List UInt8 → Vector UInt8 32) (hashed : List UInt8) : List Char :=
  (sha256 hashed).toList.flatMap hexByte ++ ['\n']

/-- What is printed behind the number of an inode, as text. -/
def ShaText.print (sha256 : List UInt8 → Vector UInt8 32) : ShaText → List Char
  | .directory => "DIR\n".toList
  | .digest hashed => utilsPrintSHABuffer sha256 hashed
  | .unread => []

/-- The loop of `utils_print_shafile`: blocks are read into the buffer until it is full, the file
ends or a block cannot be read. -/
def shafileBlocks (u : UnixFilesystem) (fv6 : Filev6) (buffer : Block utilsHashedLength)
    (sectorBytes : Nat) : Int × Block utilsHashedLength :=
  match filev6Readblock u fv6 with
  | (ret, fv6, block) =>
    if 0 < ret ∧ sectorBytes + sectorSize < utilsHashedLength then
      shafileBlocks u fv6 (buffer.splice sectorBytes block) (sectorBytes + sectorSize)
    else (ret, buffer.splice sectorBytes block)
termination_by utilsHashedLength - sectorBytes
decreasing_by
  have room : sectorBytes + sectorSize < utilsHashedLength := And.right ‹_›
  simp only [sectorSize, utilsHashedLength] at room ⊢
  omega

/-- `utils_print_shafile`. -/
def utilsPrintShafile (u : UnixFilesystem) (inr : UInt16) : Int × List (UInt16 × ShaText) :=
  match filev6Open u inr with
  | .error code => (code, [])
  | .ok fv6 =>
    if fv6.iNode.isDirectory then (errNone, [(inr, .directory)])
    else match shafileBlocks u fv6
        (Block.ofBytes utilsHashedLength
          (List.replicate 16 (u.f.host.stack u.f.time).bytes).flatten) 0 with
      | (ret, buffer) =>
        if ret < 0 then (ret, [(inr, .unread)])
        else (errNone,
          [(inr, .digest (buffer.bytes.take (min (inodeGetsize fv6.iNode) utilsHashedLength)))])

/-- The slots of a table sector that `utils_print_sha_allfiles` visits: slot 0 of the first sector
is left out. -/
def shaSlots (u : UnixFilesystem) (sectorNb : UInt16) : List Nat :=
  if sectorNb = u.s.sInodeStart then List.range' 1 (inodesPerSector - 1)
  else List.range' 0 inodesPerSector

/-- The number of a slot, counted in 16 bits. -/
def shaInr (u : UnixFilesystem) (sectorNb : UInt16) (inodeIndex : Nat) : UInt16 :=
  UInt16.ofNat (inodeIndex + (sectorNb - u.s.sInodeStart).toNat * inodesPerSector)

/-- The loop of `utils_print_sha_allfiles` from a table sector on. The sector number has 16 bits
and the bound has more. -/
def shaSectors (u : UnixFilesystem) : Nat → UInt16 → Option (Int × List (UInt16 × ShaText))
  | 0, _ => none
  | fuel + 1, sectorNb =>
    if sectorNb.toNat < u.s.sIsize.toNat + u.s.sInodeStart.toNat then
      match sectorRead u.f sectorNb.toNat with
      | .error errSector => some (errSector, [])
      | .ok _ =>
        match emitAll stopsListing errNone
            (fun inodeIndex => utilsPrintShafile u (shaInr u sectorNb inodeIndex))
            (shaSlots u sectorNb) with
        | (errPrint, lines) =>
          if errPrint ≠ errNone then some (errPrint, lines)
          else (shaSectors u fuel (sectorNb + 1)).map fun (code, rest) => (code, lines ++ rest)
    else some (errNone, [])

/-- `utils_print_sha_allfiles`. A table of more than 4096 sectors ends with an error at the first
number that wraps, so the fuel does not run out. -/
def utilsPrintShaAllfiles (u : UnixFilesystem) : Option (Int × List (UInt16 × ShaText)) :=
  shaSectors u 4098 u.s.sInodeStart

/-- The numbers that `utils_print_inode` prints, in order. -/
structure InodeText where
  /-- `i_mode`. -/
  iMode : Nat
  /-- `i_nlink`. -/
  iNlink : Nat
  /-- `i_uid`. -/
  iUid : Nat
  /-- `i_gid`. -/
  iGid : Nat
  /-- `i_size0`. -/
  iSize0 : Nat
  /-- `i_size1`. -/
  iSize1 : Nat
  /-- The size. -/
  size : Nat
deriving DecidableEq

/-- `utils_print_inode`. -/
def utilsPrintInode (inode : Inode) : InodeText where
  iMode := inode.iMode.toNat
  iNlink := inode.iNlink.toNat
  iUid := inode.iUid.toNat
  iGid := inode.iGid.toNat
  iSize0 := inode.iSize0.toNat
  iSize1 := inode.iSize1.toNat
  size := inodeGetsize inode

/-- What `utils_cat_first_sector` prints about an inode. -/
inductive CatText where
  /-- The file cannot be opened. -/
  | notOpened (inr : UInt16)
  /-- The inode, which is a directory. -/
  | directory (inr : UInt16) (text : InodeText)
  /-- The inode, and nothing of its first sector, which cannot be read. -/
  | unread (inr : UInt16) (text : InodeText)
  /-- The inode and the bytes of its first sector. -/
  | sector (inr : UInt16) (text : InodeText) (bytes : List UInt8)
deriving DecidableEq

/-- `utils_cat_first_sector`. -/
def utilsCatFirstSector (u : UnixFilesystem) (inr : UInt16) : Int × CatText :=
  match filev6Open u inr with
  | .error fileopen => (fileopen, .notOpened inr)
  | .ok f =>
    if f.iNode.isDirectory then (errNone, .directory inr (utilsPrintInode f.iNode))
    else match filev6Readblock u f with
      | (readblock, _, block) =>
        if readblock < 0 then (readblock, .unread inr (utilsPrintInode f.iNode))
        else (errNone,
          .sector inr (utilsPrintInode f.iNode) (block.take readblock.toNat))

/-- `utils_print_bitmaps`. -/
def utilsPrintBitmaps (u : UnixFilesystem) : Int × List Char :=
  (errNone, bmPrint "INODES".toList u.ibm ++ bmPrint "SECTORS".toList u.fbm)

end U6fs
