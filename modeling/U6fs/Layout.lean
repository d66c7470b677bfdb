import Mathlib.Algebra.Group.Nat.Defs
import U6fs.Lib.Codec

/-!
# On-disk layout and error codes

The constants, error numbers and records of `unixv6fs.h` and `error.h`. Records are read and
written as the little-endian memory of the C structures, which the header checks to have no
padding.
-/
namespace U6fs

open Lib

/-- `SECTOR_SIZE`. -/
abbrev sectorSize : Nat := 512
/-- `ADDR_SMALL_LENGTH`. -/
abbrev addrSmallLength : Nat := 8
/-- `ADDRESSES_PER_SECTOR`. -/
abbrev addressesPerSector : Nat := 256
/-- `INODES_PER_SECTOR`. -/
abbrev inodesPerSector : Nat := 16
/-- `BOOTBLOCK_SECTOR`. -/
abbrev bootblockSector : Nat := 0
/-- `SUPERBLOCK_SECTOR`. -/
abbrev superblockSector : Nat := 1
/-- `ROOT_INUMBER`. -/
abbrev rootInumber : Nat := 1
/-- `DIRENT_MAXLEN`. -/
abbrev direntMaxlen : Nat := 14
/-- `DIRENTRIES_PER_SECTOR`. -/
abbrev direntriesPerSector : Nat := 32
/-- `SMALL_FILESYS_SIZE` of `inode.c`. -/
abbrev smallFilesysSize : Nat := 8
/-- `MEDIUM_FILESYS_SIZE` of `inode.c`, `filev6.c` and `mount.c`. -/
abbrev mediumFilesysSize : Nat := 7 * 256
/-- `PATH_TOKEN`, the byte `'/'`. -/
abbrev pathToken : UInt8 := 47
/-- `BOOTBLOCK_MAGIC_NUM`: octal 407 cut to a byte. -/
abbrev bootblockMagicNum : UInt8 := 7

/-- `ERR_NONE`. -/
abbrev errNone : Int := 0
/-- `ERR_NOMEM`. -/
abbrev errNomem : Int := -126
/-- `ERR_IO`. -/
abbrev errIo : Int := -125
/-- `ERR_BAD_BOOT_SECTOR`. -/
abbrev errBadBootSector : Int := -124
/-- `ERR_INODE_OUT_OF_RANGE`. -/
abbrev errInodeOutOfRange : Int := -123
/-- `ERR_FILENAME_TOO_LONG`. -/
abbrev errFilenameTooLong : Int := -122
/-- `ERR_INVALID_DIRECTORY_INODE`. -/
abbrev errInvalidDirectoryInode : Int := -121
/-- `ERR_UNALLOCATED_INODE`. -/
abbrev errUnallocatedInode : Int := -120
/-- `ERR_FILENAME_ALREADY_EXISTS`. -/
abbrev errFilenameAlreadyExists : Int := -119
/-- `ERR_BITMAP_FULL`. -/
abbrev errBitmapFull : Int := -118
/-- `ERR_FILE_TOO_LARGE`. -/
abbrev errFileTooLarge : Int := -117
/-- `ERR_OFFSET_OUT_OF_RANGE`. -/
abbrev errOffsetOutOfRange : Int := -116
/-- `ERR_BAD_PARAMETER`. -/
abbrev errBadParameter : Int := -115
/-- `ERR_NO_SUCH_FILE`. -/
abbrev errNoSuchFile : Int := -114

/-- The value an `int` holds after a conversion from a wider integer type. -/
def toInt32 (value : Int) : Int := Int.bmod value (2 ^ 32)

/-- Values an `int` can hold are converted to themselves. -/
theorem toInt32_of_small {value : Nat} (small : value < 2 ^ 31) : toInt32 value = value := by
  rw [toInt32, Int.bmod_def]
  omega

/-- One sector of 512 bytes. -/
abbrev Sector := Block sectorSize

/-- The fields of `struct superblock` that the code reads. -/
structure Superblock where
  /-- Size in sectors of the inodes. -/
  sIsize : UInt16
  /-- Size in sectors of entire volume. -/
  sFsize : UInt16
  /-- First sector with inodes. -/
  sInodeStart : UInt16
  /-- First sector with data. -/
  sBlockStart : UInt16
deriving DecidableEq

/-- The superblock held by a sector: eight 16-bit fields, of which the bitmap ones are unused. -/
def Superblock.ofSector (sector : Sector) : Superblock where
  sIsize := Codec.u16.get sector 0
  sFsize := Codec.u16.get sector 1
  sInodeStart := Codec.u16.get sector 4
  sBlockStart := Codec.u16.get sector 5

/-- `struct inode`. -/
structure Inode where
  /-- Valid, directory, permissions. -/
  iMode : UInt16
  /-- Unused by the code. -/
  iNlink : UInt8
  /-- Unused by the code. -/
  iUid : UInt8
  /-- Unused by the code. -/
  iGid : UInt8
  /-- Most significant bits of size. -/
  iSize0 : UInt8
  /-- Least significant bits of size. -/
  iSize1 : UInt16
  /-- Sector locations constituting file. -/
  iAddr : Vector UInt16 addrSmallLength
  /-- Unused by the code. -/
  iAtime : Vector UInt16 2
  /-- Unused by the code. -/
  iMtime : Vector UInt16 2
deriving DecidableEq

/-- The inode of 32 zero bytes. -/
def Inode.zero : Inode where
  iMode := 0
  iNlink := 0
  iUid := 0
  iGid := 0
  iSize0 := 0
  iSize1 := 0
  iAddr := Vector.replicate addrSmallLength 0
  iAtime := Vector.replicate 2 0
  iMtime := Vector.replicate 2 0

/-- The memory of `struct inode`, 32 bytes. -/
def inodeCodec : Codec Inode :=
  (Codec.u16.pair <| Codec.u8.pair <| Codec.u8.pair <| Codec.u8.pair <| Codec.u8.pair <|
    Codec.u16.pair <| (Codec.u16.array addrSmallLength).pair <|
      (Codec.u16.array 2).pair <| Codec.u16.array 2).map
    (fun (mode, nlink, uid, gid, size0, size1, addr, atime, mtime) =>
      ⟨mode, nlink, uid, gid, size0, size1, addr, atime, mtime⟩)
    (fun i => (i.iMode, i.iNlink, i.iUid, i.iGid, i.iSize0, i.iSize1, i.iAddr, i.iAtime, i.iMtime))
    (fun _ => rfl)

/-- The width that `unixfs_static_checks` requires of `struct inode`. -/
@[simp] theorem inodeCodec_width : inodeCodec.width = 32 := rfl

/-- `IALLOC`: file is used. -/
def Inode.isAllocated (inode : Inode) : Bool := inode.iMode &&& 0x8000 != 0

/-- `IFDIR`: directory. -/
def Inode.isDirectory (inode : Inode) : Bool := inode.iMode &&& 0x4000 != 0

/-- `inode_getsize`. -/
def inodeGetsize (inode : Inode) : Nat := (inode.iSize0.toNat <<< 16) ||| inode.iSize1.toNat

/-- The two size fields are the high and low digits of the size. -/
theorem inodeGetsize_eq (inode : Inode) :
    inodeGetsize inode = inode.iSize0.toNat * 65536 + inode.iSize1.toNat := by
  rw [inodeGetsize, ← Nat.shiftLeft_add_eq_or_of_lt inode.iSize1.toNat_lt, Nat.shiftLeft_eq]

/-- A size takes 24 bits. -/
theorem inodeGetsize_lt (inode : Inode) : inodeGetsize inode < 2 ^ 24 := by
  have high := inode.iSize0.toNat_lt
  have low := inode.iSize1.toNat_lt
  rw [inodeGetsize_eq]
  omega

/-- `struct direntv6`: an inode number and a name padded with NULs to 14 bytes. -/
structure Direntv6 where
  /-- Inode number. -/
  dInumber : UInt16
  /-- Name, not NUL-terminated when it has 14 characters. -/
  dName : Vector UInt8 direntMaxlen
deriving DecidableEq

/-- The memory of `struct direntv6`, 16 bytes. -/
def direntCodec : Codec Direntv6 :=
  (Codec.u16.pair (Codec.u8.array direntMaxlen)).map (fun (inumber, name) => ⟨inumber, name⟩)
    (fun d => (d.dInumber, d.dName)) (fun _ => rfl)

/-- The width that `unixfs_static_checks` requires of `struct direntv6`. -/
@[simp] theorem direntCodec_width : direntCodec.width = 16 := rfl

end U6fs
