import U6fs.Direntv6

/-!
# Reading through FUSE (`u6fs_fuse.c`)

`fs_getattr` and `fs_readdir` look a path up and give out what its inode and its records say; the
filler that takes the names is a machine of its caller, which may refuse any of them. `fs_read`
copies a part of the file that a path leads to into the buffer of its caller. The buffer
is the list of the bytes copied so far: every `memcpy` goes behind the one before it, at
`cur_offset_in_buffer`, which counts the bytes copied. Reading past the end of the sector buffer is
undefined, as is what `none` stands for elsewhere.
-/
namespace U6fs

open Lib

/-- The value a `size_t` holds after a conversion from a signed integer type. -/
def toSizeT (value : Int) : Nat := (value % 2 ^ 64).toNat

/-- `copied_size`: what is read of a block, or what is left to copy. -/
def copiedSize (size sizeCopied readblock : Nat) : Nat :=
  if size - sizeCopied < readblock then size - sizeCopied else readblock

/-- The loop of `fs_read`; `buf` has what was copied. It reads a block before it looks at what is
left to copy. -/
def fsReadLoop (u : UnixFilesystem) (size : Nat) :
    Nat → Filev6 → Sector → Nat → List UInt8 → Option (Int × List UInt8)
  | 0, _, _, _, _ => none
  | fuel + 1, f, sector, curOffsetInSector, buf =>
    match filev6Readblock u f with
    | (readblock, f, block) =>
      if 0 < readblock ∧ buf.length < size then
        if curOffsetInSector + copiedSize size buf.length readblock.toNat ≤ sectorSize then
          fsReadLoop u size fuel f (sector.splice 0 block) 0
            (buf ++ window (sector.splice 0 block).bytes curOffsetInSector
              (copiedSize size buf.length readblock.toNat))
        else none
      else if readblock < 0 then some (readblock, buf)
      else some (toInt32 buf.length, buf)

/-- `fs_read`, with the bytes that it copies into the buffer of `size` bytes. Every round but the
last reads a block, so the fuel never runs out. -/
def fsRead (u : UnixFilesystem) (path : List UInt8) (size : Nat) (offset : Int) :
    Option (Int × List UInt8) :=
  match direntv6Dirlookup u rootInumber.toUInt16 path with
  | none => none
  | some inr =>
    if inr < 0 then some (inr, [])
    else match filev6Open u (UInt16.ofNat inr.toNat) with
      | .error fileopen => some (fileopen, [])
      | .ok f =>
        match filev6Lseek f (toInt32 offset) with
        | (err, f) =>
          if err < 0 then some (err, [])
          else fsReadLoop u size (inodeGetsize f.iNode / sectorSize + 2) f
            (u.f.host.stack u.f.time) (toSizeT (offset.tmod sectorSize)) []

/-- The calls of `fs_read` that read a file in chunks, each from where the one before it stopped,
until one returns no bytes: what each of them returns and copies. -/
def readChunks (u : UnixFilesystem) (path : List UInt8) (chunk : Nat) :
    Nat → Int → Option (List (Int × List UInt8))
  | 0, _ => none
  | fuel + 1, offset =>
    match fsRead u path chunk offset with
    | none => none
    | some (ret, buf) =>
      if ret ≤ 0 then some [(ret, buf)]
      else (readChunks u path chunk fuel (offset + ret)).map ((ret, buf) :: ·)

/-- The fields of `struct stat` that `fs_getattr` fills. -/
structure Stat where
  /-- Inode number. -/
  stIno : Nat
  /-- Number of links. -/
  stNlink : Nat
  /-- User. -/
  stUid : Nat
  /-- Group. -/
  stGid : Nat
  /-- Size in bytes. -/
  stSize : Int
  /-- Size of a block. -/
  stBlksize : Nat
  /-- Number of blocks. -/
  stBlocks : Int
  /-- Kind of file and rights. -/
  stMode : Nat
deriving DecidableEq

/-- `S_IFDIR`. -/
abbrev sIfdir : Nat := 0o040000
/-- `S_IFREG`. -/
abbrev sIfreg : Nat := 0o100000
/-- `S_IRWXU | S_IRGRP | S_IXGRP | S_IROTH | S_IXOTH`. -/
abbrev statRights : Nat := 0o755

/-- What `fs_getattr` stores about an inode. -/
def Stat.ofInode (inr : Int) (inode : Inode) : Stat where
  stIno := inr.toNat
  stNlink := inode.iNlink.toNat
  stUid := inode.iUid.toNat
  stGid := inode.iGid.toNat
  stSize := inodeGetsize inode
  stBlksize := sectorSize
  stBlocks := ((inodeGetsize inode : Int) - 1).tdiv sectorSize + 1
  stMode := statRights ||| if inode.isDirectory then sIfdir else sIfreg

/-- `fs_getattr`: the code, and what it stores when it succeeds. -/
def fsGetattr (u : UnixFilesystem) (path : List UInt8) : Option (Int × Option Stat) :=
  match direntv6Dirlookup u rootInumber.toUInt16 path with
  | none => none
  | some inr =>
    if inr < 0 then some (inr, none)
    else match inodeRead u (UInt16.ofNat inr.toNat) Inode.zero with
      | (errInode, inode) =>
        if errInode ≠ errNone then some (errInode, none)
        else some (errNone, some (.ofInode inr inode))

section Readdir

variable {σ : Type} (u : UnixFilesystem) (filler : σ → List UInt8 → Int × σ)

/-- The end of `fs_readdir`: unless the enumeration failed, `.` and `..` are filled in. -/
def fsReaddirEnd (read : Int) (buf : σ) : Int × σ :=
  if read < 0 then (read, buf)
  else match filler buf [46] with
    | (ret, buf) =>
      if ret ≠ 0 then (errNomem, buf)
      else match filler buf [46, 46] with
        | (ret, buf) => (if ret ≠ 0 then errNomem else errNone, buf)

/-- The loop of `fs_readdir`, from the result of a `direntv6_readdir` on. -/
def fsReaddirLoop : Nat → Readdir → σ → Option (Int × σ)
  | _, .done _ read, buf => some (fsReaddirEnd filler read buf)
  | 0, .entry .., _ => none
  | fuel + 1, .entry d name _, buf =>
    match filler buf name with
    | (fill, buf) =>
      if fill ≠ 0 then some (errNomem, buf)
      else match direntv6Readdir u d with
        | none => none
        | some next => fsReaddirLoop fuel next buf

/-- `fs_readdir`: the code, and the buffer as the filler leaves it; `calloc` is taken to succeed.
Every round takes a record, so the fuel never runs out. -/
def fsReaddir (path : List UInt8) (buf : σ) : Option (Int × σ) :=
  match direntv6Dirlookup u rootInumber.toUInt16 path with
  | none => none
  | some inr =>
    if inr < 0 then some (inr, buf)
    else match direntv6Opendir u (UInt16.ofNat inr.toNat) (u.f.host.stack u.f.time) with
      | .error code => some (code, buf)
      | .ok d =>
        match direntv6Readdir u d with
        | none => none
        | some first => fsReaddirLoop u filler (readdirBound d) first buf

end Readdir

end U6fs
