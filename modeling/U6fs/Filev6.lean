import U6fs.Mount

/-!
# Files (`filev6.c`)

Opening, reading block by block, creating and appending. The writing functions change the file
system before they know that they succeed, so they return the state beside the code, whatever
the code is. They return `none` where C leaves the behaviour undefined: a store to `i_addr`
past its last slot.
-/
namespace U6fs

open Lib

/-- `struct filev6`; the file system it points to is an argument of its own. -/
structure Filev6 where
  /-- The inode number. -/
  iNumber : UInt16
  /-- The content of the inode. -/
  iNode : Inode
  /-- The current cursor within the file, in bytes. -/
  offset : Nat
deriving DecidableEq

/-- `filev6_open`. -/
def filev6Open (u : UnixFilesystem) (inr : UInt16) : Except Int Filev6 :=
  match inodeRead u inr Inode.zero with
  | (error, inode) =>
    if error ≠ errNone then .error error
    else .ok { iNumber := inr, iNode := inode, offset := 0 }

/-- `filev6_readblock`: the code, the file with its new offset, and the bytes stored. -/
def filev6Readblock (u : UnixFilesystem) (fv6 : Filev6) : Int × Filev6 × List UInt8 :=
  if fv6.offset = inodeGetsize fv6.iNode then (0, fv6, [])
  else if inodeFindsector u fv6.iNode (fv6.offset / sectorSize : Nat) < 0 then
    (inodeFindsector u fv6.iNode (fv6.offset / sectorSize : Nat), fv6, [])
  else match sectorRead u.f
      (inodeFindsector u fv6.iNode (fv6.offset / sectorSize : Nat)).toNat with
    | .error read => (read, fv6, [])
    | .ok sectorBuf =>
      if inodeGetsize fv6.iNode - fv6.offset ≤ sectorSize then
        ((inodeGetsize fv6.iNode - fv6.offset : Nat),
          { fv6 with offset := inodeGetsize fv6.iNode },
          sectorBuf.bytes.take (inodeGetsize fv6.iNode - fv6.offset))
      else
        (sectorSize, { fv6 with offset := fv6.offset + sectorSize }, sectorBuf.bytes)

/-- The inode that `filev6_create` stores: the one it is given, in use and with a new mode. -/
def Inode.created (inode : Inode) (mode : UInt16) : Inode := { inode with iMode := mode ||| 0x8000 }

/-- `filev6_lseek`: the code, and the file with its new offset. -/
def filev6Lseek (fv6 : Filev6) (offset : Int) : Int × Filev6 :=
  if offset > inodeGetsize fv6.iNode ∨ offset < 0 then (errOffsetOutOfRange, fv6)
  else if offset ≠ inodeGetsize fv6.iNode ∧ offset.tmod sectorSize ≠ 0 then
    (errBadParameter, fv6)
  else (errNone, { fv6 with offset := offset.toNat })

/-- `filev6_create`. -/
def filev6Create (u : UnixFilesystem) (mode : UInt16) (fv6 : Filev6) :
    Int × UnixFilesystem × Filev6 :=
  match inodeAlloc u with
  | (inr, u) =>
    if inr < 0 then (inr, u, fv6)
    else match inodeWrite u (UInt16.ofNat inr.toNat) (fv6.iNode.created mode) with
      | (write, u) =>
        (if write ≠ errNone then write else errNone, u,
          { iNumber := UInt16.ofNat inr.toNat, iNode := fv6.iNode.created mode, offset := 0 })

/-- `i_addr[index] = sector`. -/
def Inode.setAddr (inode : Inode) (index : Nat) (sector : UInt16) (slot : index < addrSmallLength) :
    Inode :=
  { inode with iAddr := inode.iAddr.set index sector slot }

/-- `filev6_writesector`: append one sector of content to a file of `fileSize` bytes. The buffer
`sector_bur` holds whatever the stack held, and the content at its start. -/
def filev6Writesector (u : UnixFilesystem) (fv6 : Filev6) (buf : List UInt8) (fileSize : Nat) :
    Option (Int × UnixFilesystem × Filev6) :=
  match bmFindNext u.fbm with
  | (freeSector, fbm) =>
    if freeSector < 0 then some (freeSector, { u with fbm }, fv6)
    else match sectorWrite .filev6Writesector u.f freeSector.toNat
        ((u.f.host.stack u.f.time).splice 0 buf) with
      | (err, f) =>
        if err < 0 then some (err, { u with fbm, f }, fv6)
        else match inodeSetsize fv6.iNode (toInt32 (fileSize + buf.length)) with
          | .error error => some (error, { u with fbm, f }, fv6)
          | .ok iNode =>
            if slot : inodeGetsize iNode / sectorSize < addrSmallLength then
              match inodeWrite { u with fbm, f } fv6.iNumber
                  (iNode.setAddr _ (UInt16.ofNat freeSector.toNat) slot) with
              | (error, u) =>
                some (error, u,
                  { fv6 with iNode := iNode.setAddr _ (UInt16.ofNat freeSector.toNat) slot })
            else none

/-- `filev6_writesector_residual`: fill up the last, partly used sector of a file. -/
def filev6WritesectorResidual (u : UnixFilesystem) (fv6 : Filev6) (buf : List UInt8)
    (sizeInSectors residual inodeSize : Nat) : Int × UnixFilesystem × Filev6 :=
  if inodeFindsector u fv6.iNode (sizeInSectors - 1 : Nat) < 0 then
    (inodeFindsector u fv6.iNode (sizeInSectors - 1 : Nat), u, fv6)
  else match sectorRead u.f (inodeFindsector u fv6.iNode (sizeInSectors - 1 : Nat)).toNat with
    | .error read => (read, u, fv6)
    | .ok buffer =>
      match sectorWrite .filev6WritesectorResidual u.f
          (inodeFindsector u fv6.iNode (sizeInSectors - 1 : Nat)).toNat
          (buffer.splice residual buf) with
      | (write, f) =>
        if write < 0 then (write, { u with f }, fv6)
        else match inodeSetsize fv6.iNode (toInt32 (inodeSize + buf.length)) with
          | .error set =>
            match inodeWrite { u with f } fv6.iNumber fv6.iNode with
            | (_, u) => (set, u, fv6)
          | .ok iNode =>
            match inodeWrite { u with f } fv6.iNumber iNode with
            | (_, u) => (errNone, u, { fv6 with iNode })

/-- `min_size`: a whole sector, or what is left of the buffer. -/
def writebytesMinSize (toWriteTotal : Int) : Nat :=
  if toWriteTotal > sectorSize then sectorSize else toWriteTotal.toNat

/-- The loop of `filev6_writebytes`, which appends what is left of the buffer sector by sector.
Every round takes a byte at least, so the fuel given below never runs out. -/
def writebytesLoop (inodeSize : Nat) (buf : List UInt8) :
    Nat → UnixFilesystem → Filev6 → Int → Nat → Option (Int × UnixFilesystem × Filev6)
  | 0, u, fv6, _, _ => some (errNone, u, fv6)
  | fuel + 1, u, fv6, toWriteTotal, written =>
    if 0 < toWriteTotal then
      match filev6Writesector u fv6 (window buf written (writebytesMinSize toWriteTotal))
          (inodeSize + written) with
      | none => none
      | some (writeSec, u, fv6) =>
        if writeSec < 0 then some (writeSec, u, fv6)
        else writebytesLoop inodeSize buf fuel u fv6
          (toWriteTotal - writebytesMinSize toWriteTotal)
          (written + writebytesMinSize toWriteTotal)
    else some (errNone, u, fv6)

/-- `to_write_small_sector`: how much of a buffer goes into the rest of the last sector. -/
def toWriteSmallSector (inodeSize len : Nat) : Nat :=
  if sectorSize - inodeSize % sectorSize > len then len else sectorSize - inodeSize % sectorSize

/-- `to_write_total -= to_write_small_sector` leaves the range of `int`, which is undefined. -/
def TotalUnderflows (inodeSize len : Nat) : Prop :=
  toInt32 len - toWriteSmallSector inodeSize len < -2 ^ 31

instance (inodeSize len : Nat) : Decidable (TotalUnderflows inodeSize len) :=
  inferInstanceAs (Decidable (_ < _))

/-- It stays there for the length of every buffer below 2 GiB. -/
theorem not_totalUnderflows {inodeSize len : Nat} (short : len < 2 ^ 31) :
    ¬TotalUnderflows inodeSize len := by
  rw [TotalUnderflows, toInt32_of_small short, toWriteSmallSector]
  split <;> omega

/-- `filev6_writebytes`; `len` is the length of the buffer. The code that
`filev6_writesector_residual` returns is not looked at. -/
def filev6Writebytes (u : UnixFilesystem) (fv6 : Filev6) (buf : List UInt8) :
    Option (Int × UnixFilesystem × Filev6) :=
  if inodeGetsize fv6.iNode / sectorSize + 1 > mediumFilesysSize then
    some (errFileTooLarge, u, fv6)
  else if inodeGetsize fv6.iNode % sectorSize ≠ 0 then
    match filev6WritesectorResidual u fv6
        (buf.take (toWriteSmallSector (inodeGetsize fv6.iNode) buf.length))
        (inodeGetsize fv6.iNode / sectorSize + 1) (inodeGetsize fv6.iNode % sectorSize)
        (inodeGetsize fv6.iNode) with
    | (_, u', fv6') =>
      if TotalUnderflows (inodeGetsize fv6.iNode) buf.length then none
      else writebytesLoop (inodeGetsize fv6.iNode) buf buf.length u' fv6'
        (toInt32 buf.length - toWriteSmallSector (inodeGetsize fv6.iNode) buf.length)
        (toWriteSmallSector (inodeGetsize fv6.iNode) buf.length)
  else writebytesLoop (inodeGetsize fv6.iNode) buf buf.length u fv6 (toInt32 buf.length) 0

end U6fs
