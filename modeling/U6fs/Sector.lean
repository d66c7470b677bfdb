import U6fs.Layout

/-!
# The disk file and its sectors (`sector.c`)

A disk is the content of the file that holds the volume. Reads and writes of a sector may be
made to fail by the host, at any time and for any sector; the time is the number of sectors
written so far. The log of written sectors is a ghost: no code reads it.
-/
namespace U6fs

open Lib

/-- The functions that call `sector_write`. -/
inductive Writer where
  /-- `inode_write`. -/
  | inodeWrite
  /-- `filev6_writesector`. -/
  | filev6Writesector
  /-- `filev6_writesector_residual`. -/
  | filev6WritesectorResidual
deriving DecidableEq

/-- What the code does not control: failing transfers, by time and sector number, and the
bytes found at a given time in a sector buffer that the code does not initialise. -/
structure Host where
  /-- `fseek` to the sector fails before a read. -/
  seekFails : Nat → Nat → Bool
  /-- `fread` of the sector comes short. -/
  freadFails : Nat → Nat → Bool
  /-- `fseek` to the sector fails before a write. -/
  seekWriteFails : Nat → Nat → Bool
  /-- `fwrite` of the sector comes short. -/
  fwriteFails : Nat → Nat → Bool
  /-- Initial bytes of the buffer `sector_bur` of `filev6_writesector`. -/
  stack : Nat → Sector

/-- A host on which every transfer works. -/
structure Host.Faultless (host : Host) : Prop where
  /-- Every seek before a read succeeds. -/
  seek : ∀ time sector, host.seekFails time sector = false
  /-- Every read inside the file succeeds. -/
  read : ∀ time sector, host.freadFails time sector = false
  /-- Every seek before a write succeeds. -/
  seekWrite : ∀ time sector, host.seekWriteFails time sector = false
  /-- Every write succeeds. -/
  write : ∀ time sector, host.fwriteFails time sector = false

/-- The disk file, cut into whole sectors and the bytes after the last whole one. -/
structure Disk where
  /-- Whole sectors in file order. -/
  sectors : List Sector
  /-- Bytes after the last whole sector. -/
  tail : List UInt8
  /-- The tail is no whole sector. -/
  short : tail.length < sectorSize
  /-- Sectors written so far, the latest first. -/
  log : List (Writer × Nat)
  /-- The machine the code runs on. -/
  host : Host

namespace Disk

/-- The number of sectors written so far. -/
def time (f : Disk) : Nat := f.log.length

/-- The sectors before sector `n`, after the file has been extended with zeros where it ends
before that sector. -/
def padded (f : Disk) (n : Nat) : List Sector :=
  if n ≤ f.sectors.length then f.sectors.take n
  else f.sectors ++ Block.ofBytes sectorSize f.tail ::
    List.replicate (n - f.sectors.length - 1) (Block.fill sectorSize 0)

/-- The file with sector `n` overwritten; a write past the end extends the file. -/
def overwrite (f : Disk) (n : Nat) (data : Sector) : Disk where
  sectors := f.padded n ++ data :: f.sectors.drop (n + 1)
  tail := if n < f.sectors.length then f.tail else []
  short := by
    have := f.short
    split <;> simp_all
  log := f.log
  host := f.host

/-- The padding before sector `n` has `n` sectors. -/
@[simp] theorem padded_length (f : Disk) (n : Nat) : (f.padded n).length = n := by
  unfold padded
  split
  · simp only [List.length_take]
    omega
  · simp only [List.length_append, List.length_cons, List.length_replicate]
    omega

/-- The overwritten sector holds the data. -/
theorem overwrite_same (f : Disk) (n : Nat) (data : Sector) :
    (f.overwrite n data).sectors[n]? = some data := by
  simp [overwrite]

/-- Other sectors of the file are as before. -/
theorem overwrite_other (f : Disk) {n m : Nat} (data : Sector) (other : m ≠ n)
    (inside : m < f.sectors.length) :
    (f.overwrite n data).sectors[m]? = f.sectors[m]? := by
  simp only [overwrite, List.getElem?_append, padded_length]
  split_ifs with before
  · unfold padded
    split
    · rw [List.getElem?_take, if_pos before]
    · rw [List.getElem?_append_left inside]
  · rw [List.getElem?_cons, if_neg (by omega), List.getElem?_drop]
    congr 1
    omega

/-- Only a write past the end changes the number of whole sectors. -/
theorem overwrite_length (f : Disk) (n : Nat) (data : Sector) :
    (f.overwrite n data).sectors.length = max f.sectors.length (n + 1) := by
  simp only [overwrite, List.length_append, padded_length, List.length_cons, List.length_drop]
  omega

end Disk

/-- `sector_read`: the sector, or the error code. The offset `sector * 512` never wraps for the
sector numbers that the code computes from 16-bit fields. -/
def sectorRead (f : Disk) (sector : Nat) : Except Int Sector :=
  if f.host.seekFails f.time sector || f.host.freadFails f.time sector then .error errIo
  else match f.sectors[sector]? with
    | some data => .ok data
    | none => .error errIo

/-- `sector_write`, called by `writer`. The result of `fwrite` is not looked at. -/
def sectorWrite (writer : Writer) (f : Disk) (sector : Nat) (data : Sector) : Int × Disk :=
  if f.host.seekWriteFails f.time sector then (errIo, f)
  else
    let written := if f.host.fwriteFails f.time sector then f else f.overwrite sector data
    (errNone, { written with log := (writer, sector) :: f.log })

/-- A successful read returns the sector of the file. -/
theorem sectorRead_ok {f : Disk} {sector : Nat} {data : Sector}
    (read : sectorRead f sector = .ok data) : f.sectors[sector]? = some data := by
  unfold sectorRead at read
  split at read
  · contradiction
  · split at read
    · cases read
      assumption
    · contradiction

/-- The only error of a read is `ERR_IO`. -/
theorem sectorRead_error {f : Disk} {sector : Nat} {code : Int}
    (read : sectorRead f sector = .error code) : code = errIo := by
  unfold sectorRead at read
  split at read
  · cases read
    rfl
  · split at read
    · contradiction
    · cases read
      rfl

/-- On a working host a sector of the file is read. -/
theorem sectorRead_faultless {f : Disk} (works : f.host.Faultless) (sector : Nat) :
    sectorRead f sector = match f.sectors[sector]? with
      | some data => .ok data
      | none => .error errIo := by
  simp [sectorRead, works.seek, works.read]

/-- On a working host a write overwrites the sector and reports success. -/
theorem sectorWrite_faultless {f : Disk} (works : f.host.Faultless) (writer : Writer)
    (sector : Nat) (data : Sector) :
    sectorWrite writer f sector data =
      (errNone, { f.overwrite sector data with log := (writer, sector) :: f.log }) := by
  simp [sectorWrite, works.seekWrite, works.write]

end U6fs
