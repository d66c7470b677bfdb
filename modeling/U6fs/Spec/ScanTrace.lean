import U6fs.Lib.Loop
import U6fs.Mount

/-!
# The scan of a mount as it runs

`fill_bitmaps` and `write_sector_on_bitmap` with nothing that bounds the marking loop, with the
limits of the table in `size_t`, and with a record of the slots of `i_addr` and of the entries of
indirect sectors that they read. The functions are those of `mount.c`; no code reads the record.
-/
namespace U6fs

open Lib

/-- What the scan reads of an inode and of an indirect sector, and whom it calls. -/
inductive Access where
  /-- `i_addr[index]` is read. -/
  | addr (index : Int)
  /-- Two bytes of an indirect sector are read, from `offset` on. -/
  | entry (offset : Int)
  /-- `inode_findsector` is called. -/
  | findsector
deriving DecidableEq

/-- What a call of `inode_findsector` reads. -/
def findsectorAccesses (u : UnixFilesystem) (i : Inode) (fileSecOff : Int) : List Access :=
  .findsector ::
    if !i.isAllocated then []
    else
      let sizeTot := inodeGetsize i / sectorSize + 1
      if fileSecOff < 0 || fileSecOff ≥ sizeTot then []
      else if sizeTot ≤ smallFilesysSize then [.addr fileSecOff]
      else if sizeTot ≤ mediumFilesysSize then
        let sectorNb := fileSecOff.tdiv addressesPerSector
        let indexInSector := fileSecOff.tmod addressesPerSector
        .addr sectorNb ::
          match sectorRead u.f (i.iAddr.toList.getD sectorNb.toNat 0).toNat with
          | .error _ => []
          | .ok _ => [.entry (indexInSector * 2)]
      else []

/-- What the first loop of `write_sector_on_bitmap` reads. -/
def indirectAccesses (inode : Inode) : List Access :=
  let sizeTot := inodeGetsize inode / sectorSize + 1
  if sizeTot ≤ mediumFilesysSize then
    (List.range (sizeTot / addressesPerSector + 1)).map fun (indexIAddr : Nat) => .addr indexIAddr
  else []

/-- The marking loop of `write_sector_on_bitmap` between two turns. -/
structure Marking where
  /-- The file system. -/
  u : UnixFilesystem
  /-- What `inode_findsector` returned last. -/
  sIndexInode : Int
  /-- The offset to ask for next. -/
  sectorIndex : Nat
  /-- What was read so far. -/
  accesses : List Access

/-- A turn of the marking loop. -/
def markingTurn (inode : Inode) (m : Marking) : Turn Marking Marking :=
  if 0 ≤ m.sIndexInode then
    let u := { m.u with fbm := bmSet m.u.fbm m.sIndexInode.toNat }
    .again {
      u
      sIndexInode := inodeFindsector u inode m.sectorIndex
      sectorIndex := m.sectorIndex + 1
      accesses := m.accesses ++ findsectorAccesses u inode m.sectorIndex }
  else .stop m

/-- The marking loop as it is entered. -/
def markingStart (inode : Inode) (u : UnixFilesystem) : Marking :=
  let u := markIndirect inode u
  { u
    sIndexInode := inodeFindsector u inode 0
    sectorIndex := 0
    accesses := indirectAccesses inode ++ findsectorAccesses u inode 0 }

/-- `write_sector_on_bitmap`, when its loop stops within a number of turns: the code, the file
system and what was read. -/
def writeSectorRun (turns : Nat) (inode : Inode) (u : UnixFilesystem) :
    Option (Int × UnixFilesystem × List Access) :=
  (loop (markingTurn inode) turns (markingStart inode u)).map fun m =>
    (if m.sIndexInode ≠ errOffsetOutOfRange then m.sIndexInode else errNone, m.u, m.accesses)

/-- How `fill_bitmaps` is left from inside its loops. -/
inductive Left where
  /-- It is not left: a marking loop goes on. -/
  | running
  /-- It returns a code. -/
  | returned (code : Int) (u : UnixFilesystem) (accesses : List Access)

/-- The body of the inner loop of `fill_bitmaps`. -/
def fillSlotRun (turns k : Nat) (state : (UnixFilesystem × Bool) × List Access) (j : Nat) :
    Except Left ((UnixFilesystem × Bool) × List Access) :=
  let ((u, foundAUsedInode), accesses) := state
  let inr := scannedInr k j
  let (ret, myInode) := inodeRead u inr Inode.zero
  let used := ret ≠ errUnallocatedInode
  let u := if used then { u with ibm := bmSet u.ibm inr.toNat } else u
  if ret = errNone then
    match writeSectorRun turns myInode u with
    | none => .error .running
    | some (write, u, read) =>
      if write ≠ errNone then .error (.returned write u (accesses ++ read))
      else .ok ((u, foundAUsedInode || used), accesses ++ read)
  else if ret ≠ errUnallocatedInode then .error (.returned ret u accesses)
  else .ok ((u, foundAUsedInode || used), accesses)

/-- The body of the outer loop of `fill_bitmaps`. -/
def fillSectorRun (turns : Nat) (state : UnixFilesystem × List Access) (k : Nat) :
    Except Left (UnixFilesystem × List Access) := do
  let ((u, foundAUsedInode), accesses) ←
    (List.range inodesPerSector).foldlM (fillSlotRun turns k) ((state.1, false), state.2)
  .ok (if foundAUsedInode then
    { u with fbm := bmSet u.fbm (u.s.sInodeStart.toNat + k) } else u, accesses)

/-- The number of rounds of the outer loop: its limit `s_isize + s_inode_start - 1` is a
`size_t`, which wraps when both are 0. -/
def tableRounds (s : Superblock) : Nat :=
  let inodeSectorStart := s.sInodeStart.toNat
  let inodeSectorEnd := (2 ^ 64 + (s.sIsize.toNat + inodeSectorStart) - 1) % 2 ^ 64
  inodeSectorEnd - inodeSectorStart

/-- `fill_bitmaps`, when every marking loop stops within a number of turns: the code, the file
system and what was read. -/
def fillBitmapsRun (turns : Nat) (u : UnixFilesystem) :
    Option (Int × UnixFilesystem × List Access) :=
  match (List.range (tableRounds u.s)).foldlM (fillSectorRun turns) (u, []) with
  | .error .running => none
  | .error (.returned code u accesses) => some (code, u, accesses)
  | .ok (u, accesses) => some (errNone, u, accesses)

end U6fs
