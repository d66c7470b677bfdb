import U6fs.Lib.Ledger
import U6fs.Mount

/-!
# The resources of a mount

`mountv6` and `umountv6` with the disk file that they open and close and the bitmaps that they
allocate and free. `fopen` and `malloc` may fail. The functions are those of `mount.c`, exit by
exit; what the file system holds besides is left to `U6fs.Mount`.
-/
namespace U6fs

open Lib

/-- The pointers of `struct unix_filesystem`; the pointer to a closed file may stay. -/
structure Pointers where
  /-- The disk file. -/
  f : Option Nat
  /-- The block bitmap. -/
  fbm : Option Nat
  /-- The inode bitmap. -/
  ibm : Option Nat
deriving DecidableEq

/-- `memset` to 0. -/
def Pointers.null : Pointers := ⟨none, none, none⟩

/-- The resources of the process, and the file system that holds some of them. -/
structure Process where
  /-- Disk files that were opened. -/
  handles : Ledger
  /-- Bitmaps that were allocated. -/
  bitmaps : Ledger
  /-- The file system. -/
  u : Pointers
deriving DecidableEq

namespace Process

/-- The process before its first command. -/
def start : Process := ⟨.empty, .empty, .null⟩

/-- `u->f = fopen(filename, "rb+")`, when that succeeds. -/
def fopen (m : Process) : Process :=
  { m with handles := m.handles.acquire, u := { m.u with f := some m.handles.next } }

/-- `fclose(u->f)`. The file is closed also when `fclose` reports an error. -/
def fclose (m : Process) : Process :=
  match m.u.f with
  | none => m
  | some handle => { m with handles := m.handles.release handle }

/-- `bm_alloc`, when its `malloc` succeeds; the new bitmap is `m.bitmaps.next`. -/
def bmAlloc (m : Process) : Process := { m with bitmaps := m.bitmaps.acquire }

/-- `free` of a bitmap. -/
def free (m : Process) (bitmap : Nat) : Process := { m with bitmaps := m.bitmaps.release bitmap }

end Process

/-- A command of `u6fs` and what the host does with it. -/
structure Command where
  /-- The content of the disk file, if `fopen` opens it. -/
  file : Option Disk
  /-- `malloc` of the inode bitmap succeeds. -/
  mallocIbm : Bool
  /-- `malloc` of the sector bitmap succeeds. -/
  mallocFbm : Bool
  /-- The `fclose` of `umountv6` reports no error. -/
  closes : Bool

/-- `mountv6`: the code, and the process after it. -/
def mountv6Resources (c : Command) (m : Process) : Int × Process :=
  let m := { m with u := .null }
  match c.file with
  | none => (errIo, m)
  | some f =>
    let m := m.fopen
    match sectorRead f bootblockSector with
    | .error code => (code, m.fclose)
    | .ok table =>
      if table.bytes.headD 0 ≠ bootblockMagicNum then (errBadBootSector, m.fclose)
      else match sectorRead f superblockSector with
        | .error code => (code, m.fclose)
        | .ok superblock =>
          let s := Superblock.ofSector superblock
          match (bmAlloc rootInumber (s.sIsize.toNat * inodesPerSector)).filter
              fun _ => c.mallocIbm with
          | none => (errNomem, m.fclose)
          | some ibmArray =>
            let ibm := m.bitmaps.next
            let m := m.bmAlloc
            match (bmAlloc s.sBlockStart.toNat s.sFsize.toNat).filter fun _ => c.mallocFbm with
            | none => (errNomem, (m.free ibm).fclose)
            | some fbmArray =>
              let fbm := m.bitmaps.next
              let m := m.bmAlloc
              let m := { m with u := { m.u with ibm := some ibm, fbm := some fbm } }
              match fillBitmaps { f, s, fbm := fbmArray, ibm := ibmArray } with
              | .error fill =>
                let m := (m.free ibm).free fbm
                (fill, { m with u := { m.u with ibm := none, fbm := none } })
              | .ok _ => (errNone, m)

/-- `umountv6`. -/
def umountv6Resources (closes : Bool) (m : Process) : Int × Process :=
  match m.u.f with
  | none => (errIo, m)
  | some _ =>
    let m := m.fclose
    if !closes then (errIo, m)
    else
      let m := match m.u.ibm with
        | none => m
        | some ibm => m.free ibm
      let m := match m.u.fbm with
        | none => m
        | some fbm => m.free fbm
      (errNone, { m with u := .null })

/-- `u6fs_do_one_cmd`: every command calls `umountv6` once when its `mountv6` succeeds, whatever
comes between, and not at all when that fails. What comes between holds no disk file and no
bitmap. -/
def u6fsDoOneCmd (m : Process) (c : Command) : Process :=
  match mountv6Resources c m with
  | (error, m) => if error ≠ errNone then m else (umountv6Resources c.closes m).2

/-- The commands of a process, one after the other. -/
def runCommands (commands : List Command) (m : Process) : Process := commands.foldl u6fsDoOneCmd m

end U6fs
