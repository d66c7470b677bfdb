import U6fs.Verif.OtherMachine
import U6fs.Verif.Growth

/-!
# A machine that stops

A machine works up to some time, and from then on no write has an effect, whatever the code is told.
A call on it does the same as on a machine that works, or the disk file is as it was between two of
the writes that the call does there. A call that appends to a file writes a sector of content and
then an inode; between them the disk file has the new content and the old inode.
-/
namespace U6fs

open Lib

/-- The host works before a time, and loses all writes from then on. What is read after that reaches
no disk file, so reads work at all times. -/
structure Host.StopsAt (host : Host) (k : Nat) : Prop where
  /-- Reads work. -/
  reads : ∀ time x, host.seekFails time x = false ∧ host.freadFails time x = false
  /-- Writes work before. -/
  writes : ∀ time < k, ∀ x, host.seekWriteFails time x = false ∧ host.fwriteFails time x = false
  /-- From then on a write fails, or is lost without notice. -/
  lost : ∀ time ≥ k, ∀ x, host.seekWriteFails time x = true ∨ host.fwriteFails time x = true

/-- The host, when nothing fails. -/
def Host.repaired (host : Host) : Host where
  seekFails _ _ := false
  freadFails _ _ := false
  seekWriteFails _ _ := false
  fwriteFails _ _ := false
  stack := host.stack

/-- Nothing fails. -/
theorem Host.repaired_faultless (host : Host) : host.repaired.Faultless :=
  ⟨fun _ _ => rfl, fun _ _ => rfl, fun _ _ => rfl, fun _ _ => rfl⟩

/-- The same disk file on another host. -/
def Disk.on (f : Disk) (host : Host) : Disk := { f with host }

/-- The same volume on another host. -/
def UnixFilesystem.on (u : UnixFilesystem) (host : Host) : UnixFilesystem :=
  { u with f := u.f.on host }

/-- Disk files that some writes make of a disk file. -/
inductive Writes (f : Disk) : Disk → Prop
  /-- Nothing was written. -/
  | none : Writes f f
  /-- One sector more was written. -/
  | more {f' : Disk} (before : Writes f f') (writer : Writer) (x : Nat) (data : Sector) :
    Writes f (sectorWrite writer f' x data).2

/-- A write does not change the host. -/
theorem sectorWrite_host (writer : Writer) (f : Disk) (x : Nat) (data : Sector) :
    (sectorWrite writer f x data).2.host = f.host := by
  rw [sectorWrite]
  split_ifs <;> rfl

namespace Writes

variable {f f' f'' : Disk}

/-- Some writes after others. -/
theorem trans (first : Writes f f') (second : Writes f' f'') : Writes f f'' := by
  induction second with
  | none => exact first
  | more _ writer x data ih => exact ih.more writer x data

/-- Writes do not change the host. -/
theorem host (writes : Writes f f') : f'.host = f.host := by
  induction writes with
  | none => rfl
  | more _ writer x data ih => rw [sectorWrite_host, ih]

end Writes

/-- What a call does to a volume besides its bitmaps: it writes sectors. -/
structure Touches (u u' : UnixFilesystem) : Prop where
  /-- The disk file. -/
  disk : Writes u.f u'.f
  /-- The superblock. -/
  s : u'.s = u.s

namespace Touches

/-- A call that writes nothing. -/
theorem nothing {u u' : UnixFilesystem} (f : u'.f = u.f) (s : u'.s = u.s) : Touches u u' := by
  refine ⟨?_, s⟩
  rw [f]
  exact .none

/-- A call after another. -/
theorem trans {u u' u'' : UnixFilesystem} (first : Touches u u') (second : Touches u' u'') :
    Touches u u'' :=
  ⟨first.disk.trans second.disk, second.s.trans first.s⟩

end Touches

section Functions

variable {u u' : UnixFilesystem}

/-- `inode_write` writes sectors. -/
theorem inodeWrite_touches (u : UnixFilesystem) (inr : UInt16) (inode : Inode) :
    Touches u (inodeWrite u inr inode).2 := by
  rw [inodeWrite]
  split
  · exact .nothing rfl rfl
  · split
    · exact .nothing rfl rfl
    · exact ⟨.more .none _ _ _, rfl⟩

/-- `filev6_writesector` does. -/
theorem filev6Writesector_touches {fv6 fv6' : Filev6} {buf : List UInt8} {fileSize : Nat}
    {code : Int} (run : filev6Writesector u fv6 buf fileSize = some (code, u', fv6')) :
    Touches u u' := by
  rw [filev6Writesector] at run
  split at run
  rename_i freeSector fbm _
  split_ifs at run with full
  · cases run
    exact .nothing rfl rfl
  · have first : Writes u.f (sectorWrite .filev6Writesector u.f freeSector.toNat
        ((u.f.host.stack u.f.time).splice 0 buf)).2 := .more .none _ _ _
    split at run
    rename_i err f written
    rw [written] at first
    have sector : Touches u { u with fbm, f } := ⟨first, rfl⟩
    split_ifs at run with failed
    · cases run
      exact sector
    · split at run
      · cases run
        exact sector
      · rename_i iNode _
        split_ifs at run with slot
        have second := inodeWrite_touches { u with fbm, f } fv6.iNumber
          (iNode.setAddr _ (UInt16.ofNat freeSector.toNat) slot)
        cases run
        exact sector.trans second

/-- `filev6_writesector_residual` does. -/
theorem filev6WritesectorResidual_touches (fv6 : Filev6) (buf : List UInt8)
    (sizeInSectors residual inodeSize : Nat) :
    Touches u (filev6WritesectorResidual u fv6 buf sizeInSectors residual inodeSize).2.1 := by
  rw [filev6WritesectorResidual]
  split_ifs with missing
  · exact .nothing rfl rfl
  · split
    · exact .nothing rfl rfl
    · rename_i buffer _
      have first : Writes u.f (sectorWrite .filev6WritesectorResidual u.f
          (inodeFindsector u fv6.iNode (sizeInSectors - 1 : Nat)).toNat
          (buffer.splice residual buf)).2 := .more .none _ _ _
      split
      rename_i write f written
      rw [written] at first
      have sector : Touches u { u with f } := ⟨first, rfl⟩
      split_ifs with failed
      · exact sector
      · split
        · exact sector.trans (inodeWrite_touches { u with f } fv6.iNumber fv6.iNode)
        · rename_i iNode _
          exact sector.trans (inodeWrite_touches { u with f } fv6.iNumber iNode)

/-- The loop of `filev6_writebytes` does. -/
theorem writebytesLoop_touches {inodeSize : Nat} {buf : List UInt8} (fuel : Nat) :
    ∀ {u u' : UnixFilesystem} {fv6 fv6' : Filev6} {left : Int} {written : Nat} {code : Int},
      writebytesLoop inodeSize buf fuel u fv6 left written = some (code, u', fv6') →
        Touches u u' := by
  induction fuel with
  | zero =>
    intro u u' fv6 fv6' left written code run
    cases run
    exact .nothing rfl rfl
  | succ fuel ih =>
    intro u u' fv6 fv6' left written code run
    rw [writebytesLoop] at run
    split_ifs at run with more
    · split at run
      · cases run
      · rename_i round
        have first := filev6Writesector_touches round
        split_ifs at run with failed
        · cases run
          exact first
        · exact first.trans (ih run)
    · cases run
      exact .nothing rfl rfl

/-- `filev6_writebytes` does. -/
theorem filev6Writebytes_touches {fv6 fv6' : Filev6} {buf : List UInt8} {code : Int}
    (run : filev6Writebytes u fv6 buf = some (code, u', fv6')) : Touches u u' := by
  rw [filev6Writebytes] at run
  split_ifs at run with large residual underflows
  · cases run
    exact .nothing rfl rfl
  · have first := @filev6WritesectorResidual_touches u fv6
      (buf.take (toWriteSmallSector (inodeGetsize fv6.iNode) buf.length))
      (inodeGetsize fv6.iNode / sectorSize + 1) (inodeGetsize fv6.iNode % sectorSize)
      (inodeGetsize fv6.iNode)
    split at run
    rename_i filled
    rw [filled] at first
    exact first.trans (writebytesLoop_touches _ run)
  · exact writebytesLoop_touches _ run

/-- `filev6_create` does. -/
theorem filev6Create_touches (u : UnixFilesystem) (mode : UInt16) (fv6 : Filev6) :
    Touches u (filev6Create u mode fv6).2.1 := by
  have first : Touches u (inodeAlloc u).2 := by
    unfold inodeAlloc
    simp only
    split <;> exact .nothing rfl rfl
  rw [filev6Create]
  by_cases full : (inodeAlloc u).1 < 0
  · simp only [if_pos full]
    exact first
  · simp only [if_neg full]
    exact first.trans (inodeWrite_touches _ _ _)

/-- `create_dirent` does, after its `filev6_create`. -/
theorem createDirent_touches {mode parent : UInt16} {name : List UInt8} {code : Int}
    (run : createDirent u mode name parent = some (code, u')) :
    Touches (filev6Create u mode { iNumber := 0, iNode := Inode.zero, offset := 0 }).2.1 u' := by
  rw [createDirent] at run
  split at run
  rename_i created
  rw [created]
  split_ifs at run with failed
  · cases run
    exact .nothing rfl rfl
  · split at run
    · cases run
    · split at run
      · cases run
        exact .nothing rfl rfl
      · split at run
        · cases run
        · rename_i wrote
          have rest := filev6Writebytes_touches wrote
          split_ifs at run with short
          · cases run
            exact rest
          · cases run
            exact rest

/-- `direntv6_create` does. -/
theorem direntv6Create_touches {entry : List UInt8} {mode : UInt16} {code : Int}
    (run : direntv6Create u entry mode = some (code, u')) : Touches u u' := by
  rw [direntv6Create_eq] at run
  split at run
  · cases run
  · cases run
    exact .nothing rfl rfl
  · exact (filev6Create_touches u mode _).trans (createDirent_touches run)

/-- `direntv6_addfile` does, after its `direntv6_create`. -/
theorem direntv6Addfile_touches {entry buf : List UInt8} {mode : UInt16} {code : Int}
    (run : direntv6Addfile u entry mode buf = some (code, u')) :
    ∃ inr u₁, direntv6Create u entry mode = some (inr, u₁) ∧ Touches u₁ u' := by
  rw [direntv6Addfile] at run
  split at run
  · cases run
  · rename_i inr u₁ created
    refine ⟨inr, u₁, created, ?_⟩
    split_ifs at run with failed
    · cases run
      exact .nothing rfl rfl
    · simp only at run
      split_ifs at run with unread
      · cases run
        exact .nothing rfl rfl
      · split at run
        · cases run
          exact .nothing rfl rfl
        · split at run
          · cases run
          · rename_i wrote
            cases run
            exact filev6Writebytes_touches wrote

end Functions

section SingleSector

variable (u : UnixFilesystem) {fv6 : Filev6} {buf : List UInt8}

/-- With nothing left to write, the loop of `filev6_writebytes` ends. -/
theorem writebytesLoop_zero (inodeSize : Nat) (buf : List UInt8) (fuel : Nat) (fv6 : Filev6)
    (written : Nat) :
    writebytesLoop inodeSize buf fuel u fv6 0 written = some (errNone, u, fv6) := by
  cases fuel with
  | zero => rfl
  | succ fuel => rw [writebytesLoop, if_neg (Int.lt_irrefl 0)]

/-- Bytes for which the last sector has room go there, and the loop has none left. -/
theorem filev6Writebytes_fills (residual : inodeGetsize fv6.iNode % 512 ≠ 0)
    (short : buf.length < 512) (room : inodeGetsize fv6.iNode % 512 + buf.length ≤ 512)
    (small : inodeGetsize fv6.iNode + buf.length < 4096) :
    filev6Writebytes u fv6 buf =
      match filev6WritesectorResidual u fv6 buf (inodeGetsize fv6.iNode / sectorSize + 1)
        (inodeGetsize fv6.iNode % sectorSize) (inodeGetsize fv6.iNode) with
      | (_, u, fv6) => some (errNone, u, fv6) := by
  have length : toInt32 buf.length = buf.length := toInt32_of_small (by omega)
  have fits : ¬inodeGetsize fv6.iNode / sectorSize + 1 > mediumFilesysSize := by
    rw [sectorSize, mediumFilesysSize]
    omega
  have all : toWriteSmallSector (inodeGetsize fv6.iNode) buf.length = buf.length := by
    rw [toWriteSmallSector]
    split
    · rfl
    · rename_i tight
      rw [sectorSize] at tight ⊢
      omega
  have defined : ¬TotalUnderflows (inodeGetsize fv6.iNode) buf.length :=
    not_totalUnderflows (by omega)
  rw [filev6Writebytes, if_neg fits, if_pos residual, all, List.take_length, length, Int.sub_self]
  simp only [if_neg defined, writebytesLoop_zero]

/-- Bytes that start a sector go into a free one, in the only round of the loop. -/
theorem filev6Writebytes_takes (whole : inodeGetsize fv6.iNode % 512 = 0) (more : buf ≠ [])
    (short : buf.length < 512) (small : inodeGetsize fv6.iNode + buf.length < 4096) :
    filev6Writebytes u fv6 buf =
      (filev6Writesector u fv6 buf (inodeGetsize fv6.iNode)).map fun (writeSec, u, fv6) =>
        (if writeSec < 0 then writeSec else errNone, u, fv6) := by
  have length : toInt32 buf.length = buf.length := toInt32_of_small (by omega)
  have fits : ¬inodeGetsize fv6.iNode / sectorSize + 1 > mediumFilesysSize := by
    rw [sectorSize, mediumFilesysSize]
    omega
  obtain ⟨rest, rounds⟩ : ∃ rest, buf.length = rest + 1 :=
    Nat.exists_eq_succ_of_ne_zero (List.length_pos_of_ne_nil more).ne'
  have size : writebytesMinSize (buf.length : Int) = buf.length := by
    rw [writebytesMinSize_eq]
    omega
  have all : window buf 0 buf.length = buf := by
    rw [window, List.drop_zero, List.take_length]
  rw [filev6Writebytes, if_neg fits, if_neg (not_not.mpr whole), length, rounds, writebytesLoop,
    if_pos (by omega), ← rounds, size, all, Nat.add_zero]
  rcases filev6Writesector u fv6 buf (inodeGetsize fv6.iNode) with _ | ⟨writeSec, v, fv6'⟩
  · rfl
  · rw [Option.map_some]
    simp only [Int.sub_self, writebytesLoop_zero]
    split_ifs <;> rfl

/-- A sector that is put behind a small file has a slot, so the call returns. -/
theorem filev6Writesector_returns {fileSize : Nat} (small : fileSize + buf.length < 4096) :
    (filev6Writesector u fv6 buf fileSize).isSome = true := by
  have sized := inodeSetsize_ok fv6.iNode (fileSize + buf.length) (by omega)
  rw [Int.natCast_add] at sized
  have slot : inodeGetsize (fv6.iNode.resized (fileSize + buf.length)) / sectorSize <
      addrSmallLength := by
    rw [inodeGetsize_resized _ _ (by omega), sectorSize, addrSmallLength]
    omega
  rw [filev6Writesector]
  split
  split_ifs
  · rfl
  · split
    split_ifs
    · rfl
    · rw [sized]
      generalize fv6.iNode.resized (fileSize + buf.length) = iNode at slot
      simp only [dif_pos slot]
      rfl

/-- Bytes that go into one sector are appended to a small file or not, and the call returns. -/
theorem filev6Writebytes_returns (more : buf ≠ []) (short : buf.length < 512)
    (room : inodeGetsize fv6.iNode % 512 + buf.length ≤ 512)
    (small : inodeGetsize fv6.iNode + buf.length < 4096) :
    (filev6Writebytes u fv6 buf).isSome = true := by
  by_cases residual : inodeGetsize fv6.iNode % 512 ≠ 0
  · rw [filev6Writebytes_fills u residual short room small]
    rfl
  · rw [filev6Writebytes_takes u (not_not.mp residual) more short small, Option.isSome_map]
    exact filev6Writesector_returns u small

end SingleSector

/-- A disk file on a host that has stopped, with some sectors. -/
structure Stopped (host : Host) (k : Nat) (sectors : List Sector) (f : Disk) : Prop where
  /-- The host is the one that stops. -/
  machine : f.host = host
  /-- It has stopped. -/
  late : k ≤ f.time
  /-- The sectors. -/
  sectors : f.sectors = sectors

/-- On a host that has stopped, writes leave the sectors as they are. -/
theorem Stopped.writes {host : Host} {k : Nat} (stops : host.StopsAt k) {sectors : List Sector}
    {f f' : Disk} (stopped : Stopped host k sectors f) (writes : Writes f f') :
    Stopped host k sectors f' := by
  induction writes with
  | none => exact stopped
  | @more g _ writer x data ih =>
    obtain ⟨machine, late, same⟩ := ih
    have lost := stops.lost g.time late x
    rw [← machine] at lost
    rw [sectorWrite]
    split_ifs with seek write
    · exact ⟨machine, late, same⟩
    · exact ⟨machine, Nat.le_succ_of_le late, same⟩
    · exact absurd (lost.resolve_left seek) write

/-- A disk file on the repaired host, at a time before the stop. -/
structure Running (host : Host) (k : Nat) (f : Disk) : Prop where
  /-- Nothing fails. -/
  machine : f.host = host.repaired
  /-- The host that stops has not stopped. -/
  early : f.time < k

/-- At any time the host is running or has stopped. -/
theorem running_or_stopped (host : Host) (k : Nat) {f : Disk} (machine : f.host = host.repaired) :
    Running host k f ∨ Stopped host k f.sectors (f.on host) := by
  rcases Nat.lt_or_ge f.time k with early | late
  · exact .inl ⟨machine, early⟩
  · exact .inr ⟨rfl, late, rfl⟩

/-- The search for a free number does not depend on the host. -/
theorem inodeAlloc_on (u : UnixFilesystem) (host : Host) :
    inodeAlloc (u.on host) = ((inodeAlloc u).1, (inodeAlloc u).2.on host) := by
  unfold inodeAlloc
  have bits : (u.on host).ibm = u.ibm := rfl
  simp only [bits]
  split <;> rfl

/-- The sectors between the write of a sector of content and that of an inode: the table has the old
inode, and other sectors are as after both writes. -/
structure Half (u u' : UnixFilesystem) (inr : Nat) (sectors : List Sector) : Prop where
  /-- The sector of the inode is as before. -/
  table : sectors[u.s.tableSector inr]? = u.f.sectors[u.s.tableSector inr]?
  /-- The others are as after both writes. -/
  others : ∀ y, y ≠ u.s.tableSector inr → sectors[y]? = u'.f.sectors[y]?

section Calls

variable {host : Host} {k : Nat} (stops : host.StopsAt k)

include stops

/-- Sectors are read as on a host where nothing fails. -/
theorem sectorRead_stops {f g : Disk} (machine : f.host = host) (sectors : f.sectors = g.sectors)
    (works : g.host.Faultless) (x : Nat) : sectorRead f x = sectorRead g x := by
  obtain ⟨seek, read⟩ := stops.reads f.time x
  rw [sectorRead_faultless works, sectorRead, machine, seek, read, Bool.or_self,
    if_neg Bool.false_ne_true, sectors]

/-- A volume is read as another one with its sectors, on a host where nothing fails. -/
theorem alike_stops {u v : UnixFilesystem} (s : v.s = u.s) (machine : v.f.host = host)
    (sectors : v.f.sectors = u.f.sectors) (works : u.f.host.Faultless) : ReadsAlike u v :=
  ⟨s, sectorRead_stops stops machine sectors works⟩

section Sectors

variable {f : Disk} (running : Running host k f)

include running

/-- Before the stop, sectors are written as on the repaired host. -/
theorem sectorWrite_on (writer : Writer) (x : Nat) (data : Sector) :
    sectorWrite writer (f.on host) x data =
      ((sectorWrite writer f x data).1, (sectorWrite writer f x data).2.on host) := by
  have works : f.host.Faultless := by
    rw [running.machine]
    exact host.repaired_faultless
  obtain ⟨seek, write⟩ := stops.writes f.time running.early x
  have seek' : ¬(f.on host).host.seekWriteFails (f.on host).time x = true := by
    rw [Bool.not_eq_true]
    exact seek
  have write' : ¬(f.on host).host.fwriteFails (f.on host).time x = true := by
    rw [Bool.not_eq_true]
    exact write
  rw [sectorWrite_faultless works, sectorWrite, if_neg seek', if_neg write']
  rfl

end Sectors

section Volumes

variable {u : UnixFilesystem} (running : Running host k u.f)

include running

/-- Before the stop, all is read as on the repaired host. -/
theorem Running.alike : ReadsAlike u (u.on host) := by
  refine @alike_stops host k stops u (u.on host) rfl rfl rfl ?_
  rw [running.machine]
  exact host.repaired_faultless

/-- Before the stop, an inode is written as on the repaired host. -/
theorem inodeWrite_on (inr : UInt16) (inode : Inode) : inodeWrite (u.on host) inr inode =
    ((inodeWrite u inr inode).1, (inodeWrite u inr inode).2.on host) := by
  have place : (u.on host).s = u.s := rfl
  have read : sectorRead (u.on host).f = sectorRead u.f :=
    funext (running.alike stops).read
  rw [inodeWrite, inodeWrite, place, read]
  split
  · rfl
  · cases sectorRead u.f (inodeSectorNb u.s inr) with
    | error ret => rfl
    | ok sector =>
      have write := sectorWrite_on stops running .inodeWrite (inodeSectorNb u.s inr)
        (inodeCodec.set sector (inodeIndex inr) inode)
      have disk : (u.on host).f = u.f.on host := rfl
      simp only [disk, write]
      rfl

/-- Before the stop, a file is created as on the repaired host. -/
theorem filev6Create_on (mode : UInt16) (fv6 : Filev6) : filev6Create (u.on host) mode fv6 =
    ((filev6Create u mode fv6).1, (filev6Create u mode fv6).2.1.on host,
      (filev6Create u mode fv6).2.2) := by
  have disk : (inodeAlloc u).2.f = u.f := by
    unfold inodeAlloc
    simp only
    split <;> rfl
  have next : Running host k (inodeAlloc u).2.f := by
    rw [disk]
    exact running
  rw [filev6Create, filev6Create, inodeAlloc_on]
  simp only [inodeWrite_on stops next]
  split <;> rfl

end Volumes

section Append

variable {u : UnixFilesystem} (geometry : Geometry u) (running : Running host k u.f)

include geometry running

/-- A sector of content and then an inode are written as on the repaired host, or the host stops
between the two writes. -/
theorem put_on {x : Nat} (data : u.s.InData x) {writer : Writer} {content : Sector}
    {inr : UInt16} {inode : Inode} {f₁ f' : Disk} (inRange : inodeOutOfRange u.s inr = false)
    (written : sectorWrite writer u.f x content = (errNone, f₁))
    (stored : inodeWrite { u with f := f₁ } inr inode = (errNone, { u with f := f' })) :
    sectorWrite writer (u.f.on host) x content = (errNone, f₁.on host) ∧
      (inodeWrite { u with f := f₁.on host } inr inode = (errNone, { u with f := f'.on host }) ∨
        (Half u { u with f := f' } inr.toNat f₁.sectors ∧
          Stopped host k f₁.sectors (f₁.on host))) := by
  have first := sectorWrite_on stops running writer x content
  rw [written] at first
  refine ⟨first, ?_⟩
  obtain ⟨g, again, wrote⟩ :=
    sectorWrite_spec geometry.works writer (geometry.data_near data) content
  rw [written, Prod.mk.injEq] at again
  obtain rfl := again.2
  rcases running_or_stopped host k (wrote.host.trans running.machine) with next | stopped
  · left
    have second := @inodeWrite_on host k stops { u with f := f₁ } next inr inode
    rw [stored] at second
    exact second
  · right
    refine ⟨?_, stopped⟩
    obtain ⟨g', again', effect⟩ := (geometry.wrote wrote).inodeWrite_spec inRange inode
    rw [stored, Prod.mk.injEq] at again'
    have same : f' = g' := congrArg UnixFilesystem.f again'.2
    rw [← same] at effect
    have inside := ((inodeOutOfRange_eq_false_iff _ _).mp inRange).2
    constructor
    case table =>
      apply wrote.other
      exact (geometry.data_ne_table data (by omega)).symm
    case others => exact fun y other => (effect.other y other).symm

/-- A call on the host that stops: it does the same as on the repaired host, or the host stops
between the two writes. -/
def Follows (host : Host) (k : Nat) (u : UnixFilesystem) (inr : UInt16)
    (run run' : Option (Int × UnixFilesystem × Filev6)) : Prop :=
  ∃ code u' fv6', run = some (code, u', fv6') ∧ (run' = some (code, u'.on host, fv6') ∨
    ∃ code' v fv6'' sectors, run' = some (code', v, fv6'') ∧ Half u u' inr.toNat sectors ∧
      Stopped host k sectors v.f)

/-- `filev6_writesector` follows. -/
theorem filev6Writesector_on (fv6 : Filev6) (buf : List UInt8) (fileSize : Nat)
    (inRange : inodeOutOfRange u.s fv6.iNumber = false) (small : fileSize + buf.length < 4096) :
    Follows host k u fv6.iNumber (filev6Writesector u fv6 buf fileSize)
      (filev6Writesector (u.on host) fv6 buf fileSize) := by
  have bits : (u.on host).fbm = u.fbm := rfl
  have stack : (u.on host).f.host.stack (u.on host).f.time = u.f.host.stack u.f.time := by
    rw [running.machine]
    rfl
  rw [filev6Writesector, filev6Writesector, bits, stack]
  cases found : bmFindNext u.fbm with
  | mk freeSector fbm =>
    obtain ⟨same, ⟨x, free, value⟩ | ⟨value, full⟩⟩ := bmFindNext_spec found
    · have data := geometry.data_of_free free
      have bound := u.s.sFsize.toNat_lt
      have number : toInt32 x = x := toInt32_of_small (by have := data.2; omega)
      have sized := inodeSetsize_ok fv6.iNode (fileSize + buf.length) (by omega)
      rw [Int.natCast_add] at sized
      have slot : inodeGetsize (fv6.iNode.resized (fileSize + buf.length)) / sectorSize <
          addrSmallLength := by
        rw [inodeGetsize_resized _ _ (by omega), sectorSize, addrSmallLength]
        omega
      rw [sized]
      generalize fv6.iNode.resized (fileSize + buf.length) = iNode at slot
      generalize is : iNode.setAddr _ (UInt16.ofNat x) slot = inode'
      obtain ⟨f₁, f', written, stored, -⟩ := (geometry.searched same).put_spec data
        .filev6Writesector ((u.f.host.stack u.f.time).splice 0 buf) inRange inode'
      obtain ⟨written', outcome⟩ := put_on stops (geometry.searched same) running data inRange
        written stored
      have disk : (u.on host).f = u.f.on host := rfl
      simp only at written
      simp only [value, number, if_neg (show ¬(x : Int) < 0 by omega), Int.toNat_natCast,
        written, disk, written', dif_pos slot, is, stored, Int.lt_irrefl, if_false]
      have other : { u.on host with fbm, f := f₁.on host } = { u with fbm, f := f₁.on host } := rfl
      rw [other]
      refine ⟨_, _, _, rfl, ?_⟩
      rcases outcome with stored' | ⟨half, stopped⟩
      · left
        rw [stored']
        rfl
      · right
        have rest := inodeWrite_touches { u with fbm, f := f₁.on host } fv6.iNumber inode'
        cases wrote : inodeWrite { u with fbm, f := f₁.on host } fv6.iNumber inode' with
        | mk error v =>
          rw [wrote] at rest
          exact ⟨_, _, _, f₁.sectors, rfl, ⟨half.table, half.others⟩,
            stopped.writes stops rest.disk⟩
    · simp only [value, if_pos (by decide : errBitmapFull < 0)]
      exact ⟨_, _, _, rfl, .inl rfl⟩

/-- `filev6_writesector_residual` follows. -/
theorem filev6WritesectorResidual_on (fv6 : Filev6) (buf : List UInt8)
    (inRange : inodeOutOfRange u.s fv6.iNumber = false)
    (small : inodeGetsize fv6.iNode + buf.length < 4096)
    (target : LastSectorInData u fv6.iNode) :
    Follows host k u fv6.iNumber
      (some (filev6WritesectorResidual u fv6 buf (inodeGetsize fv6.iNode / sectorSize + 1)
        (inodeGetsize fv6.iNode % sectorSize) (inodeGetsize fv6.iNode)))
      (some (filev6WritesectorResidual (u.on host) fv6 buf
        (inodeGetsize fv6.iNode / sectorSize + 1) (inodeGetsize fv6.iNode % sectorSize)
        (inodeGetsize fv6.iNode))) := by
  have alike := running.alike stops
  rw [filev6WritesectorResidual, filev6WritesectorResidual, Nat.add_sub_cancel,
    alike.inodeFindsector]
  by_cases missing : inodeFindsector u fv6.iNode (inodeGetsize fv6.iNode / sectorSize : Nat) < 0
  · rw [if_pos missing, if_pos missing]
    exact ⟨_, _, _, rfl, .inl rfl⟩
  · rw [if_neg missing, if_neg missing]
    obtain ⟨x, at_x⟩ := Int.eq_ofNat_of_zero_le (Int.not_lt.mp missing)
    have data := target x at_x
    rw [at_x, Int.toNat_natCast, alike.read]
    cases read : sectorRead u.f x with
    | error code => exact ⟨_, _, _, rfl, .inl rfl⟩
    | ok sector =>
      have sized := inodeSetsize_ok fv6.iNode (inodeGetsize fv6.iNode + buf.length) (by omega)
      rw [Int.natCast_add] at sized
      rw [sized]
      generalize fv6.iNode.resized (inodeGetsize fv6.iNode + buf.length) = inode'
      obtain ⟨f₁, f', written, stored, -⟩ := geometry.put_spec data .filev6WritesectorResidual
        (sector.splice (inodeGetsize fv6.iNode % sectorSize) buf) inRange inode'
      obtain ⟨written', outcome⟩ := put_on stops geometry running data inRange written stored
      have disk : (u.on host).f = u.f.on host := rfl
      simp only [written, disk, written', stored, Int.lt_irrefl, if_false]
      have other : { u.on host with f := f₁.on host } = { u with f := f₁.on host } := rfl
      rw [other]
      refine ⟨_, _, _, rfl, ?_⟩
      rcases outcome with stored' | ⟨half, stopped⟩
      · left
        rw [stored']
        rfl
      · right
        have rest := inodeWrite_touches { u with f := f₁.on host } fv6.iNumber inode'
        cases wrote : inodeWrite { u with f := f₁.on host } fv6.iNumber inode' with
        | mk error v =>
          rw [wrote] at rest
          exact ⟨_, _, _, f₁.sectors, rfl, half, stopped.writes stops rest.disk⟩

/-- `filev6_writebytes` follows, for bytes that go into one sector. -/
theorem filev6Writebytes_on (fv6 : Filev6) (buf : List UInt8)
    (inRange : inodeOutOfRange u.s fv6.iNumber = false) (more : buf ≠ [])
    (short : buf.length < 512) (room : inodeGetsize fv6.iNode % 512 + buf.length ≤ 512)
    (small : inodeGetsize fv6.iNode + buf.length < 4096)
    (target : inodeGetsize fv6.iNode % 512 ≠ 0 → LastSectorInData u fv6.iNode) :
    Follows host k u fv6.iNumber (filev6Writebytes u fv6 buf)
      (filev6Writebytes (u.on host) fv6 buf) := by
  by_cases residual : inodeGetsize fv6.iNode % 512 ≠ 0
  · rw [filev6Writebytes_fills _ residual short room small,
      filev6Writebytes_fills _ residual short room small]
    obtain ⟨code, u', fv6', run, outcome⟩ := filev6WritesectorResidual_on stops geometry running
      fv6 buf inRange small (target residual)
    rw [Option.some.injEq] at run
    rw [run]
    refine ⟨_, _, _, rfl, ?_⟩
    rcases outcome with same | ⟨code', v, fv6'', sectors, run', half, stopped⟩
    · left
      rw [Option.some.injEq] at same
      rw [same]
    · right
      rw [Option.some.injEq] at run'
      rw [run']
      exact ⟨_, _, _, sectors, rfl, half, stopped⟩
  · rw [not_not] at residual
    rw [filev6Writebytes_takes _ residual more short small,
      filev6Writebytes_takes _ residual more short small]
    obtain ⟨code, u', fv6', run, outcome⟩ := filev6Writesector_on stops geometry running fv6 buf
      (inodeGetsize fv6.iNode) inRange small
    rw [run]
    refine ⟨_, _, _, rfl, ?_⟩
    rcases outcome with same | ⟨code', v, fv6'', sectors, run', half, stopped⟩
    · left
      rw [same]
      rfl
    · right
      rw [run']
      exact ⟨_, _, _, sectors, rfl, half, stopped⟩

end Append

end Calls

end U6fs
