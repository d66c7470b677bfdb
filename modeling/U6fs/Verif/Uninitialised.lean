import U6fs.Verif.Rounds

/-!
# Memory that is not initialised

Two runs that differ only in what the memory holds that the code does not initialise: the buffer
`sector_bur` of `filev6_writesector`, and the structure that `filev6_create` is to fill. A round
that fills its buffer does not depend on what the buffer held, so the last round of an append is the
only one that can store the old bytes. `filev6_create` stores the whole structure, of which it has
set the mode only.
-/
namespace U6fs

open Lib

/-- The same disk on a machine with other bytes on its stack. -/
def Disk.withStack (f : Disk) (stack : Nat → Sector) : Disk :=
  { f with host := { f.host with stack } }

/-- The same file system on a machine with other bytes on its stack. -/
def UnixFilesystem.withStack (u : UnixFilesystem) (stack : Nat → Sector) : UnixFilesystem :=
  { u with f := u.f.withStack stack }

/-- The bytes of two disk files are the same. -/
structure SameContent (f f' : Disk) : Prop where
  /-- The sectors are. -/
  sectors : f.sectors = f'.sectors
  /-- The bytes behind the last whole one are. -/
  tail : f.tail = f'.tail

/-- Other bytes on the stack leave the disk as it is. -/
theorem sameContent_withStack (f : Disk) (stack stack' : Nat → Sector) :
    SameContent (f.withStack stack) (f.withStack stack') := ⟨rfl, rfl⟩

section Commutes

variable (u : UnixFilesystem) (stack : Nat → Sector)

/-- Reading does not depend on the stack. -/
theorem sectorRead_withStack (f : Disk) (x : Nat) :
    sectorRead (f.withStack stack) x = sectorRead f x := rfl

/-- Nor does writing bytes that are given. -/
theorem sectorWrite_withStack (writer : Writer) (f : Disk) (x : Nat) (data : Sector) :
    sectorWrite writer (f.withStack stack) x data =
      ((sectorWrite writer f x data).1, (sectorWrite writer f x data).2.withStack stack) := by
  rw [sectorWrite, sectorWrite]
  by_cases seek : f.host.seekWriteFails f.time x = true
  · rw [if_pos seek]
    exact if_pos seek
  · rw [if_neg seek]
    apply (if_neg seek).trans
    by_cases write : f.host.fwriteFails f.time x = true
    · have same : (f.withStack stack).host.fwriteFails (f.withStack stack).time x = true := write
      rw [write, same]
      rfl
    · have same : ¬(f.withStack stack).host.fwriteFails (f.withStack stack).time x = true := write
      rw [if_neg write, if_neg same]
      rfl

/-- Nor does looking up a sector of a file. -/
theorem inodeFindsector_withStack (inode : Inode) (k : Int) :
    inodeFindsector (u.withStack stack) inode k = inodeFindsector u inode k := rfl

/-- Nor does storing an inode. -/
theorem inodeWrite_withStack (inr : UInt16) (inode : Inode) :
    inodeWrite (u.withStack stack) inr inode =
      ((inodeWrite u inr inode).1, (inodeWrite u inr inode).2.withStack stack) := by
  have place : inodeOutOfRange (u.withStack stack).s inr = inodeOutOfRange u.s inr := rfl
  have read : sectorRead (u.withStack stack).f (inodeSectorNb (u.withStack stack).s inr) =
      sectorRead u.f (inodeSectorNb u.s inr) := rfl
  rw [inodeWrite, inodeWrite, place, read]
  by_cases range : inodeOutOfRange u.s inr = true
  · rw [if_pos range, if_pos range]
  · rw [if_neg range, if_neg range]
    cases sectorRead u.f (inodeSectorNb u.s inr) with
    | error ret => rfl
    | ok sector =>
      have write := sectorWrite_withStack stack .inodeWrite u.f (inodeSectorNb u.s inr)
        (inodeCodec.set sector (inodeIndex inr) inode)
      simp only
      exact congrArg (fun run => (run.1, { u with f := run.2 })) write

/-- Nor does filling up the last sector of a file. -/
theorem filev6WritesectorResidual_withStack {u u' : UnixFilesystem} {fv6 fv6' : Filev6}
    {buf : List UInt8} {sizeInSectors residual inodeSize : Nat} {code : Int}
    (run : filev6WritesectorResidual u fv6 buf sizeInSectors residual inodeSize =
      (code, u', fv6')) (stack : Nat → Sector) :
    filev6WritesectorResidual (u.withStack stack) fv6 buf sizeInSectors residual inodeSize =
      (code, u'.withStack stack, fv6') := by
  rw [filev6WritesectorResidual] at run
  rw [filev6WritesectorResidual, inodeFindsector_withStack]
  by_cases found : inodeFindsector u fv6.iNode (sizeInSectors - 1 : Nat) < 0
  · rw [if_pos found] at run ⊢
    cases run
    rfl
  rw [if_neg found] at run ⊢
  generalize (inodeFindsector u fv6.iNode (sizeInSectors - 1 : Nat)).toNat = x at run ⊢
  generalize inodeSetsize fv6.iNode (toInt32 (inodeSize + buf.length)) = resized at run ⊢
  have disk : (u.withStack stack).f = u.f.withStack stack := rfl
  rw [disk, sectorRead_withStack]
  split at run
  · cases run
    rfl
  · rename_i buffer read
    have write := sectorWrite_withStack stack .filev6WritesectorResidual u.f x
      (buffer.splice residual buf)
    split at run
    rename_i code f written
    rw [written] at write
    split
    rename_i code' f' written'
    rw [written', Prod.mk.injEq] at write
    obtain ⟨rfl, rfl⟩ := write
    by_cases failed : code' < 0
    · rw [if_pos failed] at run ⊢
      cases run
      rfl
    · rw [if_neg failed] at run ⊢
      cases resized with
      | error refused =>
        have stored := inodeWrite_withStack { u with f } stack fv6.iNumber fv6.iNode
        cases run
        exact congrArg (fun run => (_, run.2, fv6)) stored
      | ok iNode =>
        have stored := inodeWrite_withStack { u with f } stack fv6.iNumber iNode
        cases run
        exact congrArg (fun run => (errNone, run.2, { fv6 with iNode })) stored

end Commutes

namespace SameContent

variable {f f' f'' : Disk}

/-- A disk has its own bytes. -/
protected theorem refl (f : Disk) : SameContent f f := ⟨rfl, rfl⟩

/-- The other way round. -/
protected theorem symm (same : SameContent f f') : SameContent f' f :=
  ⟨same.sectors.symm, same.tail.symm⟩

/-- One disk after another. -/
protected theorem trans (first : SameContent f f') (second : SameContent f' f'') :
    SameContent f f'' :=
  ⟨first.sectors.trans second.sectors, first.tail.trans second.tail⟩

/-- The same sector is written. -/
protected theorem overwrite (same : SameContent f f') (x : Nat) (data : Sector) :
    SameContent (f.overwrite x data) (f'.overwrite x data) := by
  obtain ⟨sectors, tail⟩ := same
  constructor
  · show f.padded x ++ data :: f.sectors.drop (x + 1) =
      f'.padded x ++ data :: f'.sectors.drop (x + 1)
    rw [Disk.padded, Disk.padded, sectors, tail]
  · show (if x < f.sectors.length then f.tail else []) =
      if x < f'.sectors.length then f'.tail else []
    rw [sectors, tail]

end SameContent

/-- The last content of a sector of the disk file counts. -/
theorem overwrite_overwrite (f : Disk) {x : Nat} (inside : x < f.sectors.length)
    (first second : Sector) :
    SameContent ((f.overwrite x first).overwrite x second) (f.overwrite x second) := by
  have length := f.overwrite_length x first
  constructor
  · apply List.ext_getElem?
    intro y
    by_cases here : y = x
    · rw [here, Disk.overwrite_same, Disk.overwrite_same]
    · by_cases there : y < f.sectors.length
      · rw [Disk.overwrite_other _ _ here (by omega), Disk.overwrite_other _ _ here there,
          Disk.overwrite_other _ _ here there]
      · have longer := (f.overwrite x first).overwrite_length x second
        have short := f.overwrite_length x second
        rw [List.getElem?_eq_none (by omega), List.getElem?_eq_none (by omega)]
  · show (if x < (f.overwrite x first).sectors.length then
      if x < f.sectors.length then f.tail else [] else []) =
        if x < f.sectors.length then f.tail else []
    rw [if_pos (by omega : x < (f.overwrite x first).sectors.length)]

/-- The transfers that store an inode succeed: its sector is read, sought and written. -/
structure InodeTransfers (host : Host) (table time : Nat) : Prop where
  /-- The sector is sought and read. -/
  read : host.seekFails time table = false ∧ host.freadFails time table = false
  /-- It is sought again. -/
  seek : host.seekWriteFails time table = false
  /-- It is written. -/
  write : host.fwriteFails time table = false

/-- They do not depend on the stack. -/
theorem inodeTransfers_withStack (f : Disk) (stack : Nat → Sector) (table time : Nat) :
    InodeTransfers (f.withStack stack).host table time ↔ InodeTransfers f.host table time :=
  ⟨fun transfers => ⟨transfers.read, transfers.seek, transfers.write⟩,
    fun transfers => ⟨transfers.read, transfers.seek, transfers.write⟩⟩

section Inode

variable {u : UnixFilesystem} {inr : UInt16} (inode : Inode)
  (range : inodeOutOfRange u.s inr = false)
  (present : inodeSectorNb u.s inr < u.f.sectors.length)

include range

include present in
/-- Where the transfers succeed, the inode is stored in its sector. -/
theorem inodeWrite_stores
    (transfers : InodeTransfers u.f.host (inodeSectorNb u.s inr) u.f.time) :
    SameContent (inodeWrite u inr inode).2.f (u.f.overwrite (inodeSectorNb u.s inr)
      (inodeCodec.set u.f.sectors[inodeSectorNb u.s inr] (inodeIndex inr) inode)) := by
  have read : sectorRead u.f (inodeSectorNb u.s inr) = .ok u.f.sectors[inodeSectorNb u.s inr] := by
    rw [sectorRead, transfers.read.1, transfers.read.2, List.getElem?_eq_getElem present]
    rfl
  rw [inodeWrite, range, if_neg Bool.false_ne_true, read]
  simp only [sectorWrite, transfers.seek, transfers.write, Bool.false_eq_true, if_false]
  exact ⟨rfl, rfl⟩

omit range in
/-- Otherwise the disk keeps its bytes. -/
theorem inodeWrite_skips (fails : ¬(inodeOutOfRange u.s inr = false ∧
      inodeSectorNb u.s inr < u.f.sectors.length ∧
      InodeTransfers u.f.host (inodeSectorNb u.s inr) u.f.time)) :
    SameContent (inodeWrite u inr inode).2.f u.f := by
  rw [inodeWrite]
  cases range : inodeOutOfRange u.s inr with
  | true => exact .refl u.f
  | false =>
    rw [if_neg Bool.false_ne_true]
    cases read : sectorRead u.f (inodeSectorNb u.s inr) with
    | error code => exact .refl u.f
    | ok sector =>
      have present := (List.getElem?_eq_some_iff.mp (sectorRead_ok read)).1
      have done : ¬(u.f.host.seekFails u.f.time (inodeSectorNb u.s inr) ||
          u.f.host.freadFails u.f.time (inodeSectorNb u.s inr)) = true := by
        intro failed
        rw [sectorRead, if_pos failed] at read
        cases read
      rw [Bool.not_eq_true, Bool.or_eq_false_iff] at done
      show SameContent (sectorWrite _ u.f _ _).2 u.f
      rw [sectorWrite]
      cases seek : u.f.host.seekWriteFails u.f.time (inodeSectorNb u.s inr) with
      | true => exact .refl u.f
      | false =>
        cases write : u.f.host.fwriteFails u.f.time (inodeSectorNb u.s inr) with
        | true => exact ⟨rfl, rfl⟩
        | false => exact absurd ⟨range, present, done, seek, write⟩ fails

end Inode

/-- The inode that a round stores covers what the buffer does not fill: it is the last one of the
sector that the round has written, and the buffer fills the rest. -/
structure Covered (host : Host) (table x time p : Nat) (inr : UInt16) : Prop where
  /-- The sector is the one of the inode. -/
  same : x = table
  /-- The inode is the last one there. -/
  last : inr.toNat % 16 = 15
  /-- The buffer comes up to it. -/
  long : 480 ≤ p
  /-- It is stored. -/
  transfers : InodeTransfers host table time

section Round

variable {u : UnixFilesystem} {fv6 : Filev6} {x : Nat} {buf : List UInt8}

/-- A round that fills its buffer, or whose `fwrite` comes short, writes the same for any stack. -/
theorem roundDisk_withStack
    (fills : buf.length = 512 ∨ u.f.host.fwriteFails u.f.time x = true) (stack : Nat → Sector) :
    roundDisk (u.withStack stack) x buf = (roundDisk u x buf).withStack stack := by
  have write := sectorWrite_withStack stack .filev6Writesector u.f x
    ((stack u.f.time).splice 0 buf)
  apply (congrArg Prod.snd write).trans
  show (sectorWrite _ u.f x _).2.withStack stack = (sectorWrite _ u.f x _).2.withStack stack
  congr 2
  rcases fills with whole | short
  · have same : (stack u.f.time).splice 0 buf = (u.f.host.stack u.f.time).splice 0 buf := by
      have fits : 0 + buf.length ≤ sectorSize := by
        rw [whole, sectorSize]
      apply Block.ext
      rw [Block.splice_bytes _ fits, Block.splice_bytes _ fits, List.drop_eq_nil_of_le,
        List.drop_eq_nil_of_le]
      · rfl
      · rw [Block.sized, sectorSize]
        omega
      · rw [Block.sized, sectorSize]
        omega
    rw [same]
  · rw [sectorWrite, sectorWrite, if_pos short, if_pos short]

/-- So the round ends in the same way. -/
theorem roundStore_withStack
    (fills : buf.length = 512 ∨ u.f.host.fwriteFails u.f.time x = true) (stack : Nat → Sector)
    (fbm : BmblockArray) (size : Nat) :
    roundStore (u.withStack stack) fbm x fv6 buf size =
      ((roundStore u fbm x fv6 buf size).1,
        (roundStore u fbm x fv6 buf size).2.withStack stack) := by
  have stored := inodeWrite_withStack { u with f := roundDisk u x buf, fbm } stack fv6.iNumber
    (fv6.iNode.placed size x)
  rw [roundStore, roundDisk_withStack fills]
  exact stored

section Partial

variable (seek : u.f.host.seekWriteFails u.f.time x = false)
  (write : u.f.host.fwriteFails u.f.time x = false)

include seek write

/-- The disk after a round has written its sector. -/
theorem roundDisk_content (buf : List UInt8) (stack : Nat → Sector) :
    SameContent (roundDisk (u.withStack stack) x buf)
      (u.f.overwrite x ((stack u.f.time).splice 0 buf)) := by
  have same : roundDisk (u.withStack stack) x buf = (sectorWrite .filev6Writesector
    (u.f.withStack stack) x ((stack u.f.time).splice 0 buf)).2 := rfl
  rw [same, sectorWrite_withStack, sectorWrite, seek, write]
  exact ⟨rfl, rfl⟩

variable (range : inodeOutOfRange u.s fv6.iNumber = false)
  (present : inodeSectorNb u.s fv6.iNumber < u.f.sectors.length)

include range present

/-- The disk after a round that stores its inode. -/
theorem roundStore_stores (buf : List UInt8)
    (transfers : InodeTransfers u.f.host (inodeSectorNb u.s fv6.iNumber) (u.f.time + 1))
    (fbm : BmblockArray) (size : Nat) (stack : Nat → Sector) :
    ∃ sector, (u.f.overwrite x ((stack u.f.time).splice 0 buf)).sectors[inodeSectorNb u.s
        fv6.iNumber]? = some sector ∧
      SameContent (roundStore (u.withStack stack) fbm x fv6 buf size).2.f
        ((roundDisk (u.withStack stack) x buf).overwrite (inodeSectorNb u.s fv6.iNumber)
          (inodeCodec.set sector (inodeIndex fv6.iNumber) (fv6.iNode.placed size x))) := by
  obtain ⟨host, time, length⟩ := roundDisk_done (u := u.withStack stack) seek buf
  have longer : inodeSectorNb u.s fv6.iNumber <
      (roundDisk (u.withStack stack) x buf).sectors.length := Nat.lt_of_lt_of_le present length
  have stored := inodeWrite_stores
    (u := { u.withStack stack with f := roundDisk (u.withStack stack) x buf, fbm })
    (fv6.iNode.placed size x) range longer
    (by rw [host, time]; exact (inodeTransfers_withStack u.f stack _ _).mpr transfers)
  refine ⟨_, ?_, stored⟩
  rw [← (roundDisk_content seek write buf stack).sectors, List.getElem?_eq_getElem longer]
  rfl

/-- Where the inode does not cover it, a byte of the sector is the one that the stack held. -/
theorem roundStore_byte (partly : buf.length < 512) (uncovered : ¬Covered u.f.host
      (inodeSectorNb u.s fv6.iNumber) x (u.f.time + 1) buf.length fv6.iNumber)
    (fbm : BmblockArray) (size : Nat) : ∃ pos < 512, ∀ stack : Nat → Sector,
      (roundStore (u.withStack stack) fbm x fv6 buf size).2.f.sectors[x]?.bind
        (fun sector => sector.bytes[pos]?) = (stack u.f.time).bytes[pos]? := by
  have fits : 0 + buf.length ≤ sectorSize := by
    rw [sectorSize]
    omega
  have held : ∀ (stack : Nat → Sector) {pos : Nat}, buf.length ≤ pos →
      ((stack u.f.time).splice 0 buf).bytes[pos]? = (stack u.f.time).bytes[pos]? := by
    intro stack pos behind
    rw [Block.splice_getElem? _ fits, if_neg (by omega)]
  by_cases transfers : InodeTransfers u.f.host (inodeSectorNb u.s fv6.iNumber) (u.f.time + 1)
  · by_cases same : x = inodeSectorNb u.s fv6.iNumber
    · -- the sector is the one of the inode, and a byte is free before it or behind it
      have room : inodeIndex fv6.iNumber * inodeCodec.width +
          (inodeCodec.encode (fv6.iNode.placed size x)).length ≤ sectorSize := by
        rw [inodeCodec.encode_length, inodeCodec_width, inodeIndex_eq, sectorSize]
        omega
      have kept : ∀ pos, buf.length ≤ pos → (pos < 32 * (fv6.iNumber.toNat % 16) ∨
          32 * (fv6.iNumber.toNat % 16) + 32 ≤ pos) → ∀ stack : Nat → Sector,
          (roundStore (u.withStack stack) fbm x fv6 buf size).2.f.sectors[x]?.bind
            (fun sector => sector.bytes[pos]?) = (stack u.f.time).bytes[pos]? := by
        intro pos behind apart stack
        obtain ⟨sector, there, stored⟩ :=
          roundStore_stores seek write range present buf transfers fbm size stack
        rw [← same, Disk.overwrite_same, Option.some.injEq] at there
        rw [stored.sectors, ← same, Disk.overwrite_same, Option.bind_some, Codec.set,
          Block.splice_getElem? _ room, if_neg, ← there, held stack behind]
        rw [inodeCodec.encode_length, inodeCodec_width, inodeIndex_eq]
        omega
      by_cases last : fv6.iNumber.toNat % 16 = 15
      · have short : buf.length < 480 := by
          by_contra long
          exact uncovered ⟨same, last, Nat.not_lt.mp long, transfers⟩
        exact ⟨buf.length, partly, kept _ le_rfl (by omega)⟩
      · exact ⟨511, by decide, kept _ (by omega) (by omega)⟩
    · refine ⟨buf.length, partly, fun stack => ?_⟩
      obtain ⟨sector, there, stored⟩ :=
        roundStore_stores seek write range present buf transfers fbm size stack
      have written := (roundDisk_content seek write buf stack).sectors
      have inside : x < (roundDisk (u.withStack stack) x buf).sectors.length := by
        rw [written, Disk.overwrite_length]
        omega
      rw [stored.sectors, Disk.overwrite_other _ _ same inside, written, Disk.overwrite_same,
        Option.bind_some, held stack le_rfl]
  · refine ⟨buf.length, partly, fun stack => ?_⟩
    obtain ⟨host, time, -⟩ := roundDisk_done (u := u.withStack stack) seek buf
    have skipped := inodeWrite_skips
      (u := { u.withStack stack with f := roundDisk (u.withStack stack) x buf, fbm })
      (fv6.iNode.placed size x) fun works => by
        rw [host, time] at works
        exact transfers ((inodeTransfers_withStack ..).mp works.2.2)
    have written := (roundDisk_content seek write buf stack).sectors
    rw [roundStore, skipped.sectors, written, Disk.overwrite_same, Option.bind_some,
      held stack le_rfl]

/-- Where the inode covers it, the stack does not show. -/
theorem roundStore_covered (partly : buf.length < 512) (covered : Covered u.f.host
      (inodeSectorNb u.s fv6.iNumber) x (u.f.time + 1) buf.length fv6.iNumber)
    (fbm : BmblockArray) (size : Nat) (stack stack' : Nat → Sector) :
    SameContent (roundStore (u.withStack stack) fbm x fv6 buf size).2.f
      (roundStore (u.withStack stack') fbm x fv6 buf size).2.f := by
  have fits : 0 + buf.length ≤ sectorSize := by
    rw [sectorSize]
    omega
  have place : inodeIndex fv6.iNumber * inodeCodec.width = 480 := by
    rw [inodeCodec_width, inodeIndex_eq, covered.last]
  have width : (inodeCodec.encode (fv6.iNode.placed size x)).length = 32 := by
    rw [inodeCodec.encode_length, inodeCodec_width]
  have final : ∀ stack : Nat → Sector, SameContent
      (roundStore (u.withStack stack) fbm x fv6 buf size).2.f
      (u.f.overwrite x (inodeCodec.set ((stack u.f.time).splice 0 buf)
        (inodeIndex fv6.iNumber) (fv6.iNode.placed size x))) := by
    intro stack
    obtain ⟨sector, there, stored⟩ :=
      roundStore_stores seek write range present buf covered.transfers fbm size stack
    rw [← covered.same, Disk.overwrite_same, Option.some.injEq] at there
    rw [← covered.same, ← there] at stored
    have inside : x < u.f.sectors.length := by
      rw [covered.same]
      exact present
    exact stored.trans (((roundDisk_content seek write buf stack).overwrite _ _).trans
      (overwrite_overwrite u.f inside _ _))
  have hidden : ∀ stack : Nat → Sector, (inodeCodec.set ((stack u.f.time).splice 0 buf)
      (inodeIndex fv6.iNumber) (fv6.iNode.placed size x)).bytes =
        buf.take 480 ++ inodeCodec.encode (fv6.iNode.placed size x) := by
    intro stack
    have front : ((stack u.f.time).splice 0 buf).bytes.take 480 = buf.take 480 := by
      rw [Block.splice_bytes _ fits, List.take_zero, List.nil_append,
        List.take_append_of_le_length covered.long]
    have back : ((stack u.f.time).splice 0 buf).bytes.drop (480 + 32) = [] :=
      List.drop_eq_nil_of_le (Nat.le_of_eq ((stack u.f.time).splice 0 buf).sized)
    have inside : 480 + (inodeCodec.encode (fv6.iNode.placed size x)).length ≤ sectorSize := by
      rw [width, sectorSize]
    rw [Codec.set, place, Block.splice_bytes _ inside, width, front, back, List.append_nil]
  have same := Block.ext ((hidden stack).trans (hidden stack').symm)
  have first := final stack
  rw [same] at first
  exact first.trans (final stack').symm

/-- The last round of an append does not depend on the stack exactly when the inode covers what the
buffer does not fill. -/
theorem roundStore_same_iff (partly : buf.length < 512) (fbm : BmblockArray) (size : Nat) :
    (∀ stack stack' : Nat → Sector,
      SameContent (roundStore (u.withStack stack) fbm x fv6 buf size).2.f
        (roundStore (u.withStack stack') fbm x fv6 buf size).2.f) ↔
      Covered u.f.host (inodeSectorNb u.s fv6.iNumber) x (u.f.time + 1) buf.length
        fv6.iNumber := by
  constructor
  · intro same
    by_contra uncovered
    obtain ⟨pos, inside, held⟩ :=
      roundStore_byte seek write range present partly uncovered fbm size
    have zero := held fun _ => Block.fill sectorSize 0
    have one := held fun _ => Block.fill sectorSize 1
    rw [(same _ fun _ => Block.fill sectorSize 1).sectors, one] at zero
    have here : ∀ byte : UInt8, (Block.fill sectorSize byte).bytes[pos]? = some byte :=
      fun byte => List.getElem?_replicate_of_lt inside
    rw [here, here, Option.some.injEq] at zero
    contradiction
  · intro covered
    exact roundStore_covered seek write range present partly covered fbm size

end Partial

end Round

/-- A run comes to an end for any bytes on the stack, and always leaves the same bytes on the
disk. -/
def StackFree (run : (Nat → Sector) → Option (Int × UnixFilesystem × Filev6)) : Prop :=
  ∀ stack stack', ∃ first second, run stack = some first ∧ run stack' = some second ∧
    SameContent first.2.1.f second.2.1.f

section StackFree

variable {run : (Nat → Sector) → Option (Int × UnixFilesystem × Filev6)}

/-- A run that does the same for any stack. -/
theorem StackFree.of_withStack (code : Int) (u : UnixFilesystem) (fv6 : Filev6)
    (same : ∀ stack, run stack = some (code, u.withStack stack, fv6)) : StackFree run :=
  fun stack stack' => ⟨_, _, same stack, same stack', sameContent_withStack u.f stack stack'⟩

/-- A run that is undefined for some stack. -/
theorem not_stackFree {stack : Nat → Sector} (none : run stack = none) : ¬StackFree run := by
  intro free
  obtain ⟨first, -, is, -⟩ := free stack stack
  rw [none] at is
  cases is

/-- A run that always comes to an end, with a disk of its own for each stack. -/
theorem stackFree_iff {disk : (Nat → Sector) → Disk}
    (ends : ∀ stack, ∃ final, run stack = some final ∧ final.2.1.f = disk stack) :
    StackFree run ↔ ∀ stack stack', SameContent (disk stack) (disk stack') := by
  constructor
  · intro free stack stack'
    obtain ⟨first, second, left, right, same⟩ := free stack stack'
    obtain ⟨final, is, there⟩ := ends stack
    obtain ⟨final', is', there'⟩ := ends stack'
    rw [left, Option.some.injEq] at is
    rw [right, Option.some.injEq] at is'
    rw [← there, ← there', ← is, ← is']
    exact same
  · intro same stack stack'
    obtain ⟨final, is, there⟩ := ends stack
    obtain ⟨final', is', there'⟩ := ends stack'
    refine ⟨final, final', is, is', ?_⟩
    rw [there, there']
    exact same stack stack'

end StackFree

/-- The last of the rounds that append `left` bytes behind `size` ones stores bytes that the stack
held: it does not fill its sector, writes it, and the inode does not cover the rest. -/
structure Leaks (host : Host) (table : Nat) (inr : UInt16) (found : Int) (time size left : Nat) :
    Prop where
  /-- The last round does not fill its sector. -/
  partly : left % 512 ≠ 0
  /-- The slots suffice. -/
  below : size + left < 4096
  /-- The last round seeks its sector. -/
  reaches : Reaches host table found time (left / 512)
  /-- It writes it. -/
  write : host.fwriteFails (time + 2 * (left / 512)) found.toNat = false
  /-- Its inode does not cover the rest. -/
  uncovered : ¬Covered host table found.toNat (time + 2 * (left / 512) + 1) (left % 512) inr

section Loop

variable {host : Host} {table : Nat} {inr : UInt16} {found : Int} {time size left : Nat}

/-- The rounds after a whole one have the last one among them. -/
theorem leaks_step (whole : 512 ≤ left) : Leaks host table inr found time size left ↔
    RoundPasses host table found.toNat time ∧
      Leaks host table inr found (time + 2) (size + 512) (left - 512) := by
  have rounds : left / 512 = (left - 512) / 512 + 1 := by
    omega
  have rest : left % 512 = (left - 512) % 512 := by
    omega
  have later : time + 2 * ((left - 512) / 512 + 1) = time + 2 + 2 * ((left - 512) / 512) := by
    omega
  constructor
  · rintro ⟨partly, below, reaches, write, uncovered⟩
    rw [rounds, later] at write uncovered
    rw [rounds] at reaches
    rw [rest] at partly uncovered
    obtain ⟨-, first, reaches⟩ := (reaches_succ_iff _).mp reaches
    exact ⟨first, partly, by omega, reaches, write, uncovered⟩
  · rintro ⟨first, partly, below, reaches, write, uncovered⟩
    refine ⟨by rw [rest]; exact partly, by omega, ?_, ?_, ?_⟩
    · rw [rounds]
      exact (reaches_succ_iff _).mpr ⟨reaches.free, first, reaches⟩
    · rw [rounds, later]
      exact write
    · rw [rounds, later, rest]
      exact uncovered

/-- Nothing leaks when no round begins. -/
theorem not_leaks (stops : ¬(0 ≤ found ∧ host.seekWriteFails time found.toNat = false)) :
    ¬Leaks host table inr found time size left :=
  fun leaks => stops leaks.reaches.first

end Loop

section Last

variable {inodeSize : Nat} {buf : List UInt8} {fuel : Nat} {u : UnixFilesystem} {fv6 : Filev6}
  {left written : Nat}

/-- A loop whose only round does not fill its sector: it leaves the same bytes when the round does
not leak. -/
theorem writebytesLoop_last (more : 0 < left) (partly : left < 512)
    (inBuf : written + left ≤ buf.length) (below : inodeSize + written + left < 4096)
    (range : inodeOutOfRange u.s fv6.iNumber = false)
    (present : inodeSectorNb u.s fv6.iNumber < u.f.sectors.length) {x : Nat} {fbm : BmblockArray}
    (search : bmFindNext u.fbm = ((x : Int), fbm))
    (seek : u.f.host.seekWriteFails u.f.time x = false) :
    StackFree (fun stack =>
        writebytesLoop inodeSize buf (fuel + 1) (u.withStack stack) fv6 left written) ↔
      ¬Leaks u.f.host (inodeSectorNb u.s fv6.iNumber) fv6.iNumber x u.f.time
        (inodeSize + written) left := by
  have least : min 512 left = left := by
    omega
  have chunk : (window buf written left).length = left := window_length inBuf
  have ends : ∀ stack, ∃ final,
      writebytesLoop inodeSize buf (fuel + 1) (u.withStack stack) fv6 left written = some final ∧
        final.2.1.f = (roundStore (u.withStack stack) fbm x fv6 (window buf written left)
          (inodeSize + written + left)).2.f := by
    intro stack
    have small : inodeSize + written + 512 < 2 ^ 24 := by
      omega
    rw [writebytesLoop_begins (u := u.withStack stack) more inBuf small search seek, least,
      if_pos below, Nat.sub_self, writebytesLoop_nothing]
    split
    · exact ⟨_, rfl, rfl⟩
    · exact ⟨_, rfl, rfl⟩
  have reached : Reaches u.f.host (inodeSectorNb u.s fv6.iNumber) x u.f.time (left / 512) := by
    rw [Nat.div_eq_of_lt partly]
    refine ⟨Int.natCast_nonneg x, fun j small => absurd small (Nat.not_lt_zero j), ?_⟩
    exact seek
  have only : 2 * (left / 512) = 0 := by
    omega
  rw [stackFree_iff ends]
  cases write : u.f.host.fwriteFails u.f.time x with
  | true =>
    refine iff_of_true (fun stack stack' => ?_) fun leaks => ?_
    · rw [roundStore_withStack (.inr write), roundStore_withStack (.inr write)]
      exact sameContent_withStack _ stack stack'
    · have done := leaks.write
      rw [only, Nat.add_zero, Int.toNat_natCast, write] at done
      cases done
  | false =>
    rw [roundStore_same_iff seek write range present (by rw [chunk]; exact partly), chunk]
    constructor
    · intro covered leaks
      apply leaks.uncovered
      rw [only, Nat.add_zero, Int.toNat_natCast, Nat.mod_eq_of_lt partly]
      exact covered
    · intro tight
      by_contra uncovered
      refine tight ⟨by omega, below, reached, ?_, ?_⟩
      · rw [only, Nat.add_zero, Int.toNat_natCast]
        exact write
      · rw [only, Nat.add_zero, Int.toNat_natCast, Nat.mod_eq_of_lt partly]
        exact uncovered

end Last

/-- The loop leaves the same bytes for any stack when it neither stores past the slots nor stores
what the stack held. -/
theorem writebytesLoop_stackFree_iff {inodeSize : Nat} {buf : List UInt8} (fuel : Nat) :
    ∀ (u : UnixFilesystem) (fv6 : Filev6) (left written : Nat), left ≤ fuel →
      written + left ≤ buf.length → inodeSize + written + 512 < 2 ^ 24 →
      inodeOutOfRange u.s fv6.iNumber = false →
      inodeSectorNb u.s fv6.iNumber < u.f.sectors.length →
      (StackFree (fun stack =>
          writebytesLoop inodeSize buf fuel (u.withStack stack) fv6 left written) ↔
        ¬Overflows u.f.host (inodeSectorNb u.s fv6.iNumber) (bmFindNext u.fbm).1 u.f.time
            (inodeSize + written) left ∧
          ¬Leaks u.f.host (inodeSectorNb u.s fv6.iNumber) fv6.iNumber (bmFindNext u.fbm).1
            u.f.time (inodeSize + written) left) := by
  induction fuel with
  | zero =>
    intro u fv6 left written enough _ _ _ _
    obtain rfl : left = 0 := by omega
    exact iff_of_true (.of_withStack errNone u fv6 fun _ => writebytesLoop_nothing ..)
      ⟨not_overflows_zero _, fun leaks => leaks.partly rfl⟩
  | succ fuel ih =>
    intro u fv6 left written enough inBuf small range present
    rcases Nat.eq_zero_or_pos left with rfl | more
    · exact iff_of_true (.of_withStack errNone u fv6 fun _ => writebytesLoop_nothing ..)
        ⟨not_overflows_zero _, fun leaks => leaks.partly rfl⟩
    by_cases begins : Begins u
    · obtain ⟨free, seek⟩ := begins
      obtain ⟨x, found⟩ := Int.eq_ofNat_of_zero_le free
      have search : bmFindNext u.fbm = ((x : Int), (bmFindNext u.fbm).2) := Prod.ext found rfl
      rw [found, Int.toNat_natCast] at seek
      rw [found]
      have round : ∀ stack,
          writebytesLoop inodeSize buf (fuel + 1) (u.withStack stack) fv6 left written = _ :=
        fun stack => writebytesLoop_begins (u := u.withStack stack) more inBuf small search seek
      by_cases below : inodeSize + written + min 512 left < 4096
      · by_cases whole : 512 ≤ left
        · -- the round fills its sector and is the same for any stack
          have least : min 512 left = 512 := by
            omega
          have chunk : (window buf written 512).length = 512 := window_length (by omega)
          rw [overflows_step below, leaks_step whole, Int.toNat_natCast]
          rw [least] at below ⊢
          simp only [least, if_pos below, roundStore_withStack (.inl chunk)] at round
          have passes := roundStore_passes_iff range present seek (bmFindNext u.fbm).2
            (window buf written 512) (inodeSize + written + 512)
          by_cases fine : 0 ≤ (roundStore u (bmFindNext u.fbm).2 x fv6 (window buf written 512)
              (inodeSize + written + 512)).1
          · obtain ⟨advanced, again, range', present'⟩ := roundStore_next range present seek
              search (window buf written 512) (inodeSize + written + 512) fine
            simp only [if_neg (Int.not_lt.mpr fine)] at round
            have next := ih (roundStore u (bmFindNext u.fbm).2 x fv6 (window buf written 512)
                (inodeSize + written + 512)).2
              { fv6 with iNode := fv6.iNode.placed (inodeSize + written + 512) x }
              (left - 512) (written + 512) (by omega) (by omega) (by omega) range' present'
            rw [again, advanced.s, advanced.host, advanced.time, ← Nat.add_assoc] at next
            rw [and_iff_right (passes.mp fine), and_iff_right (passes.mp fine)]
            simp only [round]
            exact next
          · have failed : ¬RoundPasses u.f.host (inodeSectorNb u.s fv6.iNumber) x u.f.time :=
              fun done => fine (passes.mpr done)
            refine iff_of_true ?_ ⟨fun both => failed both.1, fun both => failed both.1⟩
            apply StackFree.of_withStack
            intro stack
            rw [round stack, if_pos (Int.not_le.mp fine)]
        · have partly := Nat.not_le.mp whole
          have least : min 512 left = left := by
            omega
          rw [least] at below
          rw [writebytesLoop_last more partly inBuf below range present search seek]
          have one : ¬Overflows u.f.host (inodeSectorNb u.s fv6.iNumber) x u.f.time
              (inodeSize + written) left := by
            rintro ⟨i, inside, -, past, -⟩
            omega
          rw [and_iff_right one]
      · have undefined := round (u.f.host.stack)
        rw [if_neg below] at undefined
        refine iff_of_false (not_stackFree undefined) fun both => both.1 ?_
        rw [overflows_here more (Nat.not_lt.mp below), Int.toNat_natCast]
        exact ⟨Int.natCast_nonneg x, seek⟩
    · refine iff_of_true ?_ ⟨?_, not_leaks begins⟩
      · exact .of_withStack (stopCode u) { u with fbm := (bmFindNext u.fbm).2 } fv6
          fun stack => writebytesLoop_stops (u := u.withStack stack) more begins
      · rintro ⟨i, -, -, -, reaches⟩
        exact begins reaches.first

section Append

variable {u : UnixFilesystem} {fv6 : Filev6}

/-- Filling up the last sector does not depend on the stack. -/
theorem filledUp_withStack (u : UnixFilesystem) (fv6 : Filev6) (buf : List UInt8)
    (stack : Nat → Sector) : filledUp (u.withStack stack) fv6 buf =
      ((filledUp u fv6 buf).1.withStack stack, (filledUp u fv6 buf).2) := by
  rw [filledUp, filledUp]
  by_cases whole : inodeGetsize fv6.iNode % 512 = 0
  · rw [if_pos whole, if_pos whole]
  · rw [if_neg whole, if_neg whole]
    cases filled : filev6WritesectorResidual u fv6
        (buf.take (min buf.length (512 - inodeGetsize fv6.iNode % 512)))
        (inodeGetsize fv6.iNode / 512 + 1) (inodeGetsize fv6.iNode % 512)
        (inodeGetsize fv6.iNode) with
    | mk code run =>
      rw [filev6WritesectorResidual_withStack filled stack]

/-- An append stores past the slots. -/
def AppendOverflows (u : UnixFilesystem) (fv6 : Filev6) (len : Nat) : Prop :=
  Overflows u.f.host (inodeSectorNb u.s fv6.iNumber) (bmFindNext u.fbm).1
    (u.f.time + residualWrites u fv6.iNumber fv6.iNode)
    (inodeGetsize fv6.iNode + residualLength (inodeGetsize fv6.iNode) len)
    (appendLeft (inodeGetsize fv6.iNode) len)

/-- An append stores bytes that the stack held. -/
def AppendLeaks (u : UnixFilesystem) (fv6 : Filev6) (len : Nat) : Prop :=
  Leaks u.f.host (inodeSectorNb u.s fv6.iNumber) fv6.iNumber (bmFindNext u.fbm).1
    (u.f.time + residualWrites u fv6.iNumber fv6.iNode)
    (inodeGetsize fv6.iNode + residualLength (inodeGetsize fv6.iNode) len)
    (appendLeft (inodeGetsize fv6.iNode) len)

/-- An append leaves the same bytes for any stack exactly when the file is refused for its size, or
what is left of the buffer can be counted and neither happens. -/
theorem filev6Writebytes_stackFree_iff (buf : List UInt8)
    (range : inodeOutOfRange u.s fv6.iNumber = false)
    (present : inodeSectorNb u.s fv6.iNumber < u.f.sectors.length) :
    StackFree (fun stack => filev6Writebytes (u.withStack stack) fv6 buf) ↔
      7 * 256 * 512 ≤ inodeGetsize fv6.iNode ∨
        (CountsDown (inodeGetsize fv6.iNode) buf.length ∧
          ¬AppendOverflows u fv6 buf.length ∧ ¬AppendLeaks u fv6 buf.length) := by
  by_cases large : 7 * 256 * 512 ≤ inodeGetsize fv6.iNode
  · exact iff_of_true (.of_withStack errFileTooLarge u fv6
      fun stack => filev6Writebytes_tooLarge (u := u.withStack stack) buf large) (.inl large)
  have fits : inodeGetsize fv6.iNode / 512 + 1 ≤ 1792 := by
    omega
  rw [or_iff_right large]
  by_cases counts : CountsDown (inodeGetsize fv6.iNode) buf.length
  case neg =>
    exact iff_of_false (not_stackFree (filev6Writebytes_underflows (u.withStack u.f.host.stack)
      buf fits counts)) fun both => counts both.1
  rw [and_iff_right counts]
  have residual : residualLength (inodeGetsize fv6.iNode) buf.length ≤ 512 := by
    rw [residualLength]
    split <;> omega
  have inBuf := appendLeft_le (inodeGetsize fv6.iNode) buf.length
  obtain ⟨advanced, bitmap, number, length⟩ := filledUp_left buf range present fits
  have runs : ∀ stack, filev6Writebytes (u.withStack stack) fv6 buf =
      writebytesLoop (inodeGetsize fv6.iNode) buf buf.length
        ((filledUp u fv6 buf).1.withStack stack) (filledUp u fv6 buf).2
        (appendLeft (inodeGetsize fv6.iNode) buf.length)
        (residualLength (inodeGetsize fv6.iNode) buf.length) := by
    intro stack
    rw [filev6Writebytes_rounds _ buf fits counts, filledUp_withStack]
  have loop := writebytesLoop_stackFree_iff buf.length (filledUp u fv6 buf).1
    (filledUp u fv6 buf).2 (appendLeft (inodeGetsize fv6.iNode) buf.length)
    (residualLength (inodeGetsize fv6.iNode) buf.length) (by omega) inBuf
    (by omega : inodeGetsize fv6.iNode + _ + 512 < 2 ^ 24)
    (by rw [advanced.s, number]; exact range)
    (by rw [advanced.s, number]; exact Nat.lt_of_lt_of_le present length)
  rw [advanced.host, advanced.s, advanced.time, bitmap, number] at loop
  simp only [runs]
  exact loop

end Append

section Create

variable {u : UnixFilesystem} {mode : UInt16}

/-- The number of the inode that `filev6_create` stores. -/
def createdNumber (u : UnixFilesystem) : UInt16 := UInt16.ofNat (inodeAlloc u).1.toNat

/-- `filev6_create` stores an inode: it finds a number whose sector is in the disk file, and the
transfers succeed. -/
structure CreatesInode (u : UnixFilesystem) : Prop where
  /-- A number is found. -/
  found : 0 ≤ (inodeAlloc u).1
  /-- It is in the table. -/
  range : inodeOutOfRange u.s (createdNumber u) = false
  /-- Its sector is in the disk file. -/
  present : inodeSectorNb u.s (createdNumber u) < u.f.sectors.length
  /-- The inode is stored. -/
  transfers : InodeTransfers u.f.host (inodeSectorNb u.s (createdNumber u)) u.f.time

/-- Creating a file leaves the same bytes on the disk, whatever the memory holds that the code does
not initialise. -/
def CreateFree (u : UnixFilesystem) (mode : UInt16) : Prop :=
  ∀ stack stack' fv6 fv6', SameContent (filev6Create (u.withStack stack) mode fv6).2.1.f
    (filev6Create (u.withStack stack') mode fv6').2.1.f

/-- Reserving an inode number concerns the bitmap only. -/
theorem inodeAlloc_disk (u : UnixFilesystem) :
    (inodeAlloc u).2.f = u.f ∧ (inodeAlloc u).2.s = u.s := by
  rw [inodeAlloc]
  split
  split
  · exact ⟨rfl, rfl⟩
  · exact ⟨rfl, rfl⟩

/-- Nor does it depend on the stack. -/
theorem inodeAlloc_withStack (u : UnixFilesystem) (stack : Nat → Sector) :
    inodeAlloc (u.withStack stack) =
      ((inodeAlloc u).1, (inodeAlloc u).2.withStack stack) := by
  have same : (u.withStack stack).ibm = u.ibm := rfl
  rw [inodeAlloc, inodeAlloc, same]
  split
  split
  · rfl
  · rfl

/-- The disk after a file has been created. -/
theorem filev6Create_disk (u : UnixFilesystem) (mode : UInt16) (stack : Nat → Sector)
    (fv6 : Filev6) : SameContent (filev6Create (u.withStack stack) mode fv6).2.1.f
      (if (inodeAlloc u).1 < 0 then u.f
        else (inodeWrite (inodeAlloc u).2 (createdNumber u) (fv6.iNode.created mode)).2.f) := by
  rw [filev6Create, inodeAlloc_withStack, createdNumber]
  by_cases missing : (inodeAlloc u).1 < 0
  · simp only [if_pos missing]
    rw [← (inodeAlloc_disk u).1]
    exact sameContent_withStack _ stack _
  · simp only [if_neg missing, inodeWrite_withStack]
    exact sameContent_withStack _ stack _

/-- Creating a file stores what the structure held exactly when it stores an inode. -/
theorem filev6Create_free_iff (mode : UInt16) : CreateFree u mode ↔ ¬CreatesInode u := by
  obtain ⟨disk, superblock⟩ := inodeAlloc_disk u
  constructor
  · rintro free ⟨found, range, present, transfers⟩
    rw [← superblock] at range present
    rw [← disk] at present transfers
    rw [← superblock] at transfers
    have stored : ∀ inode : Inode, SameContent
        (filev6Create (u.withStack u.f.host.stack) mode ⟨0, inode, 0⟩).2.1.f _ := fun inode =>
      (filev6Create_disk u mode u.f.host.stack ⟨0, inode, 0⟩).trans (by
        rw [if_neg (Int.not_lt.mpr found)]
        exact inodeWrite_stores (inode.created mode) range present transfers)
    have same := free u.f.host.stack u.f.host.stack ⟨0, Inode.zero, 0⟩
      ⟨0, { Inode.zero with iNlink := 1 }, 0⟩
    have equal := ((stored _).symm.trans (same.trans (stored _))).sectors
    have here := congrArg (fun sectors => sectors[inodeSectorNb (inodeAlloc u).2.s
      (createdNumber u)]?) equal
    simp only [Disk.overwrite_same, Option.some.injEq] at here
    have fits : (inodeIndex (createdNumber u) + 1) * inodeCodec.width ≤ sectorSize := by
      rw [inodeIndex_eq, inodeCodec_width, sectorSize]
      omega
    have inodes := congrArg (fun sector => inodeCodec.get sector (inodeIndex (createdNumber u)))
      here
    simp only [inodeCodec.get_set_same _ _ fits] at inodes
    have links : (0 : UInt8) = 1 := congrArg Inode.iNlink inodes
    exact absurd links (by decide)
  · intro none stack stack' fv6 fv6'
    have kept : ∀ stack fv6,
        SameContent (filev6Create (u.withStack stack) mode fv6).2.1.f u.f := by
      intro stack fv6
      refine (filev6Create_disk u mode stack fv6).trans ?_
      by_cases missing : (inodeAlloc u).1 < 0
      · rw [if_pos missing]
        exact .refl u.f
      rw [if_neg missing, ← disk]
      refine inodeWrite_skips _ fun works => none ?_
      rw [superblock, disk] at works
      exact ⟨Int.not_lt.mp missing, works.1, works.2.1, works.2.2⟩
    exact (kept stack fv6).trans (kept stack' fv6').symm

end Create

/-- Two runs that differ in memory that the code does not initialise leave the same bytes on the
disk: those of `filev6_create` exactly when it stores no inode, and those of `filev6_writebytes`
exactly when the file is refused for its size, or what is left of the buffer can be counted, no
address is stored past the slots and the last round does not store what it has not filled of its
sector. -/
theorem uninitialised_same_iff {u : UnixFilesystem} {fv6 : Filev6} {inode : Inode}
    (there : u.f.Allocated u.s fv6.iNumber.toNat inode) (mode : UInt16) (buf : List UInt8) :
    (CreateFree u mode ↔ ¬CreatesInode u) ∧
      (StackFree (fun stack => filev6Writebytes (u.withStack stack) fv6 buf) ↔
        7 * 256 * 512 ≤ inodeGetsize fv6.iNode ∨
          (CountsDown (inodeGetsize fv6.iNode) buf.length ∧
            ¬AppendOverflows u fv6 buf.length ∧ ¬AppendLeaks u fv6 buf.length)) :=
  ⟨filev6Create_free_iff mode, filev6Writebytes_stackFree_iff buf there.inRange there.present⟩

set_option maxRecDepth 10000 in
/-- On the empty volume a new inode keeps the link count that the structure held, and a byte that is
appended to the root is followed by what the stack held. -/
theorem uninitialised_shows :
    ∃ u fv6, mountv6 emptyVolume = .ok u ∧ filev6Open u 1 = .ok fv6 ∧
      u.f.Allocated u.s fv6.iNumber.toNat fv6.iNode ∧ ¬CreateFree u 0 ∧
      ¬StackFree (fun stack => filev6Writebytes (u.withStack stack) fv6 [65]) := by
  obtain ⟨u, mounted, opened, created, written⟩ := mountv6_check (f := emptyVolume)
    (P := fun u => filev6Open u 1 = .ok ⟨1, emptyDirectory, 0⟩ ∧
      (filev6Create (u.withStack fun _ => zeroSector) 0 ⟨0, Inode.zero, 0⟩).2.1.f.sectors ≠
        (filev6Create (u.withStack fun _ => zeroSector) 0
          ⟨0, { Inode.zero with iNlink := 1 }, 0⟩).2.1.f.sectors ∧
      (filev6Writebytes (u.withStack fun _ => zeroSector) ⟨1, emptyDirectory, 0⟩ [65]).map
          (fun run => run.2.1.f.sectors) ≠
        (filev6Writebytes (u.withStack fun _ => Block.fill sectorSize 1)
          ⟨1, emptyDirectory, 0⟩ [65]).map (fun run => run.2.1.f.sectors)) (by decide +kernel)
  refine ⟨u, _, mounted, opened, (filev6Open_ok opened).1, fun free => ?_, fun free => ?_⟩
  · exact created (free _ _ _ _).sectors
  · obtain ⟨first, second, left, right, same⟩ :=
      free (fun _ => zeroSector) (fun _ => Block.fill sectorSize 1)
    have zeros := congrArg (Option.map fun run => run.2.1.f.sectors) left
    have ones := congrArg (Option.map fun run => run.2.1.f.sectors) right
    exact written (zeros.trans ((congrArg some same.sectors).trans ones.symm))

set_option maxRecDepth 10000 in
/-- A record that fills up the last sector of a directory leaves the same bytes for any stack. -/
theorem uninitialised_same_single :
    ∃ u fv6, mountv6 singleVolume = .ok u ∧ filev6Open u 1 = .ok fv6 ∧
      StackFree (fun stack => filev6Writebytes (u.withStack stack) fv6 (List.replicate 16 65)) := by
  obtain ⟨u, mounted, opened⟩ := mountv6_check (f := singleVolume)
    (P := fun u => filev6Open u 1 = .ok ⟨1, singleDirectory, 0⟩) (by decide +kernel)
  have left : appendLeft (inodeGetsize singleDirectory) 16 = 0 := by
    rw [singleDirectory_size]
    decide
  refine ⟨u, _, mounted, opened, (uninitialised_same_iff (filev6Open_ok opened).1 0 _).2.mpr
    (.inr ⟨countsDown_of_short (by decide), fun overflows => ?_, fun leaks => ?_⟩)⟩
  · rw [AppendOverflows, List.length_replicate, left] at overflows
    exact not_overflows_zero _ overflows
  · rw [AppendLeaks, List.length_replicate, left] at leaks
    exact leaks.partly rfl

end U6fs
