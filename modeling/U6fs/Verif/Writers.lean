import U6fs.Verif.Effects

/-!
# Appending to a file

The effect of `filev6_writebytes` as long as no address past `i_addr[7]` is stored: the last
sector is filled up, unless `inode_findsector` or the read of that sector fails, and then one
free sector after another is taken, until the content is written or no sector is free. Nothing
here says that a sector taken is free in fact; the bitmap says so.
-/
namespace U6fs

open Lib

/-- The inode that `filev6_writesector` stores: a new size, and sector `x` at the slot that the
new size selects. -/
def Inode.placed (inode : Inode) (size x : Nat) : Inode :=
  if slot : size / sectorSize < addrSmallLength then
    (inode.resized size).setAddr (size / sectorSize) (UInt16.ofNat x) slot
  else inode.resized size

/-- The mode is kept. -/
@[simp] theorem placed_iMode (inode : Inode) (size x : Nat) :
    (inode.placed size x).iMode = inode.iMode := by
  unfold Inode.placed
  split <;> rfl

/-- The new size is stored. -/
theorem inodeGetsize_placed (inode : Inode) (size x : Nat) (small : size < 2 ^ 24) :
    inodeGetsize (inode.placed size x) = size := by
  have resized := inodeGetsize_resized inode size small
  unfold Inode.placed
  split
  · exact resized
  · exact resized

/-- The new address is at the slot of the new size; the others are kept. -/
theorem placed_addr (inode : Inode) (size x : Nat) (small : size < 4096) (k : Nat) :
    (inode.placed size x).iAddr.toList.getD k 0 =
      if k = size / 512 then UInt16.ofNat x else inode.iAddr.toList.getD k 0 := by
  have slot : size / sectorSize < addrSmallLength := by
    simp only [sectorSize, addrSmallLength]
    omega
  rw [Inode.placed, dif_pos slot]
  simp only [Inode.setAddr, resized_iAddr, sectorSize, List.getD_eq_getElem?_getD,
    Vector.getElem?_toList, Vector.getElem?_set]
  split_ifs with h1 h2
  · simp
  · exact absurd h1.symm h2
  · exact absurd (Eq.symm ‹k = size / 512›) h1
  · rfl

/-- Whether an inode is allocated depends on its mode. -/
theorem isAllocated_congr {inode inode' : Inode} (mode : inode'.iMode = inode.iMode) :
    inode'.isAllocated = inode.isAllocated := by
  rw [Inode.isAllocated, Inode.isAllocated, mode]

/-- The last sector of a file cannot be filled up: it is not found, or not in the disk file. -/
def LastSectorMissing (u : UnixFilesystem) (inode : Inode) : Prop :=
  inodeFindsector u inode (inodeGetsize inode / 512 : Nat) < 0 ∨
    ∃ x : Nat, inodeFindsector u inode (inodeGetsize inode / 512 : Nat) = x ∧
      u.f.sectors[x]? = none

/-- The last sector of a file, where it is found, is in the data region. -/
def LastSectorInData (u : UnixFilesystem) (inode : Inode) : Prop :=
  ∀ x : Nat, inodeFindsector u inode (inodeGetsize inode / 512 : Nat) = x → u.s.InData x

/-- The last sector of a file was filled up with some bytes. -/
structure FilledUp (u u' : UnixFilesystem) (inr : Nat) (inode inode' : Inode)
    (bytes : List UInt8) : Prop where
  /-- The last sector is partly used. -/
  residual : inodeGetsize inode % 512 ≠ 0
  /-- The sector is overwritten from the end of the file on, and then the inode. -/
  effect : ∃ (x : Nat) (sector : Sector) (f' : Disk),
    inodeFindsector u inode (inodeGetsize inode / 512 : Nat) = x ∧
    u.f.sectors[x]? = some sector ∧
    Put u.f f' u.s .filev6WritesectorResidual x
      (sector.splice (inodeGetsize inode % 512) bytes) inr inode' ∧
    u' = { u with f := f' }
  /-- The file grows by the bytes. -/
  inode : inode' = inode.resized (inodeGetsize inode + bytes.length)

/-- Bytes were appended to a file of `size` bytes in new sectors, or as far as there are free
ones. -/
inductive Extends (inr : UInt16) : UnixFilesystem → Inode → Nat → List UInt8 →
    Int → UnixFilesystem → Inode → Prop
  /-- There is nothing to write. -/
  | done (u : UnixFilesystem) (inode : Inode) (size : Nat) :
    Extends inr u inode size [] errNone u inode
  /-- No sector is free. -/
  | full {u : UnixFilesystem} {inode : Inode} {size : Nat} {bytes : List UInt8}
    {fbm : BmblockArray} (more : bytes ≠ []) (same : fbm.SameBits u.fbm)
    (taken : ∀ x, bmGet u.fbm x ≠ 0) :
    Extends inr u inode size bytes errBitmapFull { u with fbm } inode
  /-- A sector is written, and what is left of the bytes after it. -/
  | sector {u u' : UnixFilesystem} {inode inode' : Inode} {size : Nat} {bytes : List UInt8}
    {fbm : BmblockArray} {f : Disk} {x : Nat} {code : Int} (more : bytes ≠ [])
    (free : bmGet u.fbm x = 0) (same : fbm.SameBits u.fbm)
    (put : Put u.f f u.s .filev6Writesector x
      ((u.f.host.stack u.f.time).splice 0 (bytes.take 512)) inr.toNat
      (inode.placed (size + (bytes.take 512).length) x))
    (rest : Extends inr { u with f, fbm } (inode.placed (size + (bytes.take 512).length) x)
      (size + (bytes.take 512).length) (bytes.drop 512) code u' inode') :
    Extends inr u inode size bytes code u' inode'

/-- What goes into the last sector of a file of `size` bytes when `len` bytes are appended. -/
def residualLength (size len : Nat) : Nat :=
  if size % 512 = 0 then 0 else min len (512 - size % 512)

/-- Appending `len` bytes to a file of `size` bytes stores no address past `i_addr[7]`: the bytes
fit into the last sector, or the file stays below 4096 bytes. -/
def SlotsInside (size len : Nat) : Prop := len ≤ (512 - size % 512) % 512 ∨ size + len < 4096

instance (size len : Nat) : Decidable (SlotsInside size len) :=
  inferInstanceAs (Decidable (_ ∨ _))

/-- Appending `len` bytes to a file of `size` bytes takes a new sector: the bytes do not fit into
its last one. -/
def TakesSector (size len : Nat) : Prop := (512 - size % 512) % 512 < len

instance (size len : Nat) : Decidable (TakesSector size len) := inferInstanceAs (Decidable (_ < _))

/-- The sectors that are not written when `len` bytes are appended to a file: its inode is not
there, they are not free if a new sector is taken, and the last sector of the file is another one
if it is partly used. -/
def untouched (u : UnixFilesystem) (inr : Nat) (inode : Inode) (len : Nat) : Set Nat :=
  {y | y ≠ u.s.tableSector inr ∧ (TakesSector (inodeGetsize inode) len → bmGet u.fbm y ≠ 0) ∧
    (inodeGetsize inode % 512 ≠ 0 → inodeFindsector u inode (inodeGetsize inode / 512 : Nat) ≠ y)}

namespace Geometry

variable {u : UnixFilesystem} (geometry : Geometry u)

include geometry

/-- A search of the sector bitmap keeps the geometry. -/
theorem searched {fbm : BmblockArray} (same : fbm.SameBits u.fbm) : Geometry { u with fbm } :=
  ⟨geometry.works, geometry.table, geometry.size, geometry.data, geometry.inside,
    ⟨geometry.ranges.ibm, by rw [same.min, same.max]; exact geometry.ranges.fbm⟩⟩

/-- A sector and an inode written keep the geometry. -/
theorem put {f' : Disk} {writer : Writer} {x inr : Nat} {content : Sector} {inode : Inode}
    (put : Put u.f f' u.s writer x content inr inode) : Geometry { u with f := f' } :=
  ⟨by rw [put.host]; exact geometry.works, geometry.table, geometry.size, geometry.data,
    by have := geometry.inside; rw [put.length]; simp only; omega,
    ⟨geometry.ranges.ibm, geometry.ranges.fbm⟩⟩

/-- A number with a clear bit in the sector bitmap is in the data region. -/
theorem data_of_free {x : Nat} (free : bmGet u.fbm x = 0) : u.s.InData x := by
  obtain ⟨range, -⟩ := (bmGet_eq_zero_iff _ _).mp free
  rwa [geometry.ranges.fbm.1, geometry.ranges.fbm.2] at range

/-- `filev6_writesector_residual` fills up the last sector, or fails and changes nothing. -/
theorem filev6WritesectorResidual_spec (fv6 : Filev6) (buf : List UInt8)
    (inRange : inodeOutOfRange u.s fv6.iNumber = false) (short : buf.length ≤ 512)
    (fits : inodeGetsize fv6.iNode / 512 + 1 ≤ 1792)
    (residual : inodeGetsize fv6.iNode % 512 ≠ 0) (target : LastSectorInData u fv6.iNode) :
    ∃ code u' inode', filev6WritesectorResidual u fv6 buf
        (inodeGetsize fv6.iNode / sectorSize + 1) (inodeGetsize fv6.iNode % sectorSize)
        (inodeGetsize fv6.iNode) = (code, u', { fv6 with iNode := inode' }) ∧
      ((LastSectorMissing u fv6.iNode ∧ u' = u ∧ inode' = fv6.iNode) ∨
        FilledUp u u' fv6.iNumber.toNat fv6.iNode inode' buf) := by
  rw [filev6WritesectorResidual, Nat.add_sub_cancel]
  split
  · rename_i negative
    exact ⟨_, u, fv6.iNode, rfl, .inl ⟨.inl negative, rfl, rfl⟩⟩
  · rename_i found
    obtain ⟨x, at_x⟩ := Int.eq_ofNat_of_zero_le (Int.not_lt.mp found)
    have data := target x at_x
    have number : inodeFindsector u fv6.iNode (inodeGetsize fv6.iNode / sectorSize : Nat) = x :=
      at_x
    rw [number, Int.toNat_natCast]
    have read := sectorRead_faultless geometry.works x
    cases there : u.f.sectors[x]? with
    | none =>
      rw [there] at read
      rw [read]
      exact ⟨_, u, fv6.iNode, rfl, .inl ⟨.inr ⟨x, at_x, there⟩, rfl, rfl⟩⟩
    | some sector =>
      rw [there] at read
      have sized := inodeSetsize_ok fv6.iNode (inodeGetsize fv6.iNode + buf.length) (by omega)
      obtain ⟨f₁, f', written, stored, put⟩ := geometry.put_spec data .filev6WritesectorResidual
        (sector.splice (inodeGetsize fv6.iNode % 512) buf) inRange
        (fv6.iNode.resized (inodeGetsize fv6.iNode + buf.length))
      rw [Int.natCast_add] at sized
      rw [sized]
      generalize is : fv6.iNode.resized (inodeGetsize fv6.iNode + buf.length) = inode' at *
      simp only [read, written, stored, Int.lt_irrefl, if_false]
      exact ⟨_, _, _, rfl, .inr ⟨residual, ⟨x, sector, f', at_x, there, put, rfl⟩, is.symm⟩⟩

/-- `filev6_writesector` takes a free sector, or finds none. -/
theorem filev6Writesector_spec (fv6 : Filev6) (buf : List UInt8) (fileSize : Nat)
    (inRange : inodeOutOfRange u.s fv6.iNumber = false) (small : fileSize + buf.length < 4096) :
    ∃ code u' inode',
      filev6Writesector u fv6 buf fileSize = some (code, u', { fv6 with iNode := inode' }) ∧
      ((code = errBitmapFull ∧ inode' = fv6.iNode ∧ (∀ x, bmGet u.fbm x ≠ 0) ∧
          ∃ fbm, fbm.SameBits u.fbm ∧ u' = { u with fbm }) ∨
        (code = errNone ∧ ∃ fbm f x, bmGet u.fbm x = 0 ∧ fbm.SameBits u.fbm ∧
          Put u.f f u.s .filev6Writesector x ((u.f.host.stack u.f.time).splice 0 buf)
            fv6.iNumber.toNat (fv6.iNode.placed (fileSize + buf.length) x) ∧
          inode' = fv6.iNode.placed (fileSize + buf.length) x ∧ u' = { u with f, fbm })) := by
  rw [filev6Writesector]
  split
  rename_i freeSector fbm found
  obtain ⟨same, ⟨x, free, value⟩ | ⟨value, full⟩⟩ := bmFindNext_spec found
  · have data := geometry.data_of_free free
    have bound := u.s.sFsize.toNat_lt
    have number : toInt32 x = x := toInt32_of_small (by have := data.2; omega)
    have sized := inodeSetsize_ok fv6.iNode (fileSize + buf.length) (by omega)
    rw [Int.natCast_add] at sized
    rw [value, number, if_neg (by omega), Int.toNat_natCast]
    obtain ⟨f₁, f', written, stored, put⟩ := (geometry.searched same).put_spec data
      .filev6Writesector ((u.f.host.stack u.f.time).splice 0 buf) inRange
      (fv6.iNode.placed (fileSize + buf.length) x)
    have slot : inodeGetsize (fv6.iNode.resized (fileSize + buf.length)) / sectorSize <
        addrSmallLength := by
      rw [inodeGetsize_resized _ _ (by omega), sectorSize, addrSmallLength]
      omega
    have placed : fv6.iNode.placed (fileSize + buf.length) x =
        (fv6.iNode.resized (fileSize + buf.length)).setAddr _ (UInt16.ofNat x) slot := by
      have size := inodeGetsize_resized fv6.iNode (fileSize + buf.length) (by omega)
      simp only [size] at slot ⊢
      rw [Inode.placed, dif_pos slot]
    rw [sized]
    generalize is : fv6.iNode.placed (fileSize + buf.length) x = inode' at *
    generalize fv6.iNode.resized (fileSize + buf.length) = iNode at *
    rw [written]
    simp only [Int.lt_irrefl, if_false, dif_pos slot, ← placed, stored]
    refine ⟨_, _, _, rfl, .inr ⟨rfl, fbm, f', x, free, same, ?_, is.symm, rfl⟩⟩
    rw [is]
    exact put
  · rw [value, if_pos (by decide)]
    exact ⟨_, _, _, rfl, .inl ⟨rfl, rfl, full, fbm, same, rfl⟩⟩

end Geometry

/-- What a round takes of the bytes that are left. -/
theorem writebytesMinSize_eq (left : Nat) : writebytesMinSize left = min 512 left := by
  rw [writebytesMinSize, sectorSize]
  split <;> omega

/-- The loop of `filev6_writebytes` appends what is left of the buffer. -/
theorem writebytesLoop_spec (inodeSize : Nat) (buf : List UInt8) :
    ∀ (fuel : Nat) (u : UnixFilesystem) (fv6 : Filev6) (written : Nat), Geometry u →
      inodeOutOfRange u.s fv6.iNumber = false →
      buf.length ≤ written ∨ inodeSize + buf.length < 4096 →
      written ≤ buf.length → buf.length - written ≤ fuel →
      ∃ code u' inode', writebytesLoop inodeSize buf fuel u fv6 (buf.length - written : Nat)
          written = some (code, u', { fv6 with iNode := inode' }) ∧
        Extends fv6.iNumber u fv6.iNode (inodeSize + written) (buf.drop written) code u' inode'
  | 0, u, fv6, written, geometry, inRange, small, inside, enough => by
    have finished : buf.drop written = [] := List.drop_eq_nil_of_le (by omega)
    rw [finished]
    exact ⟨_, _, _, rfl, .done _ _ _⟩
  | fuel + 1, u, fv6, written, geometry, inRange, small, inside, enough => by
    rw [writebytesLoop]
    by_cases finished : buf.length ≤ written
    · rw [if_neg (by omega), List.drop_eq_nil_of_le finished]
      exact ⟨_, _, _, rfl, .done _ _ _⟩
    · have rounds := writebytesMinSize_eq (buf.length - written)
      have chunk : window buf written (writebytesMinSize (buf.length - written : Nat)) =
          (buf.drop written).take 512 := by
        rw [window, rounds, ← List.length_drop, ← List.take_take, List.take_length]
      have length : ((buf.drop written).take 512).length = min 512 (buf.length - written) := by
        rw [List.length_take, List.length_drop]
      have more : buf.drop written ≠ [] := by
        rw [ne_eq, List.drop_eq_nil_iff]
        exact finished
      obtain ⟨code, u₁, inode₁, run, outcome⟩ := geometry.filev6Writesector_spec fv6
        ((buf.drop written).take 512) (inodeSize + written) inRange (by omega)
      rw [if_pos (by omega), chunk, run]
      rcases outcome with ⟨rfl, rfl, full, fbm, same, rfl⟩ |
        ⟨rfl, fbm, f, x, free, same, put, is, rfl⟩
      · exact ⟨_, _, _, rfl, .full more same full⟩
      · obtain ⟨code, u', inode', loop, rest⟩ := writebytesLoop_spec inodeSize buf fuel
          { u with f, fbm } { fv6 with iNode := inode₁ }
          (written + min 512 (buf.length - written)) ((geometry.searched same).put put) inRange
          (by omega) (by omega) (by omega)
        simp only [Int.lt_irrefl, if_false, rounds]
        rw [show ((buf.length - written : Nat) : Int) - (min 512 (buf.length - written) : Nat) =
          (buf.length - (written + min 512 (buf.length - written)) : Nat) by omega]
        refine ⟨code, u', inode', loop, .sector more free same put ?_⟩
        have tail : (buf.drop written).drop 512 =
            buf.drop (written + min 512 (buf.length - written)) := by
          rw [List.drop_drop]
          rcases Nat.le_total 512 (buf.length - written) with whole | last
          · rw [Nat.min_eq_left whole]
          · rw [List.drop_eq_nil_of_le (by omega), List.drop_eq_nil_of_le (by omega)]
        rw [← is, tail, length, Nat.add_assoc]
        exact rest

/-- What `filev6_writebytes` appends to an open file, as long as the slots suffice: a file that
is too large is left alone; otherwise the last sector is filled up first, if it is partly used
and can be, and the rest goes into new sectors. -/
structure Appends (u u' : UnixFilesystem) (inr : UInt16) (inode inode' : Inode)
    (bytes : List UInt8) (code : Int) : Prop where
  /-- The file is small enough for the block map. -/
  fits : inodeGetsize inode / 512 + 1 ≤ 1792
  /-- The last sector is filled up, then new sectors are taken. -/
  stages : ∃ u₁ inode₁,
    ((inodeGetsize inode % 512 = 0 ∧ u₁ = u ∧ inode₁ = inode) ∨
      (inodeGetsize inode % 512 ≠ 0 ∧ LastSectorMissing u inode ∧ u₁ = u ∧ inode₁ = inode) ∨
      FilledUp u u₁ inr.toNat inode inode₁
        (bytes.take (residualLength (inodeGetsize inode) bytes.length))) ∧
    Extends inr u₁ inode₁
      (inodeGetsize inode + residualLength (inodeGetsize inode) bytes.length)
      (bytes.drop (residualLength (inodeGetsize inode) bytes.length)) code u' inode'

/-- What changes at most when inode `inr` is appended to: that inode, the cursor of the sector
bitmap, and sectors that are not among those kept. -/
structure Framed (u u' : UnixFilesystem) (inr : Nat) (kept : Set Nat) : Prop where
  /-- The superblock is as before. -/
  s : u'.s = u.s
  /-- The inode bitmap is as before. -/
  ibm : u'.ibm = u.ibm
  /-- The sector bits are as before. -/
  fbm : u'.fbm.SameBits u.fbm
  /-- The machine is the same. -/
  host : u'.f.host = u.f.host
  /-- The file does not shrink. -/
  length : u.f.sectors.length ≤ u'.f.sectors.length
  /-- Other inodes are as before. -/
  inodeAt : ∀ m, m ≠ inr → u'.f.inodeAt u.s m = u.f.inodeAt u.s m
  /-- The kept sectors are as before. -/
  sectors : ∀ y ∈ kept, u'.f.sectors[y]? = u.f.sectors[y]?

namespace Framed

variable {u u' u'' : UnixFilesystem} {inr : Nat} {kept : Set Nat}

/-- Nothing changes. -/
protected theorem refl (u : UnixFilesystem) (inr : Nat) (kept : Set Nat) : Framed u u inr kept :=
  ⟨rfl, rfl, .refl _, rfl, le_rfl, fun _ _ => rfl, fun _ _ => rfl⟩

/-- One change after another. -/
protected theorem trans (first : Framed u u' inr kept) (second : Framed u' u'' inr kept) :
    Framed u u'' inr kept where
  s := second.s.trans first.s
  ibm := second.ibm.trans first.ibm
  fbm := second.fbm.trans first.fbm
  host := second.host.trans first.host
  length := first.length.trans second.length
  inodeAt m other := by rw [← first.s, second.inodeAt m other, first.s, first.inodeAt m other]
  sectors y mem := (second.sectors y mem).trans (first.sectors y mem)

/-- A sector that is not kept and the inode are written. -/
theorem put {f : Disk} {fbm : BmblockArray} {writer : Writer} {x : Nat} {content : Sector}
    {inode : Inode} (same : fbm.SameBits u.fbm)
    (put : Put u.f f u.s writer x content inr inode) (free : x ∉ kept)
    (table : u.s.tableSector inr ∉ kept) : Framed u { u with f, fbm } inr kept where
  s := rfl
  ibm := rfl
  fbm := same
  host := put.host
  length := by
    rw [put.length]
    exact Nat.le_max_left _ _
  inodeAt m other := by rw [put.inodeAt, if_neg other]
  sectors y mem := by
    apply put.other
    · rintro rfl
      exact free mem
    · rintro rfl
      exact table mem

/-- The geometry is kept. -/
theorem geometry (framed : Framed u u' inr kept) (geometry : Geometry u) : Geometry u' where
  works := by rw [framed.host]; exact geometry.works
  table := by rw [framed.s]; exact geometry.table
  size := by rw [framed.s]; exact geometry.size
  data := by rw [framed.s]; exact geometry.data
  inside := by rw [framed.s]; exact geometry.inside.trans framed.length
  ranges := ⟨by rw [framed.ibm, framed.s]; exact geometry.ranges.ibm,
    by rw [framed.fbm.min, framed.fbm.max, framed.s]; exact geometry.ranges.fbm⟩

end Framed

section Outcome

variable {u u' : UnixFilesystem} {inr : UInt16} {inode inode' : Inode} {size : Nat}
  {bytes : List UInt8} {code : Int}

/-- Nothing to write changes nothing. -/
theorem Extends.nil (extension : Extends inr u inode size [] code u' inode') :
    u' = u ∧ inode' = inode ∧ code = errNone := by
  cases extension with
  | done => exact ⟨rfl, rfl, rfl⟩
  | full more => exact absurd rfl more
  | sector more => exact absurd rfl more

/-- Taking new sectors changes free sectors only, and the table sector of the inode. -/
theorem Extends.framed (extension : Extends inr u inode size bytes code u' inode') :
    Framed u u' inr.toNat {y | y ≠ u.s.tableSector inr.toNat ∧ bmGet u.fbm y ≠ 0} := by
  induction extension with
  | done => exact .refl _ _ _
  | full more same taken =>
    exact ⟨rfl, rfl, same, rfl, le_rfl, fun _ _ => rfl, fun _ _ => rfl⟩
  | sector more free same put rest ih =>
    refine .trans (.put same put (fun mem => mem.2 free) (fun mem => mem.1 rfl)) ?_
    simp only [same.get] at ih
    exact ih

/-- The table holds the inode after new sectors were taken, with the mode it had. -/
theorem Extends.stored (extension : Extends inr u inode size bytes code u' inode')
    (there : u.f.inodeAt u.s inr.toNat = some inode) :
    u'.f.inodeAt u.s inr.toNat = some inode' ∧ inode'.iMode = inode.iMode := by
  induction extension with
  | done => exact ⟨there, rfl⟩
  | full => exact ⟨there, rfl⟩
  | sector more free same put rest ih =>
    have next := ih (by rw [put.inodeAt, if_pos rfl])
    exact ⟨next.1, next.2.trans (placed_iMode _ _ _)⟩

/-- The addresses of a file that takes new sectors below 4096 bytes: those before the first slot
are kept, others are kept or name free sectors; and the slot of the last byte names a free sector
if one was taken. -/
theorem Extends.slots (extension : Extends inr u inode size bytes code u' inode')
    (geometry : Geometry u) (small : bytes = [] ∨ size + bytes.length < 4096) :
    (∀ k, inode'.iAddr.toList.getD k 0 = inode.iAddr.toList.getD k 0 ∨
      bmGet u.fbm (inode'.iAddr.toList.getD k 0).toNat = 0) ∧
    (∀ k, k < (size + min 512 bytes.length) / 512 →
      inode'.iAddr.toList.getD k 0 = inode.iAddr.toList.getD k 0) ∧
    (inode' = inode ∨
      (bmGet u.fbm (inode'.iAddr.toList.getD (inodeGetsize inode' / 512) 0).toNat = 0 ∧
        inodeGetsize inode' ≤ size + bytes.length)) := by
  induction extension with
  | done => exact ⟨fun _ => .inl rfl, fun _ _ => rfl, .inl rfl⟩
  | full => exact ⟨fun _ => .inl rfl, fun _ _ => rfl, .inl rfl⟩
  | @sector u u' inode inode' size bytes fbm f x code more free same put rest ih =>
    have room := small.resolve_left more
    have first : (bytes.take 512).length = min 512 bytes.length := List.length_take
    have left : (bytes.drop 512).length = bytes.length - 512 := List.length_drop
    have placed := placed_addr inode (size + (bytes.take 512).length) x (by omega)
    have stored := inodeGetsize_placed inode (size + (bytes.take 512).length) x (by omega)
    have data := geometry.data_of_free free
    have number : (UInt16.ofNat x).toNat = x := by
      have bound := u.s.sFsize.toNat_lt
      have high := data.2
      rw [UInt16.toNat_ofNat']
      exact Nat.mod_eq_of_lt (by omega)
    have taken : ∀ k, (inode.placed (size + (bytes.take 512).length) x).iAddr.toList.getD k 0 =
        inode.iAddr.toList.getD k 0 ∨ bmGet u.fbm
          ((inode.placed (size + (bytes.take 512).length) x).iAddr.toList.getD k 0).toNat = 0 := by
      intro k
      rw [placed k]
      split
      · right
        rw [number]
        exact free
      · exact .inl rfl
    obtain ⟨slots, low, last⟩ := ih ((geometry.searched same).put put) (.inr (by omega))
    simp only [same.get] at slots last
    refine ⟨fun k => ?_, fun k before => ?_, .inr ?_⟩
    · rcases slots k with kept | hit
      · rw [kept]
        exact taken k
      · exact .inr hit
    · rw [low k (by omega), placed k, if_neg (by omega)]
    · rcases last with rfl | ⟨hit, bound⟩
      · rw [stored, placed, if_pos rfl, number]
        exact ⟨free, by omega⟩
      · exact ⟨hit, by omega⟩

/-- A file that takes new sectors below 4096 bytes stays below 4096 bytes. -/
theorem Extends.small (extension : Extends inr u inode size bytes code u' inode')
    (small : bytes = [] ∨ size + bytes.length < 4096) :
    inode' = inode ∨ inodeGetsize inode' < 4096 := by
  induction extension with
  | done => exact .inl rfl
  | full => exact .inl rfl
  | @sector u u' inode inode' size bytes fbm f x code more free same put rest ih =>
    have room := small.resolve_left more
    have length : (bytes.take 512).length + (bytes.drop 512).length = bytes.length := by
      rw [← List.length_append, List.take_append_drop]
    have placed := inodeGetsize_placed inode (size + (bytes.take 512).length) x (by omega)
    right
    rcases ih (.inr (by omega)) with unchanged | small
    · rw [unchanged, placed]
      omega
    · exact small

/-- Bytes that need no new sector are all in the last one. -/
theorem residualLength_of_fits {size len : Nat} (fits : ¬TakesSector size len) :
    residualLength size len = len := by
  rw [TakesSector] at fits
  rw [residualLength]
  split <;> omega

/-- Appending to a file leaves the untouched sectors as they are. -/
theorem Appends.framed (appended : Appends u u' inr inode inode' bytes code) :
    Framed u u' inr.toNat (untouched u inr.toNat inode bytes.length) := by
  obtain ⟨u₁, inode₁, first, second⟩ := appended.stages
  have rest (s : u₁.s = u.s) (fbm : u₁.fbm = u.fbm) :
      Framed u₁ u' inr.toNat (untouched u inr.toNat inode bytes.length) := by
    by_cases takes : TakesSector (inodeGetsize inode) bytes.length
    · have framed := second.framed
      refine ⟨framed.s, framed.ibm, framed.fbm, framed.host, framed.length, framed.inodeAt,
        fun y mem => framed.sectors y ⟨?_, ?_⟩⟩
      · rw [s]
        exact mem.1
      · rw [fbm]
        exact mem.2.1 takes
    · rw [residualLength_of_fits takes, List.drop_length] at second
      rw [second.nil.1]
      exact .refl _ _ _
  rcases first with ⟨-, rfl, -⟩ | ⟨-, -, rfl, -⟩ | filled
  · exact rest rfl rfl
  · exact rest rfl rfl
  · obtain ⟨x, sector, f', found, -, put, rfl⟩ := filled.effect
    refine .trans (.put (.refl _) put ?_ ?_) (rest rfl rfl)
    · exact fun mem => mem.2.2 filled.residual found
    · exact fun mem => mem.1 rfl

/-- The table holds the inode that was appended to, with the mode it had. -/
theorem Appends.stored (appended : Appends u u' inr inode inode' bytes code)
    (there : u.f.inodeAt u.s inr.toNat = some inode) :
    u'.f.inodeAt u.s inr.toNat = some inode' ∧ inode'.iMode = inode.iMode := by
  obtain ⟨u₁, inode₁, first, second⟩ := appended.stages
  rcases first with ⟨-, rfl, rfl⟩ | ⟨-, -, rfl, rfl⟩ | filled
  · exact second.stored there
  · exact second.stored there
  · obtain ⟨x, sector, f', -, -, put, rfl⟩ := filled.effect
    have next := second.stored (by rw [put.inodeAt, if_pos rfl])
    rw [filled.inode] at next
    exact ⟨next.1, next.2.trans (resized_iMode _ _)⟩

/-- A file whose slots suffice is as before, or stays below 4096 bytes, or has got the bytes in
its last sector. -/
theorem Appends.grown (appended : Appends u u' inr inode inode' bytes code)
    (slots : SlotsInside (inodeGetsize inode) bytes.length) :
    inode' = inode ∨ inodeGetsize inode' < 4096 ∨
      (inodeGetsize inode % 512 ≠ 0 ∧ bytes.length ≤ 512 - inodeGetsize inode % 512 ∧
        inode' = inode.resized (inodeGetsize inode + bytes.length)) := by
  obtain ⟨u₁, inode₁, first, second⟩ := appended.stages
  simp only [SlotsInside] at slots
  have fits := appended.fits
  have small : bytes.drop (residualLength (inodeGetsize inode) bytes.length) = [] ∨
      inodeGetsize inode + residualLength (inodeGetsize inode) bytes.length +
        (bytes.drop (residualLength (inodeGetsize inode) bytes.length)).length < 4096 := by
    rw [← List.length_eq_zero_iff, List.length_drop, residualLength]
    split <;> omega
  have end' := second.small small
  rcases first with ⟨-, -, rfl⟩ | ⟨-, -, -, rfl⟩ | filled
  · exact end'.imp_right .inl
  · exact end'.imp_right .inl
  · rcases end' with rfl | below
    · right
      have size : inodeGetsize inode' = inodeGetsize inode +
          (bytes.take (residualLength (inodeGetsize inode) bytes.length)).length := by
        rw [filled.inode, inodeGetsize_resized]
        rw [List.length_take, residualLength]
        split <;> omega
      by_cases room : bytes.length ≤ 512 - inodeGetsize inode % 512
      · right
        refine ⟨filled.residual, room, ?_⟩
        have whole : (bytes.take (residualLength (inodeGetsize inode) bytes.length)) = bytes := by
          apply List.take_of_length_le
          rw [residualLength, if_neg filled.residual]
          omega
        rw [filled.inode, whole]
      · left
        rw [size, List.length_take, residualLength, if_neg filled.residual]
        omega
    · exact .inr (.inl below)

/-- A file below 4096 bytes after it took new sectors: the sectors that it had are at the addresses
they had, further addresses are as before or name free sectors, and the last one names a free
sector. -/
structure Grown (u : UnixFilesystem) (inode inode' : Inode) (len : Nat) : Prop where
  /-- The bytes did not fit into its last sector. -/
  more : TakesSector (inodeGetsize inode) len
  /-- It stays below 4096 bytes. -/
  small : inodeGetsize inode + len < 4096
  /-- No more than the bytes were appended. -/
  bound : inodeGetsize inode' ≤ inodeGetsize inode + len
  /-- The slots before the one of the first new sector are kept. -/
  first : ∀ k, k < (512 * sectorCount inode +
      min 512 (len - (512 - inodeGetsize inode % 512) % 512)) / 512 →
    inode'.iAddr.toList.getD k 0 = inode.iAddr.toList.getD k 0
  /-- Each slot is kept or names a free sector. -/
  slots : ∀ k, inode'.iAddr.toList.getD k 0 = inode.iAddr.toList.getD k 0 ∨
    bmGet u.fbm (inode'.iAddr.toList.getD k 0).toNat = 0
  /-- The slot of the last byte names a free sector. -/
  last : bmGet u.fbm (inode'.iAddr.toList.getD (inodeGetsize inode' / 512) 0).toNat = 0

/-- The block map of a file after an append: the addresses and the number of sectors are as before,
and a partly used last sector is where it was; or the file took new sectors. -/
theorem Appends.layout (appended : Appends u u' inr inode inode' bytes code)
    (geometry : Geometry u) (slots : SlotsInside (inodeGetsize inode) bytes.length) :
    (inode'.iAddr = inode.iAddr ∧ sectorCount inode' = sectorCount inode ∧
      (inodeGetsize inode' % 512 ≠ 0 → inodeGetsize inode % 512 ≠ 0 ∧
        inodeGetsize inode' / 512 = inodeGetsize inode / 512)) ∨
      Grown u inode inode' bytes.length := by
  have fits := appended.fits
  obtain ⟨u₁, inode₁, first, second⟩ := appended.stages
  have count : sectorCount inode = (inodeGetsize inode + 511) / 512 := rfl
  have length : residualLength (inodeGetsize inode) bytes.length =
      min bytes.length ((512 - inodeGetsize inode % 512) % 512) := by
    rw [residualLength]
    split <;> omega
  -- the last sector is filled up, which changes no address
  have between : Geometry u₁ ∧ u₁.fbm = u.fbm ∧ inode₁.iAddr = inode.iAddr ∧
      (inode₁ = inode ∨ (inodeGetsize inode % 512 ≠ 0 ∧ inodeGetsize inode₁ =
        inodeGetsize inode + residualLength (inodeGetsize inode) bytes.length)) := by
    rcases first with ⟨-, rfl, rfl⟩ | ⟨-, -, rfl, rfl⟩ | filled
    · exact ⟨geometry, rfl, rfl, .inl rfl⟩
    · exact ⟨geometry, rfl, rfl, .inl rfl⟩
    · obtain ⟨x, sector, f', -, -, put, rfl⟩ := filled.effect
      have taken : (bytes.take (residualLength (inodeGetsize inode) bytes.length)).length =
          residualLength (inodeGetsize inode) bytes.length := by
        rw [List.length_take, length]
        omega
      have addr : inode₁.iAddr = inode.iAddr := by rw [filled.inode, resized_iAddr]
      refine ⟨geometry.put put, rfl, addr, .inr ⟨filled.residual, ?_⟩⟩
      rw [filled.inode, taken, inodeGetsize_resized _ _ (by omega)]
  obtain ⟨geometry₁, fbm, addr, sizes⟩ := between
  have unchanged : inode' = inode₁ → inode'.iAddr = inode.iAddr ∧
      sectorCount inode' = sectorCount inode ∧
      (inodeGetsize inode' % 512 ≠ 0 → inodeGetsize inode % 512 ≠ 0 ∧
        inodeGetsize inode' / 512 = inodeGetsize inode / 512) := by
    rintro rfl
    refine ⟨addr, ?_⟩
    rcases sizes with rfl | ⟨residual, size⟩
    · exact ⟨rfl, fun residual => ⟨residual, rfl⟩⟩
    · rw [sectorCount, count, size, length]
      omega
  by_cases takes : TakesSector (inodeGetsize inode) bytes.length
  · have more := takes
    rw [TakesSector] at more
    simp only [SlotsInside] at slots
    have rest : (bytes.drop (residualLength (inodeGetsize inode) bytes.length)).length =
        bytes.length - (512 - inodeGetsize inode % 512) % 512 := by
      rw [List.length_drop, length]
      omega
    have edge : inodeGetsize inode + residualLength (inodeGetsize inode) bytes.length =
        512 * sectorCount inode := by
      rw [length, count]
      omega
    rw [edge] at second
    obtain ⟨slots', low, last⟩ := second.slots geometry₁ (.inr (by rw [rest]; omega))
    rw [fbm] at slots' last
    rw [addr] at slots' low
    rw [rest] at low last
    rcases last with same | ⟨free, bound⟩
    · exact .inl (unchanged same)
    · exact .inr ⟨takes, by omega, by omega, low, slots', free⟩
  · rw [residualLength_of_fits takes, List.drop_length] at second
    exact .inl (unchanged second.nil.2.1)

/-- Bytes were put into sector `x` behind the end of a file: into its last sector, which held `old`,
if that is partly used, and else into a free sector. -/
structure PutBehind (u u' : UnixFilesystem) (inr : Nat) (inode inode' : Inode) (bytes : List UInt8)
    (x : Nat) (old new : Sector) : Prop where
  /-- The sector and the inode are written. -/
  effect : ∃ writer f fbm, Put u.f f u.s writer x new inr inode' ∧ fbm.SameBits u.fbm ∧
    u' = { u with f, fbm }
  /-- The sector has the bytes behind those that it had. -/
  filled : new.bytes.take (inodeGetsize inode % 512 + bytes.length) =
    old.bytes.take (inodeGetsize inode % 512) ++ bytes
  /-- It is the last sector of the file, or it is free. -/
  place : (inodeGetsize inode % 512 ≠ 0 ∧
      inodeFindsector u inode (inodeGetsize inode / 512 : Nat) = x ∧ u.f.sectors[x]? = some old ∧
      inode' = inode.resized (inodeGetsize inode + bytes.length)) ∨
    (inodeGetsize inode % 512 = 0 ∧ bmGet u.fbm x = 0 ∧
      inode' = inode.placed (inodeGetsize inode + bytes.length) x)

/-- Bytes that go into one sector are put behind the end of a file; or nothing but the cursor of the
sector bitmap changes, since no sector is free or the last sector of the file is missing. -/
theorem Appends.single (appended : Appends u u' inr inode inode' bytes code) (more : bytes ≠ [])
    (room : inodeGetsize inode % 512 + bytes.length ≤ 512)
    (short : inodeGetsize inode % 512 = 0 → bytes.length < 512) :
    (code = errNone ∧
      ∃ x old new, PutBehind u u' inr.toNat inode inode' bytes x old new) ∨
    (u'.f = u.f ∧ inode' = inode ∧
      (code < 0 ∨ (inodeGetsize inode % 512 ≠ 0 ∧ LastSectorMissing u inode))) := by
  obtain ⟨u₁, inode₁, first, second⟩ := appended.stages
  by_cases residual : inodeGetsize inode % 512 = 0
  · -- the bytes go into a free sector, if there is one
    have none : residualLength (inodeGetsize inode) bytes.length = 0 := if_pos residual
    rw [none, List.drop_zero, Nat.add_zero] at second
    obtain ⟨rfl, rfl⟩ : u₁ = u ∧ inode₁ = inode := by
      rcases first with ⟨-, same⟩ | ⟨wrong, -⟩ | filled
      · exact same
      · exact absurd residual wrong
      · exact absurd residual filled.residual
    cases second with
    | done => exact absurd rfl more
    | full _ same taken => exact .inr ⟨rfl, rfl, .inl (by decide)⟩
    | @sector _ _ _ _ _ _ fbm f x _ _ free same put rest =>
      have whole : bytes.take 512 = bytes := List.take_of_length_le (short residual).le
      have left : bytes.drop 512 = [] := List.drop_eq_nil_of_le (short residual).le
      rw [whole] at put rest
      rw [left] at rest
      obtain ⟨rfl, rfl, rfl⟩ := rest.nil
      have fits : 0 + bytes.length ≤ sectorSize := by
        rw [sectorSize]
        omega
      refine .inl ⟨rfl, x, u₁.f.host.stack u₁.f.time, _, ⟨_, f, fbm, put, same, rfl⟩, ?_,
        .inr ⟨residual, free, rfl⟩⟩
      rw [residual]
      exact Block.take_splice_end _ fits
  · -- the bytes go into the last sector, if it is there
    have all : residualLength (inodeGetsize inode) bytes.length = bytes.length := by
      rw [residualLength, if_neg residual]
      omega
    rw [all, List.drop_length] at second
    obtain ⟨rfl, rfl, rfl⟩ := second.nil
    rw [all, List.take_length] at first
    rcases first with ⟨wrong, -⟩ | ⟨-, missing, rfl, rfl⟩ | filled
    · exact absurd wrong residual
    · exact .inr ⟨rfl, rfl, .inr ⟨residual, missing⟩⟩
    · obtain ⟨x, old, f, found, there, put, rfl⟩ := filled.effect
      refine .inl ⟨rfl, x, old, _, ⟨_, f, _, put, .refl _, rfl⟩, ?_,
        .inl ⟨residual, found, there, filled.inode⟩⟩
      exact Block.take_splice_end _ (by rw [sectorSize]; omega)

end Outcome

/-- `filev6_writebytes` appends its buffer. -/
theorem Geometry.filev6Writebytes_spec {u : UnixFilesystem} (geometry : Geometry u) (fv6 : Filev6)
    (buf : List UInt8) (inRange : inodeOutOfRange u.s fv6.iNumber = false)
    (slots : SlotsInside (inodeGetsize fv6.iNode) buf.length)
    (target : inodeGetsize fv6.iNode % 512 ≠ 0 → LastSectorInData u fv6.iNode) :
    ∃ code u' inode', filev6Writebytes u fv6 buf = some (code, u', { fv6 with iNode := inode' }) ∧
      ((code = errFileTooLarge ∧ 1792 < inodeGetsize fv6.iNode / 512 + 1 ∧ u' = u ∧
          inode' = fv6.iNode) ∨
        Appends u u' fv6.iNumber fv6.iNode inode' buf code) := by
  rw [filev6Writebytes]
  simp only [SlotsInside] at slots
  by_cases large : inodeGetsize fv6.iNode / sectorSize + 1 > mediumFilesysSize
  · rw [if_pos large]
    exact ⟨_, _, _, rfl, .inl ⟨rfl, large, rfl, rfl⟩⟩
  · have fits : inodeGetsize fv6.iNode / 512 + 1 ≤ 1792 := Nat.not_lt.mp large
    have short : buf.length < 4096 := by omega
    have total : toInt32 buf.length = (buf.length : Nat) := toInt32_of_small (by omega)
    rw [if_neg large, total]
    by_cases residual : inodeGetsize fv6.iNode % 512 = 0
    · have none : residualLength (inodeGetsize fv6.iNode) buf.length = 0 := if_pos residual
      rw [if_neg (not_not.mpr residual)]
      obtain ⟨code, u', inode', run, rest⟩ := writebytesLoop_spec
        (inodeGetsize fv6.iNode) buf buf.length u fv6 0 geometry inRange (by omega) (by omega)
        (by omega)
      refine ⟨code, u', inode', run, .inr ⟨fits, u, fv6.iNode, .inl ⟨residual, rfl, rfl⟩, ?_⟩⟩
      rw [none]
      exact rest
    · have count : toWriteSmallSector (inodeGetsize fv6.iNode) buf.length =
          residualLength (inodeGetsize fv6.iNode) buf.length := by
        simp only [toWriteSmallSector, residualLength, sectorSize, if_neg residual]
        split <;> omega
      have bound : residualLength (inodeGetsize fv6.iNode) buf.length ≤ buf.length ∧
          residualLength (inodeGetsize fv6.iNode) buf.length ≤
            512 - inodeGetsize fv6.iNode % 512 ∧
          (buf.length ≤ (512 - inodeGetsize fv6.iNode % 512) % 512 →
            residualLength (inodeGetsize fv6.iNode) buf.length = buf.length) := by
        rw [residualLength, if_neg residual]
        omega
      have defined : ¬TotalUnderflows (inodeGetsize fv6.iNode) buf.length :=
        not_totalUnderflows (by omega)
      rw [if_pos residual, count]
      simp only [if_neg defined]
      generalize length : residualLength (inodeGetsize fv6.iNode) buf.length = filled at *
      obtain ⟨code₁, u₁, inode₁, run₁, outcome⟩ := geometry.filev6WritesectorResidual_spec fv6
        (buf.take filled) inRange (by rw [List.length_take]; omega) fits residual
        (target residual)
      rw [run₁]
      have next : Geometry u₁ ∧ u₁.s = u.s := by
        rcases outcome with ⟨-, rfl, -⟩ | filledUp
        · exact ⟨geometry, rfl⟩
        · obtain ⟨_, _, f', -, -, stored, rfl⟩ := filledUp.effect
          exact ⟨geometry.put stored, rfl⟩
      obtain ⟨code, u', inode', run, rest⟩ := writebytesLoop_spec
        (inodeGetsize fv6.iNode) buf buf.length u₁ { fv6 with iNode := inode₁ } filled next.1
        (by rw [next.2]; exact inRange) (by omega) (by omega) (by omega)
      rw [Int.ofNat_sub bound.1] at run
      subst length
      refine ⟨code, u', inode', run, .inr ⟨fits, u₁, inode₁, .inr ?_, rest⟩⟩
      rcases outcome with ⟨missing, same, is⟩ | filledUp
      · exact .inl ⟨residual, missing, same, is⟩
      · exact .inr filledUp

end U6fs
