import U6fs.Sector
import U6fs.Bmblock

/-!
# Inodes (`inode.c`)

Reading and writing one inode of the table, the sector that holds a part of a file, the choice
of a free inode number, and the size field. A function with an `int` result returns the code;
what it stores through a pointer is returned beside it.
-/
namespace U6fs

open Lib

/-- `struct unix_filesystem` of a mounted volume. -/
structure UnixFilesystem where
  /-- The disk file. -/
  f : Disk
  /-- Copy of the superblock. -/
  s : Superblock
  /-- Block bitmap. -/
  fbm : BmblockArray
  /-- Inode bitmap. -/
  ibm : BmblockArray

/-- The range test that `inode_read` and `inode_write` make, in unsigned 32-bit arithmetic. -/
def inodeOutOfRange (s : Superblock) (inr : UInt16) : Bool :=
  let inodeStart : UInt32 := s.sInodeStart.toUInt32
  let targetSectorNb : UInt32 := inr.toUInt32 / 16 + inodeStart
  let sectorEnd : UInt32 := inodeStart + s.sIsize.toUInt32 - 1
  targetSectorNb > sectorEnd || s.sIsize == 0 || inr == 0

/-- `target_sector_nb`: the sector of the table that holds an inode. -/
def inodeSectorNb (s : Superblock) (inr : UInt16) : Nat :=
  inr.toNat / inodesPerSector + s.sInodeStart.toNat

/-- The place of an inode in its sector. -/
def inodeIndex (inr : UInt16) : Nat := inr.toNat - inr.toNat / inodesPerSector * inodesPerSector

/-- `inode_read`. The inode is stored unless its number is out of range or its sector cannot be
read, also when it turns out to be unallocated. -/
def inodeRead (u : UnixFilesystem) (inr : UInt16) (inode : Inode) : Int × Inode :=
  if inodeOutOfRange u.s inr then (errInodeOutOfRange, inode)
  else match sectorRead u.f (inodeSectorNb u.s inr) with
    | .error ret => (ret, inode)
    | .ok sector =>
      let inode := inodeCodec.get sector (inodeIndex inr)
      (if inode.isAllocated then errNone else errUnallocatedInode, inode)

/-- `inode_findsector_bigfile`: an entry of an indirect sector, read as a signed 16-bit
number. -/
def inodeFindsectorBigfile (u : UnixFilesystem) (i : Inode) (fileSecOff : Nat) : Int :=
  match sectorRead u.f (i.iAddr.toList.getD (fileSecOff / addressesPerSector) 0).toNat with
  | .error ret => ret
  | .ok sector =>
    Int.bmod (Codec.u16.get sector (fileSecOff % addressesPerSector)).toNat (2 ^ 16)

/-- `inode_findsector`. -/
def inodeFindsector (u : UnixFilesystem) (i : Inode) (fileSecOff : Int) : Int :=
  if !i.isAllocated then errUnallocatedInode
  else
    let sizeTot := inodeGetsize i / sectorSize + 1
    if fileSecOff < 0 || fileSecOff ≥ sizeTot then errOffsetOutOfRange
    else if sizeTot ≤ smallFilesysSize then (i.iAddr.toList.getD fileSecOff.toNat 0).toNat
    else if sizeTot ≤ mediumFilesysSize then inodeFindsectorBigfile u i fileSecOff.toNat
    else errFileTooLarge

/-- `inode_write`. -/
def inodeWrite (u : UnixFilesystem) (inr : UInt16) (inode : Inode) : Int × UnixFilesystem :=
  if inodeOutOfRange u.s inr then (errInodeOutOfRange, u)
  else match sectorRead u.f (inodeSectorNb u.s inr) with
    | .error ret => (ret, u)
    | .ok sector =>
      let (write, f) := sectorWrite .inodeWrite u.f (inodeSectorNb u.s inr)
        (inodeCodec.set sector (inodeIndex inr) inode)
      (write, { u with f })

/-- `inode_alloc`. -/
def inodeAlloc (u : UnixFilesystem) : Int × UnixFilesystem :=
  let (inr, ibm) := bmFindNext u.ibm
  if inr < 0 then (errBitmapFull, { u with ibm })
  else (inr, { u with ibm := bmSet ibm inr.toNat })

/-- The size fields that `inode_setsize` stores: bits 16 to 23, and a mask of 17 bits cut to the
16 bits of the field. -/
def Inode.resized (inode : Inode) (newSize : Nat) : Inode :=
  { inode with
    iSize0 := UInt8.ofNat (newSize >>> 16)
    iSize1 := UInt16.ofNat (newSize &&& ((1 <<< 17) - 1)) }

/-- `inode_setsize`; an error leaves the inode as it is. -/
def inodeSetsize (inode : Inode) (newSize : Int) : Except Int Inode :=
  if newSize < 0 || newSize.toNat >>> 24 != 0 then .error errBadParameter
  else .ok (inode.resized newSize.toNat)

/-- The range test holds exactly outside the numbers whose sector is in the table. -/
theorem inodeOutOfRange_eq_false_iff (s : Superblock) (inr : UInt16) :
    inodeOutOfRange s inr = false ↔ 1 ≤ inr.toNat ∧ inr.toNat < 16 * s.sIsize.toNat := by
  have boundStart := s.sInodeStart.toNat_lt
  have boundSize := s.sIsize.toNat_lt
  have boundInr := inr.toNat_lt
  have isizeZero : s.sIsize = 0 ↔ s.sIsize.toNat = 0 := by
    rw [← UInt16.toNat_inj]
    rfl
  have inrZero : inr = 0 ↔ inr.toNat = 0 := by
    rw [← UInt16.toNat_inj]
    rfl
  simp only [inodeOutOfRange, Bool.or_eq_false_iff, decide_eq_false_iff_not, beq_eq_false_iff_ne,
    ne_eq, isizeZero, inrZero, gt_iff_lt, UInt32.lt_iff_toNat_lt, UInt32.toNat_add,
    UInt32.toNat_sub, UInt32.toNat_div, UInt16.toNat_toUInt32, UInt32.reduceToNat]
  omega

/-- The place of an inode in its sector is its number modulo 16. -/
theorem inodeIndex_eq (inr : UInt16) : inodeIndex inr = inr.toNat % 16 := by
  simp only [inodeIndex, inodesPerSector]
  omega

/-- `inode_alloc` takes a number whose bit is clear and sets it, or finds the bitmap full. Only
the cursor moves besides. In a swept bitmap the number is the smallest one. -/
theorem inodeAlloc_spec {u u' : UnixFilesystem} {inr : Int} (small : u.ibm.max < 2 ^ 31)
    (run : inodeAlloc u = (inr, u')) :
    ∃ ibm, u' = { u with ibm } ∧ (u.ibm.Swept → ibm.Swept) ∧
      ((∃ x : Nat, inr = x ∧ bmGet u.ibm x = 0 ∧
          (u.ibm.Swept → ∀ y, bmGet u.ibm y = 0 → x ≤ y) ∧
          ibm.min = u.ibm.min ∧ ibm.max = u.ibm.max ∧
          ∀ y, ibm.Marked y ↔ u.ibm.Marked y ∨ y = x) ∨
        (inr = errBitmapFull ∧ ibm.SameBits u.ibm ∧ ∀ x, bmGet u.ibm x ≠ 0)) := by
  unfold inodeAlloc at run
  cases search : bmFindNext u.ibm with
  | mk r ibm =>
    obtain ⟨same, result⟩ := bmFindNext_spec search
    simp only [search] at run
    rcases result with ⟨x, clear, found⟩ | ⟨found, full⟩
    · obtain ⟨range, -⟩ := (bmGet_eq_zero_iff _ _).mp clear
      have number : toInt32 x = x := toInt32_of_small (by omega)
      have first : u.ibm.Swept → ∀ y, bmGet u.ibm y = 0 → x ≤ y := by
        intro swept y free
        obtain ⟨z, is, cleared, least⟩ := (bmFindNext_least swept search).2 y free
        obtain ⟨inside, -⟩ := (bmGet_eq_zero_iff _ _).mp cleared
        rw [found, number, toInt32_of_small (by omega)] at is
        have := least y free
        omega
      rw [found, number, if_neg (by omega), Int.toNat_natCast, Prod.mk.injEq] at run
      obtain ⟨rfl, rfl⟩ := run
      refine ⟨_, rfl, fun swept => ?_,
        .inl ⟨x, rfl, clear, first, by simp [same.min], by simp [same.max], fun y => ?_⟩⟩
      · exact (BmblockArray.Adds.bmSet ibm x).swept (bmFindNext_least swept search).1
      · rw [marked_bmSet, same.marked, same.min, same.max]
        simp [range]
    · rw [found, if_pos (by decide), Prod.mk.injEq] at run
      obtain ⟨rfl, rfl⟩ := run
      exact ⟨_, rfl, fun swept => (bmFindNext_least swept search).1, .inr ⟨rfl, same, full⟩⟩

/-- The mode is not resized. -/
@[simp] theorem resized_iMode (inode : Inode) (size : Nat) :
    (inode.resized size).iMode = inode.iMode := rfl

/-- The addresses are not resized. -/
@[simp] theorem resized_iAddr (inode : Inode) (size : Nat) :
    (inode.resized size).iAddr = inode.iAddr := rfl

/-- A size of 24 bits is stored as it is. -/
theorem inodeGetsize_resized (inode : Inode) (size : Nat) (small : size < 2 ^ 24) :
    inodeGetsize (inode.resized size) = size := by
  have high : size >>> 16 < 2 ^ 8 := by
    rw [Nat.shiftRight_eq_div_pow]
    omega
  have low : (size &&& ((1 <<< 17) - 1)) % 2 ^ 16 = size % 2 ^ 16 := by
    rw [show (1 <<< 17) - 1 = 2 ^ 17 - 1 from rfl, Nat.and_two_pow_sub_one_eq_mod,
      Nat.mod_mod_of_dvd _ (by decide)]
  rw [inodeGetsize_eq]
  simp only [Inode.resized, UInt8.toNat_ofNat', UInt16.toNat_ofNat', Nat.mod_eq_of_lt high, low]
  rw [Nat.shiftRight_eq_div_pow]
  omega

/-- A size of 24 bits is set. -/
theorem inodeSetsize_ok (inode : Inode) (size : Nat) (small : size < 2 ^ 24) :
    inodeSetsize inode (toInt32 size) = .ok (inode.resized size) := by
  have shifted : size >>> 24 = 0 := by
    rw [Nat.shiftRight_eq_div_pow]
    omega
  rw [toInt32_of_small (by omega), inodeSetsize, if_neg (by simp [shifted]), Int.toNat_natCast]

end U6fs
