import U6fs.Spec.Volume
import U6fs.Verif.Mounted

/-!
# What a failed creation leaves behind

Creating a file reserves an inode number first and does everything else afterwards, and no
function undoes what was done. A failure before the reservation leaves no trace. A failure after
it leaves the bit of the reserved number, whatever the machine does; no function of the write
path sets a bit of the sector bitmap.
-/
namespace U6fs

open Lib

namespace BmblockArray.SameBits

/-- A bitmap has its own bits. -/
protected theorem refl (b : BmblockArray) : b.SameBits b := ⟨rfl, rfl, fun _ => rfl⟩

/-- The same bits twice. -/
protected theorem trans {b b' b'' : BmblockArray} (first : b.SameBits b')
    (second : b'.SameBits b'') : b.SameBits b'' :=
  ⟨first.min.trans second.min, first.max.trans second.max,
    fun x => (first.get x).trans (second.get x)⟩

end BmblockArray.SameBits

/-- No bit changes, and only the cursor of the sector bitmap may move. -/
structure BitsKept (before after : UnixFilesystem) : Prop where
  /-- The superblock is as before. -/
  s : after.s = before.s
  /-- The inode bitmap is as before. -/
  ibm : after.ibm = before.ibm
  /-- The sector bits are as before. -/
  fbm : after.fbm.SameBits before.fbm

namespace BitsKept

/-- Nothing changes. -/
protected theorem refl (u : UnixFilesystem) : BitsKept u u := ⟨rfl, rfl, .refl _⟩

/-- One step after another. -/
protected theorem trans {u u' u'' : UnixFilesystem} (first : BitsKept u u')
    (second : BitsKept u' u'') : BitsKept u u'' :=
  ⟨second.s.trans first.s, second.ibm.trans first.ibm, second.fbm.trans first.fbm⟩

end BitsKept

/-- `inode_write` concerns the disk only. -/
theorem inodeWrite_bitsKept (u : UnixFilesystem) (inr : UInt16) (inode : Inode) :
    BitsKept u (inodeWrite u inr inode).2 := by
  unfold inodeWrite
  split
  · exact .refl u
  · split
    · exact .refl u
    · exact ⟨rfl, rfl, .refl _⟩

/-- `filev6_writesector` searches the sector bitmap and sets no bit in it. -/
theorem filev6Writesector_bitsKept {u u' : UnixFilesystem} {fv6 fv6' : Filev6} {buf : List UInt8}
    {fileSize : Nat} {code : Int}
    (run : filev6Writesector u fv6 buf fileSize = some (code, u', fv6')) : BitsKept u u' := by
  rw [filev6Writesector] at run
  split at run
  rename_i freeSector fbm found
  have searched (f : Disk) : BitsKept u { u with f, fbm } := ⟨rfl, rfl, (bmFindNext_spec found).1⟩
  split at run
  · cases run
    exact searched u.f
  · split at run
    split at run
    · cases run
      exact searched _
    · split at run
      · cases run
        exact searched _
      · split at run
        · cases run
          exact (searched _).trans (inodeWrite_bitsKept _ _ _)
        · cases run

/-- `filev6_writesector_residual` concerns the disk only. -/
theorem filev6WritesectorResidual_bitsKept {u u' : UnixFilesystem} {fv6 fv6' : Filev6}
    {buf : List UInt8} {sizeInSectors residual inodeSize : Nat} {code : Int}
    (run : filev6WritesectorResidual u fv6 buf sizeInSectors residual inodeSize =
      (code, u', fv6')) : BitsKept u u' := by
  have written (f : Disk) : BitsKept u { u with f } := ⟨rfl, rfl, .refl _⟩
  rw [filev6WritesectorResidual] at run
  split at run
  · cases run
    exact .refl u
  · split at run
    · cases run
      exact .refl u
    · split at run
      split at run
      · cases run
        exact written _
      · split at run
        · cases run
          exact (written _).trans (inodeWrite_bitsKept _ _ _)
        · cases run
          exact (written _).trans (inodeWrite_bitsKept _ _ _)

/-- The loop of `filev6_writebytes` sets no bit. -/
theorem writebytesLoop_bitsKept {inodeSize : Nat} {buf : List UInt8} {fuel : Nat}
    {u u' : UnixFilesystem} {fv6 fv6' : Filev6} {toWriteTotal code : Int} {written : Nat}
    (run : writebytesLoop inodeSize buf fuel u fv6 toWriteTotal written = some (code, u', fv6')) :
    BitsKept u u' := by
  induction fuel generalizing u fv6 toWriteTotal written with
  | zero =>
    cases run
    exact .refl u'
  | succ fuel ih =>
    rw [writebytesLoop] at run
    split at run
    · split at run
      · cases run
      · rename_i round
        have first := filev6Writesector_bitsKept round
        split at run
        · cases run
          exact first
        · exact first.trans (ih run)
    · cases run
      exact .refl u'

/-- `filev6_writebytes` sets no bit. -/
theorem filev6Writebytes_bitsKept {u u' : UnixFilesystem} {fv6 fv6' : Filev6} {buf : List UInt8}
    {code : Int} (run : filev6Writebytes u fv6 buf = some (code, u', fv6')) : BitsKept u u' := by
  rw [filev6Writebytes] at run
  split at run
  · cases run
    exact .refl u
  · split at run
    · split at run
      rename_i residual
      split at run
      · cases run
      · exact (filev6WritesectorResidual_bitsKept residual).trans (writebytesLoop_bitsKept run)
    · exact writebytesLoop_bitsKept run

/-- The bitmaps cover the ranges for which a mount allocates them. -/
structure Ranges (u : UnixFilesystem) : Prop where
  /-- The inode bitmap has a bit for the number after the last inode as well. -/
  ibm : u.ibm.min = 1 ∧ u.ibm.max = u.s.inodes
  /-- The sector bitmap covers the data region. -/
  fbm : u.fbm.min = u.s.sBlockStart.toNat ∧ u.fbm.max = u.s.sFsize.toNat

/-- The numbers of the inode bitmap are small. -/
theorem Ranges.ibm_max {u : UnixFilesystem} (ranges : Ranges u) : u.ibm.max < 2 ^ 31 := by
  have small := u.s.sIsize.toNat_lt
  rw [ranges.ibm.2, Superblock.inodes]
  omega

/-- One inode number, whose bit was clear, is reserved, and no other bit changes. -/
structure Reserved (before after : UnixFilesystem) (inr : Nat) : Prop where
  /-- The number was free. -/
  free : bmGet before.ibm inr = 0
  /-- It is the smallest free one of a swept bitmap. -/
  least : before.ibm.Swept → ∀ x, bmGet before.ibm x = 0 → inr ≤ x
  /-- The inode bitmap stays swept. -/
  swept : before.ibm.Swept → after.ibm.Swept
  /-- The superblock is as before. -/
  s : after.s = before.s
  /-- The ranges of the inode bitmap are as before. -/
  range : after.ibm.min = before.ibm.min ∧ after.ibm.max = before.ibm.max
  /-- The inode bits are those before and the new one. -/
  ibm : ∀ x, after.ibm.Marked x ↔ before.ibm.Marked x ∨ x = inr
  /-- The sector bits are as before. -/
  fbm : after.fbm.SameBits before.fbm

/-- The number reserved is none whose bit was set. -/
theorem Reserved.ne_of_marked {u u' : UnixFilesystem} {inr x : Nat} (reserved : Reserved u u' inr)
    (marked : u.ibm.Marked x) : x ≠ inr := by
  rintro rfl
  exact ((bmGet_eq_zero_iff _ _).mp reserved.free).2 marked

/-- What follows a reservation keeps it. -/
theorem Reserved.kept {u u' u'' : UnixFilesystem} {inr : Nat} (reserved : Reserved u u' inr)
    (kept : BitsKept u' u'') : Reserved u u'' inr :=
  ⟨reserved.free, reserved.least, by rw [kept.ibm]; exact reserved.swept,
    kept.s.trans reserved.s, by rw [kept.ibm]; exact reserved.range,
    by rw [kept.ibm]; exact reserved.ibm, kept.fbm.trans reserved.fbm⟩

/-- `inode_alloc` reserves a number, or finds none and changes no bit. -/
theorem inodeAlloc_reserves {u u' : UnixFilesystem} {inr : Int} (ranges : Ranges u)
    (run : inodeAlloc u = (inr, u')) :
    ∃ ibm, u' = { u with ibm } ∧
      ((∃ x : Nat, inr = x ∧ Reserved u { u with ibm } x) ∨
        (inr = errBitmapFull ∧ ibm.SameBits u.ibm ∧ (u.ibm.Swept → ibm.Swept) ∧
          ∀ x, bmGet u.ibm x ≠ 0)) := by
  obtain ⟨ibm, rfl, swept, ⟨x, rfl, free, least, min, max, bits⟩ | ⟨rfl, same, full⟩⟩ :=
    inodeAlloc_spec ranges.ibm_max run
  · exact ⟨ibm, rfl, .inl ⟨x, rfl, free, least, swept, rfl, ⟨min, max⟩, bits, .refl _⟩⟩
  · exact ⟨ibm, rfl, .inr ⟨rfl, same, swept, full⟩⟩

/-- `filev6_create` reserves a number, or finds none and changes no bit and no byte. -/
theorem filev6Create_bits {u u' : UnixFilesystem} {mode : UInt16} {fv6 fv6' : Filev6} {code : Int}
    (ranges : Ranges u) (run : filev6Create u mode fv6 = (code, u', fv6')) :
    (∃ x : Nat, fv6'.iNumber = UInt16.ofNat x ∧ Reserved u u' x) ∨
      (code = errBitmapFull ∧ u'.f = u.f ∧ u'.s = u.s ∧ u'.ibm.SameBits u.ibm ∧
        u'.fbm.SameBits u.fbm ∧ ∀ x, bmGet u.ibm x ≠ 0) := by
  rw [filev6Create] at run
  split at run
  rename_i inr reserved allocated
  obtain ⟨ibm, rfl, ⟨x, rfl, taken⟩ | ⟨rfl, same, -, full⟩⟩ := inodeAlloc_reserves ranges allocated
  · rw [if_neg (by omega)] at run
    split at run
    rename_i write after written
    cases run
    have kept := inodeWrite_bitsKept { u with ibm } (UInt16.ofNat (x : Int).toNat)
      (fv6.iNode.created mode)
    rw [written] at kept
    exact .inl ⟨x, rfl, taken.kept kept⟩
  · rw [if_pos (by decide)] at run
    cases run
    exact .inr ⟨rfl, rfl, rfl, same, .refl _, full⟩

/-- `create_dirent` reserves a number, or finds none and changes no bit and no byte. -/
theorem createDirent_bits {u u' : UnixFilesystem} {mode inrParent : UInt16} {name : List UInt8}
    {code : Int} (ranges : Ranges u) (run : createDirent u mode name inrParent = some (code, u')) :
    (∃ x, Reserved u u' x) ∨
      (code < 0 ∧ u'.f = u.f ∧ u'.s = u.s ∧ u'.ibm.SameBits u.ibm ∧ u'.fbm.SameBits u.fbm ∧
        ∀ x, bmGet u.ibm x ≠ 0) := by
  rw [createDirent] at run
  split at run
  rename_i createFileChild after fv6Child created
  rcases filev6Create_bits ranges created with ⟨x, -, reserved⟩ | ⟨rfl, f, s, ibm, fbm, full⟩
  · refine .inl ⟨x, ?_⟩
    split at run
    · cases run
      exact reserved
    · split at run
      · cases run
      · split at run
        · cases run
          exact reserved
        · split at run
          · cases run
          · rename_i written
            have kept := filev6Writebytes_bitsKept written
            split at run
            · cases run
              exact reserved.kept kept
            · cases run
              exact reserved.kept kept
  · rw [if_pos (by decide)] at run
    cases run
    exact .inr ⟨by decide, f, s, ibm, fbm, full⟩

/-- A creation gets as far as reserving an inode number: the path can be split, its parent is
found and has no such name, and there is a free number. -/
def Reserves (u : UnixFilesystem) (entry : List UInt8) : Prop :=
  ∃ relativeName absoluteName inrParent,
    splitNameDirentv6Create entry = .ok (relativeName, absoluteName) ∧
    direntv6Dirlookup u 1 absoluteName = some inrParent ∧ 0 ≤ inrParent ∧
    direntv6Dirlookup u (UInt16.ofNat inrParent.toNat) relativeName = some errNoSuchFile ∧
    ∃ x, bmGet u.ibm x = 0

/-- The disk and the bits of both bitmaps are as before. -/
def Unchanged (before after : UnixFilesystem) : Prop :=
  after.f = before.f ∧ after.ibm.SameBits before.ibm ∧ after.fbm.SameBits before.fbm

/-- The error of `split_name_direntv6_create` is negative. -/
theorem splitNameDirentv6Create_error {entry : List UInt8} {code : Int}
    (split : splitNameDirentv6Create entry = .error code) : code < 0 := by
  unfold splitNameDirentv6Create at split
  dsimp only at split
  split at split
  · cases split
    decide
  · cases split

/-- A creation that gets as far as `create_dirent` has passed the lookups. -/
theorem direntv6Create_cases {u u' : UnixFilesystem} {entry : List UInt8} {mode : UInt16}
    {code : Int} (run : direntv6Create u entry mode = some (code, u')) :
    (u' = u ∧ code < 0 ∧ ¬Reserves u entry) ∨
      ∃ relativeName absoluteName inrParent,
        splitNameDirentv6Create entry = .ok (relativeName, absoluteName) ∧
        direntv6Dirlookup u 1 absoluteName = some inrParent ∧ 0 ≤ inrParent ∧
        direntv6Dirlookup u (UInt16.ofNat inrParent.toNat) relativeName = some errNoSuchFile ∧
        createDirent u mode relativeName (UInt16.ofNat inrParent.toNat) = some (code, u') := by
  rw [direntv6Create] at run
  split at run
  · rename_i split
    cases run
    refine .inl ⟨rfl, splitNameDirentv6Create_error split, ?_⟩
    rintro ⟨_, _, _, other, -⟩
    rw [split] at other
    contradiction
  · rename_i relativeName absoluteName split
    split at run
    · cases run
    · rename_i inrParent parent
      split at run
      · rename_i missing
        cases run
        refine .inl ⟨rfl, missing, ?_⟩
        rintro ⟨_, _, _, other, parent', found, -⟩
        rw [split] at other
        cases other
        rw [parent] at parent'
        cases parent'
        omega
      · rename_i found
        split at run
        · cases run
        · rename_i dirLookupChild child
          split at run
          · rename_i present
            have rejected : ¬Reserves u entry := by
              rintro ⟨_, _, _, other, parent', -, child', -⟩
              rw [split] at other
              cases other
              rw [parent] at parent'
              cases parent'
              rw [child] at child'
              cases child'
              exact present rfl
            split at run
            · cases run
              exact .inl ⟨rfl, by decide, rejected⟩
            · rename_i negative
              cases run
              exact .inl ⟨rfl, Int.not_le.mp negative, rejected⟩
          · rename_i absent
            rw [not_not.mp absent] at child
            exact .inr ⟨_, _, _, split, parent, Int.not_lt.mp found, child, run⟩

/-- `direntv6_create` reserves one number when it gets as far as that, and changes no bit and no
byte otherwise. -/
theorem direntv6Create_bits {u u' : UnixFilesystem} {entry : List UInt8} {mode : UInt16}
    {code : Int} (ranges : Ranges u) (run : direntv6Create u entry mode = some (code, u')) :
    (Reserves u entry ∧ ∃ x, Reserved u u' x) ∨
      (¬Reserves u entry ∧ code < 0 ∧ u'.s = u.s ∧ Unchanged u u') := by
  rcases direntv6Create_cases run with
    ⟨rfl, negative, rejected⟩ | ⟨name, path, parent, split, found, positive, absent, created⟩
  · exact .inr ⟨rejected, negative, rfl, rfl, .refl _, .refl _⟩
  · rcases createDirent_bits ranges created with ⟨x, reserved⟩ | ⟨negative, f, s, ibm, fbm, full⟩
    · exact .inl ⟨⟨name, path, parent, split, found, positive, absent, x, reserved.free⟩, x,
        reserved⟩
    · refine .inr ⟨?_, negative, s, f, ibm, fbm⟩
      rintro ⟨_, _, _, -, -, -, -, x, free⟩
      exact full x free

/-- `direntv6_addfile` reserves one number when its `direntv6_create` does, and changes no bit
and no byte otherwise. -/
theorem direntv6Addfile_bits {u u' : UnixFilesystem} {entry buf : List UInt8} {mode : UInt16}
    {code : Int} (ranges : Ranges u) (run : direntv6Addfile u entry mode buf = some (code, u')) :
    (Reserves u entry ∧ ∃ x, Reserved u u' x) ∨
      (¬Reserves u entry ∧ code < 0 ∧ u'.s = u.s ∧ Unchanged u u') := by
  rw [direntv6Addfile] at run
  split at run
  · cases run
  · rename_i inr after created
    rcases direntv6Create_bits ranges created with
      ⟨reserves, x, reserved⟩ | ⟨rejected, negative, s, unchanged⟩
    · refine .inl ⟨reserves, x, ?_⟩
      split at run
      · cases run
        exact reserved
      · split at run
        split at run
        · cases run
          exact reserved
        · split at run
          · cases run
            exact reserved
          · split at run
            · cases run
            · rename_i written
              cases run
              exact reserved.kept (filev6Writebytes_bitsKept written)
    · rw [if_pos negative] at run
      cases run
      exact .inr ⟨rejected, negative, s, unchanged⟩

/-- What a creation that fails may leave: nothing when no inode number was reserved, and
otherwise the bit of one number more, with the sector bits as before. -/
def FailureLeaves (before after : UnixFilesystem) (entry : List UInt8) : Prop :=
  (¬Reserves before entry → Unchanged before after) ∧
    (Reserves before entry → after.fbm.SameBits before.fbm ∧
      ∃ inr, bmGet before.ibm inr = 0 ∧
        ∀ x, after.ibm.Marked x ↔ before.ibm.Marked x ∨ x = inr)

/-- A failed `direntv6_create` or `direntv6_addfile` leaves the disk and the bits as they were
exactly when it failed before an inode number was reserved; after that only the bit of this
number is added. -/
theorem failedCreation_leaves {u u' : UnixFilesystem} {entry buf : List UInt8} {mode : UInt16}
    {code : Int} (ranges : Ranges u)
    (run : direntv6Create u entry mode = some (code, u') ∨
      direntv6Addfile u entry mode buf = some (code, u')) :
    FailureLeaves u u' entry ∧ (Unchanged u u' ↔ ¬Reserves u entry) := by
  have outcome : (Reserves u entry ∧ ∃ x, Reserved u u' x) ∨
      (¬Reserves u entry ∧ code < 0 ∧ u'.s = u.s ∧ Unchanged u u') :=
    run.elim (direntv6Create_bits ranges) (direntv6Addfile_bits ranges)
  rcases outcome with ⟨reserves, x, reserved⟩ | ⟨rejected, -, -, unchanged⟩
  · refine ⟨⟨fun rejected => absurd reserves rejected,
      fun _ => ⟨reserved.fbm, x, reserved.free, reserved.ibm⟩⟩,
      fun unchanged => ?_, fun rejected => absurd reserves rejected⟩
    obtain ⟨-, free⟩ := (bmGet_eq_zero_iff _ _).mp reserved.free
    exact absurd ((unchanged.2.1.marked x).mp ((reserved.ibm x).mpr (.inr rfl))) free
  · exact ⟨⟨fun _ => unchanged, fun reserves => absurd reserves rejected⟩,
      fun _ => rejected, fun _ => unchanged⟩

/-- A volume without a free sector, with an empty root and a file of one byte. -/
def fullVolume : Disk :=
  volume 2 4 [(1, emptyDirectory), (2, fileInode 0 1 (oneAddress 4))] [zeroSector]

set_option maxRecDepth 10000 in
/-- On a well-formed volume without a free sector, a failed creation of `/a` leaves inode 3 in
use on the disk and in the bitmap. -/
theorem failedCreation_leavesInode :
    fullVolume.WellFormed (volumeSuperblock 2 4) ∧
      ∃ u, mountv6 fullVolume = .ok u ∧ ∃ result ∈ direntv6Create u [47, 97] 0,
        result.1 = errBitmapFull ∧ bmGet u.ibm 3 = 0 ∧ bmGet result.2.ibm 3 = 1 ∧
          ¬u.f.InUse u.s 3 ∧ result.2.f.InUse u.s 3 :=
  ⟨Disk.wellFormed_of_check Host.quiet_faultless (by decide +kernel),
    mountv6_check (by decide +kernel)⟩

/-- The bitmaps of a mount have their ranges. -/
theorem mountv6_ranges {f : Disk} {u : UnixFilesystem} (mounted : mountv6 f = .ok u) : Ranges u :=
  have coherent := (mountv6_coherent mounted).2
  ⟨coherent.ibmRange, coherent.fbmRange⟩

set_option maxRecDepth 10000 in
/-- The failed creation of `/a` on the volume without a free sector. -/
theorem failedCreation_leaves_full :
    ∃ u code u', mountv6 fullVolume = .ok u ∧ direntv6Create u [47, 97] 0 = some (code, u') ∧
      code < 0 ∧ FailureLeaves u u' [47, 97] ∧ (Unchanged u u' ↔ ¬Reserves u [47, 97]) := by
  obtain ⟨u, mounted, ⟨code, u'⟩, run, negative⟩ := mountv6_check (f := fullVolume)
    (P := fun u => ∃ result ∈ direntv6Create u [47, 97] 0, result.1 < 0) (by decide +kernel)
  exact ⟨u, code, u', mounted, run, negative,
    @failedCreation_leaves u u' [47, 97] [] 0 code (mountv6_ranges mounted) (.inl run)⟩

end U6fs
