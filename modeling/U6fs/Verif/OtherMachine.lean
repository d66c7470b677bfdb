import U6fs.Verif.CreateCheck
import U6fs.Verif.Reading

/-!
# Reading on another machine

What a sector read returns is all that the reading functions see of a disk. Two disk files whose
reads return the same are read in the same way, up to a mount and to the checks before a creation.
-/
namespace U6fs

open Lib

/-- Sector reads of two volumes return the same. -/
structure ReadsAlike (u v : UnixFilesystem) : Prop where
  /-- The superblock is the same. -/
  s : v.s = u.s
  /-- A read of a sector returns the same. -/
  read : ∀ x, sectorRead v.f x = sectorRead u.f x

namespace ReadsAlike

variable {u v : UnixFilesystem} (alike : ReadsAlike u v)

include alike

/-- Inodes are read alike. -/
theorem inodeRead (inr : UInt16) (inode : Inode) :
    inodeRead v inr inode = U6fs.inodeRead u inr inode := by
  simp only [U6fs.inodeRead, alike.s, alike.read]

/-- Sectors of files are found alike. -/
theorem inodeFindsector (inode : Inode) (k : Int) :
    inodeFindsector v inode k = U6fs.inodeFindsector u inode k := by
  simp only [U6fs.inodeFindsector, inodeFindsectorBigfile, alike.read]

/-- Files are opened alike. -/
theorem filev6Open (inr : UInt16) : filev6Open v inr = U6fs.filev6Open u inr := by
  simp only [U6fs.filev6Open, alike.inodeRead]

/-- Blocks are read alike. -/
theorem filev6Readblock (fv6 : Filev6) : filev6Readblock v fv6 = U6fs.filev6Readblock u fv6 := by
  simp only [U6fs.filev6Readblock, alike.inodeFindsector, alike.read]

/-- Directories are opened alike. -/
theorem direntv6Opendir (inr : UInt16) (dirs : Sector) :
    direntv6Opendir v inr dirs = U6fs.direntv6Opendir u inr dirs := by
  simp only [U6fs.direntv6Opendir, alike.filev6Open]

/-- Records are read alike. -/
theorem direntv6Readdir (d : DirectoryReader) :
    direntv6Readdir v d = U6fs.direntv6Readdir u d := by
  simp only [U6fs.direntv6Readdir, alike.filev6Readblock]

/-- Names are searched alike. -/
theorem lookupScan (name : List UInt8) (fuel : Nat) : ∀ d,
    lookupScan v name fuel d = U6fs.lookupScan u name fuel d := by
  induction fuel with
  | zero => exact fun _ => rfl
  | succ fuel ih =>
    intro d
    simp only [U6fs.lookupScan, alike.direntv6Readdir, ih]

/-- Paths are walked alike. -/
theorem direntv6Dirlookup (inr : UInt16) (entry : List UInt8) :
    direntv6Dirlookup v inr entry = U6fs.direntv6Dirlookup u inr entry := by
  have step : lookupName v = lookupName u := by
    funext place name
    simp only [lookupName, alike.direntv6Opendir, alike.lookupScan]
  rw [direntv6Dirlookup_eq, direntv6Dirlookup_eq, step]

/-- The checks before a creation come to the same result. -/
theorem createCheck (entry : List UInt8) : createCheck v entry = U6fs.createCheck u entry := by
  simp only [U6fs.createCheck, alike.direntv6Dirlookup]

/-- Content is read alike. -/
theorem fileContent (inode : Inode) : fileContent v inode = U6fs.fileContent u inode := by
  simp only [U6fs.fileContent, filePieces, fileBlock, alike.inodeFindsector, alike.read]

/-- A walk over a file ends alike. -/
theorem walkEnds {inode : Inode} (ends : WalkEnds u inode) : WalkEnds v inode := by
  obtain ⟨n, before, last⟩ := ends
  exact ⟨n, fun i inside => by rw [alike.inodeFindsector]; exact before i inside,
    by rw [alike.inodeFindsector]; exact last⟩

end ReadsAlike

section Mount

variable {f f' : Disk} (read : ∀ x, sectorRead f' x = sectorRead f x)

include read

/-- The second loop of `write_sector_on_bitmap` marks the same sectors. -/
theorem markSectors_alike (inode : Inode) (fuel : Nat) : ∀ (u : UnixFilesystem) (x : Int) (k : Nat),
    u.f = f → markSectors inode fuel { u with f := f' } x k =
      ((markSectors inode fuel u x k).1, { (markSectors inode fuel u x k).2 with f := f' }) := by
  induction fuel with
  | zero => exact fun _ _ _ _ => rfl
  | succ fuel ih =>
    rintro u x k rfl
    rw [markSectors, markSectors]
    by_cases positive : 0 ≤ x
    · have alike : ReadsAlike { u with fbm := bmSet u.fbm x.toNat }
          { u with fbm := bmSet u.fbm x.toNat, f := f' } := ⟨rfl, read⟩
      simp only [if_pos positive]
      rw [alike.inodeFindsector]
      exact ih { u with fbm := bmSet u.fbm x.toNat } _ _ rfl
    · simp only [if_neg positive]

omit read in
/-- The first loop of `write_sector_on_bitmap` marks the same sectors, and reads nothing. -/
theorem markIndirect_disk (inode : Inode) (u : UnixFilesystem) :
    markIndirect inode { u with f := f' } = { markIndirect inode u with f := f' } ∧
      (markIndirect inode u).f = u.f := by
  have loop : ∀ (ks : List Nat) (u : UnixFilesystem), let mark (u : UnixFilesystem) (k : Nat) :=
        { u with fbm := bmSet u.fbm (inode.iAddr.toList.getD k 0).toNat }
      ks.foldl mark { u with f := f' } = { ks.foldl mark u with f := f' } ∧
        (ks.foldl mark u).f = u.f := by
    intro ks
    induction ks with
    | nil => exact fun _ => ⟨rfl, rfl⟩
    | cons k ks ih => exact fun u => ih { u with fbm := _ }
  unfold markIndirect
  simp only
  split
  · exact loop _ u
  · exact ⟨rfl, rfl⟩

/-- An inode is scanned alike. -/
theorem writeSectorOnBitmap_alike (inode : Inode) {u : UnixFilesystem} (is : u.f = f) :
    writeSectorOnBitmap inode { u with f := f' } =
      (writeSectorOnBitmap inode u).map fun u => { u with f := f' } := by
  obtain ⟨marks, disk⟩ := @markIndirect_disk f' inode u
  rw [is] at disk
  have alike : ReadsAlike (markIndirect inode u) { markIndirect inode u with f := f' } :=
    ⟨rfl, by rw [disk]; exact read⟩
  simp only [writeSectorOnBitmap, marks, alike.inodeFindsector,
    markSectors_alike read inode _ _ _ _ disk]
  split <;> rfl

omit read in
/-- The same bitmaps over two disks. -/
def SameBitmaps (f f' : Disk) (u v : UnixFilesystem) : Prop := u.f = f ∧ v = { u with f := f' }

/-- A slot of the table is scanned alike. -/
theorem fillBitmapsSlot_alike (k j : Nat) {state state' : UnixFilesystem × Bool}
    (same : SameBitmaps f f' state.1 state'.1 ∧ state'.2 = state.2) :
    Agree (fun state state' => SameBitmaps f f' state.1 state'.1 ∧ state'.2 = state.2) Eq
      (fillBitmapsSlot k state j) (fillBitmapsSlot k state' j) := by
  obtain ⟨u, found⟩ := state
  obtain ⟨v, found'⟩ := state'
  obtain ⟨⟨is, rfl⟩, flag⟩ := same
  simp only at is flag
  rw [flag]
  have alike : ReadsAlike u { u with f := f' } := ⟨rfl, by rw [is]; exact read⟩
  cases visit : inodeRead u (scannedInr k j) Inode.zero with
  | mk ret inode =>
    have visit' := alike.inodeRead (scannedInr k j) Inode.zero
    rw [visit] at visit'
    have slot := fillBitmapsSlot_eq rfl rfl found k j visit
    rw [slot, fillBitmapsSlot_eq rfl rfl found k j visit']
    split_ifs at slot ⊢ with used free
    · rw [@writeSectorOnBitmap_alike f f' read inode
        { u with ibm := bmSet u.ibm (scannedInr k j).toNat } is]
      cases scan : writeSectorOnBitmap inode
          { u with ibm := bmSet u.ibm (scannedInr k j).toNat } with
      | error code => exact rfl
      | ok next =>
        rw [scan] at slot
        have marks := (fillBitmapsSlot_marks rfl rfl slot).1
        exact ⟨⟨marks.f.trans is, rfl⟩, rfl⟩
    · exact ⟨⟨is, rfl⟩, rfl⟩
    · exact rfl

/-- The table is scanned alike. -/
theorem fillBitmaps_alike {u v : UnixFilesystem} (same : SameBitmaps f f' u v) :
    Agree (SameBitmaps f f') Eq (fillBitmaps u) (fillBitmaps v) := by
  have super : v.s = u.s := by
    rw [same.2]
  rw [fillBitmaps, fillBitmaps, super]
  apply foldlM_agree _ _ _ _ _ _ same
  intro u v k same
  have super : v.s = u.s := by
    rw [same.2]
  have slots := foldlM_agree (fillBitmapsSlot k) (fillBitmapsSlot k)
    (fun state state' => SameBitmaps f f' state.1 state'.1 ∧ state'.2 = state.2) Eq
    (fun _ _ j same => fillBitmapsSlot_alike read k j same) (List.range inodesPerSector)
    (s := (u, false)) (t := (v, false)) ⟨same, rfl⟩
  rw [fillBitmapsSector, fillBitmapsSector]
  rcases slots.cases with ⟨⟨u', found⟩, ⟨v', found'⟩, left, right, ⟨is, rfl⟩, flag⟩ |
      ⟨code, code', left, right, ends⟩
  · simp only at is flag
    rw [left, right, flag]
    cases found
    · exact ⟨is, rfl⟩
    · exact ⟨is, rfl⟩
  · rw [left, right]
    exact ends

end Mount

/-- Disks whose sector reads return the same are mounted alike. -/
theorem mountv6_alike {f f' : Disk} {u : UnixFilesystem}
    (read : ∀ x, sectorRead f' x = sectorRead f x) (mounted : mountv6 f = .ok u) :
    mountv6 f' = .ok { u with f := f' } := by
  have start : ∀ s fbm ibm, SameBitmaps f f' { f, s, fbm, ibm } { f := f', s, fbm, ibm } :=
    fun _ _ _ => ⟨rfl, rfl⟩
  simp only [mountv6, read, bind, Except.bind] at mounted ⊢
  cases table : sectorRead f bootblockSector with
  | error code =>
    rw [table] at mounted
    cases mounted
  | ok boot =>
    rw [table] at mounted
    simp only at mounted ⊢
    split_ifs at mounted ⊢
    cases super : sectorRead f superblockSector with
    | error code =>
      rw [super] at mounted
      cases mounted
    | ok superblock =>
      rw [super] at mounted
      simp only at mounted ⊢
      split at mounted
      · cases mounted
      · split at mounted
        · cases mounted
        · rename_i ibm _ _ fbm _
          rcases (fillBitmaps_alike read (start (Superblock.ofSector superblock) fbm ibm)).cases
            with ⟨u', v', left, right, is, rfl⟩ | ⟨code, code', left, -⟩
          · rw [left] at mounted
            cases mounted
            rw [right]
          · rw [left] at mounted
            cases mounted

end U6fs
