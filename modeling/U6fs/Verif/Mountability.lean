import Mathlib.Data.List.Nodup
import U6fs.Lib.Emit
import U6fs.Verif.CreateCheck
import U6fs.Verif.Protection

/-!
# Mounting again

A mount fails when its scan meets an inode whose walk does not end. Below 4096 bytes every walk
ends. From 4096 bytes on the walk reads indirect sectors, and it ends as before when these are as
before; so the sectors that the scan of the first mount reads as indirect sectors are frozen, and
what is left is the growth of directories past the limit.
-/
namespace U6fs

open Lib

/-- The sectors that the scan of a mount reads as indirect sectors. -/
def scannedIndirects (f : Disk) (s : Superblock) : Set Nat :=
  {x | ∃ inr inode, inr ≤ s.lastScanned ∧ f.Allocated s inr inode ∧ 4096 ≤ inodeGetsize inode ∧
    ∃ j ≤ inodeGetsize inode / 512 / 256, (inode.iAddr.toList.getD j 0).toNat = x}

/-- The walk over an inode ends, and the indirect sectors it reads are kept. -/
structure Walkable (frozen : Set Nat) (u : UnixFilesystem) (inode : Inode) : Prop where
  /-- The walk ends. -/
  ends : WalkEnds u inode
  /-- The indirect sectors are kept. -/
  indirect : 4096 ≤ inodeGetsize inode → ∀ j ≤ inodeGetsize inode / 512 / 256,
    (inode.iAddr.toList.getD j 0).toNat ∈ frozen

/-- The files whose last sector a creation may fill up: directories, if they are not too large for
direct addresses or if the scan of a mount visits them. -/
def ScannedDirectory (s : Superblock) (inr : Nat) (inode : Inode) : Prop :=
  inode.isDirectory = true ∧ (4096 ≤ inodeGetsize inode → inr ≤ s.lastScanned)

/-- The invariant: the frozen sectors are as in the state `u₀`, and the scan of a mount can walk
over every file that it visits. -/
structure Scannable (frozen : Set Nat) (u₀ u : UnixFilesystem) : Prop where
  /-- The metadata and the frozen sectors are kept. -/
  safe : Protected frozen (ScannedDirectory u₀.s) u₀ u
  /-- The files that the scan visits can be walked over. -/
  walks : ∀ inr inode, inr ≤ u₀.s.lastScanned → u.f.Allocated u.s inr inode →
    Walkable frozen u inode

/-- Below 4096 bytes a walk finds the addresses of the inode, and then its end. -/
theorem walkEnds_small (u : UnixFilesystem) {inode : Inode} (used : inode.isAllocated = true)
    (small : inodeGetsize inode < 4096) : WalkEnds u inode := by
  refine ⟨inodeGetsize inode / 512 + 1, fun i inside => ?_,
    inodeFindsector_end u used (Nat.lt_succ_self _)⟩
  rw [inodeFindsector_direct u used (by omega) small]
  exact Int.natCast_nonneg _

/-- A walk over an inode whose indirect sectors are as before ends as before. -/
theorem walkEnds_kept {u u' : UnixFilesystem} {inode : Inode} (works : u.f.host.Faultless)
    (works' : u'.f.host.Faultless)
    (same : 4096 ≤ inodeGetsize inode → ∀ j ≤ inodeGetsize inode / 512 / 256,
      u'.f.sectors[(inode.iAddr.toList.getD j 0).toNat]? =
        u.f.sectors[(inode.iAddr.toList.getD j 0).toNat]?)
    (ends : WalkEnds u inode) : WalkEnds u' inode := by
  obtain ⟨n, before, last⟩ := ends
  have found := inodeFindsector_kept works works' inode same
  exact ⟨n, fun i inside => by rw [found]; exact before i inside, by rw [found]; exact last⟩

/-- Below 4096 bytes there are no indirect sectors. -/
theorem Walkable.of_small (frozen : Set Nat) (u : UnixFilesystem) {inode : Inode}
    (used : inode.isAllocated = true) (small : inodeGetsize inode < 4096) :
    Walkable frozen u inode :=
  ⟨walkEnds_small u used small, fun big => absurd big (by omega)⟩

/-- An inode stays walkable while the frozen sectors are as before. -/
theorem Walkable.congr {frozen : Set Nat} {u u' : UnixFilesystem} {inode : Inode}
    (walkable : Walkable frozen u inode) (works : u.f.host.Faultless)
    (works' : u'.f.host.Faultless) (same : ∀ x ∈ frozen, u'.f.sectors[x]? = u.f.sectors[x]?) :
    Walkable frozen u' inode :=
  ⟨walkEnds_kept works works' (fun big j inside => same _ (walkable.indirect big j inside))
    walkable.ends, walkable.indirect⟩

/-- On a working machine the scan can deal with a number when it can walk over its inode. -/
theorem Geometry.visitOk {u : UnixFilesystem} (geometry : Geometry u) {inr : UInt16}
    (low : 1 ≤ inr.toNat) (high : inr.toNat < u.s.inodes)
    (walks : ∀ inode, u.f.Allocated u.s inr.toNat inode → WalkEnds u inode) : VisitOk u inr := by
  have inRange : inodeOutOfRange u.s inr = false :=
    (inodeOutOfRange_eq_false_iff _ _).mpr ⟨low, high⟩
  obtain ⟨sector, there⟩ : ∃ sector, u.f.sectors[inodeSectorNb u.s inr]? = some sector := by
    rw [Superblock.inodes] at high
    have inside := geometry.table_inside (k := inr.toNat / 16) (by omega)
    rw [inodeSectorNb, inodesPerSector, Nat.add_comm]
    exact ⟨_, List.getElem?_eq_getElem inside⟩
  have present : u.f.inodeAt u.s inr.toNat = some (inodeCodec.get sector (inodeIndex inr)) := by
    rw [inodeAt_eq u inRange, there, Option.map_some]
  have read := sectorRead_faultless geometry.works (inodeSectorNb u.s inr)
  rw [there] at read
  have result : inodeRead u inr Inode.zero =
      (if (inodeCodec.get sector (inodeIndex inr)).isAllocated then errNone
        else errUnallocatedInode, inodeCodec.get sector (inodeIndex inr)) := by
    simp only [inodeRead, inRange, Bool.false_eq_true, if_false, read]
  generalize inodeCodec.get sector (inodeIndex inr) = inode at *
  rw [VisitOk, result]
  cases used : inode.isAllocated with
  | true => exact .inl ⟨rfl, walks inode ⟨present, used⟩⟩
  | false => exact .inr rfl

/-- A directory can take a record that leaves it walkable: it stays below 4096 bytes; or it is
larger already, the scan visits it, the record fits into its last sector, the directory does not
fill its last indirect sector, and the walk over it ends at its new size as well. -/
def GrowthWalks (u : UnixFilesystem) (inr : Nat) (inode : Inode) : Prop :=
  inodeGetsize inode + 16 < 4096 ∨
    (inr ≤ u.s.lastScanned ∧ 4096 < inodeGetsize inode ∧
      16 ≤ (512 - inodeGetsize inode % 512) % 512 ∧ (inodeGetsize inode + 16) % 131072 ≠ 0 ∧
      WalkEnds u (inode.resized (inodeGetsize inode + 16)))

/-- The directory of a path can take a record: its bit is set, it stays walkable, and the name with
its NUL fits into a record. -/
def ParentWalks (u : UnixFilesystem) (entry : List UInt8) : Prop :=
  ∀ found ∈ parentOf u entry, found.1.length < direntMaxlen ∧ u.ibm.Marked found.2.1.toNat ∧
    GrowthWalks u found.2.1.toNat found.2.2

/-- The calls that leave every file that the scan visits walkable; nothing is asked of a creation
that does not come to `create_dirent`. -/
def StaysWalkable (u : UnixFilesystem) : Call → Prop
  | .create entry _ => ParentWalks u entry
  | .addfile entry _ buf => ParentWalks u entry ∧ ∀ _ ∈ parentOf u entry, buf.length < 4096
  | _ => False

/-- The growth stores no address past `i_addr[7]`. -/
theorem GrowthWalks.slots {u : UnixFilesystem} {inr : Nat} {inode : Inode}
    (walks : GrowthWalks u inr inode) : SlotsInside (inodeGetsize inode) 16 := by
  rcases walks with small | ⟨-, -, room, -⟩
  · exact .inr small
  · exact .inl room

/-- The end of a file that may be filled up is in the data region. -/
theorem Protected.target {frozen : Set Nat} {Fillable : Nat → Inode → Prop}
    {u₀ u : UnixFilesystem} (before : Protected frozen Fillable u₀ u) {inr : Nat} {inode : Inode}
    (allocated : u.f.Allocated u.s inr inode) (fillable : Fillable inr inode)
    (residual : inodeGetsize inode % 512 ≠ 0) : LastSectorInData u inode := by
  intro x found
  by_cases fits : inodeGetsize inode / 512 + 1 ≤ 1792
  · exact ((before.last _ _ allocated fillable ⟨residual, fits⟩).last x found).1
  · rw [inodeFindsector_tooLarge u allocated.2 le_rfl (by omega), errFileTooLarge] at found
    omega

namespace Scannable

variable {frozen : Set Nat} {u₀ u u' : UnixFilesystem}

/-- An inode that was walkable in one state is walkable in another one. -/
theorem walkable {inode : Inode} (before : Protected frozen (ScannedDirectory u₀.s) u₀ u)
    (after : Protected frozen (ScannedDirectory u₀.s) u₀ u') (walkable : Walkable frozen u inode) :
    Walkable frozen u' inode :=
  walkable.congr before.geometry.works after.geometry.works
    fun x mem => (after.same x mem).trans (before.same x mem).symm

/-- A directory that is ready for a record may be filled up. -/
theorem fillable (before : Scannable frozen u₀ u) {entry : List UInt8}
    (ready : ParentWalks u entry) :
    ∀ found ∈ parentOf u entry, found.2.2.isDirectory = true →
      ScannedDirectory u₀.s found.2.1.toNat found.2.2 := by
  intro found mem directory
  obtain ⟨-, -, small | ⟨visited, -⟩⟩ := ready found mem
  · exact ⟨directory, fun big => absurd big (by omega)⟩
  · rw [before.safe.s] at visited
    exact ⟨directory, fun _ => visited⟩

/-- What `direntv6_create` has done to a scannable volume. -/
theorem records (before : Scannable frozen u₀ u) {entry : List UInt8} {mode : UInt16} {code : Int}
    (ready : ParentWalks u entry) (run : direntv6Create u entry mode = some (code, u')) :
    Rejected u u' code ∨ ∃ u₁ name parent inode inode' inr,
      Recorded u u₁ u' entry name mode parent inode inode' inr code := by
  refine direntv6Create_records before.safe.geometry
    (fun found mem => ⟨fun u₁ x reserved => reserved.ne_of_marked (ready found mem).2.1,
      (ready found mem).2.2.slots⟩) ?_ run
  intro u₁ name parent inode inr begun allocated residual
  exact (before.safe.begun begun).target allocated
    (before.fillable ready _ begun.found begun.directory) residual

/-- `direntv6_create` keeps the volume scannable. -/
theorem create (before : Scannable frozen u₀ u) {entry : List UInt8} {mode : UInt16} {code : Int}
    (ready : ParentWalks u entry) (run : direntv6Create u entry mode = some (code, u')) :
    Scannable frozen u₀ u' := by
  obtain ⟨after, -⟩ := before.safe.create
    (fun found mem => ⟨(ready found mem).2.1, (ready found mem).2.2.slots⟩)
    (before.fillable ready) run
  refine ⟨after, fun m found visited allocated => ?_⟩
  rcases before.records ready run with
    rejected | ⟨u₁, name, parent, inode, inode', inr, recorded⟩
  · rw [rejected.f, rejected.s] at allocated
    exact walkable before.safe after (before.walks m found visited allocated)
  · have begun := recorded.begun
    have growth : GrowthWalks u parent.toNat inode := (ready _ begun.found).2.2
    obtain ⟨_, _, -, -, -, -, -, old⟩ := parentOf_eq_some.mp begun.found
    obtain ⟨there, used⟩ := allocated
    rw [recorded.framed.s] at there
    by_cases directory : m = parent.toNat
    · subst directory
      rw [recorded.stored.1, Option.some.injEq] at there
      subst there
      rcases recorded.grown growth.slots with rfl | small | ⟨residual, room, rfl⟩
      · exact walkable before.safe after (before.walks _ _ visited old)
      · exact .of_small _ _ used small
      · have known := before.walks _ _ visited old
        have fits := known.ends.fits old.2
        have size := inodeGetsize_resized inode (inodeGetsize inode + 16) (by omega)
        rcases growth with small | ⟨-, large, -, whole, ends⟩
        · exact .of_small _ _ used (by rw [size]; exact small)
        · refine walkable before.safe after ⟨ends, fun _ j inside => ?_⟩
          rw [resized_iAddr]
          rw [size] at inside
          exact known.indirect (by omega) j (by omega)
    · rw [recorded.framed.inodeAt m directory, begun.reserved.s, begun.stored.inodeAt m] at there
      by_cases new : m = inr
      · rw [if_pos new, Option.some.injEq] at there
        subst there
        apply Walkable.of_small _ _ used
        rw [inodeGetsize_zero_created]
        decide
      · rw [if_neg new] at there
        exact walkable before.safe after (before.walks m found visited ⟨there, used⟩)

/-- `direntv6_addfile` keeps the volume scannable: the content stays below 4096 bytes. -/
theorem addfile (before : Scannable frozen u₀ u) {entry buf : List UInt8} {mode : UInt16}
    {code : Int} (ready : ParentWalks u entry) (small : ∀ _ ∈ parentOf u entry, buf.length < 4096)
    (run : direntv6Addfile u entry mode buf = some (code, u')) : Scannable frozen u₀ u' := by
  have after := before.safe.addfile
    (fun found mem => ⟨(ready found mem).2.1, (ready found mem).2.2.slots⟩)
    (before.fillable ready) small run
  obtain ⟨created, u₂, creation, result⟩ := direntv6Addfile_cases run
  have between := before.create ready creation
  rcases result with ⟨-, rfl⟩ | ⟨found, written, fv6, positive, opened, wrote, -⟩
  · exact between
  · rcases before.records ready creation with
      rejected | ⟨u₁, name, parent, inode, inode', inr, recorded⟩
    · exact absurd rejected.failed (by omega)
    · have short := small _ recorded.begun.found
      obtain ⟨number, file, appended⟩ := direntv6Addfile_appends before.safe.geometry recorded
        short positive opened wrote
      have empty := inodeGetsize_zero_created mode
      have stored := (appended.stored (by rw [number]; exact recorded.file.1)).1
      rw [number] at stored
      refine ⟨after, fun m found visited ⟨there, used⟩ => ?_⟩
      rw [appended.framed.s] at there
      by_cases new : m = inr
      · subst new
        rw [stored, Option.some.injEq] at there
        subst there
        rcases appended.grown (.inr (by rw [empty]; omega)) with rfl | below | ⟨residual, -⟩
        · exact .of_small _ _ used (by rw [empty]; decide)
        · exact .of_small _ _ used below
        · exact absurd (by rw [empty]) residual
      · rw [appended.framed.inodeAt m (by rw [number]; exact new)] at there
        exact walkable between.safe after (between.walks m found visited ⟨there, used⟩)

/-- A scannable volume can be mounted again. -/
theorem mounts (scannable : Scannable frozen u₀ u) (coherent : Coherent u₀) :
    ∃ u', mountv6 (umountv6 u) = .ok u' := by
  have geometry := scannable.safe.geometry
  have kept := scannable.safe.kept
  have range := u.fbm.range
  rw [geometry.ranges.fbm.1, geometry.ranges.fbm.2] at range
  refine mountv6_succeeds geometry.works ?_ ?_ geometry.size range fun inr low high => ?_
  · rw [kept.boot]
    exact coherent.magic
  · rw [kept.superblock, scannable.safe.s]
    exact coherent.superblock
  · refine geometry.visitOk low ?_ fun inode allocated => ?_
    · rw [Superblock.lastScanned] at high
      rw [Superblock.inodes]
      omega
    · rw [scannable.safe.s] at high
      exact (scannable.walks _ inode high allocated).ends

end Scannable

/-- On a mounted image, the sectors that the scan reads as indirect sectors are in the data region,
and they are no last sectors, if no file that the scan visits fills its last indirect sector. -/
theorem scannable_start {f : Disk} {s : Superblock} {u : UnixFilesystem} (regions : f.Regions s)
    (mapped : f.Mapped s) (unshared : f.Unshared s)
    (whole : ∀ inr inode, f.Allocated s inr inode → inr ≤ s.lastScanned →
      0 < inodeGetsize inode → inodeGetsize inode % 131072 ≠ 0)
    (mounted : mountv6 f = .ok u) : Scannable (scannedIndirects f s) u u := by
  obtain ⟨rfl, rfl, coherent, geometry⟩ := mountv6_geometry regions mounted
  -- every such sector has a place in the block map of a file whose last sector is elsewhere
  have place : ∀ x ∈ scannedIndirects u.f u.s, u.s.InData x ∧ ScanReaches u x ∧
      ∃ inr inode p, u.f.Allocated u.s inr inode ∧ u.f.mapped inode p = some x ∧
        (Partial inode → p ≠ .data (inodeGetsize inode / 512)) := by
    rintro x ⟨inr, inode, visited, allocated, big, j, inside, rfl⟩
    have fits := (coherent.walkEnds visited allocated).fits allocated.2
    have count := sectorCount_eq inode
    have divides := whole inr inode allocated visited (by omega)
    obtain ⟨p, there, apart⟩ : ∃ p,
        u.f.mapped inode p = some (inode.iAddr.toList.getD j 0).toNat ∧
          (Partial inode → p ≠ .data (inodeGetsize inode / 512)) := by
      rcases Nat.eq_or_lt_of_le big with exact | larger
      · obtain rfl : j = 0 := by omega
        refine ⟨.data 0, mapped_direct u.f ?_ ?_, fun part => absurd part.1 (by omega)⟩
        · split at count <;> omega
        · split at count <;> omega
      · refine ⟨.indirect j, mapped_indirect u.f ?_ ?_ ?_, fun _ is => by cases is⟩
        · split at count <;> omega
        · split at count <;> omega
        · split at count <;> omega
    obtain ⟨y, there', data, -⟩ :=
      mapped.data inr inode p allocated (Disk.mapped_hasPosition there)
    rw [there, Option.some.injEq] at there'
    subst there'
    refine ⟨data, .inl ⟨inr, inode, visited, allocated, .inl ⟨fits, j, ?_, rfl⟩⟩,
      inr, inode, p, allocated, there, apart⟩
    exact inside.trans (Nat.div_le_div_right (Nat.le_succ _))
  have kept : Protected (scannedIndirects u.f u.s) (ScannedDirectory u.s) u u := by
    refine ⟨geometry, rfl, .refl u, fun x mem => (place x mem).1, fun x mem => ?_, fun _ _ => rfl,
      fun inr inode allocated directory part => ?_⟩
    · exact (coherent.fbm x).mpr ⟨(place x mem).1, (place x mem).2.1⟩
    · refine ⟨fun big => ⟨inr, inode, directory.2 big, allocated, big, _, le_rfl, rfl⟩,
        fun x found => ?_⟩
      have there := mapped_last allocated.2 part found
      obtain ⟨y, there', data, -⟩ :=
        mapped.data inr inode _ allocated (Disk.mapped_hasPosition there)
      rw [there, Option.some.injEq] at there'
      subst there'
      refine ⟨data, fun mem => ?_⟩
      obtain ⟨-, -, inr', inode', p, allocated', same, apart⟩ := place x mem
      obtain ⟨rfl, rfl⟩ := unshared _ _ _ _ _ _ _ allocated allocated' there same data
      obtain rfl : inode = inode' := Option.some.inj (allocated.1.symm.trans allocated'.1)
      exact apart part rfl
  refine ⟨kept, fun inr inode visited allocated => ⟨coherent.walkEnds visited allocated, ?_⟩⟩
  exact fun big j inside => ⟨inr, inode, visited, allocated, big, j, inside, rfl⟩

/-- From an image with disjoint regions, whose files have their own sectors in the data region, and
on which no file that the scan visits fills its last indirect sector, every run of creations that
leave the directories walkable ends with a volume that can be mounted again. -/
theorem mountability_preserved {f : Disk} {s : Superblock} {u u' : UnixFilesystem}
    (regions : f.Regions s) (mapped : f.Mapped s) (unshared : f.Unshared s)
    (whole : ∀ inr inode, f.Allocated s inr inode → inr ≤ 16 * (s.sIsize.toNat - 1) →
      0 < inodeGetsize inode → inodeGetsize inode % 131072 ≠ 0)
    (mounted : mountv6 f = .ok u) (runs : Runs StaysWalkable u u') :
    ∃ u'', mountv6 (umountv6 u') = .ok u'' := by
  have start := scannable_start regions mapped unshared whole mounted
  have scannable : Scannable (scannedIndirects f s) u u' := by
    refine Runs.invariant (Scannable (scannedIndirects f s) u) ?_ runs start
    intro v call code v' before allowed run
    cases call with
    | create entry mode => exact before.create allowed run
    | addfile entry mode buf => exact before.addfile allowed.1 allowed.2 run
    | fileCreate => exact allowed.elim
    | writebytes => exact allowed.elim
    | remount => exact allowed.elim
  exact scannable.mounts (mountv6_coherent mounted).2

/-- Record `i` of the directory below: the root itself under a name of its own. -/
def crowdedRecord (i : Nat) : Direntv6 :=
  ⟨1, #v[UInt8.ofNat (65 + i % 16), UInt8.ofNat (128 + i / 16), 0, 0, 0, 0, 0, 0, 0, 0, 0, 0, 0, 0]⟩

/-- The root of the volume below. -/
def crowdedDirectory : Inode := fileInode 0x4000 4080 eightAddresses

/-- A volume whose root has 255 records, one less than fit into eight sectors. -/
def crowdedVolume : Disk :=
  volume 2 12 [(1, crowdedDirectory)] ((List.range 8).map fun k => Block.ofBytes sectorSize
    ((List.range (min 32 (255 - 32 * k))).flatMap fun j =>
      direntCodec.encode (crowdedRecord (32 * k + j))))

set_option maxRecDepth 10000 in
/-- The root is the only file of the crowded volume. -/
theorem crowdedVolume_allocated {inr : Nat} {inode : Inode}
    (allocated : crowdedVolume.Allocated (volumeSuperblock 2 12) inr inode) :
    inr = 1 ∧ inode = crowdedDirectory := by
  have all : ∀ entry ∈ crowdedVolume.inodesInUse (volumeSuperblock 2 12),
      entry.1 = 1 ∧ entry.2 = crowdedDirectory := by decide +kernel
  exact all (inr, inode) (Disk.mem_inodesInUse.mpr allocated)

/-- Data sector `k` of the crowded volume. -/
def crowdedSector (k : Nat) : Sector :=
  Block.ofBytes sectorSize ((List.range (min 32 (255 - 32 * k))).flatMap fun j =>
    direntCodec.encode (crowdedRecord (32 * k + j)))

/-- It has its records, and zeros behind them. -/
theorem crowdedSector_bytes (k : Nat) :
    (crowdedSector k).bytes = ((List.range (min 32 (255 - 32 * k))).flatMap fun j =>
      direntCodec.encode (crowdedRecord (32 * k + j))) ++
        List.replicate (512 - 16 * min 32 (255 - 32 * k)) 0 := by
  have length : ((List.range (min 32 (255 - 32 * k))).flatMap fun j =>
      direntCodec.encode (crowdedRecord (32 * k + j))).length = 16 * min 32 (255 - 32 * k) := by
    simp only [List.length_flatMap, direntCodec.encode_length, direntCodec_width, List.map_const',
      List.length_range, List.sum_replicate_nat, Nat.mul_comm]
  rw [crowdedSector, Block.ofBytes_bytes (by rw [length, sectorSize]; omega), length]

/-- The bytes of the eight sectors are the records one after another. -/
theorem crowdedSectors_bytes :
    ((List.range 8).flatMap fun k => (crowdedSector k).bytes).take 4080 =
      ((List.range 255).map crowdedRecord).flatMap direntCodec.encode := by
  have rows : ((List.range 7).flatMap fun k => (crowdedSector k).bytes) =
      (List.range 224).flatMap fun i => direntCodec.encode (crowdedRecord i) := by
    rw [← flatMap_grid _ 32 7]
    apply List.flatMap_congr
    intro k mem
    have small := List.mem_range.mp mem
    have whole : min 32 (255 - 32 * k) = 32 := by omega
    rw [crowdedSector_bytes, whole]
    exact List.append_nil _
  have last : (List.range 255).flatMap (fun i => direntCodec.encode (crowdedRecord i)) =
      ((List.range 224).flatMap fun i => direntCodec.encode (crowdedRecord i)) ++
        (List.range 31).flatMap fun j => direntCodec.encode (crowdedRecord (32 * 7 + j)) := by
    rw [show 255 = 224 + 31 from rfl, List.range_add, List.flatMap_append, List.flatMap_map]
  have length : ((List.range 255).flatMap fun i => direntCodec.encode (crowdedRecord i)).length =
      4080 := by
    simp only [List.length_flatMap, direntCodec.encode_length, direntCodec_width, List.map_const',
      List.length_range, List.sum_replicate_nat]
  rw [List.range_succ, List.flatMap_append, rows, List.flatMap_singleton, crowdedSector_bytes,
    ← List.append_assoc, List.flatMap_map]
  show ((_ ++ (List.range 31).flatMap fun j =>
    direntCodec.encode (crowdedRecord (32 * 7 + j))) ++ _).take 4080 = _
  rw [← last, ← length]
  exact List.take_left

/-- The size of the root. -/
theorem crowdedDirectory_size : inodeGetsize crowdedDirectory = 4080 := by decide

/-- The number of sectors of the root. -/
theorem crowdedDirectory_count : sectorCount crowdedDirectory = 8 := by decide

/-- The root has the sectors from 4 on. -/
theorem crowdedVolume_sector {k : Nat} (small : k < 8) :
    (crowdedDirectory.iAddr.toList.getD k 0).toNat = 4 + k ∧
      crowdedVolume.sectors[4 + k]? = some (crowdedSector k) := by
  match k, small with
  | 0, _ => exact ⟨rfl, rfl⟩
  | 1, _ => exact ⟨rfl, rfl⟩
  | 2, _ => exact ⟨rfl, rfl⟩
  | 3, _ => exact ⟨rfl, rfl⟩
  | 4, _ => exact ⟨rfl, rfl⟩
  | 5, _ => exact ⟨rfl, rfl⟩
  | 6, _ => exact ⟨rfl, rfl⟩
  | 7, _ => exact ⟨rfl, rfl⟩

/-- The records of the root. -/
theorem crowdedVolume_records : records (crowdedVolume.contents crowdedDirectory) =
    (List.range 255).map crowdedRecord := by
  have content : crowdedVolume.contents crowdedDirectory =
      ((List.range 255).map crowdedRecord).flatMap direntCodec.encode := by
    rw [Disk.contents, crowdedDirectory_count, crowdedDirectory_size, ← crowdedSectors_bytes]
    apply congrArg (List.take 4080)
    apply List.flatMap_congr
    intro k mem
    have small := List.mem_range.mp mem
    obtain ⟨address, sector⟩ := crowdedVolume_sector small
    rw [Disk.contentSector, mapped_direct _ (by rw [crowdedDirectory_count])
      (by rw [crowdedDirectory_count]; exact small), address]
    simp only [sector, Option.map_some, Option.getD_some]
  rw [content, records_flatMap]

/-- The records of the root as they are read. -/
theorem crowdedVolume_content {u : UnixFilesystem} (f : u.f = crowdedVolume) :
    fileContent u crowdedDirectory =
      (((List.range 255).map crowdedRecord).flatMap direntCodec.encode, errNone) := by
  have works : u.f.host.Faultless := by
    rw [f]
    exact Host.quiet_faultless
  have size := crowdedDirectory_size
  have pieces : filePieces u crowdedDirectory 0 8 =
      ((List.range 8).map fun k => (crowdedSector k).bytes).map .ok := by
    rw [filePieces, ← List.range_eq_range', List.map_map]
    apply List.map_congr_left
    intro k mem
    have small := List.mem_range.mp mem
    obtain ⟨address, sector⟩ := crowdedVolume_sector small
    have found : inodeFindsector u crowdedDirectory k = (4 + k : Nat) := by
      rw [inodeFindsector_direct u (by decide) (by omega) (by omega), address]
    rw [fileBlock_of_found works found (by rw [f]; exact sector)]
    rfl
  rw [fileContent, crowdedDirectory_count, size, pieces, gather_ok, ← crowdedSectors_bytes]
  rfl

set_option maxRecDepth 10000 in
/-- The names of the records are distinct: a number can be computed back from its name. -/
theorem crowdedRecord_names :
    (((List.range 255).map crowdedRecord).map fun r => r.pair.2).Nodup := by
  apply List.Nodup.of_map fun name =>
    (name.getD 0 0).toNat - 65 + 16 * ((name.getD 1 0).toNat - 128)
  have inverse : (((List.range 255).map crowdedRecord).map fun r => r.pair.2).map (fun name =>
      (name.getD 0 0).toNat - 65 + 16 * ((name.getD 1 0).toNat - 128)) = List.range 255 := by
    decide +kernel
  rw [inverse]
  exact List.nodup_range

set_option maxRecDepth 10000 in
/-- The crowded volume is well formed. -/
theorem crowdedVolume_wellFormed : crowdedVolume.WellFormed (volumeSuperblock 2 12) := by
  have root : crowdedVolume.Allocated (volumeSuperblock 2 12) 1 crowdedDirectory :=
    Disk.mem_inodesInUse.mp (by decide +kernel)
  refine ⟨Disk.regions_of_check Host.quiet_faultless (by decide +kernel),
    ⟨crowdedDirectory, root, by decide⟩, by decide +kernel, by decide +kernel,
    by decide +kernel, ?_, ?_⟩
  · intro inr inode allocated _
    obtain ⟨-, rfl⟩ := crowdedVolume_allocated allocated
    rw [crowdedVolume_records]
    exact ⟨crowdedRecord_names, by decide +kernel⟩
  · intro inr inode allocated _ record mem
    obtain ⟨-, rfl⟩ := crowdedVolume_allocated allocated
    rw [crowdedVolume_records] at mem
    obtain ⟨i, -, rfl⟩ := List.mem_map.mp mem
    exact ⟨crowdedDirectory, root⟩

set_option maxRecDepth 10000 in
/-- Creating `/a` on this well-formed volume succeeds, and the volume cannot be mounted any more. -/
theorem mountability_lost :
    crowdedVolume.WellFormed (volumeSuperblock 2 12) ∧
      ∃ u, mountv6 crowdedVolume = .ok u ∧
        ∃ result ∈ Call.run u (.create [47, 97] 0),
          result.1 = 2 ∧ ∀ u'', mountv6 (umountv6 result.2) ≠ .ok u'' := by
  obtain ⟨u, mounted, ⟨super, read⟩, cut, root, result, run, number, fails⟩ :=
    mountv6_check (f := crowdedVolume)
      (P := fun u => (u.s = volumeSuperblock 2 12 ∧
          inodeRead u 1 Inode.zero = (errNone, crowdedDirectory)) ∧
        splitNameDirentv6Create [47, 97] = .ok ([97], []) ∧ direntv6Dirlookup u 1 [] = some 1 ∧
        ∃ result ∈ createDirent u 0 [97] 1,
          result.1 = 2 ∧ (mountv6 (umountv6 result.2)).isOk = false) (by decide +kernel)
  have f := (mountv6_coherent mounted).1
  have works : u.f.host.Faultless := by
    rw [f]
    exact Host.quiet_faultless
  have whole : u.f.WholeRecords u.s := by
    rw [f, super]
    exact crowdedVolume_wellFormed.whole
  have allocated := inodeRead_allocated u (congrArg Prod.fst read)
  rw [read] at allocated
  -- the name is looked up in the list of records, since reading them one by one takes long
  have absent : findName [97] (dirEntries u crowdedDirectory) = none := by
    rw [dirEntries, crowdedVolume_content f, records_flatMap]
    decide +kernel
  have named : direntv6Dirlookup u 1 [97] = some errNoSuchFile := by
    have parts : components pathToken [97] = [[97]] := by decide
    rw [direntv6Dirlookup_components u whole (by decide), componentWalk, parts]
    show some (walkCode (recordNamed u 1 [97] >>= fun inr => .ok inr)) = _
    rw [recordNamed_of_allocated works allocated (by decide), absent, crowdedVolume_content f]
    rfl
  have check : createCheck u [47, 97] = some (.ok ([97], 1)) :=
    (createCheck_eq_ok u).mpr ⟨[], 1, cut, root, by decide, rfl, named⟩
  have create : Call.run u (.create [47, 97] 0) = createDirent u 0 [97] 1 := by
    rw [Call.run, direntv6Create_eq, check]
  rw [← create] at run
  refine ⟨crowdedVolume_wellFormed, u, mounted, result, run, number, fun u'' again => ?_⟩
  rw [again] at fails
  cases fails

set_option maxRecDepth 10000 in
/-- After creating `/a` on the empty volume, the volume can be mounted again. -/
theorem mountability_preserved_create :
    ∃ u u', mountv6 emptyVolume = .ok u ∧ Runs StaysWalkable u u' ∧ u'.f.InUse u'.s 2 ∧
      ∃ u'', mountv6 (umountv6 u') = .ok u'' := by
  obtain ⟨u, mounted, ready, ⟨code, u'⟩, run, used⟩ := mountv6_check (f := emptyVolume)
    (P := fun u => (∀ found ∈ parentOf u [47, 97], found.1.length < direntMaxlen ∧
        u.ibm.Marked found.2.1.toNat ∧ inodeGetsize found.2.2 + 16 < 4096) ∧
      ∃ result ∈ Call.run u (.create [47, 97] 0), result.2.f.InUse result.2.s 2)
    (by decide +kernel)
  have allowed : StaysWalkable u (.create [47, 97] 0) := fun found mem =>
    ⟨(ready found mem).1, (ready found mem).2.1, .inl (ready found mem).2.2⟩
  have runs : Runs StaysWalkable u u' := .single ⟨.create [47, 97] 0, code, allowed, run⟩
  refine ⟨u, u', mounted, runs, used,
    mountability_preserved emptyVolume_wellFormed.regions emptyVolume_wellFormed.mapped
      emptyVolume_wellFormed.unshared ?_ mounted runs⟩
  intro inr inode allocated _ positive
  rw [(emptyVolume_allocated allocated).2, emptyDirectory_size] at positive
  contradiction

end U6fs
