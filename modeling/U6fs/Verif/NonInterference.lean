import U6fs.Spec.Runs
import U6fs.Verif.Isolation

/-!
# Runs of creations that do not interfere

A call is isolated when it reserves an unused inode number, when its record fits into a directory
whose last sector is its own, and when a sector is taken only if every sector of a file is marked.
Since the write path never marks the sectors it takes, this allows one sector for each mount. Every
isolated call of a run leaves all files as they were, except for the directory it extends.
-/
namespace U6fs

open Lib

/-- A file is as before: it has the inode it had and is read as before. -/
def SameFile (u u' : UnixFilesystem) (inr : UInt16) (inode : Inode) : Prop :=
  u'.f.Allocated u'.s inr.toNat inode ∧ readFile u' inr = readFile u inr

/-- A file has the mode it had, and what is read of it starts with what was read before. -/
def Extended (u u' : UnixFilesystem) (inr : UInt16) (inode : Inode) : Prop :=
  ∃ inode' old new, u'.f.Allocated u'.s inr.toNat inode' ∧ inode'.iMode = inode.iMode ∧
    readFile u inr = some old ∧ readFile u' inr = some new ∧ old.1 <+: new.1

/-- `direntv6_create` creates a name for the path. -/
def CreatesName (u : UnixFilesystem) (entry : List UInt8) (mode : UInt16) : Prop :=
  ∃ inr u', direntv6Create u entry mode = some (inr, u') ∧ 0 ≤ inr

/-- Files in use are as before, except for the directory in which a name is created, which is
extended. -/
def Undisturbed (u u' : UnixFilesystem) (entry : List UInt8) (mode : UInt16) : Prop :=
  ∀ inr inode, u.f.Allocated u.s inr.toNat inode → SameFile u u' inr inode ∨
    (CreatesName u entry mode ∧ (∃ name, (name, inr, inode) ∈ parentOf u entry) ∧
      Extended u u' inr inode)

/-- No file in use has exactly 8 whole sectors, which the code takes for more. -/
def NoEightSectors (u : UnixFilesystem) : Prop :=
  ∀ inr inode, u.f.Allocated u.s inr inode → inodeGetsize inode ≠ 4096

/-- A call that stored nothing disturbs no file. -/
theorem Rejected.undisturbed {u u' : UnixFilesystem} {code : Int} (rejected : Rejected u u' code)
    (works : u.f.host.Faultless) (sizes : NoEightSectors u) (entry : List UInt8) (mode : UInt16) :
    Undisturbed u u' entry mode := by
  intro inr inode allocated
  left
  have works' : u'.f.host.Faultless := by
    rw [rejected.f]
    exact works
  have there : u'.f.Allocated u'.s inr.toNat inode := by
    rw [rejected.f, rejected.s]
    exact allocated
  have same : fileContent u' inode = fileContent u inode :=
    fileContent_kept works works' allocated.2 (sizes _ inode allocated)
      fun x _ => by rw [rejected.f]
  refine ⟨there, ?_⟩
  rw [readFile_of_allocated works allocated, readFile_of_allocated works' there, same]

/-- A creation, and then a change of the new file only, disturb no file when all sectors of files
are marked in case the directory takes one. -/
theorem Created.undisturbed {u u₁ u' : UnixFilesystem} {entry name : List UInt8}
    {mode parent : UInt16} {inode inode' : Inode} {inr : Nat} {code : Int}
    (created : Created u u₁ name mode parent inode inode' inr code)
    (works : u.f.host.Faultless) (sizes : NoEightSectors u)
    (marked : TakesSector (inodeGetsize inode) 16 → OwnersMarked u)
    (found : (name, parent, inode) ∈ parentOf u entry)
    (run : direntv6Create u entry mode = some (code, u₁)) (works' : u'.f.host.Faultless)
    (rest : ∀ k found, k ≠ inr → u₁.f.Allocated u₁.s k found →
      u'.f.Allocated u'.s k found ∧ fileContent u' found = fileContent u₁ found) :
    Undisturbed u u' entry mode := by
  obtain ⟨-, -, unused⟩ := created.unused
  intro victim file allocated
  have different : victim.toNat ≠ inr := by
    intro same
    rw [same] at allocated
    exact unused ⟨file, allocated⟩
  have read := readFile_of_allocated works allocated
  by_cases directory : victim.toNat = parent.toNat
  · obtain rfl : victim = parent := UInt16.toNat_inj.mp directory
    obtain rfl : file = inode := Option.some.inj (allocated.1.symm.trans created.directory.1.1)
    obtain ⟨there, content⟩ := rest _ inode' different created.stored.1
    have read' := readFile_of_allocated works' there
    obtain ⟨dName, -, ⟨is, -, added⟩ | ⟨rfl, same, failed⟩⟩ := created.outcome
    · right
      refine ⟨⟨code, u₁, run, by omega⟩, ⟨name, found⟩, inode', _, _, there, created.stored.2, read,
        read', ?_⟩
      rw [content, added]
      split
      · exact List.prefix_append _ _
      · exact List.prefix_rfl
    · left
      refine ⟨there, ?_⟩
      rw [read, read', content, same]
  · left
    obtain ⟨between, same⟩ := created.others _ file directory allocated
    obtain ⟨there, content⟩ := rest _ file different between
    have kept := same (sizes _ file allocated) fun takes => marked takes _ file allocated
    refine ⟨there, ?_⟩
    rw [read, readFile_of_allocated works' there, content, kept]

/-- A creation leaves no file at 8 whole sectors. -/
theorem Created.sizes {u u' : UnixFilesystem} {name : List UInt8} {mode parent : UInt16}
    {inode inode' : Inode} {inr : Nat} {code : Int}
    (created : Created u u' name mode parent inode inode' inr code) (sizes : NoEightSectors u)
    (fits : RecordFits name inode) : NoEightSectors u' := by
  intro k found' there
  obtain ⟨-, -, limit, -⟩ := fits
  rcases created.origin k found' there with rfl | ⟨found, was, -, rfl | size, -⟩
  · rw [inodeGetsize_zero_created]
    decide
  · exact sizes k found' was
  · omega

instance (u : UnixFilesystem) : Decidable (AllocatesUnused u) :=
  decidable_of_iff (0 ≤ (inodeAlloc u).1 → ¬u.f.InUse u.s (inodeAlloc u).1.toNat) (by
    constructor
    · intro unused inr u' run positive
      rw [run] at unused
      exact unused positive
    · intro unused positive
      exact unused _ _ rfl positive)

instance (u : UnixFilesystem) (inr : Nat) (inode : Inode) : Decidable (LastUnshared u inr inode) :=
  decidable_of_iff (inodeGetsize inode % 512 ≠ 0 → ∀ use ∈ u.f.dataUses u.s,
      u.f.mapped inode (.data (inodeGetsize inode / 512)) = some use.2 →
        use.1 = (inr, .data (inodeGetsize inode / 512))) (by
    constructor
    · intro all residual inr' inode' p x mine allocated maps data
      have same := all residual ((inr', p), x)
        (Disk.mem_dataUses.mpr ⟨inode', allocated, maps, data⟩) mine
      exact Prod.mk.inj same
    · rintro unshared residual ⟨⟨inr', p⟩, x⟩ mem mine
      obtain ⟨inode', allocated, maps, data⟩ := Disk.mem_dataUses.mp mem
      obtain ⟨rfl, rfl⟩ := unshared residual inr' inode' p x mine allocated maps data
      rfl)

instance (name : List UInt8) (inode : Inode) : Decidable (RecordFits name inode) :=
  inferInstanceAs (Decidable (_ ∧ _))

instance (u : UnixFilesystem) (name : List UInt8) (parent : UInt16) (inode : Inode) :
    Decidable (CanRecord u name parent inode) :=
  decidable_of_iff (RecordFits name inode ∧ inodeGetsize inode % 16 = 0 ∧
      LastUnshared u parent.toNat inode)
    ⟨fun ⟨fits, whole, unshared⟩ => ⟨fits, whole, unshared⟩,
      fun can => ⟨can.fits, can.whole, can.unshared⟩⟩

/-- A creation that comes to `create_dirent` finds no number in use by `inode_alloc`, and its
directory can take a record; if it takes a sector, all sectors of files are marked. -/
def PathReady (u : UnixFilesystem) (entry : List UInt8) : Prop :=
  ∀ found ∈ parentOf u entry, AllocatesUnused u ∧ CanRecord u found.1 found.2.1 found.2.2 ∧
    (TakesSector (inodeGetsize found.2.2) 16 → OwnersMarked u)

instance (u : UnixFilesystem) (entry : List UInt8) : Decidable (PathReady u entry) :=
  inferInstanceAs (Decidable (∀ found ∈ parentOf u entry, _))

/-- Such a creation gives no content to the new file, or its directory takes no sector and all
sectors of files are marked. -/
def ContentApart (u : UnixFilesystem) (entry buf : List UInt8) : Prop :=
  ∀ found ∈ parentOf u entry, buf.length < 4096 ∧
    (buf ≠ [] → OwnersMarked u ∧ ¬TakesSector (inodeGetsize found.2.2) 16)

instance (u : UnixFilesystem) (entry buf : List UInt8) : Decidable (ContentApart u entry buf) :=
  inferInstanceAs (Decidable (∀ found ∈ parentOf u entry, _))

/-- The calls that write into sectors of no other file; nothing is asked of a creation that does not
come to `create_dirent`. -/
def Isolated (u : UnixFilesystem) : Call → Prop
  | .create entry _ => PathReady u entry
  | .addfile entry _ buf => PathReady u entry ∧ ContentApart u entry buf
  | _ => False

instance (u : UnixFilesystem) (call : Call) : Decidable (Isolated u call) :=
  match call with
  | .create entry _ => inferInstanceAs (Decidable (PathReady u entry))
  | .addfile entry _ buf =>
    inferInstanceAs (Decidable (PathReady u entry ∧ ContentApart u entry buf))
  | .fileCreate _ _ => .isFalse id
  | .writebytes _ _ => .isFalse id
  | .remount => .isFalse id

/-- The invariant of the isolated calls. -/
structure Steady (u : UnixFilesystem) : Prop where
  /-- The volume is intact. -/
  intact : Intact u
  /-- No file has exactly 8 whole sectors. -/
  sizes : NoEightSectors u

/-- Content appended to a new file keeps the volume intact when all sectors of files are marked,
and changes what is read of no other file whose sectors are marked. -/
theorem Intact.append_new {u u' : UnixFilesystem} (before : Intact u) {inr : UInt16}
    {mode : UInt16} {file : Inode} {buf : List UInt8} {code : Int}
    (there : u.f.Allocated u.s inr.toNat (Inode.zero.created mode)) (small : buf.length < 4096)
    (appended : Appends u u' inr (Inode.zero.created mode) file buf code) :
    ((buf ≠ [] → OwnersMarked u) → Intact u') ∧
      ∀ k found, k ≠ inr.toNat → u.f.Allocated u.s k found →
        u'.f.Allocated u'.s k found ∧ (inodeGetsize found ≠ 4096 →
          (buf ≠ [] → SectorsMarked u found) → fileContent u' found = fileContent u found) := by
  have empty := inodeGetsize_zero_created mode
  have framed := appended.framed
  have slots : SlotsInside (inodeGetsize (Inode.zero.created mode)) buf.length := by
    rw [empty]
    exact .inr (by omega)
  have more : TakesSector (inodeGetsize (Inode.zero.created mode)) buf.length → buf ≠ [] := by
    rintro takes rfl
    rw [empty] at takes
    exact absurd takes (by decide)
  have unshared : LastUnshared u inr.toNat (Inode.zero.created mode) := by
    intro residual
    exact absurd (by rw [empty]) residual
  refine ⟨fun all => before.appends there slots unshared appended (fun takes => all (more takes))
    (.inr (addr_zero_created mode)), fun k found different was => ⟨?_, fun size set => ?_⟩⟩
  · rw [framed.s, Disk.Allocated, framed.inodeAt k different]
    exact was
  · exact before.others_read there unshared framed different was size
      fun takes => set (more takes)

namespace Steady

variable {u u' : UnixFilesystem}

/-- A call that stored nothing keeps the invariant. -/
theorem rejected {code : Int} (before : Steady u) (rejected : Rejected u u' code) : Steady u' := by
  refine ⟨before.intact.rejected rejected, ?_⟩
  intro inr inode there
  rw [rejected.f, rejected.s] at there
  exact before.sizes inr inode there

/-- `direntv6_create` when the path is ready. -/
theorem create (before : Steady u) {entry : List UInt8} {mode : UInt16} {code : Int}
    (ready : PathReady u entry) (run : direntv6Create u entry mode = some (code, u')) :
    Steady u' ∧ Undisturbed u u' entry mode ∧ (Rejected u u' code ∨
      ∃ u₁ name parent inode inode' inr,
        Recorded u u₁ u' entry name mode parent inode inode' inr code ∧
        Created u u' name mode parent inode inode' inr code) := by
  have works := before.intact.geometry.works
  have outcome := before.intact.create (fun name parent inode mem => ?_) run
  · refine ⟨?_, ?_, outcome⟩
    · rcases outcome with rejected | ⟨u₁, name, parent, inode, inode', inr, recorded, created⟩
      · exact before.rejected rejected
      · obtain ⟨-, can, all⟩ := ready _ recorded.begun.found
        exact ⟨created.intact all, created.sizes before.sizes can.fits⟩
    · rcases outcome with rejected | ⟨u₁, name, parent, inode, inode', inr, recorded, created⟩
      · exact rejected.undisturbed works before.sizes entry mode
      · exact created.undisturbed works before.sizes (ready _ recorded.begun.found).2.2
          recorded.begun.found run created.geometry.works fun k found _ there => ⟨there, rfl⟩
  · obtain ⟨unused, can, all⟩ := ready _ mem
    obtain ⟨_, _, -, -, -, -, -, old⟩ := parentOf_eq_some.mp mem
    exact ⟨unused, can, fun takes => all takes _ inode old⟩

/-- `direntv6_addfile` when the path is ready and the content is apart. -/
theorem addfile (before : Steady u) {entry buf : List UInt8} {mode : UInt16} {code : Int}
    (ready : PathReady u entry) (content : ContentApart u entry buf)
    (run : direntv6Addfile u entry mode buf = some (code, u')) :
    Steady u' ∧ Undisturbed u u' entry mode := by
  obtain ⟨number, u₂, creation, result⟩ := direntv6Addfile_cases run
  obtain ⟨between, undisturbed, outcome⟩ := before.create ready creation
  rcases result with ⟨-, rfl⟩ | ⟨opened, written, fv6, positive, allocated, wrote, -⟩
  · exact ⟨between, undisturbed⟩
  rcases outcome with rejected | ⟨u₁, name, parent, inode, inode', inr, recorded, created⟩
  · exact absurd rejected.failed (by omega)
  · obtain ⟨short, full⟩ := content _ recorded.begun.found
    obtain ⟨same, file, appended⟩ := direntv6Addfile_appends before.intact.geometry recorded
      short positive allocated wrote
    have there := created.file
    rw [← same] at there
    obtain ⟨keeps, others⟩ := between.intact.append_new there short appended
    rw [same] at others
    -- the directory takes no sector when there is content, so all sectors stay marked
    have marked : buf ≠ [] → OwnersMarked u₂ := by
      intro more k found' there'
      obtain ⟨all, room⟩ := full more
      rcases created.origin k found' there' with rfl | ⟨found, was, -, -, marks⟩
      · intro p x maps
        rw [mapped_empty _ (inodeGetsize_zero_created mode)] at maps
        cases maps
      · exact marks room (all k found was)
    have after := keeps marked
    have size : inodeGetsize file ≠ 4096 := by
      have slots : SlotsInside (inodeGetsize (Inode.zero.created mode)) buf.length := by
        rw [inodeGetsize_zero_created]
        exact .inr (by omega)
      rcases appended.grown slots with rfl | small | ⟨residual, -⟩
      · rw [inodeGetsize_zero_created]
        decide
      · omega
      · exact absurd (by rw [inodeGetsize_zero_created]) residual
    refine ⟨⟨after, fun k found there' => ?_⟩, created.undisturbed before.intact.geometry.works
      before.sizes (ready _ recorded.begun.found).2.2 recorded.begun.found creation
      after.geometry.works fun k found different was => ?_⟩
    · have stored := (appended.stored there.1).1
      rw [appended.framed.s] at there'
      by_cases mine : k = inr
      · subst mine
        rw [same] at stored
        obtain rfl : found = file := Option.some.inj (there'.1.symm.trans stored)
        exact size
      · rw [Disk.Allocated, appended.framed.inodeAt k (by rw [same]; exact mine)] at there'
        exact between.sizes k found there'
    · obtain ⟨there', read⟩ := others k found different was
      exact ⟨there', read (between.sizes k found was) fun more => marked more k found was⟩

end Steady

/-- From an image with disjoint regions, whose files have their own sectors in the data region and
none of which has exactly 8 whole sectors, in every state that a run of isolated calls reaches, an
isolated call leaves every file in use as it was, except for the directory in which it creates a
name, which it extends. -/
theorem files_undisturbed {f : Disk} {s : Superblock} {u v v' : UnixFilesystem}
    (regions : f.Regions s) (mapped : f.Mapped s) (unshared : f.Unshared s)
    (sizes : ∀ inr inode, f.Allocated s inr inode → inodeGetsize inode ≠ 4096)
    (mounted : mountv6 f = .ok u) (runs : Runs Isolated u v) {call : Call} {code : Int}
    (allowed : Isolated v call) (run : call.run v = some (code, v')) {entry buf : List UInt8}
    {mode : UInt16} (is : call = .create entry mode ∨ call = .addfile entry mode buf) :
    Undisturbed v v' entry mode := by
  obtain ⟨rfl, rfl, start⟩ := Intact.mounted regions mapped unshared mounted
  have reached : Steady v := by
    refine Runs.invariant Steady ?_ runs ⟨start, sizes⟩
    intro w call code w' before allowed run
    cases call with
    | create entry mode => exact (before.create allowed run).1
    | addfile entry mode buf => exact (before.addfile allowed.1 allowed.2 run).1
    | fileCreate => exact allowed.elim
    | writebytes => exact allowed.elim
    | remount => exact allowed.elim
  rcases is with rfl | rfl
  · exact (reached.create allowed run).2.1
  · exact (reached.addfile allowed.1 allowed.2 run).2

set_option maxRecDepth 10000 in
/-- Adding a second file of one byte in the same mount overwrites the content of the first one. -/
theorem files_disturbed :
    singleVolume.WellFormed (volumeSuperblock 2 6) ∧
      ∃ u, mountv6 singleVolume = .ok u ∧
        ∃ first ∈ Call.run u (.addfile [47, 97] 0 [65]),
          ∃ second ∈ Call.run first.2 (.addfile [47, 98] 0 [66]),
            first.1 = errNone ∧ second.1 = errNone ∧
              ¬Undisturbed first.2 second.2 [47, 98] 0 := by
  refine ⟨singleVolume_wellFormed, ?_⟩
  obtain ⟨u, mounted, first, run, second, run', ok, ok', used, other, changed⟩ :=
    mountv6_check (f := singleVolume)
      (P := fun u => ∃ first ∈ Call.run u (.addfile [47, 97] 0 [65]),
        ∃ second ∈ Call.run first.2 (.addfile [47, 98] 0 [66]),
          first.1 = errNone ∧ second.1 = errNone ∧
            first.2.f.InUse first.2.s (2 : UInt16).toNat ∧
            (∀ found ∈ parentOf first.2 [47, 98], found.2.1 ≠ 2) ∧
            readFile second.2 2 ≠ readFile first.2 2) (by decide +kernel)
  refine ⟨u, mounted, first, run, second, run', ok, ok', fun undisturbed => ?_⟩
  obtain ⟨inode, allocated⟩ := used
  rcases undisturbed 2 inode allocated with same | ⟨-, ⟨name, found⟩, -⟩
  · exact changed same.2
  · exact other _ found rfl

set_option maxRecDepth 10000 in
/-- After `/a` was created, adding a file of one byte leaves it and the root as they were. -/
theorem files_undisturbed_addfile :
    ∃ u v v' code, mountv6 singleVolume = .ok u ∧ Runs Isolated u v ∧ v.f.InUse v.s 2 ∧
      Call.run v (.addfile [47, 98] 0 [66]) = some (code, v') ∧ Undisturbed v v' [47, 98] 0 := by
  obtain ⟨u, mounted, allow, ⟨code, v⟩, run, used, allow', ⟨code', v'⟩, run', -⟩ :=
    mountv6_check (f := singleVolume)
      (P := fun u => Isolated u (.create [47, 97] 0) ∧
        ∃ first ∈ Call.run u (.create [47, 97] 0), first.2.f.InUse first.2.s 2 ∧
          Isolated first.2 (.addfile [47, 98] 0 [66]) ∧
            ∃ second ∈ Call.run first.2 (.addfile [47, 98] 0 [66]), second.1 = errNone)
      (by decide +kernel)
  have runs : Runs Isolated u v := .single ⟨.create [47, 97] 0, code, allow, run⟩
  have sizes : ∀ inr inode, singleVolume.Allocated (volumeSuperblock 2 6) inr inode →
      inodeGetsize inode ≠ 4096 := by
    intro inr inode allocated
    obtain ⟨-, rfl⟩ := singleVolume_allocated allocated
    rw [singleDirectory_size]
    decide
  exact ⟨u, v, v', code', mounted, runs, used, run',
    files_undisturbed singleVolume_wellFormed.regions singleVolume_wellFormed.mapped
      singleVolume_wellFormed.unshared sizes mounted runs allow' run'
      (.inr (rfl : _ = Call.addfile [47, 98] 0 [66]))⟩

end U6fs
