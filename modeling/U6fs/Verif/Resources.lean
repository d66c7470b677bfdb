import U6fs.Spec.Resources
import U6fs.Spec.Volume
import U6fs.Verif.ScanBounds
import U6fs.Verif.Mounted

/-!
# What a mount opens and what it closes

A command that mounts adds one disk file to those that were opened, and at the end of the command
this file is closed, unless the mount fails in its scan: that exit of `mountv6` frees the bitmaps
and leaves the disk file open, and no later command has it. So the disk files of a run are all
closed exactly once when no mount of the run fails in its scan.
-/
namespace U6fs

open Lib

/-- The file system with which `mountv6` calls `fill_bitmaps`, when it comes to that. -/
def Command.handedOver (c : Command) : Option UnixFilesystem :=
  match c.file with
  | none => none
  | some f =>
    match sectorRead f bootblockSector, sectorRead f superblockSector with
    | .ok table, .ok superblock =>
      if table.bytes.headD 0 ≠ bootblockMagicNum then none
      else
        let s := Superblock.ofSector superblock
        match (bmAlloc rootInumber (s.sIsize.toNat * inodesPerSector)).filter fun _ => c.mallocIbm,
          (bmAlloc s.sBlockStart.toNat s.sFsize.toNat).filter fun _ => c.mallocFbm with
        | some ibm, some fbm => some { f, s, fbm, ibm }
        | _, _ => none
    | _, _ => none

/-- The scan of the mount comes to an inode that it cannot read or whose sectors it cannot walk. -/
def Command.ScanStops (c : Command) : Prop :=
  ∃ u, c.handedOver = some u ∧
    ∃ k < u.s.sIsize.toNat - 1, ∃ j < inodesPerSector, ¬VisitOk u (scannedInr k j)

/-- After a failing mount the disk file is closed and the bitmaps are freed, and the file system
holds no bitmap. -/
structure Released (before after : Process) : Prop where
  /-- The disk file, if one was opened, was closed once. -/
  handle : ∀ handle, after.u.f = some handle → after.handles.ReleasedOnce handle
  /-- The file system holds no bitmap. -/
  bitmaps : after.u.ibm = none ∧ after.u.fbm = none
  /-- The bitmaps that were allocated were freed once. -/
  freed : ∀ i, before.bitmaps.next + i < after.bitmaps.next →
    after.bitmaps.ReleasedOnce (before.bitmaps.next + i)

/-- The commands of a process release what their mounts open. -/
structure ReleasesAll (commands : List Command) : Prop where
  /-- Every disk file that was opened was closed exactly once. -/
  closed : (runCommands commands .start).handles.Settled
  /-- Every failing mount of the run releases what it opened. -/
  failed : ∀ before c later, commands = before ++ c :: later → ∀ error m,
    mountv6Resources c (runCommands before .start) = (error, m) → error ≠ errNone →
      Released (runCommands before .start) m

/-- A mount that succeeds. -/
structure MountSucceeds (m m' : Process) : Prop where
  /-- The disk file is open. -/
  handles : m.handles.Extends m'.handles [0]
  /-- The bitmaps are allocated. -/
  bitmaps : m.bitmaps.Extends m'.bitmaps [0, 0]
  /-- The file system holds them. -/
  u : m'.u = ⟨some m.handles.next, some (m.bitmaps.next + 1), some m.bitmaps.next⟩

/-- A mount that fails, with the number of times that the disk file was closed, if one was
opened. -/
structure MountFails (m m' : Process) (opened : List Nat) : Prop where
  /-- What was opened. -/
  handles : m.handles.Extends m'.handles opened
  /-- The bitmaps that were allocated are freed. -/
  bitmaps : ∃ allocated, m.bitmaps.Extends m'.bitmaps allocated ∧ ∀ count ∈ allocated, count = 1
  /-- The file system holds no bitmap. -/
  u : m'.u.ibm = none ∧ m'.u.fbm = none ∧ ∀ handle, m'.u.f = some handle → handle = m.handles.next

section Mount

variable {c : Command} {m m' : Process} {error : Int}

/-- An exit of `mountv6` that closes the disk file. -/
theorem mountFails_closed {allocated : List Nat} (bitmaps : m.bitmaps.Extends m'.bitmaps allocated)
    (freed : ∀ count ∈ allocated, count = 1)
    (handles : m'.handles = m.handles.acquire.release m.handles.next)
    (u : m'.u = ⟨some m.handles.next, none, none⟩) :
    MountFails m m' [1] := by
  constructor
  case handles =>
    rw [handles]
    exact (Ledger.Extends.acquire m.handles).release 0
  case bitmaps => exact ⟨allocated, bitmaps, freed⟩
  case u =>
    rw [u]
    exact ⟨rfl, rfl, fun handle same => (Option.some.inj same).symm⟩

/-- The exit of `mountv6` behind its scan. -/
theorem fillBitmaps_scanStops {u : UnixFilesystem} (there : c.handedOver = some u) :
    (∃ code, fillBitmaps u = .error code) ↔ c.ScanStops := by
  have success := (fillBitmaps_spec u).1
  constructor
  · rintro ⟨code, failed⟩
    refine ⟨u, there, ?_⟩
    by_contra visits
    push Not at visits
    obtain ⟨next, ok⟩ := success.mpr visits
    rw [failed] at ok
    cases ok
  · rintro ⟨u', there', k, sector, j, slot, bad⟩
    rw [there, Option.some.injEq] at there'
    subst there'
    cases result : fillBitmaps u with
    | error code => exact ⟨code, rfl⟩
    | ok next => exact absurd (success.mp ⟨next, result⟩ k sector j slot) bad

/-- The two bitmaps of a mount whose scan fails. -/
theorem bitmaps_freed (l : Ledger) : l.Extends
    ((l.acquire.acquire.release l.next).release l.acquire.next) [1, 1] := by
  have both : l.Extends l.acquire.acquire [0, 0] := (Ledger.Extends.acquire l).trans (.acquire _)
  have next : l.acquire.next = l.next + 1 := List.length_append
  rw [next]
  exact (both.release 0).release 1

/-- A mount that does not come to its scan closes the disk file that it opened. -/
theorem mountv6Resources_refused (refused : c.handedOver = none)
    (run : mountv6Resources c m = (error, m')) :
    error ≠ errNone ∧ (MountFails m m' [1] ∨ (MountFails m m' [] ∧ m'.u.f = none)) := by
  have negative : ∀ {f : Disk} {sector : Nat} {code : Int}, sectorRead f sector = .error code →
      code ≠ errNone := by
    intro f sector code failed
    rw [sectorRead_error failed]
    decide
  rw [Command.handedOver] at refused
  rw [mountv6Resources] at run
  cases file : c.file with
  | none =>
    simp only [file, Prod.mk.injEq] at run
    obtain ⟨rfl, rfl⟩ := run
    refine ⟨by decide, .inr ⟨⟨.refl _, ⟨[], .refl _, by simp⟩, rfl, rfl, ?_⟩, rfl⟩⟩
    intro handle opened
    cases opened
  | some f =>
    simp only [file] at run refused
    cases first : sectorRead f bootblockSector with
    | error code =>
      simp only [first, Prod.mk.injEq] at run
      obtain ⟨rfl, rfl⟩ := run
      exact ⟨negative first, .inl (mountFails_closed (.refl _) (by simp) rfl rfl)⟩
    | ok table =>
      simp only [first] at run refused
      by_cases magic : table.bytes.headD 0 ≠ bootblockMagicNum
      · simp only [if_pos magic, Prod.mk.injEq] at run
        obtain ⟨rfl, rfl⟩ := run
        exact ⟨by decide, .inl (mountFails_closed (.refl _) (by simp) rfl rfl)⟩
      · simp only [if_neg magic] at run
        cases second : sectorRead f superblockSector with
        | error code =>
          simp only [second, Prod.mk.injEq] at run
          obtain ⟨rfl, rfl⟩ := run
          exact ⟨negative second, .inl (mountFails_closed (.refl _) (by simp) rfl rfl)⟩
        | ok superblock =>
          simp only [second] at run
          simp only [second, if_neg magic] at refused
          cases ibm : (bmAlloc rootInumber ((Superblock.ofSector superblock).sIsize.toNat *
              inodesPerSector)).filter fun _ => c.mallocIbm with
          | none =>
            simp only [ibm, Prod.mk.injEq] at run
            obtain ⟨rfl, rfl⟩ := run
            exact ⟨by decide, .inl (mountFails_closed (.refl _) (by simp) rfl rfl)⟩
          | some ibmArray =>
            simp only [ibm] at run refused
            cases fbm : (bmAlloc (Superblock.ofSector superblock).sBlockStart.toNat
                (Superblock.ofSector superblock).sFsize.toNat).filter fun _ => c.mallocFbm with
            | none =>
              simp only [fbm, Prod.mk.injEq] at run
              obtain ⟨rfl, rfl⟩ := run
              have freed := (Ledger.Extends.acquire m.bitmaps).release 0
              exact ⟨by decide, .inl (mountFails_closed freed (by simp) rfl rfl)⟩
            | some fbmArray =>
              -- from here on the mount comes to its scan
              simp only [fbm] at refused
              cases refused

/-- A mount that comes to its scan has a table, and what it returns is decided by the scan. -/
theorem mountv6Resources_handedOver {u : UnixFilesystem} (there : c.handedOver = some u)
    (m : Process) :
    1 ≤ u.s.sIsize.toNat ∧ mountv6Resources c m =
      match fillBitmaps u with
      | .error fill => (fill, Process.mk m.handles.acquire
          ((m.bitmaps.acquire.acquire.release m.bitmaps.next).release m.bitmaps.acquire.next)
          ⟨some m.handles.next, none, none⟩)
      | .ok _ => (errNone, Process.mk m.handles.acquire m.bitmaps.acquire.acquire
          ⟨some m.handles.next, some m.bitmaps.acquire.next, some m.bitmaps.next⟩) := by
  rw [Command.handedOver] at there
  rw [mountv6Resources]
  cases file : c.file with
  | none =>
    simp only [file] at there
    cases there
  | some f =>
    simp only [file] at there ⊢
    split at there
    case h_2 => cases there
    case h_1 table superblock first second =>
      split at there
      case isTrue => cases there
      case isFalse magic =>
        simp only [first, second, if_neg magic]
        split at there
        case h_2 => cases there
        case h_1 ibmArray fbmArray ibm fbm =>
          obtain ⟨-, -, range, -⟩ := bmAlloc_eq_some (Option.filter_eq_some_iff.mp ibm).1
          unfold rootInumber inodesPerSector at range
          cases there
          simp only [ibm, fbm]
          refine ⟨by omega, ?_⟩
          cases fillBitmaps ⟨f, Superblock.ofSector superblock, fbmArray, ibmArray⟩ with
          | error code => rfl
          | ok next => rfl

/-- The exits of `mountv6`. -/
theorem mountv6Resources_cases (run : mountv6Resources c m = (error, m')) :
    (error = errNone ∧ MountSucceeds m m' ∧ ¬c.ScanStops) ∨
      (error ≠ errNone ∧ ∃ opened, MountFails m m' opened ∧
        ((opened = [0] ∧ m'.u.f = some m.handles.next ∧ c.ScanStops) ∨
          ((∀ count ∈ opened, count = 1) ∧
            (∀ handle, m'.u.f = some handle → opened = [1]) ∧ ¬c.ScanStops))) := by
  cases there : c.handedOver with
  | none =>
    have scans : ¬c.ScanStops := by
      rintro ⟨u, other, -⟩
      rw [there] at other
      cases other
    obtain ⟨failed, closed | ⟨unopened, u⟩⟩ := mountv6Resources_refused there run
    · exact .inr ⟨failed, [1], closed, .inr ⟨by simp, fun _ _ => rfl, scans⟩⟩
    · refine .inr ⟨failed, [], unopened, .inr ⟨by simp, ?_, scans⟩⟩
      intro handle opened
      rw [u] at opened
      cases opened
  | some u =>
    have stops := fillBitmaps_scanStops there
    obtain ⟨table, exit⟩ := mountv6Resources_handedOver there m
    rw [run] at exit
    cases scan : fillBitmaps u with
    | error code =>
      simp only [scan, Prod.mk.injEq] at exit
      obtain ⟨rfl, rfl⟩ := exit
      have negative := fillBitmaps_error table scan
      have failed : error ≠ errNone := by
        unfold errNone
        omega
      refine .inr ⟨failed, [0], ⟨.acquire _, ⟨_, bitmaps_freed m.bitmaps, by simp⟩, rfl, rfl, ?_⟩,
        .inl ⟨rfl, rfl, stops.mp ⟨_, scan⟩⟩⟩
      exact fun handle same => (Option.some.inj same).symm
    | ok next =>
      simp only [scan, Prod.mk.injEq] at exit
      obtain ⟨rfl, rfl⟩ := exit
      have bitmaps : m.bitmaps.Extends m.bitmaps.acquire.acquire [0, 0] :=
        (Ledger.Extends.acquire m.bitmaps).trans (.acquire _)
      have number : m.bitmaps.acquire.next = m.bitmaps.next + 1 := List.length_append
      refine .inl ⟨rfl, ⟨.acquire _, bitmaps, by rw [number]⟩, fun failed => ?_⟩
      obtain ⟨code, error⟩ := stops.mpr failed
      rw [scan] at error
      cases error

/-- The code of `mountv6` on a file that opens, when the bitmaps can be allocated. -/
theorem mountv6Resources_code {f : Disk} (file : c.file = some f) (ibm : c.mallocIbm = true)
    (fbm : c.mallocFbm = true) :
    (mountv6Resources c m).1 = match mountv6 f with
      | .error code => code
      | .ok _ => errNone := by
  have whole : ∀ allocated : Option BmblockArray, (allocated.filter fun _ => true) = allocated := by
    intro allocated
    cases allocated <;> rfl
  unfold mountv6Resources mountv6
  simp only [file, ibm, fbm, whole]
  cases first : sectorRead f bootblockSector with
  | error code => rfl
  | ok table =>
    by_cases magic : table.bytes.headD 0 ≠ bootblockMagicNum
    · simp only [if_pos magic, bind, Except.bind]
    · simp only [if_neg magic, bind, Except.bind]
      cases second : sectorRead f superblockSector with
      | error code => rfl
      | ok superblock =>
        cases inodes : bmAlloc rootInumber
            ((Superblock.ofSector superblock).sIsize.toNat * inodesPerSector) with
        | none => simp only [inodes]
        | some ibmArray =>
          cases sectors : bmAlloc (Superblock.ofSector superblock).sBlockStart.toNat
              (Superblock.ofSector superblock).sFsize.toNat with
          | none => simp only [inodes, sectors]
          | some fbmArray =>
            simp only [inodes, sectors]
            cases fillBitmaps ⟨f, Superblock.ofSector superblock, fbmArray, ibmArray⟩ with
            | error code => rfl
            | ok u => rfl

/-- A failing mount whose scan does not stop releases what it opened. -/
theorem mountv6Resources_released (run : mountv6Resources c m = (error, m'))
    (failed : error ≠ errNone) (scans : ¬c.ScanStops) : Released m m' := by
  rcases mountv6Resources_cases run with ⟨done, -⟩ | ⟨-, opened, fails, exit⟩
  · exact absurd done failed
  rcases exit with ⟨-, -, stops⟩ | ⟨-, handle, -⟩
  · exact absurd stops scans
  obtain ⟨allocated, added, ones⟩ := fails.bitmaps
  constructor
  case handle =>
    intro number opens
    have first := (fails.handles.releasedOnce_iff 0).mpr (by rw [handle number opens]; rfl)
    rw [fails.u.2.2 number opens]
    exact first
  case bitmaps => exact ⟨fails.u.1, fails.u.2.1⟩
  case freed =>
    intro i inside
    have length : m'.bitmaps.next = m.bitmaps.next + allocated.length := by
      rw [Ledger.next, added, List.length_append, ← Ledger.next]
    have place : i < allocated.length := by omega
    rw [added.releasedOnce_iff, List.getElem?_eq_getElem place]
    exact congrArg some (ones _ (List.getElem_mem place))

/-- Unmounting closes the disk file of the mount, whether `fclose` reports an error or not. -/
theorem umountv6Resources_closes (succeeds : MountSucceeds m m') (closes : Bool) :
    m.handles.Extends (umountv6Resources closes m').2.handles [1] := by
  have closed : m.handles.Extends (m'.handles.release m.handles.next) [1] :=
    succeeds.handles.release 0
  rw [umountv6Resources, succeeds.u]
  cases closes
  case false =>
    show m.handles.Extends (Process.fclose m').handles [1]
    rw [Process.fclose, succeeds.u]
    exact closed
  case true =>
    show m.handles.Extends _ [1]
    simp only [Process.fclose, succeeds.u, Process.free, Bool.not_true]
    exact closed

end Mount

/-- A command closes what it opens exactly once, unless the scan of its mount stops. -/
theorem u6fsDoOneCmd_closes (m : Process) (c : Command) : ∃ opened,
    m.handles.Extends (u6fsDoOneCmd m c).handles opened ∧
      ((∀ count ∈ opened, count = 1) ↔ ¬c.ScanStops) := by
  rw [u6fsDoOneCmd]
  cases run : mountv6Resources c m with
  | mk error m' =>
    rcases mountv6Resources_cases run with ⟨done, succeeds, scans⟩ | ⟨failed, opened, fails, exit⟩
    · refine ⟨[1], ?_, by simp [scans]⟩
      simp only [done, ne_eq, not_true_eq_false, if_false]
      exact umountv6Resources_closes succeeds c.closes
    · refine ⟨opened, ?_, ?_⟩
      · simp only [failed, ne_eq, not_false_eq_true, if_true]
        exact fails.handles
      · rcases exit with ⟨rfl, -, stops⟩ | ⟨ones, -, scans⟩
        · simp [stops]
        · exact iff_of_true ones scans

/-- Every disk file is closed exactly once when no scan of the run stops. -/
theorem runCommands_settled_iff (commands : List Command) (m : Process) :
    (runCommands commands m).handles.Settled ↔
      m.handles.Settled ∧ ∀ c ∈ commands, ¬c.ScanStops := by
  induction commands generalizing m with
  | nil => simp [runCommands]
  | cons c commands ih =>
    obtain ⟨opened, added, once⟩ := u6fsDoOneCmd_closes m c
    have step := ih (u6fsDoOneCmd m c)
    rw [added.settled_iff, once] at step
    rw [List.forall_mem_cons, ← and_assoc]
    exact step

/-- A run of commands closes every disk file that it opens exactly once, and its failing mounts
release what they opened, exactly when no mount of the run fails in its scan. -/
theorem runCommands_releasesAll_iff (commands : List Command) :
    ReleasesAll commands ↔ ∀ c ∈ commands, ¬c.ScanStops := by
  constructor
  · intro releases
    exact ((runCommands_settled_iff commands .start).mp releases.closed).2
  · intro scans
    constructor
    case closed =>
      refine (runCommands_settled_iff commands .start).mpr ⟨?_, scans⟩
      intro count mem
      cases mem
    case failed =>
      intro before c later split error m run failed
      refine mountv6Resources_released run failed (scans c ?_)
      rw [split]
      exact List.mem_append_right _ List.mem_cons_self

/-- A file of 4096 bytes in the sectors 4 to 11, the first two of them bytes 255. -/
def unwalkableVolume : Disk :=
  volume 2 14 [(1, emptyDirectory), (2, fileInode 0 4096 eightAddresses)]
    (entrySector [65535] :: List.replicate 10 zeroSector)

/-- A command on this volume, with a host that fails nowhere. -/
def unwalkableCommand : Command := ⟨some unwalkableVolume, true, true, true⟩

set_option maxRecDepth 10000 in
/-- A mount of this well-formed volume fails with -1, and its disk file is never closed. -/
theorem runCommands_unwalkable :
    unwalkableVolume.WellFormed (volumeSuperblock 2 14) ∧
      (mountv6Resources unwalkableCommand .start).1 = -1 ∧
      (runCommands [unwalkableCommand] .start).handles.released = [0] ∧
      ¬ReleasesAll [unwalkableCommand] := by
  have counts : (runCommands [unwalkableCommand] .start).handles.released = [0] := by
    decide +kernel
  refine ⟨Disk.wellFormed_of_check Host.quiet_faultless (by decide +kernel), by decide +kernel,
    counts, fun releases => ?_⟩
  have still := releases.closed 0 (by rw [counts]; exact List.mem_singleton_self 0)
  contradiction

end U6fs
