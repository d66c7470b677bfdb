import U6fs.Utils
import U6fs.Verif.MountBitmaps

/-!
# The two listings of inodes

`utils_print_sha_allfiles` lists every inode in use. `inode_scan_print` ends one table sector too
early, as the scan of a mount does, so the two agree exactly when no inode is in use behind its end.
-/
namespace U6fs

open Lib

/-- `inode_read` accepts a number: it is in the table, and its inode is allocated. -/
def accepts (u : UnixFilesystem) (inr : Nat) : Bool :=
  (inodeRead u (UInt16.ofNat inr) Inode.zero).1 = errNone

/-- Numbers are the inodes in use, each of them once, in increasing order. -/
def ListsInUse (u : UnixFilesystem) (numbers : List Nat) : Prop :=
  numbers.Pairwise (· < ·) ∧ ∀ inr, inr ∈ numbers ↔ u.f.InUse u.s inr

section Scan

variable {u : UnixFilesystem}

/-- A number outside the table stops a listing. -/
theorem stopsListing_outside {inr : UInt16} (outside : inodeOutOfRange u.s inr = true) :
    stopsListing (inodeRead u inr Inode.zero).1 = true := by
  rw [inodeRead, if_pos outside]
  decide

/-- A number that stops no listing is in the table. -/
theorem inTable_of_goesOn {inr : UInt16}
    (goesOn : stopsListing (inodeRead u inr Inode.zero).1 = false) :
    1 ≤ inr.toNat ∧ inr.toNat < 16 * u.s.sIsize.toNat := by
  apply (inodeOutOfRange_eq_false_iff u.s inr).mp
  by_contra outside
  have stops := stopsListing_outside (Bool.eq_true_of_not_eq_false outside)
  rw [goesOn] at stops
  contradiction

/-- A slot is printed when its number is accepted. -/
theorem inodeScanSlot_lines {inr : Nat} (small : inr < 65536) :
    (inodeScanSlot u (UInt16.ofNat inr)).2.map (fun line => line.inr.toNat) =
      if accepts u inr then [inr] else [] := by
  have number : (UInt16.ofNat inr).toNat = inr := by
    rw [UInt16.toNat_ofNat']
    exact Nat.mod_eq_of_lt small
  rw [inodeScanSlot, accepts]
  by_cases read : (inodeRead u (UInt16.ofNat inr) Inode.zero).1 = errNone
  · simp only [read, decide_true, if_true, List.map_cons, List.map_nil, number]
  · simp only [read, decide_false, if_false, List.map_nil, Bool.false_eq_true]

/-- A listing by `inode_scan_print` that succeeds has the accepted numbers up to the last one that
it visits. -/
theorem inodeScanPrint_lines {lines : List InodeLine}
    (run : inodeScanPrint u = (errNone, lines)) :
    lines.map (fun line => line.inr.toNat) =
      (List.range' 1 (16 * (u.s.sIsize.toNat - 1))).filter (accepts u) := by
  have count : u.s.sIsize.toNat + u.s.sInodeStart.toNat - 1 - u.s.sInodeStart.toNat =
      u.s.sIsize.toNat - 1 := by
    omega
  rw [inodeScanPrint, count] at run
  have sectors := emitAll_done (by decide) run
  -- the slots of a sector
  have slots : ∀ k < u.s.sIsize.toNat - 1,
      (∀ j < 16, stopsListing (inodeScanSlot u (scannedInr k j)).1 = false) ∧
      (emitAll stopsListing errNone (fun j => inodeScanSlot u (scannedInr k j))
          (List.range inodesPerSector)).2 =
        (List.range 16).flatMap fun j => (inodeScanSlot u (scannedInr k j)).2 := by
    intro k inTable
    have code := sectors.1 k (List.mem_range.mpr inTable)
    rw [decide_eq_false_iff_not, not_not] at code
    have row := emitAll_done (by decide) (Prod.ext code rfl)
    exact ⟨fun j slot => row.1 j (List.mem_range.mpr slot), row.2⟩
  -- number 65536 would wrap to 0 and stop the listing
  have size : u.s.sIsize.toNat - 1 ≤ 4095 := by
    by_contra large
    have wrapped := (inTable_of_goesOn ((slots 4095 (by omega)).1 15 (by decide))).1
    contradiction
  rw [sectors.2, List.map_flatMap, ← flatMap_rows]
  apply List.flatMap_congr
  intro k mem
  have inTable := List.mem_range.mp mem
  rw [(slots k inTable).2, List.map_flatMap]
  apply List.flatMap_congr
  intro j slot
  have inRow := List.mem_range.mp slot
  have small : 16 * k + j + 1 < 65536 := by
    omega
  exact inodeScanSlot_lines small

end Scan

section Sha

variable {u : UnixFilesystem}

/-- A file is printed when its number is accepted, whether its blocks can be read or not. -/
theorem utilsPrintShafile_lines {inr : Nat} (small : inr < 65536) :
    (utilsPrintShafile u (UInt16.ofNat inr)).2.map (fun line => line.1.toNat) =
      if accepts u inr then [inr] else [] := by
  have number : (UInt16.ofNat inr).toNat = inr := by
    rw [UInt16.toNat_ofNat']
    exact Nat.mod_eq_of_lt small
  rw [utilsPrintShafile, accepts, filev6Open]
  by_cases read : (inodeRead u (UInt16.ofNat inr) Inode.zero).1 = errNone
  · simp only [read, ne_eq, not_true_eq_false, if_false, decide_true, if_true]
    split
    · simp only [List.map_cons, List.map_nil, number]
    · split <;> simp only [List.map_cons, List.map_nil, number]
  · simp only [read, ne_eq, not_false_eq_true, if_true, decide_false, Bool.false_eq_true, if_false,
      List.map_nil]

/-- A number that does not stop the listing is in the table. -/
theorem utilsPrintShafile_inTable {inr : UInt16}
    (goesOn : stopsListing (utilsPrintShafile u inr).1 = false) :
    1 ≤ inr.toNat ∧ inr.toNat < 16 * u.s.sIsize.toNat := by
  apply inTable_of_goesOn
  by_cases read : (inodeRead u inr Inode.zero).1 = errNone
  · rw [read]
    decide
  · rw [utilsPrintShafile, filev6Open] at goesOn
    simp only [read, ne_eq, not_false_eq_true, if_true] at goesOn
    exact goesOn

/-- The first number of a sector of the table that is listed. -/
def firstListed (k : Nat) : Nat := max 1 (16 * k)

/-- The numbers of the sector `k` sectors behind the start of the table. -/
theorem shaSlots_numbers {k : Nat} (small : k ≤ 4096) :
    (shaSlots u (UInt16.ofNat (u.s.sInodeStart.toNat + k))).map
        (fun inodeIndex => inodeIndex + 16 * k) =
      List.range' (firstListed k) (16 * (k + 1) - firstListed k) ∧
    ∀ inodeIndex, shaInr u (UInt16.ofNat (u.s.sInodeStart.toNat + k)) inodeIndex =
      UInt16.ofNat (inodeIndex + 16 * k) := by
  have start := u.s.sInodeStart.toNat_lt
  have distance : (UInt16.ofNat (u.s.sInodeStart.toNat + k) - u.s.sInodeStart).toNat = k := by
    rw [UInt16.toNat_sub, UInt16.toNat_ofNat']
    omega
  constructor
  · rw [shaSlots, firstListed, inodesPerSector]
    by_cases first : k = 0
    · subst first
      rw [Nat.add_zero, UInt16.ofNat_toNat, if_pos rfl]
      decide
    · have later : UInt16.ofNat (u.s.sInodeStart.toNat + k) ≠ u.s.sInodeStart := by
        intro same
        rw [same, UInt16.sub_self] at distance
        exact first distance.symm
      have count : 16 * (k + 1) - 16 * k = 16 := by
        omega
      rw [if_neg later, Nat.max_eq_right (by omega), count, List.range'_eq_map_range,
        List.range'_eq_map_range, List.map_map]
      apply List.map_congr_left
      intro j _
      rw [Function.comp_apply]
      omega
  · intro inodeIndex
    rw [shaInr, distance, inodesPerSector, Nat.mul_comm k 16]

/-- No number of a sector stops the listing: then the sector is in the table, and its numbers do
not wrap. -/
theorem shaSlots_inTable {k : Nat} (small : k ≤ 4096)
    (goesOn : ∀ inodeIndex ∈ shaSlots u (UInt16.ofNat (u.s.sInodeStart.toNat + k)),
      stopsListing (utilsPrintShafile u
        (shaInr u (UInt16.ofNat (u.s.sInodeStart.toNat + k)) inodeIndex)).1 = false) :
    (k < u.s.sIsize.toNat ∧ k < 4096) ∧ ∀ inr, firstListed k ≤ inr → inr < 16 * (k + 1) →
      stopsListing (utilsPrintShafile u (UInt16.ofNat inr)).1 = false := by
  have numbers := shaSlots_numbers (u := u) small
  have slots : ∀ inr, firstListed k ≤ inr → inr < 16 * (k + 1) →
      stopsListing (utilsPrintShafile u (UInt16.ofNat inr)).1 = false := by
    intro inr low high
    have listed : inr ∈ List.range' (firstListed k) (16 * (k + 1) - firstListed k) := by
      rw [List.mem_range'_1]
      omega
    rw [← numbers.1, List.mem_map] at listed
    obtain ⟨inodeIndex, slot, rfl⟩ := listed
    rw [← numbers.2]
    exact goesOn inodeIndex slot
  have visited := utilsPrintShafile_inTable
    (slots (firstListed k) le_rfl (by rw [firstListed]; omega))
  rw [UInt16.toNat_ofNat', firstListed] at visited
  exact ⟨by omega, slots⟩

/-- The number of the next sector. -/
theorem nextSector (start k : Nat) :
    UInt16.ofNat (start + k) + 1 = UInt16.ofNat (start + (k + 1)) := by
  rw [← Nat.add_assoc]
  exact (UInt16.ofNat_add _ 1).symm

/-- A step of the listing that succeeds: the table ends, or no number of the sector stops the
listing, which goes on with the next sector. -/
theorem shaSectors_step {fuel : Nat} {sectorNb : UInt16} {lines : List (UInt16 × ShaText)}
    (run : shaSectors u (fuel + 1) sectorNb = some (errNone, lines)) :
    (u.s.sIsize.toNat + u.s.sInodeStart.toNat ≤ sectorNb.toNat ∧ lines = []) ∨
      ∃ rest, shaSectors u fuel (sectorNb + 1) = some (errNone, rest) ∧
        (∀ inodeIndex ∈ shaSlots u sectorNb,
          stopsListing (utilsPrintShafile u (shaInr u sectorNb inodeIndex)).1 = false) ∧
        lines = (shaSlots u sectorNb).flatMap
          (fun inodeIndex => (utilsPrintShafile u (shaInr u sectorNb inodeIndex)).2) ++ rest := by
  rw [shaSectors] at run
  split at run
  · split at run
    · rename_i code failed
      rw [sectorRead_error failed] at run
      cases run
    · right
      split at run
      rename_i errPrint sectorLines sector
      split at run
      · rename_i stopped
        cases run
        exact absurd rfl stopped
      · rename_i goesOn
        have code : errPrint = errNone := not_not.mp goesOn
        rw [code] at sector
        have slots := emitAll_done (by decide) sector
        cases tail : shaSectors u fuel (sectorNb + 1) with
        | none =>
          rw [tail] at run
          cases run
        | some result =>
          obtain ⟨code, rest⟩ := result
          rw [tail, Option.map_some, Option.some.injEq, Prod.mk.injEq] at run
          obtain ⟨rfl, rfl⟩ := run
          exact ⟨rest, rfl, slots.1, by rw [slots.2]⟩
  · rename_i past
    cases run
    exact .inl ⟨Nat.not_lt.mp past, rfl⟩

/-- The listing from a sector on, when it succeeds, has the accepted numbers from there to the end
of the table, and none of the numbers stops it. -/
theorem shaSectors_lines {fuel k : Nat} (inTable : k ≤ u.s.sIsize.toNat) (small : k ≤ 4096)
    {lines : List (UInt16 × ShaText)}
    (run : shaSectors u fuel (UInt16.ofNat (u.s.sInodeStart.toNat + k)) = some (errNone, lines)) :
    (u.s.sIsize.toNat ≤ 4096 ∧ ∀ inr, firstListed k ≤ inr → inr < 16 * u.s.sIsize.toNat →
        stopsListing (utilsPrintShafile u (UInt16.ofNat inr)).1 = false) ∧
      lines.map (fun line => line.1.toNat) =
        (List.range' (firstListed k) (16 * u.s.sIsize.toNat - firstListed k)).filter
          (accepts u) := by
  induction fuel generalizing k lines with
  | zero => cases run
  | succ fuel ih =>
    have numbers := shaSlots_numbers (u := u) small
    rcases shaSectors_step run with ⟨past, rfl⟩ | ⟨rest, tail, goesOn, rfl⟩
    · have last : k = u.s.sIsize.toNat := by
        rw [UInt16.toNat_ofNat'] at past
        have low := Nat.mod_le (u.s.sInodeStart.toNat + k) (2 ^ 16)
        omega
      have none : 16 * u.s.sIsize.toNat - firstListed k = 0 := by
        rw [firstListed]
        omega
      rw [none]
      refine ⟨⟨by omega, fun inr low high => ?_⟩, rfl⟩
      rw [firstListed] at low
      omega
    · have sector := shaSlots_inTable small goesOn
      have inside := sector.1
      have slots := sector.2
      rw [nextSector] at tail
      have behind := ih inside.1 inside.2 tail
      have all : ∀ inr, firstListed k ≤ inr → inr < 16 * u.s.sIsize.toNat →
          stopsListing (utilsPrintShafile u (UInt16.ofNat inr)).1 = false := by
        intro inr low high
        by_cases here : inr < 16 * (k + 1)
        · exact slots inr low here
        · exact behind.1.2 inr (by rw [firstListed]; omega) high
      refine ⟨⟨behind.1.1, all⟩, ?_⟩
      have row : ((shaSlots u (UInt16.ofNat (u.s.sInodeStart.toNat + k))).flatMap fun inodeIndex =>
          (utilsPrintShafile u
            (shaInr u (UInt16.ofNat (u.s.sInodeStart.toNat + k)) inodeIndex)).2).map
            (fun line => line.1.toNat) =
          (List.range' (firstListed k) (16 * (k + 1) - firstListed k)).filter (accepts u) := by
        rw [← flatMap_select, ← numbers.1, List.map_flatMap, List.flatMap_map]
        apply List.flatMap_congr
        intro j slot
        have listed : j + 16 * k ∈
            List.range' (firstListed k) (16 * (k + 1) - firstListed k) := by
          rw [← numbers.1]
          exact List.mem_map_of_mem slot
        rw [List.mem_range'_1, firstListed] at listed
        rw [numbers.2]
        exact utilsPrintShafile_lines (by omega)
      have split : 16 * u.s.sIsize.toNat - firstListed k =
          16 * (k + 1) - firstListed k + (16 * u.s.sIsize.toNat - firstListed (k + 1)) := by
        rw [firstListed, firstListed]
        omega
      have start : firstListed (k + 1) = firstListed k + (16 * (k + 1) - firstListed k) := by
        rw [firstListed, firstListed]
        omega
      rw [List.map_append, row, behind.2, split, start, ← List.filter_append, List.range'_append_1]

/-- The listing ends from every sector on: the sectors behind the table and the numbers that wrap
stop it. -/
theorem shaSectors_ends {fuel k : Nat} (small : k ≤ 4096) (enough : 4096 < fuel + k) :
    shaSectors u fuel (UInt16.ofNat (u.s.sInodeStart.toNat + k)) ≠ none := by
  induction fuel generalizing k with
  | zero => omega
  | succ fuel ih =>
    rw [shaSectors]
    split
    · split
      · exact Option.some_ne_none _
      · split
        rename_i errPrint lines sector
        split
        · exact Option.some_ne_none _
        · rename_i goesOn
          have code : errPrint = errNone := not_not.mp goesOn
          rw [code] at sector
          have inside := (shaSlots_inTable small (emitAll_done (by decide) sector).1).1
          rw [nextSector, ne_eq, Option.map_eq_none_iff]
          exact ih inside.2 (by omega)
    · exact Option.some_ne_none _

/-- `utils_print_sha_allfiles` returns on every volume. -/
theorem utilsPrintShaAllfiles_returns (u : UnixFilesystem) :
    ∃ code lines, utilsPrintShaAllfiles u = some (code, lines) := by
  have start : UInt16.ofNat (u.s.sInodeStart.toNat + 0) = u.s.sInodeStart := by
    rw [Nat.add_zero, UInt16.ofNat_toNat]
  have ends : utilsPrintShaAllfiles u ≠ none := by
    rw [utilsPrintShaAllfiles, ← start]
    exact shaSectors_ends (Nat.zero_le _) (by decide)
  obtain ⟨result, run⟩ := Option.ne_none_iff_exists'.mp ends
  exact ⟨result.1, result.2, run⟩

/-- A number that does not stop the listing is in use exactly when it is accepted. -/
theorem accepts_iff_inUse {inr : Nat} (small : inr < 65536)
    (goesOn : stopsListing (utilsPrintShafile u (UInt16.ofNat inr)).1 = false) :
    accepts u inr = true ↔ u.f.InUse u.s inr := by
  have number : (UInt16.ofNat inr).toNat = inr := by
    rw [UInt16.toNat_ofNat']
    exact Nat.mod_eq_of_lt small
  rw [accepts, decide_eq_true_eq]
  constructor
  · intro read
    have allocated := inodeRead_allocated u read
    rw [number] at allocated
    exact ⟨_, allocated⟩
  · rintro ⟨inode, there, used⟩
    have stops : ∀ code, (inodeRead u (UInt16.ofNat inr) Inode.zero) = (code, Inode.zero) →
        stopsListing code = true → False := by
      intro code read stop
      have failed : code ≠ errNone := by
        intro same
        rw [same] at stop
        contradiction
      rw [utilsPrintShafile, filev6Open, read] at goesOn
      simp only [failed, ne_eq, not_false_eq_true, if_true] at goesOn
      rw [stop] at goesOn
      contradiction
    rcases inodeRead_cases u (UInt16.ofNat inr) Inode.zero with ⟨found, same, read⟩ | read | read
    · rw [number, there, Option.some.injEq] at same
      subst same
      rw [read, if_pos used]
    · exact (stops _ read (by decide)).elim
    · exact (stops _ read (by decide)).elim

/-- A listing by `utils_print_sha_allfiles` that succeeds has every inode in use, and it has the
accepted numbers of the table. -/
theorem utilsPrintShaAllfiles_lines {lines : List (UInt16 × ShaText)}
    (run : utilsPrintShaAllfiles u = some (errNone, lines)) :
    (∀ inr, 1 ≤ inr → inr < 16 * u.s.sIsize.toNat → (accepts u inr = true ↔ u.f.InUse u.s inr)) ∧
      lines.map (fun line => line.1.toNat) =
        (List.range' 1 (16 * u.s.sIsize.toNat - 1)).filter (accepts u) := by
  have start : UInt16.ofNat (u.s.sInodeStart.toNat + 0) = u.s.sInodeStart := by
    rw [Nat.add_zero, UInt16.ofNat_toNat]
  rw [utilsPrintShaAllfiles, ← start] at run
  have listing := shaSectors_lines (Nat.zero_le _) (Nat.zero_le _) run
  refine ⟨fun inr low high => ?_, listing.2⟩
  have size := listing.1.1
  exact accepts_iff_inUse (by omega) (listing.1.2 inr low high)

/-- Such a listing is complete. -/
theorem utilsPrintShaAllfiles_listsInUse {lines : List (UInt16 × ShaText)}
    (run : utilsPrintShaAllfiles u = some (errNone, lines)) :
    ListsInUse u (lines.map fun line => line.1.toNat) := by
  have listing := utilsPrintShaAllfiles_lines run
  rw [listing.2]
  constructor
  · exact List.Pairwise.filter _ List.pairwise_lt_range'
  · intro inr
    rw [List.mem_filter, List.mem_range'_1]
    constructor
    · rintro ⟨inTable, accepted⟩
      exact (listing.1 inr (by omega) (by omega)).mp accepted
    · intro used
      obtain ⟨inode, allocated⟩ := used
      have number := allocated.number
      rw [Superblock.inodes] at number
      exact ⟨by omega, (listing.1 inr number.1 (by omega)).mpr ⟨inode, allocated⟩⟩

end Sha

/-- When both listings succeed, they have the same numbers, and both are complete, exactly when no
inode is in use behind the last number that `inode_scan_print` visits. -/
theorem inodeListings_agree_iff {u : UnixFilesystem} {lines : List InodeLine}
    {shaLines : List (UInt16 × ShaText)} (scan : inodeScanPrint u = (errNone, lines))
    (sha : utilsPrintShaAllfiles u = some (errNone, shaLines)) :
    (lines.map (fun line => line.inr.toNat) = shaLines.map (fun line => line.1.toNat) ∧
        ListsInUse u (lines.map fun line => line.inr.toNat) ∧
        ListsInUse u (shaLines.map fun line => line.1.toNat)) ↔
      ∀ inr, u.f.InUse u.s inr → inr ≤ 16 * (u.s.sIsize.toNat - 1) := by
  have complete := utilsPrintShaAllfiles_listsInUse sha
  have numbers := (utilsPrintShaAllfiles_lines sha).2
  have scanned := inodeScanPrint_lines scan
  constructor
  · rintro ⟨-, listed, -⟩ inr used
    have mem := (listed.2 inr).mpr used
    rw [scanned, List.mem_filter, List.mem_range'_1] at mem
    omega
  · intro covered
    have same : lines.map (fun line => line.inr.toNat) =
        shaLines.map (fun line => line.1.toNat) := by
      rw [scanned, numbers]
      -- behind the numbers that are visited, none is accepted
      have split : 16 * u.s.sIsize.toNat - 1 =
          16 * (u.s.sIsize.toNat - 1) +
            (16 * u.s.sIsize.toNat - 1 - 16 * (u.s.sIsize.toNat - 1)) := by
        omega
      have behind : (List.range' (1 + 16 * (u.s.sIsize.toNat - 1))
          (16 * u.s.sIsize.toNat - 1 - 16 * (u.s.sIsize.toNat - 1))).filter (accepts u) = [] := by
        rw [List.filter_eq_nil_iff]
        intro inr mem accepted
        rw [List.mem_range'_1] at mem
        have used := ((utilsPrintShaAllfiles_lines sha).1 inr (by omega) (by omega)).mp accepted
        have visited := covered inr used
        omega
      rw [split, ← List.range'_append_1, List.filter_append, behind, List.append_nil]
    exact ⟨same, same ▸ complete, complete⟩

set_option maxRecDepth 10000 in
/-- On a well-formed volume whose root is in the last sector of its table, `inode_scan_print` lists
nothing and `utils_print_sha_allfiles` lists the root. -/
theorem inodeListings_disagree :
    lastSectorVolume.WellFormed (volumeSuperblock 1 6) ∧
      ∃ u, mountv6 lastSectorVolume = .ok u ∧ u.f.InUse u.s 1 ∧
        inodeScanPrint u = (errNone, []) ∧
        utilsPrintShaAllfiles u = some (errNone, [(1, .directory)]) :=
  ⟨Disk.wellFormed_of_check Host.quiet_faultless (by decide +kernel),
    mountv6_check (by decide +kernel)⟩

/-- A volume of three table sectors, with the root and a file in the first one, and a directory in
the second one. -/
def listedVolume : Disk :=
  volume 3 6 [(1, emptyDirectory), (2, emptyFile), (20, emptyDirectory)] [zeroSector]

set_option maxRecDepth 10000 in
/-- Both list the inodes of two table sectors. -/
theorem inodeListings_agree_sectors :
    ∃ u, mountv6 listedVolume = .ok u ∧
      [(⟨1, true, 0⟩ : InodeLine), ⟨2, false, 0⟩, ⟨20, true, 0⟩].map
          (fun line => line.inr.toNat) =
        [((1 : UInt16), ShaText.directory), (2, .digest []), (20, .directory)].map
          (fun line => line.1.toNat) ∧
      ListsInUse u ([(⟨1, true, 0⟩ : InodeLine), ⟨2, false, 0⟩, ⟨20, true, 0⟩].map
        fun line => line.inr.toNat) ∧
      ListsInUse u ([((1 : UInt16), ShaText.directory), (2, .digest []), (20, .directory)].map
        fun line => line.1.toNat) := by
  obtain ⟨u, mounted, super, scan, sha⟩ := mountv6_check (f := listedVolume)
    (P := fun u => u.s = volumeSuperblock 3 6 ∧
      inodeScanPrint u = (errNone, [⟨1, true, 0⟩, ⟨2, false, 0⟩, ⟨20, true, 0⟩]) ∧
      utilsPrintShaAllfiles u =
        some (errNone, [(1, .directory), (2, .digest []), (20, .directory)]))
    (by decide +kernel)
  refine ⟨u, mounted, (inodeListings_agree_iff scan sha).mpr ?_⟩
  have same := (mountv6_coherent mounted).1
  have numbers : ∀ entry ∈ listedVolume.inodesInUse (volumeSuperblock 3 6), entry.1 ≤ 32 := by
    decide +kernel
  rw [super, same]
  rintro inr ⟨inode, allocated⟩
  exact numbers (inr, inode) (Disk.mem_inodesInUse.mpr allocated)

end U6fs
