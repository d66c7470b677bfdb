import U6fs.Verif.CreateCheck
import U6fs.Verif.NonInterference

/-!
# Creating and reading back

A file that was created is found under its path: its record stands behind those that the directory
had, and every directory on the way reads as before, or as before with records behind. Content that
goes into one sector is then read back from the new file.
-/
namespace U6fs

open Lib

/-- The directories that the lookup of a path opens. -/
def pathDirectories (u : UnixFilesystem) (entry : List UInt8) : List UInt16 :=
  visited (lookupName u) rootInumber.toUInt16 (components pathToken entry)

/-- The first inode number that the bitmap of a fresh mount has clear is not in use. -/
def LeavesUnused (u : UnixFilesystem) : Prop :=
  ∃ inr, 1 ≤ inr ∧ inr ≤ u.s.lastScanned + 1 ∧ ¬u.f.InUse u.s inr

/-- No entry of the indirect sectors of a file is read as the code `ERR_NO_SUCH_FILE`. -/
def NoMissingEntry (u : UnixFilesystem) (inode : Inode) : Prop :=
  4096 < inodeGetsize inode → ∀ k < sectorCount inode, u.f.entry inode k ≠ some 65422

instance (u : UnixFilesystem) (inode : Inode) : Decidable (NoMissingEntry u inode) :=
  inferInstanceAs (Decidable (_ → _))

/-- The condition under which a creation adds its record: an unused number is handed out, the record
fits into its directory, and the directories of the path are read by the block map they have. -/
structure EntryReady (u : UnixFilesystem) (entry : List UInt8) : Prop where
  /-- An unused number is handed out. -/
  number : LeavesUnused u
  /-- The record fits, and the directory is not taken for one that ends early. -/
  record : ∀ name parent inode, (name, parent, inode) ∈ parentOf u entry →
    RecordFits name inode ∧ NoMissingEntry u inode
  /-- No directory of the path has exactly 8 whole sectors; if the record takes a sector, the
  sectors of all of them are marked. -/
  directories : ∀ dir ∈ pathDirectories u entry, ∀ inode, u.f.Allocated u.s dir.toNat inode →
    inodeGetsize inode ≠ 4096 ∧ ∀ name parent found, (name, parent, found) ∈ parentOf u entry →
      TakesSector (inodeGetsize found) 16 → SectorsMarked u inode

/-- After a mount `inode_alloc` finds no number in use when the first clear one is not in use. -/
theorem Coherent.allocatesUnused {u : UnixFilesystem} (coherent : Coherent u)
    (leaves : LeavesUnused u) : AllocatesUnused u := by
  obtain ⟨first, low, high, free⟩ := leaves
  have size := coherent.size
  intro inr u' run positive
  obtain ⟨_, -, -, ⟨x, rfl, clear, least, -⟩ | ⟨rfl, -⟩⟩ := inodeAlloc_spec
    (by rw [coherent.ibmRange.2, Superblock.inodes]; omega) run
  · rw [Int.toNat_natCast]
    intro used
    have marked := (bmGet_eq_zero_iff _ _).mp clear
    have past : ¬x ≤ u.s.lastScanned := fun inside =>
      marked.2 ((coherent.ibm x).mpr ⟨inside, used⟩)
    -- every number that the scan visits is in use, so the first clear one is the next
    have found : bmGet u.ibm first = 0 := by
      rw [bmGet_eq_zero_iff, coherent.ibmRange.1, coherent.ibmRange.2, Superblock.inodes]
      rw [Superblock.lastScanned] at high
      refine ⟨by omega, fun set => free ((coherent.ibm first).mp set).2⟩
    have before := least coherent.swept first found
    obtain rfl : x = first := by omega
    exact free used
  · exact absurd positive (by decide)

/-- A name without NUL is read back from the record that it is copied into. -/
theorem cString_strcpyDName {name : List UInt8} {dName : Vector UInt8 direntMaxlen}
    (copied : strcpyDName name = some dName) (plain : 0 ∉ name) : cString dName.toList = name := by
  rw [strcpyDName] at copied
  split at copied
  · rename_i fits
    cases copied
    exact cString_padded plain _
  · cases copied

/-- A block that is not found with the code `ERR_NO_SUCH_FILE` has an entry that is read as it. -/
theorem fileContent_missing {u : UnixFilesystem} {inode : Inode} (used : inode.isAllocated = true)
    (other : inodeGetsize inode ≠ 4096) (none : NoMissingEntry u inode) :
    (fileContent u inode).2 ≠ errNoSuchFile := by
  intro is
  rw [fileContent] at is
  cases failed : (gather (filePieces u inode 0 (sectorCount inode))).2 with
  | none =>
    rw [failed] at is
    cases is
  | some code =>
    rw [failed] at is
    have same : code = errNoSuchFile := is
    obtain ⟨k, mem, piece⟩ := List.mem_map.mp (gather_error failed)
    obtain ⟨-, inside⟩ := List.mem_range'_1.mp mem
    rw [Nat.zero_add] at inside
    have block : fileBlock u inode k = .error code := by
      cases read : fileBlock u inode k with
      | error other =>
        rw [read] at piece
        cases piece
        rfl
      | ok sector =>
        rw [read] at piece
        cases piece
    have count := sectorCount_eq inode
    have place : k ≤ inodeGetsize inode / 512 := by
      split at count <;> omega
    have found : inodeFindsector u inode k = errNoSuchFile := by
      rw [fileBlock] at block
      split at block
      · cases block
        exact same
      · rw [sectorRead_error block] at same
        cases same
    rcases Nat.lt_trichotomy (inodeGetsize inode) 4096 with small | exactly | large
    · rw [inodeFindsector_direct u used place small, errNoSuchFile] at found
      omega
    · exact other exactly
    · by_cases fits : inodeGetsize inode / 512 + 1 ≤ 1792
      · rw [inodeFindsector_indirect u used place large.le fits] at found
        rcases inodeFindsectorBigfile_cases u inode (k := k) (by omega) with
          failure | ⟨e, there, value⟩
        · rw [failure] at found
          exact absurd found (by decide)
        · have bound := entry_lt there
          rw [value, bmod_entry bound, errNoSuchFile] at found
          have number : e = 65422 := by
            split at found <;> omega
          rw [number] at there
          exact none large k inside there
      · rw [inodeFindsector_tooLarge u used place (by omega)] at found
        exact absurd found (by decide)

/-- The record of a new file is found, and the directory has it behind the records it had. -/
structure AddsEntry (u u' : UnixFilesystem) (entry : List UInt8) (mode : UInt16) (inr : Int) :
    Prop where
  /-- The number was not in use. -/
  unused : ¬u.f.InUse u.s inr.toNat
  /-- The inode has the mode and no content. -/
  file : ∃ inode, u'.f.Allocated u'.s inr.toNat inode ∧ inode.iMode = mode ||| 0x8000 ∧
    inodeGetsize inode = 0
  /-- The directory lists the records it had, none of that name, and then the new one. -/
  listed : ∃ path name parent old, Splits entry path name ∧
    direntv6Dirlookup u 1 path = some (parent.toNat : Int) ∧
    listDirectory u parent = some (old, errNone) ∧
    listDirectory u' parent = some (old ++ [(UInt16.ofNat inr.toNat, name)], errNone) ∧
    name ∉ old.map Prod.snd
  /-- The path leads to the new file. -/
  found : direntv6Dirlookup u' 1 entry = some inr

/-- The path of a directory that is found leads to it by a walk. -/
theorem walk_of_found {u : UnixFilesystem} {path : List UInt8} {found : Int}
    (last : path.getLast? ≠ some pathToken)
    (lookup : direntv6Dirlookup u 1 path = some found) (positive : 0 ≤ found) :
    walk (lookupName u) 1 (components pathToken path) = some (.ok (UInt16.ofNat found.toNat)) := by
  have none := (trailing_eq_zero_iff pathToken path).mpr last
  rw [direntv6Dirlookup_eq, none] at lookup
  obtain ⟨result, arrives, is⟩ := Option.map_eq_some_iff.mp lookup
  rw [lookupCode_zero] at is
  cases result with
  | error code =>
    have negative := walk_error u 1 arrives
    rw [walkCode] at is
    omega
  | ok place =>
    rw [walkCode] at is
    rw [arrives, ← is, Int.toNat_natCast, UInt16.ofNat_toNat]

section Paths

variable {u u' : UnixFilesystem} {entry path name : List UInt8} {parent : UInt16}
  (splits : Splits entry path name) (nonempty : name ≠ [])
  (arrives : walk (lookupName u) 1 (components pathToken path) = some (.ok parent))

include splits nonempty arrives

/-- The lookup of a path opens the directories before the last component, and the parent. -/
theorem pathDirectories_split : pathDirectories u entry =
    visited (lookupName u) 1 (components pathToken path) ++ [parent] := by
  obtain ⟨slashes, rfl, same, apart⟩ := splits.parts
  have single := components_name pathToken splits.name nonempty
  rw [pathDirectories, components_run pathToken same apart, single]
  exact (visited_append (lookupName u) arrives [name]).trans
    (congrArg _ (by rw [visited]; split <;> rfl))

/-- A path leads to a record that is added to its directory, when the directories on the way give
what they gave. -/
theorem direntv6Dirlookup_added {child : UInt16}
    (kept : ∀ dir ∈ pathDirectories u entry, ∀ name next,
      lookupName u dir name = some (.ok next) → lookupName u' dir name = some (.ok next))
    (added : lookupName u' parent name = some (.ok child)) :
    direntv6Dirlookup u' 1 entry = some (child.toNat : Int) := by
  rw [pathDirectories_split splits nonempty arrives] at kept
  have start := walk_kept arrives fun dir mem => kept dir (List.mem_append_left _ mem)
  obtain ⟨slashes, rfl, same, apart⟩ := splits.parts
  have single := components_name pathToken splits.name nonempty
  have ends := trailing_after pathToken (path ++ slashes) splits.name nonempty []
  rw [List.append_nil, trailing_nil] at ends
  rw [direntv6Dirlookup_eq, components_run pathToken same apart, single, walk_append, start, ends]
  simp only [walk, added, Option.map_some, lookupCode_zero, walkCode]

end Paths

/-- A directory whose records are kept, with others behind, gives what it gave. -/
theorem lookupName_kept {u u' : UnixFilesystem} (works : u.f.host.Faultless)
    (works' : u'.f.host.Faultless) {dir : UInt16} {inode inode' : Inode}
    (allocated : u.f.Allocated u.s dir.toNat inode)
    (allocated' : u'.f.Allocated u'.s dir.toNat inode') (mode : inode'.iMode = inode.iMode)
    (whole : inodeGetsize inode % 16 = 0) (whole' : inodeGetsize inode' % 16 = 0)
    {more : List (UInt16 × List UInt8)}
    (entries : dirEntries u' inode' = dirEntries u inode ++ more) {name : List UInt8}
    {next : UInt16} (found : lookupName u dir name = some (.ok next)) :
    lookupName u' dir name = some (.ok next) := by
  have unique : ∀ other, u.f.Allocated u.s dir.toNat other → other = inode := fun other there =>
    Option.some.inj (there.1.symm.trans allocated.1)
  have unique' : ∀ other, u'.f.Allocated u'.s dir.toNat other → other = inode' :=
    fun other there => Option.some.inj (there.1.symm.trans allocated'.1)
  rw [lookupName_of_whole u fun other there _ => by rw [unique other there]; exact whole] at found
  rw [lookupName_of_whole u' fun other there _ => by rw [unique' other there]; exact whole']
  have named := Option.some.inj found
  obtain ⟨other, there, directory⟩ := recordNamed_allocated u named
  rw [unique other there] at directory
  have directory' : inode'.isDirectory = true := by
    rw [Inode.isDirectory, mode]
    exact directory
  rw [recordNamed_of_allocated works allocated directory] at named
  rw [recordNamed_of_allocated works' allocated' directory', entries]
  cases first : findName name (dirEntries u inode) with
  | none =>
    rw [first] at named
    cases named
  | some child =>
    rw [first] at named
    rw [findName_append first more]
    exact congrArg some named

/-- On a volume without shared sectors the last sector of a file belongs to no other place. -/
theorem lastUnshared_of_unshared {u : UnixFilesystem} (unshared : u.f.Unshared u.s) {inr : Nat}
    {inode : Inode} (allocated : u.f.Allocated u.s inr inode) : LastUnshared u inr inode :=
  fun _ inr' inode' p x mine there maps data =>
    unshared inr' inode' p inr inode _ x there allocated maps mine data

/-- A file was created on a mounted volume, and its record was added behind those of its
directory. -/
structure Entered (u u₁ u' : UnixFilesystem) (entry path name : List UInt8) (mode parent : UInt16)
    (inode inode' : Inode) (inr : Nat) : Prop where
  /-- The path is that of the directory and the name. -/
  splits : Splits entry path name
  /-- The directory was found. -/
  lookup : direntv6Dirlookup u 1 path = some (parent.toNat : Int)
  /-- The steps of the creation. -/
  recorded : Recorded u u₁ u' entry name mode parent inode inode' inr inr
  /-- What they do. -/
  created : Created u u' name mode parent inode inode' inr inr
  /-- The name is not empty. -/
  nonempty : name ≠ []
  /-- The number fits into a record. -/
  number : (UInt16.ofNat inr).toNat = inr
  /-- The directory had no record of that name. -/
  absent : findName name (dirEntries u inode) = none
  /-- It was read to its end, in whole records. -/
  before : (fileContent u inode).2 = errNone ∧ inodeGetsize inode % 16 = 0
  /-- It is, with one record more. -/
  after : (fileContent u' inode').2 = errNone ∧ inodeGetsize inode' = inodeGetsize inode + 16
  /-- The record is behind the others. -/
  entries : dirEntries u' inode' = dirEntries u inode ++ [(UInt16.ofNat inr, name)]

/-- A name that is not found in a directory has no record there, and the directory is read to its
end or up to a block that looks missing. -/
theorem absent_of_lookup {u : UnixFilesystem} (works : u.f.host.Faultless)
    (whole : u.f.WholeRecords u.s) {parent : UInt16} {inode : Inode} {name : List UInt8}
    (allocated : u.f.Allocated u.s parent.toNat inode) (directory : inode.isDirectory = true)
    (plain : pathToken ∉ name) (absent : direntv6Dirlookup u parent name = some errNoSuchFile) :
    name ≠ [] ∧ findName name (dirEntries u inode) = none ∧
      ((fileContent u inode).2 = errNone ∨ (fileContent u inode).2 = errNoSuchFile) := by
  have number : ∀ value : Nat, some (value : Int) ≠ some errNoSuchFile := by
    intro value same
    have negative := Option.some.inj same
    unfold errNoSuchFile at negative
    omega
  have nonempty : name ≠ [] := by
    rintro rfl
    exact number parent.toNat absent
  refine ⟨nonempty, ?_⟩
  have named := recordNamed_of_allocated works allocated directory name
  rw [direntv6Dirlookup_eq, components_name pathToken plain nonempty, trailing_name pathToken plain,
    walk, lookupName_eq u whole, named] at absent
  cases first : findName name (dirEntries u inode) with
  | some child =>
    rw [first] at absent
    simp only [walk, Option.map_some, lookupCode_zero, walkCode] at absent
    exact absurd absent (number child.toNat)
  | none =>
    rw [first] at absent
    have code := Option.some.inj absent
    refine ⟨rfl, ?_⟩
    simp only [lookupCode_zero, walkCode] at code
    split at code
    · rename_i ends
      exact .inl ends
    · exact .inr code

/-- A creation that succeeds on a mounted volume adds a record, if the path is ready. -/
theorem EntryReady.entered {u u' : UnixFilesystem} {entry : List UInt8} {mode : UInt16} {code : Int}
    (ready : EntryReady u entry) (before : Intact u) (coherent : Coherent u)
    (unshared : u.f.Unshared u.s) (whole : u.f.WholeRecords u.s) (plain : 0 ∉ entry)
    (run : direntv6Create u entry mode = some (code, u')) (positive : 0 ≤ code) :
    ∃ u₁ path name parent inode inode' inr, code = (inr : Nat) ∧
      Entered u u₁ u' entry path name mode parent inode inode' inr := by
  have works := before.geometry.works
  -- the directory of the path, as the code finds it
  obtain ⟨name, path, found, split, lookup, there, absent, -⟩ :
      ∃ name path found, splitNameDirentv6Create entry = .ok (name, path) ∧
        direntv6Dirlookup u 1 path = some found ∧ 0 ≤ found ∧
        direntv6Dirlookup u (UInt16.ofNat found.toNat) name = some errNoSuchFile ∧ True := by
    rcases direntv6Create_cases run with ⟨-, negative, -⟩ |
      ⟨name, path, found, split, lookup, there, absent, -⟩
    · omega
    · exact ⟨name, path, found, split, lookup, there, absent, trivial⟩
  have splits := (splitNameDirentv6Create_spec entry).2 name path split
  obtain ⟨inode, allocated, directory⟩ := directory_of_absent splits.name absent
  have wholeParent := whole _ inode allocated directory
  obtain ⟨nonempty, missing, code'⟩ :=
    absent_of_lookup works whole allocated directory splits.name absent
  have member : (name, UInt16.ofNat found.toNat, inode) ∈ parentOf u entry :=
    parentOf_eq_some.mpr ⟨path, found, split, lookup, there, rfl, absent, allocated⟩
  obtain ⟨fits, none⟩ := ready.record _ _ _ member
  have other : inodeGetsize inode ≠ 4096 := by
    have slots := fits.2.1
    rw [SlotsInside] at slots
    omega
  have ends := code'.resolve_right (fileContent_missing allocated.2 other none)
  -- its sectors are marked if it takes one
  have arrives := walk_of_found splits.path lookup there
  have opened : UInt16.ofNat found.toNat ∈ pathDirectories u entry := by
    rw [pathDirectories_split splits nonempty arrives]
    exact List.mem_append_right _ List.mem_cons_self
  have outcome := before.create
    (fun name' parent' inode' mem => by
      cases Option.mem_unique mem member
      exact ⟨coherent.allocatesUnused ready.number,
        ⟨fits, wholeParent, lastUnshared_of_unshared unshared allocated⟩,
        (ready.directories _ opened inode allocated).2 _ _ _ member⟩) run
  rcases outcome with rejected | ⟨u₁, name', parent', inode₁, inode', inr, recorded, created⟩
  · exact absurd rejected.failed (by omega)
  · cases Option.mem_unique recorded.begun.found member
    have same := recorded.number positive
    rw [same] at recorded created
    obtain ⟨dName, copied, ⟨-, size, content⟩ | ⟨-, -, negative | ⟨-, stopped⟩⟩⟩ := created.outcome
    · rw [if_pos ends] at content
      refine ⟨u₁, path, name, UInt16.ofNat found.toNat, inode, inode', inr, same, ?_⟩
      constructor
      case splits => exact splits
      case lookup =>
        have none := (trailing_eq_zero_iff pathToken path).mpr splits.path
        rw [direntv6Dirlookup_eq, arrives, none, Option.map_some, lookupCode_zero, walkCode]
      case recorded => exact recorded
      case created => exact created
      case nonempty => exact nonempty
      case number => exact before.geometry.toNat_ofNat recorded.begun.inside.2
      case absent => exact missing
      case before => exact ⟨ends, wholeParent⟩
      case after => exact ⟨by rw [content], size⟩
      case entries =>
        have length := fileContent_length u inode ends
        have single := records_flatMap [{ dInumber := UInt16.ofNat inr, dName }]
        rw [List.flatMap_singleton] at single
        have text : cString dName.toList = name := by
          apply cString_strcpyDName copied
          obtain ⟨slashes, rfl, -, -⟩ := splits.parts
          exact fun mem => plain (List.mem_append_right _ mem)
        rw [dirEntries, content, records_append _ (by rw [length]; exact wholeParent), single,
          List.map_append, dirEntries, List.map_singleton, Direntv6.pair, text]
    · omega
    · exact absurd ends stopped

namespace Entered

variable {u u₁ u' : UnixFilesystem} {entry path name : List UInt8} {mode parent : UInt16}
  {inode inode' : Inode} {inr : Nat}
  (entered : Entered u u₁ u' entry path name mode parent inode inode' inr)

include entered

/-- The directories of the path. -/
theorem pathDirectories_eq : pathDirectories u entry =
    visited (lookupName u) 1 (components pathToken path) ++ [parent] := by
  have arrives := walk_of_found entered.splits.path entered.lookup (Int.natCast_nonneg _)
  rw [Int.toNat_natCast, UInt16.ofNat_toNat] at arrives
  exact pathDirectories_split entered.splits entered.nonempty arrives

/-- The path leads to the new file in a state in which the directories of the path have the records
that they have after the creation. -/
theorem lookup_of_kept {v : UnixFilesystem} (works : u.f.host.Faultless)
    (works' : v.f.host.Faultless) (whole : u.f.WholeRecords u.s)
    (kept : ∀ dir ∈ pathDirectories u entry, dir.toNat ≠ parent.toNat → ∀ found,
      u.f.Allocated u.s dir.toNat found → found.isDirectory = true →
      v.f.Allocated v.s dir.toNat found ∧ fileContent v found = fileContent u found)
    (there : v.f.Allocated v.s parent.toNat inode')
    (same : fileContent v inode' = fileContent u' inode') :
    direntv6Dirlookup v 1 entry = some (inr : Int) := by
  have arrives := walk_of_found entered.splits.path entered.lookup (Int.natCast_nonneg _)
  rw [Int.toNat_natCast, UInt16.ofNat_toNat] at arrives
  have entries : dirEntries v inode' =
      dirEntries u inode ++ [(UInt16.ofNat inr, name)] := by
    rw [dirEntries, same, ← dirEntries, entered.entries]
  have whole' : inodeGetsize inode' % 16 = 0 := by
    rw [entered.after.2, Nat.add_mod_right]
    exact entered.before.2
  have mode := entered.created.stored.2
  have directory : inode'.isDirectory = true := by
    rw [Inode.isDirectory, mode]
    exact entered.created.directory.2
  rw [← entered.number]
  apply direntv6Dirlookup_added entered.splits entered.nonempty arrives
  · intro dir mem name' next found
    have named := found
    rw [lookupName_eq u whole] at named
    obtain ⟨old, allocated, isDir⟩ := recordNamed_allocated u (Option.some.inj named)
    by_cases mine : dir.toNat = parent.toNat
    · rw [mine] at allocated
      obtain rfl : old = inode :=
        Option.some.inj (allocated.1.symm.trans entered.created.directory.1.1)
      rw [← mine] at allocated there
      exact lookupName_kept works works' allocated there mode entered.before.2 whole' entries found
    · obtain ⟨there', read⟩ := kept dir mem mine old allocated isDir
      have rest : dirEntries v old = dirEntries u old ++ [] := by
        rw [dirEntries, read, List.append_nil, dirEntries]
      have wholeOld := whole _ old allocated isDir
      exact lookupName_kept works works' allocated there' rfl wholeOld wholeOld rest found
  · rw [lookupName_of_whole v fun other allocated _ => by
      rw [Option.some.inj (allocated.1.symm.trans there.1)]
      exact whole']
    rw [recordNamed_of_allocated works' there directory, entries,
      findName_added entered.absent]

end Entered

/-- The directories of a path that is ready, except for the one that takes the record, are as
before the creation. -/
theorem EntryReady.kept {u u₁ u' : UnixFilesystem} {entry path name : List UInt8}
    {mode parent : UInt16} {inode inode' : Inode} {inr : Nat} (ready : EntryReady u entry)
    (entered : Entered u u₁ u' entry path name mode parent inode inode' inr) {dir : UInt16}
    (mem : dir ∈ pathDirectories u entry) (different : dir.toNat ≠ parent.toNat) {found : Inode}
    (allocated : u.f.Allocated u.s dir.toNat found) :
    u'.f.Allocated u'.s dir.toNat found ∧ fileContent u' found = fileContent u found := by
  obtain ⟨there, same⟩ := entered.created.others dir.toNat found different allocated
  obtain ⟨size, marked⟩ := ready.directories dir mem found allocated
  exact ⟨there, same size (marked _ _ _ entered.recorded.begun.found)⟩

/-- The path of a new file leads to it, if the path was ready. -/
theorem EntryReady.found {u u₁ u' : UnixFilesystem} {entry path name : List UInt8}
    {mode parent : UInt16} {inode inode' : Inode} {inr : Nat} (ready : EntryReady u entry)
    (before : Intact u) (whole : u.f.WholeRecords u.s)
    (entered : Entered u u₁ u' entry path name mode parent inode inode' inr) :
    direntv6Dirlookup u' 1 entry = some (inr : Int) := by
  have created := entered.created
  apply entered.lookup_of_kept before.geometry.works created.geometry.works whole _
    created.stored.1 rfl
  intro dir mem different found allocated _
  exact ready.kept entered mem different allocated

/-- On a freshly mounted volume whose files share no sector, a creation that returns a number adds
exactly one record, for a number that was not in use, if the path is ready. -/
theorem direntv6Create_addsEntry {f : Disk} {s : Superblock} {u u' : UnixFilesystem}
    (regions : f.Regions s) (mapped : f.Mapped s) (unshared : f.Unshared s)
    (whole : f.WholeRecords s) (mounted : mountv6 f = .ok u) {entry : List UInt8}
    (plain : 0 ∉ entry) (ready : EntryReady u entry) {mode : UInt16} {inr : Int}
    (run : direntv6Create u entry mode = some (inr, u')) (positive : 0 ≤ inr) :
    AddsEntry u u' entry mode inr := by
  obtain ⟨rfl, rfl, intact⟩ := Intact.mounted regions mapped unshared mounted
  have coherent := (mountv6_coherent mounted).2
  obtain ⟨u₁, path, name, parent, inode, inode', inr, rfl, entered⟩ :=
    ready.entered intact coherent unshared whole plain run positive
  have created := entered.created
  have works := intact.geometry.works
  have works' := created.geometry.works
  constructor
  case unused => exact created.unused.2.2
  case file => exact ⟨_, created.file, rfl, inodeGetsize_zero_created mode⟩
  case listed =>
    have mode := created.stored.2
    have directory : inode'.isDirectory = true := by
      rw [Inode.isDirectory, mode]
      exact created.directory.2
    have whole' : inodeGetsize inode' % 16 = 0 := by
      rw [entered.after.2, Nat.add_mod_right]
      exact entered.before.2
    refine ⟨path, name, parent, dirEntries u inode, entered.splits, entered.lookup, ?_, ?_,
      findName_eq_none_iff.mp entered.absent⟩
    · rw [listDirectory_of_allocated works created.directory.1 created.directory.2
        entered.before.2, entered.before.1]
    · rw [listDirectory_of_allocated works' created.stored.1 directory whole', entered.after.1,
        entered.entries, Int.toNat_natCast]
  case found => exact ready.found intact whole entered

set_option maxRecDepth 10000 in
/-- On a volume whose root is in the last sector of the inode table, a creation takes the number of
the root. -/
theorem direntv6Create_takesRoot :
    lastSectorVolume.WellFormed (volumeSuperblock 1 6) ∧
      ∃ u, mountv6 lastSectorVolume = .ok u ∧ ∃ result ∈ direntv6Create u [47, 97] 0,
        0 ≤ result.1 ∧ ¬AddsEntry u result.2 [47, 97] 0 result.1 := by
  refine ⟨Disk.wellFormed_of_check Host.quiet_faultless (by decide +kernel), ?_⟩
  obtain ⟨u, mounted, result, run, is, used⟩ := mountv6_check (f := lastSectorVolume)
    (P := fun u => ∃ result ∈ direntv6Create u [47, 97] 0, result.1 = 1 ∧ u.f.InUse u.s 1)
    (by decide +kernel)
  refine ⟨u, mounted, result, run, by omega, fun adds => ?_⟩
  have unused := adds.unused
  rw [is] at unused
  exact unused used

set_option maxRecDepth 10000 in
/-- After a mount of the volume with one record, the path `/a` is ready, and a creation works. -/
theorem singleVolume_ready {u : UnixFilesystem} (mounted : mountv6 singleVolume = .ok u) :
    EntryReady u [47, 97] ∧
      (∀ found ∈ parentOf u [47, 97], ¬TakesSector (inodeGetsize found.2.2) 16) := by
  obtain ⟨v, mounted', number, record⟩ := mountv6_check (f := singleVolume)
    (P := fun u => (1 ≤ 2 ∧ 2 ≤ u.s.lastScanned + 1 ∧ ¬u.f.InUse u.s 2) ∧
      ∀ found ∈ parentOf u [47, 97], (RecordFits found.1 found.2.2 ∧ NoMissingEntry u found.2.2) ∧
        ¬TakesSector (inodeGetsize found.2.2) 16) (by decide +kernel)
  obtain rfl : v = u := Except.ok.inj (mounted'.symm.trans mounted)
  obtain ⟨file, super, -⟩ := Intact.start singleVolume_wellFormed mounted
  refine ⟨⟨⟨2, number⟩, fun name parent inode mem => (record _ mem).1, ?_⟩,
    fun found mem => (record found mem).2⟩
  intro dir _ inode allocated
  rw [file, super] at allocated
  obtain ⟨-, rfl⟩ := singleVolume_allocated allocated
  refine ⟨by rw [singleDirectory_size]; decide, fun name parent found mem takes => ?_⟩
  exact absurd takes (record _ mem).2

set_option maxRecDepth 10000 in
/-- The record of `/a` is added on that volume. -/
theorem direntv6Create_addsEntry_single :
    ∃ u u', mountv6 singleVolume = .ok u ∧ direntv6Create u [47, 97] 0 = some (2, u') ∧
      AddsEntry u u' [47, 97] 0 2 := by
  obtain ⟨u, mounted, ⟨code, u'⟩, run, is⟩ := mountv6_check (f := singleVolume)
    (P := fun u => ∃ result ∈ direntv6Create u [47, 97] 0, result.1 = 2) (by decide +kernel)
  obtain rfl : code = 2 := is
  have image := singleVolume_wellFormed
  exact ⟨u, u', mounted, run, direntv6Create_addsEntry image.regions image.mapped image.unshared
    image.whole mounted (by decide) (singleVolume_ready mounted).1 run (by decide)⟩

/-- The condition under which the content of a new file is read back: it has no whole sector, and
if there is any, the record of the file takes no sector, and every sector of the directories of the
path is marked. -/
def ContentFits (u : UnixFilesystem) (entry buf : List UInt8) : Prop :=
  buf.length < 512 ∧ (buf ≠ [] →
    (∀ found ∈ parentOf u entry, ¬TakesSector (inodeGetsize found.2.2) 16) ∧
    ∀ dir ∈ pathDirectories u entry, ∀ inode, u.f.Allocated u.s dir.toNat inode →
      SectorsMarked u inode)

/-- Without bytes nothing is appended. -/
theorem Appends.nothing {u u' : UnixFilesystem} {inr : UInt16} {inode inode' : Inode} {code : Int}
    (appended : Appends u u' inr inode inode' [] code) (whole : inodeGetsize inode % 512 = 0) :
    u' = u ∧ inode' = inode := by
  obtain ⟨u₁, inode₁, first, rest⟩ := appended.stages
  rw [List.drop_nil] at rest
  obtain ⟨rfl, rfl, -⟩ := rest.nil
  rcases first with ⟨-, same⟩ | ⟨residual, -⟩ | filled
  · exact same
  · exact absurd whole residual
  · exact absurd whole filled.residual

/-- A new file has no content. -/
theorem fileContent_created (u : UnixFilesystem) (mode : UInt16) :
    fileContent u (Inode.zero.created mode) = ([], errNone) := by
  rw [fileContent, sectorCount, inodeGetsize_zero_created]
  rfl

/-- Content of less than a sector is read back from the new file to which it is appended. -/
theorem Intact.new_content {u u' : UnixFilesystem} (before : Intact u) {inr : UInt16}
    {mode : UInt16} {file : Inode} {buf : List UInt8} {code : Int} (more : buf ≠ [])
    (there : u.f.Allocated u.s inr.toNat (Inode.zero.created mode)) (short : buf.length < 512)
    (appended : Appends u u' inr (Inode.zero.created mode) file buf code) (positive : 0 ≤ code) :
    inodeGetsize file = buf.length ∧ fileContent u' file = (buf, errNone) := by
  have empty := inodeGetsize_zero_created mode
  have whole : inodeGetsize (Inode.zero.created mode) % 512 = 0 := by rw [empty]
  have slots : SlotsInside (inodeGetsize (Inode.zero.created mode)) buf.length := by
    rw [empty]
    exact .inr (by omega)
  have unshared : LastUnshared u inr.toNat (Inode.zero.created mode) :=
    fun residual => absurd whole residual
  have marked : SectorsMarked u (Inode.zero.created mode) := by
    intro p x maps
    rw [mapped_empty _ empty] at maps
    cases maps
  have content := before.appended_content there slots unshared appended (fun _ => marked) more
    (by rw [empty]; omega) (fun _ => short) (by rw [empty]; decide) (by rw [empty]; omega)
    (by rw [empty]; omega)
  rcases content with ⟨-, size, read⟩ | ⟨-, -, negative | ⟨residual, -⟩⟩
  · rw [empty, Nat.zero_add] at size
    rw [fileContent_created, if_pos rfl] at read
    exact ⟨size, read⟩
  · omega
  · exact absurd whole residual

/-- On a freshly mounted volume whose files share no sector, a file that `direntv6_addfile` adds is
found under its path, has the size of its content, and is read back, if the path is ready and the
content fits. -/
theorem direntv6Addfile_roundTrip {f : Disk} {s : Superblock} {u u' : UnixFilesystem}
    (regions : f.Regions s) (mapped : f.Mapped s) (unshared : f.Unshared s)
    (whole : f.WholeRecords s) (mounted : mountv6 f = .ok u) {entry buf : List UInt8}
    (plain : 0 ∉ entry) (ready : EntryReady u entry) (fits : ContentFits u entry buf)
    {mode : UInt16} (run : direntv6Addfile u entry mode buf = some (errNone, u')) :
    ∃ (inr : UInt16) (inode : Inode), direntv6Dirlookup u' 1 entry = some (inr.toNat : Int) ∧
      u'.f.Allocated u'.s inr.toNat inode ∧ inodeGetsize inode = buf.length ∧
      readFile u' inr = some (buf, errNone) := by
  obtain ⟨rfl, rfl, intact⟩ := Intact.mounted regions mapped unshared mounted
  have coherent := (mountv6_coherent mounted).2
  have works := intact.geometry.works
  obtain ⟨code, u₂, creation, ⟨negative, -⟩ |
    ⟨opened, written, fv6, positive, allocated, wrote, result⟩⟩ := direntv6Addfile_cases run
  · exact absurd negative (by decide)
  have stored : 0 ≤ written := by
    split at result
    · rename_i negative
      rw [← result] at negative
      exact absurd negative (by decide)
    · omega
  obtain ⟨u₁, path, name, parent, inode, inode', inr, rfl, entered⟩ :=
    ready.entered intact coherent unshared whole plain creation positive
  have created := entered.created
  have begun := entered.recorded.begun
  obtain ⟨same, file, appended⟩ := direntv6Addfile_appends intact.geometry
    entered.recorded (by have := fits.1; omega) positive allocated wrote
  have there := created.file
  rw [← same] at there
  by_cases none : buf = []
  · -- nothing is written after the creation
    subst none
    obtain ⟨rfl, rfl⟩ := appended.nothing (by rw [inodeGetsize_zero_created])
    refine ⟨UInt16.ofNat inr, _, ?_, there, inodeGetsize_zero_created mode, ?_⟩
    · rw [same]
      exact ready.found intact whole entered
    · rw [readFile_of_allocated created.geometry.works there, fileContent_created]
  · -- the record takes no sector, so all the sectors on the way stay marked
    obtain ⟨room, marked⟩ := fits.2 none
    have fitting := room _ begun.found
    have between : Intact u₂ := created.intact fun takes => absurd takes fitting
    have works' := (appended.framed.geometry between.geometry).works
    obtain ⟨-, others⟩ := between.append_new there (by have := fits.1; omega) appended
    rw [same] at others
    have marks : ∀ dir ∈ pathDirectories u entry, ∀ found,
        u₂.f.Allocated u₂.s dir.toNat found → SectorsMarked u₂ found := by
      intro dir mem found there'
      rcases created.origin _ found there' with rfl | ⟨old, was, -, -, kept⟩
      · intro p x maps
        rw [mapped_empty _ (inodeGetsize_zero_created mode)] at maps
        cases maps
      · exact kept fitting (marked dir mem old was)
    have apart : ∀ k, u.f.InUse u.s k → k ≠ inr := by
      rintro k used rfl
      exact created.unused.2.2 used
    have opened : parent ∈ pathDirectories u entry := by
      rw [entered.pathDirectories_eq]
      exact List.mem_append_right _ List.mem_cons_self
    obtain ⟨size, read⟩ := between.new_content none there fits.1 appended stored
    have put := appended.stored there.1
    have placed : u'.f.Allocated u'.s (UInt16.ofNat inr).toNat file := by
      refine ⟨by rw [appended.framed.s]; exact put.1, ?_⟩
      rw [isAllocated_congr put.2]
      exact there.2
    refine ⟨UInt16.ofNat inr, file, ?_, placed, size, ?_⟩
    · rw [same]
      have directory := others parent.toNat inode' (apart _ ⟨inode, created.directory.1⟩)
        created.stored.1
      apply entered.lookup_of_kept works works' whole _ directory.1
      · apply directory.2
        · rw [entered.after.2]
          exact (ready.record _ _ _ begun.found).1.2.2.1
        · exact fun _ => marks parent opened inode' created.stored.1
      · intro dir mem different found was _
        obtain ⟨there', kept⟩ := ready.kept entered mem different was
        obtain ⟨there'', kept'⟩ := others dir.toNat found (apart _ ⟨found, was⟩) there'
        have size := (ready.directories dir mem found was).1
        refine ⟨there'', (kept' size fun _ => marks dir mem found there').trans kept⟩
    · rw [readFile_of_allocated works' placed, read]

set_option maxRecDepth 10000 in
/-- A file of one whole sector is found, but the boot sector is read instead of its content. -/
theorem direntv6Addfile_readsBoot :
    singleVolume.WellFormed (volumeSuperblock 2 6) ∧
      ∃ u, mountv6 singleVolume = .ok u ∧
        ∃ result ∈ direntv6Addfile u [47, 97] 0 (List.replicate 512 65), result.1 = errNone ∧
          direntv6Dirlookup result.2 1 [47, 97] = some 2 ∧
          readFile result.2 2 ≠ some (List.replicate 512 65, errNone) :=
  ⟨singleVolume_wellFormed, mountv6_check (by decide +kernel)⟩

set_option maxRecDepth 10000 in
/-- One byte is read back from `/a`. -/
theorem direntv6Addfile_roundTrip_single :
    ∃ u u', mountv6 singleVolume = .ok u ∧
      direntv6Addfile u [47, 97] 0 [66] = some (errNone, u') ∧
      ∃ (inr : UInt16) (inode : Inode), direntv6Dirlookup u' 1 [47, 97] = some (inr.toNat : Int) ∧
        u'.f.Allocated u'.s inr.toNat inode ∧ inodeGetsize inode = 1 ∧
        readFile u' inr = some ([66], errNone) := by
  obtain ⟨u, mounted, marked, ⟨code, u'⟩, run, is⟩ := mountv6_check (f := singleVolume)
    (P := fun u => OwnersMarked u ∧
      ∃ result ∈ direntv6Addfile u [47, 97] 0 [66], result.1 = errNone) (by decide +kernel)
  obtain rfl : code = errNone := is
  have image := singleVolume_wellFormed
  obtain ⟨ready, room⟩ := singleVolume_ready mounted
  exact ⟨u, u', mounted, run, direntv6Addfile_roundTrip image.regions image.mapped image.unshared
    image.whole mounted (by decide) ready
    ⟨by decide, fun _ => ⟨room, fun dir _ inode => marked dir.toNat inode⟩⟩ run⟩

end U6fs
