import U6fs.Lib.Path
import U6fs.Verif.Listing
import U6fs.Verif.Mounted

/-!
# Resolving paths

`direntv6_dirlookup` recurses on a path from its front. What it returns is the walk along the
components of the path, one directory for each, followed by a rule for the slashes that the path
ends in: after none the place is returned, after one only if it is the root, and otherwise the path
names no file. The walk searches the records of each directory in their order on the disk.
-/
namespace U6fs

open Lib

/-- One level of a lookup: a directory is opened and searched for a name. -/
def lookupName (u : UnixFilesystem) (inr : UInt16) (name : List UInt8) :
    Option (Except Int UInt16) :=
  match direntv6Opendir u inr (Block.fill sectorSize 0) with
  | .error code => some (.error code)
  | .ok d =>
    match lookupScan u name (readdirBound d) d with
    | none => none
    | some (.ok childInr) => some (.ok childInr)
    | some (.error dirRead) => some (.error (if dirRead = 0 then errNoSuchFile else dirRead))

/-- The code for the place that the components of a path lead to, when the path ends in a number of
slashes. -/
def lookupCode (slashes : Nat) : Except Int UInt16 → Int
  | .error code => code
  | .ok found => if slashes = 0 ∨ slashes = 1 ∧ found = 1 then found.toNat else errNoSuchFile

section Levels

variable (u : UnixFilesystem)

/-- `direntv6_dirlookup_core` walks along the components. -/
theorem direntv6DirlookupCore_eq : ∀ fuel inr entry, entry.length < fuel →
    direntv6DirlookupCore u fuel inr entry =
      (walk (lookupName u) inr (components pathToken entry)).map
        (lookupCode (trailing pathToken entry)) := by
  intro fuel
  induction fuel with
  | zero =>
    intro inr entry enough
    exact absurd enough (Nat.not_lt_zero _)
  | succ fuel ih =>
    intro inr entry enough
    rw [direntv6DirlookupCore]
    by_cases slashes : entry.dropWhile (· = pathToken) = []
    · -- a path without components stays where it is
      have same : ∀ x ∈ entry, x = pathToken := by
        intro x mem
        exact of_decide_eq_true (List.dropWhile_eq_nil_iff.mp slashes x mem)
      have none : components pathToken entry = [] := by
        rw [← components_skip, slashes, components_nil]
      rw [none, walk, Option.map_some, lookupCode, trailing_all pathToken same, skipTokens, slashes]
      by_cases empty : entry.length = 0
      · rw [if_pos empty, if_pos (.inl empty)]
      · rw [if_neg empty]
        by_cases root : inr = 1 ∧ entry = [pathToken]
        · obtain ⟨first, second⟩ := root
          rw [if_pos (by rw [first, second]; rfl), if_pos (.inr ⟨by rw [second]; rfl, first⟩)]
        · have single : ¬(entry.length = 0 ∨ entry.length = 1 ∧ inr = 1) := by
            rintro (none | ⟨one, first⟩)
            · exact empty none
            · obtain ⟨x, rfl⟩ := List.length_eq_one_iff.mp one
              exact root ⟨first, by rw [same x List.mem_cons_self]⟩
          rw [if_neg (by simpa using root), if_neg single]
          rfl
    · have more : (skipTokens entry).isEmpty = false := by
        rw [skipTokens, List.isEmpty_eq_false_iff]
        exact slashes
      have nonempty : entry.length ≠ 0 := by
        intro none
        rw [List.length_eq_zero_iff.mp none] at slashes
        exact slashes rfl
      have root : (inr = 1 && entry = [pathToken]) = false := by
        rw [Bool.and_eq_false_iff]
        right
        apply decide_eq_false
        intro single
        rw [single] at slashes
        exact slashes rfl
      have shorter : (afterDir (skipTokens entry)).length < fuel := by
        have front := (List.takeWhile_append_dropWhile (p := (· ≠ pathToken))
          (l := skipTokens entry))
        have name := (front_name pathToken slashes).2
        have positive := List.length_pos_of_ne_nil name
        have skipped := (List.dropWhile_suffix (· = pathToken) (l := entry)).length_le
        have length := congrArg List.length front
        rw [List.length_append] at length
        rw [afterDir]
        rw [skipTokens] at length ⊢
        omega
      have next := fun child => ih child (afterDir (skipTokens entry)) shorter
      rw [if_neg nonempty, root, if_neg Bool.false_ne_true, more, if_neg Bool.false_ne_true,
        components_front pathToken slashes, trailing_front pathToken slashes, walk, lookupName]
      simp only [← skipTokens.eq_1, ← soughtDir.eq_1, ← afterDir.eq_1]
      cases direntv6Opendir u inr (Block.fill sectorSize 0) with
      | error code => rfl
      | ok d =>
        cases scan : lookupScan u (soughtDir (skipTokens entry)) (readdirBound d) d with
        | none => simp only [scan, Option.map_none]
        | some result =>
          cases result with
          | error dirRead => simp only [scan, Option.map_some, lookupCode]
          | ok childInr => simp only [scan, next]

/-- `direntv6_dirlookup` is the walk along the components and the rule for slashes at the end. -/
theorem direntv6Dirlookup_eq (inr : UInt16) (entry : List UInt8) :
    direntv6Dirlookup u inr entry =
      (walk (lookupName u) inr (components pathToken entry)).map
        (lookupCode (trailing pathToken entry)) :=
  direntv6DirlookupCore_eq u _ inr entry (Nat.lt_succ_self _)

/-- An enumeration ends with a code that is not positive. -/
theorem direntv6Readdir_done {d after : DirectoryReader} {code : Int}
    (read : direntv6Readdir u d = some (.done after code)) : code ≤ 0 := by
  have entry : ∀ d', readdirEntry d' ≠ some (.done after code) := by
    intro d'
    rw [readdirEntry]
    split
    · intro is
      cases is
    · intro is
      cases is
  rw [direntv6Readdir] at read
  split at read
  · split at read
    split at read
    · rename_i ends
      cases read
      exact ends
    · exact absurd read (entry _)
  · exact absurd read (entry _)

/-- A scan that fails leaves a code that is not positive. -/
theorem lookupScan_error {name : List UInt8} {code : Int} : ∀ fuel d,
    lookupScan u name fuel d = some (.error code) → code ≤ 0 := by
  intro fuel
  induction fuel with
  | zero =>
    intro d failed
    cases failed
  | succ fuel ih =>
    intro d failed
    rw [lookupScan] at failed
    split at failed
    · cases failed
    · rename_i read
      cases failed
      exact direntv6Readdir_done u read
    · split at failed
      · cases failed
      · exact ih _ failed

/-- A level that fails leaves a negative code. -/
theorem lookupName_error {inr : UInt16} {name : List UInt8} {code : Int}
    (failed : lookupName u inr name = some (.error code)) : code < 0 := by
  rw [lookupName] at failed
  split at failed
  · rename_i opened
    cases failed
    exact (direntv6Opendir_error opened).1
  · split at failed
    · cases failed
    · cases failed
    · rename_i dirRead scan
      have bound := lookupScan_error u _ _ scan
      cases failed
      split
      · decide
      · omega

/-- A walk that fails leaves a negative code. -/
theorem walk_error {names : List (List UInt8)} {code : Int} : ∀ inr,
    walk (lookupName u) inr names = some (.error code) → code < 0 := by
  induction names with
  | nil =>
    intro inr failed
    cases failed
  | cons name names ih =>
    intro inr failed
    rw [walk] at failed
    split at failed
    · cases failed
    · rename_i step
      cases failed
      exact lookupName_error u step
    · exact ih _ failed

end Levels

section Records

variable (u : UnixFilesystem)

/-- The first record with a name that `direntv6_readdir` gives for a directory, which it reads
through `inode_findsector`; or the code that opening the directory or reading its records gives. -/
def recordNamed (inr : UInt16) (name : List UInt8) : Except Int UInt16 :=
  match direntv6Opendir u inr (Block.fill sectorSize 0) with
  | .error code => .error code
  | .ok d =>
    match findName name (dirEntries u d.fv6.iNode) with
    | some childInr => .ok childInr
    | none =>
      .error (if (fileContent u d.fv6.iNode).2 = errNone then errNoSuchFile
        else (fileContent u d.fv6.iNode).2)

/-- The walk along the records that are read: a path is split at its slashes, empty parts are
dropped, and each of the others is followed from record to record. -/
def componentWalk (inr : UInt16) (entry : List UInt8) : Except Int UInt16 :=
  (components pathToken entry).foldlM (recordNamed u) inr

/-- The `int` that a lookup returns for the end of the walk. -/
def walkCode : Except Int UInt16 → Int
  | .error code => code
  | .ok found => found.toNat

/-- Without slashes at the end, the place is returned. -/
theorem lookupCode_zero (result : Except Int UInt16) : lookupCode 0 result = walkCode result := by
  cases result with
  | error code => rfl
  | ok found =>
    rw [lookupCode, if_pos (.inl rfl)]
    rfl

/-- A level in a directory of whole records is a search in its records. -/
theorem lookupName_of_whole {inr : UInt16} (whole : ∀ inode, u.f.Allocated u.s inr.toNat inode →
      inode.isDirectory = true → inodeGetsize inode % 16 = 0) (name : List UInt8) :
    lookupName u inr name = some (recordNamed u inr name) := by
  rw [lookupName, recordNamed]
  cases opened : direntv6Opendir u inr (Block.fill sectorSize 0) with
  | error code => rfl
  | ok d =>
    obtain ⟨allocated, directory, -⟩ := direntv6Opendir_ok opened
    have entries := readEntries_eq opened (whole _ allocated directory)
    simp only [lookupScan_eq name _ d _ _ entries]
    cases findName name (dirEntries u d.fv6.iNode) with
    | none => rfl
    | some childInr => rfl

/-- Where directories hold whole records, every level is a search in records. -/
theorem lookupName_eq (whole : u.f.WholeRecords u.s) (inr : UInt16) (name : List UInt8) :
    lookupName u inr name = some (recordNamed u inr name) :=
  lookupName_of_whole u (whole inr.toNat) name

/-- A search in an allocated directory of a working machine. -/
theorem recordNamed_of_allocated {u : UnixFilesystem} (works : u.f.host.Faultless)
    {inr : UInt16} {inode : Inode} (allocated : u.f.Allocated u.s inr.toNat inode)
    (directory : inode.isDirectory = true) (name : List UInt8) :
    recordNamed u inr name =
      match findName name (dirEntries u inode) with
      | some childInr => .ok childInr
      | none =>
        .error (if (fileContent u inode).2 = errNone then errNoSuchFile
          else (fileContent u inode).2) := by
  rw [recordNamed, direntv6Opendir_of_allocated works allocated directory]

/-- What is found in a directory is in an allocated one. -/
theorem recordNamed_allocated {inr child : UInt16} {name : List UInt8}
    (found : recordNamed u inr name = .ok child) :
    ∃ inode, u.f.Allocated u.s inr.toNat inode ∧ inode.isDirectory = true := by
  rw [recordNamed] at found
  split at found
  · cases found
  · rename_i d opened
    obtain ⟨allocated, directory, -⟩ := direntv6Opendir_ok opened
    exact ⟨_, allocated, directory⟩

/-- When directories hold whole records, the lookup of a path that does not end in a slash is the
walk along the records that are read. -/
theorem direntv6Dirlookup_components (whole : u.f.WholeRecords u.s) {entry : List UInt8}
    (last : entry.getLast? ≠ some pathToken) (inr : UInt16) :
    direntv6Dirlookup u inr entry = some (walkCode (componentWalk u inr entry)) := by
  have none := (trailing_eq_zero_iff pathToken entry).mpr last
  rw [direntv6Dirlookup_eq, walk_defined (lookupName_eq u whole), none, Option.map_some,
    lookupCode_zero, componentWalk]

end Records

/-- Merging the slashes of a path changes the result of its lookup exactly when the path ends in
more than one slash and its components lead to the root. -/
theorem direntv6Dirlookup_collapse_iff (u : UnixFilesystem) (inr : UInt16) (entry : List UInt8) :
    direntv6Dirlookup u inr (collapse pathToken entry) = direntv6Dirlookup u inr entry ↔
      ¬(2 ≤ trailing pathToken entry ∧
        walk (lookupName u) inr (components pathToken entry) = some (.ok 1)) := by
  rw [direntv6Dirlookup_eq, direntv6Dirlookup_eq, components_collapse, trailing_collapse]
  rcases Nat.lt_or_ge (trailing pathToken entry) 2 with few | many
  · have same : min 1 (trailing pathToken entry) = trailing pathToken entry := by omega
    rw [same]
    exact iff_of_true rfl fun ends => absurd ends.1 (by omega)
  · have one : min 1 (trailing pathToken entry) = 1 := by omega
    rw [one]
    cases walk (lookupName u) inr (components pathToken entry) with
    | none => exact iff_of_true rfl fun ends => by cases ends.2
    | some result =>
      cases result with
      | error code => exact iff_of_true rfl fun ends => by cases ends.2
      | ok found =>
        have missing : lookupCode (trailing pathToken entry) (.ok found) = errNoSuchFile := by
          rw [lookupCode, if_neg]
          rintro (none | ⟨single, -⟩)
          · omega
          · omega
        rw [Option.map_some, Option.map_some, missing, Option.some.injEq, lookupCode]
        by_cases root : found = 1
        · rw [if_pos (.inr ⟨rfl, root⟩), root]
          exact iff_of_false (by decide) fun none => none ⟨many, rfl⟩
        · rw [if_neg]
          · exact iff_of_true rfl fun ends => root (Except.ok.inj (Option.some.inj ends.2))
          · rintro (none | ⟨-, is⟩)
            · exact absurd none (by decide)
            · exact root is

set_option maxRecDepth 10000 in
/-- The root is found under one slash and not under two. -/
theorem direntv6Dirlookup_twoSlashes :
    emptyVolume.WellFormed (volumeSuperblock 2 6) ∧
      ∃ u, mountv6 emptyVolume = .ok u ∧ collapse pathToken [47, 47] = [47] ∧
        direntv6Dirlookup u 1 [47] = some 1 ∧
        direntv6Dirlookup u 1 [47, 47] = some errNoSuchFile :=
  ⟨emptyVolume_wellFormed, mountv6_check (by decide +kernel)⟩

end U6fs
