import U6fs.Lib.Emit
import U6fs.Verif.Lookup
import U6fs.Verif.Stored

/-!
# Lookups and the records on the disk

The reference for a lookup follows the records that the disk has, in the order of its block maps.
`direntv6_dirlookup` agrees with it when every sector that a search comes to is found where the
format has it; and for all paths exactly when every directory has the same first record of each
name, and the same code at its end, in the sectors that `inode_findsector` gives. A directory of
exactly 4096 bytes is searched elsewhere.
-/
namespace U6fs

open Lib

/-- The first record of a directory on the disk that has a name; or the code that opening the
directory or reading its sectors gives. -/
def storedNamed (u : UnixFilesystem) (inr : UInt16) (name : List UInt8) : Except Int UInt16 :=
  match direntv6Opendir u inr (Block.fill sectorSize 0) with
  | .error code => .error code
  | .ok d => searchContent name (storedContent u d.fv6.iNode)

/-- The reference walk: a path is split at its slashes, empty parts are dropped, and each of the
others is followed from record to record. -/
def storedWalk (u : UnixFilesystem) (inr : UInt16) (entry : List UInt8) : Except Int UInt16 :=
  (components pathToken entry).foldlM (storedNamed u) inr

/-- The code of a search without a record of the name. -/
def missingCode (code : Int) : Int := if code = errNone then errNoSuchFile else code

/-- A directory is searched alike in the sectors that `inode_findsector` gives and in those of its
block map. -/
structure SearchedAlike (u : UnixFilesystem) (inode : Inode) : Prop where
  /-- Both have the same first record of every component of a path. -/
  records : ∀ name, name ≠ [] → pathToken ∉ name →
    findName name (dirEntries u inode) =
      findName name ((U6fs.records (storedContent u inode).1).map Direntv6.pair)
  /-- Both end with the same code. -/
  code : missingCode (fileContent u inode).2 = missingCode (storedContent u inode).2

/-- Every sector to which the search of a directory for a name comes is found where the format has
it. -/
def SearchFollows (u : UnixFilesystem) (inr : UInt16) (name : List UInt8) : Prop :=
  ∀ inode, u.f.Allocated u.s inr.toNat inode → inode.isDirectory = true →
    ∀ k < sectorCount inode, SearchComesTo (storedBlock u inode) name k → FindsAsFormat u inode k

/-- So it is in every directory that the reference walk along a path searches. -/
def WalkFollows (u : UnixFilesystem) (inr : UInt16) (entry : List UInt8) : Prop :=
  ∀ before name after spot, components pathToken entry = before ++ name :: after →
    before.foldlM (storedNamed u) inr = .ok spot → SearchFollows u spot name

section Names

/-- A name that is found in records has at most 14 bytes, and no NUL. -/
theorem findName_plain {name : List UInt8} {child : UInt16} {bytes : List UInt8}
    (found : findName name ((records bytes).map Direntv6.pair) = some child) :
    name.length ≤ direntMaxlen ∧ 0 ∉ name := by
  obtain ⟨record, -, is⟩ := List.mem_map.mp (mem_of_findName found)
  have named : cString record.dName.toList = name := (Prod.mk.inj is).2
  rw [← named, cString]
  constructor
  · have cut := (List.takeWhile_prefix (· ≠ 0) (l := record.dName.toList)).length_le
    rwa [Vector.length_toList] at cut
  · intro mem
    have other := List.mem_takeWhile_imp mem
    exact absurd rfl (of_decide_eq_true other)

/-- A name that is longer is not found. -/
theorem findName_long {name : List UInt8} (long : direntMaxlen < name.length) (bytes : List UInt8) :
    findName name ((records bytes).map Direntv6.pair) = none := by
  cases found : findName name ((records bytes).map Direntv6.pair) with
  | none => rfl
  | some child => exact absurd (findName_plain found).1 (Nat.not_le.mpr long)

/-- A name with a NUL is not found. -/
theorem findName_nul {name : List UInt8} (nul : 0 ∈ name) (bytes : List UInt8) :
    findName name ((records bytes).map Direntv6.pair) = none := by
  cases found : findName name ((records bytes).map Direntv6.pair) with
  | none => rfl
  | some child => exact absurd nul (findName_plain found).2

end Names

section Searches

variable {u : UnixFilesystem}

/-- The code that ends the reading of a file in its own sectors is not positive. -/
theorem storedContent_code (inode : Inode) : (storedContent u inode).2 ≤ 0 :=
  blockContent_code (fun _ _ failed => storedBlock_error failed) _

/-- The code of a result tells the result, when errors have negative codes. -/
theorem walkCode_inj {result result' : Except Int UInt16}
    (negative : ∀ code, result = .error code → code < 0)
    (negative' : ∀ code, result' = .error code → code < 0)
    (same : walkCode result = walkCode result') : result = result' := by
  cases result with
  | error code =>
    have below := negative code rfl
    cases result' with
    | error code' => exact congrArg Except.error same
    | ok found =>
      rw [walkCode, walkCode] at same
      omega
  | ok found =>
    cases result' with
    | error code' =>
      have below := negative' code' rfl
      rw [walkCode, walkCode] at same
      omega
    | ok found' =>
      rw [walkCode, walkCode, Int.natCast_inj] at same
      rw [UInt16.toNat_inj.mp same]

/-- Searches that agree find the same record. -/
theorem findName_of_search {name : List UInt8} {content content' : List UInt8 × Int}
    (same : searchContent name content = searchContent name content') :
    findName name ((records content.1).map Direntv6.pair) =
      findName name ((records content'.1).map Direntv6.pair) := by
  rw [searchContent, searchContent] at same
  cases found : findName name ((records content.1).map Direntv6.pair) with
  | none =>
    cases found' : findName name ((records content'.1).map Direntv6.pair) with
    | none => rfl
    | some child' =>
      rw [found, found'] at same
      cases same
  | some child =>
    cases found' : findName name ((records content'.1).map Direntv6.pair) with
    | none =>
      rw [found, found'] at same
      cases same
    | some child' =>
      rw [found, found'] at same
      exact congrArg some (Except.ok.inj same)

/-- A directory is searched alike exactly when the searches for all components agree. -/
theorem searchedAlike_iff (inode : Inode) :
    SearchedAlike u inode ↔ ∀ name, name ≠ [] → pathToken ∉ name → 0 ∉ name →
      searchContent name (fileContent u inode) = searchContent name (storedContent u inode) := by
  constructor
  · intro alike name nonempty plain _
    have found := alike.records name nonempty plain
    rw [dirEntries] at found
    rw [searchContent, searchContent, found]
    split
    · rfl
    · exact congrArg Except.error alike.code
  · intro same
    constructor
    case records =>
      intro name nonempty plain
      by_cases nul : 0 ∈ name
      · rw [dirEntries, findName_nul nul, findName_nul nul]
      · exact findName_of_search (same name nonempty plain nul)
    case code =>
      -- a name that is too long for a record
      have equal := same (List.replicate 15 97) (by decide) (by decide) (by decide)
      have long : direntMaxlen < (List.replicate 15 (97 : UInt8)).length := by decide
      rw [searchContent, searchContent, findName_long long, findName_long long] at equal
      exact Except.error.inj equal

end Searches

section Walks

variable (u : UnixFilesystem)

/-- A search of the records that are read, as one of the records on the disk. -/
theorem recordNamed_eq (inr : UInt16) (name : List UInt8) :
    recordNamed u inr name =
      match direntv6Opendir u inr (Block.fill sectorSize 0) with
      | .error code => .error code
      | .ok d => searchContent name (fileContent u d.fv6.iNode) := rfl

/-- Where the sectors to which a search comes are found, it has the right result. -/
theorem recordNamed_of_follows {inr : UInt16} {name : List UInt8}
    (follows : SearchFollows u inr name) : recordNamed u inr name = storedNamed u inr name := by
  rw [recordNamed_eq, storedNamed]
  cases opened : direntv6Opendir u inr (Block.fill sectorSize 0) with
  | error code => rfl
  | ok d =>
    obtain ⟨allocated, directory, -⟩ := direntv6Opendir_ok opened
    exact searchContent_eq_stored allocated.2 (follows d.fv6.iNode allocated directory)

/-- A failing search leaves a negative code. -/
theorem storedNamed_error {inr : UInt16} {name : List UInt8} {code : Int}
    (failed : storedNamed u inr name = .error code) : code < 0 := by
  rw [storedNamed] at failed
  split at failed
  · rename_i refused
    cases failed
    exact (direntv6Opendir_error refused).1
  · exact searchContent_error (storedContent_code _) failed

/-- A walk that arrives has followed names of at most 14 bytes. -/
theorem recordNamed_walk_length {names : List (List UInt8)} : ∀ {inr found : UInt16},
    names.foldlM (recordNamed u) inr = .ok found → ∀ name ∈ names, name.length ≤ direntMaxlen := by
  induction names with
  | nil =>
    intro inr found _ name mem
    cases mem
  | cons name names ih =>
    intro inr found arrives other mem
    rw [List.foldlM_cons] at arrives
    cases taken : recordNamed u inr name with
    | error code =>
      rw [taken] at arrives
      cases arrives
    | ok next =>
      rw [taken] at arrives
      rcases List.mem_cons.mp mem with rfl | mem
      · rw [recordNamed_eq] at taken
        split at taken
        · cases taken
        · rw [searchContent] at taken
          split at taken
          · rename_i search
            exact (findName_plain search).1
          · cases taken
      · exact ih arrives other mem

variable {u} (whole : u.f.WholeRecords u.s)

include whole

/-- A path with a component that is too long for a record is not found. -/
theorem direntv6Dirlookup_long {inr : UInt16} {entry name : List UInt8}
    (mem : name ∈ components pathToken entry) (long : direntMaxlen < name.length) :
    ∃ code < 0, direntv6Dirlookup u inr entry = some code := by
  have walks := walk_defined (lookupName_eq u whole) inr (components pathToken entry)
  rw [direntv6Dirlookup_eq, walks]
  cases arrives : (components pathToken entry).foldlM (recordNamed u) inr with
  | ok found =>
    have short := recordNamed_walk_length u arrives name mem
    exact absurd short (Nat.not_le.mpr long)
  | error code =>
    rw [arrives] at walks
    exact ⟨code, walk_error u inr walks, rfl⟩

/-- The lookup of a path is the reference walk when its searches agree with those of the walk. -/
theorem direntv6Dirlookup_of_steps {inr : UInt16} {entry : List UInt8}
    (last : entry.getLast? ≠ some pathToken)
    (steps : ∀ before name after spot, components pathToken entry = before ++ name :: after →
      before.foldlM (storedNamed u) inr = .ok spot →
        recordNamed u spot name = storedNamed u spot name) :
    direntv6Dirlookup u inr entry = some (walkCode (storedWalk u inr entry)) := by
  have none := (trailing_eq_zero_iff pathToken entry).mpr last
  have walks : walk (lookupName u) inr (components pathToken entry) =
      some ((components pathToken entry).foldlM (storedNamed u) inr) := by
    apply walk_eq_foldlM
    intro before name after spot parts comes
    rw [lookupName_eq u whole, steps before name after spot parts comes]
  rw [direntv6Dirlookup_eq, walks, none, Option.map_some, lookupCode_zero, storedWalk]

/-- The lookups of all paths are the reference walks exactly when every directory that can be opened
is searched alike. -/
theorem direntv6Dirlookup_alike_iff :
    (∀ inr entry, 0 ∉ entry → entry.getLast? ≠ some pathToken →
      direntv6Dirlookup u inr entry = some (walkCode (storedWalk u inr entry))) ↔
    ∀ inr d, direntv6Opendir u inr (Block.fill sectorSize 0) = .ok d →
      SearchedAlike u d.fv6.iNode := by
  constructor
  · intro agrees inr d opened
    rw [searchedAlike_iff]
    intro name nonempty plain nul
    -- the path of one component
    have single := components_name pathToken plain nonempty
    have last := (trailing_eq_zero_iff pathToken name).mp (trailing_name pathToken plain)
    have found := agrees inr name nul last
    have one : ∀ step : UInt16 → List UInt8 → Except Int UInt16,
        [name].foldlM step inr = step inr name := by
      intro step
      rw [List.foldlM_cons]
      cases step inr name <;> rfl
    rw [direntv6Dirlookup_components u whole last, componentWalk, storedWalk, single, one, one,
      Option.some.injEq] at found
    have same := walkCode_inj ?_ (fun code failed => storedNamed_error u failed) found
    · rw [recordNamed_eq, storedNamed, opened] at same
      exact same
    · intro code failed
      exact lookupName_error u ((lookupName_eq u whole inr name).trans (congrArg some failed))
  · intro alike inr entry nul last
    apply direntv6Dirlookup_of_steps whole last
    intro before name after spot parts _
    have mem : name ∈ components pathToken entry := by
      rw [parts]
      exact List.mem_append_right _ List.mem_cons_self
    obtain ⟨nonempty, plain⟩ := mem_components pathToken mem
    rw [recordNamed_eq, storedNamed]
    cases opened : direntv6Opendir u spot (Block.fill sectorSize 0) with
    | error code => rfl
    | ok d =>
      by_cases zero : 0 ∈ name
      · simp only [searchContent, findName_nul zero]
        exact congrArg Except.error (alike spot d opened).code
      · exact (searchedAlike_iff _).mp (alike spot d opened) name nonempty plain zero

end Walks

/-- For a mounted volume whose directories hold whole records, the lookups of all paths that do not
end in a slash are the reference walks exactly when every directory that can be opened is searched
alike; it is when all its sectors are found where the format has them. A single lookup is right when
the sectors are to which its searches come. And no path with a component of more than 14 bytes is
found. -/
theorem direntv6Dirlookup_walk_iff {f : Disk} {u : UnixFilesystem} (mounted : mountv6 f = .ok u)
    (whole : f.WholeRecords u.s) :
    ((∀ inr entry, 0 ∉ entry → entry.getLast? ≠ some pathToken →
        direntv6Dirlookup u inr entry = some (walkCode (storedWalk u inr entry))) ↔
      ∀ inr d, direntv6Opendir u inr (Block.fill sectorSize 0) = .ok d →
        SearchedAlike u d.fv6.iNode) ∧
    (∀ inr d, direntv6Opendir u inr (Block.fill sectorSize 0) = .ok d →
      (∀ k < sectorCount d.fv6.iNode, FindsAsFormat u d.fv6.iNode k) →
        SearchedAlike u d.fv6.iNode) ∧
    (∀ inr entry, entry.getLast? ≠ some pathToken → WalkFollows u inr entry →
      direntv6Dirlookup u inr entry = some (walkCode (storedWalk u inr entry))) ∧
    ∀ inr entry, ∀ name ∈ components pathToken entry, 14 < name.length →
      ∃ code < 0, direntv6Dirlookup u inr entry = some code := by
  have is : u.f = f := (mountv6_coherent mounted).1
  rw [← is] at whole
  refine ⟨direntv6Dirlookup_alike_iff whole, fun inr d opened follows => ?_,
    fun inr entry last follows => direntv6Dirlookup_of_steps whole last
      fun before name after spot parts comes =>
        recordNamed_of_follows u (follows before name after spot parts comes),
    fun inr entry name mem long => direntv6Dirlookup_long whole mem long⟩
  rw [searchedAlike_iff, fileContent_eq_stored (direntv6Opendir_ok opened).1.2 follows]
  exact fun _ _ _ _ => rfl

/-- Record `i` of the directory below: a file under a name of its own. -/
def packedRecord (i : Nat) : Direntv6 :=
  ⟨20, #v[UInt8.ofNat (65 + i % 16), UInt8.ofNat (65 + i / 16), 0, 0, 0, 0, 0, 0, 0, 0, 0, 0, 0, 0]⟩

/-- Sector `k` of that directory. -/
def packedSector (k : Nat) : Sector :=
  Block.ofBytes sectorSize
    ((List.range 32).flatMap fun j => direntCodec.encode (packedRecord (32 * k + j)))

/-- The root of the volume below: eight whole sectors. -/
def packedDirectory : Inode := fileInode 0x4000 4096 #v[5, 6, 7, 8, 9, 10, 11, 12]

/-- A volume whose root fills eight sectors with records for an empty file, whose number is larger
than that of any sector. -/
def packedVolume : Disk :=
  volume 3 13 [(1, packedDirectory), (20, emptyFile)] ((List.range 8).map packedSector)

set_option maxRecDepth 10000 in
/-- The root and the file are the only ones of the volume. -/
theorem packedVolume_allocated {inr : Nat} {inode : Inode}
    (allocated : packedVolume.Allocated (volumeSuperblock 3 13) inr inode) :
    inr = 1 ∧ inode = packedDirectory ∨ inr = 20 ∧ inode = emptyFile := by
  have all : ∀ entry ∈ packedVolume.inodesInUse (volumeSuperblock 3 13),
      entry.1 = 1 ∧ entry.2 = packedDirectory ∨ entry.1 = 20 ∧ entry.2 = emptyFile := by
    decide +kernel
  exact all (inr, inode) (Disk.mem_inodesInUse.mpr allocated)

/-- The size of the root. -/
theorem packedDirectory_size : inodeGetsize packedDirectory = 4096 := by decide

/-- The number of sectors of the root. -/
theorem packedDirectory_count : sectorCount packedDirectory = 8 := by decide

/-- The root has the sectors from 5 on. -/
theorem packedVolume_sector {k : Nat} (small : k < 8) :
    (packedDirectory.iAddr.toList.getD k 0).toNat = 5 + k ∧
      packedVolume.sectors[5 + k]? = some (packedSector k) := by
  match k, small with
  | 0, _ => exact ⟨rfl, rfl⟩
  | 1, _ => exact ⟨rfl, rfl⟩
  | 2, _ => exact ⟨rfl, rfl⟩
  | 3, _ => exact ⟨rfl, rfl⟩
  | 4, _ => exact ⟨rfl, rfl⟩
  | 5, _ => exact ⟨rfl, rfl⟩
  | 6, _ => exact ⟨rfl, rfl⟩
  | 7, _ => exact ⟨rfl, rfl⟩

/-- The records of the root. -/
theorem packedVolume_records :
    records (packedVolume.contents packedDirectory) = (List.range 256).map packedRecord := by
  have row : ∀ k, (packedSector k).bytes =
      (List.range 32).flatMap fun j => direntCodec.encode (packedRecord (32 * k + j)) := by
    intro k
    have length : ((List.range 32).flatMap fun j =>
        direntCodec.encode (packedRecord (32 * k + j))).length = 512 := by
      simp only [List.length_flatMap, direntCodec.encode_length, direntCodec_width,
        List.map_const', List.length_range, List.sum_replicate_nat]
    rw [packedSector, Block.ofBytes_bytes (by rw [length]), length]
    exact List.append_nil _
  have bytes : (List.range 8).flatMap (packedVolume.contentSector packedDirectory) =
      ((List.range 256).map packedRecord).flatMap direntCodec.encode := by
    rw [List.flatMap_map, show 256 = 32 * 8 from rfl, ← flatMap_grid _ 32 8]
    apply List.flatMap_congr
    intro k mem
    have small := List.mem_range.mp mem
    obtain ⟨address, sector⟩ := packedVolume_sector small
    rw [Disk.contentSector, mapped_direct _ (by rw [packedDirectory_count])
      (by rw [packedDirectory_count]; exact small), address]
    simp only [sector, Option.map_some, Option.getD_some, row]
  have length : (((List.range 256).map packedRecord).flatMap direntCodec.encode).length = 4096 := by
    simp only [List.length_flatMap, direntCodec.encode_length, direntCodec_width, List.map_const',
      List.length_map, List.length_range, List.sum_replicate_nat]
  rw [Disk.contents, packedDirectory_count, packedDirectory_size, bytes,
    List.take_of_length_le length.le, records_flatMap]

set_option maxRecDepth 10000 in
/-- The names of the records are distinct: a number can be computed back from its name. -/
theorem packedRecord_names : (((List.range 256).map packedRecord).map fun r => r.pair.2).Nodup := by
  apply List.Nodup.of_map fun name =>
    (name.getD 0 0).toNat - 65 + 16 * ((name.getD 1 0).toNat - 65)
  have inverse : (((List.range 256).map packedRecord).map fun r => r.pair.2).map (fun name =>
      (name.getD 0 0).toNat - 65 + 16 * ((name.getD 1 0).toNat - 65)) = List.range 256 := by
    decide +kernel
  rw [inverse]
  exact List.nodup_range

set_option maxRecDepth 10000 in
/-- The packed volume is well formed. -/
theorem packedVolume_wellFormed : packedVolume.WellFormed (volumeSuperblock 3 13) := by
  have root : packedVolume.Allocated (volumeSuperblock 3 13) 1 packedDirectory :=
    Disk.mem_inodesInUse.mp (by decide +kernel)
  have file : packedVolume.Allocated (volumeSuperblock 3 13) 20 emptyFile :=
    Disk.mem_inodesInUse.mp (by decide +kernel)
  refine ⟨Disk.regions_of_check Host.quiet_faultless (by decide +kernel),
    ⟨packedDirectory, root, by decide⟩, by decide +kernel, by decide +kernel, by decide +kernel,
    ?_, ?_⟩
  · intro inr inode allocated directory
    rcases packedVolume_allocated allocated with ⟨-, rfl⟩ | ⟨-, rfl⟩
    · rw [packedVolume_records]
      exact ⟨packedRecord_names, by decide +kernel⟩
    · exact absurd directory (by decide)
  · intro inr inode allocated directory record mem
    rcases packedVolume_allocated allocated with ⟨-, rfl⟩ | ⟨-, rfl⟩
    · rw [packedVolume_records] at mem
      obtain ⟨i, -, rfl⟩ := List.mem_map.mp mem
      exact ⟨emptyFile, file⟩
    · exact absurd directory (by decide)

/-- The root can be read in its own sectors. -/
theorem packedVolume_stored {u : UnixFilesystem} (f : u.f = packedVolume) :
    ∀ k < sectorCount packedDirectory, ∃ sector, storedBlock u packedDirectory k = .ok sector := by
  intro k inside
  have small := inside
  rw [packedDirectory_count] at small
  have works : u.f.host.Faultless := by
    rw [f]
    exact Host.quiet_faultless
  obtain ⟨address, sector⟩ := packedVolume_sector small
  refine ⟨packedSector k, ?_⟩
  rw [storedBlock, lookupSector_direct inside (by rw [packedDirectory_count]), address]
  show sectorRead u.f (5 + k) = _
  rw [sectorRead_faultless works, f, sector]

set_option maxRecDepth 10000 in
/-- On this well-formed volume the first record of the root is not found: the first sector of the
root is taken for an indirect one, which names a sector that does not exist. -/
theorem direntv6Dirlookup_missesRecord :
    packedVolume.WellFormed (volumeSuperblock 3 13) ∧
      ∃ u, mountv6 packedVolume = .ok u ∧ storedWalk u 1 [47, 65, 65] = .ok 20 ∧
        direntv6Dirlookup u 1 [47, 65, 65] = some errIo := by
  obtain ⟨u, mounted, opened, missed⟩ := mountv6_check (f := packedVolume)
    (P := fun u => (direntv6Opendir u 1 (Block.fill sectorSize 0)).toOption.map
        (fun d => d.fv6.iNode) = some packedDirectory ∧
      direntv6Dirlookup u 1 [47, 65, 65] = some errIo) (by decide +kernel)
  refine ⟨packedVolume_wellFormed, u, mounted, ?_, missed⟩
  obtain ⟨d, there, same⟩ := Option.map_eq_some_iff.mp opened
  have parts : components pathToken [47, 65, 65] = [[65, 65]] := by decide
  have found : findName [65, 65] (((List.range 256).map packedRecord).map Direntv6.pair) =
      some 20 := by
    decide +kernel
  rw [storedWalk, parts]
  show (storedNamed u 1 [65, 65] >>= fun inr => .ok inr) = _
  rw [storedNamed, eq_ok_of_toOption there]
  simp only [same, storedContent_contents (packedVolume_stored (mountv6_coherent mounted).1),
    searchContent, (mountv6_coherent mounted).1, packedVolume_records, found]
  rfl

set_option maxRecDepth 10000 in
/-- On a volume whose root has one record, all lookups are reference walks. -/
theorem direntv6Dirlookup_walk_single :
    ∃ u, mountv6 singleVolume = .ok u ∧ (∀ inr entry, 0 ∉ entry →
      entry.getLast? ≠ some pathToken →
        direntv6Dirlookup u inr entry = some (walkCode (storedWalk u inr entry))) ∧
      direntv6Dirlookup u 1 [47, 47, 114] = some 1 := by
  obtain ⟨u, mounted, super, found⟩ := mountv6_check (f := singleVolume)
    (P := fun u => u.s = volumeSuperblock 2 6 ∧ direntv6Dirlookup u 1 [47, 47, 114] = some 1)
    (by decide +kernel)
  have whole : singleVolume.WholeRecords u.s := by
    rw [super]
    exact singleVolume_wellFormed.whole
  obtain ⟨alike, follows, -⟩ := direntv6Dirlookup_walk_iff mounted whole
  refine ⟨u, mounted, alike.mpr fun inr d opened => follows inr d opened fun k inside => ?_, found⟩
  have allocated := (direntv6Opendir_ok opened).1
  rw [(mountv6_coherent mounted).1, super] at allocated
  have size : inodeGetsize d.fv6.iNode = 16 := by
    rw [(singleVolume_allocated allocated).2]
    exact singleDirectory_size
  constructor <;> omega

end U6fs
