import Mathlib.Data.List.Nodup
import U6fs.Verif.Reading

/-!
# Enumerating directories

Enumerating a directory of whole records gives the records of its content, as far as that can be
read, and the lookup of a name finds the first record of that list that has it.
-/
namespace U6fs

open Lib

section Enumeration

variable (u : UnixFilesystem)

/-- Between two blocks `direntv6_readdir` returns the record at the cursor. -/
theorem direntv6Readdir_cursor {d : DirectoryReader} (more : d.cur ≠ d.last) :
    direntv6Readdir u d = readdirEntry d := by
  rw [direntv6Readdir, if_neg more]

/-- The records that are left of a block are returned one by one. -/
theorem readEntries_block (n : Nat) : ∀ fuel d, d.cur + n = d.last → d.last ≤ 32 →
    readEntries u (fuel + n) d =
      (readEntries u fuel { d with cur := d.last }).map fun rest =>
        (((List.range' d.cur n).map (direntCodec.get d.dirs)).map Direntv6.pair ++ rest.1,
          rest.2) := by
  induction n with
  | zero =>
    intro fuel d last _
    have same : { d with cur := d.last } = d := by
      rw [Nat.add_zero] at last
      cases d
      cases last
      rfl
    rw [same]
    cases readEntries u fuel d <;> rfl
  | succ n ih =>
    intro fuel d last bound
    have entry : direntv6Readdir u d = some (.entry { d with cur := d.cur + 1 }
        (cString (direntCodec.get d.dirs d.cur).dName.toList)
        (direntCodec.get d.dirs d.cur).dInumber) := by
      rw [direntv6Readdir_cursor u (by omega), readdirEntry,
        if_pos (show d.cur < direntriesPerSector by rw [direntriesPerSector]; omega)]
    have next := ih fuel { d with cur := d.cur + 1 } (by simp only; omega) bound
    rw [← Nat.add_assoc, readEntries, entry]
    simp only [next, Option.map_map, List.range'_succ, List.map_cons, List.cons_append]
    rfl

/-- The records of the bytes that are stored at the start of a block. -/
theorem records_splice (block : Sector) {bytes : List UInt8} (fits : bytes.length ≤ 512) :
    (List.range' 0 (bytes.length / 16)).map (direntCodec.get (block.splice 0 bytes)) =
      records bytes := by
  rw [records, ← List.range_eq_range']
  apply List.map_congr_left
  intro i mem
  rw [List.mem_range] at mem
  rw [Codec.get, direntCodec_width, Nat.mul_comm, block.window_splice_start fits (by omega)]

/-- At the end of the records that were read, the next record is the first one of the next block. -/
theorem direntv6Readdir_block (inr : UInt16) {inode : Inode} (whole : inodeGetsize inode % 16 = 0)
    {k : Nat} (more : 512 * k < inodeGetsize inode) {sector : Sector}
    (read : fileBlock u inode k = .ok sector) (dirs : Sector) (cur : Nat) :
    direntv6Readdir u
        { fv6 := { iNumber := inr, iNode := inode, offset := 512 * k }, dirs, cur, last := cur } =
      direntv6Readdir u
        { fv6 := { iNumber := inr, iNode := inode
                   offset := min (512 * (k + 1)) (inodeGetsize inode) }
          dirs := dirs.splice 0 (sector.bytes.take (inodeGetsize inode - 512 * k)), cur := 0
          last := min 512 (inodeGetsize inode - 512 * k) / 16 } := by
  have block := filev6Readblock_block u inode inr more
  rw [read] at block
  have positive : ¬((min 512 (inodeGetsize inode - 512 * k) : Nat) : Int) ≤ 0 := by omega
  have records : 0 ≠ min 512 (inodeGetsize inode - 512 * k) / 16 := by omega
  rw [direntv6Readdir, if_pos rfl]
  simp only [block, if_neg positive, Int.toNat_natCast, direntCodec_width]
  exact (direntv6Readdir_cursor u records).symm

/-- The loop of a caller enumerates the records of the blocks from one block on. -/
theorem readEntries_from (inr : UInt16) {inode : Inode} (whole : inodeGetsize inode % 16 = 0)
    (count : Nat) : ∀ fuel k dirs cur, k + count = sectorCount inode →
      (inodeGetsize inode - 512 * k) / 16 < fuel →
      readEntries u fuel
          { fv6 := { iNumber := inr, iNode := inode, offset := min (512 * k) (inodeGetsize inode) }
            dirs, cur, last := cur } =
        some ((records ((gather (filePieces u inode k count)).1.take
            (inodeGetsize inode - 512 * k))).map Direntv6.pair,
          (gather (filePieces u inode k count)).2.getD errNone) := by
  induction count with
  | zero =>
    intro fuel k dirs cur last enough
    obtain ⟨fuel, rfl⟩ := Nat.exists_eq_succ_of_ne_zero (Nat.ne_of_gt (Nat.zero_lt_of_lt enough))
    rw [sectorCount] at last
    rw [Nat.min_eq_right (by omega), readEntries, direntv6Readdir, if_pos rfl]
    simp only [filev6Readblock_end, filePieces_zero, gather, List.take_nil]
    rfl
  | succ count ih =>
    intro fuel k dirs cur inside enough
    obtain ⟨fuel, rfl⟩ := Nat.exists_eq_succ_of_ne_zero (Nat.ne_of_gt (Nat.zero_lt_of_lt enough))
    have here := inside
    rw [sectorCount] at here
    have more : 512 * k < inodeGetsize inode := by omega
    rw [Nat.min_eq_left more.le, filePieces_succ]
    cases read : fileBlock u inode k with
    | error code =>
      have negative := fileBlock_error u inode read
      have block := filev6Readblock_block u inode inr more
      rw [read] at block
      rw [readEntries, direntv6Readdir, if_pos rfl]
      simp only [block, if_pos negative.le, Except.map, gather, List.take_nil, Option.getD_some]
      rfl
    | ok sector =>
      have length : sector.bytes.length = 512 := sector.sized
      have next := direntv6Readdir_block u inr whole more read dirs cur
      -- the bytes of the block, a whole number of records
      have bytes : (sector.bytes.take (inodeGetsize inode - 512 * k)).length =
          min 512 (inodeGetsize inode - 512 * k) := by
        rw [List.length_take, length, Nat.min_comm]
      have enter : ∀ a b, direntv6Readdir u a = direntv6Readdir u b →
          readEntries u (fuel + 1) a = readEntries u (fuel + 1) b := by
        intro a b same
        rw [readEntries, readEntries, same]
      have split : fuel + 1 = fuel + 1 - min 512 (inodeGetsize inode - 512 * k) / 16 +
          min 512 (inodeGetsize inode - 512 * k) / 16 := by
        omega
      have left : inodeGetsize inode - 512 * (k + 1) = inodeGetsize inode - 512 * k - 512 := by
        omega
      have tail := ih (fuel + 1 - min 512 (inodeGetsize inode - 512 * k) / 16) (k + 1)
        (dirs.splice 0 (sector.bytes.take (inodeGetsize inode - 512 * k)))
        (min 512 (inodeGetsize inode - 512 * k) / 16) (by omega) (by omega)
      have here := records_splice dirs (by omega :
        (sector.bytes.take (inodeGetsize inode - 512 * k)).length ≤ 512)
      have wholeBlock : (sector.bytes.take (inodeGetsize inode - 512 * k)).length % 16 = 0 := by
        omega
      rw [enter _ _ next, split, readEntries_block u _ _ _ (Nat.zero_add _) (by simp only; omega),
        tail, ← bytes, Option.map_some, Except.map, gather, List.take_append, length, ← left,
        records_append _ wholeBlock, List.map_append]
      simp only [here]

end Enumeration

/-- The records of a directory as they are read: the inode numbers and names. -/
def dirEntries (u : UnixFilesystem) (inode : Inode) : List (UInt16 × List UInt8) :=
  (records (fileContent u inode).1).map Direntv6.pair

/-- The first of a list of records that has a name. -/
def findName (name : List UInt8) (entries : List (UInt16 × List UInt8)) : Option UInt16 :=
  (entries.find? fun entry => name = entry.2).map Prod.fst

/-- A directory is read to its end, in whole records, which have distinct names that are components
of paths and name inodes that can be read. -/
structure ListableDirectory (u : UnixFilesystem) (inode : Inode) : Prop where
  /-- It has whole records. -/
  whole : inodeGetsize inode % 16 = 0
  /-- All its sectors are found and can be read. -/
  read : (fileContent u inode).2 = errNone
  /-- No name stands twice. -/
  distinct : ((dirEntries u inode).map Prod.snd).Nodup
  /-- Names are components of paths. -/
  names : ∀ entry ∈ dirEntries u inode, entry.2 ≠ [] ∧ pathToken ∉ entry.2
  /-- The records are those of allocated inodes. -/
  targets : ∀ entry ∈ dirEntries u inode, (inodeRead u entry.1 Inode.zero).1 = errNone

section Directory

variable {u : UnixFilesystem} {inr : UInt16} {dirs : Sector} {d : DirectoryReader}
  (opened : direntv6Opendir u inr dirs = .ok d) (whole : inodeGetsize d.fv6.iNode % 16 = 0)

include opened whole

/-- A caller enumerates the records of a directory that it opens. -/
theorem readEntries_eq : readEntries u (readdirBound d) d =
    some (dirEntries u d.fv6.iNode, (fileContent u d.fv6.iNode).2) := by
  obtain ⟨-, -, is⟩ := direntv6Opendir_ok opened
  have enough : (inodeGetsize d.fv6.iNode - 512 * 0) / 16 < readdirBound d := by
    rw [readdirBound, sectorSize, direntriesPerSector]
    omega
  have read := readEntries_from u inr whole (sectorCount d.fv6.iNode) (readdirBound d) 0 dirs 0
    (Nat.zero_add _) enough
  rw [Nat.mul_zero, Nat.zero_min, Nat.sub_zero, ← is] at read
  exact read

end Directory

/-- On a working machine an allocated directory is opened. -/
theorem direntv6Opendir_of_allocated {u : UnixFilesystem} (works : u.f.host.Faultless)
    {inr : UInt16} {inode : Inode} (allocated : u.f.Allocated u.s inr.toNat inode)
    (directory : inode.isDirectory = true) (dirs : Sector) :
    direntv6Opendir u inr dirs =
      .ok { fv6 := { iNumber := inr, iNode := inode, offset := 0 }, dirs, cur := 0
            last := 0 } := by
  rw [direntv6Opendir, filev6Open_of_allocated works allocated]
  simp only [directory, Bool.not_true, Bool.false_eq_true, if_false]

/-- A caller lists the records of an allocated directory. -/
theorem listDirectory_of_allocated {u : UnixFilesystem} (works : u.f.host.Faultless)
    {inr : UInt16} {inode : Inode} (allocated : u.f.Allocated u.s inr.toNat inode)
    (directory : inode.isDirectory = true) (whole : inodeGetsize inode % 16 = 0) :
    listDirectory u inr = some (dirEntries u inode, (fileContent u inode).2) := by
  have opened := direntv6Opendir_of_allocated works allocated directory (Block.fill sectorSize 0)
  rw [listDirectory, opened]
  exact readEntries_eq opened whole

/-- A record that is found is found when records are added behind. -/
theorem findName_append {name : List UInt8} {entries : List (UInt16 × List UInt8)}
    {child : UInt16} (found : findName name entries = some child)
    (more : List (UInt16 × List UInt8)) : findName name (entries ++ more) = some child := by
  obtain ⟨entry, first, same⟩ := Option.map_eq_some_iff.mp found
  rw [findName, List.find?_append, first]
  exact congrArg some same

/-- A name is found in the record that is added for it, when it has no record before. -/
theorem findName_added {name : List UInt8} {entries : List (UInt16 × List UInt8)}
    (absent : findName name entries = none) (child : UInt16) :
    findName name (entries ++ [(child, name)]) = some child := by
  have none := Option.map_eq_none_iff.mp absent
  rw [findName, List.find?_append, none, Option.none_or, List.find?_singleton,
    decide_eq_true (rfl : name = name)]
  rfl

/-- A name without a record is not among the names. -/
theorem findName_eq_none_iff {name : List UInt8} {entries : List (UInt16 × List UInt8)} :
    findName name entries = none ↔ name ∉ entries.map Prod.snd := by
  rw [findName, Option.map_eq_none_iff, List.find?_eq_none]
  constructor
  · intro none mem
    obtain ⟨entry, there, rfl⟩ := List.mem_map.mp mem
    exact none entry there (decide_eq_true rfl)
  · intro absent entry there same
    apply absent
    rw [of_decide_eq_true same]
    exact List.mem_map_of_mem there

/-- A name is found in a record that has it. -/
theorem mem_of_findName {name : List UInt8} {child : UInt16}
    {entries : List (UInt16 × List UInt8)} (found : findName name entries = some child) :
    (child, name) ∈ entries := by
  obtain ⟨⟨other, same⟩, first, is⟩ := Option.map_eq_some_iff.mp found
  have named : name = same := by simpa using List.find?_some first
  cases is
  rw [named]
  exact List.mem_of_find?_eq_some first

/-- Where names are distinct, a name is found in its only record. -/
theorem findName_eq_some_iff {name : List UInt8} {child : UInt16}
    {entries : List (UInt16 × List UInt8)} (distinct : (entries.map Prod.snd).Nodup) :
    findName name entries = some child ↔ (child, name) ∈ entries := by
  refine ⟨mem_of_findName, fun mem => ?_⟩
  cases found : findName name entries with
  | none => exact absurd (List.mem_map_of_mem mem) (findName_eq_none_iff.mp found)
  | some other =>
    have one := List.inj_on_of_nodup_map distinct mem (mem_of_findName found) rfl
    exact congrArg some (Prod.mk.inj one).1.symm

/-- The scan for a name finds it in the list of the records that a caller enumerates. -/
theorem lookupScan_eq {u : UnixFilesystem} (name : List UInt8) (fuel : Nat) :
    ∀ d entries (code : Int), readEntries u fuel d = some (entries, code) →
      lookupScan u name fuel d = some (match findName name entries with
        | some childInr => .ok childInr
        | none => .error code) := by
  induction fuel with
  | zero =>
    intro d entries code run
    cases run
  | succ fuel ih =>
    intro d entries code run
    rw [readEntries] at run
    rw [lookupScan]
    cases read : direntv6Readdir u d with
    | none =>
      rw [read] at run
      cases run
    | some result =>
      rw [read] at run
      cases result with
      | done after dirRead =>
        cases run
        rfl
      | entry after found childInr =>
        obtain ⟨⟨rest, last⟩, inner, same⟩ := Option.map_eq_some_iff.mp run
        cases same
        have next := ih after rest code inner
        simp only [findName, List.find?_cons] at next ⊢
        by_cases here : name = found
        · simp only [here, if_true, decide_true, Option.map_some]
        · simp only [here, if_false, decide_false, next]

end U6fs
