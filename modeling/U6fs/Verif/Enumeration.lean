import U6fs.Lib.Supply
import U6fs.Verif.Listing
import U6fs.Verif.Streaming

/-!
# Calls of `direntv6_readdir` in a row

A directory of whole records gives its records one by one and in order, and then no more. Of a
directory of any size it is asked only that the cursor stays inside the block and that the calls
come to an end. Both fail when the last block of a directory has less than one record: then no
record is left before the cursor, and the calls go on through what is behind it.
-/
namespace U6fs

open Lib

/-- A call of `direntv6_readdir`: the value it returns, with what it stores when that is 1, or
`none` for undefined behaviour, and the reader after it. -/
def readdirCall (u : UnixFilesystem) (d : DirectoryReader) :
    Option (Int × Option (UInt16 × List UInt8)) × DirectoryReader :=
  match direntv6Readdir u d with
  | none => (none, d)
  | some (.done after code) => (some (code, none), after)
  | some (.entry after name childInr) => (some (1, some (childInr, name)), after)

/-- What `n` calls in a row return, and the reader after them. -/
def readdirCalls (u : UnixFilesystem) (n : Nat) (d : DirectoryReader) :
    List (Option (Int × Option (UInt16 × List UInt8))) × DirectoryReader :=
  serve (readdirCall u) n d

/-- The reader between two calls: its cursor is inside the block, and its file is at a sector. -/
structure Cursor (d : DirectoryReader) : Prop where
  /-- The cursor is not behind the records of the block. -/
  low : d.cur ≤ d.last
  /-- The block has room for the records. -/
  high : d.last ≤ 32
  /-- The next block starts at the offset. -/
  place : AtSector d.fv6

/-- The reader after a block of `n` bytes is read. -/
def DirectoryReader.filled (d : DirectoryReader) (n : Nat) (bytes : List UInt8) :
    DirectoryReader where
  fv6 := { d.fv6 with offset := d.fv6.offset + n }
  dirs := d.dirs.splice 0 bytes
  cur := 0
  last := n / 16

/-- The reader after the record at the cursor is returned. -/
def DirectoryReader.advanced (d : DirectoryReader) : DirectoryReader :=
  { d with cur := d.cur + 1 }

/-- The record at the cursor, as it is returned. -/
def DirectoryReader.record (d : DirectoryReader) : UInt16 × List UInt8 :=
  (direntCodec.get d.dirs d.cur).pair

section Call

variable {u : UnixFilesystem} {d : DirectoryReader}

/-- The record at the cursor is returned when it is in the array. -/
theorem readdirEntry_eq (inside : d.cur < 32) :
    readdirEntry d = some (.entry d.advanced d.record.2 d.record.1) := by
  rw [readdirEntry, direntriesPerSector, if_pos inside, DirectoryReader.record, Direntv6.pair,
    DirectoryReader.advanced]

/-- A call returns the record at the cursor, if there is one; otherwise it stops at the end of the
directory or at a block that is not read, or it returns the first record of the next block. -/
theorem readdirCall_cases (cursor : Cursor d) :
    (d.cur < d.last ∧ readdirCall u d = (some (1, some d.record), d.advanced)) ∨
    (d.cur = d.last ∧ d.fv6.offset = inodeGetsize d.fv6.iNode ∧
      ∃ dirs, readdirCall u d = (some (0, none), { d with dirs })) ∨
    (d.cur = d.last ∧ d.fv6.offset < inodeGetsize d.fv6.iNode ∧
      ∃ code < 0, ∃ dirs, fileBlock u d.fv6.iNode (d.fv6.offset / 512) = .error code ∧
        readdirCall u d = (some (code, none), { d with dirs })) ∨
    (d.cur = d.last ∧ d.fv6.offset < inodeGetsize d.fv6.iNode ∧
      ∃ n bytes, n = min 512 (inodeGetsize d.fv6.iNode - d.fv6.offset) ∧
        (∃ sector, fileBlock u d.fv6.iNode (d.fv6.offset / 512) = .ok sector) ∧
        HasBytes u d.fv6.iNode bytes d.fv6.offset n ∧
        readdirCall u d =
          (some (1, some (d.filled n bytes).record), (d.filled n bytes).advanced)) := by
  obtain ⟨low, high, place⟩ := cursor
  rcases Nat.lt_or_eq_of_le low with more | refill
  · left
    refine ⟨more, ?_⟩
    rw [readdirCall, direntv6Readdir_cursor u (Nat.ne_of_lt more), readdirEntry_eq (by omega)]
  · right
    rcases filev6Readblock_cases (u := u) place with
      ⟨ends, run⟩ |
      ⟨before, ⟨code, negative, failed, run⟩ | ⟨n, bytes, more, amount, read, has, run⟩⟩
    · refine .inl ⟨refill, ends, d.dirs.splice 0 [], ?_⟩
      rw [readdirCall, direntv6Readdir, if_pos refill, run]
      rfl
    · refine .inr (.inl ⟨refill, before, code, negative, d.dirs.splice 0 [], failed, ?_⟩)
      rw [readdirCall, direntv6Readdir, if_pos refill, run]
      simp only [if_pos negative.le]
    · refine .inr (.inr ⟨refill, before, n, bytes, amount, read, has, ?_⟩)
      rw [readdirCall, direntv6Readdir, if_pos refill, run]
      simp only [if_neg (show ¬(n : Int) ≤ 0 by omega), Int.toNat_natCast, direntCodec_width]
      have first : (d.filled n bytes).cur < 32 := Nat.zero_lt_succ 31
      have entry := readdirEntry_eq first
      rw [DirectoryReader.filled] at entry ⊢
      rw [entry]

/-- The cursor stays inside the block when a block of a record or more is read. -/
theorem Cursor.filled (cursor : Cursor d) {n : Nat} (bytes : List UInt8)
    (amount : n = min 512 (inodeGetsize d.fv6.iNode - d.fv6.offset)) (some : 16 ≤ n) :
    Cursor (d.filled n bytes).advanced := by
  obtain ⟨inside, aligned⟩ := cursor.place
  constructor
  case low =>
    show 0 + 1 ≤ n / 16
    omega
  case high =>
    show n / 16 ≤ 32
    omega
  case place =>
    constructor
    · show d.fv6.offset + n ≤ inodeGetsize d.fv6.iNode
      omega
    · show (d.fv6.offset + n) % 512 = 0 ∨ d.fv6.offset + n = inodeGetsize d.fv6.iNode
      omega

/-- It stays inside when a record of the block is returned. -/
theorem Cursor.advanced (cursor : Cursor d) (more : d.cur < d.last) : Cursor d.advanced :=
  ⟨more, cursor.high, cursor.place⟩

end Call

section Records

variable {u : UnixFilesystem} {inode : Inode}

/-- The records that a reader has still to return, when all blocks can be read. -/
def DirectoryReader.left (u : UnixFilesystem) (d : DirectoryReader) :
    List (UInt16 × List UInt8) :=
  (List.range' d.cur (d.last - d.cur)).map (fun i => (direntCodec.get d.dirs i).pair) ++
    (records ((fileContent u d.fv6.iNode).1.drop d.fv6.offset)).map Direntv6.pair

/-- What a call returns for the next record, or at the end. -/
def readdirAnswer : Option (UInt16 × List UInt8) → Option (Int × Option (UInt16 × List UInt8))
  | some record => some (1, some record)
  | none => some (0, none)

/-- Between two calls on a directory of whole records that can be read. -/
structure Enumerates (u : UnixFilesystem) (d : DirectoryReader) : Prop where
  /-- The cursor is inside the block. -/
  cursor : Cursor d
  /-- The directory has whole records. -/
  whole : inodeGetsize d.fv6.iNode % 16 = 0
  /-- Its sectors can be read. -/
  readable : Readable u d.fv6.iNode

/-- Of whole records a block has one at least. -/
theorem Enumerates.block {d : DirectoryReader} (between : Enumerates u d)
    (more : d.fv6.offset < inodeGetsize d.fv6.iNode) :
    16 ≤ min 512 (inodeGetsize d.fv6.iNode - d.fv6.offset) ∧
      min 512 (inodeGetsize d.fv6.iNode - d.fv6.offset) % 16 = 0 := by
  have whole := between.whole
  have place := between.cursor.place.aligned
  omega

/-- The records left before a block is read are those of the block and the others. -/
theorem Enumerates.left_filled {d : DirectoryReader} (between : Enumerates u d)
    (refill : d.cur = d.last) {n : Nat} {bytes : List UInt8}
    (amount : n = min 512 (inodeGetsize d.fv6.iNode - d.fv6.offset)) (part : n % 16 = 0)
    (has : HasBytes u d.fv6.iNode bytes d.fv6.offset n) :
    d.left u = (d.filled n bytes).left u := by
  have inside := between.cursor.place.inside
  have length := fileContent_length u d.fv6.iNode between.readable.whole
  -- the bytes of the block are the next ones of the content
  have block : bytes = ((fileContent u d.fv6.iNode).1.drop d.fv6.offset).take n := by
    apply List.ext_getElem?
    intro i
    by_cases small : i < n
    · rw [has.2 i small, List.getElem?_take, if_pos small, List.getElem?_drop,
        fileContent_getElem? u _ between.readable.whole (by omega)]
    · rw [List.getElem?_eq_none (by rw [has.1]; omega), List.getElem?_take, if_neg small]
  have split : (fileContent u d.fv6.iNode).1.drop d.fv6.offset =
      bytes ++ (fileContent u d.fv6.iNode).1.drop (d.fv6.offset + n) := by
    rw [block, ← List.drop_drop, List.take_append_drop]
  have first := records_splice d.dirs (by rw [has.1]; omega : bytes.length ≤ 512)
  rw [has.1] at first
  simp only [DirectoryReader.left, DirectoryReader.filled, refill, Nat.sub_self, List.range'_zero,
    List.map_nil, List.nil_append, Nat.sub_zero]
  rw [split, records_append _ (by rw [has.1]; exact part), ← first, List.map_append, List.map_map]
  rfl

/-- A call returns the first record left, and keeps the others. -/
theorem Enumerates.serves {d : DirectoryReader} (between : Enumerates u d) :
    Serves (readdirCall u) (DirectoryReader.left u) readdirAnswer d ∧
      Enumerates u (readdirCall u d).2 := by
  have advance : ∀ d : DirectoryReader, d.cur < d.last →
      d.left u = d.record :: d.advanced.left u := by
    intro d more
    obtain ⟨rest, count⟩ : ∃ rest, d.last - d.cur = rest + 1 := ⟨d.last - d.cur - 1, by omega⟩
    have others : d.last - (d.cur + 1) = rest := by omega
    simp only [DirectoryReader.left, DirectoryReader.advanced, count, others, List.range'_succ,
      List.map_cons, List.cons_append]
    rfl
  rcases readdirCall_cases (u := u) between.cursor with
    ⟨more, run⟩ | ⟨refill, ends, dirs, run⟩ | ⟨-, more, code, -, dirs, failed, -⟩ |
    ⟨refill, more, n, bytes, amount, -, has, run⟩
  · have next := advance d more
    refine ⟨⟨by rw [run, next]; rfl, by rw [run, next]; rfl⟩, ?_⟩
    rw [run]
    exact ⟨between.cursor.advanced more, between.whole, between.readable⟩
  · have none : ∀ dirs, ({ d with dirs } : DirectoryReader).left u = [] := by
      intro dirs
      have length := fileContent_length u d.fv6.iNode between.readable.whole
      have empty : (fileContent u d.fv6.iNode).1.drop d.fv6.offset = [] :=
        List.drop_of_length_le (by omega)
      simp only [DirectoryReader.left, refill, Nat.sub_self, empty]
      rfl
    refine ⟨⟨by rw [run, show d.left u = [] from none d.dirs]; rfl, ?_⟩, ?_⟩
    · rw [run, show d.left u = [] from none d.dirs]
      exact none dirs
    · rw [run]
      exact ⟨⟨between.cursor.low, between.cursor.high, between.cursor.place⟩, between.whole,
        between.readable⟩
  · have inside : d.fv6.offset / 512 < sectorCount d.fv6.iNode := by
      rw [sectorCount]
      omega
    obtain ⟨sector, read⟩ := between.readable _ inside
    rw [read] at failed
    cases failed
  · obtain ⟨some, part⟩ := between.block more
    rw [← amount] at some part
    have next := advance (d.filled n bytes) (show 0 < n / 16 by omega)
    rw [← between.left_filled refill amount part has] at next
    refine ⟨⟨by rw [run, next]; rfl, by rw [run, next]; rfl⟩, ?_⟩
    rw [run]
    exact ⟨between.cursor.filled bytes amount some, between.whole, between.readable⟩

end Records

/-- A name that is returned is a string of at most 14 bytes. -/
theorem pair_name (record : Direntv6) : record.pair.2.length ≤ 14 ∧ 0 ∉ record.pair.2 := by
  constructor
  · have bound := (List.takeWhile_sublist (p := (· ≠ 0)) (l := record.dName.toList)).length_le
    rw [Vector.length_toList] at bound
    exact bound
  · intro mem
    have other := List.mem_takeWhile_imp mem
    simp at other

/-- A directory of whole records, all of whose sectors are found and can be read, is enumerated
record by record: each of the first calls returns 1 with the next record of its content, whose name
is cut at the first NUL, and every call after the last record returns 0. -/
theorem readdirCalls_records {u : UnixFilesystem} {inr : UInt16} {dirs : Sector}
    {d : DirectoryReader} (opened : direntv6Opendir u inr dirs = .ok d)
    (whole : inodeGetsize d.fv6.iNode % 16 = 0) (readable : Readable u d.fv6.iNode) :
    ∃ content, HasBytes u d.fv6.iNode content 0 (inodeGetsize d.fv6.iNode) ∧
      (records content).length = inodeGetsize d.fv6.iNode / 16 ∧
      (∀ record ∈ records content, record.pair.2.length ≤ 14 ∧ 0 ∉ record.pair.2) ∧
      ∀ n, (readdirCalls u n d).1 =
        ((records content).take n).map (fun record => some (1, some record.pair)) ++
          List.replicate (n - inodeGetsize d.fv6.iNode / 16) (some (0, none)) := by
  obtain ⟨-, -, is⟩ := direntv6Opendir_ok opened
  have length := fileContent_length u d.fv6.iNode readable.whole
  have count : (records (fileContent u d.fv6.iNode).1).length = inodeGetsize d.fv6.iNode / 16 := by
    rw [records, List.length_map, List.length_range, length]
  have left : d.left u = (records (fileContent u d.fv6.iNode).1).map Direntv6.pair := by
    rw [is]
    rfl
  have start : Enumerates u d := by
    refine ⟨?_, whole, readable⟩
    rw [is]
    exact ⟨le_rfl, Nat.zero_le _, Nat.zero_le _, .inl rfl⟩
  refine ⟨(fileContent u d.fv6.iNode).1, ⟨length, fun j small => ?_⟩, count,
    fun record _ => pair_name record, fun n => ?_⟩
  · rw [Nat.zero_add]
    exact fileContent_getElem? u _ readable.whole small
  · rw [readdirCalls, serve_spec (Enumerates u) (fun _ between => between.serves.2)
      (fun _ between => between.serves.1) n start, left, List.length_map, count, ← List.map_take,
      List.map_map]
    rfl

/-- What a caller of `direntv6_readdir` relies on, whatever the size of the directory. -/
structure SafeCalls (u : UnixFilesystem) (d : DirectoryReader) : Prop where
  /-- Every call is defined. -/
  defined : ∀ n, none ∉ (readdirCalls u n d).1
  /-- The cursor is not behind the records of the block, for which there is room. -/
  cursor : ∀ n, (readdirCalls u n d).2.cur ≤ (readdirCalls u n d).2.last ∧
    (readdirCalls u n d).2.last ≤ 32
  /-- A record that is returned is one of the block: it stands before the cursor. -/
  index : ∀ n after name childInr,
    direntv6Readdir u (readdirCalls u n d).2 = some (.entry after name childInr) →
      (childInr, name) = (direntCodec.get after.dirs (after.cur - 1)).pair ∧
        after.cur - 1 < after.last
  /-- As many calls as there is room for records, and one more, cannot all return a record. -/
  ends : ∀ n, (∀ result ∈ (readdirCalls u n d).1, ∃ record, result = some (1, some record)) →
    n ≤ inodeGetsize d.fv6.iNode / 16 + 1
  /-- The loop of a caller that goes on until no record is returned ends. -/
  loop : ∃ entries code, readEntries u (readdirBound d) d = some (entries, code)

/-- The last block of a directory has no whole record, and comes to be read. -/
def PartRecord (u : UnixFilesystem) (inode : Inode) : Prop :=
  0 < inodeGetsize inode % 512 ∧ inodeGetsize inode % 512 < 16 ∧ Readable u inode

section Safe

variable {u : UnixFilesystem} {inode : Inode}

/-- Between two calls on a directory whose last block has a record or does not come to be read. -/
structure StaysInside (u : UnixFilesystem) (inode : Inode) (d : DirectoryReader) : Prop where
  /-- The cursor is inside the block. -/
  cursor : Cursor d
  /-- The inode is the one opened. -/
  same : d.fv6.iNode = inode
  /-- There is a block, not behind the offset, that cannot be read, when the last one is too
  short. -/
  stops : 0 < inodeGetsize inode % 512 → inodeGetsize inode % 512 < 16 →
    ∃ k < sectorCount inode, d.fv6.offset ≤ 512 * k ∧ ∀ sector, fileBlock u inode k ≠ .ok sector

/-- A bound on the records that are still returned. -/
def DirectoryReader.most (d : DirectoryReader) : Nat :=
  d.last - d.cur + (inodeGetsize d.fv6.iNode - d.fv6.offset) / 16

/-- A block that is read has a record, and the blocks that cannot be read stay ahead. -/
theorem StaysInside.block {d : DirectoryReader} (between : StaysInside u inode d)
    (more : d.fv6.offset < inodeGetsize inode)
    (read : ∃ sector, fileBlock u inode (d.fv6.offset / 512) = .ok sector) :
    16 ≤ min 512 (inodeGetsize inode - d.fv6.offset) ∧
      (0 < inodeGetsize inode % 512 → inodeGetsize inode % 512 < 16 →
        ∃ k < sectorCount inode,
          d.fv6.offset + min 512 (inodeGetsize inode - d.fv6.offset) ≤ 512 * k ∧
          ∀ sector, fileBlock u inode k ≠ .ok sector) := by
  have place := between.cursor.place.aligned
  rw [between.same] at place
  by_cases short : 0 < inodeGetsize inode % 512 ∧ inodeGetsize inode % 512 < 16
  · obtain ⟨k, inside, ahead, fails⟩ := between.stops short.1 short.2
    obtain ⟨sector, read⟩ := read
    have other : d.fv6.offset / 512 ≠ k := by
      rintro rfl
      exact fails sector read
    have count := inside
    rw [sectorCount] at count
    exact ⟨by omega, fun _ _ => ⟨k, inside, by omega, fails⟩⟩
  · exact ⟨by omega, fun some few => absurd ⟨some, few⟩ short⟩

/-- What a call does, as far as a caller relies on it. -/
theorem StaysInside.call {d : DirectoryReader} (between : StaysInside u inode d) :
    StaysInside u inode (readdirCall u d).2 ∧ (readdirCall u d).1 ≠ none ∧
      ((∃ record, (readdirCall u d).1 = some (1, some record)) →
        (readdirCall u d).2.most + 1 ≤ d.most) := by
  have same := between.same
  have place := between.cursor.place.aligned
  rw [same] at place
  rcases readdirCall_cases (u := u) between.cursor with
    ⟨more, run⟩ | ⟨-, -, dirs, run⟩ | ⟨-, -, code, negative, dirs, -, run⟩ |
    ⟨refill, more, n, bytes, amount, read, -, run⟩
  · rw [run]
    refine ⟨⟨between.cursor.advanced more, same, between.stops⟩, Option.some_ne_none _, fun _ => ?_⟩
    show d.last - (d.cur + 1) + _ + 1 ≤ d.last - d.cur + _
    simp only [DirectoryReader.advanced]
    omega
  · rw [run]
    refine ⟨⟨⟨between.cursor.low, between.cursor.high, between.cursor.place⟩, same, between.stops⟩,
      Option.some_ne_none _, ?_⟩
    rintro ⟨record, returned⟩
    cases returned
  · rw [run]
    refine ⟨⟨⟨between.cursor.low, between.cursor.high, between.cursor.place⟩, same, between.stops⟩,
      Option.some_ne_none _, ?_⟩
    rintro ⟨record, returned⟩
    cases returned
  · rw [same] at more amount read
    obtain ⟨some, ahead⟩ := between.block more read
    rw [← amount] at some ahead
    rw [run]
    refine ⟨⟨between.cursor.filled bytes (by rw [same]; exact amount) some, same, ahead⟩,
      Option.some_ne_none _, fun _ => ?_⟩
    simp only [DirectoryReader.most, DirectoryReader.advanced, DirectoryReader.filled, same]
    omega

/-- Calls that all return a record are no more than the records there is room for. -/
theorem StaysInside.most_le (n : Nat) : ∀ d, StaysInside u inode d →
    (∀ result ∈ (readdirCalls u n d).1, ∃ record, result = some (1, some record)) → n ≤ d.most := by
  induction n with
  | zero => exact fun _ _ _ => Nat.zero_le _
  | succ n ih =>
    intro d between all
    obtain ⟨next, -, fewer⟩ := between.call
    have first := fewer (all _ List.mem_cons_self)
    have others := ih _ next fun result mem => all result (List.mem_cons_of_mem _ mem)
    omega

/-- Every call of a run is defined. -/
theorem StaysInside.defined (n : Nat) : ∀ d, StaysInside u inode d →
    none ∉ (readdirCalls u n d).1 := by
  induction n with
  | zero => exact fun _ _ => List.not_mem_nil
  | succ n ih =>
    intro d between mem
    obtain ⟨next, defined, -⟩ := between.call
    rcases List.mem_cons.mp mem with here | later
    · exact defined here.symm
    · exact ih _ next later

/-- A record that is returned stands before the cursor. -/
theorem direntv6Readdir_index {d after : DirectoryReader} {name : List UInt8} {childInr : UInt16}
    (entry : direntv6Readdir u d = some (.entry after name childInr)) :
    (childInr, name) = (direntCodec.get after.dirs (after.cur - 1)).pair ∧ 0 < after.cur := by
  have stored : ∀ d, readdirEntry d = some (.entry after name childInr) →
      (childInr, name) = (direntCodec.get after.dirs (after.cur - 1)).pair ∧ 0 < after.cur := by
    intro d entry
    by_cases inside : d.cur < 32
    · rw [readdirEntry_eq inside] at entry
      cases entry
      refine ⟨?_, Nat.succ_pos _⟩
      rw [Prod.mk.eta, DirectoryReader.record, DirectoryReader.advanced, Nat.add_sub_cancel]
    · rw [readdirEntry, direntriesPerSector, if_neg inside] at entry
      cases entry
  rw [direntv6Readdir] at entry
  split at entry
  · split at entry
    split at entry
    · cases entry
    · exact stored _ entry
  · exact stored _ entry

/-- The loop of a caller ends unless a call is undefined or all calls return a record. -/
theorem readEntries_ends (fuel : Nat) : ∀ d, (∀ n, none ∉ (readdirCalls u n d).1) →
    (∃ entries code, readEntries u fuel d = some (entries, code)) ∨
      ∀ result ∈ (readdirCalls u fuel d).1, ∃ record, result = some (1, some record) := by
  induction fuel with
  | zero => exact fun _ _ => .inr fun result mem => absurd mem List.not_mem_nil
  | succ fuel ih =>
    intro d defined
    have first : (readdirCall u d).1 ≠ none := fun none => defined 1 (none ▸ List.mem_cons_self)
    have rest := ih (readdirCall u d).2 fun n mem => defined (n + 1) (List.mem_cons_of_mem _ mem)
    have run : (readdirCalls u (fuel + 1) d).1 =
      (readdirCall u d).1 :: (readdirCalls u fuel (readdirCall u d).2).1 := rfl
    rw [run, readEntries]
    rw [readdirCall] at first rest ⊢
    cases call : direntv6Readdir u d with
    | none =>
      rw [call] at first
      exact absurd rfl first
    | some result =>
      rw [call] at rest
      cases result with
      | done after code => exact .inl ⟨[], code, rfl⟩
      | entry after name childInr =>
        rcases rest with ⟨entries, code, tail⟩ | all
        · left
          simp only [tail, Option.map_some]
          exact ⟨_, _, rfl⟩
        · right
          intro result mem
          rcases List.mem_cons.mp mem with rfl | later
          · exact ⟨_, rfl⟩
          · exact all result later

/-- A run of calls on such a directory is safe. -/
theorem StaysInside.safe {d : DirectoryReader} (start : StaysInside u inode d)
    (fresh : d.most ≤ inodeGetsize d.fv6.iNode / 16 + 1) : SafeCalls u d := by
  have between : ∀ n, StaysInside u inode (readdirCalls u n d).2 := fun n =>
    serve_keeps (fun _ between => between.call.1) n d start
  constructor
  case defined => exact fun n => StaysInside.defined n d start
  case cursor => exact fun n => ⟨(between n).cursor.low, (between n).cursor.high⟩
  case index =>
    intro n after name childInr entry
    obtain ⟨stored, positive⟩ := direntv6Readdir_index entry
    have low := (between n).call.1.cursor.low
    rw [readdirCall, entry] at low
    simp only at low
    exact ⟨stored, by omega⟩
  case ends => exact fun n all => Nat.le_trans (StaysInside.most_le n d start all) fresh
  case loop =>
    rcases readEntries_ends (readdirBound d) d fun n => StaysInside.defined n d start with
      ended | all
    · exact ended
    · have few := Nat.le_trans (StaysInside.most_le _ d start all) fresh
      rw [readdirBound, sectorSize, direntriesPerSector] at few
      omega

/-- The reader after some calls and some more. -/
theorem readdirCalls_add (m n : Nat) (d : DirectoryReader) :
    (readdirCalls u (m + n) d).2 = (readdirCalls u n (readdirCalls u m d).2).2 := by
  rw [readdirCalls, serve_add]
  rfl

/-- The reader after one call. -/
theorem readdirCalls_one (d : DirectoryReader) : (readdirCalls u 1 d).2 = (readdirCall u d).2 := rfl

/-- The records left of a block are returned by as many calls. -/
theorem readdirCalls_cursor (n : Nat) : ∀ d, Cursor d → d.cur + n = d.last →
    (readdirCalls u n d).2 = { d with cur := d.last } := by
  induction n with
  | zero =>
    intro d _ last
    rw [Nat.add_zero] at last
    cases d
    cases last
    rfl
  | succ n ih =>
    intro d cursor last
    have more : d.cur < d.last := by omega
    have run : (readdirCall u d).2 = d.advanced := by
      rcases readdirCall_cases (u := u) cursor with
        ⟨-, run⟩ | ⟨ends, -⟩ | ⟨ends, -⟩ | ⟨ends, -⟩
      · rw [run]
      · exact absurd ends (Nat.ne_of_lt more)
      · exact absurd ends (Nat.ne_of_lt more)
      · exact absurd ends (Nat.ne_of_lt more)
    have rest := ih d.advanced (cursor.advanced more) (by
      show d.cur + 1 + n = d.last
      omega)
    show (readdirCalls u n (readdirCall u d).2).2 = _
    rw [run, rest]
    rfl

/-- Between two blocks of a directory. -/
structure AtBlock (inode : Inode) (k : Nat) (d : DirectoryReader) : Prop where
  /-- The cursor is inside the block. -/
  cursor : Cursor d
  /-- All records of the block are returned. -/
  done : d.cur = d.last
  /-- Block `k` is the next one. -/
  next : d.fv6.offset = 512 * k
  /-- The inode is the one opened. -/
  same : d.fv6.iNode = inode

/-- The call that reads the next block. -/
theorem AtBlock.call {d : DirectoryReader} {k : Nat} (block : AtBlock inode k d)
    (more : 512 * k < inodeGetsize inode) (readable : Readable u inode) :
    ∃ bytes, (readdirCall u d).2 =
      (d.filled (min 512 (inodeGetsize inode - 512 * k)) bytes).advanced := by
  obtain ⟨cursor, done, next, same⟩ := block
  rcases readdirCall_cases (u := u) cursor with
    ⟨more', -⟩ | ⟨-, ends, -⟩ | ⟨-, -, code, -, dirs, failed, -⟩ |
    ⟨-, -, n, bytes, amount, -, -, run⟩
  · omega
  · rw [same] at ends
    omega
  · have inside : d.fv6.offset / 512 < sectorCount inode := by
      rw [sectorCount]
      omega
    obtain ⟨sector, read⟩ := readable _ inside
    rw [same, read] at failed
    cases failed
  · rw [same, next] at amount
    rw [run, amount]
    exact ⟨bytes, rfl⟩

/-- A whole block is enumerated by 32 calls. -/
theorem AtBlock.run {d : DirectoryReader} {k : Nat} (block : AtBlock inode k d)
    (whole : 512 * (k + 1) ≤ inodeGetsize inode) (readable : Readable u inode) :
    AtBlock inode (k + 1) (readdirCalls u 32 d).2 := by
  obtain ⟨bytes, first⟩ := block.call (by omega) readable
  have amount : min 512 (inodeGetsize inode - 512 * k) = 512 := by omega
  rw [amount] at first
  have cursor : Cursor (d.filled 512 bytes).advanced := by
    apply block.cursor.filled bytes _ (by decide)
    rw [block.same, block.next, amount]
  have rest := readdirCalls_cursor (u := u) 31 _ cursor rfl
  have parts := readdirCalls_add (u := u) 1 31 d
  rw [readdirCalls_one, first, rest] at parts
  rw [parts]
  constructor
  case cursor => exact ⟨le_rfl, cursor.high, cursor.place⟩
  case done => rfl
  case next =>
    show d.fv6.offset + 512 = 512 * (k + 1)
    rw [block.next]
    rfl
  case same => exact block.same

/-- The whole blocks of a directory are enumerated one after another. -/
theorem AtBlock.runs {d : DirectoryReader} (start : AtBlock inode 0 d)
    (readable : Readable u inode) (k : Nat) (whole : 512 * k ≤ inodeGetsize inode) :
    AtBlock inode k (readdirCalls u (32 * k) d).2 := by
  induction k with
  | zero => exact start
  | succ k ih =>
    have next := (ih (by omega)).run whole readable
    rw [Nat.mul_succ, readdirCalls_add]
    exact next

/-- When the last block has no whole record and comes to be read, the cursor passes its records. -/
theorem PartRecord.unsafe_calls {d : DirectoryReader} (part : PartRecord u inode)
    (start : AtBlock inode 0 d) : ¬SafeCalls u d := by
  obtain ⟨some, few, readable⟩ := part
  have last := start.runs readable (inodeGetsize inode / 512) (by omega)
  obtain ⟨bytes, run⟩ := last.call (u := u) (by omega) readable
  have amount : min 512 (inodeGetsize inode - 512 * (inodeGetsize inode / 512)) / 16 = 0 := by
    omega
  intro safe
  have low := (safe.cursor (32 * (inodeGetsize inode / 512) + 1)).1
  -- the cursor is 1, and the block has no record
  rw [readdirCalls_add, readdirCalls_one, run] at low
  have behind : 0 + 1 ≤ min 512 (inodeGetsize inode - 512 * (inodeGetsize inode / 512)) / 16 := low
  omega

end Safe

/-- The calls of `direntv6_readdir` on a directory just opened are safe exactly when its last block
has a whole record or does not come to be read. -/
theorem readdirCalls_safe_iff {u : UnixFilesystem} {inr : UInt16} {dirs : Sector}
    {d : DirectoryReader} (opened : direntv6Opendir u inr dirs = .ok d) :
    SafeCalls u d ↔ ¬PartRecord u d.fv6.iNode := by
  obtain ⟨-, -, is⟩ := direntv6Opendir_ok opened
  have cursor : Cursor d := by
    rw [is]
    exact ⟨le_rfl, Nat.zero_le _, Nat.zero_le _, .inl rfl⟩
  constructor
  · intro safe part
    have start : AtBlock d.fv6.iNode 0 d := ⟨cursor, by rw [is], by rw [is], rfl⟩
    exact part.unsafe_calls start safe
  · intro whole
    have start : StaysInside u d.fv6.iNode d := by
      refine ⟨cursor, rfl, fun some few => ?_⟩
      by_contra none
      apply whole
      refine ⟨some, few, fun k inside => ?_⟩
      by_contra fails
      apply none
      exact ⟨k, inside, by rw [is]; exact Nat.zero_le _, fun sector read => fails ⟨sector, read⟩⟩
    apply start.safe
    have fresh : d.cur = 0 ∧ d.last = 0 ∧ d.fv6.offset = 0 := by
      rw [is]
      exact ⟨rfl, rfl, rfl⟩
    rw [DirectoryReader.most]
    omega

/-- On such a directory the loop of `direntv6_dirlookup_core` ends too. -/
theorem SafeCalls.lookupScan_ends {u : UnixFilesystem} {d : DirectoryReader}
    (safe : SafeCalls u d) (name : List UInt8) :
    ∃ result, lookupScan u name (readdirBound d) d = some result := by
  obtain ⟨entries, code, run⟩ := safe.loop
  exact ⟨_, lookupScan_eq name _ d entries code run⟩

/-- A directory of half a record. -/
def halfDirectory : Inode := fileInode 0x4000 8 (oneAddress 4)

/-- A volume with this root. -/
def halfVolume : Disk := volume 2 6 [(1, halfDirectory)] [zeroSector, zeroSector, zeroSector]

/-- The reader of a directory just opened. -/
def openedReader (inode : Inode) : DirectoryReader where
  fv6 := ⟨1, inode, 0⟩
  dirs := zeroSector
  cur := 0
  last := 0

@[simp] theorem openedReader_iNode (inode : Inode) : (openedReader inode).fv6.iNode = inode := rfl

/-- A root that is opened is enumerated from its start. -/
theorem direntv6Opendir_root {u : UnixFilesystem} {inode : Inode}
    (opened : (filev6Open u 1).toOption = some ⟨1, inode, 0⟩)
    (directory : inode.isDirectory = true) :
    direntv6Opendir u 1 zeroSector = .ok (openedReader inode) := by
  rw [direntv6Opendir, eq_ok_of_toOption opened]
  simp only [directory, Bool.not_true, Bool.false_eq_true, if_false]
  rfl

set_option maxRecDepth 10000 in
/-- The first call returns a record of a block that has none. -/
theorem readdirCalls_safe_half :
    ∃ u, mountv6 halfVolume = .ok u ∧
      direntv6Opendir u 1 zeroSector = .ok (openedReader halfDirectory) ∧
      ¬SafeCalls u (openedReader halfDirectory) := by
  obtain ⟨u, mounted, opened, cur, last⟩ := mountv6_check (f := halfVolume)
    (P := fun u => (filev6Open u 1).toOption = some ⟨1, halfDirectory, 0⟩ ∧
      (readdirCalls u 1 (openedReader halfDirectory)).2.cur = 1 ∧
      (readdirCalls u 1 (openedReader halfDirectory)).2.last = 0) (by decide +kernel)
  refine ⟨u, mounted, direntv6Opendir_root opened (by decide), fun safe => ?_⟩
  have low := (safe.cursor 1).1
  rw [cur, last] at low
  contradiction

set_option maxRecDepth 10000 in
/-- A root of one record is opened and can be read. -/
theorem singleVolume_opened :
    ∃ u, mountv6 singleVolume = .ok u ∧
      direntv6Opendir u 1 zeroSector = .ok (openedReader singleDirectory) ∧
      Readable u singleDirectory := by
  obtain ⟨u, mounted, opened, readable⟩ := mountv6_check (f := singleVolume)
    (P := fun u => (filev6Open u 1).toOption = some ⟨1, singleDirectory, 0⟩ ∧
      Readable u singleDirectory) (by decide +kernel)
  exact ⟨u, mounted, direntv6Opendir_root opened (by decide), readable⟩

/-- The calls on a root of one record are safe. -/
theorem readdirCalls_safe_single :
    ∃ u, mountv6 singleVolume = .ok u ∧ SafeCalls u (openedReader singleDirectory) := by
  obtain ⟨u, mounted, opened, -⟩ := singleVolume_opened
  refine ⟨u, mounted, (readdirCalls_safe_iff opened).mpr ?_⟩
  rw [openedReader_iNode]
  rintro ⟨-, few, -⟩
  rw [singleDirectory_size] at few
  exact absurd few (by decide)

/-- They return that record and then nothing. -/
theorem readdirCalls_records_single :
    ∃ u, mountv6 singleVolume = .ok u ∧
      ∃ content, HasBytes u singleDirectory content 0 (inodeGetsize singleDirectory) ∧
        (records content).length = inodeGetsize singleDirectory / 16 ∧
        (∀ record ∈ records content, record.pair.2.length ≤ 14 ∧ 0 ∉ record.pair.2) ∧
        ∀ n, (readdirCalls u n (openedReader singleDirectory)).1 =
          ((records content).take n).map (fun record => some (1, some record.pair)) ++
            List.replicate (n - inodeGetsize singleDirectory / 16) (some (0, none)) := by
  obtain ⟨u, mounted, opened, readable⟩ := singleVolume_opened
  have records := readdirCalls_records opened
  rw [openedReader_iNode, singleDirectory_size] at records
  rw [singleDirectory_size]
  exact ⟨u, mounted, records rfl readable⟩

end U6fs
