import U6fs.Verif.Findsector
import U6fs.Verif.Listing

/-!
# Directories as the format stores them

The records of a directory are those of its content, sector by sector as its block map has them. The
code reads the sectors that `inode_findsector` gives instead. A search for a name goes through the
sectors up to the first one that cannot be read, or that has a record of the name; it is right when
each of these sectors is found where the format has it.
-/
namespace U6fs

open Lib

/-- The bytes of the first blocks of a file. -/
def blockPieces (block : Nat → Except Int Sector) (count : Nat) :
    List (Except Int (List UInt8)) :=
  (List.range' 0 count).map fun i => (block i).map Block.bytes

/-- What can be read of `size` bytes in blocks, and the code that stops it. -/
def blockContent (block : Nat → Except Int Sector) (size : Nat) : List UInt8 × Int :=
  ((gather (blockPieces block ((size + 511) / 512))).1.take size,
    (gather (blockPieces block ((size + 511) / 512))).2.getD errNone)

/-- Block `k` of a file, in the sector where the format has it, or the code of the error. -/
def storedBlock (u : UnixFilesystem) (inode : Inode) (k : Nat) : Except Int Sector :=
  match lookupSector u inode k with
  | .error code => .error code
  | .ok x => sectorRead u.f x

/-- What can be read of a file as the format stores it, and the code that stops it; without one, it
is `Disk.contents`. -/
def storedContent (u : UnixFilesystem) (inode : Inode) : List UInt8 × Int :=
  blockContent (storedBlock u inode) (inodeGetsize inode)

/-- The first record of a content with a name, or the code of a search without one. -/
def searchContent (name : List UInt8) (content : List UInt8 × Int) : Except Int UInt16 :=
  match findName name ((records content.1).map Direntv6.pair) with
  | some childInr => .ok childInr
  | none => .error (if content.2 = errNone then errNoSuchFile else content.2)

/-- A search for a name comes to block `k`: the blocks before can be read, and none of their records
has the name. -/
structure SearchComesTo (block : Nat → Except Int Sector) (name : List UInt8) (k : Nat) : Prop where
  /-- No block before fails. -/
  read : (gather (blockPieces block k)).2 = none
  /-- No record before has the name. -/
  missing : findName name ((records (gather (blockPieces block k)).1).map Direntv6.pair) = none

section Blocks

variable {block block' : Nat → Except Int Sector}

/-- One more block. -/
theorem blockPieces_succ (block : Nat → Except Int Sector) (n : Nat) :
    blockPieces block (n + 1) = blockPieces block n ++ [(block n).map Block.bytes] := by
  rw [blockPieces, List.range'_1_concat, List.map_append, Nat.zero_add]
  rfl

/-- The blocks before one, and the others. -/
theorem blockPieces_split (block : Nat → Except Int Sector) {n count : Nat} (inside : n ≤ count) :
    ∃ rest, blockPieces block count = blockPieces block n ++ rest := by
  obtain ⟨more, rfl⟩ := Nat.exists_eq_add_of_le inside
  rw [blockPieces, ← List.range'_append_1, List.map_append]
  exact ⟨_, rfl⟩

/-- A block has 512 bytes. -/
theorem blockPieces_length (block : Nat → Except Int Sector) (n : Nat) :
    (gather (blockPieces block n)).1.length ≤ 512 * n ∧
      ((gather (blockPieces block n)).2 = none →
        (gather (blockPieces block n)).1.length = 512 * n) := by
  have sized : ∀ piece, .ok piece ∈ blockPieces block n → piece.length = 512 := by
    intro piece mem
    obtain ⟨i, -, is⟩ := List.mem_map.mp mem
    cases read : block i with
    | error code =>
      rw [read] at is
      cases is
    | ok sector =>
      rw [read] at is
      cases is
      exact sector.sized
  have length := gather_length sized
  rwa [blockPieces, List.length_map, List.length_range', ← blockPieces] at length

/-- A search that does not come to a block is decided by the blocks before. -/
theorem searchContent_before {name : List UInt8} {size k : Nat} (inside : 512 * k < size)
    (settled : ¬SearchComesTo block name k) :
    searchContent name (blockContent block size) =
      searchContent name ((gather (blockPieces block k)).1,
        (gather (blockPieces block k)).2.getD errNone) := by
  obtain ⟨most, length⟩ := blockPieces_length block k
  obtain ⟨rest, parts⟩ := blockPieces_split block (by omega : k ≤ (size + 511) / 512)
  rw [blockContent, parts, gather_append]
  cases failed : (gather (blockPieces block k)).2 with
  | some code =>
    simp only [failed]
    rw [List.take_of_length_le (by omega)]
  | none =>
    have found : findName name
        ((records (gather (blockPieces block k)).1).map Direntv6.pair) ≠ none :=
      fun missing => settled ⟨failed, missing⟩
    obtain ⟨child, found⟩ := Option.ne_none_iff_exists'.mp found
    have whole := length failed
    rw [List.take_append, List.take_of_length_le (by omega), searchContent, searchContent,
      records_append _ (by omega), List.map_append, found, findName_append found]

/-- Two searches agree when the blocks that one of them comes to are the same. -/
theorem searchContent_congr {name : List UInt8} {size : Nat}
    (same : ∀ k < (size + 511) / 512, SearchComesTo block' name k → block k = block' k) :
    searchContent name (blockContent block size) =
      searchContent name (blockContent block' size) := by
  -- either all blocks up to one are the same, or the search is decided before it
  have upTo : ∀ n ≤ (size + 511) / 512, blockPieces block n = blockPieces block' n ∨
      searchContent name (blockContent block size) =
        searchContent name (blockContent block' size) := by
    intro n inside
    induction n with
    | zero => exact .inl rfl
    | succ n ih =>
      rcases ih (Nat.le_of_succ_le inside) with pieces | done
      · by_cases comes : SearchComesTo block' name n
        · left
          rw [blockPieces_succ, blockPieces_succ, pieces, same n inside comes]
        · right
          have stays : ¬SearchComesTo block name n := by
            rintro ⟨read, missing⟩
            rw [pieces] at read missing
            exact comes ⟨read, missing⟩
          rw [searchContent_before (by omega) comes, searchContent_before (by omega) stays, pieces]
      · exact .inr done
  rcases upTo _ le_rfl with pieces | done
  · rw [blockContent, blockContent, pieces]
  · exact done

end Blocks

section Stored

variable {u : UnixFilesystem} {inode : Inode}

/-- The lookup in the format fails with a negative code. -/
theorem lookupSector_error {k : Int} {code : Int} (failed : lookupSector u inode k = .error code) :
    code < 0 := by
  rw [lookupSector] at failed
  split at failed
  · cases failed
    decide
  · split at failed
    · cases failed
    · split at failed
      · rw [readEntry_error failed]
        decide
      · cases failed
        decide

/-- A sector that the lookup gives is that of the block map. -/
theorem mapped_of_lookup {k x : Nat} (found : lookupSector u inode k = .ok x) :
    u.f.mapped inode (.data k) = some x := by
  rw [lookupSector] at found
  split at found
  · cases found
  · rename_i inside
    split at found
    · rename_i few
      cases found
      rw [mapped_direct u.f few (by omega), Int.toNat_natCast]
    · rename_i many
      split at found
      · rw [mapped_entry u.f (by omega) (by omega)]
        rw [Int.toNat_natCast, readEntry] at found
        cases read : sectorRead u.f (inode.iAddr.toList.getD (k / 256) 0).toNat with
        | error code =>
          rw [read] at found
          cases found
        | ok sector =>
          rw [read] at found
          cases found
          exact entry_eq_some (by omega) (sectorRead_ok read)
      · cases found

/-- A block that is stored has the bytes of the content there. -/
theorem storedBlock_ok {k : Nat} {sector : Sector} (read : storedBlock u inode k = .ok sector) :
    u.f.contentSector inode k = sector.bytes := by
  rw [storedBlock] at read
  split at read
  · cases read
  · rename_i x found
    rw [Disk.contentSector, mapped_of_lookup found]
    simp only [sectorRead_ok read, Option.map_some, Option.getD_some]

/-- A block that is not read leaves a negative code. -/
theorem storedBlock_error {k : Nat} {code : Int} (failed : storedBlock u inode k = .error code) :
    code < 0 := by
  rw [storedBlock] at failed
  split at failed
  · rename_i missing
    cases failed
    exact lookupSector_error missing
  · rw [sectorRead_error failed]
    decide

/-- What can be read of a file in its own sectors is the content of the file, when all of them can
be read. -/
theorem storedContent_contents
    (readable : ∀ k < sectorCount inode, ∃ sector, storedBlock u inode k = .ok sector) :
    storedContent u inode = (u.f.contents inode, errNone) := by
  have pieces : blockPieces (storedBlock u inode) (sectorCount inode) =
      ((List.range (sectorCount inode)).map (u.f.contentSector inode)).map .ok := by
    rw [blockPieces, List.map_map, List.range_eq_range']
    apply List.map_congr_left
    intro k mem
    have bounds := List.mem_range'_1.mp mem
    obtain ⟨sector, read⟩ := readable k (by omega)
    rw [Function.comp_apply, read, storedBlock_ok read]
    rfl
  rw [storedContent, blockContent, ← sectorCount, pieces, gather_ok, Disk.contents,
    List.flatMap_def]
  rfl

/-- A sector that is found where the format has it is read from there. -/
theorem fileBlock_eq_stored (used : inode.isAllocated = true) {k : Nat}
    (inside : k < sectorCount inode) (follows : FindsAsFormat u inode k) :
    fileBlock u inode k = storedBlock u inode k := by
  have found := (inodeFindsector_inside_iff used inside).mpr follows
  rw [fileBlock, storedBlock, found]
  cases lookup : lookupSector u inode k with
  | error code => exact if_pos (lookupSector_error lookup)
  | ok x =>
    rw [intResult, if_neg (by omega), Int.toNat_natCast]

/-- A search has the right result when each sector that it comes to is found where the format has
it. -/
theorem searchContent_eq_stored (used : inode.isAllocated = true) {name : List UInt8}
    (follows : ∀ k < sectorCount inode, SearchComesTo (storedBlock u inode) name k →
      FindsAsFormat u inode k) :
    searchContent name (fileContent u inode) = searchContent name (storedContent u inode) :=
  searchContent_congr fun k inside comes =>
    fileBlock_eq_stored used inside (follows k inside comes)

/-- A file is read as it is stored when all its sectors are found where the format has them. -/
theorem fileContent_eq_stored (used : inode.isAllocated = true)
    (follows : ∀ k < sectorCount inode, FindsAsFormat u inode k) :
    fileContent u inode = storedContent u inode := by
  have pieces : filePieces u inode 0 (sectorCount inode) =
      blockPieces (storedBlock u inode) (sectorCount inode) := by
    apply List.map_congr_left
    intro k mem
    have bounds := List.mem_range'_1.mp mem
    rw [fileBlock_eq_stored used (by omega) (follows k (by omega))]
  rw [fileContent, pieces]
  rfl

/-- What can be read of a file in its own sectors is the start of its content. -/
theorem storedContent_prefix : (storedContent u inode).1 <+: u.f.contents inode := by
  have start : ∀ count k, (gather ((List.range' k count).map fun i =>
      (storedBlock u inode i).map Block.bytes)).1 <+:
        (List.range' k count).flatMap (u.f.contentSector inode) := by
    intro count
    induction count with
    | zero => exact fun _ => List.prefix_rfl
    | succ count ih =>
      intro k
      rw [List.range'_succ, List.map_cons, List.flatMap_cons]
      cases read : storedBlock u inode k with
      | error code => exact List.nil_prefix
      | ok sector =>
        rw [storedBlock_ok read]
        exact (List.prefix_append_right_inj _).mpr (ih (k + 1))
  obtain ⟨rest, whole⟩ := start (sectorCount inode) 0
  rw [Disk.contents, List.range_eq_range', ← whole, List.take_append]
  exact List.prefix_append _ _

/-- The code that stops the reading of blocks is not positive when their codes are negative. -/
theorem blockContent_code {block : Nat → Except Int Sector}
    (negative : ∀ k code, block k = .error code → code < 0) (size : Nat) :
    (blockContent block size).2 ≤ 0 := by
  rw [blockContent]
  cases failed : (gather (blockPieces block ((size + 511) / 512))).2 with
  | none => exact le_rfl
  | some code =>
    obtain ⟨k, -, is⟩ := List.mem_map.mp (gather_error failed)
    cases read : block k with
    | error other =>
      rw [read] at is
      cases is
      exact (negative k code read).le
    | ok sector =>
      rw [read] at is
      cases is

/-- A search without a record ends with a negative code. -/
theorem searchContent_error {name : List UInt8} {content : List UInt8 × Int} {code : Int}
    (negative : content.2 ≤ 0) (failed : searchContent name content = .error code) : code < 0 := by
  rw [searchContent] at failed
  split at failed
  · cases failed
  · cases failed
    split
    · decide
    · rename_i stopped
      exact lt_of_le_of_ne negative stopped

end Stored

end U6fs
