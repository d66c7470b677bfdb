import U6fs.Lib.Gather
import U6fs.Spec.Observe
import U6fs.Verif.Creation

/-!
# Reading files and directories

What the loops of a caller see, without the loops: the bytes of a file are its blocks up to the
first one that is not found or cannot be read, cut at its size; the entries of a directory are the
records of these bytes, and a lookup is a search in that list. What is read depends on the sectors
of the block map only, and bytes appended to a file appear behind what was read before.
-/
namespace U6fs

open Lib

/-- Block `k` of a file as `filev6_readblock` reads it, or the code that it returns. -/
def fileBlock (u : UnixFilesystem) (inode : Inode) (k : Nat) : Except Int Sector :=
  if inodeFindsector u inode k < 0 then .error (inodeFindsector u inode k)
  else sectorRead u.f (inodeFindsector u inode k).toNat

/-- The bytes of the blocks of a file from block `k` on. -/
def filePieces (u : UnixFilesystem) (inode : Inode) (k count : Nat) :
    List (Except Int (List UInt8)) :=
  (List.range' k count).map fun i => (fileBlock u inode i).map Block.bytes

/-- What a caller reads of a file, and the code that stops it. -/
def fileContent (u : UnixFilesystem) (inode : Inode) : List UInt8 × Int :=
  ((gather (filePieces u inode 0 (sectorCount inode))).1.take (inodeGetsize inode),
    (gather (filePieces u inode 0 (sectorCount inode))).2.getD errNone)

section Blocks

variable (u : UnixFilesystem) (inode : Inode)

/-- A block that is not read leaves a negative code. -/
theorem fileBlock_error {k : Nat} {code : Int} (failed : fileBlock u inode k = .error code) :
    code < 0 := by
  rw [fileBlock] at failed
  split at failed
  · rename_i negative
    cases failed
    exact negative
  · rw [sectorRead_error failed]
    decide

/-- A block that is read is the sector found for it. -/
theorem fileBlock_ok {k : Nat} {sector : Sector} (read : fileBlock u inode k = .ok sector) :
    ∃ x : Nat, inodeFindsector u inode k = x ∧ u.f.sectors[x]? = some sector := by
  rw [fileBlock] at read
  split at read
  · cases read
  · rename_i found
    exact ⟨_, (Int.toNat_of_nonneg (Int.not_lt.mp found)).symm, sectorRead_ok read⟩

/-- On a working machine a sector of the disk file that is found is read. -/
theorem fileBlock_of_found {u : UnixFilesystem} {inode : Inode} (works : u.f.host.Faultless)
    {k x : Nat} {sector : Sector} (found : inodeFindsector u inode k = x)
    (there : u.f.sectors[x]? = some sector) : fileBlock u inode k = .ok sector := by
  rw [fileBlock, found, if_neg (by omega), Int.toNat_natCast, sectorRead_faultless works, there]

/-- No piece. -/
theorem filePieces_zero (k : Nat) : filePieces u inode k 0 = [] := rfl

/-- The first piece, and the others. -/
theorem filePieces_succ (k count : Nat) :
    filePieces u inode k (count + 1) =
      (fileBlock u inode k).map Block.bytes :: filePieces u inode (k + 1) count := by
  rw [filePieces, List.range'_succ, List.map_cons, filePieces]

/-- `filev6_readblock` before the end of a file, at the start of a block. -/
theorem filev6Readblock_block (inr : UInt16) {k : Nat} (inside : 512 * k < inodeGetsize inode) :
    filev6Readblock u { iNumber := inr, iNode := inode, offset := 512 * k } =
      match fileBlock u inode k with
      | .error code => (code, { iNumber := inr, iNode := inode, offset := 512 * k }, [])
      | .ok sector =>
        ((min 512 (inodeGetsize inode - 512 * k) : Nat),
          { iNumber := inr, iNode := inode, offset := min (512 * (k + 1)) (inodeGetsize inode) },
          sector.bytes.take (inodeGetsize inode - 512 * k)) := by
  have place : 512 * k / sectorSize = k := Nat.mul_div_cancel_left k (by decide)
  rw [filev6Readblock, fileBlock]
  simp only [place]
  rw [if_neg (by omega)]
  split
  · rfl
  · cases sectorRead u.f (inodeFindsector u inode k).toNat with
    | error code => rfl
    | ok sector =>
      have length : sector.bytes.length = 512 := sector.sized
      by_cases last : inodeGetsize inode - 512 * k ≤ sectorSize
      · simp only [if_pos last]
        rw [Nat.min_eq_right last, Nat.min_eq_right (by rw [sectorSize] at last; omega)]
      · simp only [if_neg last]
        rw [sectorSize] at last
        rw [Nat.min_eq_left (by omega), Nat.min_eq_left (by omega),
          List.take_of_length_le (by omega), Nat.mul_add, Nat.mul_one]

/-- `filev6_readblock` at the end of a file. -/
theorem filev6Readblock_end (inr : UInt16) :
    filev6Readblock u { iNumber := inr, iNode := inode, offset := inodeGetsize inode } =
      (0, { iNumber := inr, iNode := inode, offset := inodeGetsize inode }, []) := by
  rw [filev6Readblock]
  exact if_pos rfl

/-- The loop of a caller reads the blocks from the one at the offset on. -/
theorem readBlocks_spec (inr : UInt16) (count : Nat) :
    ∀ fuel k, k + count = sectorCount inode → count < fuel →
      readBlocks u fuel
          { iNumber := inr, iNode := inode, offset := min (512 * k) (inodeGetsize inode) } =
        some ((gather (filePieces u inode k count)).1.take (inodeGetsize inode - 512 * k),
          (gather (filePieces u inode k count)).2.getD errNone) := by
  induction count with
  | zero =>
    intro fuel k last enough
    obtain ⟨fuel, rfl⟩ := Nat.exists_eq_succ_of_ne_zero (Nat.ne_of_gt enough)
    rw [sectorCount] at last
    rw [Nat.min_eq_right (by omega), readBlocks, filev6Readblock_end]
    rw [filePieces_zero, gather, List.take_nil]
    exact if_pos (le_refl (0 : Int))
  | succ count ih =>
    intro fuel k inside enough
    obtain ⟨fuel, rfl⟩ := Nat.exists_eq_succ_of_ne_zero (Nat.ne_of_gt (Nat.zero_lt_of_lt enough))
    have next := ih fuel (k + 1) (by omega) (by omega)
    rw [sectorCount] at inside
    have more : 512 * k < inodeGetsize inode := by omega
    rw [Nat.min_eq_left more.le, readBlocks, filev6Readblock_block u inode inr more,
      filePieces_succ]
    cases read : fileBlock u inode k with
    | error code =>
      have negative := fileBlock_error u inode read
      rw [Except.map, gather, List.take_nil, Option.getD_some]
      exact if_pos negative.le
    | ok sector =>
      have length : sector.bytes.length = 512 := sector.sized
      have left : inodeGetsize inode - 512 * (k + 1) = inodeGetsize inode - 512 * k - 512 := by
        omega
      rw [Except.map, gather, List.take_append, length, ← left]
      show (if _ then _ else _) = _
      rw [if_neg (by omega), next]
      rfl

/-- A caller reads the content of an allocated file. -/
theorem readFile_of_allocated {u : UnixFilesystem} (works : u.f.host.Faultless) {inr : UInt16}
    {inode : Inode} (allocated : u.f.Allocated u.s inr.toNat inode) :
    readFile u inr = some (fileContent u inode) := by
  have count := sectorCount_eq inode
  have enough : sectorCount inode < inodeGetsize inode / sectorSize + 2 := by
    rw [count, sectorSize]
    split <;> omega
  have read := readBlocks_spec u inode inr (sectorCount inode) _ 0 (Nat.zero_add _) enough
  rw [Nat.mul_zero, Nat.zero_min, Nat.sub_zero] at read
  rw [readFile, filev6Open_of_allocated works allocated]
  exact read

/-- The pieces of consecutive runs of blocks. -/
theorem filePieces_add (k m n : Nat) :
    filePieces u inode k (m + n) = filePieces u inode k m ++ filePieces u inode (k + m) n := by
  rw [filePieces, ← List.range'_append_1, List.map_append]
  rfl

/-- The blocks of a file are those of another one. -/
theorem filePieces_congr {u u' : UnixFilesystem} {inode inode' : Inode} {k count : Nat}
    (same : ∀ i, k ≤ i → i < k + count → fileBlock u' inode' i = fileBlock u inode i) :
    filePieces u' inode' k count = filePieces u inode k count := by
  apply List.map_congr_left
  intro i mem
  obtain ⟨low, high⟩ := List.mem_range'_1.mp mem
  rw [same i low high]

/-- A failing piece is a failing block. -/
theorem filePieces_error {k count : Nat} {code : Int}
    (mem : .error code ∈ filePieces u inode k count) : code < 0 := by
  obtain ⟨i, -, is⟩ := List.mem_map.mp mem
  cases read : fileBlock u inode i with
  | error other =>
    rw [read] at is
    cases is
    exact fileBlock_error u inode read
  | ok sector =>
    rw [read] at is
    cases is

/-- A piece is a whole sector. -/
theorem filePieces_sized {k count : Nat} (piece : List UInt8)
    (mem : .ok piece ∈ filePieces u inode k count) : piece.length = 512 := by
  obtain ⟨i, -, is⟩ := List.mem_map.mp mem
  cases read : fileBlock u inode i with
  | error other =>
    rw [read] at is
    cases is
  | ok sector =>
    rw [read] at is
    cases is
    exact sector.sized

/-- No block of a file that is read to its end fails. -/
theorem filePieces_whole (whole : (fileContent u inode).2 = errNone) :
    (gather (filePieces u inode 0 (sectorCount inode))).2 = none := by
  cases failed : (gather (filePieces u inode 0 (sectorCount inode))).2 with
  | none => rfl
  | some code =>
    have negative := filePieces_error u inode (gather_error failed)
    simp only [fileContent, failed, Option.getD_some] at whole
    rw [whole] at negative
    exact absurd negative (by decide)

/-- A file that is read to its end has as many bytes as its size says. -/
theorem fileContent_length (whole : (fileContent u inode).2 = errNone) :
    (fileContent u inode).1.length = inodeGetsize inode := by
  have none := filePieces_whole u inode whole
  have length := (gather_length (filePieces_sized u inode)).2 none
  rw [filePieces, List.length_map, List.length_range', sectorCount] at length
  simp only [fileContent, List.length_take]
  rw [filePieces, sectorCount, length]
  omega

/-- The blocks from one block on are the rest of a file that is read to its end. -/
theorem fileContent_drop (whole : (fileContent u inode).2 = errNone) {k count : Nat}
    (inside : k + count = sectorCount inode) :
    (gather (filePieces u inode k count)).2 = none ∧
      (fileContent u inode).1.drop (512 * k) =
        (gather (filePieces u inode k count)).1.take (inodeGetsize inode - 512 * k) := by
  have none := filePieces_whole u inode whole
  rw [fileContent, ← inside, filePieces_add, Nat.zero_add, gather_append]
  rw [← inside, filePieces_add, Nat.zero_add, gather_append] at none
  cases failed : (gather (filePieces u inode 0 k)).2 with
  | some code =>
    simp only [failed] at none
    cases none
  | none =>
    have length := (gather_length (filePieces_sized u inode)).2 failed
    rw [filePieces, List.length_map, List.length_range', ← filePieces] at length
    simp only [failed] at none
    refine ⟨none, ?_⟩
    simp only [List.drop_take, ← length, List.drop_left]

/-- All the sectors of a file are found and can be read. -/
def Readable : Prop := ∀ k < sectorCount inode, ∃ sector, fileBlock u inode k = .ok sector

instance : Decidable (Readable u inode) :=
  decidable_of_iff (∀ k < sectorCount inode, (fileBlock u inode k).toOption.isSome = true) (by
    apply forall₂_congr
    intro k _
    cases fileBlock u inode k with
    | error code => simp [Except.toOption]
    | ok sector => simp [Except.toOption])

/-- Such a file is read to its end. -/
theorem Readable.whole (readable : Readable u inode) : (fileContent u inode).2 = errNone := by
  have none : (gather (filePieces u inode 0 (sectorCount inode))).2 = none := by
    apply gather_whole
    intro code mem
    obtain ⟨k, inside, failed⟩ := List.mem_map.mp mem
    obtain ⟨-, high⟩ := List.mem_range'_1.mp inside
    obtain ⟨sector, read⟩ := readable k (by omega)
    rw [read] at failed
    cases failed
  rw [fileContent, none, Option.getD_none]

/-- Byte `i` of a file, in the sector that `inode_findsector` gives for it. -/
def fileByte (i : Nat) : Option UInt8 :=
  if inodeFindsector u inode (i / 512 : Nat) < 0 then none
  else u.f.sectors[(inodeFindsector u inode (i / 512 : Nat)).toNat]?.bind fun sector =>
    sector.bytes[i % 512]?

/-- The bytes of a block that is read. -/
theorem fileByte_of_block {k j : Nat} (inside : j < 512) {sector : Sector}
    (read : fileBlock u inode k = .ok sector) :
    fileByte u inode (512 * k + j) = sector.bytes[j]? := by
  have block : (512 * k + j) / 512 = k := by omega
  have place : (512 * k + j) % 512 = j := by omega
  obtain ⟨x, found, there⟩ := fileBlock_ok u inode read
  rw [fileByte, block, place, found, if_neg (by omega), Int.toNat_natCast, there, Option.bind_some]

/-- The content of a file that is read to its end, byte by byte. -/
theorem fileContent_getElem? (whole : (fileContent u inode).2 = errNone) {i : Nat}
    (inside : i < inodeGetsize inode) : (fileContent u inode).1[i]? = fileByte u inode i := by
  obtain ⟨rest, count⟩ : ∃ rest, i / 512 + (rest + 1) = sectorCount inode := by
    refine ⟨sectorCount inode - i / 512 - 1, ?_⟩
    rw [sectorCount]
    omega
  obtain ⟨none, content⟩ := fileContent_drop u inode whole count
  have split : i = 512 * (i / 512) + i % 512 := by omega
  rw [split, ← List.getElem?_drop, content, List.getElem?_take, if_pos (by omega)]
  rw [filePieces_succ] at none ⊢
  cases read : fileBlock u inode (i / 512) with
  | error code =>
    rw [read] at none
    cases none
  | ok sector =>
    have length : sector.bytes.length = 512 := sector.sized
    rw [fileByte_of_block u inode (Nat.mod_lt i (by decide)) read, Except.map, gather,
      List.getElem?_append_left (by omega)]

/-- The bytes of a file from an offset on. -/
def HasBytes (bytes : List UInt8) (offset count : Nat) : Prop :=
  bytes.length = count ∧ ∀ j < count, bytes[j]? = fileByte u inode (offset + j)

/-- A part of the bytes of a file. -/
theorem HasBytes.part {u : UnixFilesystem} {inode : Inode} {bytes : List UInt8}
    {offset count start width : Nat} (has : HasBytes u inode bytes offset count)
    (inside : start + width ≤ count) :
    HasBytes u inode (window bytes start width) (offset + start) width := by
  have length := has.1
  constructor
  · exact window_length (by omega)
  · intro j small
    rw [window_getElem?, if_pos small, has.2 (start + j) (by omega), Nat.add_assoc]

/-- Bytes in the same place of two files are the same when those of the files are. -/
theorem HasBytes.unique {u u' : UnixFilesystem} {inode inode' : Inode} {bytes bytes' : List UInt8}
    {offset count : Nat} (here : HasBytes u inode bytes offset count)
    (there : HasBytes u' inode' bytes' offset count)
    (same : ∀ i, offset ≤ i → i < offset + count → fileByte u' inode' i = fileByte u inode i) :
    bytes' = bytes := by
  apply List.ext_getElem?
  intro j
  by_cases small : j < count
  · rw [here.2 j small, there.2 j small]
    exact same _ (Nat.le_add_right _ _) (by omega)
  · have outside := here.1
    have outside' := there.1
    rw [List.getElem?_eq_none (by omega), List.getElem?_eq_none (by omega)]

end Blocks

section Contents

variable {u u' : UnixFilesystem} (works : u.f.host.Faultless) (works' : u'.f.host.Faultless)
  {inode inode' : Inode}

include works works'

/-- A block is read as before when it is found in the same place and the sector is as before. -/
theorem fileBlock_congr {k : Nat}
    (found : inodeFindsector u' inode' k = inodeFindsector u inode k)
    (same : ∀ x : Nat, inodeFindsector u inode k = x → u'.f.sectors[x]? = u.f.sectors[x]?) :
    fileBlock u' inode' k = fileBlock u inode k := by
  rw [fileBlock, fileBlock, found]
  split
  · rfl
  · rename_i positive
    have sector := same _ (Int.toNat_of_nonneg (Int.not_lt.mp positive)).symm
    rw [sectorRead_faultless works, sectorRead_faultless works', sector]

/-- The content of a file is as before when the sectors of its block map are, unless it has exactly
4096 bytes. -/
theorem fileContent_kept (used : inode.isAllocated = true) (other : inodeGetsize inode ≠ 4096)
    (same : ∀ x, u.f.Uses inode x → u'.f.sectors[x]? = u.f.sectors[x]?) :
    fileContent u' inode = fileContent u inode := by
  have count := sectorCount_eq inode
  have blocks : filePieces u' inode 0 (sectorCount inode) =
      filePieces u inode 0 (sectorCount inode) := by
    apply filePieces_congr
    intro k _ inside
    rw [Nat.zero_add] at inside
    have place : k ≤ inodeGetsize inode / 512 := by
      split at count <;> omega
    apply fileBlock_congr works works'
    · apply inodeFindsector_same works works' used used place place
      · exact fun small => ⟨small, rfl⟩
      · intro big
        refine ⟨big, Iff.rfl, fun fits => ⟨rfl, ?_⟩⟩
        apply same
        refine ⟨.indirect (k / 256), mapped_indirect u.f ?_ ?_ ?_⟩
        · split at count <;> omega
        · split at count <;> omega
        · omega
    · intro x found
      exact same x ⟨.data k, mapped_of_found used other inside found⟩
  rw [fileContent, fileContent, blocks]

end Contents

/-- Bytes that end in the block where a file ends appear behind what was read of the file, if it was
read to its end. -/
theorem fileContent_appended {u u' : UnixFilesystem} {inode inode' : Inode} {bytes : List UInt8}
    {old new : Sector} (more : bytes ≠ [])
    (size : inodeGetsize inode' = inodeGetsize inode + bytes.length)
    (room : inodeGetsize inode % 512 + bytes.length ≤ 512)
    (before : ∀ k < inodeGetsize inode / 512, fileBlock u' inode' k = fileBlock u inode k)
    (was : inodeGetsize inode % 512 ≠ 0 → fileBlock u inode (inodeGetsize inode / 512) = .ok old)
    (is : fileBlock u' inode' (inodeGetsize inode / 512) = .ok new)
    (filled : new.bytes.take (inodeGetsize inode % 512 + bytes.length) =
      old.bytes.take (inodeGetsize inode % 512) ++ bytes) :
    fileContent u' inode' =
      if (fileContent u inode).2 = errNone then ((fileContent u inode).1 ++ bytes, errNone)
      else fileContent u inode := by
  have positive : 0 < bytes.length := List.length_pos_of_ne_nil more
  have count := sectorCount_eq inode
  have count' : sectorCount inode' = inodeGetsize inode / 512 + 1 := by
    rw [sectorCount, size]
    omega
  -- both files start with the whole sectors of the old one
  have whole : filePieces u' inode' 0 (sectorCount inode') =
      filePieces u inode 0 (inodeGetsize inode / 512) ++ [.ok new.bytes] := by
    rw [count', filePieces_add, Nat.zero_add, filePieces_succ, filePieces_zero, is]
    congr 1
    exact filePieces_congr fun k _ inside => before k (by omega)
  have part : filePieces u inode 0 (sectorCount inode) =
      filePieces u inode 0 (inodeGetsize inode / 512) ++
        if inodeGetsize inode % 512 = 0 then [] else [.ok old.bytes] := by
    rw [count]
    split
    · rw [Nat.add_zero, List.append_nil]
    · rename_i residual
      rw [filePieces_add, Nat.zero_add, filePieces_succ, filePieces_zero, was residual]
      rfl
  obtain ⟨most, length⟩ :=
    gather_length (@filePieces_sized u inode 0 (inodeGetsize inode / 512))
  rw [filePieces, List.length_map, List.length_range', ← filePieces] at most length
  rw [fileContent, fileContent, whole, part, gather_append, gather_append, size]
  cases failed : (gather (filePieces u inode 0 (inodeGetsize inode / 512))).2 with
  | some code =>
    have negative := filePieces_error u inode (gather_error failed)
    simp only [failed, Option.getD_some]
    rw [if_neg (by rintro rfl; exact absurd negative (by decide)),
      List.take_of_length_le (by omega), List.take_of_length_le (by omega)]
  | none =>
    have whole' := length failed
    have rest : inodeGetsize inode - 512 * (inodeGetsize inode / 512) =
        inodeGetsize inode % 512 := by
      omega
    have rest' : inodeGetsize inode + bytes.length - 512 * (inodeGetsize inode / 512) =
        inodeGetsize inode % 512 + bytes.length := by
      omega
    have grown : gather [(.ok new.bytes : Except Int (List UInt8))] = (new.bytes, none) := by
      rw [gather, gather, List.append_nil]
    simp only [grown, Option.getD_none]
    rw [List.take_append, List.take_of_length_le (by omega), whole', rest', filled,
      ← List.append_assoc]
    by_cases residual : inodeGetsize inode % 512 = 0
    · simp only [if_pos residual, gather, List.append_nil, Option.getD_none]
      rw [if_pos trivial, residual, List.take_zero, List.append_nil,
        List.take_of_length_le (by omega)]
    · have last : gather [(.ok old.bytes : Except Int (List UInt8))] = (old.bytes, none) := by
        rw [gather, gather, List.append_nil]
      have content : ((gather (filePieces u inode 0 (inodeGetsize inode / 512))).1 ++
          old.bytes).take (inodeGetsize inode) =
            (gather (filePieces u inode 0 (inodeGetsize inode / 512))).1 ++
              old.bytes.take (inodeGetsize inode % 512) := by
        rw [List.take_append, List.take_of_length_le (by omega), whole', rest]
      simp only [if_neg residual, last, Option.getD_none]
      rw [if_pos trivial, content]

end U6fs
