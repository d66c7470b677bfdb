import U6fs.Fuse
import U6fs.Verif.Streaming

/-!
# Reading a part of a file, and a file in chunks

One call of `fs_read` gives the part of the file that starts at its offset, as long as the buffer
is, or up to the end of the file. So calls that go on where the one before them stopped give the
content of the file, and the last of them no bytes. The offset is cut to 32 bits before it is
looked at, so behind 2 GiB a call may give a part of the file as well.
-/
namespace U6fs

open Lib

/-- As much is copied as the block has and the buffer takes. -/
theorem copiedSize_eq (size sizeCopied readblock : Nat) :
    copiedSize size sizeCopied readblock = min (size - sizeCopied) readblock := by
  rw [copiedSize]
  split <;> omega

section Loop

variable (u : UnixFilesystem) (inode : Inode)

/-- The loop copies the bytes from the block at the offset on, as many as there is room for. -/
theorem fsReadLoop_spec (inr : UInt16) {size : Nat} (count : Nat) :
    ∀ fuel k sector buf room, k + count = sectorCount inode → count < fuel →
      (gather (filePieces u inode k count)).2 = none → buf.length + room = size →
      ∃ copied, fsReadLoop u size fuel
          { iNumber := inr, iNode := inode, offset := min (512 * k) (inodeGetsize inode) }
          sector 0 buf = some (toInt32 (buf ++ copied).length, buf ++ copied) ∧
        copied = ((gather (filePieces u inode k count)).1.take
          (inodeGetsize inode - 512 * k)).take room := by
  induction count with
  | zero =>
    intro fuel k sector buf room last enough _ _
    obtain ⟨fuel, rfl⟩ := Nat.exists_eq_succ_of_ne_zero (Nat.ne_of_gt enough)
    rw [sectorCount] at last
    refine ⟨[], ?_, by rw [filePieces_zero, gather, List.take_nil, List.take_nil]⟩
    rw [Nat.min_eq_right (by omega), fsReadLoop, filev6Readblock_end, List.append_nil]
    simp
  | succ count ih =>
    intro fuel k sector buf room inside enough whole space
    obtain ⟨fuel, rfl⟩ := Nat.exists_eq_succ_of_ne_zero (Nat.ne_of_gt (Nat.zero_lt_of_lt enough))
    have here := inside
    rw [sectorCount] at here
    have more : 512 * k < inodeGetsize inode := by omega
    have block := filev6Readblock_block u inode inr more
    rw [filePieces_succ] at whole ⊢
    cases read : fileBlock u inode k with
    | error code =>
      rw [read, Except.map, gather] at whole
      cases whole
    | ok found =>
      have length : found.bytes.length = 512 := found.sized
      rw [read, Except.map, gather] at whole
      rw [read] at block
      rw [Nat.min_eq_left more.le, fsReadLoop, block, Except.map, gather]
      have positive : 0 < ((min 512 (inodeGetsize inode - 512 * k) : Nat) : Int) := by omega
      rcases Nat.eq_zero_or_pos room with rfl | free
      · refine ⟨[], ?_, by rw [List.take_zero]⟩
        simp only
        rw [if_neg (by omega), if_neg (by omega), List.append_nil]
      · -- the bytes of the block, of which the first ones are copied
        have bytes : (found.bytes.take (inodeGetsize inode - 512 * k)).length =
            min 512 (inodeGetsize inode - 512 * k) := by
          rw [List.length_take, length, Nat.min_comm]
        have fits : (found.bytes.take (inodeGetsize inode - 512 * k)).length ≤ sectorSize := by
          rw [bytes, sectorSize]
          omega
        have copy : window (sector.splice 0 (found.bytes.take (inodeGetsize inode - 512 * k))).bytes
            0 (min room (min 512 (inodeGetsize inode - 512 * k))) =
              (found.bytes.take (inodeGetsize inode - 512 * k)).take room := by
          rw [sector.window_splice_start fits (by omega), window, List.drop_zero, ← List.take_take,
            ← bytes, List.take_length]
        have part : ((found.bytes.take (inodeGetsize inode - 512 * k)).take room).length =
            min room (min 512 (inodeGetsize inode - 512 * k)) := by
          rw [List.length_take, bytes]
        have left : inodeGetsize inode - 512 * (k + 1) = inodeGetsize inode - 512 * k - 512 := by
          omega
        obtain ⟨copied, run, is⟩ := ih fuel (k + 1)
          (sector.splice 0 (found.bytes.take (inodeGetsize inode - 512 * k)))
          (buf ++ (found.bytes.take (inodeGetsize inode - 512 * k)).take room)
          (room - min 512 (inodeGetsize inode - 512 * k)) (by omega) (by omega) whole
          (by rw [List.length_append, part]; omega)
        have free' : size - buf.length = room := by omega
        refine ⟨(found.bytes.take (inodeGetsize inode - 512 * k)).take room ++ copied, ?_, ?_⟩
        · simp only [Int.toNat_natCast]
          rw [if_pos ⟨positive, by omega⟩, copiedSize_eq, free',
            if_pos (by rw [sectorSize]; omega), copy, run, List.append_assoc]
        · have tail : ∀ rest : List UInt8,
              (rest.take (inodeGetsize inode - 512 * k - 512)).take
                  (room - min 512 (inodeGetsize inode - 512 * k)) =
                (rest.take (inodeGetsize inode - 512 * k - 512)).take
                  (room - (found.bytes.take (inodeGetsize inode - 512 * k)).length) := by
            intro rest
            rw [bytes]
          rw [is, left, tail, ← List.take_append, ← length, ← List.take_append]

end Loop

/-- At the end of the file the loop copies nothing. -/
theorem fsReadLoop_end (u : UnixFilesystem) (inode : Inode) (inr : UInt16) (size fuel : Nat)
    (sector : Sector) (cur : Nat) (buf : List UInt8) :
    fsReadLoop u size (fuel + 1)
        { iNumber := inr, iNode := inode, offset := inodeGetsize inode } sector cur buf =
      some (toInt32 buf.length, buf) := by
  rw [fsReadLoop, filev6Readblock_end]
  simp

section Chunks

variable {u : UnixFilesystem} {path : List UInt8} {inr : UInt16} {inode : Inode}
  (resolves : direntv6Dirlookup u 1 path = some (inr.toNat : Int))
  (read : inodeRead u inr Inode.zero = (errNone, inode))
  (whole : (fileContent u inode).2 = errNone)

include resolves read

/-- A call that finds its file seeks and copies. -/
theorem fsRead_opened (size : Nat) (offset : Int) :
    fsRead u path size offset =
      match filev6Lseek { iNumber := inr, iNode := inode, offset := 0 } (toInt32 offset) with
      | (err, f) =>
        if err < 0 then some (err, [])
        else fsReadLoop u size (inodeGetsize f.iNode / sectorSize + 2) f
          (u.f.host.stack u.f.time) (toSizeT (offset.tmod sectorSize)) [] := by
  have opened : filev6Open u inr = .ok { iNumber := inr, iNode := inode, offset := 0 } := by
    rw [filev6Open, read]
    exact if_neg (not_not.mpr rfl)
  have number : ¬((inr.toNat : Nat) : Int) < 0 := by omega
  have root : rootInumber.toUInt16 = 1 := rfl
  rw [fsRead, root, resolves]
  apply (if_neg number).trans
  rw [Int.toNat_natCast, UInt16.ofNat_toNat, opened]

include whole

/-- One call copies the part of the file from the start of a block, or from the end of the file,
that the buffer has room for, when its offset is that as a 32-bit number. -/
theorem fsRead_part {k : Nat} (inside : k ≤ sectorCount inode) (size : Nat) {offset : Int}
    (narrowed : toInt32 offset = (min (512 * k) (inodeGetsize inode) : Nat)) :
    fsRead u path size offset =
      some (((((fileContent u inode).1.drop (512 * k)).take size).length : Int),
        ((fileContent u inode).1.drop (512 * k)).take size) := by
  have length := fileContent_length u inode whole
  have bound := inodeGetsize_lt inode
  have count := sectorCount_eq inode
  have seeks : SeeksTo (inodeGetsize inode) (min (512 * k) (inodeGetsize inode) : Nat) := by
    rw [SeeksTo]
    omega
  have seek := @filev6Lseek_seeks ⟨inr, inode, 0⟩ _ seeks
  rw [fsRead_opened resolves read, narrowed, seek]
  simp only
  rw [if_neg (by decide), Int.toNat_natCast]
  by_cases more : 512 * k < inodeGetsize inode
  · obtain ⟨rest, split⟩ := Nat.exists_eq_add_of_le inside
    obtain ⟨none, content⟩ := fileContent_drop u inode whole split.symm
    -- the offset is that of a sector, also before it is narrowed
    have start : toSizeT (offset.tmod sectorSize) = 0 := by
      have sector : offset % 512 = 0 := by
        rw [toInt32, Int.bmod_def] at narrowed
        split at narrowed <;> omega
      have zero : offset.tmod 512 = 0 := Int.tmod_eq_zero_of_dvd (Int.dvd_of_emod_eq_zero sector)
      show (offset.tmod 512 % 2 ^ 64).toNat = 0
      rw [zero]
      rfl
    have enough : rest < inodeGetsize inode / sectorSize + 2 := by
      rw [sectorSize]
      split at count <;> omega
    obtain ⟨copied, run, is⟩ := fsReadLoop_spec u inode inr rest _ k
      (u.f.host.stack u.f.time) [] size split.symm enough none (Nat.zero_add _)
    rw [← content] at is
    rw [start, run, List.nil_append, ← is]
    have short : copied.length ≤ inodeGetsize inode := by
      rw [is, List.length_take, List.length_drop, length]
      omega
    rw [toInt32_of_small (by omega)]
  · have ends : min (512 * k) (inodeGetsize inode) = inodeGetsize inode := by omega
    rw [ends, fsReadLoop_end, List.drop_of_length_le (by omega), List.take_nil]
    rfl

/-- Calls from the start of a chunk on copy what is left of the file, chunk by chunk. -/
theorem readChunks_spec {q : Nat} (positive : 0 < q) (n : Nat) :
    ∀ i, (∀ j, j < i + n ↔ 512 * (q * j) < inodeGetsize inode) →
      ∃ calls, calls.length = n ∧
        (∀ fuel > n, readChunks u path (512 * q) fuel
          (min (512 * (q * i)) (inodeGetsize inode) : Nat) = some (calls ++ [(0, [])])) ∧
        (∀ call ∈ calls, 0 < call.1 ∧ call.1 = call.2.length ∧ call.2.length ≤ 512 * q) ∧
        calls.flatMap Prod.snd = (fileContent u inode).1.drop (512 * (q * i)) := by
  have length := fileContent_length u inode whole
  have count := sectorCount_eq inode
  induction n with
  | zero =>
    intro i chunks
    have ends : inodeGetsize inode ≤ 512 * (q * i) := by
      have last := (chunks i).not.mp (Nat.lt_irrefl i)
      omega
    have bound := inodeGetsize_lt inode
    have nothing := fsRead_part resolves read whole (Nat.le_refl (sectorCount inode)) (512 * q)
      (toInt32_of_small (by omega))
    have offset : min (512 * sectorCount inode) (inodeGetsize inode) =
        min (512 * (q * i)) (inodeGetsize inode) := by
      split at count <;> omega
    have rest : (fileContent u inode).1.drop (512 * sectorCount inode) = [] :=
      List.drop_of_length_le (by split at count <;> omega)
    rw [offset, rest, List.take_nil] at nothing
    refine ⟨[], rfl, ?_, ?_, ?_⟩
    · intro fuel enough
      obtain ⟨fuel, rfl⟩ := Nat.exists_eq_succ_of_ne_zero (Nat.ne_of_gt enough)
      rw [readChunks, nothing]
      rfl
    · intro call mem
      cases mem
    · rw [List.drop_of_length_le (by omega)]
      rfl
  | succ n ih =>
    intro i chunks
    have more := (chunks i).mp (by omega)
    have bound := inodeGetsize_lt inode
    have chunk := fsRead_part resolves read whole (k := q * i) (by split at count <;> omega)
      (512 * q) (toInt32_of_small (by omega))
    have part : (((fileContent u inode).1.drop (512 * (q * i))).take (512 * q)).length =
        min (512 * q) (inodeGetsize inode - 512 * (q * i)) := by
      rw [List.length_take, List.length_drop, length]
    have next : ((min (512 * (q * i)) (inodeGetsize inode) : Nat) : Int) +
        (min (512 * q) (inodeGetsize inode - 512 * (q * i)) : Nat) =
          (min (512 * (q * (i + 1))) (inodeGetsize inode) : Nat) := by
      rw [Nat.mul_succ]
      omega
    obtain ⟨calls, many, run, each, content⟩ := ih (i + 1) (fun j => by rw [← chunks j]; omega)
    refine ⟨((((fileContent u inode).1.drop (512 * (q * i))).take (512 * q)).length,
      ((fileContent u inode).1.drop (512 * (q * i))).take (512 * q)) :: calls,
      congrArg Nat.succ many, ?_, ?_, ?_⟩
    · intro fuel enough
      obtain ⟨fuel, rfl⟩ :=
        Nat.exists_eq_succ_of_ne_zero (Nat.ne_of_gt (Nat.zero_lt_of_lt enough))
      rw [readChunks, chunk]
      apply (if_neg (by rw [part]; omega)).trans
      rw [part, next, run fuel (Nat.lt_of_succ_lt_succ enough)]
      rfl
    · intro call mem
      rcases List.mem_cons.mp mem with rfl | mem
      · rw [part]
        exact ⟨by omega, rfl, Nat.min_le_left _ _⟩
      · exact each call mem
    · have split : 512 * (q * (i + 1)) = 512 * (q * i) + 512 * q := by
        rw [Nat.mul_succ, Nat.mul_add]
      rw [List.flatMap_cons, content, split, ← List.drop_drop, List.take_append_drop]

end Chunks

/-- A file that a path leads to, all of whose sectors are found and can be read, is read by calls of
`fs_read` in chunks of any positive number of sectors: each of them returns the bytes it copies, the
first that returns none comes after as many as the chunks of the file, and the bytes together are
its content. -/
theorem readChunks_content {u : UnixFilesystem} {path : List UInt8} {inr : UInt16} {inode : Inode}
    (resolves : direntv6Dirlookup u 1 path = some (inr.toNat : Int))
    (read : inodeRead u inr Inode.zero = (errNone, inode))
    (whole : (fileContent u inode).2 = errNone) {chunk : Nat} (positive : 0 < chunk)
    (sectors : chunk % 512 = 0) :
    ∃ calls, calls.length = (inodeGetsize inode + chunk - 1) / chunk ∧
      (∀ fuel > calls.length, readChunks u path chunk fuel 0 = some (calls ++ [(0, [])])) ∧
      (∀ call ∈ calls, 0 < call.1 ∧ call.1 = call.2.length ∧ call.2.length ≤ chunk) ∧
      calls.flatMap Prod.snd = (fileContent u inode).1 := by
  obtain ⟨q, rfl⟩ : ∃ q, chunk = 512 * q := ⟨chunk / 512, by omega⟩
  have chunks : ∀ j, j < 0 + (inodeGetsize inode + 512 * q - 1) / (512 * q) ↔
      512 * (q * j) < inodeGetsize inode := by
    intro j
    rw [Nat.zero_add, ← Nat.succ_le_iff, Nat.le_div_iff_mul_le positive, Nat.succ_mul,
      Nat.mul_comm j, Nat.mul_assoc]
    omega
  obtain ⟨calls, many, run, each, content⟩ :=
    readChunks_spec resolves read whole (q := q) (by omega) _ 0 chunks
  rw [Nat.mul_zero, Nat.mul_zero, Nat.zero_min] at run
  rw [Nat.mul_zero, Nat.mul_zero, List.drop_zero] at content
  rw [← many] at run
  exact ⟨calls, many, run, each, content⟩

/-- A result of `fs_read`: no more than the buffer is written, and a result that is no error counts
the bytes of the content from the offset on that the buffer has room for, which are copied. -/
def ReturnsSlice (content : List UInt8) (size : Nat) (offset : Int)
    (result : Option (Int × List UInt8)) : Prop :=
  ∃ n buf, result = some (n, buf) ∧ buf.length ≤ size ∧
    (0 ≤ n → 0 ≤ offset ∧ n = min size (content.length - offset.toNat) ∧
      buf = window content offset.toNat n.toNat)

set_option maxRecDepth 10000 in
/-- The volume is mounted, the path leads to the file, and its sectors can be read; a call at offset
`2 ^ 32` reads from the start of the file. -/
theorem longVolume_reads :
    ∃ u, mountv6 longVolume = .ok u ∧
      direntv6Dirlookup u 1 [47, 102] = some ((2 : UInt16).toNat : Int) ∧
      inodeRead u 2 Inode.zero = (errNone, longFile) ∧ (fileContent u longFile).2 = errNone ∧
      fsRead u [47, 102] 16 (2 ^ 32) = some (16, List.replicate 16 0) :=
  mountv6_check (by decide +kernel)

/-- In chunks of two sectors the file is read by two calls. -/
theorem readChunks_content_long :
    ∃ u, mountv6 longVolume = .ok u ∧ ∃ calls, calls.length = 2 ∧
      (∀ fuel > calls.length, readChunks u [47, 102] 1024 fuel 0 = some (calls ++ [(0, [])])) ∧
      (∀ call ∈ calls, 0 < call.1 ∧ call.1 = call.2.length ∧ call.2.length ≤ 1024) ∧
      calls.flatMap Prod.snd = (fileContent u longFile).1 := by
  obtain ⟨u, mounted, resolves, read, whole, -⟩ := longVolume_reads
  have size : (inodeGetsize longFile + 1024 - 1) / 1024 = 2 := by decide
  rw [← size]
  exact ⟨u, mounted, readChunks_content resolves read whole (by decide) (by decide)⟩

/-- For a path to a file all of whose sectors are found and can be read, `fs_read` returns the part
of its content that it is asked for exactly when its offset, cut to 32 bits, is refused, or nothing
is lost by the cut: the offset is not negative and the same number, or the buffer is empty, or the
cut offset is at the end of the file. -/
theorem fsRead_slice_iff {u : UnixFilesystem} {path : List UInt8} {inr : UInt16} {inode : Inode}
    (resolves : direntv6Dirlookup u 1 path = some (inr.toNat : Int))
    (read : inodeRead u inr Inode.zero = (errNone, inode))
    (whole : (fileContent u inode).2 = errNone) (size : Nat) (offset : Int) :
    ReturnsSlice (fileContent u inode).1 size offset (fsRead u path size offset) ↔
      ¬SeeksTo (inodeGetsize inode) (toInt32 offset) ∨
        (0 ≤ offset ∧ (toInt32 offset = offset ∨ size = 0 ∨
          toInt32 offset = inodeGetsize inode)) := by
  have length := fileContent_length u inode whole
  have bound := inodeGetsize_lt inode
  have count := sectorCount_eq inode
  by_cases seeks : SeeksTo (inodeGetsize inode) (toInt32 offset)
  · -- the call copies from the sector, or from the end, where the cut offset is
    obtain ⟨k, inside, narrowed⟩ : ∃ k, k ≤ sectorCount inode ∧
        toInt32 offset = (min (512 * k) (inodeGetsize inode) : Nat) := by
      obtain ⟨low, high, place⟩ := seeks
      rcases place with ends | start
      · exact ⟨sectorCount inode, le_rfl, by split at count <;> omega⟩
      · exact ⟨(toInt32 offset).toNat / 512, by split at count <;> omega, by omega⟩
    have result := fsRead_part resolves read whole inside size narrowed
    have copied : (((fileContent u inode).1.drop (512 * k)).take size).length =
        min size (inodeGetsize inode - 512 * k) := by
      rw [List.length_take, List.length_drop, length]
    obtain ⟨m, cut⟩ : ∃ m : Int, offset = toInt32 offset + m * 2 ^ 32 := by
      rw [toInt32, Int.bmod_def]
      split
      · exact ⟨offset / 2 ^ 32, by omega⟩
      · exact ⟨offset / 2 ^ 32 + 1, by omega⟩
    simp only [seeks, not_true_eq_false, false_or]
    constructor
    · rintro ⟨n, buf, same, -, slice⟩
      rw [result, Option.some.injEq, Prod.mk.injEq, copied] at same
      obtain ⟨positive, amount, -⟩ := slice (by omega)
      rw [length] at amount
      refine ⟨positive, ?_⟩
      by_contra lost
      omega
    · rintro ⟨positive, kept⟩
      have amount : min size (inodeGetsize inode - 512 * k) =
          min size (inodeGetsize inode - offset.toNat) := by
        omega
      have place : min size (inodeGetsize inode - 512 * k) = 0 ∨ offset.toNat = 512 * k := by
        omega
      refine ⟨_, _, result, by rw [copied]; exact Nat.min_le_left _ _, fun _ => ⟨positive, ?_, ?_⟩⟩
      · rw [copied, length, amount]
      · rw [Int.toNat_natCast, copied, window]
        rcases place with none | place
        · rw [none, List.take_zero]
          exact List.eq_nil_of_length_eq_zero (copied.trans none)
        · rw [place, List.take_eq_take_iff, List.length_drop, length]
          omega
  · simp only [seeks, not_false_eq_true, true_or, iff_true]
    have refused := (@filev6Lseek_refused ⟨inr, inode, 0⟩ (toInt32 offset) seeks).1
    have result : fsRead u path size offset =
        some ((filev6Lseek ⟨inr, inode, 0⟩ (toInt32 offset)).1, []) := by
      rw [fsRead_opened resolves read]
      exact if_pos refused
    refine ⟨_, [], result, Nat.zero_le _, ?_⟩
    intro accepted
    exact absurd refused (Int.not_lt.mpr accepted)

/-- At offset `2 ^ 32`, far behind the end of the file, 16 bytes are read. -/
theorem fsRead_slice_wide :
    ∃ u, mountv6 longVolume = .ok u ∧
      direntv6Dirlookup u 1 [47, 102] = some ((2 : UInt16).toNat : Int) ∧
      inodeRead u 2 Inode.zero = (errNone, longFile) ∧ (fileContent u longFile).2 = errNone ∧
      ¬ReturnsSlice (fileContent u longFile).1 16 (2 ^ 32) (fsRead u [47, 102] 16 (2 ^ 32)) := by
  obtain ⟨u, mounted, resolves, read, whole, result⟩ := longVolume_reads
  refine ⟨u, mounted, resolves, read, whole, ?_⟩
  rintro ⟨n, buf, same, -, slice⟩
  rw [result, Option.some.injEq, Prod.mk.injEq] at same
  obtain ⟨rfl, -⟩ := same
  have length : (fileContent u longFile).1.length = 1025 := fileContent_length u longFile whole
  obtain ⟨-, amount, -⟩ := slice (by decide)
  rw [length] at amount
  exact absurd amount (by decide)

/-- From sector 1 on the last 513 bytes are read. -/
theorem fsRead_slice_long :
    ∃ u, mountv6 longVolume = .ok u ∧
      ReturnsSlice (fileContent u longFile).1 600 512 (fsRead u [47, 102] 600 512) := by
  obtain ⟨u, mounted, resolves, read, whole, -⟩ := longVolume_reads
  exact ⟨u, mounted, (fsRead_slice_iff resolves read whole 600 512).mpr (.inr (by decide))⟩

end U6fs
