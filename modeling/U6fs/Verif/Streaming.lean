import U6fs.Spec.Volume
import U6fs.Verif.Mounted
import U6fs.Verif.Reading

/-!
# An open file as a stream

The calls that a caller can make on an open file, in any order. The offset is the start of a sector
or the end of the file, a call that fails leaves it, and each block is the part of the file behind
it; so from wherever a caller seeks to, reading ends and gives the rest of the file.
-/
namespace U6fs

open Lib

/-- A call on an open file. -/
inductive StreamCall where
  /-- `filev6_readblock`. -/
  | readblock
  /-- `filev6_lseek`. -/
  | lseek (offset : Int)

/-- What a call returns, the file after it, and the bytes stored. -/
def StreamCall.run (u : UnixFilesystem) (fv6 : Filev6) : StreamCall → Int × Filev6 × List UInt8
  | .readblock => filev6Readblock u fv6
  | .lseek offset => ((filev6Lseek fv6 offset).1, (filev6Lseek fv6 offset).2, [])

/-- The file after some calls. -/
def streamed (u : UnixFilesystem) (fv6 : Filev6) (calls : List StreamCall) : Filev6 :=
  calls.foldl (fun fv6 call => (call.run u fv6).2.1) fv6

/-- The offset is the start of a sector of the file, or its end. -/
structure AtSector (fv6 : Filev6) : Prop where
  /-- It is in the file. -/
  inside : fv6.offset ≤ inodeGetsize fv6.iNode
  /-- It is the start of a sector before the end. -/
  aligned : fv6.offset % 512 = 0 ∨ fv6.offset = inodeGetsize fv6.iNode

/-- What a caller may rely on between two calls. -/
structure Streams (u : UnixFilesystem) (fv6 : Filev6) : Prop where
  /-- The offset is in the file. -/
  place : AtSector fv6
  /-- A call that fails leaves the file as it is. -/
  failed : ∀ call : StreamCall, (call.run u fv6).1 < 0 → (call.run u fv6).2.1 = fv6
  /-- A call that reads bytes gives those behind the offset, as many as a block and the file have,
  and steps over them. -/
  reads : ∀ n fv6' bytes, filev6Readblock u fv6 = (n, fv6', bytes) → 0 < n →
    n = min 512 (inodeGetsize fv6.iNode - fv6.offset) ∧
      HasBytes u fv6.iNode bytes fv6.offset n.toNat ∧
      fv6' = { fv6 with offset := fv6.offset + n.toNat }
  /-- A call gives no bytes at the end of the file only. -/
  ends : (filev6Readblock u fv6).1 = 0 ↔ fv6.offset = inodeGetsize fv6.iNode
  /-- From wherever a caller seeks to, reading until a call gives no bytes gives the rest of a file
  whose sectors can be read. -/
  rest : ∀ k fv6', filev6Lseek fv6 k = (errNone, fv6') → Readable u fv6.iNode →
    ∃ bytes, HasBytes u fv6.iNode bytes k.toNat (inodeGetsize fv6.iNode - k.toNat) ∧
      ∀ fuel > sectorCount fv6.iNode, readBlocks u fuel fv6' = some (bytes, 0)

/-- An offset at which `filev6_lseek` leaves a file: the start of a sector, or the end. -/
def SeeksTo (length : Nat) (offset : Int) : Prop :=
  0 ≤ offset ∧ offset ≤ length ∧ (offset = length ∨ offset % 512 = 0)

section Step

variable {u : UnixFilesystem} {fv6 : Filev6}

/-- `filev6_lseek` moves to such an offset. -/
theorem filev6Lseek_seeks {offset : Int} (seeks : SeeksTo (inodeGetsize fv6.iNode) offset) :
    filev6Lseek fv6 offset = (errNone, { fv6 with offset := offset.toNat }) := by
  obtain ⟨low, high, place⟩ := seeks
  have sector : offset.tmod sectorSize = offset % 512 := Int.tmod_eq_emod_of_nonneg low
  rw [filev6Lseek, sector, if_neg (by omega), if_neg (by omega)]

/-- At any other offset it fails and leaves the file. -/
theorem filev6Lseek_refused {offset : Int} (refused : ¬SeeksTo (inodeGetsize fv6.iNode) offset) :
    (filev6Lseek fv6 offset).1 < 0 ∧ (filev6Lseek fv6 offset).2 = fv6 := by
  rw [SeeksTo] at refused
  rw [filev6Lseek]
  by_cases outside : offset > inodeGetsize fv6.iNode ∨ offset < 0
  · rw [if_pos outside]
    have negative : errOffsetOutOfRange < 0 := by decide
    exact ⟨negative, rfl⟩
  · have sector : offset.tmod sectorSize = offset % 512 :=
      Int.tmod_eq_emod_of_nonneg (by omega)
    rw [if_neg outside, sector, if_pos (by omega)]
    have negative : errBadParameter < 0 := by decide
    exact ⟨negative, rfl⟩

/-- After a seek the file is at a sector. -/
theorem AtSector.of_seeks {offset : Int} (seeks : SeeksTo (inodeGetsize fv6.iNode) offset) :
    AtSector { fv6 with offset := offset.toNat } := by
  obtain ⟨low, high, place⟩ := seeks
  constructor <;> simp only <;> omega

/-- `filev6_readblock` at a sector: at the end it gives nothing, and before it fails or gives the
bytes of the block. -/
theorem filev6Readblock_cases (place : AtSector fv6) :
    (fv6.offset = inodeGetsize fv6.iNode ∧ filev6Readblock u fv6 = (0, fv6, [])) ∨
      (fv6.offset < inodeGetsize fv6.iNode ∧
        ((∃ code < 0, fileBlock u fv6.iNode (fv6.offset / 512) = .error code ∧
            filev6Readblock u fv6 = (code, fv6, [])) ∨
          ∃ n : Nat, ∃ bytes, 0 < n ∧ n = min 512 (inodeGetsize fv6.iNode - fv6.offset) ∧
            (∃ sector, fileBlock u fv6.iNode (fv6.offset / 512) = .ok sector) ∧
            HasBytes u fv6.iNode bytes fv6.offset n ∧
            filev6Readblock u fv6 =
              ((n : Int), { fv6 with offset := fv6.offset + n }, bytes))) := by
  obtain ⟨inr, inode, offset⟩ := fv6
  obtain ⟨inside, aligned⟩ := place
  simp only at inside aligned ⊢
  rcases Nat.lt_or_eq_of_le inside with more | rfl
  · right
    refine ⟨more, ?_⟩
    obtain ⟨k, rfl⟩ : ∃ k, offset = 512 * k := ⟨offset / 512, by omega⟩
    rw [filev6Readblock_block u inode inr more, Nat.mul_div_cancel_left k (by decide)]
    cases read : fileBlock u inode k with
    | error code => exact .inl ⟨code, fileBlock_error u inode read, rfl, rfl⟩
    | ok sector =>
      have length : sector.bytes.length = 512 := sector.sized
      have next : min (512 * (k + 1)) (inodeGetsize inode) =
          512 * k + min 512 (inodeGetsize inode - 512 * k) := by
        omega
      refine .inr ⟨_, _, by omega, rfl, ⟨sector, rfl⟩, ⟨?_, fun j small => ?_⟩, by rw [next]⟩
      · rw [List.length_take, length, Nat.min_comm]
      · rw [List.getElem?_take, if_pos (by omega), fileByte_of_block u inode (by omega) read]
  · exact .inl ⟨rfl, filev6Readblock_end u inode inr⟩

/-- A call keeps the file at a sector, and its inode. -/
theorem StreamCall.keeps (place : AtSector fv6) (call : StreamCall) :
    AtSector (call.run u fv6).2.1 ∧ (call.run u fv6).2.1.iNode = fv6.iNode := by
  cases call with
  | readblock =>
    rw [StreamCall.run]
    rcases filev6Readblock_cases (u := u) place with
      ⟨-, run⟩ | ⟨more, ⟨_, -, -, run⟩ | ⟨n, _, -, amount, -, -, run⟩⟩
    · rw [run]
      exact ⟨place, rfl⟩
    · rw [run]
      exact ⟨place, rfl⟩
    · rw [run]
      refine ⟨⟨?_, ?_⟩, rfl⟩ <;> have := place.aligned <;> simp only <;> omega
  | lseek offset =>
    rw [StreamCall.run]
    by_cases seeks : SeeksTo (inodeGetsize fv6.iNode) offset
    · rw [filev6Lseek_seeks seeks]
      exact ⟨.of_seeks seeks, rfl⟩
    · rw [(filev6Lseek_refused seeks).2]
      exact ⟨place, rfl⟩

/-- Reading from a sector on gives the rest of the file. -/
theorem readBlocks_rest (place : AtSector fv6) (readable : Readable u fv6.iNode) :
    ∃ bytes, HasBytes u fv6.iNode bytes fv6.offset (inodeGetsize fv6.iNode - fv6.offset) ∧
      ∀ fuel > sectorCount fv6.iNode, readBlocks u fuel fv6 = some (bytes, 0) := by
  obtain ⟨inr, inode, offset⟩ := fv6
  obtain ⟨inside, aligned⟩ := place
  simp only at inside aligned readable ⊢
  have whole := readable.whole
  have count := sectorCount_eq inode
  obtain ⟨k, rest, split, start⟩ : ∃ k rest, k + rest = sectorCount inode ∧
      offset = min (512 * k) (inodeGetsize inode) := by
    rcases aligned with block | ends
    · exact ⟨offset / 512, sectorCount inode - offset / 512, by split at count <;> omega, by omega⟩
    · exact ⟨sectorCount inode, 0, rfl, by split at count <;> omega⟩
  obtain ⟨none, content⟩ := fileContent_drop u inode whole split
  refine ⟨(fileContent u inode).1.drop (512 * k), ⟨?_, fun j small => ?_⟩, fun fuel enough => ?_⟩
  · rw [List.length_drop, fileContent_length u inode whole]
    omega
  · have before : 512 * k = offset := by omega
    rw [List.getElem?_drop, before, fileContent_getElem? u inode whole (by omega)]
  · rw [start, readBlocks_spec u inode inr rest fuel k split (by omega), ← content, none,
      Option.getD_none]

/-- At a sector a caller may rely on all of that. -/
theorem AtSector.streams (place : AtSector fv6) : Streams u fv6 := by
  have cases := filev6Readblock_cases (u := u) place
  constructor
  case place => exact place
  case failed =>
    intro call negative
    cases call with
    | readblock =>
      rw [StreamCall.run] at negative ⊢
      rcases cases with ⟨-, run⟩ | ⟨-, ⟨_, -, -, run⟩ | ⟨n, _, positive, -, -, -, run⟩⟩
      · rw [run]
      · rw [run]
      · rw [run] at negative
        simp only at negative
        omega
    | lseek offset =>
      rw [StreamCall.run] at negative ⊢
      by_cases seeks : SeeksTo (inodeGetsize fv6.iNode) offset
      · rw [filev6Lseek_seeks seeks] at negative
        exact absurd negative (Int.lt_irrefl 0)
      · exact (filev6Lseek_refused seeks).2
  case reads =>
    intro n fv6' bytes run positive
    rcases cases with ⟨-, none⟩ | ⟨-, ⟨_, negative, -, none⟩ | ⟨m, _, -, amount, -, has, read⟩⟩
    · rw [none, Prod.mk.injEq] at run
      omega
    · rw [none, Prod.mk.injEq] at run
      omega
    · rw [run, Prod.mk.injEq, Prod.mk.injEq] at read
      obtain ⟨rfl, rfl, rfl⟩ := read
      rw [Int.toNat_natCast]
      exact ⟨by omega, has, rfl⟩
  case ends =>
    rcases cases with
      ⟨ends, run⟩ | ⟨more, ⟨_, negative, -, run⟩ | ⟨n, _, positive, -, -, -, run⟩⟩
    · rw [run]
      exact iff_of_true rfl ends
    · rw [run]
      exact iff_of_false (by simp only; omega) (by omega)
    · rw [run]
      exact iff_of_false (by simp only; omega) (by omega)
  case rest =>
    intro k fv6' seek readable
    by_cases seeks : SeeksTo (inodeGetsize fv6.iNode) k
    · rw [filev6Lseek_seeks seeks, Prod.mk.injEq] at seek
      obtain ⟨-, rfl⟩ := seek
      exact readBlocks_rest (.of_seeks seeks) readable
    · have negative := (filev6Lseek_refused seeks).1
      rw [seek] at negative
      exact absurd negative (Int.lt_irrefl 0)

end Step

/-- After any calls on a file just opened, a caller may rely on all of that; the inode stays the one
that was opened. -/
theorem filev6_streams {u : UnixFilesystem} {inr : UInt16} {fv6 : Filev6}
    (opened : filev6Open u inr = .ok fv6) (calls : List StreamCall) :
    (streamed u fv6 calls).iNode = fv6.iNode ∧ Streams u (streamed u fv6 calls) := by
  have start : AtSector fv6 := by
    obtain ⟨-, is⟩ := filev6Open_ok opened
    rw [is]
    exact ⟨Nat.zero_le _, .inl rfl⟩
  have run : ∀ calls fv6, AtSector fv6 →
      AtSector (streamed u fv6 calls) ∧ (streamed u fv6 calls).iNode = fv6.iNode := by
    intro calls
    induction calls with
    | nil => exact fun fv6 place => ⟨place, rfl⟩
    | cons call calls ih =>
      intro fv6 place
      obtain ⟨next, same⟩ := call.keeps (u := u) place
      obtain ⟨last, inode⟩ := ih _ next
      exact ⟨last, inode.trans same⟩
  obtain ⟨place, same⟩ := run calls fv6 start
  exact ⟨same, place.streams⟩

/-- A file of two sectors and one byte. -/
def longFile : Inode := fileInode 0 1025 #v[5, 6, 7, 0, 0, 0, 0, 0]

/-- A volume with this file under the name `f`. -/
def longVolume : Disk :=
  volume 2 8 [(1, singleDirectory), (2, longFile)]
    [Block.ofBytes sectorSize (direntCodec.encode (letterRecord 2 102)), zeroSector, zeroSector,
      zeroSector]

set_option maxRecDepth 10000 in
/-- Reading a block of this file, seeking to its last byte and reading that. -/
theorem filev6_streams_long :
    ∃ u, mountv6 longVolume = .ok u ∧
      (streamed u ⟨2, longFile, 0⟩ [.readblock, .lseek 1024, .readblock]).iNode = longFile ∧
      Streams u (streamed u ⟨2, longFile, 0⟩ [.readblock, .lseek 1024, .readblock]) := by
  obtain ⟨u, mounted, opened⟩ := mountv6_check (f := longVolume)
    (P := fun u => (filev6Open u 2).toOption = some ⟨2, longFile, 0⟩) (by decide +kernel)
  exact ⟨u, mounted, filev6_streams (eq_ok_of_toOption opened) _⟩

end U6fs
