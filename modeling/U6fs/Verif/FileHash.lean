import U6fs.Utils
import U6fs.Verif.Streaming

/-!
# The bytes that are hashed

`utils_print_shafile` reads blocks into a buffer of 8192 bytes and hashes the buffer up to the size
of the file. The loop adds 512 to its place in the buffer whatever it read, so the bytes hashed are
those of the file only because a block is short only where the file ends. They are the bytes of the
first sixteen blocks and depend on nothing else: not on the sectors that hold them, and not on what
the buffer held before.
-/
namespace U6fs

open Lib

/-- The blocks of a file that the hash covers. -/
def hashedBlocks (inode : Inode) : Nat := min (sectorCount inode) 16

/-- The bytes of a file that the hash covers. -/
def hashedSize (inode : Inode) : Nat := min (inodeGetsize inode) utilsHashedLength

/-- The blocks that the hash covers are found and can be read. -/
def StartReadable (u : UnixFilesystem) (inode : Inode) : Prop :=
  ∀ k < hashedBlocks inode, ∃ sector, fileBlock u inode k = .ok sector

/-- What the loop of `utils_print_shafile` stores in its buffer, and where. -/
def shafileStores (u : UnixFilesystem) (fv6 : Filev6) (sectorBytes : Nat) :
    List (Nat × List UInt8) :=
  match filev6Readblock u fv6 with
  | (ret, fv6, block) =>
    (sectorBytes, block) ::
      if 0 < ret ∧ sectorBytes + sectorSize < utilsHashedLength then
        shafileStores u fv6 (sectorBytes + sectorSize)
      else []
termination_by utilsHashedLength - sectorBytes
decreasing_by
  have room : sectorBytes + sectorSize < utilsHashedLength := And.right ‹_›
  simp only [sectorSize, utilsHashedLength] at room ⊢
  omega

/-- `utils_print_shafile` hashes the start of the file `inode` of number `inr`. -/
structure HashesStart (u : UnixFilesystem) (inr : UInt16) (inode : Inode) : Prop where
  /-- When the start can be read, its bytes are hashed and no error is returned. -/
  hashed : StartReadable u inode → ∃ bytes, HasBytes u inode bytes 0 (hashedSize inode) ∧
    utilsPrintShafile u inr = (errNone, [(inr, .digest bytes)])
  /-- The loop makes these stores of its buffer, and no others. -/
  stores : ∀ buffer, (shafileBlocks u { iNumber := inr, iNode := inode, offset := 0 } buffer 0).2 =
    (shafileStores u { iNumber := inr, iNode := inode, offset := 0 } 0).foldl
      (fun buffer store => buffer.splice store.1 store.2) buffer
  /-- Every store of the loop is inside the buffer. -/
  inside : ∀ store ∈ shafileStores u { iNumber := inr, iNode := inode, offset := 0 } 0,
    store.1 + store.2.length ≤ utilsHashedLength
  /-- The error of the first block that cannot be read is returned, and no hash is printed. -/
  failed : ∀ k < hashedBlocks inode, (∀ i < k, ∃ sector, fileBlock u inode i = .ok sector) →
    ∀ code, fileBlock u inode k = .error code →
      code < 0 ∧ utilsPrintShafile u inr = (code, [(inr, .unread)])

section Loop

variable (u : UnixFilesystem) (inode : Inode) (inr : UInt16)

/-- The buffer is what the stores make of it. -/
theorem shafileBlocks_stores (fv6 : Filev6) (buffer : Block utilsHashedLength)
    (sectorBytes : Nat) :
    (shafileBlocks u fv6 buffer sectorBytes).2 =
      (shafileStores u fv6 sectorBytes).foldl
        (fun buffer store => buffer.splice store.1 store.2) buffer := by
  induction fv6, buffer, sectorBytes using shafileBlocks.induct u with
  | case1 fv6 buffer sectorBytes ret fv6' block read more ih =>
    rw [shafileBlocks, shafileStores, read]
    simp only [if_pos more, List.foldl_cons]
    exact ih
  | case2 fv6 buffer sectorBytes ret fv6' block read ends =>
    rw [shafileBlocks, shafileStores, read]
    simp only [if_neg ends, List.foldl_cons, List.foldl_nil]

/-- A block read has at most one sector. -/
theorem filev6Readblock_short (fv6 : Filev6) : (filev6Readblock u fv6).2.2.length ≤ 512 := by
  rw [filev6Readblock]
  split
  · exact Nat.zero_le _
  · split
    · exact Nat.zero_le _
    · cases read : sectorRead u.f
        (inodeFindsector u fv6.iNode (fv6.offset / sectorSize : Nat)).toNat with
      | error code => exact Nat.zero_le _
      | ok sector =>
        have length : sector.bytes.length = 512 := sector.sized
        simp only
        split
        · rw [List.length_take, length]
          exact Nat.min_le_right _ _
        · exact length.le

/-- The stores of the loop lie inside the buffer when its first one does: the loop goes on only
where a whole sector is left. -/
theorem shafileStores_inside (fv6 : Filev6) {sectorBytes : Nat}
    (room : sectorBytes + 512 ≤ utilsHashedLength) (aligned : sectorBytes % 512 = 0) :
    ∀ store ∈ shafileStores u fv6 sectorBytes,
      store.1 + store.2.length ≤ utilsHashedLength := by
  induction fv6, sectorBytes using shafileStores.induct u with
  | case1 fv6 sectorBytes ret fv6' block read ih =>
    have short := filev6Readblock_short u fv6
    rw [read] at short
    intro store mem
    rw [shafileStores, read] at mem
    cases mem with
    | head => exact (Nat.add_le_add_left short sectorBytes).trans room
    | tail _ later =>
      split at later
      · rename_i more
        have next : sectorBytes + sectorSize < utilsHashedLength := more.2
        simp only [utilsHashedLength, sectorSize] at next
        refine ih more ?_ ?_ store later
        · simp only [utilsHashedLength, sectorSize]
          omega
        · simp only [sectorSize]
          omega
      · cases later

/-- A round of the loop at a block that is read. -/
theorem shafileBlocks_block {k : Nat} (buffer : Block utilsHashedLength)
    (more : 512 * k < inodeGetsize inode) {sector : Sector}
    (read : fileBlock u inode k = .ok sector) :
    shafileBlocks u
        { iNumber := inr, iNode := inode, offset := min (512 * k) (inodeGetsize inode) } buffer
        (512 * k) =
      if k + 1 < 16 then
        shafileBlocks u
          { iNumber := inr, iNode := inode, offset := min (512 * (k + 1)) (inodeGetsize inode) }
          (buffer.splice (512 * k) (sector.bytes.take (inodeGetsize inode - 512 * k)))
          (512 * (k + 1))
      else
        ((min 512 (inodeGetsize inode - 512 * k) : Nat),
          buffer.splice (512 * k) (sector.bytes.take (inodeGetsize inode - 512 * k))) := by
  have next : 512 * k + sectorSize = 512 * (k + 1) := by
    rw [Nat.mul_succ]
  have goesOn : (0 < ((min 512 (inodeGetsize inode - 512 * k) : Nat) : Int) ∧
      512 * (k + 1) < utilsHashedLength) ↔ k + 1 < 16 := by
    simp only [utilsHashedLength, sectorSize]
    omega
  rw [shafileBlocks, Nat.min_eq_left more.le, filev6Readblock_block u inode inr more, read]
  simp only [next, goesOn]

/-- From a block on, the loop fills the buffer with the bytes of the file, and keeps the bytes
before. The induction is on the blocks of the buffer that are left. -/
theorem shafileBlocks_readable (readable : StartReadable u inode) {k : Nat}
    (buffer : Block utilsHashedLength) (room : k < 16) :
    ∃ ret out, 0 ≤ ret ∧
      shafileBlocks u
        { iNumber := inr, iNode := inode, offset := min (512 * k) (inodeGetsize inode) } buffer
        (512 * k) = (ret, out) ∧
      (∀ i < 512 * k, out.bytes[i]? = buffer.bytes[i]?) ∧
      ∀ i, 512 * k ≤ i → i < hashedSize inode → out.bytes[i]? = fileByte u inode i := by
  induction left : 16 - k generalizing k buffer with
  | zero => omega
  | succ left' ih =>
    by_cases more : 512 * k < inodeGetsize inode
    · have inside : k < hashedBlocks inode := by
        rw [hashedBlocks, sectorCount]
        omega
      obtain ⟨sector, read⟩ := readable k inside
      have length : (sector.bytes.take (inodeGetsize inode - 512 * k)).length =
          min (inodeGetsize inode - 512 * k) 512 := by
        rw [List.length_take, sector.sized]
      have fits : 512 * k + (sector.bytes.take (inodeGetsize inode - 512 * k)).length ≤
          utilsHashedLength := by
        rw [length]
        simp only [utilsHashedLength, sectorSize]
        omega
      have before : ∀ i < 512 * k, (buffer.splice (512 * k)
          (sector.bytes.take (inodeGetsize inode - 512 * k))).bytes[i]? = buffer.bytes[i]? := by
        intro i early
        rw [Block.splice_getElem? _ fits, if_neg (by omega)]
      have stored : ∀ i, 512 * k ≤ i → i < 512 * (k + 1) → i < inodeGetsize inode →
          (buffer.splice (512 * k)
            (sector.bytes.take (inodeGetsize inode - 512 * k))).bytes[i]? =
              fileByte u inode i := by
        intro i low high small
        have place : i = 512 * k + (i - 512 * k) := by omega
        rw [Block.splice_getElem? _ fits, if_pos (by omega), List.getElem?_take,
          if_pos (by omega)]
        conv_rhs => rw [place]
        exact (fileByte_of_block u inode (by omega) read).symm
      rw [shafileBlocks_block u inode inr buffer more read]
      by_cases last : k + 1 < 16
      · obtain ⟨ret, out, positive, run, kept, rest⟩ :=
          ih (buffer.splice (512 * k) (sector.bytes.take (inodeGetsize inode - 512 * k))) last
            (by omega)
        rw [if_pos last]
        refine ⟨ret, out, positive, run, fun i early => ?_, fun i low small => ?_⟩
        · rw [kept i (by omega), before i early]
        · by_cases here : i < 512 * (k + 1)
          · rw [kept i here]
            exact stored i low here (by rw [hashedSize] at small; omega)
          · exact rest i (by omega) small
      · rw [if_neg last]
        refine ⟨_, _, Int.natCast_nonneg _, rfl, before, fun i low small => ?_⟩
        rw [hashedSize, utilsHashedLength, sectorSize] at small
        exact stored i low (by omega) (by omega)
    · have ends : filev6Readblock u
          { iNumber := inr, iNode := inode, offset := min (512 * k) (inodeGetsize inode) } =
          (0, { iNumber := inr, iNode := inode, offset := inodeGetsize inode }, []) := by
        rw [Nat.min_eq_right (by omega)]
        exact filev6Readblock_end u inode inr
      have fits : 512 * k + ([] : List UInt8).length ≤ utilsHashedLength := by
        rw [utilsHashedLength, sectorSize, List.length_nil]
        omega
      rw [shafileBlocks, ends]
      refine ⟨0, buffer.splice (512 * k) [], le_rfl,
        if_neg fun goesOn => absurd goesOn.1 (by decide), fun i early => ?_, fun i low small => ?_⟩
      · rw [Block.splice_getElem? _ fits, if_neg (by omega)]
      · rw [hashedSize] at small
        omega

/-- The loop ends with the error of the first block that is not read. -/
theorem shafileBlocks_failed {last : Nat} (inside : last < hashedBlocks inode)
    (before : ∀ i < last, ∃ sector, fileBlock u inode i = .ok sector) {code : Int}
    (failed : fileBlock u inode last = .error code) {k : Nat}
    (buffer : Block utilsHashedLength) (upTo : k ≤ last) :
    (shafileBlocks u
      { iNumber := inr, iNode := inode, offset := min (512 * k) (inodeGetsize inode) } buffer
      (512 * k)).1 = code := by
  rw [hashedBlocks, sectorCount] at inside
  induction left : 16 - k generalizing k buffer with
  | zero => omega
  | succ left' ih =>
    have more : 512 * k < inodeGetsize inode := by omega
    rcases Nat.lt_or_eq_of_le upTo with early | rfl
    · obtain ⟨sector, read⟩ := before k early
      rw [shafileBlocks_block u inode inr buffer more read, if_pos (by omega)]
      exact ih _ early (by omega)
    · have negative := fileBlock_error u inode failed
      rw [shafileBlocks, Nat.min_eq_left more.le, filev6Readblock_block u inode inr more, failed]
      show (if _ then _ else _ : Int × Block utilsHashedLength).1 = code
      rw [if_neg (by omega)]

end Loop

section Hash

variable {u : UnixFilesystem} {inr : UInt16} {inode : Inode}

/-- `utils_print_shafile` on an allocated file: its loop, from the first block on. -/
theorem utilsPrintShafile_eq (read : inodeRead u inr Inode.zero = (errNone, inode))
    (file : inode.isDirectory = false) :
    ∃ buffer, utilsPrintShafile u inr =
      match shafileBlocks u
          { iNumber := inr, iNode := inode, offset := min (512 * 0) (inodeGetsize inode) } buffer
          (512 * 0) with
      | (ret, out) =>
        if ret < 0 then (ret, [(inr, .unread)])
        else (errNone, [(inr, .digest (out.bytes.take (hashedSize inode)))]) := by
  rw [utilsPrintShafile, filev6Open, read]
  simp only [ne_eq, not_true_eq_false, if_false, file, Bool.false_eq_true, Nat.mul_zero,
    Nat.zero_min]
  exact ⟨_, rfl⟩

/-- The hash of a file that is not a directory covers its start. -/
theorem hashesStart (read : inodeRead u inr Inode.zero = (errNone, inode))
    (file : inode.isDirectory = false) : HashesStart u inr inode := by
  obtain ⟨buffer, run⟩ := utilsPrintShafile_eq read file
  constructor
  case hashed =>
    intro readable
    obtain ⟨ret, out, positive, loop, -, bytes⟩ :=
      shafileBlocks_readable u inode inr readable buffer (by decide : 0 < 16)
    have length : out.bytes.length = utilsHashedLength := out.sized
    have short : hashedSize inode ≤ utilsHashedLength := Nat.min_le_right _ _
    refine ⟨out.bytes.take (hashedSize inode), ⟨?_, fun i small => ?_⟩, ?_⟩
    · rw [List.length_take, length]
      exact Nat.min_eq_left short
    · rw [List.getElem?_take, if_pos small, Nat.zero_add]
      exact bytes i (Nat.zero_le _) small
    · rw [run, loop]
      exact if_neg (Int.not_lt.mpr positive)
  case stores => exact fun buffer => shafileBlocks_stores u _ buffer 0
  case inside => exact shafileStores_inside u _ (by decide) (by decide)
  case failed =>
    intro k inside before code failed
    have negative := fileBlock_error u inode failed
    have loop := shafileBlocks_failed u inode inr inside before failed buffer (Nat.zero_le k)
    refine ⟨negative, ?_⟩
    rw [run]
    cases result : shafileBlocks u
        { iNumber := inr, iNode := inode, offset := min (512 * 0) (inodeGetsize inode) } buffer
        (512 * 0) with
    | mk ret out =>
      rw [result] at loop
      obtain rfl : ret = code := loop
      exact if_pos negative

end Hash

/-- The hash of a file that is not a directory covers its first 8192 bytes, and two files that have
these in common are printed with the same hash. -/
theorem utilsPrintShafile_hashesStart {u : UnixFilesystem} {inr : UInt16} {inode : Inode}
    (read : inodeRead u inr Inode.zero = (errNone, inode)) (file : inode.isDirectory = false) :
    HashesStart u inr inode ∧
      ∀ {u' : UnixFilesystem} {inr' : UInt16} {inode' : Inode},
        inodeRead u' inr' Inode.zero = (errNone, inode') → inode'.isDirectory = false →
        StartReadable u inode → StartReadable u' inode' →
        hashedSize inode' = hashedSize inode →
        (∀ i < hashedSize inode, fileByte u' inode' i = fileByte u inode i) →
        ∀ sha256 : List UInt8 → Vector UInt8 32, ∃ bytes,
          (utilsPrintShafile u inr).2.map (fun line => line.2.print sha256) =
              [utilsPrintSHABuffer sha256 bytes] ∧
            (utilsPrintShafile u' inr').2.map (fun line => line.2.print sha256) =
              [utilsPrintSHABuffer sha256 bytes] := by
  have first := hashesStart read file
  refine ⟨first, ?_⟩
  intro u' inr' inode' read' file' readable readable' size same sha256
  have second := hashesStart read' file'
  obtain ⟨bytes, here, printed⟩ := first.hashed readable
  obtain ⟨bytes', there, printed'⟩ := second.hashed readable'
  rw [size] at there
  have equal : bytes' = bytes :=
    here.unique there fun i _ small => same i (by omega)
  rw [equal] at printed'
  refine ⟨bytes, ?_, ?_⟩
  · rw [printed]
    rfl
  · rw [printed']
    rfl

/-- The start of a file that can be read can be read. -/
theorem Readable.start {u : UnixFilesystem} {inode : Inode} (readable : Readable u inode) :
    StartReadable u inode :=
  fun k inside => readable k (Nat.lt_of_lt_of_le inside (Nat.min_le_left _ _))

/-- A file of 3 bytes in sector 4. -/
def firstTwin : Inode := fileInode 0 3 (oneAddress 4)

/-- A file of 3 bytes in sector 6. -/
def secondTwin : Inode := fileInode 0 3 (oneAddress 6)

/-- A volume with these two files, whose sectors differ behind the end of the files. -/
def twinVolume : Disk :=
  volume 2 7 [(1, emptyDirectory), (2, firstTwin), (3, secondTwin)]
    [Block.ofBytes sectorSize [1, 2, 3, 4], zeroSector, Block.ofBytes sectorSize [1, 2, 3, 5]]

set_option maxRecDepth 10000 in
/-- The two files are printed with the same hash. -/
theorem utilsPrintShafile_hashesStart_twins :
    ∃ u, mountv6 twinVolume = .ok u ∧ HashesStart u 2 firstTwin ∧
      ∀ sha256 : List UInt8 → Vector UInt8 32, ∃ bytes,
        (utilsPrintShafile u 2).2.map (fun line => line.2.print sha256) =
            [utilsPrintSHABuffer sha256 bytes] ∧
          (utilsPrintShafile u 3).2.map (fun line => line.2.print sha256) =
            [utilsPrintSHABuffer sha256 bytes] := by
  obtain ⟨u, mounted, read, read', readable, readable', same⟩ := mountv6_check (f := twinVolume)
    (P := fun u => inodeRead u 2 Inode.zero = (errNone, firstTwin) ∧
      inodeRead u 3 Inode.zero = (errNone, secondTwin) ∧
      Readable u firstTwin ∧ Readable u secondTwin ∧
      ∀ i < hashedSize firstTwin, fileByte u secondTwin i = fileByte u firstTwin i)
    (by decide +kernel)
  obtain ⟨starts, twins⟩ := utilsPrintShafile_hashesStart read (by decide)
  exact ⟨u, mounted, starts,
    twins read' (by decide) readable.start readable'.start (by decide) same⟩

end U6fs
