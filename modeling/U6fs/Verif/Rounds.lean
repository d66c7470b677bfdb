import U6fs.Verif.AppendCalls

/-!
# The rounds of an append on any machine

Every round of `filev6_writebytes` takes the sector that `bm_find_next` finds, which is the same one
in all of them, and stores its number in the slot of `i_addr` that the new size gives. How far the
rounds come depends on the machine: a round is followed by the next one when its seeks and the read
of the table sector succeed. A round that makes a file of 4096 bytes or more would store past
`i_addr[7]`.
-/
namespace U6fs

open Lib

/-- A round that writes sector `x` and then the inode returns no error. -/
structure RoundPasses (host : Host) (table x time : Nat) : Prop where
  /-- The sector is sought. -/
  seek : host.seekWriteFails time x = false
  /-- The table sector is read. -/
  tableRead : host.seekFails (time + 1) table = false ∧ host.freadFails (time + 1) table = false
  /-- It is sought again. -/
  tableSeek : host.seekWriteFails (time + 1) table = false

/-- Round `i` of those that start at a time writes the sector that is found. -/
structure Reaches (host : Host) (table : Nat) (found : Int) (time i : Nat) : Prop where
  /-- A sector is found. -/
  free : 0 ≤ found
  /-- The rounds before pass. -/
  earlier : ∀ j < i, RoundPasses host table found.toNat (time + 2 * j)
  /-- The sector is sought. -/
  seek : host.seekWriteFails (time + 2 * i) found.toNat = false

/-- Of the rounds that append `left` bytes behind `size` ones from a time on, the first that makes a
file of 4096 bytes or more writes its sector. -/
def Overflows (host : Host) (table : Nat) (found : Int) (time size left : Nat) : Prop :=
  ∃ i, 512 * i < left ∧ (∀ j < i, size + 512 * (j + 1) < 4096) ∧
    4096 ≤ size + min (512 * (i + 1)) left ∧ Reaches host table found time i

section Reach

variable {host : Host} {table : Nat} {found : Int} {time : Nat}

/-- A later round is reached when the first one passes. -/
theorem reaches_succ_iff (i : Nat) : Reaches host table found time (i + 1) ↔
    0 ≤ found ∧ RoundPasses host table found.toNat time ∧
      Reaches host table found (time + 2) i := by
  have shift : ∀ j, time + 2 * (j + 1) = time + 2 + 2 * j := by
    intro j
    omega
  constructor
  · intro reaches
    refine ⟨reaches.free, reaches.earlier 0 (Nat.succ_pos i), reaches.free, fun j small => ?_, ?_⟩
    · rw [← shift]
      exact reaches.earlier (j + 1) (Nat.succ_lt_succ small)
    · rw [← shift]
      exact reaches.seek
  · rintro ⟨free, first, rest⟩
    refine ⟨free, fun j small => ?_, ?_⟩
    · cases j with
      | zero => exact first
      | succ j =>
        rw [shift]
        exact rest.earlier j (Nat.lt_of_succ_lt_succ small)
    · rw [shift]
      exact rest.seek

/-- The first round is reached before any other. -/
theorem Reaches.first {i : Nat} (reaches : Reaches host table found time i) :
    0 ≤ found ∧ host.seekWriteFails time found.toNat = false := by
  refine ⟨reaches.free, ?_⟩
  cases i with
  | zero => exact reaches.seek
  | succ i => exact (reaches.earlier 0 (Nat.succ_pos i)).seek

/-- A first round below 4096 bytes is followed by the others when it passes. -/
theorem overflows_step {size left : Nat} (below : size + min 512 left < 4096) :
    Overflows host table found time size left ↔ RoundPasses host table found.toNat time ∧
      Overflows host table found (time + 2) (size + min 512 left) (left - min 512 left) := by
  constructor
  · rintro ⟨i, inside, smaller, past, reaches⟩
    cases i with
    | zero => omega
    | succ i =>
      obtain ⟨-, first, rest⟩ := (reaches_succ_iff i).mp reaches
      have whole : min 512 left = 512 := by omega
      refine ⟨first, i, by omega, fun j small => ?_, by omega, rest⟩
      have before := smaller (j + 1) (Nat.succ_lt_succ small)
      have place : size + min 512 left + 512 * (j + 1) = size + 512 * (j + 1 + 1) := by
        rw [whole]
        omega
      exact place.trans_lt before
  · rintro ⟨first, i, inside, smaller, past, reaches⟩
    have whole : min 512 left = 512 := by omega
    refine ⟨i + 1, by omega, fun j small => ?_, by omega,
      (reaches_succ_iff i).mpr ⟨reaches.free, first, reaches⟩⟩
    cases j with
    | zero => omega
    | succ j =>
      have before := smaller j (Nat.lt_of_succ_lt_succ small)
      have place : size + min 512 left + 512 * (j + 1) = size + 512 * (j + 1 + 1) := by
        rw [whole]
        omega
      exact place.symm.trans_lt before

/-- A first round from 4096 bytes on has to write its sector. -/
theorem overflows_here {size left : Nat} (more : 0 < left) (past : 4096 ≤ size + min 512 left) :
    Overflows host table found time size left ↔
      0 ≤ found ∧ host.seekWriteFails time found.toNat = false := by
  constructor
  · rintro ⟨i, inside, smaller, -, reaches⟩
    cases i with
    | zero => exact ⟨reaches.free, reaches.seek⟩
    | succ i =>
      have before := smaller 0 (Nat.succ_pos i)
      omega
  · rintro ⟨free, seek⟩
    refine ⟨0, by omega, fun j small => absurd small (Nat.not_lt_zero j), by omega, free,
      fun j small => absurd small (Nat.not_lt_zero j), seek⟩

/-- Nothing overflows when there is nothing left. -/
theorem not_overflows_zero (size : Nat) : ¬Overflows host table found time size 0 := by
  rintro ⟨i, inside, -⟩
  omega

end Reach

/-- The disk after a round has written its sector. -/
def roundDisk (u : UnixFilesystem) (x : Nat) (buf : List UInt8) : Disk :=
  (sectorWrite .filev6Writesector u.f x ((u.f.host.stack u.f.time).splice 0 buf)).2

/-- What a round does after it has written its sector. -/
def roundStore (u : UnixFilesystem) (fbm : BmblockArray) (x : Nat) (fv6 : Filev6)
    (buf : List UInt8) (size : Nat) : Int × UnixFilesystem :=
  inodeWrite { u with f := roundDisk u x buf, fbm } fv6.iNumber (fv6.iNode.placed size x)

section Round

variable {u : UnixFilesystem} {fv6 : Filev6} {buf : List UInt8}

/-- A round can write: it finds a sector and seeks it. -/
def Begins (u : UnixFilesystem) : Prop :=
  0 ≤ (bmFindNext u.fbm).1 ∧
    u.f.host.seekWriteFails u.f.time (bmFindNext u.fbm).1.toNat = false

/-- What a round returns that cannot. -/
def stopCode (u : UnixFilesystem) : Int :=
  if (bmFindNext u.fbm).1 < 0 then (bmFindNext u.fbm).1 else errIo

/-- It is an error. -/
theorem stopCode_neg (u : UnixFilesystem) : stopCode u < 0 := by
  rw [stopCode]
  split
  · assumption
  · decide

/-- A round that cannot write leaves the disk alone. -/
theorem filev6Writesector_stops (stops : ¬Begins u) (fv6 : Filev6) (buf : List UInt8)
    (fileSize : Nat) : filev6Writesector u fv6 buf fileSize =
      some (stopCode u, { u with fbm := (bmFindNext u.fbm).2 }, fv6) := by
  rw [Begins] at stops
  rw [filev6Writesector, stopCode]
  cases search : bmFindNext u.fbm with
  | mk r fbm =>
    rw [search] at stops
    by_cases found : r < 0
    · rw [if_pos found]
      exact if_pos found
    · have seek : u.f.host.seekWriteFails u.f.time r.toNat = true := by
        by_contra sought
        exact stops ⟨Int.not_lt.mp found, Bool.eq_false_iff.mpr sought⟩
      have written : sectorWrite .filev6Writesector u.f r.toNat
          ((u.f.host.stack u.f.time).splice 0 buf) = (errIo, u.f) := by
        rw [sectorWrite, if_pos seek]
      have negative : errIo < 0 := by decide
      rw [if_neg found]
      apply (if_neg found).trans
      rw [written]
      exact if_pos negative

variable {fileSize x : Nat} {fbm : BmblockArray} (search : bmFindNext u.fbm = ((x : Int), fbm))

include search

/-- A round that seeks its sector stores the inode below 4096 bytes, and stores past the slots from
there on. -/
theorem filev6Writesector_sought (seek : u.f.host.seekWriteFails u.f.time x = false)
    (small : fileSize + buf.length < 2 ^ 24) :
    filev6Writesector u fv6 buf fileSize =
      if fileSize + buf.length < 4096 then
        some ((roundStore u fbm x fv6 buf (fileSize + buf.length)).1,
          (roundStore u fbm x fv6 buf (fileSize + buf.length)).2,
          { fv6 with iNode := fv6.iNode.placed (fileSize + buf.length) x })
      else none := by
  have set := inodeSetsize_ok fv6.iNode (fileSize + buf.length) small
  have size := inodeGetsize_resized fv6.iNode (fileSize + buf.length) small
  rw [Int.natCast_add] at set
  have fine := (sectorWrite_fine_iff .filev6Writesector u.f x
    ((u.f.host.stack u.f.time).splice 0 buf)).mpr seek
  rw [filev6Writesector, search]
  apply (if_neg (Int.not_lt.mpr (Int.natCast_nonneg x))).trans
  rw [Int.toNat_natCast]
  cases written : sectorWrite .filev6Writesector u.f x
      ((u.f.host.stack u.f.time).splice 0 buf) with
  | mk err f =>
    rw [written] at fine
    apply (if_neg (Int.not_lt.mpr fine)).trans
    rw [set]
    simp only [size]
    by_cases slot : fileSize + buf.length < 4096
    · have inside : (fileSize + buf.length) / sectorSize < addrSmallLength := by
        rw [sectorSize, addrSmallLength]
        omega
      rw [dif_pos inside, if_pos slot, roundStore, roundDisk, written, Inode.placed,
        dif_pos inside]
    · have outside : ¬(fileSize + buf.length) / sectorSize < addrSmallLength := by
        rw [sectorSize, addrSmallLength]
        omega
      rw [dif_neg outside, if_neg slot]

end Round

/-- A write never makes the disk file shorter. -/
theorem sectorWrite_length (writer : Writer) (f : Disk) (x : Nat) (data : Sector) :
    f.sectors.length ≤ (sectorWrite writer f x data).2.sectors.length := by
  rw [sectorWrite]
  split
  · exact le_rfl
  · show f.sectors.length ≤ (if _ then f else f.overwrite x data).sectors.length
    split
    · exact le_rfl
    · rw [f.overwrite_length]
      exact Nat.le_max_left _ _

/-- Nor does storing an inode. -/
theorem inodeWrite_length (u : UnixFilesystem) (inr : UInt16) (inode : Inode) :
    u.f.sectors.length ≤ (inodeWrite u inr inode).2.f.sectors.length := by
  rw [inodeWrite]
  split
  · exact le_rfl
  · split
    · exact le_rfl
    · exact sectorWrite_length _ _ _ _

/-- What storing an inode leaves as it is. -/
theorem inodeWrite_kept (u : UnixFilesystem) (inr : UInt16) (inode : Inode) :
    (inodeWrite u inr inode).2.s = u.s ∧ (inodeWrite u inr inode).2.f.host = u.f.host ∧
      (inodeWrite u inr inode).2.fbm = u.fbm := by
  rw [inodeWrite]
  split
  · exact ⟨rfl, rfl, rfl⟩
  · split
    · exact ⟨rfl, rfl, rfl⟩
    · refine ⟨rfl, ?_, rfl⟩
      show (sectorWrite _ _ _ _).2.host = u.f.host
      rw [sectorWrite]
      split
      · rfl
      · show (if _ then u.f else u.f.overwrite _ _).host = u.f.host
        split <;> rfl

/-- What `inode_write` returns. -/
theorem inodeWrite_code (u : UnixFilesystem) (inr : UInt16) (inode : Inode) :
    (inodeWrite u inr inode).1 ∈ [errNone, errIo, errInodeOutOfRange] := by
  rw [inodeWrite]
  split
  · exact List.mem_cons_of_mem _ (List.mem_cons_of_mem _ List.mem_cons_self)
  · split
    · rename_i ret read
      rw [sectorRead_error read]
      exact List.mem_cons_of_mem _ List.mem_cons_self
    · rename_i sector read
      rw [sectorWrite]
      by_cases seek : u.f.host.seekWriteFails u.f.time (inodeSectorNb u.s inr) = true
      · rw [if_pos seek]
        exact List.mem_cons_of_mem _ List.mem_cons_self
      · rw [if_neg seek]
        exact List.mem_cons_self

section Stored

variable {u : UnixFilesystem} {fv6 : Filev6} {x : Nat}
  (range : inodeOutOfRange u.s fv6.iNumber = false)
  (present : inodeSectorNb u.s fv6.iNumber < u.f.sectors.length)
  (seek : u.f.host.seekWriteFails u.f.time x = false)

include seek

/-- The disk after the sector is written. -/
theorem roundDisk_done (buf : List UInt8) : (roundDisk u x buf).host = u.f.host ∧
    (roundDisk u x buf).time = u.f.time + 1 ∧
    u.f.sectors.length ≤ (roundDisk u x buf).sectors.length := by
  obtain ⟨-, -, host, time, length, -⟩ := sectorWrite_done (Prod.mk.eta (p := sectorWrite
    .filev6Writesector u.f x ((u.f.host.stack u.f.time).splice 0 buf))).symm
      ((sectorWrite_fine_iff _ _ _ _).mpr seek)
  exact ⟨host, time, length⟩

include range present in
/-- A round that writes its sector passes when the inode is read and sought. -/
theorem roundStore_passes_iff (fbm : BmblockArray) (buf : List UInt8) (size : Nat) :
    0 ≤ (roundStore u fbm x fv6 buf size).1 ↔
      RoundPasses u.f.host (inodeSectorNb u.s fv6.iNumber) x u.f.time := by
  obtain ⟨host, time, length⟩ := roundDisk_done seek buf
  have fine := inodeWrite_fine_iff (u := { u with f := roundDisk u x buf, fbm }) range
    (Nat.lt_of_lt_of_le present length) (fv6.iNode.placed size x)
  rw [roundStore, fine]
  show ((roundDisk u x buf).host.seekFails (roundDisk u x buf).time _ = false ∧ _) ∧ _ ↔ _
  rw [host, time]
  exact ⟨fun table => ⟨seek, table.1, table.2⟩, fun passes => ⟨passes.tableRead, passes.tableSeek⟩⟩

include range present in
/-- After a round that passes the next one finds the same sector, and the inode can be stored
again. -/
theorem roundStore_next {fbm : BmblockArray} (search : bmFindNext u.fbm = ((x : Int), fbm))
    (buf : List UInt8) (size : Nat) (fine : 0 ≤ (roundStore u fbm x fv6 buf size).1) :
    Advanced u (roundStore u fbm x fv6 buf size).2 2 ∧
      (bmFindNext (roundStore u fbm x fv6 buf size).2.fbm).1 = x ∧
      inodeOutOfRange (roundStore u fbm x fv6 buf size).2.s fv6.iNumber = false ∧
      inodeSectorNb (roundStore u fbm x fv6 buf size).2.s fv6.iNumber <
        (roundStore u fbm x fv6 buf size).2.f.sectors.length := by
  obtain ⟨host, time, length⟩ := roundDisk_done seek buf
  obtain ⟨-, advanced, bitmap, -⟩ := inodeWrite_done (Prod.mk.eta (p := inodeWrite
    { u with f := roundDisk u x buf, fbm } fv6.iNumber (fv6.iNode.placed size x))).symm fine
  have first : Advanced u { u with f := roundDisk u x buf, fbm } 1 := ⟨rfl, host, time⟩
  have grows := inodeWrite_length { u with f := roundDisk u x buf, fbm } fv6.iNumber
    (fv6.iNode.placed size x)
  have both := first.trans advanced
  have again := bmFindNext_again search (Int.natCast_nonneg x)
  refine ⟨both, ?_, ?_, ?_⟩
  · show (bmFindNext (inodeWrite _ _ _).2.fbm).1 = x
    rw [bitmap, again]
  · show inodeOutOfRange (inodeWrite _ _ _).2.s _ = false
    rw [both.s]
    exact range
  · show inodeSectorNb (inodeWrite _ _ _).2.s _ < _
    rw [both.s]
    exact Nat.lt_of_lt_of_le present (length.trans grows)

end Stored

/-- The loop with nothing left to write. -/
theorem writebytesLoop_nothing (inodeSize : Nat) (buf : List UInt8) (fuel : Nat)
    (u : UnixFilesystem) (fv6 : Filev6) (written : Nat) :
    writebytesLoop inodeSize buf fuel u fv6 (0 : Nat) written = some (errNone, u, fv6) := by
  cases fuel with
  | zero => rfl
  | succ fuel => rw [writebytesLoop, if_neg (by omega)]

section Loop

variable {inodeSize : Nat} {buf : List UInt8} {fuel : Nat} {u : UnixFilesystem} {fv6 : Filev6}
  {left written : Nat}

/-- The loop stops at a round that cannot write. -/
theorem writebytesLoop_stops (more : 0 < left) (stops : ¬Begins u) :
    writebytesLoop inodeSize buf (fuel + 1) u fv6 left written =
      some (stopCode u, { u with fbm := (bmFindNext u.fbm).2 }, fv6) := by
  rw [writebytesLoop, if_pos (Int.natCast_pos.mpr more), filev6Writesector_stops stops]
  exact if_pos (stopCode_neg u)

/-- Otherwise the round stores the inode below 4096 bytes, and the loop goes on if it could. -/
theorem writebytesLoop_begins (more : 0 < left) (inBuf : written + left ≤ buf.length)
    (small : inodeSize + written + 512 < 2 ^ 24) {x : Nat} {fbm : BmblockArray}
    (search : bmFindNext u.fbm = ((x : Int), fbm))
    (seek : u.f.host.seekWriteFails u.f.time x = false) :
    writebytesLoop inodeSize buf (fuel + 1) u fv6 left written =
      if inodeSize + written + min 512 left < 4096 then
        if (roundStore u fbm x fv6 (window buf written (min 512 left))
            (inodeSize + written + min 512 left)).1 < 0 then
          some ((roundStore u fbm x fv6 (window buf written (min 512 left))
              (inodeSize + written + min 512 left)).1,
            (roundStore u fbm x fv6 (window buf written (min 512 left))
              (inodeSize + written + min 512 left)).2,
            { fv6 with iNode := fv6.iNode.placed (inodeSize + written + min 512 left) x })
        else writebytesLoop inodeSize buf fuel
          (roundStore u fbm x fv6 (window buf written (min 512 left))
            (inodeSize + written + min 512 left)).2
          { fv6 with iNode := fv6.iNode.placed (inodeSize + written + min 512 left) x }
          (left - min 512 left : Nat) (written + min 512 left)
      else none := by
  have chunk : (window buf written (min 512 left)).length = min 512 left :=
    window_length (by omega)
  have rest : (left : Int) - (min 512 left : Nat) = (left - min 512 left : Nat) := by
    omega
  rw [writebytesLoop, if_pos (Int.natCast_pos.mpr more), writebytesMinSize_eq, rest,
    filev6Writesector_sought search seek (by rw [chunk]; omega), chunk]
  by_cases below : inodeSize + written + min 512 left < 4096
  · rw [if_pos below, if_pos below]
  · rw [if_neg below, if_neg below]

end Loop

/-- The loop is undefined when one of its rounds writes its sector and then stores past the
slots. -/
theorem writebytesLoop_none_iff {inodeSize : Nat} {buf : List UInt8} (fuel : Nat) :
    ∀ (u : UnixFilesystem) (fv6 : Filev6) (left written : Nat), left ≤ fuel →
      written + left ≤ buf.length → inodeSize + written + 512 < 2 ^ 24 →
      inodeOutOfRange u.s fv6.iNumber = false →
      inodeSectorNb u.s fv6.iNumber < u.f.sectors.length →
      (writebytesLoop inodeSize buf fuel u fv6 left written = none ↔
        Overflows u.f.host (inodeSectorNb u.s fv6.iNumber) (bmFindNext u.fbm).1 u.f.time
          (inodeSize + written) left) := by
  induction fuel with
  | zero =>
    intro u fv6 left written enough _ _ _ _
    obtain rfl : left = 0 := by omega
    rw [writebytesLoop]
    exact iff_of_false (Option.some_ne_none _) (not_overflows_zero _)
  | succ fuel ih =>
    intro u fv6 left written enough inBuf small range present
    rcases Nat.eq_zero_or_pos left with rfl | more
    · rw [writebytesLoop, if_neg (by omega)]
      exact iff_of_false (Option.some_ne_none _) (not_overflows_zero _)
    by_cases begins : Begins u
    · obtain ⟨free, seek⟩ := begins
      obtain ⟨x, found⟩ := Int.eq_ofNat_of_zero_le free
      have search : bmFindNext u.fbm = ((x : Int), (bmFindNext u.fbm).2) := Prod.ext found rfl
      rw [found, Int.toNat_natCast] at seek
      rw [writebytesLoop_begins more inBuf small search seek, found]
      generalize window buf written (min 512 left) = chunk
      by_cases below : inodeSize + written + min 512 left < 4096
      · rw [if_pos below, overflows_step below, Int.toNat_natCast,
          ← roundStore_passes_iff range present seek (bmFindNext u.fbm).2 chunk
            (inodeSize + written + min 512 left)]
        by_cases fine : 0 ≤ (roundStore u (bmFindNext u.fbm).2 x fv6 chunk
            (inodeSize + written + min 512 left)).1
        · obtain ⟨advanced, again, range', present'⟩ := roundStore_next range present seek search
            chunk (inodeSize + written + min 512 left) fine
          rw [if_neg (Int.not_lt.mpr fine), and_iff_right fine]
          have next := ih (roundStore u (bmFindNext u.fbm).2 x fv6 chunk
              (inodeSize + written + min 512 left)).2
            { fv6 with iNode := fv6.iNode.placed (inodeSize + written + min 512 left) x }
            (left - min 512 left) (written + min 512 left) (by omega) (by omega) (by omega)
            range' present'
          rw [again, advanced.s, advanced.host, advanced.time, ← Nat.add_assoc] at next
          exact next
        · rw [if_pos (Int.not_le.mp fine)]
          exact iff_of_false (Option.some_ne_none _) fun both => fine both.1
      · rw [if_neg below, overflows_here more (Nat.not_lt.mp below), Int.toNat_natCast]
        exact iff_of_true rfl ⟨Int.natCast_nonneg x, seek⟩
    · rw [writebytesLoop_stops more begins]
      refine iff_of_false (Option.some_ne_none _) ?_
      rintro ⟨i, -, -, -, reaches⟩
      exact begins reaches.first

/-- How many sectors are written to fill up the last sector of a file: that sector and the one of
its inode, as far as the transfers succeed. -/
def residualWrites (u : UnixFilesystem) (inr : UInt16) (inode : Inode) : Nat :=
  if inodeGetsize inode % 512 = 0 ∨
      inodeFindsector u inode (inodeGetsize inode / 512 : Nat) < 0 then 0
  else match sectorRead u.f (inodeFindsector u inode (inodeGetsize inode / 512 : Nat)).toNat with
    | .error _ => 0
    | .ok _ =>
      if u.f.host.seekWriteFails u.f.time
          (inodeFindsector u inode (inodeGetsize inode / 512 : Nat)).toNat then 0
      else if u.f.host.seekFails (u.f.time + 1) (inodeSectorNb u.s inr) ||
          u.f.host.freadFails (u.f.time + 1) (inodeSectorNb u.s inr) ||
          u.f.host.seekWriteFails (u.f.time + 1) (inodeSectorNb u.s inr) then 1
      else 2

/-- The bytes that are left for new sectors: the length as an `int`, without what fills up the last
sector. -/
def appendLeft (size len : Nat) : Nat := (toInt32 len - residualLength size len).toNat

/-- The state and the file after the attempt to fill up the last sector. -/
def filledUp (u : UnixFilesystem) (fv6 : Filev6) (buf : List UInt8) : UnixFilesystem × Filev6 :=
  if inodeGetsize fv6.iNode % 512 = 0 then (u, fv6)
  else (filev6WritesectorResidual u fv6
    (buf.take (min buf.length (512 - inodeGetsize fv6.iNode % 512)))
    (inodeGetsize fv6.iNode / 512 + 1) (inodeGetsize fv6.iNode % 512) (inodeGetsize fv6.iNode)).2

section Residual

variable {u : UnixFilesystem} {fv6 : Filev6}
  (range : inodeOutOfRange u.s fv6.iNumber = false)
  (present : inodeSectorNb u.s fv6.iNumber < u.f.sectors.length)

include range present

/-- How `inode_write` moves the time, after `w` other writes. -/
theorem inodeWrite_time (inode : Inode) :
    (inodeWrite u fv6.iNumber inode).2.f.time = u.f.time +
      if u.f.host.seekFails u.f.time (inodeSectorNb u.s fv6.iNumber) ||
          u.f.host.freadFails u.f.time (inodeSectorNb u.s fv6.iNumber) ||
          u.f.host.seekWriteFails u.f.time (inodeSectorNb u.s fv6.iNumber) then 0 else 1 := by
  rw [inodeWrite, range, if_neg Bool.false_ne_true, sectorRead, List.getElem?_eq_getElem present]
  by_cases fails : (u.f.host.seekFails u.f.time (inodeSectorNb u.s fv6.iNumber) ||
      u.f.host.freadFails u.f.time (inodeSectorNb u.s fv6.iNumber)) = true
  · simp only [fails, if_true, Bool.true_or, Nat.add_zero]
  · simp only [Bool.eq_false_iff.mpr fails, Bool.false_or, Bool.false_eq_true, if_false]
    rw [sectorWrite]
    split <;> rfl

/-- What is left of the state after the attempt to fill up the last sector of a file. -/
theorem filev6WritesectorResidual_left {buf : List UInt8} {residual : Nat} {code : Int}
    {u' : UnixFilesystem} {fv6' : Filev6} (partly : inodeGetsize fv6.iNode % 512 ≠ 0)
    (small : inodeGetsize fv6.iNode + buf.length < 2 ^ 24)
    (run : filev6WritesectorResidual u fv6 buf (inodeGetsize fv6.iNode / 512 + 1) residual
      (inodeGetsize fv6.iNode) = (code, u', fv6')) :
    Advanced u u' (residualWrites u fv6.iNumber fv6.iNode) ∧ u'.fbm = u.fbm ∧
      fv6'.iNumber = fv6.iNumber ∧ u.f.sectors.length ≤ u'.f.sectors.length := by
  have unchanged : Advanced u u 0 := ⟨rfl, rfl, rfl⟩
  have set := inodeSetsize_ok fv6.iNode (inodeGetsize fv6.iNode + buf.length) small
  rw [Int.natCast_add] at set
  rw [filev6WritesectorResidual, Nat.add_sub_cancel, set] at run
  rw [residualWrites]
  by_cases found : inodeFindsector u fv6.iNode (inodeGetsize fv6.iNode / 512 : Nat) < 0
  · rw [if_pos found, Prod.mk.injEq, Prod.mk.injEq] at run
    obtain ⟨-, rfl, rfl⟩ := run
    rw [if_pos (.inr found)]
    exact ⟨unchanged, rfl, rfl, le_rfl⟩
  rw [if_neg found] at run
  rw [if_neg (not_or.mpr ⟨partly, found⟩)]
  generalize (inodeFindsector u fv6.iNode (inodeGetsize fv6.iNode / 512 : Nat)).toNat = x at run ⊢
  cases read : sectorRead u.f x with
  | error code =>
    simp only [read, Prod.mk.injEq] at run
    obtain ⟨-, rfl, rfl⟩ := run
    exact ⟨unchanged, rfl, rfl, le_rfl⟩
  | ok sector =>
    cases written : sectorWrite .filev6WritesectorResidual u.f x (sector.splice residual buf) with
    | mk write f =>
      have sought := sectorWrite_fine_iff .filev6WritesectorResidual u.f x
        (sector.splice residual buf)
      rw [written] at sought
      simp only [read, written] at run
      cases seek : u.f.host.seekWriteFails u.f.time x with
      | true =>
        have same : f = u.f := by
          rw [sectorWrite, if_pos seek, Prod.mk.injEq] at written
          exact written.2.symm
        have failed : write < 0 := by
          apply Int.not_le.mp
          rw [sought, seek]
          exact Bool.noConfusion
        rw [if_pos failed, Prod.mk.injEq, Prod.mk.injEq, same] at run
        obtain ⟨-, rfl, rfl⟩ := run
        rw [if_pos rfl]
        exact ⟨unchanged, rfl, rfl, le_rfl⟩
      | false =>
        have fine : 0 ≤ write := sought.mpr seek
        obtain ⟨-, -, host, time, length, -⟩ := sectorWrite_done written fine
        rw [if_neg (Int.not_lt.mpr fine), Prod.mk.injEq, Prod.mk.injEq] at run
        obtain ⟨-, rfl, rfl⟩ := run
        have inodeTime := inodeWrite_time (u := { u with f }) range
          (Nat.lt_of_lt_of_le present length)
          (fv6.iNode.resized (inodeGetsize fv6.iNode + buf.length))
        have kept := inodeWrite_kept { u with f } fv6.iNumber
          (fv6.iNode.resized (inodeGetsize fv6.iNode + buf.length))
        have grows := inodeWrite_length { u with f } fv6.iNumber
          (fv6.iNode.resized (inodeGetsize fv6.iNode + buf.length))
        refine ⟨⟨kept.1, kept.2.1.trans host, ?_⟩, kept.2.2, rfl, length.trans grows⟩
        have writes : ∀ fails : Bool, 1 + (if fails then 0 else 1) = if fails then 1 else 2 := by
          decide
        refine inodeTime.trans ?_
        rw [if_neg Bool.false_ne_true, ← writes, ← Nat.add_assoc, ← time, ← host]

end Residual

/-- A negative length leaves the loop nothing to do, as none does. -/
theorem writebytesLoop_toNat (inodeSize : Nat) (buf : List UInt8) (fuel : Nat)
    (u : UnixFilesystem) (fv6 : Filev6) (left : Int) (written : Nat) :
    writebytesLoop inodeSize buf fuel u fv6 left written =
      writebytesLoop inodeSize buf fuel u fv6 left.toNat written := by
  by_cases more : 0 ≤ left
  · rw [Int.toNat_of_nonneg more]
  · have none : (left.toNat : Int) = 0 := by
      omega
    rw [none]
    cases fuel with
    | zero => rfl
    | succ fuel =>
      rw [writebytesLoop, writebytesLoop, if_neg (by omega), if_neg (Int.lt_irrefl 0)]

/-- What is left for new sectors is in the buffer. -/
theorem appendLeft_le (size len : Nat) : residualLength size len + appendLeft size len ≤ len := by
  have cut : toInt32 len ≤ len := by
    rw [toInt32, Int.bmod_def]
    omega
  have first : residualLength size len ≤ len := by
    rw [residualLength]
    split
    · exact Nat.zero_le _
    · exact Nat.min_le_left _ _
  rw [appendLeft]
  omega

section Append

variable {u : UnixFilesystem} {fv6 : Filev6}

/-- What is left of a buffer is counted in the range of `int`, if the last sector is partly used. -/
def CountsDown (inodeSize len : Nat) : Prop :=
  inodeSize % 512 ≠ 0 → ¬TotalUnderflows inodeSize len

/-- So it is for the length of every buffer below 2 GiB. -/
theorem countsDown_of_short {inodeSize len : Nat} (short : len < 2 ^ 31) :
    CountsDown inodeSize len := fun _ => not_totalUnderflows short

/-- Otherwise an append is undefined. -/
theorem filev6Writebytes_underflows (u : UnixFilesystem) (buf : List UInt8)
    (fits : inodeGetsize fv6.iNode / 512 + 1 ≤ 1792)
    (below : ¬CountsDown (inodeGetsize fv6.iNode) buf.length) :
    filev6Writebytes u fv6 buf = none := by
  rw [CountsDown, Classical.not_imp, not_not] at below
  obtain ⟨residual, underflows⟩ := below
  rw [filev6Writebytes, if_neg (Nat.not_lt.mpr fits), if_pos residual]
  simp only [if_pos underflows]

/-- An append is the attempt to fill up the last sector and then the loop. -/
theorem filev6Writebytes_rounds (u : UnixFilesystem) (buf : List UInt8)
    (fits : inodeGetsize fv6.iNode / 512 + 1 ≤ 1792)
    (counts : CountsDown (inodeGetsize fv6.iNode) buf.length) :
    filev6Writebytes u fv6 buf = writebytesLoop (inodeGetsize fv6.iNode) buf buf.length
      (filledUp u fv6 buf).1 (filledUp u fv6 buf).2
      (appendLeft (inodeGetsize fv6.iNode) buf.length)
      (residualLength (inodeGetsize fv6.iNode) buf.length) := by
  rw [filev6Writebytes, if_neg (Nat.not_lt.mpr fits), appendLeft, residualLength, filledUp,
    ← writebytesLoop_toNat]
  by_cases whole : inodeGetsize fv6.iNode % 512 = 0
  · rw [if_neg (not_not.mpr whole), if_pos whole, if_pos whole, Int.natCast_zero, Int.sub_zero]
  · obtain ⟨small, -⟩ := toWriteSmallSector_eq (inodeGetsize fv6.iNode) buf.length whole
    rw [if_neg whole, if_neg whole, ← small]
    cases filev6WritesectorResidual u fv6
        (buf.take (toWriteSmallSector (inodeGetsize fv6.iNode) buf.length))
        (inodeGetsize fv6.iNode / 512 + 1) (inodeGetsize fv6.iNode % 512)
        (inodeGetsize fv6.iNode) with
    | mk code run =>
      simp only [if_neg (counts whole)]
      exact if_pos whole

/-- What the attempt leaves of the state. -/
theorem filledUp_left (buf : List UInt8) (range : inodeOutOfRange u.s fv6.iNumber = false)
    (present : inodeSectorNb u.s fv6.iNumber < u.f.sectors.length)
    (fits : inodeGetsize fv6.iNode / 512 + 1 ≤ 1792) :
    Advanced u (filledUp u fv6 buf).1 (residualWrites u fv6.iNumber fv6.iNode) ∧
      (filledUp u fv6 buf).1.fbm = u.fbm ∧ (filledUp u fv6 buf).2.iNumber = fv6.iNumber ∧
      u.f.sectors.length ≤ (filledUp u fv6 buf).1.f.sectors.length := by
  rw [filledUp]
  by_cases whole : inodeGetsize fv6.iNode % 512 = 0
  · rw [if_pos whole, residualWrites, if_pos (.inl whole)]
    exact ⟨⟨rfl, rfl, rfl⟩, rfl, rfl, le_rfl⟩
  · have length :
        (buf.take (min buf.length (512 - inodeGetsize fv6.iNode % 512))).length ≤ 512 := by
      rw [List.length_take]
      omega
    rw [if_neg whole]
    cases filled : filev6WritesectorResidual u fv6
        (buf.take (min buf.length (512 - inodeGetsize fv6.iNode % 512)))
        (inodeGetsize fv6.iNode / 512 + 1) (inodeGetsize fv6.iNode % 512)
        (inodeGetsize fv6.iNode) with
    | mk code run => exact filev6WritesectorResidual_left range present whole (by omega) filled

/-- An append is undefined when one of its rounds stores past the slots. -/
theorem filev6Writebytes_none_iff (buf : List UInt8)
    (range : inodeOutOfRange u.s fv6.iNumber = false)
    (present : inodeSectorNb u.s fv6.iNumber < u.f.sectors.length)
    (fits : inodeGetsize fv6.iNode / 512 + 1 ≤ 1792)
    (counts : CountsDown (inodeGetsize fv6.iNode) buf.length) :
    filev6Writebytes u fv6 buf = none ↔
      Overflows u.f.host (inodeSectorNb u.s fv6.iNumber) (bmFindNext u.fbm).1
        (u.f.time + residualWrites u fv6.iNumber fv6.iNode)
        (inodeGetsize fv6.iNode + residualLength (inodeGetsize fv6.iNode) buf.length)
        (appendLeft (inodeGetsize fv6.iNode) buf.length) := by
  obtain ⟨advanced, bitmap, number, length⟩ := filledUp_left buf range present fits
  have residual : residualLength (inodeGetsize fv6.iNode) buf.length ≤ 512 := by
    rw [residualLength]
    split <;> omega
  have inBuf := appendLeft_le (inodeGetsize fv6.iNode) buf.length
  rw [filev6Writebytes_rounds u buf fits counts,
    writebytesLoop_none_iff _ _ _ _ _ (by omega) inBuf (by omega)
    (by rw [advanced.s, number]; exact range)
    (by rw [advanced.s, number]; exact Nat.lt_of_lt_of_le present length), advanced.host,
    advanced.s, advanced.time, bitmap, number]

end Append

section Codes

variable {u u' : UnixFilesystem} {fv6 fv6' : Filev6} {code : Int}

/-- A round never says that the file is too large. -/
theorem filev6Writesector_code {buf : List UInt8} {fileSize : Nat} (bits : u.fbm.max < 2 ^ 31)
    (run : filev6Writesector u fv6 buf fileSize = some (code, u', fv6')) :
    code ≠ errFileTooLarge := by
  rw [filev6Writesector] at run
  split at run
  rename_i freeSector fbm search
  split at run
  · rename_i missing
    cases run
    obtain ⟨-, ⟨x, clear, value⟩ | ⟨value, -⟩⟩ := bmFindNext_spec search
    · obtain ⟨range, -⟩ := (bmGet_eq_zero_iff _ _).mp clear
      rw [value, toInt32_of_small (by omega)] at missing
      omega
    · rw [value]
      decide
  · split at run
    rename_i err f written
    split at run
    · cases run
      rw [sectorWrite] at written
      split at written
      · cases written
        decide
      · cases written
        decide
    · split at run
      · rename_i error set
        cases run
        rw [inodeSetsize_error set]
        decide
      · split at run
        · split at run
          rename_i error u₁ stored
          cases run
          have mem : (code, u').1 ∈ [errNone, errIo, errInodeOutOfRange] := by
            rw [← stored]
            exact inodeWrite_code _ _ _
          have other : ∀ code ∈ [errNone, errIo, errInodeOutOfRange], code ≠ errFileTooLarge := by
            decide
          exact other code mem
        · cases run

/-- Nor does the loop. -/
theorem writebytesLoop_code {inodeSize : Nat} {buf : List UInt8} {fuel : Nat} {left : Int}
    {written : Nat} (bits : u.fbm.max < 2 ^ 31)
    (run : writebytesLoop inodeSize buf fuel u fv6 left written = some (code, u', fv6')) :
    code ≠ errFileTooLarge := by
  induction fuel generalizing u fv6 left written with
  | zero =>
    cases run
    decide
  | succ fuel ih =>
    rw [writebytesLoop] at run
    split at run
    · split at run
      · cases run
      · rename_i round
        have first := filev6Writesector_code bits round
        split at run
        · cases run
          exact first
        · have kept := (filev6Writesector_bitsKept round).fbm
          exact ih (by rw [kept.max]; exact bits) run
    · cases run
      decide

end Codes

/-- The slots of `i_addr` cannot address `len` bytes behind `size` ones: a sector is taken that
would be the ninth of the file at least, or an inode has no address for so many at all. -/
def Unaddressable (size len : Nat) : Prop :=
  (TakesSector size len ∧ 4096 < size + len) ∨ 7 * 256 * 512 < size + len

instance (size len : Nat) : Decidable (Unaddressable size len) :=
  inferInstanceAs (Decidable (_ ∨ _))

/-- An append stores no address outside of `i_addr`, and refuses what cannot be addressed before it
writes. -/
structure StaysInTable (u : UnixFilesystem) (fv6 : Filev6) (buf : List UInt8) : Prop where
  /-- No address is stored past `i_addr[7]`. -/
  inside : filev6Writebytes u fv6 buf ≠ none
  /-- What cannot be addressed is refused. -/
  refuses : Unaddressable (inodeGetsize fv6.iNode) buf.length →
    ∃ u' fv6', filev6Writebytes u fv6 buf = some (errFileTooLarge, u', fv6') ∧ u'.f = u.f

/-- An append fills the eighth sector of a file to its end, after the rounds before it. -/
structure FillsTable (u : UnixFilesystem) (fv6 : Filev6) (len : Nat) : Prop where
  /-- A sector is taken. -/
  takes : TakesSector (inodeGetsize fv6.iNode) len
  /-- The file gets eight whole sectors. -/
  eight : inodeGetsize fv6.iNode + len = 4096
  /-- The round that writes the last of them comes so far. -/
  reaches : Reaches u.f.host (inodeSectorNb u.s fv6.iNumber) (bmFindNext u.fbm).1
    (u.f.time + residualWrites u fv6.iNumber fv6.iNode)
    ((len - (512 - inodeGetsize fv6.iNode % 512) % 512 - 1) / 512)

section StaysInTable

variable {u : UnixFilesystem} {fv6 : Filev6}

/-- Data that the slots can address overflows them when it fills them. -/
theorem overflows_iff_fillsTable {len : Nat}
    (addressable : ¬Unaddressable (inodeGetsize fv6.iNode) len) (short : len < 2 ^ 31) :
    Overflows u.f.host (inodeSectorNb u.s fv6.iNumber) (bmFindNext u.fbm).1
        (u.f.time + residualWrites u fv6.iNumber fv6.iNode)
        (inodeGetsize fv6.iNode + residualLength (inodeGetsize fv6.iNode) len)
        (appendLeft (inodeGetsize fv6.iNode) len) ↔ FillsTable u fv6 len := by
  have left : appendLeft (inodeGetsize fv6.iNode) len =
      len - (512 - inodeGetsize fv6.iNode % 512) % 512 := by
    rw [appendLeft, toInt32_of_small short, residualLength]
    split <;> omega
  rw [Unaddressable, TakesSector, not_or, not_and] at addressable
  by_cases takes : TakesSector (inodeGetsize fv6.iNode) len
  · have room : residualLength (inodeGetsize fv6.iNode) len =
        (512 - inodeGetsize fv6.iNode % 512) % 512 := by
      rw [TakesSector] at takes
      rw [residualLength]
      split <;> omega
    have most := addressable.1 takes
    rw [TakesSector] at takes
    rw [left, room]
    constructor
    · rintro ⟨i, inside, -, past, reaches⟩
      have last : (len - (512 - inodeGetsize fv6.iNode % 512) % 512 - 1) / 512 = i := by
        omega
      exact ⟨takes, by omega, by rw [last]; exact reaches⟩
    · rintro ⟨-, eight, reaches⟩
      exact ⟨_, by omega, fun j small => by omega, by omega, reaches⟩
  · have none : appendLeft (inodeGetsize fv6.iNode) len = 0 := by
      rw [TakesSector] at takes
      omega
    rw [none]
    exact iff_of_false (not_overflows_zero _) fun fills => takes fills.takes

/-- The file that is as large as an inode can address. -/
theorem filev6Writebytes_tooLarge (buf : List UInt8)
    (large : 7 * 256 * 512 ≤ inodeGetsize fv6.iNode) :
    filev6Writebytes u fv6 buf = some (errFileTooLarge, u, fv6) := by
  have sectors : inodeGetsize fv6.iNode / sectorSize + 1 > mediumFilesysSize := by
    rw [sectorSize, mediumFilesysSize]
    omega
  rw [filev6Writebytes, if_pos sectors]

/-- Below that nothing is refused for its size. -/
theorem filev6Writebytes_code {buf : List UInt8} {u' : UnixFilesystem} {fv6' : Filev6} {code : Int}
    (small : inodeGetsize fv6.iNode < 7 * 256 * 512) (bits : u.fbm.max < 2 ^ 31)
    (run : filev6Writebytes u fv6 buf = some (code, u', fv6')) : code ≠ errFileTooLarge := by
  have sectors : ¬inodeGetsize fv6.iNode / sectorSize + 1 > mediumFilesysSize := by
    rw [sectorSize, mediumFilesysSize]
    omega
  rw [filev6Writebytes, if_neg sectors] at run
  split at run
  · split at run
    rename_i filled
    have kept := (filev6WritesectorResidual_bitsKept filled).fbm
    split at run
    · cases run
    · exact writebytesLoop_code (by rw [kept.max]; exact bits) run
  · exact writebytesLoop_code bits run

end StaysInTable

/-- An append to a file whose inode is the one on the disk stays inside the address table exactly
when the file is as large as an inode can address, or the data can be addressed and does not fill
the eighth sector to its end. -/
theorem filev6Writebytes_staysInTable_iff {u : UnixFilesystem} {fv6 : Filev6} (ranges : Ranges u)
    (there : u.f.Allocated u.s fv6.iNumber.toNat fv6.iNode) (buf : List UInt8) :
    StaysInTable u fv6 buf ↔ 7 * 256 * 512 ≤ inodeGetsize fv6.iNode ∨
      (¬Unaddressable (inodeGetsize fv6.iNode) buf.length ∧ ¬FillsTable u fv6 buf.length) := by
  by_cases large : 7 * 256 * 512 ≤ inodeGetsize fv6.iNode
  · have refused := filev6Writebytes_tooLarge (u := u) buf large
    refine iff_of_true ⟨?_, fun _ => ⟨u, fv6, refused, rfl⟩⟩ (.inl large)
    rw [refused]
    exact Option.some_ne_none _
  have small := Nat.not_le.mp large
  have bits : u.fbm.max < 2 ^ 31 := by
    have blocks := u.s.sFsize.toNat_lt
    rw [ranges.fbm.2]
    omega
  have undefined := filev6Writebytes_none_iff buf there.inRange there.present (by omega)
  rw [or_iff_right large]
  constructor
  · intro stays
    have addressable : ¬Unaddressable (inodeGetsize fv6.iNode) buf.length := by
      intro unaddressable
      obtain ⟨u', fv6', run, -⟩ := stays.refuses unaddressable
      exact filev6Writebytes_code small bits run rfl
    refine ⟨addressable, fun fills => ?_⟩
    have short : buf.length < 2 ^ 31 := by
      have eight := fills.eight
      omega
    exact stays.inside ((undefined (countsDown_of_short short)).mpr
      ((overflows_iff_fillsTable addressable short).mpr fills))
  · rintro ⟨addressable, fits⟩
    have short : buf.length < 2 ^ 31 := by
      rw [Unaddressable, not_or] at addressable
      omega
    refine ⟨fun none => fits ?_, fun unaddressable => absurd unaddressable addressable⟩
    exact (overflows_iff_fillsTable addressable short).mp
      ((undefined (countsDown_of_short short)).mp none)

/-- A file of seven whole sectors. -/
def sevenSectors : Inode := fileInode 0 3584 #v[4, 5, 6, 7, 8, 9, 10, 0]

/-- A volume with that file, and with two more sectors. -/
def sevenVolume : Disk :=
  volume 2 13 [(1, emptyDirectory), (2, sevenSectors)] (List.replicate 9 zeroSector)

set_option maxRecDepth 10000 in
/-- A whole sector behind seven whole ones is stored as the ninth address. -/
theorem filev6Writebytes_leavesTable :
    ∃ u fv6, mountv6 sevenVolume = .ok u ∧ filev6Open u 2 = .ok fv6 ∧
      u.f.Allocated u.s fv6.iNumber.toNat fv6.iNode ∧
      ¬StaysInTable u fv6 (List.replicate 512 65) := by
  obtain ⟨u, mounted, opened, undefined⟩ := mountv6_check (f := sevenVolume)
    (P := fun u => filev6Open u 2 = .ok ⟨2, sevenSectors, 0⟩ ∧
      (filev6Writebytes u ⟨2, sevenSectors, 0⟩ (List.replicate 512 65)).isNone = true)
    (by decide +kernel)
  have allocated := (filev6Open_ok opened).1
  refine ⟨u, _, mounted, opened, allocated, fun stays => ?_⟩
  exact stays.inside (Option.isNone_iff_eq_none.mp undefined)

set_option maxRecDepth 10000 in
/-- A record is appended to a directory inside its table. -/
theorem filev6Writebytes_staysInTable_single :
    ∃ u fv6, mountv6 singleVolume = .ok u ∧ filev6Open u 1 = .ok fv6 ∧
      StaysInTable u fv6 (List.replicate 16 65) := by
  obtain ⟨u, mounted, opened⟩ := mountv6_check (f := singleVolume)
    (P := fun u => filev6Open u 1 = .ok ⟨1, singleDirectory, 0⟩) (by decide +kernel)
  have addressable : ¬Unaddressable (inodeGetsize singleDirectory) 16 := by
    rw [singleDirectory_size]
    decide
  refine ⟨u, _, mounted, opened,
    (filev6Writebytes_staysInTable_iff (mountv6_ranges mounted) (filev6Open_ok opened).1 _).mpr
      (.inr ⟨addressable, fun fills => ?_⟩)⟩
  have eight : inodeGetsize singleDirectory + 16 = 4096 := fills.eight
  rw [singleDirectory_size] at eight
  contradiction

end U6fs
