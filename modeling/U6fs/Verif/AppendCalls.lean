import U6fs.Spec.Calls
import U6fs.Verif.Creation

/-!
# Failing calls of an append

`filev6_writebytes` does not look at the result of `filev6_writesector_residual`, converts the
length to an `int`, and `sector_write` does not look at the result of `fwrite`. An append that
returns `ERR_NONE` has stored everything exactly when none of this matters: the length fits, the
calls that fill up the last sector succeed, and every `fwrite` is complete.
-/
namespace U6fs

open Lib

/-- The state after some more writes to the same volume. -/
structure Advanced (u u' : UnixFilesystem) (writes : Nat) : Prop where
  /-- The superblock is as before. -/
  s : u'.s = u.s
  /-- The machine is as before. -/
  host : u'.f.host = u.f.host
  /-- So many sectors were written. -/
  time : u'.f.time = u.f.time + writes

/-- No `fwrite` of so many rounds comes short: each of them writes a sector and then the inode. -/
def RoundsComplete (host : Host) (time sector table rounds : Nat) : Prop :=
  ∀ i < rounds, host.fwriteFails (time + 2 * i) sector = false ∧
    host.fwriteFails (time + 2 * i + 1) table = false

/-- The first round and the others. -/
theorem roundsComplete_succ_iff (host : Host) (time sector table rounds : Nat) :
    RoundsComplete host time sector table (rounds + 1) ↔
      (host.fwriteFails time sector = false ∧ host.fwriteFails (time + 1) table = false) ∧
        RoundsComplete host (time + 2) sector table rounds := by
  constructor
  · intro complete
    refine ⟨complete 0 (Nat.succ_pos _), fun i small => ?_⟩
    have later := complete (i + 1) (Nat.succ_lt_succ small)
    rw [show time + 2 * (i + 1) = time + 2 + 2 * i by omega] at later
    exact later
  · rintro ⟨first, rest⟩ i small
    cases i with
    | zero => exact first
    | succ i =>
      have later := rest i (Nat.lt_of_succ_lt_succ small)
      rw [show time + 2 + 2 * i = time + 2 * (i + 1) by omega] at later
      exact later

section Steps

variable {u u' : UnixFilesystem}

/-- One change after another. -/
theorem Advanced.trans {u'' : UnixFilesystem} {m n : Nat} (first : Advanced u u' m)
    (second : Advanced u' u'' n) : Advanced u u'' (m + n) :=
  ⟨second.s.trans first.s, second.host.trans first.host, by rw [second.time, first.time]; omega⟩

/-- A call of `sector_write` that returns no error has sought the sector, and what it writes is
there unless the write comes short. -/
theorem sectorWrite_done {f f' : Disk} {writer : Writer} {x : Nat} {data : Sector} {code : Int}
    (run : sectorWrite writer f x data = (code, f')) (fine : 0 ≤ code) :
    code = errNone ∧ f.host.seekWriteFails f.time x = false ∧ f'.host = f.host ∧
      f'.time = f.time + 1 ∧ f.sectors.length ≤ f'.sectors.length ∧
      (f.host.fwriteFails f.time x = false → f'.sectors[x]? = some data) := by
  rw [sectorWrite] at run
  cases seek : f.host.seekWriteFails f.time x with
  | true =>
    rw [seek, if_pos rfl, Prod.mk.injEq] at run
    rw [← run.1] at fine
    contradiction
  | false =>
    rw [seek, if_neg Bool.false_ne_true, Prod.mk.injEq] at run
    obtain ⟨rfl, rfl⟩ := run
    refine ⟨rfl, rfl, ?_, ?_, ?_, fun complete => ?_⟩
    · split <;> rfl
    · rfl
    · split
      · exact le_rfl
      · show _ ≤ (f.overwrite x data).sectors.length
        rw [f.overwrite_length]
        exact Nat.le_max_left _ _
    · rw [complete]
      exact f.overwrite_same x data

/-- A call of `inode_write` that returns no error stores the inode unless the write comes short. -/
theorem inodeWrite_done {inr : UInt16} {inode : Inode} {code : Int}
    (run : inodeWrite u inr inode = (code, u')) (fine : 0 ≤ code) :
    code = errNone ∧ Advanced u u' 1 ∧ u'.fbm = u.fbm ∧
      (u.f.host.fwriteFails u.f.time (inodeSectorNb u.s inr) = false →
        u'.f.inodeAt u'.s inr.toNat = some inode) := by
  rw [inodeWrite] at run
  cases range : inodeOutOfRange u.s inr with
  | true =>
    rw [range, if_pos rfl, Prod.mk.injEq] at run
    rw [← run.1] at fine
    contradiction
  | false =>
    rw [range, if_neg Bool.false_ne_true] at run
    cases read : sectorRead u.f (inodeSectorNb u.s inr) with
    | error ret =>
      rw [read, sectorRead_error read] at run
      simp only [Prod.mk.injEq] at run
      rw [← run.1] at fine
      contradiction
    | ok sector =>
      rw [read] at run
      cases written : sectorWrite .inodeWrite u.f (inodeSectorNb u.s inr)
          (inodeCodec.set sector (inodeIndex inr) inode) with
      | mk write f =>
        simp only [written, Prod.mk.injEq] at run
        obtain ⟨rfl, rfl⟩ := run
        obtain ⟨code, -, host, time, -, stored⟩ := sectorWrite_done written fine
        refine ⟨code, ⟨rfl, host, time⟩, rfl, fun complete => ?_⟩
        have fits : (inodeIndex inr + 1) * inodeCodec.width ≤ sectorSize := by
          rw [inodeIndex_eq, inodeCodec_width, sectorSize]
          omega
        rw [inodeAt_eq { u with f } range]
        show Option.map _ f.sectors[inodeSectorNb u.s inr]? = some inode
        rw [stored complete, Option.map_some, inodeCodec.get_set_same _ _ fits]

/-- A size that is set is stored as it is. -/
theorem inodeSetsize_size {inode iNode : Inode} {size : Nat} (small : size < 2 ^ 32)
    (set : inodeSetsize inode (toInt32 size) = .ok iNode) : inodeGetsize iNode = size := by
  rw [inodeSetsize] at set
  split at set
  · cases set
  · rename_i accepted
    cases set
    simp only [Bool.or_eq_true, decide_eq_true_eq, bne_iff_ne, ne_eq, not_or, not_lt,
      Decidable.not_not] at accepted
    have same : toInt32 size = size := by
      rw [toInt32, Int.bmod_def] at accepted ⊢
      omega
    rw [same, Int.toNat_natCast, Nat.shiftRight_eq_div_pow] at accepted
    rw [same, Int.toNat_natCast]
    exact inodeGetsize_resized inode size (by omega)

/-- The only error of `inode_setsize`. -/
theorem inodeSetsize_error {inode : Inode} {size code : Int}
    (set : inodeSetsize inode size = .error code) : code = errBadParameter := by
  rw [inodeSetsize] at set
  split at set <;> cases set
  rfl

/-- A round of the loop that goes on: all its calls return no error, and the inode is stored unless
its `fwrite` comes short. -/
theorem filev6Writesector_done {fv6 fv6' : Filev6} {buf : List UInt8} {fileSize : Nat} {code : Int}
    (run : filev6Writesector u fv6 buf fileSize = some (code, u', fv6')) (fine : 0 ≤ code) :
    (0 ≤ (bmFindNext u.fbm).1 ∧ u'.fbm = (bmFindNext u.fbm).2) ∧ Advanced u u' 2 ∧
      fv6'.iNumber = fv6.iNumber ∧
      (fileSize + buf.length < 2 ^ 32 → inodeGetsize fv6'.iNode = fileSize + buf.length) ∧
      (u.f.host.fwriteFails (u.f.time + 1) (inodeSectorNb u.s fv6.iNumber) = false →
        u'.f.inodeAt u'.s fv6.iNumber.toNat = some fv6'.iNode) ∧
      writesectorCalls u fv6 buf fileSize =
        [⟨errNone, u.f.host.fwriteFails u.f.time (bmFindNext u.fbm).1.toNat⟩, .returns errNone,
          ⟨errNone, u.f.host.fwriteFails (u.f.time + 1) (inodeSectorNb u.s fv6.iNumber)⟩] := by
  rw [filev6Writesector] at run
  split at run
  rename_i freeSector fbm search
  split at run
  · rename_i missing
    cases run
    exact absurd fine (Int.not_le.mpr missing)
  rename_i found
  split at run
  rename_i err f written
  split at run
  · rename_i failed
    cases run
    exact absurd fine (Int.not_le.mpr failed)
  rename_i done
  obtain ⟨success, -, host, time, -⟩ := sectorWrite_done written (Int.not_lt.mp done)
  split at run
  · rename_i error set
    cases run
    rw [inodeSetsize_error set] at fine
    contradiction
  rename_i iNode set
  split at run
  · rename_i slot
    split at run
    rename_i error u₁ stored
    cases run
    obtain ⟨code', advanced, bitmap, inode⟩ := inodeWrite_done stored fine
    have first : Advanced u { u with fbm, f } 1 := ⟨rfl, host, time⟩
    have calls : writesectorCalls u fv6 buf fileSize =
        [⟨err, u.f.host.fwriteFails u.f.time freeSector.toNat⟩, .returns errNone,
          ⟨code, f.host.fwriteFails f.time (inodeSectorNb u.s fv6.iNumber)⟩] := by
      rw [writesectorCalls, search]
      apply (if_neg found).trans
      rw [written]
      apply (congrArg _ (if_neg done)).trans
      rw [set]
      apply (congrArg _ (congrArg _ (dif_pos slot))).trans
      rw [inodeWriteCall, stored]
      rfl
    refine ⟨⟨?_, ?_⟩, first.trans advanced, rfl, fun small => ?_, fun complete => ?_, ?_⟩
    · rw [search]
      exact Int.not_lt.mp found
    · rw [search]
      exact bitmap
    · rw [← Int.natCast_add] at set
      exact (inodeSetsize_size small set : inodeGetsize iNode = fileSize + buf.length)
    · apply inode
      show f.host.fwriteFails f.time (inodeSectorNb u.s fv6.iNumber) = false
      rw [host, time]
      exact complete
    · rw [calls, search, success, code', host, time]
  · cases run

/-- The calls of a round that goes on, and of the rounds after it. -/
theorem writebytesLoopCalls_step {inodeSize : Nat} {buf : List UInt8} {fuel : Nat}
    {fv6 fv6' : Filev6} {left code : Int} {written : Nat} (more : 0 < left) (fine : ¬code < 0)
    (round : filev6Writesector u fv6 (window buf written (writebytesMinSize left))
      (inodeSize + written) = some (code, u', fv6')) :
    writebytesLoopCalls inodeSize buf (fuel + 1) u fv6 left written =
      writesectorCalls u fv6 (window buf written (writebytesMinSize left)) (inodeSize + written) ++
        writebytesLoopCalls inodeSize buf fuel u' fv6' (left - writebytesMinSize left)
          (written + writebytesMinSize left) := by
  rw [writebytesLoopCalls, if_pos more, round]
  exact congrArg _ (if_neg fine)

/-- The loop when it appends `left` bytes and returns `ERR_NONE`: its calls return no error, so
none of them fails exactly when no `fwrite` comes short, and then the inode is stored with the new
size. -/
theorem writebytesLoop_done {inodeSize : Nat} {buf : List UInt8} {fuel : Nat} {fv6 fv6' : Filev6}
    {left written : Nat} (enough : left ≤ fuel) (inBuf : written + left = buf.length)
    (small : inodeSize + buf.length < 2 ^ 32)
    (run : writebytesLoop inodeSize buf fuel u fv6 left written = some (errNone, u', fv6')) :
    ((∀ call ∈ writebytesLoopCalls inodeSize buf fuel u fv6 left written, ¬call.Failed) ↔
        RoundsComplete u.f.host u.f.time (bmFindNext u.fbm).1.toNat
          (inodeSectorNb u.s fv6.iNumber) ((left + 511) / 512)) ∧
      (left = 0 → u' = u ∧ fv6' = fv6) ∧
      (0 < left → RoundsComplete u.f.host u.f.time (bmFindNext u.fbm).1.toNat
          (inodeSectorNb u.s fv6.iNumber) ((left + 511) / 512) →
        ∃ inode, u'.f.inodeAt u'.s fv6.iNumber.toNat = some inode ∧
          inodeGetsize inode = inodeSize + buf.length) := by
  induction fuel generalizing u fv6 left written with
  | zero =>
    obtain rfl : left = 0 := by omega
    cases run
    refine ⟨⟨fun _ i small => ?_, fun _ call mem => ?_⟩, fun _ => ⟨rfl, rfl⟩, fun more => ?_⟩
    · omega
    · cases mem
    · omega
  | succ fuel ih =>
    rw [writebytesLoop] at run
    by_cases more : 0 < (left : Int)
    · rw [if_pos more] at run
      split at run
      · cases run
      rename_i writeSec u₁ fv6₁ round
      split at run
      · rename_i failed
        cases run
        contradiction
      rename_i fine
      obtain ⟨⟨found, bitmap⟩, advanced, number, size, stored, calls⟩ :=
        filev6Writesector_done round (Int.not_lt.mp fine)
      rw [writebytesLoopCalls_step more fine round, calls]
      -- the state of the next round, which finds the same sector
      have least := writebytesMinSize_eq left
      have chunk : (window buf written (min 512 left)).length = min 512 left :=
        window_length (by omega)
      have rest : (left : Int) - (min 512 left : Nat) = (left - min 512 left : Nat) := by
        omega
      have again : bmFindNext u₁.fbm = bmFindNext u.fbm := by
        rw [bitmap]
        exact bmFindNext_again rfl found
      rw [least, chunk] at size
      rw [least, rest] at run ⊢
      have tail := ih (by omega) (by omega) run
      rw [again, number, advanced.s, advanced.host, advanced.time] at tail
      obtain ⟨failures, none, some⟩ := tail
      have rounds : (left + 511) / 512 = (left - min 512 left + 511) / 512 + 1 := by
        omega
      rw [rounds, roundsComplete_succ_iff]
      refine ⟨?_, fun none => by omega, fun _ complete => ?_⟩
      · rw [← failures]
        simp only [List.cons_append, List.nil_append, List.forall_mem_cons, Outcome.Failed,
          Outcome.returns, Int.lt_irrefl, false_or, Bool.false_eq_true, not_false_eq_true,
          Bool.not_eq_true, true_and, and_assoc]
      · by_cases last : left - min 512 left = 0
        · obtain ⟨rfl, rfl⟩ := none last
          exact ⟨_, stored complete.1.2, by rw [size (by omega)]; omega⟩
        · exact some (by omega) complete.2
    · obtain rfl : left = 0 := by omega
      rw [if_neg more] at run
      cases run
      refine ⟨⟨fun _ i small => ?_, fun _ call mem => ?_⟩, fun _ => ⟨rfl, rfl⟩, fun more => ?_⟩
      · omega
      · rw [writebytesLoopCalls, if_neg more] at mem
        cases mem
      · omega

end Steps

/-- The calls that fill up the last sector of a file succeed: the sector is found, read and
written, and then the inode is read and written. -/
structure ResidualWorks (u : UnixFilesystem) (inr : UInt16) (inode : Inode) : Prop where
  /-- The last sector is found. -/
  found : 0 ≤ inodeFindsector u inode (inodeGetsize inode / 512 : Nat)
  /-- It is read. -/
  read : ∃ sector,
    sectorRead u.f (inodeFindsector u inode (inodeGetsize inode / 512 : Nat)).toNat = .ok sector
  /-- It is sought before it is written. -/
  seek : u.f.host.seekWriteFails u.f.time
    (inodeFindsector u inode (inodeGetsize inode / 512 : Nat)).toNat = false
  /-- It is written. -/
  write : u.f.host.fwriteFails u.f.time
    (inodeFindsector u inode (inodeGetsize inode / 512 : Nat)).toNat = false
  /-- The table sector is sought and read. -/
  tableRead : u.f.host.seekFails (u.f.time + 1) (inodeSectorNb u.s inr) = false ∧
    u.f.host.freadFails (u.f.time + 1) (inodeSectorNb u.s inr) = false
  /-- It is sought before it is written. -/
  tableSeek : u.f.host.seekWriteFails (u.f.time + 1) (inodeSectorNb u.s inr) = false
  /-- It is written. -/
  tableWrite : u.f.host.fwriteFails (u.f.time + 1) (inodeSectorNb u.s inr) = false

section Residual

variable {u : UnixFilesystem}

/-- `sector_write` returns an error when it cannot seek. -/
theorem sectorWrite_fine_iff (writer : Writer) (f : Disk) (x : Nat) (data : Sector) :
    0 ≤ (sectorWrite writer f x data).1 ↔ f.host.seekWriteFails f.time x = false := by
  rw [sectorWrite]
  cases f.host.seekWriteFails f.time x with
  | true =>
    rw [if_pos rfl]
    refine ⟨fun fine => ?_, fun seek => by cases seek⟩
    have negative : (0 : Int) ≤ -125 := fine
    omega
  | false =>
    rw [if_neg Bool.false_ne_true]
    exact ⟨fun _ => rfl, fun _ => Int.le_refl 0⟩

/-- `inode_write` returns an error for a number of the table when a transfer of its sector does. -/
theorem inodeWrite_fine_iff {inr : UInt16} (range : inodeOutOfRange u.s inr = false)
    (present : inodeSectorNb u.s inr < u.f.sectors.length) (inode : Inode) :
    0 ≤ (inodeWrite u inr inode).1 ↔
      (u.f.host.seekFails u.f.time (inodeSectorNb u.s inr) = false ∧
        u.f.host.freadFails u.f.time (inodeSectorNb u.s inr) = false) ∧
      u.f.host.seekWriteFails u.f.time (inodeSectorNb u.s inr) = false := by
  rw [inodeWrite, range, if_neg Bool.false_ne_true]
  have there := List.getElem?_eq_getElem present
  by_cases fine : u.f.host.seekFails u.f.time (inodeSectorNb u.s inr) = false ∧
      u.f.host.freadFails u.f.time (inodeSectorNb u.s inr) = false
  · have read : sectorRead u.f (inodeSectorNb u.s inr) =
        .ok u.f.sectors[inodeSectorNb u.s inr] := by
      rw [sectorRead, fine.1, fine.2, there]
      rfl
    rw [read]
    simp only [fine, and_self, true_and]
    exact sectorWrite_fine_iff _ _ _ _
  · have read : sectorRead u.f (inodeSectorNb u.s inr) = .error errIo := by
      rw [sectorRead, if_pos]
      rw [← Bool.or_eq_false_iff] at fine
      exact Bool.eq_true_of_not_eq_false fine
    rw [read]
    simp only [fine, false_and, iff_false]
    decide

/-- The calls when the last sector cannot be read. -/
theorem residualCalls_unread {fv6 : Filev6} {buf : List UInt8} {k residual size : Nat} {code : Int}
    (found : ¬inodeFindsector u fv6.iNode k < 0)
    (read : sectorRead u.f (inodeFindsector u fv6.iNode k).toNat = .error code) :
    residualCalls u fv6 buf (k + 1) residual size =
      [.returns (inodeFindsector u fv6.iNode k), .returns code] := by
  rw [residualCalls, Nat.add_sub_cancel]
  apply (congrArg _ (if_neg found)).trans
  rw [read]

/-- The calls when the last sector cannot be written. -/
theorem residualCalls_unwritten {fv6 : Filev6} {buf : List UInt8} {k residual size : Nat}
    {sector : Sector} {write : Int} {f : Disk} (found : ¬inodeFindsector u fv6.iNode k < 0)
    (read : sectorRead u.f (inodeFindsector u fv6.iNode k).toNat = .ok sector)
    (written : sectorWrite .filev6WritesectorResidual u.f (inodeFindsector u fv6.iNode k).toNat
      (sector.splice residual buf) = (write, f)) (failed : write < 0) :
    residualCalls u fv6 buf (k + 1) residual size =
      [.returns (inodeFindsector u fv6.iNode k), .returns errNone,
        .writes u.f (inodeFindsector u fv6.iNode k).toNat write] := by
  rw [residualCalls, Nat.add_sub_cancel]
  cases set : inodeSetsize fv6.iNode (toInt32 (size + buf.length)) with
  | error code => simp only [found, failed, read, written, if_true, if_false]
  | ok iNode => simp only [found, failed, read, written, if_true, if_false]

/-- The calls when the last sector is written, and what comes of it. -/
theorem residualCalls_written {fv6 : Filev6} {buf : List UInt8} {k residual size : Nat}
    {sector : Sector} {write error : Int} {f : Disk} {iNode : Inode} {u' : UnixFilesystem}
    (found : ¬inodeFindsector u fv6.iNode k < 0)
    (read : sectorRead u.f (inodeFindsector u fv6.iNode k).toNat = .ok sector)
    (written : sectorWrite .filev6WritesectorResidual u.f (inodeFindsector u fv6.iNode k).toNat
      (sector.splice residual buf) = (write, f)) (fine : ¬write < 0)
    (set : inodeSetsize fv6.iNode (toInt32 (size + buf.length)) = .ok iNode)
    (stored : inodeWrite { u with f } fv6.iNumber iNode = (error, u')) :
    residualCalls u fv6 buf (k + 1) residual size =
        [.returns (inodeFindsector u fv6.iNode k), .returns errNone,
          .writes u.f (inodeFindsector u fv6.iNode k).toNat write, .returns errNone,
          .writes f (inodeSectorNb u.s fv6.iNumber) error] ∧
      filev6WritesectorResidual u fv6 buf (k + 1) residual size =
        (errNone, u', { fv6 with iNode }) := by
  constructor
  · rw [residualCalls, Nat.add_sub_cancel, set]
    simp only [found, fine, read, written, stored, inodeWriteCall, if_false]
  · rw [filev6WritesectorResidual, Nat.add_sub_cancel, set]
    simp only [found, fine, read, written, stored, if_false]

/-- The last sector of a file in the table is filled up: no call fails exactly when the transfers
succeed, and then the inode is stored with the new size. -/
theorem filev6WritesectorResidual_done {fv6 : Filev6} {buf : List UInt8}
    (range : inodeOutOfRange u.s fv6.iNumber = false)
    (present : inodeSectorNb u.s fv6.iNumber < u.f.sectors.length)
    (small : inodeGetsize fv6.iNode + buf.length < 2 ^ 24) (residual : Nat) :
    ((∀ call ∈ residualCalls u fv6 buf (inodeGetsize fv6.iNode / 512 + 1) residual
        (inodeGetsize fv6.iNode), ¬call.Failed) ↔ ResidualWorks u fv6.iNumber fv6.iNode) ∧
    (ResidualWorks u fv6.iNumber fv6.iNode → ∃ u' inode,
      filev6WritesectorResidual u fv6 buf (inodeGetsize fv6.iNode / 512 + 1) residual
        (inodeGetsize fv6.iNode) = (errNone, u', { fv6 with iNode := inode }) ∧
      Advanced u u' 2 ∧ u'.fbm = u.fbm ∧ u'.f.inodeAt u'.s fv6.iNumber.toNat = some inode ∧
      inodeGetsize inode = inodeGetsize fv6.iNode + buf.length) := by
  by_cases found : inodeFindsector u fv6.iNode (inodeGetsize fv6.iNode / 512 : Nat) < 0
  · refine ⟨⟨fun fine => ?_, fun works => ?_⟩, fun works => ?_⟩
    · rw [residualCalls, Nat.add_sub_cancel] at fine
      exact absurd (.inl found) (fine _ List.mem_cons_self)
    · exact absurd works.found (Int.not_le.mpr found)
    · exact absurd works.found (Int.not_le.mpr found)
  cases read : sectorRead u.f
      (inodeFindsector u fv6.iNode (inodeGetsize fv6.iNode / 512 : Nat)).toNat with
  | error code =>
    have failed : code < 0 := by
      rw [sectorRead_error read]
      decide
    rw [residualCalls_unread found read]
    refine ⟨⟨fun fine => ?_, fun works => ?_⟩, fun works => ?_⟩
    · exact absurd (.inl failed) (fine _ (List.mem_cons_of_mem _ List.mem_cons_self))
    · obtain ⟨sector, there⟩ := works.read
      rw [read] at there
      cases there
    · obtain ⟨sector, there⟩ := works.read
      rw [read] at there
      cases there
  | ok sector =>
    cases written : sectorWrite .filev6WritesectorResidual u.f
        (inodeFindsector u fv6.iNode (inodeGetsize fv6.iNode / 512 : Nat)).toNat
        (sector.splice residual buf) with
    | mk write f =>
      have sought := sectorWrite_fine_iff .filev6WritesectorResidual u.f
        (inodeFindsector u fv6.iNode (inodeGetsize fv6.iNode / 512 : Nat)).toNat
        (sector.splice residual buf)
      rw [written] at sought
      by_cases failed : write < 0
      · rw [residualCalls_unwritten found read written failed]
        refine ⟨⟨fun fine => ?_, fun works => ?_⟩, fun works => ?_⟩
        · exact absurd (.inl failed) (fine _ (List.mem_cons_of_mem _ (List.mem_cons_of_mem _
            List.mem_cons_self)))
        · exact absurd (sought.mpr works.seek) (Int.not_le.mpr failed)
        · exact absurd (sought.mpr works.seek) (Int.not_le.mpr failed)
      obtain ⟨code, seek, host, time, length, -⟩ := sectorWrite_done written (Int.not_lt.mp failed)
      have set := inodeSetsize_ok fv6.iNode (inodeGetsize fv6.iNode + buf.length) small
      rw [Int.natCast_add] at set
      cases stored : inodeWrite { u with f } fv6.iNumber
          (fv6.iNode.resized (inodeGetsize fv6.iNode + buf.length)) with
      | mk error u' =>
        have transfers := inodeWrite_fine_iff (u := { u with f }) range
          (Nat.lt_of_lt_of_le present length)
          (fv6.iNode.resized (inodeGetsize fv6.iNode + buf.length))
        have run := residualCalls_written found read written failed set stored
        rw [stored, host, time] at transfers
        rw [run.1, run.2]
        constructor
        · simp only [List.forall_mem_cons, Outcome.Failed, Outcome.returns, Outcome.writes, host,
            time, Bool.false_eq_true, not_false_eq_true, not_or, Int.not_lt, transfers]
          constructor
          · rintro ⟨-, -, ⟨-, complete⟩, -, ⟨⟨tableRead, tableSeek⟩, tableWrite⟩, -⟩
            exact ⟨Int.not_lt.mp found, ⟨sector, read⟩, seek, Bool.eq_false_iff.mpr complete,
              tableRead, tableSeek, Bool.eq_false_iff.mpr tableWrite⟩
          · intro works
            refine ⟨⟨works.found, trivial⟩, ⟨Int.le_refl 0, trivial⟩,
              ⟨Int.not_lt.mp failed, Bool.eq_false_iff.mp works.write⟩, ⟨Int.le_refl 0, trivial⟩,
              ⟨⟨works.tableRead, works.tableSeek⟩, Bool.eq_false_iff.mp works.tableWrite⟩, ?_⟩
            intro call mem
            cases mem
        · intro works
          have fine := transfers.mpr ⟨works.tableRead, works.tableSeek⟩
          obtain ⟨-, advanced, bitmap, there⟩ := inodeWrite_done stored fine
          have first : Advanced u { u with f } 1 := ⟨rfl, host, time⟩
          refine ⟨u', _, rfl, first.trans advanced, bitmap, there ?_, ?_⟩
          · show f.host.fwriteFails f.time (inodeSectorNb u.s fv6.iNumber) = false
            rw [host, time]
            exact works.tableWrite
          · exact inodeGetsize_resized _ _ small

end Residual

/-- What an append needs of the machine so that all of it is stored: a length that an `int` holds,
and transfers that succeed where the code does not look at them. -/
structure StoresAll (u : UnixFilesystem) (inr : UInt16) (inode : Inode) (len : Nat) : Prop where
  /-- The length is not cut. -/
  length : len < 2 ^ 31
  /-- A partly used last sector is filled up. -/
  residual : inodeGetsize inode % 512 ≠ 0 → ResidualWorks u inr inode
  /-- No `fwrite` of the new sectors comes short; the same sector is found for all of them. -/
  rounds : RoundsComplete u.f.host
    (if inodeGetsize inode % 512 = 0 then u.f.time else u.f.time + 2)
    (bmFindNext u.fbm).1.toNat (inodeSectorNb u.s inr)
    ((len - (512 - inodeGetsize inode % 512) % 512 + 511) / 512)

/-- On a working machine an append stores all of a buffer of less than 2 GiB when the last sector
is there. -/
theorem StoresAll.of_faultless {u : UnixFilesystem} (works : u.f.host.Faultless) (inr : UInt16)
    {inode : Inode} {len : Nat} (short : len < 2 ^ 31)
    (last : inodeGetsize inode % 512 ≠ 0 → ¬LastSectorMissing u inode) :
    StoresAll u inr inode len := by
  refine ⟨short, fun residual => ?_, fun i _ => ⟨works.write _ _, works.write _ _⟩⟩
  have there := last residual
  rw [LastSectorMissing, not_or] at there
  have found := Int.not_lt.mp there.1
  obtain ⟨x, at_x⟩ := Int.eq_ofNat_of_zero_le found
  cases sector : u.f.sectors[x]? with
  | none => exact absurd ⟨x, at_x, sector⟩ there.2
  | some content =>
    refine ⟨found, ⟨content, ?_⟩, works.seekWrite _ _, works.write _ _,
      ⟨works.seek _ _, works.read _ _⟩, works.seekWrite _ _, works.write _ _⟩
    have number : inodeFindsector u inode (inodeGetsize inode / 512 : Nat) = x := at_x
    rw [number, Int.toNat_natCast, sectorRead_faultless works, sector]

section Append

variable {u u' : UnixFilesystem} {fv6 fv6' : Filev6} {buf : List UInt8}

/-- How much goes into the rest of the last sector, and how much is left for new sectors. -/
theorem toWriteSmallSector_eq (size len : Nat) (residual : size % 512 ≠ 0) :
    toWriteSmallSector size len = min len (512 - size % 512) ∧
      len - min len (512 - size % 512) = len - (512 - size % 512) % 512 := by
  rw [toWriteSmallSector, sectorSize]
  constructor
  · split <;> omega
  · omega

/-- An append after the last sector was filled up, or to a file that has no partly used one. -/
theorem filev6Writebytes_residual (fits : inodeGetsize fv6.iNode / 512 + 1 ≤ 1792)
    (residual : inodeGetsize fv6.iNode % 512 ≠ 0) (short : buf.length < 2 ^ 31)
    {written : UnixFilesystem} {inode : Inode} {code : Int}
    (filled : filev6WritesectorResidual u fv6
      (buf.take (min buf.length (512 - inodeGetsize fv6.iNode % 512)))
      (inodeGetsize fv6.iNode / 512 + 1) (inodeGetsize fv6.iNode % 512)
      (inodeGetsize fv6.iNode) = (code, written, { fv6 with iNode := inode })) :
    filev6Writebytes u fv6 buf =
        writebytesLoop (inodeGetsize fv6.iNode) buf buf.length written { fv6 with iNode := inode }
          (buf.length - min buf.length (512 - inodeGetsize fv6.iNode % 512) : Nat)
          (min buf.length (512 - inodeGetsize fv6.iNode % 512)) ∧
      writebytesCalls u fv6 buf =
        residualCalls u fv6 (buf.take (min buf.length (512 - inodeGetsize fv6.iNode % 512)))
          (inodeGetsize fv6.iNode / 512 + 1) (inodeGetsize fv6.iNode % 512)
          (inodeGetsize fv6.iNode) ++
        writebytesLoopCalls (inodeGetsize fv6.iNode) buf buf.length written
          { fv6 with iNode := inode }
          (buf.length - min buf.length (512 - inodeGetsize fv6.iNode % 512) : Nat)
          (min buf.length (512 - inodeGetsize fv6.iNode % 512)) := by
  have small := (toWriteSmallSector_eq (inodeGetsize fv6.iNode) buf.length residual).1
  have left : toInt32 buf.length -
      (min buf.length (512 - inodeGetsize fv6.iNode % 512) : Nat) =
        (buf.length - min buf.length (512 - inodeGetsize fv6.iNode % 512) : Nat) := by
    rw [toInt32_of_small short]
    omega
  constructor
  · rw [filev6Writebytes, if_neg (Nat.not_lt.mpr fits), if_pos residual, small, filled]
    simp only [if_neg (not_totalUnderflows short)]
    show writebytesLoop _ _ _ _ _ (toInt32 buf.length - (min buf.length _ : Nat)) _ = _
    rw [left]
  · rw [writebytesCalls, if_neg (Nat.not_lt.mpr fits), if_pos residual, small, filled]
    show _ ++ writebytesLoopCalls _ _ _ _ _ (toInt32 buf.length - (min buf.length _ : Nat)) _ = _
    rw [left]

/-- An append to a file without a partly used sector. -/
theorem filev6Writebytes_whole (fits : inodeGetsize fv6.iNode / 512 + 1 ≤ 1792)
    (whole : inodeGetsize fv6.iNode % 512 = 0) (short : buf.length < 2 ^ 31) :
    filev6Writebytes u fv6 buf =
        writebytesLoop (inodeGetsize fv6.iNode) buf buf.length u fv6 buf.length 0 ∧
      writebytesCalls u fv6 buf =
        writebytesLoopCalls (inodeGetsize fv6.iNode) buf buf.length u fv6 buf.length 0 := by
  constructor
  · rw [filev6Writebytes, if_neg (Nat.not_lt.mpr fits), if_neg (not_not.mpr whole),
      toInt32_of_small short]
  · rw [writebytesCalls, if_neg (Nat.not_lt.mpr fits), if_neg (not_not.mpr whole),
      toInt32_of_small short]

/-- Only files below 1792 sectors are appended to. -/
theorem filev6Writebytes_fits (run : filev6Writebytes u fv6 buf = some (errNone, u', fv6')) :
    inodeGetsize fv6.iNode / 512 + 1 ≤ 1792 := by
  by_contra large
  rw [filev6Writebytes, if_pos (Nat.not_le.mp large)] at run
  cases run

end Append

section Stored

variable {u u' : UnixFilesystem} {fv6 fv6' : Filev6} {buf : List UInt8}
  (run : filev6Writebytes u fv6 buf = some (errNone, u', fv6'))
  (short : buf.length < 2 ^ 31)

include run short

/-- An append to a file without a partly used sector stores everything exactly when no `fwrite`
comes short. -/
theorem storesAll_whole_iff (there : u.f.inodeAt u.s fv6.iNumber.toNat = some fv6.iNode)
    (whole : inodeGetsize fv6.iNode % 512 = 0) :
    ((∀ call ∈ writebytesCalls u fv6 buf, ¬call.Failed) ∧
        ∃ inode, u'.f.inodeAt u'.s fv6.iNumber.toNat = some inode ∧
          inodeGetsize inode = inodeGetsize fv6.iNode + buf.length) ↔
      RoundsComplete u.f.host u.f.time (bmFindNext u.fbm).1.toNat
        (inodeSectorNb u.s fv6.iNumber) ((buf.length + 511) / 512) := by
  have fits := filev6Writebytes_fits run
  obtain ⟨same, calls⟩ := filev6Writebytes_whole (u := u) fits whole short
  rw [same] at run
  obtain ⟨failures, none, some⟩ :=
    writebytesLoop_done (Nat.le_refl _) (Nat.zero_add _) (by omega) run
  rw [calls, failures]
  refine ⟨fun both => both.1, fun complete => ⟨complete, ?_⟩⟩
  by_cases empty : buf.length = 0
  · obtain ⟨rfl, -⟩ := none empty
    exact ⟨fv6.iNode, there, by omega⟩
  · exact some (Nat.pos_of_ne_zero empty) complete

/-- An append to a file with a partly used sector stores everything exactly when that sector is
filled up and no `fwrite` behind it comes short. -/
theorem storesAll_residual_iff (range : inodeOutOfRange u.s fv6.iNumber = false)
    (present : inodeSectorNb u.s fv6.iNumber < u.f.sectors.length)
    (residual : inodeGetsize fv6.iNode % 512 ≠ 0) :
    ((∀ call ∈ writebytesCalls u fv6 buf, ¬call.Failed) ∧
        ∃ inode, u'.f.inodeAt u'.s fv6.iNumber.toNat = some inode ∧
          inodeGetsize inode = inodeGetsize fv6.iNode + buf.length) ↔
      ResidualWorks u fv6.iNumber fv6.iNode ∧
        RoundsComplete u.f.host (u.f.time + 2) (bmFindNext u.fbm).1.toNat
          (inodeSectorNb u.s fv6.iNumber)
          ((buf.length - (512 - inodeGetsize fv6.iNode % 512) % 512 + 511) / 512) := by
  have fits := filev6Writebytes_fits run
  obtain ⟨small, rest⟩ := toWriteSmallSector_eq (inodeGetsize fv6.iNode) buf.length residual
  have length : (buf.take (min buf.length (512 - inodeGetsize fv6.iNode % 512))).length =
      min buf.length (512 - inodeGetsize fv6.iNode % 512) := by
    rw [List.length_take]
    omega
  have newSize : inodeGetsize fv6.iNode +
      (buf.take (min buf.length (512 - inodeGetsize fv6.iNode % 512))).length < 2 ^ 24 := by
    rw [length]
    omega
  obtain ⟨failures, filled⟩ := filev6WritesectorResidual_done range present newSize
    (inodeGetsize fv6.iNode % 512)
  by_cases works : ResidualWorks u fv6.iNumber fv6.iNode
  · obtain ⟨u₁, inode₁, done, advanced, bitmap, stored, size⟩ := filled works
    rw [length] at size
    obtain ⟨same, calls⟩ := filev6Writebytes_residual fits residual short done
    rw [same] at run
    obtain ⟨behind, none, some⟩ := writebytesLoop_done (by omega) (by omega) (by omega) run
    rw [advanced.host, advanced.time, advanced.s, bitmap, rest] at behind some
    have parts : (∀ call ∈ writebytesCalls u fv6 buf, ¬call.Failed) ↔
        RoundsComplete u.f.host (u.f.time + 2) (bmFindNext u.fbm).1.toNat
          (inodeSectorNb u.s fv6.iNumber)
          ((buf.length - (512 - inodeGetsize fv6.iNode % 512) % 512 + 511) / 512) := by
      rw [calls, List.forall_mem_append, rest, behind]
      exact and_iff_right (failures.mpr works)
    rw [parts, and_iff_right works]
    refine ⟨fun both => both.1, fun complete => ⟨complete, ?_⟩⟩
    by_cases last : buf.length - (512 - inodeGetsize fv6.iNode % 512) % 512 = 0
    · obtain ⟨rfl, -⟩ := none (by omega)
      exact ⟨inode₁, stored, by omega⟩
    · exact some (by omega) complete
  · constructor
    · rintro ⟨fine, -⟩
      rw [writebytesCalls, if_neg (Nat.not_lt.mpr fits), if_pos residual, small] at fine
      exact absurd (failures.mp fun call mem => fine call (List.mem_append_left _ mem)) works
    · rintro ⟨works', -⟩
      exact absurd works' works

end Stored

/-- An append to an opened file that returns `ERR_NONE` made no failing call and left the inode with
the new size exactly when the length and the machine are such. -/
theorem filev6Writebytes_storesAll_iff {u u' : UnixFilesystem} {inr : UInt16} {fv6 fv6' : Filev6}
    {buf : List UInt8} (opened : filev6Open u inr = .ok fv6)
    (run : filev6Writebytes u fv6 buf = some (errNone, u', fv6')) :
    ((∀ call ∈ writebytesCalls u fv6 buf, ¬call.Failed) ∧
        ∃ inode, u'.f.inodeAt u'.s inr.toNat = some inode ∧
          inodeGetsize inode = inodeGetsize fv6.iNode + buf.length) ↔
      StoresAll u inr fv6.iNode buf.length := by
  obtain ⟨allocated, is⟩ := filev6Open_ok opened
  have number : fv6.iNumber = inr := by rw [is]
  rw [← number] at allocated ⊢
  by_cases short : buf.length < 2 ^ 31
  · by_cases whole : inodeGetsize fv6.iNode % 512 = 0
    · rw [storesAll_whole_iff run short allocated.1 whole]
      have all : buf.length - (512 - inodeGetsize fv6.iNode % 512) % 512 = buf.length := by
        omega
      constructor
      · intro complete
        refine ⟨short, fun residual => absurd whole residual, ?_⟩
        rw [if_pos whole, all]
        exact complete
      · intro stores
        have complete := stores.rounds
        rw [if_pos whole, all] at complete
        exact complete
    · rw [storesAll_residual_iff run short allocated.inRange allocated.present whole]
      constructor
      · rintro ⟨works, complete⟩
        refine ⟨short, fun _ => works, ?_⟩
        rw [if_neg whole]
        exact complete
      · intro stores
        have complete := stores.rounds
        rw [if_neg whole] at complete
        exact ⟨stores.residual whole, complete⟩
  · constructor
    · rintro ⟨-, inode, -, size⟩
      have bound := inodeGetsize_lt inode
      omega
    · intro stores
      exact absurd stores.length short

/-- A file of ten bytes in sector 4. -/
def tenBytes : Inode := fileInode 0 10 (oneAddress 4)

/-- A volume with that file, on a machine that cannot read sector 4. -/
def badSectorVolume : Disk :=
  { volume 2 6 [(1, emptyDirectory), (2, tenBytes)] (List.replicate 3 zeroSector) with
    host := { Host.quiet with freadFails := fun _ sector => sector = 4 } }

set_option maxRecDepth 10000 in
/-- An append returns `ERR_NONE` although the last sector could not be read and nothing was
appended. -/
theorem filev6Writebytes_losesBytes :
    ∃ u fv6 u' fv6', mountv6 badSectorVolume = .ok u ∧ filev6Open u 2 = .ok fv6 ∧
      filev6Writebytes u fv6 [65] = some (errNone, u', fv6') ∧
      (∃ call ∈ writebytesCalls u fv6 [65], call.Failed) ∧
      (u'.f.inodeAt u'.s 2).map inodeGetsize = some 10 := by
  obtain ⟨u, mounted, opened, run, failed⟩ := mountv6_check (f := badSectorVolume)
    (P := fun u => filev6Open u 2 = .ok ⟨2, tenBytes, 0⟩ ∧
      (filev6Writebytes u ⟨2, tenBytes, 0⟩ [65]).map (fun result =>
        (result.1, (result.2.1.f.inodeAt result.2.1.s 2).map inodeGetsize)) =
          some (errNone, some 10) ∧
      ∃ call ∈ writebytesCalls u ⟨2, tenBytes, 0⟩ [65], call.Failed) (by decide +kernel)
  obtain ⟨⟨code, u', fv6'⟩, is, result⟩ := Option.map_eq_some_iff.mp run
  obtain ⟨rfl, size⟩ := Prod.mk.inj result
  exact ⟨u, _, u', fv6', mounted, opened, is, failed, size⟩

set_option maxRecDepth 10000 in
/-- A record is appended to a directory on a machine that works. -/
theorem filev6Writebytes_storesAll_single :
    ∃ u fv6 u' fv6', mountv6 singleVolume = .ok u ∧ filev6Open u 1 = .ok fv6 ∧
      filev6Writebytes u fv6 (List.replicate 16 65) = some (errNone, u', fv6') ∧
      (∀ call ∈ writebytesCalls u fv6 (List.replicate 16 65), ¬call.Failed) ∧
      ∃ inode, u'.f.inodeAt u'.s 1 = some inode ∧ inodeGetsize inode = 32 := by
  obtain ⟨u, mounted, opened, run, sector⟩ := mountv6_check (f := singleVolume)
    (P := fun u => filev6Open u 1 = .ok ⟨1, singleDirectory, 0⟩ ∧
      (filev6Writebytes u ⟨1, singleDirectory, 0⟩ (List.replicate 16 65)).map Prod.fst =
        some errNone ∧
      inodeFindsector u singleDirectory 0 = 4 ∧ u.f.sectors.length = 7) (by decide +kernel)
  obtain ⟨⟨code, u', fv6'⟩, is, rfl⟩ := Option.map_eq_some_iff.mp run
  have works : u.f.host.Faultless := by
    rw [(mountv6_coherent mounted).1]
    exact Host.quiet_faultless
  have last : inodeGetsize singleDirectory % 512 ≠ 0 → ¬LastSectorMissing u singleDirectory := by
    rintro - missing
    rw [LastSectorMissing, singleDirectory_size] at missing
    have found : inodeFindsector u singleDirectory (16 / 512 : Nat) = 4 := sector.1
    rcases missing with negative | ⟨x, at_x, absent⟩
    · rw [found] at negative
      contradiction
    · rw [found] at at_x
      rw [List.getElem?_eq_none_iff] at absent
      omega
  have stores := StoresAll.of_faultless works 1 (by decide : 16 < 2 ^ 31) last
  obtain ⟨fine, stored⟩ := (filev6Writebytes_storesAll_iff opened is).mpr stores
  exact ⟨u, _, u', fv6', mounted, opened, is, fine, stored⟩

end U6fs
