import U6fs.Spec.ScanTrace
import U6fs.Verif.Scan

/-!
# The scan of a mount is total

Whatever is on the disk, the scan ends and stays inside the arrays it reads. The marking loop has
no counter in its condition: it ends because `inode_findsector` returns a negative number at the
latest for the first offset behind the size. The limits that the scan computes from the size reach
the last slot of `i_addr` and the last entry of a sector, and no further.
-/
namespace U6fs

open Lib

/-- An access is to a slot of `i_addr`, or to two bytes of a sector. -/
def Access.Inside : Access → Prop
  | .addr index => 0 ≤ index ∧ index < addrSmallLength
  | .entry offset => 0 ≤ offset ∧ offset + 2 ≤ sectorSize
  | .findsector => True

namespace BmblockArray

/-- Bit `p` of the words of a bitmap. -/
def rawBit (b : BmblockArray) (p : Nat) : Bool :=
  Word.bit (b.bm.getD (p / bitsPerVector) 0) (p % bitsPerVector)

/-- A bitmap differs from another one in bits that stand for numbers of its range only. -/
structure Confined (before after : BmblockArray) : Prop where
  /-- The range starts as before. -/
  min : after.min = before.min
  /-- The range ends as before. -/
  max : after.max = before.max
  /-- There are as many words as before. -/
  length : after.bm.length = before.bm.length
  /-- The bits behind the range are as before. -/
  outside : ∀ p, before.max < before.min + p → after.rawBit p = before.rawBit p

namespace Confined

/-- Nothing differs. -/
protected theorem refl (b : BmblockArray) : Confined b b := ⟨rfl, rfl, rfl, fun _ _ => rfl⟩

/-- One change after another. -/
protected theorem trans {b b' b'' : BmblockArray} (first : Confined b b')
    (second : Confined b' b'') : Confined b b'' := by
  constructor
  case min => exact second.min.trans first.min
  case max => exact second.max.trans first.max
  case length => exact second.length.trans first.length
  case outside =>
    intro p behind
    rw [second.outside p (by rw [first.min, first.max]; exact behind), first.outside p behind]

/-- `bm_set` touches bits of the range only. -/
protected theorem bmSet (b : BmblockArray) (x : Nat) : Confined b (bmSet b x) := by
  by_cases target : b.min ≤ x ∧ x ≤ b.max
  · constructor
    case min => exact bmSet_min b x
    case max => exact bmSet_max b x
    case length => rw [(bmSet b x).words, b.words, bmSet, dif_pos target]
    case outside =>
      intro p behind
      have other : ¬(p / bitsPerVector = (x - b.min) / bitsPerVector ∧
          p % bitsPerVector = (x - b.min) % bitsPerVector) := by
        simp only [bitsPerVector]
        omega
      simp only [rawBit, U6fs.bmSet, dif_pos target]
      rw [bit_written b target (v := true) (fun j small => by
        rw [Word.bit_or_shift _ (Nat.mod_lt _ (by decide))]
        split <;> simp_all) _ (Nat.mod_lt _ (by decide)), if_neg other]
  · have same : U6fs.bmSet b x = b := dif_neg target
    rw [same]
    exact .refl b

end Confined

end BmblockArray

open BmblockArray

/-- Whatever is on the disk, the scan of a mount comes to an end, and neither its reads nor its
marks leave the arrays that they are for. -/
structure ScanTotal (u : UnixFilesystem) : Prop where
  /-- No marking loop takes as many turns as this, so the scan ends. -/
  ends : ∀ turns, 2 ^ 15 + 2 ≤ turns → ∃ result, fillBitmapsRun turns u = some result
  /-- The slots and the entries that are read exist. -/
  inside : ∀ turns code u' accesses, fillBitmapsRun turns u = some (code, u', accesses) →
    ∀ access ∈ accesses, access.Inside
  /-- The calls of `inode_findsector` for one inode, whatever its bytes are. -/
  calls : ∀ turns inode v code v' accesses, v.f = u.f →
    writeSectorRun turns inode v = some (code, v', accesses) →
    accesses.count .findsector ≤ inodeGetsize inode / 512 + 3
  /-- Bits of the ranges of the bitmaps are touched, and no others. -/
  bits : ∀ turns code u' accesses, fillBitmapsRun turns u = some (code, u', accesses) →
    Confined u.ibm u'.ibm ∧ Confined u.fbm u'.fbm
  /-- On a table that has a sector, the scan so described has the result of `fill_bitmaps`. -/
  agrees : 1 ≤ u.s.sIsize.toNat → ∀ turns, 2 ^ 15 + 2 ≤ turns → ∀ code u' accesses,
    fillBitmapsRun turns u = some (code, u', accesses) →
      fillBitmaps u = if code = errNone then .ok u' else .error code

section Accesses

variable (u : UnixFilesystem) (inode : Inode)

/-- The reads of `inode_findsector` are inside: it looks at the size of the file before it looks at
the inode. -/
theorem findsectorAccesses_inside (fileSecOff : Int) :
    ∀ access ∈ findsectorAccesses u inode fileSecOff, access.Inside := by
  intro access mem
  rw [findsectorAccesses, List.mem_cons] at mem
  rcases mem with rfl | mem
  · exact trivial
  · split at mem
    · cases mem
    · dsimp only at mem
      split at mem
      · cases mem
      · rename_i known
        simp only [Bool.or_eq_true, decide_eq_true_eq, ge_iff_le, not_or, not_lt, not_le] at known
        obtain ⟨positive, below⟩ := known
        split at mem
        · rename_i small
          rw [smallFilesysSize] at small
          rw [List.mem_singleton] at mem
          subst mem
          show 0 ≤ fileSecOff ∧ fileSecOff < 8
          omega
        · split at mem
          · rename_i medium
            rw [mediumFilesysSize] at medium
            rw [List.mem_cons] at mem
            rcases mem with rfl | mem
            · show 0 ≤ fileSecOff.tdiv 256 ∧ fileSecOff.tdiv 256 < 8
              rw [Int.tdiv_eq_ediv_of_nonneg positive]
              omega
            · split at mem
              · cases mem
              · rw [List.mem_singleton] at mem
                subst mem
                show 0 ≤ fileSecOff.tmod 256 * 2 ∧ fileSecOff.tmod 256 * 2 + 2 ≤ 512
                rw [Int.tmod_eq_emod_of_nonneg positive]
                omega
          · cases mem

/-- It is one call. -/
theorem findsectorAccesses_count (fileSecOff : Int) :
    (findsectorAccesses u inode fileSecOff).count .findsector = 1 := by
  have none : ∀ rest : List Access, Access.findsector ∉ rest →
      (Access.findsector :: rest).count .findsector = 1 := by
    intro rest absent
    rw [List.count_cons_self, List.count_eq_zero_of_not_mem absent]
  rw [findsectorAccesses]
  apply none
  dsimp only
  split
  · exact List.not_mem_nil
  · split
    · exact List.not_mem_nil
    · split
      · simp
      · split
        · split <;> simp
        · exact List.not_mem_nil

/-- The reads of the first loop are inside. -/
theorem indirectAccesses_inside : ∀ access ∈ indirectAccesses inode, access.Inside := by
  intro access mem
  simp only [indirectAccesses] at mem
  split at mem
  · rename_i medium
    rw [mediumFilesysSize] at medium
    obtain ⟨index, small, rfl⟩ := List.mem_map.mp mem
    rw [List.mem_range, addressesPerSector] at small
    show 0 ≤ (index : Int) ∧ (index : Int) < 8
    omega
  · cases mem

/-- The first loop makes no call. -/
theorem indirectAccesses_count : (indirectAccesses inode).count .findsector = 0 := by
  apply List.count_eq_zero_of_not_mem
  intro mem
  simp only [indirectAccesses] at mem
  split at mem
  · obtain ⟨index, -, other⟩ := List.mem_map.mp mem
    cases other
  · cases mem

end Accesses

section Marking

variable (inode : Inode) (u : UnixFilesystem)

/-- The first loop touches the sector bitmap only, and its bits only. -/
theorem markIndirect_confined :
    (markIndirect inode u).ibm = u.ibm ∧ Confined u.fbm (markIndirect inode u).fbm := by
  have loop (count : Nat) : ((List.range count).foldl (fun u indexIAddr =>
      { u with fbm := bmSet u.fbm (inode.iAddr.toList.getD indexIAddr 0).toNat }) u).ibm = u.ibm ∧
      Confined u.fbm ((List.range count).foldl (fun u indexIAddr =>
        { u with fbm := bmSet u.fbm (inode.iAddr.toList.getD indexIAddr 0).toNat }) u).fbm := by
    induction count with
    | zero => exact ⟨rfl, .refl _⟩
    | succ count ih =>
      rw [List.range_succ, List.foldl_append]
      exact ⟨ih.1, ih.2.trans (.bmSet _ _)⟩
  rw [markIndirect]
  split
  · exact loop _
  · exact ⟨rfl, .refl _⟩

/-- The marking loop between two turns. The offset to ask for is the number of turns taken. -/
structure MarkingInv (m : Marking) : Prop where
  /-- The disk is as before. -/
  f : m.u.f = u.f
  /-- The superblock is as before. -/
  s : m.u.s = u.s
  /-- The inode bitmap is as before. -/
  ibm : m.u.ibm = u.ibm
  /-- The sector bitmap differs in bits of its range. -/
  fbm : Confined u.fbm m.u.fbm
  /-- The last number is that of the offset before, and of offset 0 at first. -/
  last : m.sIndexInode = inodeFindsector u inode (m.sectorIndex - 1 : Nat)
  /-- The turns are few. -/
  bound : m.sectorIndex ≤ inodeGetsize inode / 512 + 2
  /-- Every turn makes one call, and one is made before. -/
  calls : m.accesses.count .findsector = m.sectorIndex + 1
  /-- What was read is inside. -/
  inside : ∀ access ∈ m.accesses, access.Inside
  /-- The rest of the loop is that of the loop with a bound. -/
  follows : markSectors inode (inodeGetsize inode / 512 + 3 - m.sectorIndex) m.u m.sIndexInode
      m.sectorIndex =
    markSectors inode (inodeGetsize inode / 512 + 3) (markIndirect inode u)
      (inodeFindsector (markIndirect inode u) inode 0) 0

/-- The invariant holds when the loop is entered. -/
theorem markingStart_inv : MarkingInv inode u (markingStart inode u) := by
  have first := markIndirect_spec u inode
  have confined := markIndirect_confined inode u
  constructor
  case f => exact first.f
  case s => exact first.s
  case ibm => exact confined.1
  case fbm => exact confined.2
  case last => exact inodeFindsector_congr first.f inode 0
  case bound => exact Nat.zero_le _
  case calls =>
    show (indirectAccesses inode ++ findsectorAccesses _ inode 0).count .findsector = 0 + 1
    rw [List.count_append, indirectAccesses_count, findsectorAccesses_count]
  case inside =>
    intro access mem
    rcases List.mem_append.mp mem with mem | mem
    · exact indirectAccesses_inside inode access mem
    · exact findsectorAccesses_inside _ inode 0 access mem
  case follows => rfl

/-- A turn keeps the invariant. -/
theorem MarkingInv.again {m next : Marking} (inv : MarkingInv inode u m)
    (turn : markingTurn inode m = .again next) :
    MarkingInv inode u next ∧ next.sectorIndex = m.sectorIndex + 1 ∧
      m.sectorIndex ≤ inodeGetsize inode / 512 + 1 := by
  rw [markingTurn] at turn
  split at turn
  · rename_i found
    cases turn
    -- the number before is that of an offset inside the file
    have small : m.sectorIndex ≤ inodeGetsize inode / 512 + 1 := by
      by_contra large
      have negative := inodeFindsector_past u inode (k := m.sectorIndex - 1) (by omega)
      rw [← inv.last] at negative
      omega
    obtain ⟨fuel, rest⟩ : ∃ fuel, inodeGetsize inode / 512 + 3 - m.sectorIndex = fuel + 1 :=
      ⟨inodeGetsize inode / 512 + 2 - m.sectorIndex, by omega⟩
    have next : inodeGetsize inode / 512 + 3 - (m.sectorIndex + 1) = fuel := by omega
    have follows := inv.follows
    rw [rest, markSectors, if_pos found] at follows
    refine ⟨?_, rfl, small⟩
    constructor
    case f => exact inv.f
    case s => exact inv.s
    case ibm => exact inv.ibm
    case fbm => exact inv.fbm.trans (.bmSet _ _)
    case last => exact inodeFindsector_congr inv.f inode _
    case bound => exact Nat.succ_le_succ small
    case calls =>
      show (m.accesses ++ findsectorAccesses _ inode _).count .findsector = _
      rw [List.count_append, findsectorAccesses_count, inv.calls]
    case inside =>
      intro access mem
      rcases List.mem_append.mp mem with mem | mem
      · exact inv.inside access mem
      · exact findsectorAccesses_inside _ inode _ access mem
    case follows =>
      show markSectors inode (inodeGetsize inode / 512 + 3 - (m.sectorIndex + 1)) _ _ _ = _
      rw [next]
      exact follows
  · cases turn

/-- What `write_sector_on_bitmap` does, whatever the inode is. -/
structure SectorsDone (code : Int) (u' : UnixFilesystem) (accesses : List Access) : Prop where
  /-- The disk is as before. -/
  f : u'.f = u.f
  /-- The superblock is as before. -/
  s : u'.s = u.s
  /-- The inode bitmap is as before. -/
  ibm : u'.ibm = u.ibm
  /-- Of the sector bitmap bits of its range are touched. -/
  fbm : Confined u.fbm u'.fbm
  /-- The code is 0 or an error. -/
  failing : code ≤ 0
  /-- The result is that of the loop with a bound. -/
  same : writeSectorOnBitmap inode u = if code = errNone then .ok u' else .error code
  /-- The calls of `inode_findsector` are few. -/
  calls : accesses.count .findsector ≤ inodeGetsize inode / 512 + 3
  /-- What was read is inside. -/
  inside : ∀ access ∈ accesses, access.Inside

/-- When the loop stops, `write_sector_on_bitmap` is done. -/
theorem MarkingInv.stop {m : Marking} (inv : MarkingInv inode u m) (negative : m.sIndexInode < 0) :
    SectorsDone inode u
      (if m.sIndexInode ≠ errOffsetOutOfRange then m.sIndexInode else errNone) m.u m.accesses := by
  have bound := inv.bound
  obtain ⟨fuel, rest⟩ : ∃ fuel, inodeGetsize inode / 512 + 3 - m.sectorIndex = fuel + 1 :=
    ⟨inodeGetsize inode / 512 + 2 - m.sectorIndex, by omega⟩
  have follows := inv.follows
  rw [rest, markSectors, if_neg (by omega)] at follows
  have result : writeSectorOnBitmap inode u =
      if m.sIndexInode ≠ errOffsetOutOfRange then .error m.sIndexInode else .ok m.u := by
    simp only [writeSectorOnBitmap, sectorSize, ← follows]
  constructor
  case f => exact inv.f
  case s => exact inv.s
  case ibm => exact inv.ibm
  case fbm => exact inv.fbm
  case failing =>
    split
    · exact negative.le
    · exact le_rfl
  case same =>
    rw [result]
    split
    · rw [if_neg (show m.sIndexInode ≠ 0 by omega)]
    · rw [if_pos rfl]
  case calls =>
    rw [inv.calls]
    omega
  case inside => exact inv.inside

/-- `write_sector_on_bitmap` is done within a number of turns that the size of the file gives. -/
theorem writeSectorRun_ends {turns : Nat} (enough : inodeGetsize inode / 512 + 2 < turns) :
    ∃ code u' accesses, writeSectorRun turns inode u = some (code, u', accesses) ∧
      SectorsDone inode u code u' accesses := by
  let measure (m : Marking) : Nat := inodeGetsize inode / 512 + 2 - m.sectorIndex
  have again : ∀ m next, MarkingInv inode u m → markingTurn inode m = .again next →
      MarkingInv inode u next ∧ measure next < measure m := by
    intro m next inv turn
    obtain ⟨kept, one, small⟩ := inv.again inode u turn
    refine ⟨kept, ?_⟩
    simp only [measure]
    omega
  have stop : ∀ m result, MarkingInv inode u m → markingTurn inode m = .stop result →
      SectorsDone inode u
        (if result.sIndexInode ≠ errOffsetOutOfRange then result.sIndexInode else errNone)
        result.u result.accesses := by
    intro m result inv turn
    rw [markingTurn] at turn
    split at turn
    · cases turn
    · rename_i negative
      cases turn
      exact inv.stop inode u (Int.not_le.mp negative)
  have few : measure (markingStart inode u) < turns := Nat.lt_of_le_of_lt (Nat.sub_le _ _) enough
  obtain ⟨m, run, done⟩ := loop_stops measure again stop turns (markingStart_inv inode u) few
  exact ⟨_, _, _, by rw [writeSectorRun, run]; rfl, done⟩

/-- Whatever number of turns it is given, it is done when it has a result. -/
theorem writeSectorRun_done {turns : Nat} {code : Int} {u' : UnixFilesystem}
    {accesses : List Access} (run : writeSectorRun turns inode u = some (code, u', accesses)) :
    SectorsDone inode u code u' accesses := by
  have enough : inodeGetsize inode / 512 + 2 < max turns (inodeGetsize inode / 512 + 3) := by
    omega
  obtain ⟨code', v, accesses', more, done⟩ := writeSectorRun_ends inode u enough
  rw [writeSectorRun, Option.map_eq_some_iff] at run
  obtain ⟨m, stopped, is⟩ := run
  rw [writeSectorRun, loop_more stopped (Nat.le_max_left _ _), Option.map_some, is,
    Option.some.injEq, Prod.mk.injEq, Prod.mk.injEq] at more
  obtain ⟨rfl, rfl, rfl⟩ := more
  exact done

end Marking

section Table

variable {u : UnixFilesystem}

/-- The scan between two rounds: what it has touched and read so far. -/
structure ScanInv (u v : UnixFilesystem) (accesses : List Access) : Prop where
  /-- The disk is as before. -/
  f : v.f = u.f
  /-- The superblock is as before. -/
  s : v.s = u.s
  /-- Bits of the range of the inode bitmap are touched. -/
  ibm : Confined u.ibm v.ibm
  /-- Bits of the range of the sector bitmap are touched. -/
  fbm : Confined u.fbm v.fbm
  /-- What was read is inside. -/
  inside : ∀ access ∈ accesses, access.Inside

/-- The scan is left with an error, or because a marking loop is given too few turns. -/
def LeftWell (u : UnixFilesystem) (turns : Nat) : Left → Prop
  | .running => turns < 2 ^ 15 + 2
  | .returned code v accesses => ScanInv u v accesses ∧ code < 0

/-- The outcomes of a round of the inner loop. -/
theorem fillSlotRun_eq {v : UnixFilesystem} (turns k j : Nat) (found : Bool)
    (accesses : List Access) {ret : Int} {inode : Inode}
    (read : inodeRead v (scannedInr k j) Inode.zero = (ret, inode)) :
    fillSlotRun turns k ((v, found), accesses) j =
      if ret = errNone then
        match writeSectorRun turns inode
            { v with ibm := bmSet v.ibm (scannedInr k j).toNat } with
        | none => .error .running
        | some (write, v', more) =>
          if write ≠ errNone then .error (.returned write v' (accesses ++ more))
          else .ok ((v', true), accesses ++ more)
      else if ret = errUnallocatedInode then .ok ((v, found), accesses)
      else .error
        (.returned ret { v with ibm := bmSet v.ibm (scannedInr k j).toNat } accesses) := by
  simp only [fillSlotRun, read]
  by_cases used : ret = errNone
  · subst used
    have other : errNone ≠ errUnallocatedInode := by decide
    cases run : writeSectorRun turns inode { v with ibm := bmSet v.ibm (scannedInr k j).toNat } with
    | none => simp [other, run]
    | some result => simp [other, run]
  · by_cases free : ret = errUnallocatedInode
    · simp [free]
    · simp [used, free]

/-- A code that `inode_read` returns. -/
theorem inodeRead_code (u : UnixFilesystem) (inr : UInt16) (inode : Inode) :
    (inodeRead u inr inode).1 ≤ 0 := by
  rcases inodeRead_cases u inr inode with ⟨found, -, result⟩ | result | result
  · rw [result]
    dsimp only
    split <;> decide
  · rw [result]
    show errInodeOutOfRange ≤ 0
    decide
  · rw [result]
    show errIo ≤ 0
    decide

/-- A round of the inner loop touches and reads what it may. -/
theorem fillSlotRun_keeps {v : UnixFilesystem} (turns k j : Nat) (found : Bool)
    {accesses : List Access} (inv : ScanInv u v accesses) :
    Yields (fun next => ScanInv u next.1.1 next.2) (LeftWell u turns)
      (fillSlotRun turns k ((v, found), accesses) j) := by
  cases read : inodeRead v (scannedInr k j) Inode.zero with
  | mk ret inode =>
    have negative := inodeRead_code v (scannedInr k j) Inode.zero
    have marked : ScanInv u { v with ibm := bmSet v.ibm (scannedInr k j).toNat } accesses :=
      ⟨inv.f, inv.s, inv.ibm.trans (.bmSet _ _), inv.fbm, inv.inside⟩
    rw [read] at negative
    rw [fillSlotRun_eq turns k j found accesses read]
    by_cases used : ret = errNone
    · rw [if_pos used]
      cases run : writeSectorRun turns inode
          { v with ibm := bmSet v.ibm (scannedInr k j).toNat } with
      | none =>
        -- the size of the inode says how many turns would be enough
        have size := inodeGetsize_lt inode
        by_contra many
        have enough : inodeGetsize inode / 512 + 2 < turns := by
          have bound : 2 ^ 15 + 2 ≤ turns := Nat.not_lt.mp many
          omega
        obtain ⟨_, _, _, ends, -⟩ := writeSectorRun_ends inode
          { v with ibm := bmSet v.ibm (scannedInr k j).toNat } enough
        rw [run] at ends
        cases ends
      | some result =>
        obtain ⟨write, v', more⟩ := result
        have done := writeSectorRun_done inode _ run
        have after : ScanInv u v' (accesses ++ more) := by
          constructor
          case f => exact done.f.trans inv.f
          case s => exact done.s.trans inv.s
          case ibm =>
            rw [done.ibm]
            exact marked.ibm
          case fbm => exact inv.fbm.trans done.fbm
          case inside =>
            intro access mem
            rcases List.mem_append.mp mem with mem | mem
            · exact inv.inside access mem
            · exact done.inside access mem
        dsimp only
        by_cases failed : write = errNone
        · rw [if_neg (not_not.mpr failed)]
          exact after
        · rw [if_pos failed]
          exact ⟨after, lt_of_le_of_ne done.failing failed⟩
    · rw [if_neg used]
      by_cases free : ret = errUnallocatedInode
      · rw [if_pos free]
        exact inv
      · rw [if_neg free]
        exact ⟨marked, lt_of_le_of_ne negative used⟩

/-- A round of the outer loop touches and reads what it may. -/
theorem fillSectorRun_keeps {v : UnixFilesystem} (turns k : Nat) {accesses : List Access}
    (inv : ScanInv u v accesses) :
    Yields (fun next => ScanInv u next.1 next.2) (LeftWell u turns)
      (fillSectorRun turns (v, accesses) k) := by
  have slots := foldlM_yields (fillSlotRun turns k) (fun state => ScanInv u state.1.1 state.2)
    (fun state j inv => fillSlotRun_keeps turns k j state.1.2 inv)
    (List.range inodesPerSector) (s := ((v, false), accesses)) inv
  rw [fillSectorRun]
  cases run : (List.range inodesPerSector).foldlM (fillSlotRun turns k) ((v, false), accesses) with
  | error left =>
    rw [run] at slots
    exact slots
  | ok state =>
    rw [run] at slots
    show ScanInv u (if state.1.2 then _ else _) state.2
    split
    · exact ⟨slots.f, slots.s, slots.ibm, slots.fbm.trans (.bmSet _ _), slots.inside⟩
    · exact slots

/-- The scan touches and reads what it may, and it ends when the marking loops are given enough
turns. -/
theorem fillBitmapsRun_keeps (u : UnixFilesystem) (turns : Nat) :
    match fillBitmapsRun turns u with
    | none => turns < 2 ^ 15 + 2
    | some (code, u', accesses) => ScanInv u u' accesses ∧ code ≤ 0 := by
  have start : ScanInv u u [] :=
    ⟨rfl, rfl, .refl _, .refl _, fun access mem => absurd mem List.not_mem_nil⟩
  have sectors := foldlM_yields (fillSectorRun turns) (fun state => ScanInv u state.1 state.2)
    (fun state k inv => fillSectorRun_keeps turns k inv) (List.range (tableRounds u.s))
    (s := (u, [])) start
  rw [fillBitmapsRun]
  cases run : (List.range (tableRounds u.s)).foldlM (fillSectorRun turns) (u, []) with
  | error left =>
    rw [run] at sectors
    cases left with
    | running => exact sectors
    | returned code v accesses => exact ⟨sectors.1, sectors.2.le⟩
  | ok state =>
    rw [run] at sectors
    exact ⟨sectors, le_rfl⟩

/-- A run that returns an error does so with a negative code. -/
def ReturnsError (left : Left) (code : Int) : Prop :=
  code < 0 ∧ ∃ v accesses, left = .returned code v accesses

/-- A round of the inner loop is one of the scan without a record. -/
theorem fillSlotRun_agrees {turns : Nat} (enough : 2 ^ 15 + 2 ≤ turns) (k j : Nat)
    (state : (UnixFilesystem × Bool) × List Access) :
    Agree (fun s t => s.1 = t) ReturnsError (fillSlotRun turns k state j)
      (fillBitmapsSlot k state.1 j) := by
  obtain ⟨⟨v, found⟩, accesses⟩ := state
  cases read : inodeRead v (scannedInr k j) Inode.zero with
  | mk ret inode =>
    have negative := inodeRead_code v (scannedInr k j) Inode.zero
    rw [read] at negative
    rw [fillSlotRun_eq turns k j found accesses read, fillBitmapsSlot_eq rfl rfl found k j read]
    by_cases used : ret = errNone
    · have size := inodeGetsize_lt inode
      have many : inodeGetsize inode / 512 + 2 < turns := by omega
      obtain ⟨write, v', more, run, done⟩ := writeSectorRun_ends inode
        { v with ibm := bmSet v.ibm (scannedInr k j).toNat } many
      rw [if_pos used, if_pos used, run, done.same]
      dsimp only
      by_cases failed : write = errNone
      · rw [if_neg (not_not.mpr failed), if_pos failed]
        rfl
      · rw [if_pos failed, if_neg failed]
        exact ⟨lt_of_le_of_ne done.failing failed, v', _, rfl⟩
    · rw [if_neg used, if_neg used]
      by_cases free : ret = errUnallocatedInode
      · rw [if_pos free, if_pos free]
        rfl
      · rw [if_neg free, if_neg free]
        exact ⟨lt_of_le_of_ne negative used, _, _, rfl⟩

/-- A round of the outer loop is one of the scan without a record. -/
theorem fillSectorRun_agrees {turns : Nat} (enough : 2 ^ 15 + 2 ≤ turns) (k : Nat)
    (state : UnixFilesystem × List Access) :
    Agree (fun s t => s.1 = t) ReturnsError (fillSectorRun turns state k)
      (fillBitmapsSector state.1 k) := by
  have slots := foldlM_agree (fillSlotRun turns k) (fillBitmapsSlot k) (fun s t => s.1 = t)
    ReturnsError (fun s t j same => same ▸ fillSlotRun_agrees enough k j s)
    (List.range inodesPerSector) (s := ((state.1, false), state.2)) rfl
  rw [fillSectorRun, fillBitmapsSector]
  rcases slots.cases with ⟨last, next, left, right, rfl⟩ | ⟨stopped, code, left, right, ends⟩
  · rw [left, right]
    rfl
  · rw [left, right]
    exact ends

/-- The rounds of the outer loop, when the table has a sector. -/
theorem tableRounds_eq {s : Superblock} (some : 1 ≤ s.sIsize.toNat) :
    tableRounds s = s.sIsize.toNat + s.sInodeStart.toNat - 1 - s.sInodeStart.toNat := by
  have size := s.sIsize.toNat_lt
  have start := s.sInodeStart.toNat_lt
  simp only [tableRounds]
  omega

/-- The scan as it runs has the result of the scan without a record. -/
theorem fillBitmapsRun_agrees {turns : Nat} (enough : 2 ^ 15 + 2 ≤ turns)
    (some : 1 ≤ u.s.sIsize.toNat) {code : Int} {u' : UnixFilesystem} {accesses : List Access}
    (run : fillBitmapsRun turns u = .some (code, u', accesses)) :
    fillBitmaps u = if code = errNone then .ok u' else .error code := by
  have sectors := foldlM_agree (fillSectorRun turns) fillBitmapsSector (fun s t => s.1 = t)
    ReturnsError (fun s t k same => same ▸ fillSectorRun_agrees enough k s)
    (List.range (tableRounds u.s)) (s := (u, [])) rfl
  rw [fillBitmapsRun] at run
  rw [fillBitmaps, ← tableRounds_eq some]
  rcases sectors.cases with ⟨last, next, left, right, rfl⟩ | ⟨stopped, code', left, right, ends⟩
  · rw [left] at run
    cases run
    rw [right, if_pos rfl]
  · obtain ⟨negative, v, read, rfl⟩ := ends
    rw [left] at run
    cases run
    rw [right, if_neg (show code ≠ 0 by omega)]

/-- The scan fails with negative codes. -/
theorem fillBitmaps_error (some : 1 ≤ u.s.sIsize.toNat) {code : Int}
    (failed : fillBitmaps u = .error code) : code < 0 := by
  have keeps := fillBitmapsRun_keeps u (2 ^ 15 + 2)
  cases run : fillBitmapsRun (2 ^ 15 + 2) u with
  | none =>
    rw [run] at keeps
    exact absurd keeps (Nat.lt_irrefl _)
  | some result =>
    obtain ⟨code', u', accesses⟩ := result
    rw [run] at keeps
    have same := fillBitmapsRun_agrees le_rfl some run
    rw [failed] at same
    split at same
    · cases same
    · rename_i other
      cases same
      exact lt_of_le_of_ne keeps.2 other

end Table

/-- The scan of a mount is total on every disk and every superblock. -/
theorem fillBitmaps_total (u : UnixFilesystem) : ScanTotal u := by
  have kept : ∀ {turns code u' accesses}, fillBitmapsRun turns u = some (code, u', accesses) →
      ScanInv u u' accesses := by
    intro turns code u' accesses run
    have keeps := fillBitmapsRun_keeps u turns
    rw [run] at keeps
    exact keeps.1
  constructor
  case ends =>
    intro turns enough
    have keeps := fillBitmapsRun_keeps u turns
    cases run : fillBitmapsRun turns u with
    | none =>
      rw [run] at keeps
      exact absurd enough (Nat.not_le.mpr keeps)
    | some result => exact ⟨result, rfl⟩
  case inside => exact fun turns code u' accesses run => (kept run).inside
  case calls =>
    intro turns inode v code v' accesses _ run
    exact (writeSectorRun_done inode v run).calls
  case bits => exact fun turns code u' accesses run => ⟨(kept run).ibm, (kept run).fbm⟩
  case agrees =>
    exact fun some turns enough code u' accesses run => fillBitmapsRun_agrees enough some run

end U6fs
