import U6fs.Spec.Image
import U6fs.Lib.Fold

/-!
# The scan of a mount

`fill_bitmaps` is a loop over inode numbers whose body succeeds or fails on its own, whatever
the bitmaps hold, and sets bits. The scan of a mount therefore succeeds exactly when every
number it visits is one it can walk, and the bits it sets are those of all the visits together.
-/
namespace U6fs

open Lib

/-- The file and the superblock are kept, and bits of both bitmaps are added. -/
structure Marks (before after : UnixFilesystem) (inodes sectors : Set Nat) : Prop where
  /-- The disk is as before. -/
  f : after.f = before.f
  /-- The superblock is as before. -/
  s : after.s = before.s
  /-- Inode numbers are added. -/
  ibm : before.ibm.Adds after.ibm inodes
  /-- Sector numbers are added. -/
  fbm : before.fbm.Adds after.fbm sectors

namespace Marks

/-- Nothing is added. -/
protected theorem refl (u : UnixFilesystem) : Marks u u ∅ ∅ := ⟨rfl, rfl, .refl _, .refl _⟩

/-- A sector is added. -/
theorem sector (u : UnixFilesystem) (x : Nat) : Marks u { u with fbm := bmSet u.fbm x } ∅ {x} :=
  ⟨rfl, rfl, .refl _, .bmSet _ x⟩

/-- An inode number is added. -/
theorem inode (u : UnixFilesystem) (x : Nat) : Marks u { u with ibm := bmSet u.ibm x } {x} ∅ :=
  ⟨rfl, rfl, .bmSet _ x, .refl _⟩

/-- One change after another. -/
protected theorem trans {u u' u'' : UnixFilesystem} {a b a' b' : Set Nat} (first : Marks u u' a b)
    (second : Marks u' u'' a' b') : Marks u u'' (a ∪ a') (b ∪ b') :=
  ⟨second.f.trans first.f, second.s.trans first.s, first.ibm.trans second.ibm,
    first.fbm.trans second.fbm⟩

/-- The same numbers, described in another way. -/
protected theorem congr {u u' : UnixFilesystem} {a b a' b' : Set Nat} (marks : Marks u u' a b)
    (inodes : ∀ x, x ∈ a ↔ x ∈ a') (sectors : ∀ x, x ∈ b ↔ x ∈ b') : Marks u u' a' b' :=
  ⟨marks.f, marks.s, marks.ibm.congr inodes, marks.fbm.congr sectors⟩

end Marks

section Reading

variable (u : UnixFilesystem)

/-- `inode_read` sees the disk and the superblock only. -/
theorem inodeRead_congr {u u' : UnixFilesystem} (f : u'.f = u.f) (s : u'.s = u.s) (inr : UInt16)
    (inode : Inode) : inodeRead u' inr inode = inodeRead u inr inode := by
  simp only [inodeRead, f, s]

/-- `inode_findsector` sees the disk only. -/
theorem inodeFindsector_congr {u u' : UnixFilesystem} (f : u'.f = u.f) (inode : Inode) (k : Int) :
    inodeFindsector u' inode k = inodeFindsector u inode k := by
  simp only [inodeFindsector, inodeFindsectorBigfile, f]

/-- The number of an inode in range, split into its sector and its place there. -/
theorem inodeAt_eq {inr : UInt16} (inRange : inodeOutOfRange u.s inr = false) :
    u.f.inodeAt u.s inr.toNat =
      u.f.sectors[inodeSectorNb u.s inr]?.map fun sector =>
        inodeCodec.get sector (inodeIndex inr) := by
  obtain ⟨low, high⟩ := (inodeOutOfRange_eq_false_iff u.s inr).mp inRange
  rw [Disk.inodeAt, if_pos ⟨low, high⟩, inodeIndex_eq, inodeSectorNb, Nat.add_comm]

/-- What `inode_read` returns: the inode of the table and its state, or an error and no inode. -/
theorem inodeRead_cases (inr : UInt16) (inode : Inode) :
    (∃ found, u.f.inodeAt u.s inr.toNat = some found ∧
        inodeRead u inr inode =
          (if found.isAllocated then errNone else errUnallocatedInode, found)) ∨
      inodeRead u inr inode = (errInodeOutOfRange, inode) ∨
      inodeRead u inr inode = (errIo, inode) := by
  unfold inodeRead
  cases range : inodeOutOfRange u.s inr with
  | true => exact .inr (.inl (by simp))
  | false =>
    cases read : sectorRead u.f (inodeSectorNb u.s inr) with
    | error code =>
      rw [sectorRead_error read]
      exact .inr (.inr (by simp))
    | ok sector =>
      refine .inl ⟨inodeCodec.get sector (inodeIndex inr), ?_, by simp⟩
      rw [inodeAt_eq u range, sectorRead_ok read, Option.map_some]

/-- A successful read returns the allocated inode of that number. -/
theorem inodeRead_allocated {inr : UInt16} {inode : Inode}
    (read : (inodeRead u inr inode).1 = errNone) :
    u.f.Allocated u.s inr.toNat (inodeRead u inr inode).2 := by
  rcases inodeRead_cases u inr inode with ⟨found, there, result⟩ | result | result
  · rw [result] at read ⊢
    refine ⟨there, ?_⟩
    by_contra free
    simp [free] at read
  · simp [result] at read
  · simp [result] at read

/-- A read that finds the inode unallocated. -/
theorem inodeRead_unallocated {inr : UInt16} {inode : Inode}
    (read : (inodeRead u inr inode).1 = errUnallocatedInode) :
    ∃ found, u.f.inodeAt u.s inr.toNat = some found ∧ found.isAllocated = false := by
  rcases inodeRead_cases u inr inode with ⟨found, there, result⟩ | result | result
  · rw [result] at read
    refine ⟨found, there, ?_⟩
    by_contra used
    simp [used] at read
  · simp [result] at read
  · simp [result] at read

/-- Past the end of a file `inode_findsector` fails. -/
theorem inodeFindsector_past (inode : Inode) {k : Nat} (past : inodeGetsize inode / 512 + 1 ≤ k) :
    inodeFindsector u inode k < 0 := by
  unfold inodeFindsector
  split
  · decide
  · rw [if_pos (by simp only [sectorSize, Bool.or_eq_true, decide_eq_true_eq, ge_iff_le]; omega)]
    decide

end Reading

section Walk

variable (u : UnixFilesystem) (inode : Inode)

/-- The walk of the scan reaches sector `x`: `inode_findsector` returns it at some offset, and
nothing negative up to there. -/
def Walked (x : Nat) : Prop :=
  ∃ k : Nat, (∀ i : Nat, i ≤ k → 0 ≤ inodeFindsector u inode i) ∧ inodeFindsector u inode k = x

/-- The walk stops with the code that the scan takes for the end of the file. -/
def WalkEnds : Prop :=
  ∃ n : Nat, (∀ i : Nat, i < n → 0 ≤ inodeFindsector u inode i) ∧
    inodeFindsector u inode n = errOffsetOutOfRange

/-- The addresses that the scan marks before it walks. -/
def AddressMarked (x : Nat) : Prop :=
  inodeGetsize inode / 512 + 1 ≤ 1792 ∧
    ∃ j ≤ (inodeGetsize inode / 512 + 1) / 256, (inode.iAddr.toList.getD j 0).toNat = x

/-- The sectors that the scan marks for an allocated inode. -/
def scanned : Set Nat := {x | AddressMarked inode x ∨ Walked u inode x}

/-- The marking loop, entered with the number of the offset before `k` (offset 0 is asked for
twice), marks the numbers from there up to the first negative one and returns that. -/
theorem markSectors_spec : ∀ (fuel k : Nat) (u u' : UnixFilesystem) (code : Int),
    inodeGetsize inode / 512 + 2 < fuel + k →
    markSectors inode fuel u (inodeFindsector u inode (k - 1 : Nat)) k = (code, u') →
    ∃ n, k - 1 ≤ n ∧ (∀ i : Nat, k - 1 ≤ i → i < n → 0 ≤ inodeFindsector u inode i) ∧
      inodeFindsector u inode n = code ∧ code < 0 ∧
      Marks u u' ∅ {x | ∃ i : Nat, k - 1 ≤ i ∧ i < n ∧ inodeFindsector u inode i = x}
  | 0, k, u, u', code, enough, run => by
    simp only [markSectors, Prod.mk.injEq] at run
    obtain ⟨rfl, rfl⟩ := run
    refine ⟨k - 1, le_refl _, fun i low high => absurd high (by omega), rfl,
      inodeFindsector_past u inode (by omega), (Marks.refl u).congr (fun _ => Iff.rfl) fun x => ?_⟩
    simp only [Set.mem_empty_iff_false, Set.mem_ofPred_eq, false_iff, not_exists, not_and]
    omega
  | fuel + 1, k, u, u', code, enough, run => by
    simp only [markSectors] at run
    split at run
    · rename_i found
      have same : ∀ i : Int, inodeFindsector
          { u with fbm := bmSet u.fbm (inodeFindsector u inode (k - 1 : Nat)).toNat } inode i =
            inodeFindsector u inode i := fun i => inodeFindsector_congr rfl inode i
      obtain ⟨n, reach, positive, last, negative, marks⟩ :=
        markSectors_spec fuel (k + 1) _ u' code (by omega) run
      simp only [same, Nat.add_sub_cancel] at reach positive last marks
      have before : k - 1 < n := by
        by_contra none
        obtain rfl : n = k - 1 := by omega
        omega
      refine ⟨n, by omega, fun i low high => ?_, last, negative,
        ((Marks.sector u _).trans marks).congr (fun x => by simp) fun x => ?_⟩
      · rcases Nat.eq_or_lt_of_le low with rfl | later
        · exact found
        · exact positive i (by omega) high
      · simp only [Set.mem_union, Set.mem_singleton_iff, Set.mem_ofPred_eq]
        constructor
        · rintro (rfl | ⟨i, low, high, rest⟩)
          · exact ⟨k - 1, le_refl _, before, (Int.toNat_of_nonneg found).symm⟩
          · exact ⟨i, by omega, high, rest⟩
        · rintro ⟨i, low, high, rest⟩
          rcases Nat.eq_or_lt_of_le low with rfl | later
          · exact .inl (by omega)
          · exact .inr ⟨i, by omega, high, rest⟩
    · rename_i negative
      simp only [Prod.mk.injEq] at run
      obtain ⟨rfl, rfl⟩ := run
      refine ⟨k - 1, le_refl _, fun i low high => absurd high (by omega), rfl, by omega,
        (Marks.refl u).congr (fun _ => Iff.rfl) fun x => ?_⟩
      simp only [Set.mem_empty_iff_false, Set.mem_ofPred_eq, false_iff, not_exists, not_and]
      omega

/-- The loop over the addresses marks the addresses it visits. -/
theorem markIndirect_spec : Marks u (markIndirect inode u) ∅ {x | AddressMarked inode x} := by
  have loop (count : Nat) : Marks u ((List.range count).foldl (fun u indexIAddr =>
      { u with fbm := bmSet u.fbm (inode.iAddr.toList.getD indexIAddr 0).toNat }) u) ∅
      {x | ∃ j < count, (inode.iAddr.toList.getD j 0).toNat = x} := by
    induction count with
    | zero => exact (Marks.refl u).congr (fun _ => Iff.rfl) fun x => by simp
    | succ count ih =>
      rw [List.range_succ, List.foldl_append]
      refine (ih.trans (Marks.sector _ _)).congr (fun x => by simp) fun x => ?_
      simp only [Set.mem_union, Set.mem_ofPred_eq, Set.mem_singleton_iff]
      constructor
      · rintro (⟨j, below, rfl⟩ | rfl)
        · exact ⟨j, by omega, rfl⟩
        · exact ⟨count, by omega, rfl⟩
      · rintro ⟨j, below, rfl⟩
        rcases Nat.lt_succ_iff_lt_or_eq.mp below with before | rfl
        · exact .inl ⟨j, before, rfl⟩
        · exact .inr rfl
  by_cases small : inodeGetsize inode / sectorSize + 1 ≤ mediumFilesysSize
  · simp only [markIndirect, if_pos small]
    refine (loop _).congr (fun _ => Iff.rfl) fun x => ?_
    simp only [Set.mem_ofPred_eq, AddressMarked, Nat.lt_succ_iff]
    exact (and_iff_right small).symm
  · simp only [markIndirect, if_neg small]
    refine (Marks.refl u).congr (fun _ => Iff.rfl) fun x => ?_
    simp only [Set.mem_empty_iff_false, Set.mem_ofPred_eq, AddressMarked, false_iff, not_and]
    exact fun fits => absurd fits small

/-- `write_sector_on_bitmap` succeeds exactly when the walk ends, and marks what it scans. -/
theorem writeSectorOnBitmap_spec :
    ((∃ u', writeSectorOnBitmap inode u = .ok u') ↔ WalkEnds u inode) ∧
      ∀ u', writeSectorOnBitmap inode u = .ok u' → Marks u u' ∅ (scanned u inode) := by
  have first := markIndirect_spec u inode
  have same : ∀ i : Int, inodeFindsector (markIndirect inode u) inode i =
      inodeFindsector u inode i := fun i => inodeFindsector_congr first.f inode i
  obtain ⟨⟨code, u'⟩, run⟩ : ∃ r, markSectors inode (inodeGetsize inode / sectorSize + 1 + 2)
      (markIndirect inode u) (inodeFindsector (markIndirect inode u) inode 0) 0 = r := ⟨_, rfl⟩
  obtain ⟨n, -, positive, last, negative, marks⟩ :=
    markSectors_spec inode _ 0 _ u' code (by simp only [sectorSize]; omega) run
  simp only [same, Nat.zero_le, true_and, forall_const, Nat.zero_sub] at positive last marks
  have ends : WalkEnds u inode ↔ code = errOffsetOutOfRange := by
    constructor
    · rintro ⟨m, before, stop⟩
      rcases Nat.lt_trichotomy m n with less | rfl | more
      · have := positive m less
        rw [stop] at this
        contradiction
      · exact last.symm.trans stop
      · have := before n more
        omega
    · rintro rfl
      exact ⟨n, positive, last⟩
  simp only [writeSectorOnBitmap, run]
  constructor
  · rw [ends]
    split <;> simp_all
  · intro result ok
    split at ok
    · contradiction
    · obtain rfl := Except.ok.inj ok
      refine (first.trans marks).congr (fun x => by simp) fun x => ?_
      simp only [Set.mem_union, Set.mem_ofPred_eq, scanned, Walked]
      refine or_congr Iff.rfl ⟨?_, ?_⟩
      · rintro ⟨i, below, found⟩
        exact ⟨i, fun j upTo => positive j (by omega), found⟩
      · rintro ⟨i, upTo, found⟩
        refine ⟨i, ?_, found⟩
        by_contra beyond
        have := upTo n (by omega)
        omega

end Walk

section Visit

/-- The scan can deal with a number: its inode is unallocated, or is read and walked. -/
def VisitOk (u : UnixFilesystem) (inr : UInt16) : Prop :=
  ((inodeRead u inr Inode.zero).1 = errNone ∧ WalkEnds u (inodeRead u inr Inode.zero).2) ∨
    (inodeRead u inr Inode.zero).1 = errUnallocatedInode

/-- The inode of a number is read and found in use. -/
def ReadUsed (u : UnixFilesystem) (inr : UInt16) : Prop :=
  (inodeRead u inr Inode.zero).1 ≠ errUnallocatedInode

/-- The sectors that the scan marks at a number. -/
def visitSectors (u : UnixFilesystem) (inr : UInt16) : Set Nat :=
  {x | (inodeRead u inr Inode.zero).1 = errNone ∧ x ∈ scanned u (inodeRead u inr Inode.zero).2}

variable {u : UnixFilesystem}

/-- The sectors scanned for an inode depend on the disk only. -/
theorem scanned_congr {u' : UnixFilesystem} (f : u'.f = u.f) (inode : Inode) :
    scanned u' inode = scanned u inode := by
  simp only [scanned, Walked, inodeFindsector_congr f]

/-- Whether a walk ends depends on the disk only. -/
theorem walkEnds_congr {u' : UnixFilesystem} (f : u'.f = u.f) (inode : Inode) :
    WalkEnds u' inode ↔ WalkEnds u inode := by
  simp only [WalkEnds, inodeFindsector_congr f]

/-- The three outcomes of a round of the inner loop. -/
theorem fillBitmapsSlot_eq {v : UnixFilesystem} (f : v.f = u.f) (s : v.s = u.s) (found : Bool)
    (k j : Nat) {ret : Int} {inode : Inode}
    (read : inodeRead u (scannedInr k j) Inode.zero = (ret, inode)) :
    fillBitmapsSlot k (v, found) j =
      if ret = errNone then
        (writeSectorOnBitmap inode { v with ibm := bmSet v.ibm (scannedInr k j).toNat }).map
          fun u' => (u', true)
      else if ret = errUnallocatedInode then .ok (v, found)
      else .error ret := by
  simp only [fillBitmapsSlot, inodeRead_congr f s, read]
  by_cases used : ret = errNone
  · subst used
    simp only [↓reduceIte, ne_eq, show ¬errNone = errUnallocatedInode by decide,
      not_false_eq_true, decide_true, Bool.or_true]
    cases writeSectorOnBitmap inode _ <;> rfl
  · by_cases free : ret = errUnallocatedInode
    · simp [free]
    · simp [used, free]

/-- One round of the inner loop succeeds exactly on numbers that the scan can deal with. -/
theorem fillBitmapsSlot_ok_iff {state : UnixFilesystem × Bool} (f : state.1.f = u.f)
    (s : state.1.s = u.s) (k j : Nat) :
    (∃ next, fillBitmapsSlot k state j = .ok next) ↔ VisitOk u (scannedInr k j) := by
  obtain ⟨v, found⟩ := state
  cases read : inodeRead u (scannedInr k j) Inode.zero with
  | mk ret inode =>
    rw [fillBitmapsSlot_eq f s found k j read]
    simp only [VisitOk, read]
    by_cases used : ret = errNone
    · have walk := (writeSectorOnBitmap_spec
        { v with ibm := bmSet v.ibm (scannedInr k j).toNat } inode).1
      have disk := @walkEnds_congr u
        { v with ibm := bmSet v.ibm (scannedInr k j).toNat } f inode
      rw [if_pos used, and_iff_right used, or_iff_left (by rw [used]; decide), ← disk, ← walk]
      cases writeSectorOnBitmap inode _ <;> simp [Except.map]
    · rw [if_neg used]
      by_cases free : ret = errUnallocatedInode <;> simp [used, free]

/-- What one round of the inner loop sets. -/
theorem fillBitmapsSlot_marks {state next : UnixFilesystem × Bool} (f : state.1.f = u.f)
    (s : state.1.s = u.s) {k j : Nat} (run : fillBitmapsSlot k state j = .ok next) :
    Marks state.1 next.1 {x | ReadUsed u (scannedInr k j) ∧ x = (scannedInr k j).toNat}
        (visitSectors u (scannedInr k j)) ∧
      (next.2 = true ↔ state.2 = true ∨ ReadUsed u (scannedInr k j)) := by
  obtain ⟨v, found⟩ := state
  cases read : inodeRead u (scannedInr k j) Inode.zero with
  | mk ret inode =>
    rw [fillBitmapsSlot_eq f s found k j read] at run
    simp only [ReadUsed, visitSectors, read]
    by_cases used : ret = errNone
    · subst used
      rw [if_pos rfl] at run
      cases step : writeSectorOnBitmap inode
          { v with ibm := bmSet v.ibm (scannedInr k j).toNat } with
      | error code => simp [step, Except.map] at run
      | ok u' =>
        simp only [step, Except.map, Except.ok.injEq] at run
        subst run
        have marks := (writeSectorOnBitmap_spec _ inode).2 u' step
        rw [scanned_congr (u := u) (by exact f)] at marks
        exact ⟨((Marks.inode v _).trans marks).congr (fun x => by simp) fun x => by simp, by simp⟩
    · rw [if_neg used] at run
      by_cases free : ret = errUnallocatedInode
      · rw [if_pos free, Except.ok.injEq] at run
        subst run
        exact ⟨(Marks.refl v).congr (fun x => by simp [free]) fun x => by simp [used],
          by simp [free]⟩
      · rw [if_neg free] at run
        contradiction

/-- A table sector holds a used inode among the numbers scanned for it. -/
def SectorUsed (u : UnixFilesystem) (k : Nat) : Prop := ∃ j < 16, ReadUsed u (scannedInr k j)

/-- The inner loop: it succeeds when every round does, and sets what all rounds set. -/
theorem fillBitmapsSector_spec {v : UnixFilesystem} (f : v.f = u.f) (s : v.s = u.s) (k : Nat) :
    ((∃ next, fillBitmapsSector v k = .ok next) ↔ ∀ j < 16, VisitOk u (scannedInr k j)) ∧
      ∀ next, fillBitmapsSector v k = .ok next → Marks v next
        {x | ∃ j < 16, ReadUsed u (scannedInr k j) ∧ x = (scannedInr k j).toNat}
        {x | (∃ j < 16, x ∈ visitSectors u (scannedInr k j)) ∨
          (SectorUsed u k ∧ x = u.s.sInodeStart.toNat + k)} := by
  let Inv (state : UnixFilesystem × Bool) : Prop := state.1.f = u.f ∧ state.1.s = u.s
  have keeps : ∀ (state : UnixFilesystem × Bool) j next, Inv state →
      fillBitmapsSlot k state j = .ok next → Inv next := fun _ _ _ start run =>
    have marks := (fillBitmapsSlot_marks start.1 start.2 run).1
    ⟨marks.f.trans start.1, marks.s.trans start.2⟩
  have success := foldlM_ok_iff (fillBitmapsSlot k) Inv keeps
    (fun _ j start => fillBitmapsSlot_ok_iff start.1 start.2 k j) (List.range inodesPerSector)
    (s := (v, false)) ⟨f, s⟩
  simp only [List.mem_range, inodesPerSector] at success
  have effect {next} := foldlM_rel (t := next) (fillBitmapsSlot k) Inv
    (fun js state next => Marks state.1 next.1
        {x | ∃ j ∈ js, ReadUsed u (scannedInr k j) ∧ x = (scannedInr k j).toNat}
        {x | ∃ j ∈ js, x ∈ visitSectors u (scannedInr k j)} ∧
      (next.2 = true ↔ state.2 = true ∨ ∃ j ∈ js, ReadUsed u (scannedInr k j)))
    keeps
    (fun state => ⟨(Marks.refl _).congr (fun x => by simp) fun x => by simp, by simp⟩)
    (fun _ _ _ _ _ start first rest => by
      obtain ⟨marks, flag⟩ := fillBitmapsSlot_marks start.1 start.2 first
      refine ⟨(marks.trans rest.1).congr (fun x => by simp) fun x => by simp, ?_⟩
      rw [rest.2, flag]
      simp [or_assoc])
    (List.range inodesPerSector) (s := (v, false)) ⟨f, s⟩
  simp only [List.mem_range, inodesPerSector, Bool.false_eq_true, false_or] at effect
  constructor
  · rw [← success]
    simp only [fillBitmapsSector, inodesPerSector]
    constructor
    · rintro ⟨next, ok⟩
      cases run : (List.range 16).foldlM (fillBitmapsSlot k) (v, false) with
      | error code => simp [run, bind, Except.bind] at ok
      | ok last => exact ⟨last, rfl⟩
    · rintro ⟨last, ok⟩
      rw [ok]
      exact ⟨_, rfl⟩
  · intro next ok
    simp only [fillBitmapsSector, inodesPerSector] at ok
    cases run : (List.range 16).foldlM (fillBitmapsSlot k) (v, false) with
    | error code => simp [run, bind, Except.bind] at ok
    | ok last =>
      obtain ⟨⟨marks, flag⟩, same, super⟩ := effect run
      simp only [run, bind, Except.bind, Except.ok.injEq] at ok
      change last.2 = true ↔ SectorUsed u k at flag
      by_cases used : last.2 = true
      · rw [if_pos used] at ok
        subst ok
        refine (marks.trans (Marks.sector _ _)).congr (fun x => by simp) fun x => ?_
        simp only [Set.mem_union, Set.mem_ofPred_eq, Set.mem_singleton_iff, super,
          flag.mp used, true_and]
      · rw [if_neg used] at ok
        subst ok
        refine marks.congr (fun x => Iff.rfl) fun x => ?_
        simp only [Set.mem_ofPred_eq, mt flag.mpr used, false_and, or_false]

/-- The scan: it succeeds when it can deal with every number it visits, and sets what all the
visits set. -/
theorem fillBitmaps_spec (u : UnixFilesystem) :
    ((∃ next, fillBitmaps u = .ok next) ↔
        ∀ k < u.s.sIsize.toNat - 1, ∀ j < 16, VisitOk u (scannedInr k j)) ∧
      ∀ next, fillBitmaps u = .ok next → Marks u next
        {x | ∃ k < u.s.sIsize.toNat - 1, ∃ j < 16,
          ReadUsed u (scannedInr k j) ∧ x = (scannedInr k j).toNat}
        {x | ∃ k < u.s.sIsize.toNat - 1, (∃ j < 16, x ∈ visitSectors u (scannedInr k j)) ∨
          (SectorUsed u k ∧ x = u.s.sInodeStart.toNat + k)} := by
  let Inv (v : UnixFilesystem) : Prop := v.f = u.f ∧ v.s = u.s
  have keeps : ∀ (v : UnixFilesystem) k next, Inv v → fillBitmapsSector v k = .ok next →
      Inv next := fun _ _ _ start run =>
    have marks := (fillBitmapsSector_spec start.1 start.2 _).2 _ run
    ⟨marks.f.trans start.1, marks.s.trans start.2⟩
  have count : u.s.sIsize.toNat + u.s.sInodeStart.toNat - 1 - u.s.sInodeStart.toNat =
      u.s.sIsize.toNat - 1 := by omega
  have success := foldlM_ok_iff fillBitmapsSector Inv keeps
    (fun _ k start => (fillBitmapsSector_spec start.1 start.2 k).1)
    (List.range (u.s.sIsize.toNat - 1)) (s := u) ⟨rfl, rfl⟩
  have effect {next} := foldlM_rel (t := next) fillBitmapsSector Inv
    (fun ks v next => Marks v next
      {x | ∃ k ∈ ks, ∃ j < 16, ReadUsed u (scannedInr k j) ∧ x = (scannedInr k j).toNat}
      {x | ∃ k ∈ ks, (∃ j < 16, x ∈ visitSectors u (scannedInr k j)) ∨
        (SectorUsed u k ∧ x = u.s.sInodeStart.toNat + k)})
    keeps
    (fun v => (Marks.refl v).congr (fun x => by simp) fun x => by simp)
    (fun _ _ _ _ _ start first rest =>
      (((fillBitmapsSector_spec start.1 start.2 _).2 _ first).trans rest).congr
        (fun x => by simp) fun x => by simp)
    (List.range (u.s.sIsize.toNat - 1)) (s := u) ⟨rfl, rfl⟩
  simp only [List.mem_range] at success effect
  simp only [fillBitmaps, count]
  exact ⟨success, fun next ok => (effect ok).1⟩

end Visit

end U6fs
