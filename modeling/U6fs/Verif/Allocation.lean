import U6fs.Lib.Supply
import U6fs.Verif.MountBitmaps

/-!
# Runs of `inode_alloc`

The numbers that calls of `inode_alloc` hand out after a mount, in the order of the calls. The
bitmap covers the numbers from 1 to `16 * s_isize`, one more than `inode_write` takes, and its bits
leave out the inodes of the last sector of the table. A run is right until it comes to a number of
one of the two kinds.
-/
namespace U6fs

open Lib

/-- The results of `n` calls of `inode_alloc` in a row, and the state after them. -/
def inodeAllocs (u : UnixFilesystem) (n : Nat) : List Int × UnixFilesystem := serve inodeAlloc n u

/-- `inode_write` takes the number. -/
def Superblock.Accepts (s : Superblock) (r : Int) : Prop :=
  ∃ inr : UInt16, r = inr.toNat ∧ inodeOutOfRange s inr = false

/-- Results of calls that hand out unused inodes, each once, until there is no other. -/
structure HandsOutFresh (u : UnixFilesystem) (results : List Int) : Prop where
  /-- No number is handed out twice. -/
  distinct : (results.filter fun r => 0 ≤ r).Nodup
  /-- `inode_write` takes the numbers. -/
  accepted : ∀ r ∈ results, 0 ≤ r → u.s.Accepts r
  /-- Their inodes are not in use on the disk. -/
  unused : ∀ r ∈ results, 0 ≤ r → ¬u.f.InUse u.s r.toNat
  /-- A call that finds the bitmap full comes after all the other numbers are handed out. -/
  full : ∀ k : Nat, results[k]? = some errBitmapFull →
    ∀ inr : Nat, u.s.Accepts inr → u.f.InUse u.s inr ∨ (inr : Int) ∈ results.take k

/-- A number that no call should hand out and that has no bit set after a mount: it is that of an
inode in use in the last sector of the table, or it comes after the last inode. -/
def Superblock.Spoilt (s : Superblock) (f : Disk) (x : Nat) : Prop :=
  (f.InUse s x ∧ s.lastScanned < x) ∨ x = s.inodes

/-- The numbers below a bound whose inodes are not in use. -/
def Disk.unallocated (f : Disk) (s : Superblock) (bound : Nat) : List Nat :=
  below bound fun x => 1 ≤ x ∧ ¬f.InUse s x

/-- The numbers of a bitmap whose bits are clear. -/
def BmblockArray.clear (b : BmblockArray) : List Nat := below (b.max + 1) fun x => bmGet b x = 0

/-- The result of `inode_alloc` for the number found. -/
def allocated : Option Nat → Int
  | some x => x
  | none => errBitmapFull

/-- The members of the list of clear bits. -/
theorem BmblockArray.mem_clear (b : BmblockArray) (x : Nat) : x ∈ b.clear ↔ bmGet b x = 0 := by
  rw [BmblockArray.clear, mem_below]
  constructor
  · exact fun mem => mem.2
  · intro free
    obtain ⟨range, -⟩ := (bmGet_eq_zero_iff b x).mp free
    exact ⟨Nat.lt_succ_of_le range.2, free⟩

/-- A call hands out the first number whose bit is clear. -/
theorem inodeAlloc_serves {u : UnixFilesystem} (swept : u.ibm.Swept) (small : u.ibm.max < 2 ^ 31) :
    Serves inodeAlloc (fun u => u.ibm.clear) allocated u := by
  obtain ⟨ibm, state, -, result⟩ := inodeAlloc_spec small (Prod.mk.eta (p := inodeAlloc u)).symm
  rcases result with ⟨x, number, free, least, min, max, marked⟩ | ⟨none, same, full⟩
  · have range := ((bmGet_eq_zero_iff _ _).mp free).1
    have others : ∀ y < u.ibm.max + 1, bmGet ibm y = 0 ↔ bmGet u.ibm y = 0 ∧ y ≠ x := by
      intro y _
      rw [bmGet_eq_zero_iff, bmGet_eq_zero_iff, min, max, marked y]
      tauto
    have parts : u.ibm.clear = x :: ibm.clear := by
      rw [BmblockArray.clear, BmblockArray.clear, max]
      exact below_eq_cons (Nat.lt_succ_of_le range.2) free (fun y _ => least swept y) others
    constructor
    · rw [number, parts]
      rfl
    · rw [state, parts]
      rfl
  · have empty : u.ibm.clear = [] := by
      apply List.eq_nil_iff_forall_not_mem.mpr
      exact fun x mem => full x ((u.ibm.mem_clear x).mp mem)
    constructor
    · rw [none, empty]
      rfl
    · rw [state, empty, List.tail_nil]
      apply List.eq_nil_iff_forall_not_mem.mpr
      intro x mem
      rw [BmblockArray.mem_clear, same.get] at mem
      exact full x mem

/-- A call keeps the search before every clear bit, and the range. -/
theorem inodeAlloc_keeps {u : UnixFilesystem} (swept : u.ibm.Swept) (small : u.ibm.max < 2 ^ 31) :
    (inodeAlloc u).2.ibm.Swept ∧ (inodeAlloc u).2.ibm.max < 2 ^ 31 := by
  obtain ⟨ibm, state, sweeps, result⟩ :=
    inodeAlloc_spec small (Prod.mk.eta (p := inodeAlloc u)).symm
  rw [state]
  refine ⟨sweeps swept, ?_⟩
  rcases result with ⟨x, -, -, -, -, max, -⟩ | ⟨-, same, -⟩
  · exact max ▸ small
  · exact same.max ▸ small

/-- A run hands out the numbers with a clear bit in order, and then finds the bitmap full. -/
theorem inodeAllocs_spec {u : UnixFilesystem} (swept : u.ibm.Swept) (small : u.ibm.max < 2 ^ 31)
    (n : Nat) :
    (inodeAllocs u n).1 = (u.ibm.clear.take n).map (Nat.cast : Nat → Int) ++
      List.replicate (n - u.ibm.clear.length) errBitmapFull :=
  serve_spec (fun u => u.ibm.Swept ∧ u.ibm.max < 2 ^ 31)
    (fun _ inv => inodeAlloc_keeps inv.1 inv.2) (fun _ inv => inodeAlloc_serves inv.1 inv.2) n
    ⟨swept, small⟩

section Run

variable {u : UnixFilesystem} (coherent : Coherent u)
include coherent

/-- The numbers with a clear bit. -/
theorem Coherent.bmGet_ibm_eq_zero (x : Nat) : bmGet u.ibm x = 0 ↔
    (1 ≤ x ∧ x ≤ u.s.inodes) ∧ (u.f.InUse u.s x → u.s.lastScanned < x) := by
  rw [bmGet_eq_zero_iff, coherent.ibm, coherent.ibmRange.1, coherent.ibmRange.2, Disk.InUse,
    not_and, ← Nat.not_le]
  tauto

/-- The numbers that `inode_write` takes. -/
theorem Coherent.accepts_iff (x : Nat) : u.s.Accepts x ↔ 1 ≤ x ∧ x < u.s.inodes := by
  have size := coherent.size
  rw [Superblock.inodes]
  constructor
  · rintro ⟨inr, number, inside⟩
    rw [Int.ofNat_inj.mp number]
    exact (inodeOutOfRange_eq_false_iff _ _).mp inside
  · intro range
    have number : (UInt16.ofNat x).toNat = x := by
      rw [UInt16.toNat_ofNat']
      exact Nat.mod_eq_of_lt (by omega)
    exact ⟨UInt16.ofNat x, by rw [number],
      (inodeOutOfRange_eq_false_iff _ _).mpr (by rw [number]; exact range)⟩

/-- A number with a clear bit is right to hand out unless it is spoilt. -/
theorem Coherent.fresh_iff {x : Nat} (free : bmGet u.ibm x = 0) :
    (u.s.Accepts x ∧ ¬u.f.InUse u.s x) ↔ ¬u.s.Spoilt u.f x := by
  obtain ⟨range, unscanned⟩ := (coherent.bmGet_ibm_eq_zero x).mp free
  rw [coherent.accepts_iff, Superblock.Spoilt]
  constructor
  · rintro ⟨inside, unused⟩ (⟨used, -⟩ | after)
    · exact unused used
    · omega
  · intro good
    refine ⟨⟨range.1, ?_⟩, fun used => good (.inl ⟨used, unscanned used⟩)⟩
    exact Nat.lt_of_le_of_ne range.2 fun after => good (.inr after)

/-- A spoilt number has a clear bit. -/
theorem Coherent.clear_of_spoilt {x : Nat} (spoilt : u.s.Spoilt u.f x) : bmGet u.ibm x = 0 := by
  rw [coherent.bmGet_ibm_eq_zero]
  have size := coherent.size
  rcases spoilt with ⟨used, unscanned⟩ | rfl
  · obtain ⟨inode, allocated⟩ := used
    obtain ⟨low, high⟩ := allocated.number
    exact ⟨⟨low, high.le⟩, fun _ => unscanned⟩
  · rw [Superblock.inodes, Superblock.lastScanned]
    omega

/-- The clear bits below a number are those of unused inodes, and no others when no smaller number
is spoilt. -/
theorem Coherent.clear_below {x : Nat} (inside : x ≤ u.s.inodes) :
    (u.f.unallocated u.s x).length ≤ (below x fun y => bmGet u.ibm y = 0).length ∧
      ((∀ y < x, ¬u.s.Spoilt u.f y) →
        (below x fun y => bmGet u.ibm y = 0).length ≤ (u.f.unallocated u.s x).length) := by
  constructor
  · apply below_length_le le_rfl
    intro y less unused
    rw [coherent.bmGet_ibm_eq_zero]
    exact ⟨⟨unused.1, by omega⟩, fun used => absurd used unused.2⟩
  · intro good
    apply below_length_le le_rfl
    intro y less free
    have range := ((coherent.bmGet_ibm_eq_zero y).mp free).1
    exact ⟨range.1, ((coherent.fresh_iff free).mpr (good y less)).2⟩

/-- The results of a run. -/
theorem Coherent.inodeAllocs_eq (n : Nat) :
    (inodeAllocs u n).1 = (u.ibm.clear.take n).map (Nat.cast : Nat → Int) ++
      List.replicate (n - u.ibm.clear.length) errBitmapFull := by
  have size := coherent.size
  apply inodeAllocs_spec coherent.swept
  rw [coherent.ibmRange.2, Superblock.inodes]
  omega

/-- The numbers that a run hands out are the first ones with a clear bit. -/
theorem Coherent.handedOut_eq (n : Nat) :
    (inodeAllocs u n).1.filter (fun r => 0 ≤ r) =
      (u.ibm.clear.take n).map (Nat.cast : Nat → Int) := by
  rw [coherent.inodeAllocs_eq, List.filter_append, List.filter_eq_self.mpr,
    List.filter_eq_nil_iff.mpr, List.append_nil]
  · intro r mem
    rw [List.eq_of_mem_replicate mem]
    decide
  · intro r mem
    obtain ⟨x, -, rfl⟩ := List.mem_map.mp mem
    exact decide_eq_true (Int.natCast_nonneg x)

/-- A number is handed out when fewer clear bits than calls come before it. -/
theorem Coherent.handedOut_iff (n : Nat) (r : Int) :
    (r ∈ (inodeAllocs u n).1 ∧ 0 ≤ r) ↔
      ∃ x : Nat, r = x ∧ bmGet u.ibm x = 0 ∧ (below x fun y => bmGet u.ibm y = 0).length < n := by
  have members : (r ∈ (inodeAllocs u n).1 ∧ 0 ≤ r) ↔ ∃ x ∈ u.ibm.clear.take n, (x : Int) = r := by
    rw [← List.mem_map, ← coherent.handedOut_eq, List.mem_filter, decide_eq_true_eq]
  rw [members]
  constructor
  · rintro ⟨x, taken, rfl⟩
    rw [BmblockArray.clear, mem_take_below] at taken
    exact ⟨x, rfl, taken.1.2, taken.2⟩
  · rintro ⟨x, rfl, free, few⟩
    refine ⟨x, ?_, rfl⟩
    rw [BmblockArray.clear, mem_take_below]
    exact ⟨mem_below.mp ((u.ibm.mem_clear x).mpr free), few⟩

/-- No number is handed out twice. -/
theorem Coherent.handedOut_nodup (n : Nat) :
    ((inodeAllocs u n).1.filter fun r => 0 ≤ r).Nodup := by
  rw [coherent.handedOut_eq]
  have increasing := below_increasing (u.ibm.max + 1) fun x => bmGet u.ibm x = 0
  have nodup : u.ibm.clear.Nodup := increasing.imp fun less => Nat.ne_of_lt less
  apply List.Nodup.map
  · exact fun x y same => Int.ofNat_inj.mp same
  · exact nodup.take

/-- When a call finds the bitmap full, every number with a clear bit was handed out before. -/
theorem Coherent.handedOut_of_full {n k : Nat}
    (full : (inodeAllocs u n).1[k]? = some errBitmapFull) {x : Nat} (free : bmGet u.ibm x = 0) :
    (x : Int) ∈ (inodeAllocs u n).1.take k := by
  have mem : (x : Int) ∈ u.ibm.clear.map (Nat.cast : Nat → Int) :=
    List.mem_map_of_mem ((u.ibm.mem_clear x).mpr free)
  rw [coherent.inodeAllocs_eq] at full ⊢
  have after : ((u.ibm.clear.take n).map (Nat.cast : Nat → Int)).length ≤ k := by
    by_contra before
    rw [List.getElem?_append_left (Nat.not_le.mp before)] at full
    obtain ⟨y, -, number⟩ := List.mem_map.mp (List.mem_of_getElem? full)
    have := Int.natCast_nonneg y
    rw [number] at this
    contradiction
  rw [List.getElem?_append_right after] at full
  have several := List.mem_of_getElem? full
  rw [List.mem_replicate] at several
  have all : u.ibm.clear.take n = u.ibm.clear := List.take_of_length_le (by omega)
  rw [all] at after ⊢
  rw [List.take_append, List.take_of_length_le after]
  exact List.mem_append_left _ mem

end Run

/-- After a mount a run of `n` calls of `inode_alloc` hands out unused inodes, each once and until
there is no other, exactly when before every spoilt number there are `n` unused ones. -/
theorem mountv6_inodeAllocs_iff {f : Disk} {u : UnixFilesystem} (mounted : mountv6 f = .ok u)
    (n : Nat) :
    HandsOutFresh u (inodeAllocs u n).1 ↔
      ∀ x, u.s.Spoilt f x → n ≤ (f.unallocated u.s x).length := by
  obtain ⟨rfl, coherent⟩ := mountv6_coherent mounted
  constructor
  · intro fresh x spoilt
    by_contra few
    -- the first spoilt number comes after unused ones only, and is handed out
    have spoils : ∃ y, u.s.Spoilt u.f y ∧ (u.f.unallocated u.s y).length < n :=
      ⟨x, spoilt, Nat.not_le.mp few⟩
    classical
    obtain ⟨bad, before⟩ := Nat.find_spec spoils
    have first : ∀ y < Nat.find spoils, ¬u.s.Spoilt u.f y := by
      intro y less spoilt'
      apply Nat.find_min spoils less ⟨spoilt', ?_⟩
      have fewer :
          (u.f.unallocated u.s y).length ≤ (u.f.unallocated u.s (Nat.find spoils)).length :=
        below_length_le less.le fun _ _ unused => unused
      exact Nat.lt_of_le_of_lt fewer before
    have free := coherent.clear_of_spoilt bad
    have range := ((coherent.bmGet_ibm_eq_zero _).mp free).1
    have count := (coherent.clear_below range.2).2 first
    obtain ⟨mem, positive⟩ :=
      (coherent.handedOut_iff n (Nat.find spoils)).mpr ⟨_, rfl, free, by omega⟩
    have good := (coherent.fresh_iff free).mp
      ⟨fresh.accepted _ mem positive, fresh.unused _ mem positive⟩
    exact good bad
  · intro enough
    have good : ∀ r ∈ (inodeAllocs u n).1, 0 ≤ r → u.s.Accepts r ∧ ¬u.f.InUse u.s r.toNat := by
      intro r mem positive
      obtain ⟨x, rfl, free, few⟩ := (coherent.handedOut_iff n r).mp ⟨mem, positive⟩
      apply (coherent.fresh_iff free).mpr
      intro spoilt
      have range := ((coherent.bmGet_ibm_eq_zero x).mp free).1
      have before := (coherent.clear_below range.2).1
      have := enough x spoilt
      omega
    constructor
    case distinct => exact coherent.handedOut_nodup n
    case accepted => exact fun r mem positive => (good r mem positive).1
    case unused => exact fun r mem positive => (good r mem positive).2
    case full =>
      intro k full inr accepts
      by_cases used : u.f.InUse u.s inr
      · exact .inl used
      · right
        apply coherent.handedOut_of_full full
        rw [coherent.bmGet_ibm_eq_zero]
        have range := (coherent.accepts_iff inr).mp accepts
        exact ⟨⟨range.1, range.2.le⟩, fun used' => absurd used' used⟩

set_option maxRecDepth 10000 in
/-- On a volume with the root in the only table sector the first call hands out the root. -/
theorem mountv6_inodeAllocs_root :
    ∃ u, mountv6 lastSectorVolume = .ok u ∧ (inodeAllocs u 1).1 = [1] ∧
      ¬HandsOutFresh u (inodeAllocs u 1).1 := by
  obtain ⟨u, mounted, result, used⟩ := mountv6_check (f := lastSectorVolume)
    (P := fun u => (inodeAllocs u 1).1 = [1] ∧ u.f.InUse u.s 1) (by decide +kernel)
  refine ⟨u, mounted, result, fun fresh => ?_⟩
  rw [result] at fresh
  exact fresh.unused 1 List.mem_cons_self (by decide) used

set_option maxRecDepth 10000 in
/-- On the empty volume the numbers 2 to 31 are handed out as they should be. -/
theorem mountv6_inodeAllocs_empty :
    ∃ u, mountv6 emptyVolume = .ok u ∧ HandsOutFresh u (inodeAllocs u 30).1 := by
  obtain ⟨u, mounted, super⟩ := mountv6_check (f := emptyVolume)
    (P := fun u => u.s = volumeSuperblock 2 6) (by decide +kernel)
  refine ⟨u, mounted, (mountv6_inodeAllocs_iff mounted 30).mpr ?_⟩
  rw [super]
  rintro x (⟨⟨inode, allocated⟩, unscanned⟩ | rfl)
  · rw [(emptyVolume_allocated allocated).1] at unscanned
    exact absurd unscanned (by decide)
  · have count : (emptyVolume.unallocated (volumeSuperblock 2 6)
        (volumeSuperblock 2 6).inodes).length = 30 := by decide +kernel
    exact count.ge

end U6fs
