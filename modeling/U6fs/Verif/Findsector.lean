import U6fs.Verif.MountBitmaps

/-!
# The lookup of a sector

The format counts the sectors of a file rounded up, has up to eight of them in the inode, and has
unsigned numbers in indirect sectors. `inode_findsector` counts `size / 512 + 1` sectors and reads
signed numbers. Where the two lookups agree is put here in terms of the size, the offset and the
entry of the indirect sector.
-/
namespace U6fs

open Lib

/-- Entry `k` of the indirect sectors of an inode, read from the disk as an unsigned number. -/
def readEntry (u : UnixFilesystem) (inode : Inode) (k : Nat) : Except Int Nat :=
  (sectorRead u.f (inode.iAddr.toList.getD (k / 256) 0).toNat).map fun sector =>
    (Codec.u16.get sector (k % 256)).toNat

/-- The lookup of a sector that the format asks for: the number of a sector, or an error. -/
def lookupSector (u : UnixFilesystem) (inode : Inode) (k : Int) : Except Int Nat :=
  if k < 0 ∨ sectorCount inode ≤ k then .error errOffsetOutOfRange
  else if sectorCount inode ≤ 8 then .ok (inode.iAddr.toList.getD k.toNat 0).toNat
  else if sectorCount inode ≤ 1792 then readEntry u inode k.toNat
  else .error errFileTooLarge

/-- An `int` result that is either a number or an error. -/
def intResult : Except Int Nat → Int
  | .ok x => x
  | .error code => code

/-- The sizes, offsets and entries for which `inode_findsector` follows the format. -/
structure FindsAsFormat (u : UnixFilesystem) (inode : Inode) (k : Int) : Prop where
  /-- The offset behind a file that fills its last sector is taken for one more sector, unless an
  indirect sector has 65420 there, which is -116 as a signed number. -/
  behind : inodeGetsize inode % 512 = 0 → k = (inodeGetsize inode / 512 : Nat) →
    4096 ≤ inodeGetsize inode ∧ inodeGetsize inode < 1792 * 512 ∧
      readEntry u inode k.toNat = .ok 65420
  /-- A file of eight sectors is taken for one with indirect sectors, of which the first has to
  repeat the address. -/
  eight : inodeGetsize inode = 4096 → 0 ≤ k → k < 8 →
    (inode.iAddr.toList.getD k.toNat 0).toNat < 32768 ∧
      readEntry u inode k.toNat = .ok (inode.iAddr.toList.getD k.toNat 0).toNat
  /-- A file of 1792 sectors is refused. -/
  limit : inodeGetsize inode = 1792 * 512 → 0 ≤ k → 1792 ≤ k
  /-- An entry of an indirect sector is not negative as a signed number. -/
  sign : 4096 < inodeGetsize inode → inodeGetsize inode < 1792 * 512 → 0 ≤ k →
    k < sectorCount inode → ∀ e, readEntry u inode k.toNat = .ok e → e < 32768

section Format

variable {u : UnixFilesystem} {inode : Inode}

/-- An entry that cannot be read is an I/O error. -/
theorem readEntry_error {k : Nat} {code : Int} (failed : readEntry u inode k = .error code) :
    code = errIo := by
  rw [readEntry] at failed
  cases read : sectorRead u.f (inode.iAddr.toList.getD (k / 256) 0).toNat with
  | error other =>
    rw [read] at failed
    cases failed
    exact sectorRead_error read
  | ok sector =>
    rw [read] at failed
    cases failed

/-- An entry has 16 bits. -/
theorem readEntry_lt {k e : Nat} (found : readEntry u inode k = .ok e) : e < 65536 := by
  rw [readEntry] at found
  cases read : sectorRead u.f (inode.iAddr.toList.getD (k / 256) 0).toNat with
  | error other =>
    rw [read] at found
    cases found
  | ok sector =>
    rw [read] at found
    cases found
    exact UInt16.toNat_lt _

/-- The entry that `inode_findsector_bigfile` returns is the one read, with a sign. -/
theorem inodeFindsectorBigfile_eq (k : Nat) :
    inodeFindsectorBigfile u inode k =
      match readEntry u inode k with
      | .ok e => if e < 32768 then (e : Int) else e - 65536
      | .error code => code := by
  rw [inodeFindsectorBigfile, readEntry]
  cases read : sectorRead u.f (inode.iAddr.toList.getD (k / 256) 0).toNat with
  | error code => rfl
  | ok sector => exact bmod_entry (UInt16.toNat_lt _)

/-- The lookup outside a file. -/
theorem lookupSector_outside {k : Int} (outside : k < 0 ∨ sectorCount inode ≤ k) :
    lookupSector u inode k = .error errOffsetOutOfRange := if_pos outside

section Inside

variable {k : Nat} (inside : k < sectorCount inode)

include inside

/-- The lookup in a file of at most 8 sectors. -/
theorem lookupSector_direct (small : sectorCount inode ≤ 8) :
    lookupSector u inode k = .ok (inode.iAddr.toList.getD k 0).toNat := by
  rw [lookupSector, if_neg (by omega), if_pos small, Int.toNat_natCast]

/-- The lookup in a file with indirect sectors. -/
theorem lookupSector_indirect (big : 8 < sectorCount inode) (fits : sectorCount inode ≤ 1792) :
    lookupSector u inode k = readEntry u inode k := by
  rw [lookupSector, if_neg (by omega), if_neg (by omega), if_pos fits, Int.toNat_natCast]

/-- The lookup in a file that is too large. -/
theorem lookupSector_tooLarge (large : 1792 < sectorCount inode) :
    lookupSector u inode k = .error errFileTooLarge := by
  rw [lookupSector, if_neg (by omega), if_neg (by omega), if_neg (by omega)]

end Inside

/-- On a working machine an entry that is read is that of the format. -/
theorem readEntry_eq_ok_iff (works : u.f.host.Faultless) {k : Nat} (slot : k < 1792) (e : Nat) :
    readEntry u inode k = .ok e ↔ u.f.entry inode k = some e := by
  rw [readEntry, sectorRead_faultless works]
  cases there : u.f.sectors[(inode.iAddr.toList.getD (k / 256) 0).toNat]? with
  | none =>
    simp only [Disk.entry, addr_getElem? inode (show k / 256 < 8 by omega), Option.bind_eq_bind,
      Option.bind_some, there, Option.bind_none, Except.map, reduceCtorEq]
  | some sector =>
    rw [entry_eq_some (by omega) there]
    simp only [Except.map, Except.ok.injEq, Option.some.injEq]

/-- On a working machine the lookup of a file that is not too large is the block map. -/
theorem lookupSector_eq_ok_iff (works : u.f.host.Faultless) (fits : sectorCount inode ≤ 1792)
    (k x : Nat) : lookupSector u inode k = .ok x ↔ u.f.mapped inode (.data k) = some x := by
  by_cases inside : k < sectorCount inode
  · by_cases small : sectorCount inode ≤ 8
    · rw [lookupSector_direct inside small, mapped_direct u.f small inside, Except.ok.injEq,
        Option.some.injEq]
    · have big := Nat.not_le.mp small
      rw [lookupSector_indirect inside big fits, mapped_entry u.f big inside]
      exact readEntry_eq_ok_iff works (by omega) x
  · rw [lookupSector_outside (by omega), Disk.mapped, if_neg inside]
    simp only [reduceCtorEq]

end Format

section Agreement

variable {u : UnixFilesystem} {inode : Inode} (used : inode.isAllocated = true) {k : Nat}

include used

/-- Behind a file that fills its last sector, only an entry 65420 is out of range as it should
be. -/
theorem inodeFindsector_behind_iff (whole : inodeGetsize inode % 512 = 0)
    (behind : k = inodeGetsize inode / 512) :
    inodeFindsector u inode k = errOffsetOutOfRange ↔ 4096 ≤ inodeGetsize inode ∧
      inodeGetsize inode < 1792 * 512 ∧ readEntry u inode k = .ok 65420 := by
  by_cases small : inodeGetsize inode < 4096
  · rw [inodeFindsector_direct u used behind.le small, errOffsetOutOfRange]
    omega
  · by_cases fits : inodeGetsize inode < 1792 * 512
    · rw [inodeFindsector_indirect u used behind.le (by omega) (by omega),
        inodeFindsectorBigfile_eq, errOffsetOutOfRange]
      cases read : readEntry u inode k with
      | error code =>
        rw [readEntry_error read]
        simp only [reduceCtorEq, and_false]
        decide
      | ok e =>
        have bound := readEntry_lt read
        simp only [Except.ok.injEq]
        split <;> omega
    · rw [inodeFindsector_tooLarge u used behind.le (by omega)]
      simp only [fits, false_and, and_false]
      decide

/-- In a file of eight sectors the addresses are found when the first one is an indirect sector
that repeats them. -/
theorem inodeFindsector_eight_iff (eight : inodeGetsize inode = 4096) (inside : k < 8) :
    inodeFindsector u inode k = (inode.iAddr.toList.getD k 0).toNat ↔
      (inode.iAddr.toList.getD k 0).toNat < 32768 ∧
        readEntry u inode k = .ok (inode.iAddr.toList.getD k 0).toNat := by
  rw [inodeFindsector_indirect u used (by omega) (by omega) (by omega), inodeFindsectorBigfile_eq]
  cases read : readEntry u inode k with
  | error code =>
    rw [readEntry_error read, errIo]
    simp only [reduceCtorEq, and_false]
  | ok e =>
    have bound := readEntry_lt read
    simp only [Except.ok.injEq]
    split <;> omega

/-- In a file with indirect sectors an entry is found when it is not negative as a signed
number. -/
theorem inodeFindsector_entry_iff (big : 4096 < inodeGetsize inode)
    (fits : inodeGetsize inode < 1792 * 512) (inside : k < sectorCount inode) :
    inodeFindsector u inode k = intResult (readEntry u inode k) ↔
      ∀ e, readEntry u inode k = .ok e → e < 32768 := by
  have count := sectorCount_eq inode
  rw [inodeFindsector_indirect u used (by split at count <;> omega) (by omega) (by omega),
    inodeFindsectorBigfile_eq]
  cases read : readEntry u inode k with
  | error code =>
    refine ⟨fun _ e found => ?_, fun _ => rfl⟩
    cases found
  | ok e =>
    simp only [intResult, Except.ok.injEq, forall_eq']
    split <;> omega

/-- `inode_findsector` follows the format inside a file exactly when the size and the entry are
such. -/
theorem inodeFindsector_inside_iff (inside : k < sectorCount inode) :
    inodeFindsector u inode k = intResult (lookupSector u inode k) ↔ FindsAsFormat u inode k := by
  have count := sectorCount_eq inode
  have place : k ≤ inodeGetsize inode / 512 := by
    split at count <;> omega
  have file : inodeGetsize inode % 512 = 0 → ¬(k : Int) = (inodeGetsize inode / 512 : Nat) := by
    split at count <;> omega
  by_cases small : inodeGetsize inode < 4096
  · rw [inodeFindsector_direct u used place small,
      lookupSector_direct inside (by split at count <;> omega)]
    exact ⟨fun _ => ⟨fun whole place => absurd place (file whole), by omega, by omega, by omega⟩,
      fun _ => rfl⟩
  by_cases eight : inodeGetsize inode = 4096
  · have inAddr : k < 8 := by
      split at count <;> omega
    rw [lookupSector_direct inside (by split at count <;> omega), intResult,
      inodeFindsector_eight_iff used eight inAddr]
    constructor
    · intro repeats
      exact ⟨fun whole place => absurd place (file whole), fun _ _ _ => repeats, by omega, by omega⟩
    · intro follows
      exact follows.eight eight (by omega) (by omega)
  by_cases fits : inodeGetsize inode < 1792 * 512
  · rw [lookupSector_indirect inside (by split at count <;> omega) (by split at count <;> omega),
      inodeFindsector_entry_iff used (by omega) fits inside]
    constructor
    · intro unsigned
      exact ⟨fun whole place => absurd place (file whole), by omega, by omega,
        fun _ _ _ _ => unsigned⟩
    · intro follows
      exact follows.sign (by omega) fits (by omega) (by omega)
  rw [inodeFindsector_tooLarge u used place (by omega)]
  by_cases limit : inodeGetsize inode = 1792 * 512
  · have refused : intResult (readEntry u inode k) ≠ errFileTooLarge := by
      cases read : readEntry u inode k with
      | error code =>
        rw [readEntry_error read]
        decide
      | ok e =>
        rw [intResult, errFileTooLarge]
        omega
    rw [lookupSector_indirect inside (by split at count <;> omega) (by split at count <;> omega)]
    constructor
    · intro same
      exact absurd same.symm refused
    · intro follows
      have behind := follows.limit limit (by omega)
      split at count <;> omega
  · rw [lookupSector_tooLarge inside (by split at count <;> omega)]
    exact ⟨fun _ => ⟨fun whole place => absurd place (file whole), by omega, by omega, by omega⟩,
      fun _ => rfl⟩

/-- The lookups of every offset agree exactly when the size, the offset and the entry are such. -/
theorem inodeFindsector_eq_iff (off : Int) :
    inodeFindsector u inode off = intResult (lookupSector u inode off) ↔
      FindsAsFormat u inode off := by
  have count := sectorCount_eq inode
  by_cases inside : 0 ≤ off ∧ off < sectorCount inode
  · obtain ⟨k, rfl⟩ := Int.eq_ofNat_of_zero_le inside.1
    exact inodeFindsector_inside_iff used (by omega)
  rw [lookupSector_outside (by omega), intResult]
  by_cases behind : inodeGetsize inode % 512 = 0 ∧ off = (inodeGetsize inode / 512 : Nat)
  · obtain ⟨whole, rfl⟩ := behind
    rw [inodeFindsector_behind_iff used whole rfl]
    constructor
    · intro stops
      refine ⟨fun _ _ => stops, ?_, ?_, ?_⟩ <;> split at count <;> omega
    · intro follows
      exact follows.behind whole rfl
  · have outside : inodeFindsector u inode off = errOffsetOutOfRange := by
      by_cases negative : off < 0
      · simp only [inodeFindsector, used, negative, decide_true, Bool.true_or, Bool.not_true,
          Bool.false_eq_true, if_true, if_false]
      · obtain ⟨k, rfl⟩ := Int.eq_ofNat_of_zero_le (Int.not_lt.mp negative)
        exact inodeFindsector_end u used (by split at count <;> omega)
    constructor
    · intro _
      constructor
      · exact fun whole place => absurd ⟨whole, place⟩ behind
      all_goals split at count <;> omega
    · exact fun _ => outside

end Agreement

/-- For every allocated inode and every offset, `inode_findsector` returns what the format asks
for, and no negative number for a sector, exactly when the size, the offset and the entry are
such. -/
theorem inodeFindsector_followsFormat_iff {u : UnixFilesystem} {inode : Inode}
    (used : inode.isAllocated = true) (k : Int) :
    (inodeFindsector u inode k = intResult (lookupSector u inode k) ∧
        ∀ x, lookupSector u inode k = .ok x → 0 ≤ inodeFindsector u inode k) ↔
      FindsAsFormat u inode k := by
  rw [← inodeFindsector_eq_iff used]
  constructor
  · exact fun both => both.1
  · intro same
    refine ⟨same, fun x found => ?_⟩
    rw [same, found]
    exact Int.natCast_nonneg x

set_option maxRecDepth 10000 in
/-- On a well-formed volume with a file of 4096 bytes, sector 1 of the file is found at sector 0
instead of 5, and behind its last sector there is one more. -/
theorem inodeFindsector_eightSectors :
    eightSectorVolume.WellFormed (volumeSuperblock 2 14) ∧
      ∃ u, mountv6 eightSectorVolume = .ok u ∧
        ∃ inode, inodeRead u 2 Inode.zero = (errNone, inode) ∧ inodeGetsize inode = 4096 ∧
          (inodeFindsector u inode 1 = 0 ∧ intResult (lookupSector u inode 1) = 5) ∧
          inodeFindsector u inode 8 = 0 ∧
          intResult (lookupSector u inode 8) = errOffsetOutOfRange := by
  refine ⟨Disk.wellFormed_of_check Host.quiet_faultless (by decide +kernel), ?_⟩
  obtain ⟨u, mounted, read, rest⟩ := mountv6_check (f := eightSectorVolume)
    (P := fun u => (inodeRead u 2 Inode.zero).1 = errNone ∧
      inodeGetsize (inodeRead u 2 Inode.zero).2 = 4096 ∧
      (inodeFindsector u (inodeRead u 2 Inode.zero).2 1 = 0 ∧
        intResult (lookupSector u (inodeRead u 2 Inode.zero).2 1) = 5) ∧
      inodeFindsector u (inodeRead u 2 Inode.zero).2 8 = 0 ∧
      intResult (lookupSector u (inodeRead u 2 Inode.zero).2 8) = errOffsetOutOfRange)
    (by decide +kernel)
  exact ⟨u, mounted, _, Prod.ext read rfl, rest⟩

set_option maxRecDepth 10000 in
/-- A directory of one record is found where the format has it. -/
theorem inodeFindsector_followsFormat_single :
    ∃ u, mountv6 singleVolume = .ok u ∧ inodeRead u 1 Inode.zero = (errNone, singleDirectory) ∧
      inodeFindsector u singleDirectory 0 = intResult (lookupSector u singleDirectory 0) ∧
      ∀ x, lookupSector u singleDirectory 0 = .ok x → 0 ≤ inodeFindsector u singleDirectory 0 := by
  obtain ⟨u, mounted, read⟩ := mountv6_check (f := singleVolume)
    (P := fun u => inodeRead u 1 Inode.zero = (errNone, singleDirectory)) (by decide +kernel)
  have follows : FindsAsFormat u singleDirectory 0 := by
    constructor <;> rw [singleDirectory_size] <;> omega
  have used : singleDirectory.isAllocated = true := by
    decide
  exact ⟨u, mounted, read, (inodeFindsector_followsFormat_iff used 0).mpr follows⟩

end U6fs
