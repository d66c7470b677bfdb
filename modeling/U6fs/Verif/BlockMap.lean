import U6fs.Spec.Image

/-!
# The block map that the code sees

`inode_findsector` decides by `size / 512 + 1` whether the addresses of an inode are direct, and
reads entries of indirect sectors as signed numbers. Its results are put here in terms of the
block map of the format. Both agree except for files of exactly 4096 bytes, one entry after a
file that fills its last sector, and entries from 32768 on.
-/
namespace U6fs

open Lib

/-- The inode has an address at each of its eight slots. -/
theorem addr_getElem? (inode : Inode) {k : Nat} (slot : k < 8) :
    inode.iAddr.toList[k]? = some (inode.iAddr.toList.getD k 0) := by
  have inside : k < inode.iAddr.toList.length := by simpa using slot
  rw [List.getElem?_eq_getElem inside, List.getD_eq_getElem _ _ inside]

/-- The number of sectors in terms of the count of the code. -/
theorem sectorCount_eq (inode : Inode) :
    sectorCount inode =
      inodeGetsize inode / 512 + if inodeGetsize inode % 512 = 0 then 0 else 1 := by
  rw [sectorCount]
  split <;> omega

section Findsector

variable (u : UnixFilesystem) {inode : Inode} (used : inode.isAllocated = true) {k : Nat}
  (inside : k ≤ inodeGetsize inode / 512)

include used inside

/-- Below 4096 bytes the sectors are those of `i_addr`. -/
theorem inodeFindsector_direct (small : inodeGetsize inode < 4096) :
    inodeFindsector u inode k = (inode.iAddr.toList.getD k 0).toNat := by
  simp only [inodeFindsector, used, Bool.not_true, Bool.false_eq_true, ↓reduceIte, sectorSize,
    smallFilesysSize]
  rw [if_neg (by simp only [Bool.or_eq_true, decide_eq_true_eq]; omega), if_pos (by omega),
    Int.toNat_natCast]

/-- From 4096 bytes on the sectors are the entries of indirect sectors. -/
theorem inodeFindsector_indirect (big : 4096 ≤ inodeGetsize inode)
    (fits : inodeGetsize inode / 512 + 1 ≤ 1792) :
    inodeFindsector u inode k = inodeFindsectorBigfile u inode k := by
  simp only [inodeFindsector, used, Bool.not_true, Bool.false_eq_true, ↓reduceIte, sectorSize,
    smallFilesysSize, mediumFilesysSize]
  rw [if_neg (by simp only [Bool.or_eq_true, decide_eq_true_eq]; omega), if_neg (by omega),
    if_pos (by omega), Int.toNat_natCast]

/-- Files from 1792 * 512 bytes on are refused. -/
theorem inodeFindsector_tooLarge (large : 1792 < inodeGetsize inode / 512 + 1) :
    inodeFindsector u inode k = errFileTooLarge := by
  simp only [inodeFindsector, used, Bool.not_true, Bool.false_eq_true, ↓reduceIte, sectorSize,
    smallFilesysSize, mediumFilesysSize]
  rw [if_neg (by simp only [Bool.or_eq_true, decide_eq_true_eq]; omega), if_neg (by omega),
    if_neg (by omega)]

end Findsector

/-- After the last sector that the code counts the offset is out of range. -/
theorem inodeFindsector_end (u : UnixFilesystem) {inode : Inode} (used : inode.isAllocated = true)
    {k : Nat} (outside : inodeGetsize inode / 512 < k) :
    inodeFindsector u inode k = errOffsetOutOfRange := by
  simp only [inodeFindsector, used, Bool.not_true, Bool.false_eq_true, ↓reduceIte, sectorSize]
  rw [if_pos (by simp only [Bool.or_eq_true, decide_eq_true_eq]; omega)]

/-- An entry is a 16-bit number. -/
theorem entry_lt {f : Disk} {inode : Inode} {k e : Nat} (there : f.entry inode k = some e) :
    e < 65536 := by
  simp only [Disk.entry, Option.bind_eq_bind, Option.bind_eq_some_iff, Option.some.injEq] at there
  obtain ⟨_, -, _, -, rfl⟩ := there
  exact UInt16.toNat_lt _

/-- The sign of a 16-bit number. -/
theorem bmod_entry {e : Nat} (small : e < 65536) :
    Int.bmod e (2 ^ 16) = if e < 32768 then (e : Int) else e - 65536 := by
  rw [Int.bmod_def]
  split <;> split <;> omega

/-- Entry `k` of an inode whose indirect sector is there. -/
theorem entry_eq_some {f : Disk} {inode : Inode} {k : Nat} {sector : Sector} (slot : k / 256 < 8)
    (there : f.sectors[(inode.iAddr.toList.getD (k / 256) 0).toNat]? = some sector) :
    f.entry inode k = some (Codec.u16.get sector (k % 256)).toNat := by
  simp only [Disk.entry, addr_getElem? inode slot, Option.bind_eq_bind, Option.bind_some, there]

/-- An entry is read from its indirect sector, signed, or the read fails. -/
theorem inodeFindsectorBigfile_cases (u : UnixFilesystem) (inode : Inode) {k : Nat}
    (slot : k < 1792) :
    inodeFindsectorBigfile u inode k = errIo ∨
      ∃ e, u.f.entry inode k = some e ∧ inodeFindsectorBigfile u inode k = Int.bmod e (2 ^ 16) := by
  unfold inodeFindsectorBigfile
  cases read : sectorRead u.f (inode.iAddr.toList.getD (k / addressesPerSector) 0).toNat with
  | error code =>
    rw [sectorRead_error read]
    exact .inl rfl
  | ok sector =>
    exact .inr ⟨_, entry_eq_some (by omega) (sectorRead_ok read), rfl⟩

/-- What the code finds in an indirect sector is an entry whose sign bit is clear. -/
theorem entry_of_found (u : UnixFilesystem) {inode : Inode} (used : inode.isAllocated = true)
    (big : 4096 ≤ inodeGetsize inode) (fits : inodeGetsize inode / 512 + 1 ≤ 1792) {k : Nat}
    (inside : k ≤ inodeGetsize inode / 512) (positive : 0 ≤ inodeFindsector u inode k) :
    ∃ e, u.f.entry inode k = some e ∧ e < 32768 ∧ inodeFindsector u inode k = e := by
  rw [inodeFindsector_indirect u used inside big fits] at positive ⊢
  rcases inodeFindsectorBigfile_cases u inode (k := k) (by omega) with failed | ⟨e, there, value⟩
  · rw [failed] at positive
    contradiction
  · have bound := entry_lt there
    rw [value, bmod_entry bound] at positive ⊢
    by_cases low : e < 32768
    · exact ⟨e, there, low, if_pos low⟩
    · rw [if_neg low] at positive
      omega

/-- On a working machine the code finds every entry whose sign bit is clear. -/
theorem found_of_entry {u : UnixFilesystem} (works : u.f.host.Faultless) {inode : Inode}
    (used : inode.isAllocated = true) (big : 4096 ≤ inodeGetsize inode)
    (fits : inodeGetsize inode / 512 + 1 ≤ 1792) {k e : Nat}
    (inside : k ≤ inodeGetsize inode / 512) (there : u.f.entry inode k = some e)
    (low : e < 32768) : inodeFindsector u inode k = e := by
  have slot : k / 256 < 8 := by omega
  obtain ⟨sector, read⟩ : ∃ sector,
      u.f.sectors[(inode.iAddr.toList.getD (k / 256) 0).toNat]? = some sector := by
    simp only [Disk.entry, addr_getElem? inode slot, Option.bind_eq_bind, Option.bind_some,
      Option.bind_eq_some_iff] at there
    obtain ⟨sector, read, -⟩ := there
    exact ⟨sector, read⟩
  rw [entry_eq_some slot read, Option.some.injEq] at there
  have found := sectorRead_faultless works (inode.iAddr.toList.getD (k / 256) 0).toNat
  rw [read] at found
  rw [inodeFindsector_indirect u used inside big fits, inodeFindsectorBigfile]
  simp only [addressesPerSector, found, there]
  rw [bmod_entry (by omega), if_pos low]

/-- A sector of two inodes is found in the same place when their addresses are used alike and the
indirect sector that names it is as before. -/
theorem inodeFindsector_same {u u' : UnixFilesystem} {inode inode' : Inode}
    (works : u.f.host.Faultless) (works' : u'.f.host.Faultless)
    (used : inode.isAllocated = true) (used' : inode'.isAllocated = true) {k : Nat}
    (inside : k ≤ inodeGetsize inode / 512) (inside' : k ≤ inodeGetsize inode' / 512)
    (direct : inodeGetsize inode < 4096 → inodeGetsize inode' < 4096 ∧
      inode'.iAddr.toList.getD k 0 = inode.iAddr.toList.getD k 0)
    (indirect : 4096 ≤ inodeGetsize inode → 4096 ≤ inodeGetsize inode' ∧
      (inodeGetsize inode' / 512 + 1 ≤ 1792 ↔ inodeGetsize inode / 512 + 1 ≤ 1792) ∧
      (inodeGetsize inode / 512 + 1 ≤ 1792 →
        inode'.iAddr.toList.getD (k / 256) 0 = inode.iAddr.toList.getD (k / 256) 0 ∧
        u'.f.sectors[(inode.iAddr.toList.getD (k / 256) 0).toNat]? =
          u.f.sectors[(inode.iAddr.toList.getD (k / 256) 0).toNat]?)) :
    inodeFindsector u' inode' k = inodeFindsector u inode k := by
  by_cases small : inodeGetsize inode < 4096
  · obtain ⟨small', addr⟩ := direct small
    rw [inodeFindsector_direct u used inside small, inodeFindsector_direct u' used' inside' small',
      addr]
  · obtain ⟨big', limit, same⟩ := indirect (Nat.not_lt.mp small)
    by_cases fits : inodeGetsize inode / 512 + 1 ≤ 1792
    · obtain ⟨addr, sector⟩ := same fits
      rw [inodeFindsector_indirect u used inside (by omega) fits,
        inodeFindsector_indirect u' used' inside' big' (limit.mpr fits)]
      simp only [inodeFindsectorBigfile, addressesPerSector, addr]
      rw [sectorRead_faultless works, sectorRead_faultless works', sector]
    · rw [inodeFindsector_tooLarge u used inside (Nat.not_le.mp fits),
        inodeFindsector_tooLarge u' used' inside' (Nat.not_le.mp fun le => fits (limit.mp le))]

/-- The sectors of an inode are found where they were found before when the sectors that are read
as its indirect sectors are as before. -/
theorem inodeFindsector_kept {u u' : UnixFilesystem} (works : u.f.host.Faultless)
    (works' : u'.f.host.Faultless) (inode : Inode)
    (same : 4096 ≤ inodeGetsize inode → ∀ j ≤ inodeGetsize inode / 512 / 256,
      u'.f.sectors[(inode.iAddr.toList.getD j 0).toNat]? =
        u.f.sectors[(inode.iAddr.toList.getD j 0).toNat]?) (k : Nat) :
    inodeFindsector u' inode k = inodeFindsector u inode k := by
  cases used : inode.isAllocated with
  | false => simp only [inodeFindsector, used, Bool.not_false, if_true]
  | true =>
    by_cases inside : k ≤ inodeGetsize inode / 512
    · exact inodeFindsector_same works works' used used inside inside (fun small => ⟨small, rfl⟩)
        fun big => ⟨big, Iff.rfl, fun _ => ⟨rfl, same big (k / 256) (Nat.div_le_div_right inside)⟩⟩
    · rw [inodeFindsector_end u used (by omega), inodeFindsector_end u' used (by omega)]

/-- A file of at most 8 sectors, in the format. -/
theorem mapped_direct (f : Disk) {inode : Inode} (small : sectorCount inode ≤ 8) {k : Nat}
    (inside : k < sectorCount inode) :
    f.mapped inode (.data k) = some (inode.iAddr.toList.getD k 0).toNat := by
  rw [Disk.mapped, if_pos inside, if_pos small, addr_getElem? inode (by omega), Option.map_some]

/-- A file of more than 8 sectors, in the format. -/
theorem mapped_entry (f : Disk) {inode : Inode} (big : 8 < sectorCount inode) {k : Nat}
    (inside : k < sectorCount inode) : f.mapped inode (.data k) = f.entry inode k := by
  rw [Disk.mapped, if_pos inside, if_neg (by omega)]

/-- An indirect sector, in the format. -/
theorem mapped_indirect (f : Disk) {inode : Inode} (big : 8 < sectorCount inode)
    (fits : sectorCount inode ≤ 1792) {j : Nat} (inside : j < (sectorCount inode + 255) / 256) :
    f.mapped inode (.indirect j) = some (inode.iAddr.toList.getD j 0).toNat := by
  rw [Disk.mapped, if_pos ⟨big, inside⟩, addr_getElem? inode (by omega), Option.map_some]

/-- A sector of content that the code finds is that of the format, unless the file has exactly
4096 bytes. -/
theorem mapped_of_found {u : UnixFilesystem} {inode : Inode} (used : inode.isAllocated = true)
    (other : inodeGetsize inode ≠ 4096) {k x : Nat} (inside : k < sectorCount inode)
    (found : inodeFindsector u inode k = x) : u.f.mapped inode (.data k) = some x := by
  have count := sectorCount_eq inode
  have place : k ≤ inodeGetsize inode / 512 := by
    split at count <;> omega
  by_cases small : inodeGetsize inode < 4096
  · have few : sectorCount inode ≤ 8 := by
      split at count <;> omega
    rw [inodeFindsector_direct u used place small] at found
    rw [mapped_direct u.f few inside, Int.ofNat.inj found]
  · have many : 8 < sectorCount inode := by
      split at count <;> omega
    by_cases fits : inodeGetsize inode / 512 + 1 ≤ 1792
    · have positive : 0 ≤ inodeFindsector u inode k := by
        rw [found]
        exact Int.natCast_nonneg x
      obtain ⟨e, there, -, value⟩ := entry_of_found u used (by omega) fits place positive
      rw [found, Int.natCast_inj] at value
      rw [mapped_entry u.f many inside, there, value]
    · rw [inodeFindsector_tooLarge u used place (by omega), errFileTooLarge] at found
      omega

end U6fs
