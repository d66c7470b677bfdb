import U6fs.Spec.Volume
import U6fs.Verif.Mounted

/-!
# The table of inodes

On a working machine the inodes of the table are an array: a write of an inode changes 32 bytes of
the disk file, a read returns what was written last, and numbers outside of the table are refused
without any effect.
-/
namespace U6fs

open Lib

/-- The sector of the table that holds an inode. -/
def Superblock.tableSector (s : Superblock) (inr : Nat) : Nat := s.sInodeStart.toNat + inr / 16

/-- Inode `inr` was written and nothing else. -/
structure Stored (f f' : Disk) (s : Superblock) (inr : Nat) (inode : Inode) : Prop where
  /-- The number is in the table. -/
  inside : 1 ≤ inr ∧ inr < s.inodes
  /-- The table holds the new inode. -/
  inodeAt : ∀ m, f'.inodeAt s m = if m = inr then some inode else f.inodeAt s m
  /-- Other sectors are as before. -/
  other : ∀ x, x ≠ s.tableSector inr → f'.sectors[x]? = f.sectors[x]?
  /-- The file is as long as before. -/
  length : f'.sectors.length = f.sectors.length
  /-- The machine is the same. -/
  host : f'.host = f.host
  /-- The table sector was written by `inode_write`. -/
  log : f'.log = (.inodeWrite, s.tableSector inr) :: f.log

/-- Sector `x` was written and nothing else. -/
structure Wrote (f f' : Disk) (writer : Writer) (x : Nat) (content : Sector) : Prop where
  /-- The sector holds the new content. -/
  same : f'.sectors[x]? = some content
  /-- Other sectors are as before. -/
  other : ∀ y, y ≠ x → f'.sectors[y]? = f.sectors[y]?
  /-- The file grows when the sector is the one after its end. -/
  length : f'.sectors.length = max f.sectors.length (x + 1)
  /-- The machine is the same. -/
  host : f'.host = f.host
  /-- The sector was written by `writer`. -/
  log : f'.log = (writer, x) :: f.log

/-- A sector of the file, or the one after its end, is written on a working machine. -/
theorem sectorWrite_spec {f : Disk} (works : f.host.Faultless) (writer : Writer) {x : Nat}
    (near : x ≤ f.sectors.length) (content : Sector) :
    ∃ f', sectorWrite writer f x content = (errNone, f') ∧ Wrote f f' writer x content := by
  refine ⟨_, sectorWrite_faultless works writer x content, f.overwrite_same x content,
    fun y other => ?_, f.overwrite_length x content, rfl, rfl⟩
  by_cases inside : y < f.sectors.length
  · exact f.overwrite_other content other inside
  · have long := f.overwrite_length x content
    change (f.overwrite x content).sectors[y]? = _
    rw [List.getElem?_eq_none (by omega), List.getElem?_eq_none (by omega)]

/-- The bytes of the disk file. -/
def Disk.bytes (f : Disk) : List UInt8 := f.sectors.flatMap Block.bytes ++ f.tail

/-- Some sectors, as bytes, take 512 bytes each. -/
theorem length_flatMap_bytes (sectors : List Sector) :
    (sectors.flatMap Block.bytes).length = 512 * sectors.length := by
  have sized : sectors.map (fun sector => sector.bytes.length) = sectors.map fun _ => 512 := by
    apply List.map_congr_left
    intro sector _
    exact sector.sized
  rw [List.length_flatMap, sized, List.map_const', List.sum_replicate_nat, Nat.mul_comm]

/-- Bytes written into a sector of the file are written at their place in the file. -/
theorem Disk.bytes_overwrite (f : Disk) {x off : Nat} {old : Sector}
    (there : f.sectors[x]? = some old) {source : List UInt8} (fits : off + source.length ≤ 512) :
    (f.overwrite x (old.splice off source)).bytes =
      f.bytes.take (512 * x + off) ++ source ++ f.bytes.drop (512 * x + off + source.length) := by
  obtain ⟨inside, rfl⟩ := List.getElem?_eq_some_iff.mp there
  -- the file before the sector, and behind it
  have front := length_flatMap_bytes (f.sectors.take x)
  rw [List.length_take, Nat.min_eq_left inside.le] at front
  have sized : f.sectors[x].bytes.length = 512 := f.sectors[x].sized
  have before : f.bytes = (f.sectors.take x).flatMap Block.bytes ++ (f.sectors[x].bytes ++
      ((f.sectors.drop (x + 1)).flatMap Block.bytes ++ f.tail)) := by
    have cut := List.take_append_drop x f.sectors
    rw [List.drop_eq_getElem_cons inside] at cut
    rw [Disk.bytes]
    conv_lhs => rw [← cut]
    simp only [List.flatMap_append, List.flatMap_cons, List.append_assoc]
  have after : (f.overwrite x (f.sectors[x].splice off source)).bytes =
      (f.sectors.take x).flatMap Block.bytes ++ ((f.sectors[x].splice off source).bytes ++
        ((f.sectors.drop (x + 1)).flatMap Block.bytes ++ f.tail)) := by
    simp only [Disk.bytes, Disk.overwrite, Disk.padded, if_pos inside.le, if_pos inside,
      List.flatMap_append, List.flatMap_cons, List.append_assoc]
  have first : (f.sectors[x].bytes ++ ((f.sectors.drop (x + 1)).flatMap Block.bytes ++
      f.tail)).take off = f.sectors[x].bytes.take off :=
    List.take_append_of_le_length (by omega)
  have rest : (f.sectors[x].bytes ++ ((f.sectors.drop (x + 1)).flatMap Block.bytes ++
      f.tail)).drop (off + source.length) = f.sectors[x].bytes.drop (off + source.length) ++
        ((f.sectors.drop (x + 1)).flatMap Block.bytes ++ f.tail) :=
    List.drop_append_of_le_length (by omega)
  rw [after, before, Nat.add_assoc, ← front, List.take_length_add_append,
    List.drop_length_add_append, first, rest, Block.splice_bytes _ fits]
  simp only [List.append_assoc]

/-- The place of an inode in the disk file. -/
def Superblock.inodePlace (s : Superblock) (inr : Nat) : Nat :=
  512 * s.tableSector inr + 32 * (inr % 16)

/-- The sectors of the inode table are in the disk file, and transfers work. -/
structure TableThere (u : UnixFilesystem) : Prop where
  /-- Transfers work. -/
  works : u.f.host.Faultless
  /-- The sectors are in the file. -/
  present : ∀ k < u.s.sIsize.toNat, u.s.sInodeStart.toNat + k < u.f.sectors.length

/-- The code that `inode_read` returns for an inode that it finds. -/
def Inode.readCode (inode : Inode) : Int :=
  if inode.isAllocated then errNone else errUnallocatedInode

/-- Numbers outside of the table are refused, and nothing changes. -/
theorem inode_refused (u : UnixFilesystem) {inr : UInt16}
    (outside : ¬(1 ≤ inr.toNat ∧ inr.toNat < u.s.inodes)) (inode : Inode) :
    inodeWrite u inr inode = (errInodeOutOfRange, u) ∧
      inodeRead u inr inode = (errInodeOutOfRange, inode) := by
  have range : inodeOutOfRange u.s inr = true := by
    rw [Superblock.inodes, ← inodeOutOfRange_eq_false_iff] at outside
    exact Bool.eq_true_of_not_eq_false outside
  exact ⟨by rw [inodeWrite, if_pos range], by rw [inodeRead, if_pos range]⟩

namespace TableThere

variable {u : UnixFilesystem} (table : TableThere u)

include table

/-- `inode_write` stores an inode whose number is in range, in the 32 bytes at its place. -/
theorem inodeWrite_spec {inr : UInt16} (inRange : inodeOutOfRange u.s inr = false)
    (inode : Inode) :
    ∃ f', inodeWrite u inr inode = (errNone, { u with f := f' }) ∧
      Stored u.f f' u.s inr.toNat inode ∧
      f'.bytes = u.f.bytes.take (u.s.inodePlace inr.toNat) ++ inodeCodec.encode inode ++
        u.f.bytes.drop (u.s.inodePlace inr.toNat + 32) := by
  obtain ⟨low, high⟩ := (inodeOutOfRange_eq_false_iff _ _).mp inRange
  have place : inodeSectorNb u.s inr = u.s.tableSector inr.toNat := Nat.add_comm _ _
  have inside : u.s.tableSector inr.toNat < u.f.sectors.length :=
    table.present (inr.toNat / 16) (by omega)
  obtain ⟨sector, there⟩ : ∃ sector, u.f.sectors[u.s.tableSector inr.toNat]? = some sector :=
    ⟨_, List.getElem?_eq_getElem inside⟩
  have read := sectorRead_faultless table.works (u.s.tableSector inr.toNat)
  rw [there] at read
  have fits : (inodeIndex inr + 1) * inodeCodec.width ≤ sectorSize := by
    rw [inodeIndex_eq, inodeCodec_width, sectorSize]
    omega
  obtain ⟨f', written, wrote⟩ := sectorWrite_spec table.works .inodeWrite
    (x := u.s.tableSector inr.toNat) inside.le (inodeCodec.set sector (inodeIndex inr) inode)
  refine ⟨f', ?_, ⟨⟨low, high⟩, fun m => ?_, wrote.other, ?_, wrote.host, wrote.log⟩, ?_⟩
  · simp only [inodeWrite, inRange, Bool.false_eq_true, if_false, place, read, written]
  · by_cases same : m = inr.toNat
    · subst same
      rw [if_pos rfl, Disk.inodeAt, if_pos ⟨low, high⟩]
      change (f'.sectors[u.s.tableSector inr.toNat]?).map _ = _
      rw [wrote.same, Option.map_some, ← inodeIndex_eq, inodeCodec.get_set_same _ _ fits]
    · rw [if_neg same]
      unfold Disk.inodeAt
      split
      · rename_i inside
        by_cases sector' : m / 16 = inr.toNat / 16
        · have slot : m % 16 ≠ inodeIndex inr := by
            rw [inodeIndex_eq]
            omega
          rw [sector']
          change (f'.sectors[u.s.tableSector inr.toNat]?).map _ =
            (u.f.sectors[u.s.tableSector inr.toNat]?).map _
          rw [wrote.same, there, Option.map_some, Option.map_some,
            inodeCodec.get_set_other _ _ fits slot]
        · rw [wrote.other _ (by rw [Superblock.tableSector]; omega)]
      · rfl
  · rw [wrote.length]
    exact Nat.max_eq_left inside
  · rw [sectorWrite_faultless table.works, Prod.mk.injEq] at written
    obtain ⟨-, rfl⟩ := written
    have length : (inodeCodec.encode inode).length = 32 := inodeCodec.encode_length inode
    have fits : inodeIndex inr * inodeCodec.width + (inodeCodec.encode inode).length ≤ 512 := by
      rw [length, inodeIndex_eq, inodeCodec_width]
      omega
    have bytes := u.f.bytes_overwrite there fits
    rw [length] at bytes
    rw [Superblock.inodePlace, Nat.mul_comm 32, ← inodeIndex_eq]
    exact bytes

/-- The table stays in the file when an inode is stored. -/
theorem stored {f' : Disk} {inr : Nat} {inode : Inode} (stored : Stored u.f f' u.s inr inode) :
    TableThere { u with f := f' } where
  works := by
    rw [stored.host]
    exact table.works
  present k inside := by
    rw [stored.length]
    exact table.present k inside

/-- `inode_read` gives the inode of the table and tells whether it is allocated. -/
theorem inodeRead_inside {inr : UInt16} (inside : 1 ≤ inr.toNat ∧ inr.toNat < u.s.inodes)
    (before : Inode) :
    ∃ inode, u.f.inodeAt u.s inr.toNat = some inode ∧
      inodeRead u inr before = (inode.readCode, inode) := by
  have range := (inodeOutOfRange_eq_false_iff u.s inr).mpr inside
  have place : inodeSectorNb u.s inr < u.f.sectors.length := by
    have present := table.present (inr.toNat / 16) (by
      rw [Superblock.inodes] at inside
      omega)
    rw [inodeSectorNb, Nat.add_comm]
    exact present
  have read := sectorRead_faultless table.works (inodeSectorNb u.s inr)
  rw [List.getElem?_eq_getElem place] at read
  refine ⟨inodeCodec.get u.f.sectors[inodeSectorNb u.s inr] (inodeIndex inr), ?_, ?_⟩
  · rw [inodeAt_eq u range, List.getElem?_eq_getElem place, Option.map_some]
  · rw [inodeRead, range, if_neg Bool.false_ne_true, read]
    rfl

end TableThere

/-- The inodes of the table as an array; numbers outside of the table have none. -/
def inodeArray (u : UnixFilesystem) (inr : UInt16) : Option Inode := u.f.inodeAt u.s inr.toNat

/-- The array after inodes are written to some numbers. -/
def writeAll (array : UInt16 → Option Inode) (writes : List (UInt16 × Inode)) :
    UInt16 → Option Inode :=
  writes.foldl (fun array (inr, inode) =>
    if (array inr).isSome then Function.update array inr (some inode) else array) array

/-- What `inode_read` returns and stores for an entry of the array, when `before` was stored
before. -/
def readSlot (entry : Option Inode) (before : Inode) : Int × Inode :=
  match entry with
  | none => (errInodeOutOfRange, before)
  | some inode => (inode.readCode, inode)

/-- The state after calls of `inode_write`. -/
def inodeWrites (u : UnixFilesystem) (writes : List (UInt16 × Inode)) : UnixFilesystem :=
  writes.foldl (fun u (inr, inode) => (inodeWrite u inr inode).2) u

namespace TableThere

variable {u : UnixFilesystem} (table : TableThere u)

include table

/-- `inode_read` reads the array. -/
theorem inodeRead_eq (inr : UInt16) (before : Inode) :
    inodeRead u inr before = readSlot (inodeArray u inr) before := by
  by_cases inside : 1 ≤ inr.toNat ∧ inr.toNat < u.s.inodes
  · obtain ⟨inode, there, read⟩ := table.inodeRead_inside inside before
    rw [read, inodeArray, there]
    rfl
  · rw [(inode_refused u inside before).2, inodeArray, Disk.inodeAt, if_neg inside]
    rfl

/-- `inode_write` writes the array. -/
theorem inodeWrite_array (inr : UInt16) (inode : Inode) :
    TableThere (inodeWrite u inr inode).2 ∧
      inodeArray (inodeWrite u inr inode).2 = writeAll (inodeArray u) [(inr, inode)] := by
  by_cases inside : 1 ≤ inr.toNat ∧ inr.toNat < u.s.inodes
  · obtain ⟨f', run, stored, -⟩ :=
      table.inodeWrite_spec ((inodeOutOfRange_eq_false_iff u.s inr).mpr inside) inode
    obtain ⟨old, there, -⟩ := table.inodeRead_inside inside inode
    have known : (inodeArray u inr).isSome = true := by
      rw [inodeArray, there]
      rfl
    rw [run]
    refine ⟨table.stored stored, ?_⟩
    show inodeArray _ = if _ then _ else _
    rw [if_pos known]
    funext m
    show f'.inodeAt u.s m.toNat = _
    rw [stored.inodeAt, Function.update_apply]
    by_cases same : m = inr
    · rw [if_pos same, if_pos (congrArg UInt16.toNat same)]
    · rw [if_neg same, if_neg fun equal => same (UInt16.toNat_inj.mp equal)]
      rfl
  · have missing : ¬(inodeArray u inr).isSome = true := by
      rw [inodeArray, Disk.inodeAt, if_neg inside]
      exact Bool.false_ne_true
    rw [(inode_refused u inside inode).1]
    refine ⟨table, ?_⟩
    show inodeArray _ = if _ then _ else _
    rw [if_neg missing]

/-- Any calls of `inode_write` write the array. -/
theorem inodeWrites_array (writes : List (UInt16 × Inode)) :
    TableThere (inodeWrites u writes) ∧
      inodeArray (inodeWrites u writes) = writeAll (inodeArray u) writes := by
  induction writes generalizing u with
  | nil => exact ⟨table, rfl⟩
  | cons write writes ih =>
    obtain ⟨next, array⟩ := table.inodeWrite_array write.1 write.2
    obtain ⟨last, rest⟩ := ih next
    refine ⟨last, rest.trans ?_⟩
    rw [array]
    rfl

end TableThere

/-- When the inode table is in the disk file and transfers work, a write of an inode of the table
succeeds, changes the 32 bytes of the inode in the disk file, and is read back, while other numbers
read as before; numbers outside of the table are refused; and after any sequence of writes the
numbers read as the array does in which the inodes were written. -/
theorem inodeTable_isArray {u : UnixFilesystem} (table : TableThere u) :
    (∀ inr inode, 1 ≤ inr.toNat → inr.toNat ≤ 16 * u.s.sIsize.toNat - 1 →
      ∃ u', inodeWrite u inr inode = (errNone, u') ∧
        u'.f.bytes = u.f.bytes.take (u.s.inodePlace inr.toNat) ++ inodeCodec.encode inode ++
          u.f.bytes.drop (u.s.inodePlace inr.toNat + 32) ∧
        (∀ before, inodeRead u' inr before =
          (if inode.isAllocated then errNone else errUnallocatedInode, inode)) ∧
        ∀ other before, other ≠ inr → inodeRead u' other before = inodeRead u other before) ∧
    (∀ inr inode, ¬(1 ≤ inr.toNat ∧ inr.toNat ≤ 16 * u.s.sIsize.toNat - 1) →
      inodeWrite u inr inode = (errInodeOutOfRange, u) ∧
        inodeRead u inr inode = (errInodeOutOfRange, inode)) ∧
    ∀ writes inr before, inodeRead (inodeWrites u writes) inr before =
      readSlot (writeAll (inodeArray u) writes inr) before := by
  refine ⟨fun inr inode low high => ?_, fun inr inode outside => ?_, fun writes inr before => ?_⟩
  · have range := (inodeOutOfRange_eq_false_iff u.s inr).mpr ⟨low, by omega⟩
    obtain ⟨f', run, stored, bytes⟩ := table.inodeWrite_spec range inode
    have next := table.stored stored
    refine ⟨_, run, bytes, fun before => ?_, fun other before differs => ?_⟩
    · rw [next.inodeRead_eq, inodeArray]
      show readSlot (f'.inodeAt u.s inr.toNat) before = _
      rw [stored.inodeAt, if_pos rfl]
      rfl
    · have number : other.toNat ≠ inr.toNat := fun same => differs (UInt16.toNat_inj.mp same)
      rw [next.inodeRead_eq, table.inodeRead_eq, inodeArray, inodeArray]
      show readSlot (f'.inodeAt u.s other.toNat) before = _
      rw [stored.inodeAt, if_neg number]
  · apply inode_refused
    rw [Superblock.inodes]
    omega
  · obtain ⟨last, array⟩ := table.inodeWrites_array writes
    rw [last.inodeRead_eq, array]

set_option maxRecDepth 10000 in
/-- An inode is written to the last number of the empty volume, and one past it is refused. -/
theorem inodeTable_isArray_empty :
    ∃ u, mountv6 emptyVolume = .ok u ∧
      inodeRead (inodeWrites u [(31, emptyDirectory), (32, emptyDirectory)]) 31 Inode.zero =
        (errNone, emptyDirectory) ∧
      inodeWrite u 32 emptyDirectory = (errInodeOutOfRange, u) := by
  obtain ⟨u, mounted, super, length, free⟩ := mountv6_check (f := emptyVolume)
    (P := fun u => u.s = volumeSuperblock 2 6 ∧ u.f.sectors.length = 7 ∧
      (inodeArray u 31).isSome = true) (by decide +kernel)
  have table : TableThere u := by
    constructor
    · rw [(mountv6_coherent mounted).1]
      exact Host.quiet_faultless
    · intro k inside
      rw [super] at inside ⊢
      have bound : k < 2 := inside
      show 2 + k < u.f.sectors.length
      omega
  obtain ⟨-, refused, reads⟩ := inodeTable_isArray table
  have outside : ¬(1 ≤ (32 : UInt16).toNat ∧ (32 : UInt16).toNat ≤ 16 * u.s.sIsize.toNat - 1) := by
    rw [super]
    decide
  refine ⟨u, mounted, ?_, (refused 32 emptyDirectory outside).1⟩
  have array : writeAll (inodeArray u) [(31, emptyDirectory), (32, emptyDirectory)] 31 =
      some emptyDirectory := by
    have first : writeAll (inodeArray u) [(31, emptyDirectory)] =
        Function.update (inodeArray u) 31 (some emptyDirectory) := if_pos free
    show writeAll (writeAll (inodeArray u) [(31, emptyDirectory)]) [(32, emptyDirectory)] 31 = _
    rw [first]
    show (if _ then _ else _ : UInt16 → Option Inode) 31 = _
    split
    · rw [Function.update_of_ne (by decide), Function.update_self]
    · rw [Function.update_self]
  rw [reads, array]
  rfl

end U6fs
