import U6fs.Spec.Runs
import U6fs.Verif.Creation
import U6fs.Verif.MountBitmaps

/-!
# Protection of the metadata

The write path addresses the disk in three ways: it stores inodes in the table, it overwrites
the sector that `inode_findsector` returns for the end of a file, and it writes sectors whose bit
is clear. The second is harmless as long as the last sector of every file is in the data region,
which an indirect sector that is overwritten by content breaks. The invariant is that no such
sector is overwritten: its bit is set, and it is the last sector of no file.
-/
namespace U6fs

open Lib

/-- The indirect sector that holds the last entry of a file. -/
def lastIndirect (inode : Inode) : Nat :=
  (inode.iAddr.toList.getD (inodeGetsize inode / 512 / 256) 0).toNat

/-- The last sector of the file is partly used, and the file can be appended to. -/
def Partial (inode : Inode) : Prop :=
  inodeGetsize inode % 512 ≠ 0 ∧ inodeGetsize inode / 512 + 1 ≤ 1792

/-- Boot sector, superblock and table between a state and a later one: the first two are as
before, and what is not written by `inode_write` is written to the data region. -/
structure MetadataKept (u u' : UnixFilesystem) : Prop where
  /-- The boot sector is not modified. -/
  boot : u'.f.sectors[0]? = u.f.sectors[0]?
  /-- The superblock is not modified. -/
  superblock : u'.f.sectors[1]? = u.f.sectors[1]?
  /-- Only `inode_write` writes outside of the data region. -/
  writes : ∃ new, u'.f.log = new ++ u.f.log ∧
    ∀ entry ∈ new, entry.1 = .inodeWrite ∨ u.s.InData entry.2

/-- The end of a file can be overwritten: it is in the data region, and neither it nor the
indirect sector that names it may change its role, where `frozen` are the sectors kept as they
are. -/
structure LastSafe (frozen : Set Nat) (u : UnixFilesystem) (inode : Inode) : Prop where
  /-- The indirect sector that names the last sector is kept. -/
  indirect : 4096 ≤ inodeGetsize inode → lastIndirect inode ∈ frozen
  /-- The last sector is in the data region and not kept. -/
  last : ∀ x : Nat, inodeFindsector u inode (inodeGetsize inode / 512 : Nat) = x →
    u.s.InData x ∧ x ∉ frozen

/-- The invariant from the state `u₀` on, for the files that may be filled up: the metadata was
kept, the frozen sectors are as they were, and the ends of the files can be overwritten. -/
structure Protected (frozen : Set Nat) (Fillable : Nat → Inode → Prop) (u₀ u : UnixFilesystem) :
    Prop where
  /-- The regions are disjoint and the machine works. -/
  geometry : Geometry u
  /-- The superblock is that of the start. -/
  s : u.s = u₀.s
  /-- The metadata was kept. -/
  kept : MetadataKept u₀ u
  /-- The frozen sectors are in the data region. -/
  data : ∀ x ∈ frozen, u.s.InData x
  /-- Their bits are set. -/
  marked : ∀ x ∈ frozen, u.fbm.Marked x
  /-- They are as at the start. -/
  same : ∀ x ∈ frozen, u.f.sectors[x]? = u₀.f.sectors[x]?
  /-- The ends of files can be overwritten. -/
  last : ∀ inr inode, u.f.Allocated u.s inr inode → Fillable inr inode → Partial inode →
    LastSafe frozen u inode

/-- The end of a file is found in the same place when its last indirect sector is the same. -/
theorem inodeFindsector_last {u u' : UnixFilesystem} {inode inode' : Inode}
    (works : u.f.host.Faultless) (works' : u'.f.host.Faultless)
    (used : inode.isAllocated = true) (used' : inode'.isAllocated = true)
    (fits : inodeGetsize inode / 512 + 1 ≤ 1792)
    (size : inodeGetsize inode' / 512 = inodeGetsize inode / 512)
    (addr : inode'.iAddr = inode.iAddr)
    (same : 4096 ≤ inodeGetsize inode →
      u'.f.sectors[lastIndirect inode]? = u.f.sectors[lastIndirect inode]?) :
    inodeFindsector u' inode' (inodeGetsize inode' / 512 : Nat) =
      inodeFindsector u inode (inodeGetsize inode / 512 : Nat) := by
  rw [size]
  refine inodeFindsector_same works works' used used' le_rfl size.ge
    (fun small => ⟨by omega, by rw [addr]⟩)
    fun big => ⟨by omega, by rw [size], fun _ => ⟨by rw [addr], same big⟩⟩

section Steps

variable {frozen : Set Nat} {Fillable : Nat → Inode → Prop} {u₀ u u' : UnixFilesystem}

/-- Nothing was written yet. -/
theorem MetadataKept.refl (u : UnixFilesystem) : MetadataKept u u := ⟨rfl, rfl, [], rfl, by simp⟩

/-- An inode written in the table keeps the rest of the metadata. -/
theorem MetadataKept.stored {inr : Nat} {inode : Inode} (kept : MetadataKept u₀ u)
    (geometry : Geometry u) (stored : Stored u.f u'.f u.s inr inode) : MetadataKept u₀ u' := by
  obtain ⟨new, log, writes⟩ := kept.writes
  have table := geometry.table
  refine ⟨?_, ?_, (.inodeWrite, u.s.tableSector inr) :: new, by rw [stored.log, log]; rfl, ?_⟩
  · rw [stored.other 0 (by rw [Superblock.tableSector]; omega), kept.boot]
  · rw [stored.other 1 (by rw [Superblock.tableSector]; omega), kept.superblock]
  · intro entry mem
    rcases List.mem_cons.mp mem with rfl | old
    · exact .inl rfl
    · exact writes entry old

/-- A sector of the data region and an inode written keep the rest of the metadata. -/
theorem MetadataKept.put {writer : Writer} {x inr : Nat} {content : Sector} {inode : Inode}
    (kept : MetadataKept u₀ u) (geometry : Geometry u) (s : u.s = u₀.s)
    (put : Put u.f u'.f u.s writer x content inr inode) : MetadataKept u₀ u' := by
  obtain ⟨new, log, writes⟩ := kept.writes
  have table := geometry.table
  have region := geometry.data
  have low := put.data.1
  refine ⟨?_, ?_, (.inodeWrite, u.s.tableSector inr) :: (writer, x) :: new,
    by rw [put.log, log]; rfl, ?_⟩
  · rw [put.other 0 (by omega) (by rw [Superblock.tableSector]; omega), kept.boot]
  · rw [put.other 1 (by omega) (by rw [Superblock.tableSector]; omega), kept.superblock]
  · intro entry mem
    rcases List.mem_cons.mp mem with rfl | mem
    · exact .inl rfl
    · rcases List.mem_cons.mp mem with rfl | old
      · exact .inr (by rw [← s]; exact put.data)
      · exact writes entry old

/-- A file whose inode and whose frozen sectors are as before can be filled up as before. -/
theorem LastSafe.congr {inode : Inode} (safe : LastSafe frozen u inode)
    (works : u.f.host.Faultless) (works' : u'.f.host.Faultless) (s : u'.s = u.s)
    (used : inode.isAllocated = true) (part : Partial inode)
    (same : ∀ x ∈ frozen, u'.f.sectors[x]? = u.f.sectors[x]?) : LastSafe frozen u' inode := by
  refine ⟨safe.indirect, fun x found => ?_⟩
  rw [inodeFindsector_last works works' used used part.2 rfl rfl
    fun big => same _ (safe.indirect big)] at found
  rw [s]
  exact safe.last x found

namespace Protected

/-- A rejected call changes no byte. -/
theorem rejected {code : Int} (before : Protected frozen Fillable u₀ u)
    (rejected : Rejected u u' code) : Protected frozen Fillable u₀ u' := by
  have works := before.geometry.works
  refine ⟨before.geometry.rejected rejected, rejected.s.trans before.s, ?_, ?_, ?_, ?_, ?_⟩
  · refine ⟨?_, ?_, ?_⟩
    · rw [rejected.f, before.kept.boot]
    · rw [rejected.f, before.kept.superblock]
    · rw [rejected.f]
      exact before.kept.writes
  · rw [rejected.s]
    exact before.data
  · rw [rejected.fbm]
    exact before.marked
  · rw [rejected.f]
    exact before.same
  · intro inr inode allocated fillable part
    rw [rejected.f, rejected.s] at allocated
    exact (before.last inr inode allocated fillable part).congr works
      (by rw [rejected.f]; exact works) rejected.s allocated.2 part fun x _ => by rw [rejected.f]

/-- A sector that is not frozen and an inode whose end can be overwritten are written. -/
theorem put {f : Disk} {fbm : BmblockArray} {writer : Writer} {x inr : Nat} {content : Sector}
    {inode : Inode} (before : Protected frozen Fillable u₀ u) (same : fbm.SameBits u.fbm)
    (put : Put u.f f u.s writer x content inr inode) (fresh : x ∉ frozen)
    (safe : Fillable inr inode → Partial inode → inode.isAllocated = true →
      LastSafe frozen { u with f, fbm } inode) :
    Protected frozen Fillable u₀ { u with f, fbm } := by
  have geometry := before.geometry
  have next : Geometry { u with f, fbm } := (geometry.searched same).put put
  have kept : ∀ y ∈ frozen, f.sectors[y]? = u.f.sectors[y]? := fun y mem =>
    geometry.put_data put (before.data y mem) fun equal => fresh (equal ▸ mem)
  refine ⟨next, before.s, before.kept.put geometry before.s put, before.data, fun y mem => ?_,
    fun y mem => ?_, fun m found allocated fillable part => ?_⟩
  · exact (same.marked y).mpr (before.marked y mem)
  · exact (kept y mem).trans (before.same y mem)
  · have there := allocated.1
    change f.inodeAt u.s m = some found at there
    rw [put.inodeAt m] at there
    by_cases mine : m = inr
    · rw [if_pos mine, Option.some.injEq] at there
      subst there mine
      exact safe fillable part allocated.2
    · rw [if_neg mine] at there
      exact (before.last m found ⟨there, allocated.2⟩ fillable part).congr geometry.works next.works
        rfl allocated.2 part kept

/-- A new file is empty, so there is nothing to fill up. -/
theorem begun {u₁ : UnixFilesystem} {entry name : List UInt8} {mode parent : UInt16}
    {inode : Inode} {inr : Nat} (before : Protected frozen Fillable u₀ u)
    (begun : Begun u u₁ entry name mode parent inode inr) : Protected frozen Fillable u₀ u₁ := by
  have geometry := before.geometry
  have next := geometry.begun begun
  have s := begun.reserved.s
  have kept : ∀ y ∈ frozen, u₁.f.sectors[y]? = u.f.sectors[y]? := fun y mem =>
    geometry.stored_data begun.stored (before.data y mem)
  refine ⟨next, s.trans before.s, before.kept.stored geometry begun.stored, ?_, ?_, ?_, ?_⟩
  · rw [s]
    exact before.data
  · rw [begun.fbm]
    exact before.marked
  · exact fun y mem => (kept y mem).trans (before.same y mem)
  · intro m found allocated fillable part
    have there := allocated.1
    rw [s, begun.stored.inodeAt m] at there
    by_cases mine : m = inr
    · rw [if_pos mine, Option.some.injEq] at there
      subst there
      exact absurd (by rw [inodeGetsize_zero_created]) part.1
    · rw [if_neg mine] at there
      exact (before.last m found ⟨there, allocated.2⟩ fillable part).congr geometry.works next.works
        s allocated.2 part kept

/-- A file that may be filled up is filled up. -/
theorem filledUp {inr : Nat} {inode inode' : Inode} {bytes : List UInt8}
    (before : Protected frozen Fillable u₀ u) (allocated : u.f.Allocated u.s inr inode)
    (fillable : Fillable inr inode) (fits : inodeGetsize inode / 512 + 1 ≤ 1792)
    (short : bytes.length ≤ 512 - inodeGetsize inode % 512)
    (filled : FilledUp u u' inr inode inode' bytes) : Protected frozen Fillable u₀ u' := by
  have geometry := before.geometry
  have part : Partial inode := ⟨filled.residual, fits⟩
  have safe := before.last inr inode allocated fillable part
  obtain ⟨x, sector, f', found, -, put, rfl⟩ := filled.effect
  obtain ⟨-, fresh⟩ := safe.last x found
  have size : inodeGetsize inode' = inodeGetsize inode + bytes.length := by
    rw [filled.inode, inodeGetsize_resized _ _ (by omega)]
  have addr : inode'.iAddr = inode.iAddr := by rw [filled.inode, resized_iAddr]
  refine before.put (.refl _) put fresh fun _ part' used' => ?_
  have place : inodeGetsize inode' / 512 = inodeGetsize inode / 512 := by
    have := part'.1
    omega
  have named : lastIndirect inode' = lastIndirect inode := by
    rw [lastIndirect, lastIndirect, addr, place]
  refine ⟨fun big => ?_, fun y there => ?_⟩
  · rw [named]
    exact safe.indirect (by omega)
  · rw [inodeFindsector_last geometry.works (geometry.put put).works allocated.2 used' fits place
      addr fun big => ?_] at there
    · exact safe.last y there
    · have mem := safe.indirect big
      exact geometry.put_data put (before.data _ mem) fun equal => fresh (equal ▸ mem)

/-- New sectors are taken for a file that stays below 4096 bytes. -/
theorem taken {inr : UInt16} {inode inode' : Inode} {size : Nat} {bytes : List UInt8}
    {code : Int} (extension : Extends inr u inode size bytes code u' inode')
    (before : Protected frozen Fillable u₀ u) (small : bytes = [] ∨ size + bytes.length < 4096) :
    Protected frozen Fillable u₀ u' := by
  induction extension with
  | done => exact before
  | full more same taken =>
    exact ⟨before.geometry.searched same, before.s,
      ⟨before.kept.boot, before.kept.superblock, before.kept.writes⟩, before.data,
      fun x mem => (same.marked x).mpr (before.marked x mem), before.same,
      fun m found allocated fillable part => (before.last m found allocated fillable part).congr
        before.geometry.works before.geometry.works rfl allocated.2 part fun _ _ => rfl⟩
  | @sector u u' inode inode' size bytes fbm f x code more free same put rest ih =>
    have room := small.resolve_left more
    have fresh : x ∉ frozen := fun mem =>
      ((bmGet_eq_zero_iff _ _).mp free).2 (before.marked x mem)
    have data := before.geometry.data_of_free free
    have length : (bytes.take 512).length + (bytes.drop 512).length = bytes.length := by
      rw [← List.length_append, List.take_append_drop]
    refine ih (before.put same put fresh fun _ part used => ?_) (.inr (by omega))
    have stored := inodeGetsize_placed inode (size + (bytes.take 512).length) x (by omega)
    refine ⟨fun big => absurd big (by omega), fun y there => ?_⟩
    rw [inodeFindsector_direct _ used le_rfl (by omega), stored,
      placed_addr inode _ x (by omega), if_pos rfl, UInt16.toNat_ofNat'] at there
    have bound := u.s.sFsize.toNat_lt
    have small : x < 65536 := by
      have := data.2
      omega
    obtain rfl : y = x := by
      rw [Nat.mod_eq_of_lt small] at there
      omega
    exact ⟨data, fresh⟩

/-- A buffer is appended to a file that may be filled up, and whose slots suffice. -/
theorem appends {inr : UInt16} {inode inode' : Inode} {bytes : List UInt8} {code : Int}
    (before : Protected frozen Fillable u₀ u) (allocated : u.f.Allocated u.s inr.toNat inode)
    (fillable : inodeGetsize inode % 512 ≠ 0 → Fillable inr.toNat inode)
    (slots : SlotsInside (inodeGetsize inode) bytes.length)
    (appended : Appends u u' inr inode inode' bytes code) : Protected frozen Fillable u₀ u' := by
  obtain ⟨u₁, inode₁, first, second⟩ := appended.stages
  refine taken second ?_ ?_
  · rcases first with ⟨-, rfl, -⟩ | ⟨-, -, rfl, -⟩ | filled
    · exact before
    · exact before
    · refine before.filledUp allocated (fillable filled.residual) appended.fits ?_ filled
      rw [List.length_take, residualLength, if_neg filled.residual]
      omega
  · rw [← List.length_eq_zero_iff, List.length_drop, residualLength]
    simp only [SlotsInside] at slots
    split <;> omega

/-- `filev6_writebytes` on an open file. -/
theorem writebytes (fv6 : Filev6) {fv6' : Filev6} {buf : List UInt8} {code : Int}
    (before : Protected frozen Fillable u₀ u)
    (allocated : u.f.Allocated u.s fv6.iNumber.toNat fv6.iNode)
    (fillable : inodeGetsize fv6.iNode % 512 ≠ 0 → Fillable fv6.iNumber.toNat fv6.iNode)
    (slots : SlotsInside (inodeGetsize fv6.iNode) buf.length)
    (run : filev6Writebytes u fv6 buf = some (code, u', fv6')) :
    Protected frozen Fillable u₀ u' ∧ u'.s = u.s ∧
      ∀ m, m ≠ fv6.iNumber.toNat → u'.f.inodeAt u.s m = u.f.inodeAt u.s m := by
  have target : inodeGetsize fv6.iNode % 512 ≠ 0 → LastSectorInData u fv6.iNode := by
    intro residual x found
    by_cases fits : inodeGetsize fv6.iNode / 512 + 1 ≤ 1792
    · exact ((before.last _ _ allocated (fillable residual) ⟨residual, fits⟩).last x found).1
    · rw [inodeFindsector_tooLarge u allocated.2 le_rfl (by omega), errFileTooLarge] at found
      omega
  obtain ⟨code', after, inode', run', result⟩ :=
    before.geometry.filev6Writebytes_spec fv6 buf allocated.inRange slots target
  rw [run'] at run
  cases run
  rcases result with ⟨-, -, rfl, -⟩ | appended
  · exact ⟨before, rfl, fun _ _ => rfl⟩
  · exact ⟨before.appends allocated fillable slots appended, appended.framed.s,
      appended.framed.inodeAt⟩

/-- `direntv6_create` in a directory that may be filled up. When it succeeds, the new file is
empty. -/
theorem create {entry : List UInt8} {mode : UInt16} {code : Int}
    (before : Protected frozen Fillable u₀ u)
    (parents : ∀ found ∈ parentOf u entry,
      u.ibm.Marked found.2.1.toNat ∧ SlotsInside (inodeGetsize found.2.2) 16)
    (fillable : ∀ found ∈ parentOf u entry, found.2.2.isDirectory = true →
      Fillable found.2.1.toNat found.2.2)
    (run : direntv6Create u entry mode = some (code, u')) :
    Protected frozen Fillable u₀ u' ∧
      (0 ≤ code → (∃ found, found ∈ parentOf u entry) ∧
        u'.f.Allocated u'.s (UInt16.ofNat code.toNat).toNat (Inode.zero.created mode)) := by
  rcases direntv6Create_steps before.geometry
    (fun found mem u₁ x reserved => reserved.ne_of_marked (parents found mem).1) run with
    rejected | ⟨name, parent, inode, inr, u₁, dName, written, fv6, begun, apart, allocated, -,
      wrote, is⟩
  · exact ⟨before.rejected rejected, fun positive => absurd rejected.failed (by omega)⟩
  · have slots := (parents _ begun.found).2
    obtain ⟨after, s, others⟩ := (before.begun begun).writebytes
      { iNumber := parent, iNode := inode, offset := 0 }
      (by rw [begun.reserved.s]; exact allocated)
      (fun _ => fillable _ begun.found begun.directory)
      (by rw [direntCodec.encode_length, direntCodec_width]; exact slots) wrote
    refine ⟨after, fun positive => ?_⟩
    have number : code = inr := by
      rw [is]
      split
      · rename_i negative
        rw [if_pos negative] at is
        omega
      · rfl
    rw [number, Int.toNat_natCast, before.geometry.toNat_ofNat begun.inside.2, s]
    refine ⟨⟨_, begun.found⟩, ?_, created_isAllocated _ _⟩
    rw [others inr (Ne.symm apart), begun.reserved.s, begun.stored.inodeAt, if_pos rfl]

/-- `direntv6_addfile` in a directory that may be filled up. -/
theorem addfile {entry buf : List UInt8} {mode : UInt16} {code : Int}
    (before : Protected frozen Fillable u₀ u)
    (parents : ∀ found ∈ parentOf u entry,
      u.ibm.Marked found.2.1.toNat ∧ SlotsInside (inodeGetsize found.2.2) 16)
    (fillable : ∀ found ∈ parentOf u entry, found.2.2.isDirectory = true →
      Fillable found.2.1.toNat found.2.2)
    (small : ∀ _ ∈ parentOf u entry, buf.length < 4096)
    (run : direntv6Addfile u entry mode buf = some (code, u')) :
    Protected frozen Fillable u₀ u' := by
  obtain ⟨inr, u₁, created, result⟩ := direntv6Addfile_cases run
  obtain ⟨after, file⟩ := before.create parents fillable created
  rcases result with ⟨-, rfl⟩ | ⟨inode, written, fv6, positive, allocated, wrote, -⟩
  · exact after
  · obtain ⟨⟨parent, mem⟩, there⟩ := file positive
    have short := small parent mem
    obtain rfl : inode = Inode.zero.created mode :=
      Option.some.inj (allocated.1.symm.trans there.1)
    have empty := inodeGetsize_zero_created mode
    exact (after.writebytes
      { iNumber := UInt16.ofNat inr.toNat, iNode := Inode.zero.created mode, offset := 0 }
      allocated (fun residual => absurd (by rw [empty]) residual)
      (.inr (by rw [empty]; omega)) wrote).1

end Protected

end Steps

/-- The directory of a path can take one more record: its bit is set, no slot past `i_addr[7]` is
needed, and the name with its NUL fits into a record. -/
def ParentReady (u : UnixFilesystem) (entry : List UInt8) : Prop :=
  ∀ found ∈ parentOf u entry, found.1.length < direntMaxlen ∧ u.ibm.Marked found.2.1.toNat ∧
    SlotsInside (inodeGetsize found.2.2) 16

instance (u : UnixFilesystem) (entry : List UInt8) : Decidable (ParentReady u entry) :=
  inferInstanceAs (Decidable (∀ found ∈ parentOf u entry, _))

/-- The calls that store no address past `i_addr[7]`; nothing is asked of a creation that does not
come to `create_dirent`. -/
def SlotsSuffice (u : UnixFilesystem) : Call → Prop
  | .create entry _ => ParentReady u entry
  | .addfile entry _ buf => ParentReady u entry ∧ ∀ _ ∈ parentOf u entry, buf.length < 4096
  | .writebytes inr buf => ∀ inode, u.f.Allocated u.s inr.toNat inode →
      SlotsInside (inodeGetsize inode) buf.length
  | _ => False

/-- The last sectors of files are safe on an image: the scan of a mount reaches the files of more
than 8 sectors whose last sector is partly used, and no file has its last sector where such a
file has an indirect sector. -/
structure EndsSafe (f : Disk) (s : Superblock) : Prop where
  /-- The large files are not in the last sector of the table. -/
  scanned : ∀ inr inode, f.Allocated s inr inode → 4096 < inodeGetsize inode →
    inodeGetsize inode % 512 ≠ 0 → inr ≤ 16 * (s.sIsize.toNat - 1)
  /-- Last sectors and indirect sectors are apart. -/
  apart : ∀ inr inode inr' inode' x, f.Allocated s inr inode → inodeGetsize inode % 512 ≠ 0 →
    f.Allocated s inr' inode' → 4096 < inodeGetsize inode' → inodeGetsize inode' % 512 ≠ 0 →
    f.mapped inode (.data (inodeGetsize inode / 512)) = some x →
    f.mapped inode' (.indirect (inodeGetsize inode' / 512 / 256)) ≠ some x

/-- The last indirect sectors of the files that can be appended to. -/
def lastIndirects (f : Disk) (s : Superblock) : Set Nat :=
  {x | ∃ inr inode, f.Allocated s inr inode ∧ Partial inode ∧ 4096 ≤ inodeGetsize inode ∧
    lastIndirect inode = x}

/-- The last sector of a file in the code and in the format. -/
theorem mapped_last {u : UnixFilesystem} {inode : Inode} (used : inode.isAllocated = true)
    (part : Partial inode) {x : Nat}
    (found : inodeFindsector u inode (inodeGetsize inode / 512 : Nat) = x) :
    u.f.mapped inode (.data (inodeGetsize inode / 512)) = some x := by
  have count := sectorCount_eq inode
  have residual := part.1
  rw [if_neg residual] at count
  exact mapped_of_found used (by omega) (by omega) found

/-- The last indirect sector of a file in the format. -/
theorem mapped_lastIndirect (f : Disk) {inode : Inode} (part : Partial inode)
    (big : 4096 ≤ inodeGetsize inode) :
    f.mapped inode (.indirect (inodeGetsize inode / 512 / 256)) = some (lastIndirect inode) := by
  have count := sectorCount_eq inode
  rw [if_neg part.1] at count
  have fits := part.2
  exact mapped_indirect f (by omega) (by omega) (by omega)

/-- A freshly mounted volume on which the last sectors are safe satisfies the invariant. -/
theorem protected_start {f : Disk} {s : Superblock} {u : UnixFilesystem} (regions : f.Regions s)
    (mapped : f.Mapped s) (safe : EndsSafe f s) (mounted : mountv6 f = .ok u) :
    Protected (lastIndirects f s) (fun _ _ => True) u u := by
  obtain ⟨rfl, rfl, coherent, geometry⟩ := mountv6_geometry regions mounted
  have inData : ∀ inr inode p x, u.f.Allocated u.s inr inode → u.f.mapped inode p = some x →
      u.s.InData x := fun inr inode p x allocated there => by
    obtain ⟨y, there', data, -⟩ :=
      mapped.data inr inode p allocated (Disk.mapped_hasPosition there)
    rw [there, Option.some.injEq] at there'
    rwa [there']
  refine ⟨geometry, rfl, .refl u, ?_, ?_, fun _ _ => rfl, ?_⟩
  · rintro x ⟨inr, inode, allocated, part, big, rfl⟩
    exact inData inr inode _ _ allocated (mapped_lastIndirect u.f part big)
  · rintro x ⟨inr, inode, allocated, part, big, rfl⟩
    have fits := part.2
    refine (coherent.fbm _).mpr
      ⟨inData inr inode _ _ allocated (mapped_lastIndirect u.f part big), .inl ?_⟩
    have large : 4096 < inodeGetsize inode := by
      have := part.1
      omega
    exact ⟨inr, inode, safe.scanned inr inode allocated large part.1, allocated,
      .inl ⟨fits, _, Nat.div_le_div_right (Nat.le_succ _), rfl⟩⟩
  · intro inr inode allocated _ part
    refine ⟨fun big => ⟨inr, inode, allocated, part, big, rfl⟩, fun x found => ?_⟩
    have there := mapped_last allocated.2 part found
    refine ⟨inData inr inode _ _ allocated there, ?_⟩
    rintro ⟨inr', inode', allocated', part', big', same⟩
    exact safe.apart inr inode inr' inode' x allocated part.1 allocated'
      (by have := part'.1; omega) part'.1 there
      (by rw [mapped_lastIndirect u.f part' big', same])

/-- From an image with disjoint regions, whose files have sectors of the data region and on which
the last sectors are safe, every run of calls that store no address past `i_addr[7]` keeps the boot
sector and the superblock, and writes outside of the data region by `inode_write` only. -/
theorem metadata_protected {f : Disk} {s : Superblock} {u u' : UnixFilesystem}
    (regions : f.Regions s) (mapped : f.Mapped s) (safe : EndsSafe f s)
    (mounted : mountv6 f = .ok u) (runs : Runs SlotsSuffice u u') : MetadataKept u u' := by
  refine (Runs.invariant (Protected (lastIndirects f s) (fun _ _ => True) u) ?_ runs
    (protected_start regions mapped safe mounted)).kept
  intro v call code v' before allowed run
  cases call with
  | create entry mode =>
    exact (before.create (fun found mem => (allowed found mem).2) (fun _ _ _ => trivial) run).1
  | addfile entry mode buf =>
    exact before.addfile (fun found mem => (allowed.1 found mem).2) (fun _ _ _ => trivial) allowed.2
      run
  | fileCreate => exact allowed.elim
  | writebytes inr buf =>
    simp only [Call.run] at run
    split at run
    · cases run
      exact before
    · rename_i fv6 opened
      obtain ⟨allocated, is⟩ := filev6Open_ok opened
      split at run
      · cases run
      · rename_i code' after fv6' wrote
        cases run
        have number : fv6.iNumber = inr := by rw [is]
        exact (before.writebytes fv6 (by rw [number]; exact allocated) (fun _ => trivial)
          (allowed _ allocated) wrote).1
  | remount => exact allowed.elim

/-- A volume with one table sector, which no scan reaches, and in it a file of 5000 bytes, whose
indirect sector is the first of the data region, and an empty file. -/
def unscannedVolume : Disk :=
  volume 1 14 [(1, emptyDirectory), (2, fileInode 0 5000 (oneAddress 3)),
    (3, fileInode 0 0 (oneAddress 0))]
    (entrySector [4, 5, 6, 7, 8, 9, 10, 11, 12, 13] :: List.replicate 11 zeroSector)

set_option maxRecDepth 10000 in
/-- On this well-formed volume, appending 20 bytes to the empty file overwrites the entries of
the large one, and appending a byte to the large one then modifies the superblock. -/
theorem metadata_overwritten :
    unscannedVolume.WellFormed (volumeSuperblock 1 14) ∧
      ∃ u, mountv6 unscannedVolume = .ok u ∧
        ∃ first ∈ Call.run u (.writebytes 3 (List.replicate 18 0 ++ [1, 0])),
          ∃ second ∈ Call.run first.2 (.writebytes 2 [65]),
            first.1 = errNone ∧ second.1 = errNone ∧
              second.2.f.sectors[1]? ≠ u.f.sectors[1]? :=
  ⟨Disk.wellFormed_of_check Host.quiet_faultless (by decide +kernel),
    mountv6_check (by decide +kernel)⟩

/-- On the empty volume there are no last sectors to lose. -/
theorem emptyVolume_endsSafe : EndsSafe emptyVolume (volumeSuperblock 2 6) := by
  constructor
  · intro inr inode allocated large
    obtain ⟨-, rfl⟩ := emptyVolume_allocated allocated
    rw [emptyDirectory_size] at large
    contradiction
  · intro inr inode inr' inode' x allocated residual
    obtain ⟨-, rfl⟩ := emptyVolume_allocated allocated
    rw [emptyDirectory_size] at residual
    contradiction

set_option maxRecDepth 10000 in
/-- Creating `/a` on the empty volume keeps its metadata. -/
theorem metadata_protected_create :
    ∃ u u', mountv6 emptyVolume = .ok u ∧ Runs SlotsSuffice u u' ∧ u'.f.InUse u'.s 2 ∧
      MetadataKept u u' := by
  obtain ⟨u, mounted, ready, ⟨code, u'⟩, run, used⟩ := mountv6_check (f := emptyVolume)
    (P := fun u => ParentReady u [47, 97] ∧
      ∃ result ∈ Call.run u (.create [47, 97] 0), result.2.f.InUse result.2.s 2)
    (by decide +kernel)
  have runs : Runs SlotsSuffice u u' := .single ⟨.create [47, 97] 0, code, ready, run⟩
  exact ⟨u, u', mounted, runs, used, metadata_protected emptyVolume_wellFormed.regions
    emptyVolume_wellFormed.mapped emptyVolume_endsSafe mounted runs⟩

end U6fs
