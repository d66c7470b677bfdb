import U6fs.Verif.Coherence
import U6fs.Verif.Ownership
import U6fs.Verif.Reading

/-!
# Files do not interfere

A creation writes the table sectors of two inodes, the last sector of the parent directory and free
sectors. What a caller reads of another file depends on the sectors of its block map only, and is
as before when none of these is written: they are outside of the table, they are marked if a sector
is taken, and the last sector of the directory belongs to no other place. The directory itself
reads as before, with the new record behind.
-/
namespace U6fs

open Lib

/-- The partly used last sector of a file, in the data region, has no other place in a block
map. -/
def LastUnshared (u : UnixFilesystem) (inr : Nat) (inode : Inode) : Prop :=
  inodeGetsize inode % 512 ≠ 0 → ∀ inr' inode' p x,
    u.f.mapped inode (.data (inodeGetsize inode / 512)) = some x →
    u.f.Allocated u.s inr' inode' → u.f.mapped inode' p = some x → u.s.InData x →
    inr' = inr ∧ p = .data (inodeGetsize inode / 512)

/-- The invariant: the sectors of files are outside of the table, and partly used last sectors are
in the data region. -/
structure Intact (u : UnixFilesystem) : Prop where
  /-- The regions are disjoint and the machine works. -/
  geometry : Geometry u
  /-- The search for a free inode starts before every clear bit. -/
  swept : u.ibm.Swept
  /-- No sector of a file is in the inode table. -/
  outside : ∀ inr inode p x, u.f.Allocated u.s inr inode → u.f.mapped inode p = some x →
    x ∈ outsideTable u.s
  /-- Partly used last sectors are in the data region. -/
  last : ∀ inr inode, u.f.Allocated u.s inr inode → inodeGetsize inode % 512 ≠ 0 →
    LastSectorInData u inode

/-- Sectors of the data region are outside of the table. -/
theorem Geometry.outside_of_data {u : UnixFilesystem} (geometry : Geometry u) {x : Nat}
    (data : u.s.InData x) : x ∈ outsideTable u.s :=
  .inr (geometry.data.trans data.1)

/-- With a swept inode bitmap, the number that is reserved is the one that `inode_alloc` finds, so
it is not in use when `inode_alloc` finds no number in use. -/
theorem AllocatesUnused.reserved {u u₁ : UnixFilesystem} (unused : AllocatesUnused u)
    (geometry : Geometry u) (swept : u.ibm.Swept) {inr : Nat} (reserved : Reserved u u₁ inr) :
    ¬u.f.InUse u.s inr := by
  cases run : inodeAlloc u with
  | mk found after =>
    obtain ⟨ibm, -, -, ⟨x, rfl, free, least, -⟩ | ⟨-, -, full⟩⟩ :=
      inodeAlloc_spec geometry.ranges.ibm_max run
    · have same : x = inr :=
        Nat.le_antisymm (least swept inr reserved.free) (reserved.least swept x free)
      have none := unused x after run (Int.natCast_nonneg x)
      rwa [Int.toNat_natCast, same] at none
    · exact absurd reserved.free (full inr)

namespace Intact

variable {u u' : UnixFilesystem}

/-- An image whose files lie in the data region and share no sector is intact when it is mounted. -/
theorem mounted {f : Disk} {s : Superblock} (regions : f.Regions s) (mapped : f.Mapped s)
    (unshared : f.Unshared s) (mounted : mountv6 f = .ok u) : u.f = f ∧ u.s = s ∧ Intact u := by
  obtain ⟨rfl, rfl, owned⟩ := Owned.start regions mapped unshared mounted
  refine ⟨rfl, rfl, owned.geometry, (mountv6_coherent mounted).2.swept, ?_, owned.last⟩
  intro inr inode p x allocated maps
  obtain ⟨y, there, data, -⟩ := mapped.data inr inode p allocated (Disk.mapped_hasPosition maps)
  rw [maps, Option.some.injEq] at there
  rw [there]
  exact owned.geometry.outside_of_data data

/-- A well-formed image is intact when it is mounted. -/
theorem start {f : Disk} {s : Superblock} (wellFormed : f.WellFormed s)
    (mounted : mountv6 f = .ok u) : u.f = f ∧ u.s = s ∧ Intact u :=
  Intact.mounted wellFormed.regions wellFormed.mapped wellFormed.unshared mounted

section Append

variable (before : Intact u) {m len : Nat} {inode : Inode} (allocated : u.f.Allocated u.s m inode)
  (unshared : LastUnshared u m inode)

include before allocated unshared

/-- The sectors of a file are untouched by an append, if they are marked in case a sector is taken;
but for the last sector of the file that is appended to, if that is partly used. -/
theorem untouched {k x : Nat} {found : Inode} {p : Position} (other : u.f.Allocated u.s k found)
    (marked : TakesSector (inodeGetsize inode) len → SectorsMarked u found)
    (maps : u.f.mapped found p = some x)
    (elsewhere : inodeGetsize inode % 512 ≠ 0 →
      ¬(k = m ∧ p = .data (inodeGetsize inode / 512))) : x ∈ untouched u m inode len := by
  have outside := before.outside k found p x other maps
  have inside := allocated.number.2
  refine ⟨?_, fun takes free => ?_, fun residual last => ?_⟩
  · rintro rfl
    simp only [outsideTable, Set.mem_ofPred_eq, Superblock.tableSector] at outside
    rw [Superblock.inodes] at inside
    omega
  · have data := before.geometry.data_of_free free
    have set := marked takes p x maps data
    exact ((bmGet_eq_zero_iff _ _).mp free).2 set
  · have data := before.last m inode allocated residual x last
    have mine := (lastSector_mapped allocated.2 residual last).2
    exact elsewhere residual (unshared residual k found p x mine other maps data)

/-- Appending to one file changes the block map of no file. -/
theorem mapped_framed (framed : Framed u u' m (U6fs.untouched u m inode len)) {k : Nat}
    {found : Inode} (other : u.f.Allocated u.s k found)
    (marked : TakesSector (inodeGetsize inode) len → SectorsMarked u found) (p : Position) :
    u'.f.mapped found p = u.f.mapped found p := by
  apply mapped_kept
  intro j x maps
  exact framed.sectors x (before.untouched allocated unshared other marked maps
    fun _ same => by cases same.2)

/-- Appending to one file changes what is read of no other file that has not exactly 8 sectors. -/
theorem others_read (framed : Framed u u' m (U6fs.untouched u m inode len)) {k : Nat}
    {found : Inode} (different : k ≠ m) (other : u.f.Allocated u.s k found)
    (size : inodeGetsize found ≠ 4096)
    (marked : TakesSector (inodeGetsize inode) len → SectorsMarked u found) :
    fileContent u' found = fileContent u found := by
  apply fileContent_kept before.geometry.works (framed.geometry before.geometry).works other.2 size
  rintro x ⟨p, maps⟩
  exact framed.sectors x (before.untouched allocated unshared other marked maps
    fun _ same => different same.1)

/-- A file is appended to, and its new inode is as the invariant wants it. -/
theorem framed {inode' : Inode} (framed : Framed u u' m (U6fs.untouched u m inode len))
    (marked : TakesSector (inodeGetsize inode) len → OwnersMarked u)
    (stored : u'.f.inodeAt u.s m = some inode')
    (outside : ∀ p x, u'.f.mapped inode' p = some x → x ∈ outsideTable u.s)
    (last : inodeGetsize inode' % 512 ≠ 0 → LastSectorInData u' inode') : Intact u' := by
  have geometry := before.geometry
  have next := framed.geometry geometry
  have s := framed.s
  -- a file is the one appended to, or it was there before
  have origin : ∀ k found, u'.f.Allocated u'.s k found →
      found = inode' ∨ u.f.Allocated u.s k found := by
    intro k found there
    rw [s] at there
    by_cases mine : k = m
    · subst mine
      exact .inl (Option.some.inj (there.1.symm.trans stored))
    · rw [Disk.Allocated, framed.inodeAt k mine] at there
      exact .inr there
  constructor
  case geometry => exact next
  case swept =>
    rw [framed.ibm]
    exact before.swept
  case outside =>
    intro k found p x there maps
    rw [s]
    rcases origin k found there with rfl | was
    · exact outside p x maps
    · rw [before.mapped_framed allocated unshared framed was
        fun takes => marked takes k found was] at maps
      exact before.outside k found p x was maps
  case last =>
    intro k found there residual
    rcases origin k found there with rfl | was
    · exact last residual
    · intro x found'
      obtain ⟨part, maps⟩ := lastSector_mapped there.2 residual found'
      have kept : 4096 ≤ inodeGetsize found →
          u'.f.sectors[lastIndirect found]? = u.f.sectors[lastIndirect found]? := fun big =>
        framed.sectors _ (before.untouched allocated unshared was
          (fun takes => marked takes k found was) (mapped_lastIndirect u.f part big)
          fun _ same => by cases same.2)
      rw [inodeFindsector_last geometry.works next.works was.2 was.2 part.2 rfl rfl kept] at found'
      rw [s]
      exact before.last k found was residual x found'

end Append

section Appended

variable (before : Intact u) {inr : UInt16} {inode inode' : Inode} {bytes : List UInt8} {code : Int}
  (allocated : u.f.Allocated u.s inr.toNat inode)
  (slots : SlotsInside (inodeGetsize inode) bytes.length)
  (unshared : LastUnshared u inr.toNat inode)
  (appended : Appends u u' inr inode inode' bytes code)

include before allocated slots unshared appended

/-- An append keeps the invariant when all sectors of files are marked in case it takes a sector,
and it takes one at most or is to a new file. -/
theorem appends (marked : TakesSector (inodeGetsize inode) bytes.length → OwnersMarked u)
    (single : bytes.length < 512 ∨ ∀ k, inode.iAddr.toList.getD k 0 = 0) : Intact u' := by
  have geometry := before.geometry
  have framed := appended.framed
  have own : TakesSector (inodeGetsize inode) bytes.length → SectorsMarked u inode :=
    fun takes => marked takes _ inode allocated
  have last := appended.lastInData geometry allocated slots (before.last _ inode allocated)
    fun part big => framed.sectors _ (before.untouched allocated unshared allocated own
      (mapped_lastIndirect u.f part big) fun _ same => by cases same.2)
  refine before.framed allocated unshared framed marked (appended.stored allocated.1).1
    (fun p x maps => ?_) last
  rcases appended.layout geometry slots with ⟨addr, count, -⟩ | grown
  · rw [mapped_alike u'.f count addr, before.mapped_framed allocated unshared framed allocated own]
      at maps
    exact before.outside _ inode p x allocated maps
  · rcases grown.mapped u.f u'.f maps with old | ⟨k, -, -, named, free⟩
    · exact before.outside _ inode p x allocated old
    · rcases single with short | zeros
      · exact geometry.outside_of_data (geometry.data_of_free (free short).2)
      · rcases grown.slots k with kept | clear
        · have table := geometry.table
          have zero : x = 0 := by
            rw [← named, kept, zeros]
            rfl
          left
          omega
        · rw [named] at clear
          exact geometry.outside_of_data (geometry.data_of_free clear)

/-- Bytes that go into one sector appear behind what was read of the file, unless no sector is free
or the last sector of the file is missing. The file has neither before nor after 8 whole sectors,
and not 1792 after. -/
theorem appended_content
    (own : TakesSector (inodeGetsize inode) bytes.length → SectorsMarked u inode)
    (more : bytes ≠ []) (room : inodeGetsize inode % 512 + bytes.length ≤ 512)
    (short : inodeGetsize inode % 512 = 0 → bytes.length < 512)
    (notEight : inodeGetsize inode ≠ 4096)
    (limit : inodeGetsize inode + bytes.length ≠ 4096)
    (limit' : inodeGetsize inode + bytes.length ≠ 917504) :
    (code = errNone ∧ inodeGetsize inode' = inodeGetsize inode + bytes.length ∧
      fileContent u' inode' =
        if (fileContent u inode).2 = errNone then ((fileContent u inode).1 ++ bytes, errNone)
        else fileContent u inode) ∨
    (u'.f = u.f ∧ inode' = inode ∧
      (code < 0 ∨ (inodeGetsize inode % 512 ≠ 0 ∧ LastSectorMissing u inode))) := by
  have geometry := before.geometry
  have framed := appended.framed
  have works := geometry.works
  have works' := (framed.geometry geometry).works
  have fits := appended.fits
  have positive : 0 < bytes.length := List.length_pos_of_ne_nil more
  have used : inode.isAllocated = true := allocated.2
  have used' : inode'.isAllocated = true := by
    rw [isAllocated_congr (appended.stored allocated.1).2]
    exact used
  simp only [SlotsInside] at slots
  rcases appended.single more room short with ⟨is, x, old, new, put⟩ | unchanged
  · left
    obtain ⟨writer, f, fbm, wrote, -, after⟩ := put.effect
    have there : u'.f.sectors[x]? = some new := by
      rw [after]
      exact wrote.same
    have size : inodeGetsize inode' = inodeGetsize inode + bytes.length := by
      rcases put.place with ⟨-, -, -, rfl⟩ | ⟨-, -, rfl⟩
      · exact inodeGetsize_resized _ _ (by omega)
      · exact inodeGetsize_placed _ _ _ (by omega)
    -- before the last block the file has the addresses it had
    have addr : ∀ k, k < inodeGetsize inode / 512 ∨ inodeGetsize inode % 512 ≠ 0 →
        inode'.iAddr.toList.getD k 0 = inode.iAddr.toList.getD k 0 := by
      intro k inside
      rcases put.place with ⟨-, -, -, rfl⟩ | ⟨whole, -, rfl⟩
      · rfl
      · have room' := short whole
        rw [placed_addr _ _ _ (by omega), if_neg (by omega)]
    have located : ∀ k ≤ inodeGetsize inode / 512,
        k < inodeGetsize inode / 512 ∨ inodeGetsize inode % 512 ≠ 0 →
          inodeFindsector u' inode' k = inodeFindsector u inode k := by
      intro k inside kept
      apply inodeFindsector_same works works' used used' inside (by omega)
      · exact fun small => ⟨by omega, addr k kept⟩
      · intro big
        have residual : inodeGetsize inode % 512 ≠ 0 := by omega
        refine ⟨by omega, by omega, fun _ => ⟨addr _ (.inr residual), ?_⟩⟩
        have count := sectorCount_eq inode
        rw [if_neg residual] at count
        apply framed.sectors
        exact before.untouched allocated unshared allocated own
          (mapped_indirect u.f (by omega) (by omega) (by omega)) fun _ same => by cases same.2
    refine ⟨is, size, fileContent_appended more size room (fun k inside => ?_)
      (fun residual => ?_) (fileBlock_of_found works' ?_ there) put.filled⟩
    · apply fileBlock_congr works works' (located k inside.le (.inl inside))
      intro y found
      have count := sectorCount_eq inode
      have maps := mapped_of_found used notEight (by split at count <;> omega) found
      apply framed.sectors
      apply before.untouched allocated unshared allocated own maps
      rintro - ⟨-, same⟩
      cases same
      exact absurd inside (Nat.lt_irrefl _)
    · rcases put.place with ⟨-, found, present, -⟩ | ⟨whole, -⟩
      · exact fileBlock_of_found works found present
      · exact absurd whole residual
    · rcases put.place with ⟨residual, found, -, -⟩ | ⟨whole, free, rfl⟩
      · rw [located _ le_rfl (.inr residual)]
        exact found
      · have room' := short whole
        have bound := u.s.sFsize.toNat_lt
        have high := (geometry.data_of_free free).2
        rw [inodeFindsector_direct u' used' (by omega) (by omega), placed_addr _ _ _ (by omega),
          if_pos (by omega), UInt16.toNat_ofNat', Nat.mod_eq_of_lt (by omega)]
  · exact .inr unchanged

end Appended

section Begin

variable {u₁ : UnixFilesystem} {entry name : List UInt8} {mode parent : UInt16} {inode : Inode}
  {inr : Nat}

/-- Storing an empty inode at a number that is not in use keeps the invariant, and changes neither
the block map of a file nor what is read of it, unless it has exactly 8 sectors. -/
theorem begun (before : Intact u) (begun : Begun u u₁ entry name mode parent inode inr)
    (unused : ¬u.f.InUse u.s inr) :
    Intact u₁ ∧ ∀ k found, u.f.Allocated u.s k found → u₁.f.Allocated u.s k found ∧
      (∀ p, u₁.f.mapped found p = u.f.mapped found p) ∧
      (inodeGetsize found ≠ 4096 → fileContent u₁ found = fileContent u found) := by
  have geometry := before.geometry
  have next := geometry.begun begun
  have s := begun.reserved.s
  have empty := inodeGetsize_zero_created mode
  have inside := begun.inside.2
  rw [Superblock.inodes] at inside
  have kept : ∀ x ∈ outsideTable u.s, u₁.f.sectors[x]? = u.f.sectors[x]? := by
    intro x outside
    apply begun.stored.other
    rintro rfl
    simp only [outsideTable, Set.mem_ofPred_eq, Superblock.tableSector] at outside
    omega
  have maps : ∀ k found, u.f.Allocated u.s k found → ∀ p,
      u₁.f.mapped found p = u.f.mapped found p := by
    intro k found there p
    apply mapped_kept
    intro j x indirect
    exact kept x (before.outside k found _ x there indirect)
  refine ⟨?_, fun k found there => ⟨?_, maps k found there, fun size => ?_⟩⟩
  · constructor
    case geometry => exact next
    case swept => exact begun.reserved.swept before.swept
    case outside =>
      intro k found p x there is
      rw [s] at there ⊢
      rcases begun.allocated there with rfl | was
      · rw [mapped_empty _ empty] at is
        cases is
      · rw [maps k found was] at is
        exact before.outside k found p x was is
    case last =>
      intro k found there residual x found'
      rw [s] at there ⊢
      rcases begun.allocated there with rfl | was
      · exact absurd (by rw [empty]) residual
      · obtain ⟨part, -⟩ := lastSector_mapped there.2 residual found'
        rw [inodeFindsector_last geometry.works next.works was.2 was.2 part.2 rfl rfl fun big =>
          kept _ (before.outside k found _ _ was (mapped_lastIndirect u.f part big))] at found'
        exact before.last k found was residual x found'
  · refine ⟨?_, there.2⟩
    rw [begun.stored.inodeAt, if_neg]
    · exact there.1
    · rintro rfl
      exact unused ⟨found, there⟩
  · apply fileContent_kept geometry.works next.works there.2 size
    rintro x ⟨p, is⟩
    exact kept x (before.outside k found p x there is)

/-- A call that stored nothing keeps the invariant. -/
theorem rejected {code : Int} (before : Intact u) (rejected : Rejected u u' code) : Intact u' := by
  refine ⟨before.geometry.rejected rejected, rejected.swept before.swept, ?_, ?_⟩
  · rw [rejected.f, rejected.s]
    exact before.outside
  · intro inr inode there residual x found
    rw [inodeFindsector_congr rejected.f] at found
    rw [rejected.f, rejected.s] at there
    rw [rejected.s]
    exact before.last inr inode there residual x found

end Begin

end Intact

/-- The directory of a path can take a record: the name with its NUL fits into it, no slot past
`i_addr[7]` is needed, and the directory does not come to 8 or 1792 whole sectors. -/
def RecordFits (name : List UInt8) (inode : Inode) : Prop :=
  name.length < direntMaxlen ∧ SlotsInside (inodeGetsize inode) 16 ∧
    inodeGetsize inode + 16 ≠ 4096 ∧ inodeGetsize inode + 16 ≠ 917504

/-- A directory of whole records, whose last sector belongs to no other place, can take a
record. -/
structure CanRecord (u : UnixFilesystem) (name : List UInt8) (parent : UInt16) (inode : Inode) :
    Prop where
  /-- The record fits. -/
  fits : RecordFits name inode
  /-- The directory has whole records. -/
  whole : inodeGetsize inode % 16 = 0
  /-- Its last sector belongs to no other place. -/
  unshared : LastUnshared u parent.toNat inode

/-- A file was created, and a record for it was added to the directory of the path if `code` says
so; nothing else that is read changed. -/
structure Created (u u' : UnixFilesystem) (name : List UInt8) (mode parent : UInt16)
    (inode inode' : Inode) (inr : Nat) (code : Int) : Prop where
  /-- The geometry is kept. -/
  geometry : Geometry u'
  /-- The invariant is kept, if all sectors of files are marked in case the directory takes one. -/
  intact : (TakesSector (inodeGetsize inode) 16 → OwnersMarked u) → Intact u'
  /-- The directory was in use. -/
  directory : u.f.Allocated u.s parent.toNat inode ∧ inode.isDirectory = true
  /-- The number of the new file is in the table and was not in use. -/
  unused : 1 ≤ inr ∧ inr < u.s.inodes ∧ ¬u.f.InUse u.s inr
  /-- The new file is empty. -/
  file : u'.f.Allocated u'.s inr (Inode.zero.created mode)
  /-- The directory has a new inode of the same mode. -/
  stored : u'.f.Allocated u'.s parent.toNat inode' ∧ inode'.iMode = inode.iMode
  /-- Other files have the inodes they had, and are read as before, if their sectors are marked in
  case the directory takes one. -/
  others : ∀ k found, k ≠ parent.toNat → u.f.Allocated u.s k found →
    u'.f.Allocated u'.s k found ∧ (inodeGetsize found ≠ 4096 →
      (TakesSector (inodeGetsize inode) 16 → SectorsMarked u found) →
        fileContent u' found = fileContent u found)
  /-- Every file is the new one, or was there before; its sectors stay marked when the directory
  takes none. -/
  origin : ∀ k found', u'.f.Allocated u'.s k found' → found' = Inode.zero.created mode ∨
    ∃ found, u.f.Allocated u.s k found ∧ found'.iMode = found.iMode ∧
      (found' = found ∨ inodeGetsize found' = inodeGetsize inode + 16) ∧
      (¬TakesSector (inodeGetsize inode) 16 → SectorsMarked u found → SectorsMarked u' found')
  /-- The record was added, or the directory is read as before. -/
  outcome : ∃ dName, strcpyDName name = some dName ∧
    ((code = inr ∧ inodeGetsize inode' = inodeGetsize inode + 16 ∧
      fileContent u' inode' =
        if (fileContent u inode).2 = errNone then
          ((fileContent u inode).1 ++
            direntCodec.encode { dInumber := UInt16.ofNat inr, dName }, errNone)
        else fileContent u inode) ∨
    (inode' = inode ∧ fileContent u' inode = fileContent u inode ∧
      (code < 0 ∨ (code = inr ∧ (fileContent u inode).2 ≠ errNone))))

/-- A file whose last sector is missing is not read to its end. -/
theorem fileContent_lastMissing {u : UnixFilesystem} {inode : Inode}
    (works : u.f.host.Faultless) (residual : inodeGetsize inode % 512 ≠ 0)
    (missing : LastSectorMissing u inode) : (fileContent u inode).2 ≠ errNone := by
  have count := sectorCount_eq inode
  rw [if_neg residual] at count
  obtain ⟨code, failed⟩ : ∃ code, fileBlock u inode (inodeGetsize inode / 512) = .error code := by
    rw [fileBlock]
    rcases missing with negative | ⟨x, found, absent⟩
    · exact ⟨_, if_pos negative⟩
    · refine ⟨errIo, ?_⟩
      rw [found, if_neg (by omega), Int.toNat_natCast, sectorRead_faultless works, absent]
  have negative := fileBlock_error u inode failed
  rw [fileContent, count, filePieces_add, Nat.zero_add, filePieces_succ, failed, gather_append]
  cases first : (gather (filePieces u inode 0 (inodeGetsize inode / 512))).2 with
  | some other =>
    have below := filePieces_error u inode (gather_error first)
    simp only [first, Option.getD_some]
    rintro rfl
    exact absurd below (by decide)
  | none =>
    show code ≠ 0
    omega

namespace Intact

variable {u u' : UnixFilesystem}

/-- The last sector of the directory belongs to no other place when an empty inode was stored. -/
theorem begun_unshared {u₁ : UnixFilesystem} {entry name : List UInt8} {mode parent : UInt16}
    {inode : Inode} {inr : Nat} (before : Intact u)
    (begun : Begun u u₁ entry name mode parent inode inr) (unused : ¬u.f.InUse u.s inr)
    (allocated : u.f.Allocated u.s parent.toNat inode)
    (unshared : LastUnshared u parent.toNat inode) : LastUnshared u₁ parent.toNat inode := by
  obtain ⟨-, kept⟩ := before.begun begun unused
  intro residual k found p x mine there maps data
  rw [begun.reserved.s] at there data
  rw [(kept _ inode allocated).2.1] at mine
  rcases begun.allocated there with rfl | was
  · rw [mapped_empty _ (inodeGetsize_zero_created mode)] at maps
    cases maps
  · rw [(kept k found was).2.1] at maps
    exact unshared residual k found p x mine was maps data

section Record

variable (before : Intact u) {u₁ : UnixFilesystem} {entry name : List UInt8} {mode parent : UInt16}
  {inode inode' : Inode} {inr : Nat} {code : Int}
  (record : Recorded u u₁ u' entry name mode parent inode inode' inr code)
  (free : ¬u.f.InUse u.s inr) (can : CanRecord u name parent inode)

include before record free can

/-- When the empty inode is stored, the volume is intact, the last sector of the directory belongs
to no other place, and the sectors of files stay marked. -/
theorem recorded_between : u.f.Allocated u.s parent.toNat inode ∧ Intact u₁ ∧
    LastUnshared u₁ parent.toNat inode ∧ ∀ k found, u.f.Allocated u.s k found →
      SectorsMarked u found → SectorsMarked u₁ found := by
  have begun := record.begun
  obtain ⟨between, kept⟩ := before.begun begun free
  obtain ⟨_, _, -, -, -, -, -, old⟩ := parentOf_eq_some.mp begun.found
  exact ⟨old, between, before.begun_unshared begun free old can.unshared,
    fun k found was set => set.kept begun.reserved.s begun.reserved.fbm (kept k found was).2.1⟩

/-- The volume with the record is intact, if all sectors of files are marked in case the directory
takes one. -/
theorem recorded_intact (all : TakesSector (inodeGetsize inode) 16 → OwnersMarked u) :
    Intact u' := by
  have begun := record.begun
  have slots := can.fits.2.1
  obtain ⟨-, kept⟩ := before.begun begun free
  obtain ⟨-, between, unshared, -⟩ := before.recorded_between record free can
  obtain ⟨dName, written, -, appended, -⟩ := record.appended
  have length : (direntCodec.encode { dInumber := UInt16.ofNat inr, dName }).length = 16 := by
    rw [direntCodec.encode_length, direntCodec_width]
  rcases appended with ⟨-, -, rfl, -⟩ | appended
  · exact between
  · rw [← length] at slots all
    exact between.appends record.there slots unshared appended
      (fun takes => begun.marked (fun k found was => (kept k found was).2.1) (all takes))
      (.inl (by rw [length]; decide))

/-- The other files have the inodes they had, and are read as before. -/
theorem recorded_others {k : Nat} {found : Inode} (different : k ≠ parent.toNat)
    (was : u.f.Allocated u.s k found) :
    u'.f.Allocated u'.s k found ∧ (inodeGetsize found ≠ 4096 →
      (TakesSector (inodeGetsize inode) 16 → SectorsMarked u found) →
        fileContent u' found = fileContent u found) := by
  have s := record.begun.reserved.s
  have framed := record.framed
  obtain ⟨-, kept⟩ := before.begun record.begun free
  obtain ⟨-, between, unshared, marks⟩ := before.recorded_between record free can
  obtain ⟨was', -, read⟩ := kept k found was
  rw [← s] at was'
  refine ⟨?_, fun size set => ?_⟩
  · rw [framed.s, Disk.Allocated, framed.inodeAt k different]
    exact was'
  · rw [between.others_read record.there unshared framed different was' size
      fun takes => marks k found was (set takes), read size]

/-- The directory with its record was there before, is as long as it was or a record longer, and its
sectors stay marked when it takes none. -/
theorem recorded_directory : (inode' = inode ∨ inodeGetsize inode' = inodeGetsize inode + 16) ∧
    (¬TakesSector (inodeGetsize inode) 16 → SectorsMarked u inode → SectorsMarked u' inode') := by
  have slots := can.fits.2.1
  have whole := can.whole
  have framed := record.framed
  obtain ⟨old, between, unshared, marks⟩ := before.recorded_between record free can
  obtain ⟨dName, written, -, appended, -⟩ := record.appended
  have length : (direntCodec.encode { dInumber := UInt16.ofNat inr, dName }).length = 16 := by
    rw [direntCodec.encode_length, direntCodec_width]
  rcases appended with ⟨-, -, rfl, rfl⟩ | appended
  · exact ⟨.inl rfl, fun _ => marks _ _ old⟩
  · rw [← length] at slots
    refine ⟨?_, fun room set => ?_⟩
    · have added := appended.single (List.ne_nil_of_length_eq_add_one length)
        (by rw [length]; omega) (fun _ => by rw [length]; decide)
      have fits := appended.fits
      rcases added with ⟨-, x, _, _, put⟩ | ⟨-, unchanged, -⟩
      · rw [← length]
        rcases put.place with ⟨-, -, -, rfl⟩ | ⟨-, -, rfl⟩
        · exact .inr (inodeGetsize_resized _ _ (by omega))
        · exact .inr (inodeGetsize_placed _ _ _ (by omega))
      · exact .inl unchanged
    · rw [← length] at room
      exact (marks _ _ old set).kept framed.s framed.fbm fun p =>
        (appended.mapped between.geometry slots room u'.f p).trans
          (between.mapped_framed record.there unshared appended.framed record.there
            (fun takes => absurd takes room) p)

/-- Every file is the new one, or was there before. -/
theorem recorded_origin {k : Nat} {found' : Inode} (there : u'.f.Allocated u'.s k found') :
    found' = Inode.zero.created mode ∨
    ∃ found, u.f.Allocated u.s k found ∧ found'.iMode = found.iMode ∧
      (found' = found ∨ inodeGetsize found' = inodeGetsize inode + 16) ∧
      (¬TakesSector (inodeGetsize inode) 16 → SectorsMarked u found →
        SectorsMarked u' found') := by
  have begun := record.begun
  have s := begun.reserved.s
  have framed := record.framed
  have stored := record.stored
  obtain ⟨-, kept⟩ := before.begun begun free
  obtain ⟨old, between, unshared, marks⟩ := before.recorded_between record free can
  rw [framed.s] at there
  by_cases mine : k = parent.toNat
  · subst mine
    obtain rfl : found' = inode' := Option.some.inj (there.1.symm.trans stored.1)
    exact .inr ⟨inode, old, stored.2, before.recorded_directory record free can⟩
  · rw [Disk.Allocated, framed.inodeAt k mine, s] at there
    rcases begun.allocated there with new | was
    · exact .inl new
    · refine .inr ⟨found', was, rfl, .inl rfl, fun room set => ?_⟩
      have was' := (kept k found' was).1
      rw [← s] at was'
      exact (marks k found' was set).kept framed.s framed.fbm
        (between.mapped_framed record.there unshared framed was' fun takes => absurd takes room)

/-- The record was added, or the directory is read as before. -/
theorem recorded_outcome (own : TakesSector (inodeGetsize inode) 16 → SectorsMarked u inode) :
    ∃ dName, strcpyDName name = some dName ∧
      ((code = inr ∧ inodeGetsize inode' = inodeGetsize inode + 16 ∧
        fileContent u' inode' =
          if (fileContent u inode).2 = errNone then
            ((fileContent u inode).1 ++
              direntCodec.encode { dInumber := UInt16.ofNat inr, dName }, errNone)
          else fileContent u inode) ∨
      (inode' = inode ∧ fileContent u' inode = fileContent u inode ∧
        (code < 0 ∨ (code = inr ∧ (fileContent u inode).2 ≠ errNone)))) := by
  obtain ⟨-, slots, limit, limit'⟩ := can.fits
  have notEight : inodeGetsize inode ≠ 4096 := by
    rw [SlotsInside] at slots
    omega
  have whole := can.whole
  obtain ⟨-, kept⟩ := before.begun record.begun free
  obtain ⟨old, between, unshared, marks⟩ := before.recorded_between record free can
  have same := (kept _ _ old).2.2 notEight
  obtain ⟨dName, written, copied, appended, is⟩ := record.appended
  have length : (direntCodec.encode { dInumber := UInt16.ofNat inr, dName }).length = 16 := by
    rw [direntCodec.encode_length, direntCodec_width]
  refine ⟨dName, copied, ?_⟩
  rcases appended with ⟨rfl, -, rfl, rfl⟩ | appended
  · right
    refine ⟨rfl, same, .inl ?_⟩
    rw [is, if_pos (by decide)]
    decide
  · rw [← length] at slots limit limit' own
    have content := between.appended_content record.there slots unshared appended
      (fun takes => marks _ _ old (own takes)) (List.ne_nil_of_length_eq_add_one length)
      (by rw [length]; omega) (fun _ => by rw [length]; decide) notEight limit limit'
    rw [same] at content
    rcases content with ⟨rfl, size, read⟩ | ⟨f, rfl, failed⟩
    · rw [length] at size
      exact .inl ⟨is.trans (if_neg (by decide)), size, read⟩
    · right
      have read : fileContent u' inode' = fileContent u₁ inode' := by
        apply fileContent_kept between.geometry.works (by rw [f]; exact between.geometry.works)
          old.2 notEight
        intro x _
        rw [f]
      refine ⟨rfl, read.trans same, ?_⟩
      rcases failed with negative | ⟨residual, missing⟩
      · rw [is, if_pos negative]
        exact .inl negative
      · have incomplete := fileContent_lastMissing between.geometry.works residual missing
        rw [same] at incomplete
        rw [is]
        split
        · rename_i negative
          exact .inl negative
        · exact .inr ⟨rfl, incomplete⟩

/-- The record for a new file does to an intact volume what `Created` says. -/
theorem recorded (own : TakesSector (inodeGetsize inode) 16 → SectorsMarked u inode) :
    Created u u' name mode parent inode inode' inr code := by
  have begun := record.begun
  have framed := record.framed
  have stored := record.stored
  obtain ⟨old, between, -⟩ := before.recorded_between record free can
  constructor
  case geometry => exact framed.geometry between.geometry
  case intact => exact before.recorded_intact record free can
  case directory => exact ⟨old, begun.directory⟩
  case unused => exact ⟨begun.inside.1, begun.inside.2, free⟩
  case file => exact record.file
  case stored =>
    refine ⟨⟨by rw [framed.s]; exact stored.1, ?_⟩, stored.2⟩
    rw [isAllocated_congr stored.2]
    exact old.2
  case others => exact fun k found => before.recorded_others record free can
  case origin => exact fun k found' => before.recorded_origin record free can
  case outcome => exact before.recorded_outcome record free can own

end Record

/-- What `direntv6_create` does to an intact volume, when `inode_alloc` finds no number in use and
the directory of the path can take a record. -/
theorem create (before : Intact u) {entry : List UInt8} {mode : UInt16} {code : Int}
    (ready : ∀ name parent inode, (name, parent, inode) ∈ parentOf u entry →
      AllocatesUnused u ∧ CanRecord u name parent inode ∧
      (TakesSector (inodeGetsize inode) 16 → SectorsMarked u inode))
    (run : direntv6Create u entry mode = some (code, u')) :
    Rejected u u' code ∨ ∃ u₁ name parent inode inode' inr,
      Recorded u u₁ u' entry name mode parent inode inode' inr code ∧
      Created u u' name mode parent inode inode' inr code := by
  have records := direntv6Create_records before.geometry (fun found mem => ?_) ?_ run
  · rcases records with rejected | ⟨u₁, name, parent, inode, inode', inr, recorded⟩
    · exact .inl rejected
    · obtain ⟨unused, can, own⟩ := ready name parent inode recorded.begun.found
      have free := unused.reserved before.geometry before.swept recorded.begun.reserved
      exact .inr ⟨u₁, name, parent, inode, inode', inr, recorded,
        before.recorded recorded free can own⟩
  · obtain ⟨name, parent, inode⟩ := found
    obtain ⟨_, _, -, -, -, -, -, old⟩ := parentOf_eq_some.mp mem
    obtain ⟨unused, can, -⟩ := ready name parent inode mem
    refine ⟨fun u₁ x reserved same => ?_, can.fits.2.1⟩
    have free := unused.reserved before.geometry before.swept reserved
    rw [← show parent.toNat = x from same] at free
    exact free ⟨inode, old⟩
  · intro u₁ name parent inode inr begun allocated residual
    have unused := (ready name parent inode begun.found).1
    have free := unused.reserved before.geometry before.swept begun.reserved
    exact (before.begun begun free).1.last _ inode allocated residual

end Intact

end U6fs
