import U6fs.Verif.Resolution
import U6fs.Verif.NonInterference
import U6fs.Verif.Mountability

/-!
# How a volume grows

A creation stores an empty inode, and then bytes are put behind the end of a file: a record behind
those of a directory, and content into the new file. Each of these steps changes one inode of the
table, and all other files are found and read as before. The volume stays sound, the namespace
changes at one number only, and the volume can be mounted again.
-/
namespace U6fs

open Lib

/-- A sound volume on which the writing functions can work. -/
structure Working (u : UnixFilesystem) : Prop extends Sound u where
  /-- Sectors belong to one place. -/
  owned : Owned u
  /-- Sectors of files are outside of the table. -/
  intact : Intact u
  /-- The scan can walk over every file. -/
  walks : ∀ inr inode, u.f.Allocated u.s inr inode → WalkEnds u inode

/-- A sound volume that can be walked over can be mounted, and is in good health then. -/
theorem Sound.mounts {u : UnixFilesystem} (sound : Sound u) (geometry : Geometry u)
    (walks : ∀ inr inode, u.f.Allocated u.s inr inode → WalkEnds u inode) :
    ∃ w, mountv6 u.f = .ok w ∧ w.f = u.f ∧ w.s = u.s ∧ Healthy w := by
  have regions := sound.image.regions
  obtain ⟨w, mounted⟩ := mountv6_succeeds regions.works regions.magic regions.superblock
    geometry.size regions.ends fun inr low high => by
      apply geometry.visitOk low
      · have size := geometry.size
        rw [Superblock.lastScanned] at high
        rw [Superblock.inodes]
        omega
      · intro inode allocated
        exact walks inr.toNat inode allocated
  obtain ⟨f, s, -⟩ := mountv6_geometry regions mounted
  refine ⟨w, mounted, f, s, sound.congr f s, ?_⟩
  rw [f]
  exact mounted

/-- A volume in good health is one to work on. -/
theorem Healthy.working {u : UnixFilesystem} (healthy : Healthy u) : Working u := by
  have image := healthy.image
  have owned := Owned.start image.regions image.mapped image.unshared healthy.mounted
  refine ⟨healthy.toSound, owned.2.2, healthy.intact, ?_⟩
  intro inr inode allocated
  exact healthy.coherent.walkEnds (healthy.visited inr ⟨inode, allocated⟩) allocated

/-- The inode under one number is new; other files are found and read as before. -/
structure Changed (u u' : UnixFilesystem) (inr : UInt16) (inode' : Inode) : Prop where
  /-- The superblock is as before. -/
  s : u'.s = u.s
  /-- The file does not shrink. -/
  length : u.f.sectors.length ≤ u'.f.sectors.length
  /-- The new inode is in the table. -/
  stored : u'.f.Allocated u.s inr.toNat inode'
  /-- The others are as before. -/
  others : ∀ k found, k ≠ inr.toNat → (u'.f.Allocated u.s k found ↔ u.f.Allocated u.s k found)
  /-- They have the sectors they had. -/
  maps : ∀ k found, k ≠ inr.toNat → u.f.Allocated u.s k found →
    ∀ p, u'.f.mapped found p = u.f.mapped found p
  /-- They have the content they had. -/
  read : ∀ k found, k ≠ inr.toNat → u.f.Allocated u.s k found →
    fileContent u' found = fileContent u found
  /-- They are walked over as before. -/
  walks : ∀ k found, k ≠ inr.toNat → u.f.Allocated u.s k found → WalkEnds u' found

/-- What a new inode has to be in a sound volume. -/
structure Suits (u' : UnixFilesystem) (inr : UInt16) (inode' : Inode) : Prop where
  /-- The file is below 4096 bytes. -/
  small : inodeGetsize inode' < 4096
  /-- The scan visits it. -/
  visited : inr.toNat ≤ u'.s.lastScanned
  /-- It can be read. -/
  readable : Readable u' inode'
  /-- Its sectors are in the data region. -/
  data : ∀ p x, u'.f.mapped inode' p = some x → u'.s.InData x
  /-- The root is a directory. -/
  root : inr.toNat = rootInumber → inode'.isDirectory = true
  /-- A directory has whole records. -/
  whole : inode'.isDirectory = true → inodeGetsize inode' % 16 = 0
  /-- Its names are distinct and not empty. -/
  names : inode'.isDirectory = true → ((dirEntries u' inode').map Prod.snd).Nodup ∧
    [] ∉ (dirEntries u' inode').map Prod.snd
  /-- Its records name files in use, by components of paths. -/
  live : inode'.isDirectory = true → ∀ entry ∈ dirEntries u' inode',
    u'.f.InUse u'.s entry.1.toNat ∧ pathToken ∉ entry.2

namespace Changed

variable {u u' : UnixFilesystem} {inr : UInt16} {inode' : Inode}
  (changed : Changed u u' inr inode')

include changed

/-- A file is the new one, or it was there before. -/
theorem cases {k : Nat} {found : Inode} (there : u'.f.Allocated u'.s k found) :
    (k = inr.toNat ∧ found = inode') ∨ (k ≠ inr.toNat ∧ u.f.Allocated u.s k found) := by
  rw [changed.s] at there
  by_cases mine : k = inr.toNat
  · left
    refine ⟨mine, ?_⟩
    rw [mine] at there
    exact Option.some.inj (there.1.symm.trans changed.stored.1)
  · exact .inr ⟨mine, (changed.others k found mine).mp there⟩

/-- What was in use is in use. -/
theorem inUse {k : Nat} (used : u.f.InUse u.s k) : u'.f.InUse u'.s k := by
  rw [changed.s]
  by_cases mine : k = inr.toNat
  · rw [mine]
    exact ⟨inode', changed.stored⟩
  · obtain ⟨found, there⟩ := used
    exact ⟨found, (changed.others k found mine).mpr there⟩

/-- The namespace has a new node. -/
theorem namespaceOf_eq : namespaceOf u' = (namespaceOf u).store inr (nodeOf u' inode') := by
  funext k
  rw [Namespace.store_apply]
  by_cases mine : k = inr
  · rw [if_pos mine, mine]
    apply namespaceOf_of_allocated
    rw [changed.s]
    exact changed.stored
  · have apart : k.toNat ≠ inr.toNat := fun same => mine (UInt16.toNat_inj.mp same)
    rw [if_neg mine]
    rcases was : namespaceOf u k with _ | node
    · rw [namespaceOf_eq_none_iff] at was ⊢
      rintro ⟨found, there⟩
      rw [changed.s] at there
      exact was ⟨found, (changed.others _ found apart).mp there⟩
    · obtain ⟨found, there, rfl⟩ := namespaceOf_eq_some_iff.mp was
      have kept := changed.read _ found apart there
      apply namespaceOf_eq_some_iff.mpr
      refine ⟨found, ?_, ?_⟩
      · rw [changed.s]
        exact (changed.others _ found apart).mpr there
      · unfold nodeOf dirEntries
        rw [kept]

/-- The records of other files are as before. -/
theorem sameEntries {k : Nat} {found : Inode} (apart : k ≠ inr.toNat)
    (there : u.f.Allocated u.s k found) : dirEntries u' found = dirEntries u found := by
  rw [dirEntries, dirEntries, changed.read k found apart there]

section Sound

variable (before : Working u) (suits : Suits u' inr inode')

include before suits

/-- The sizes stay such that the scan can deal with them. -/
theorem sizes {k : Nat} {found : Inode} (there : u'.f.Allocated u'.s k found) :
    inodeGetsize found ≠ 4096 ∧ (0 < inodeGetsize found → inodeGetsize found % 131072 ≠ 0) := by
  rcases changed.cases there with ⟨-, rfl⟩ | ⟨-, was⟩
  · have small := suits.small
    constructor
    · omega
    · intro positive
      rw [Nat.mod_eq_of_lt (by omega)]
      omega
  · exact before.sizes k found was

/-- Every file can be read to its end. -/
theorem readable {k : Nat} {found : Inode} (there : u'.f.Allocated u'.s k found) :
    Readable u' found := by
  rcases changed.cases there with ⟨-, rfl⟩ | ⟨apart, was⟩
  · exact suits.readable
  · apply readable_of_whole
    rw [changed.read k found apart was]
    exact before.whole was

/-- The records that are read are those of the content. -/
theorem entries {k : Nat} {found : Inode} (there : u'.f.Allocated u'.s k found) :
    dirEntries u' found = (records (u'.f.contents found)).map Direntv6.pair := by
  rw [dirEntries, fileContent_contents there.2 (changed.sizes before suits there).1
    (changed.readable before suits there)]

/-- Sectors of files are in the data region. -/
theorem mapped : u'.f.Mapped u'.s := by
  constructor
  · intro k found there
    rcases changed.cases there with ⟨-, rfl⟩ | ⟨-, was⟩
    · have small := suits.small
      unfold sectorCount
      omega
    · exact before.image.mapped.size k found was
  · intro k found p there place
    rcases changed.cases there with ⟨-, rfl⟩ | ⟨apart, was⟩
    · have small := suits.small
      cases p with
      | indirect j =>
        simp only [HasPosition, sectorCount] at place
        omega
      | data i =>
        obtain ⟨sector, read⟩ := suits.readable i place
        obtain ⟨x, found', present⟩ := fileBlock_ok u' found read
        have maps := mapped_of_found there.2 (changed.sizes before suits there).1 place found'
        exact ⟨x, maps, suits.data _ x maps, (List.getElem?_eq_some_iff.mp present).1⟩
    · obtain ⟨x, maps, data, inside⟩ := before.image.mapped.data k found p was place
      rw [changed.s]
      refine ⟨x, ?_, data, Nat.lt_of_lt_of_le inside changed.length⟩
      rw [changed.maps k found apart was p]
      exact maps

/-- The image stays well formed. -/
theorem image (owned : Owned u') : u'.f.WellFormed u'.s := by
  have s := changed.s
  constructor
  case regions => exact owned.regions
  case root =>
    obtain ⟨root, there, directory⟩ := before.image.root
    by_cases mine : rootInumber = inr.toNat
    · refine ⟨inode', ?_, suits.root mine.symm⟩
      rw [mine, s]
      exact changed.stored
    · rw [s]
      exact ⟨root, (changed.others _ root mine).mpr there, directory⟩
  case mapped => exact changed.mapped before suits
  case unshared => exact owned.unshared
  case whole =>
    intro k found there directory
    rcases changed.cases there with ⟨-, rfl⟩ | ⟨-, was⟩
    · exact suits.whole directory
    · exact before.image.whole k found was directory
  case names =>
    intro k found there directory
    have names : ((dirEntries u' found).map Prod.snd).Nodup ∧
        [] ∉ (dirEntries u' found).map Prod.snd := by
      rcases changed.cases there with ⟨-, rfl⟩ | ⟨apart, was⟩
      · exact suits.names directory
      · rw [changed.sameEntries apart was]
        exact before.distinct was directory
    rw [changed.entries before suits there, List.map_map] at names
    exact names
  case live =>
    intro k found there directory record mem
    have listed : record.pair ∈ dirEntries u' found := by
      rw [changed.entries before suits there]
      exact List.mem_map_of_mem mem
    rcases changed.cases there with ⟨-, rfl⟩ | ⟨apart, was⟩
    · exact (suits.live directory _ listed).1
    · rw [changed.sameEntries apart was] at listed
      exact changed.inUse (before.live was directory listed)

/-- The volume stays sound when the new inode suits it, and can be worked on. -/
theorem working (owned : Owned u') (intact : Intact u') : Working u' := by
  refine ⟨⟨changed.image before suits owned, fun k found there => changed.sizes before suits there,
    fun k found there => changed.readable before suits there, ?_, ?_⟩, owned, intact, ?_⟩
  · rintro k ⟨found, there⟩
    rcases changed.cases there with ⟨rfl, -⟩ | ⟨-, was⟩
    · exact suits.visited
    · rw [changed.s]
      exact before.visited k ⟨found, was⟩
  · intro k found there directory entry mem
    rcases changed.cases there with ⟨-, rfl⟩ | ⟨apart, was⟩
    · exact (suits.live directory entry mem).2
    · rw [changed.sameEntries apart was] at mem
      exact before.plain k found was directory entry mem
  · intro k found there
    rcases changed.cases there with ⟨-, rfl⟩ | ⟨apart, was⟩
    · exact walkEnds_small u' there.2 suits.small
    · exact changed.walks k found apart was

end Sound

end Changed

namespace Working

variable {u : UnixFilesystem} (before : Working u)

include before

/-- The walk over a file goes on where it went when the indirect sectors are kept. -/
theorem walk_kept {u' : UnixFilesystem} (works : u'.f.host.Faultless) {k : Nat} {found : Inode}
    (allocated : u.f.Allocated u.s k found)
    (kept : ∀ j x, u.f.mapped found (.indirect j) = some x →
      u'.f.sectors[x]? = u.f.sectors[x]?) : WalkEnds u' found := by
  apply walkEnds_kept before.image.regions.works works _ (before.walks k found allocated)
  intro big j inside
  have sizes := before.sizes k found allocated
  have other := sizes.1
  have multiple := sizes.2 (by omega)
  have count : sectorCount found = (inodeGetsize found + 511) / 512 := rfl
  have limit := before.image.mapped.size k found allocated
  exact kept j _ (mapped_indirect u.f (by omega) limit (by omega))

/-- A volume with the same disk, on which the writing functions can work. -/
theorem congr {u' : UnixFilesystem} (f : u'.f = u.f) (s : u'.s = u.s) (owned : Owned u')
    (intact : Intact u') : Working u' := by
  refine ⟨before.toSound.congr f s, owned, intact, ?_⟩
  intro k found there
  rw [f, s] at there
  exact (walkEnds_congr f found).mpr (before.walks k found there)

/-- The volume can be mounted again, and is in good health then. -/
theorem mounts : ∃ w, mountv6 u.f = .ok w ∧ w.f = u.f ∧ w.s = u.s ∧ Healthy w :=
  before.toSound.mounts before.intact.geometry before.walks

end Working

/-- The node of a new file. -/
theorem nodeOf_created (u : UnixFilesystem) (mode : UInt16) :
    nodeOf u (Inode.zero.created mode) = emptyNode mode := by
  have content := fileContent_created u mode
  have entries : dirEntries u (Inode.zero.created mode) = [] := by
    rw [dirEntries, content]
    rfl
  rw [nodeOf, emptyNode, content, entries]
  rfl

section Begin

variable {u u₁ : UnixFilesystem} {entry name : List UInt8} {mode parent : UInt16} {inode : Inode}
  {inr : UInt16} (before : Working u)
  (begun : Begun u u₁ entry name mode parent inode inr.toNat) (unused : ¬u.f.InUse u.s inr.toNat)

include before begun unused

/-- An empty inode was stored under a number that was not in use. -/
theorem Begun.changed : Changed u u₁ inr (Inode.zero.created mode) := by
  obtain ⟨after, kept⟩ := before.intact.begun begun unused
  have works := after.geometry.works
  have inside := begun.inside.2
  rw [Superblock.inodes] at inside
  constructor
  case s => exact begun.reserved.s
  case length => exact begun.stored.length.ge
  case stored =>
    refine ⟨?_, created_isAllocated _ _⟩
    rw [begun.stored.inodeAt, if_pos rfl]
  case others =>
    intro k found apart
    rw [Disk.Allocated, Disk.Allocated, begun.stored.inodeAt, if_neg apart]
  case maps => exact fun k found _ was => (kept k found was).2.1
  case read => exact fun k found _ was => (kept k found was).2.2 (before.sizes k found was).1
  case walks =>
    intro k found _ was
    apply before.walk_kept works was
    intro j x maps
    have outside := before.intact.outside k found _ x was maps
    apply begun.stored.other
    rintro rfl
    simp only [outsideTable, Set.mem_ofPred_eq, Superblock.tableSector] at outside
    omega

/-- The volume stays one to work on. -/
theorem Working.started (visited : inr.toNat ≤ u.s.lastScanned) : Working u₁ := by
  have changed := begun.changed before unused
  have empty := inodeGetsize_zero_created mode
  have entries : dirEntries u₁ (Inode.zero.created mode) = [] := by
    rw [dirEntries, fileContent_created]
    rfl
  apply changed.working before _ (before.owned.begun begun).1 (before.intact.begun begun unused).1
  constructor
  case small =>
    rw [empty]
    omega
  case visited =>
    rw [changed.s]
    exact visited
  case readable =>
    intro k inside
    rw [sectorCount, empty] at inside
    exact absurd inside (Nat.not_lt_zero k)
  case data =>
    intro p x maps
    rw [mapped_empty _ empty] at maps
    cases maps
  case root =>
    intro root
    obtain ⟨inode, used, -⟩ := before.image.root
    rw [root] at unused
    exact absurd ⟨inode, used⟩ unused
  case whole =>
    intro _
    rw [empty]
  case names =>
    intro _
    rw [entries]
    exact ⟨List.nodup_nil, List.not_mem_nil⟩
  case live =>
    intro _ entry mem
    rw [entries] at mem
    cases mem

end Begin

/-- Bytes that are left take a sector if one is free, and cannot be written otherwise. -/
theorem Extends.outcome {inr : UInt16} {u u' : UnixFilesystem} {inode inode' : Inode} {size : Nat}
    {bytes : List UInt8} {code : Int}
    (extension : Extends inr u inode size bytes code u' inode') :
    (code = errNone ∧ (bytes ≠ [] → ∃ x, bmGet u.fbm x = 0)) ∨
      (code = errBitmapFull ∧ bytes ≠ [] ∧ ∀ x, bmGet u.fbm x ≠ 0) := by
  induction extension with
  | done => exact .inl ⟨rfl, fun more => absurd rfl more⟩
  | full more same taken => exact .inr ⟨rfl, more, taken⟩
  | @sector u u' inode inode' size bytes fbm f x code more free same put rest ih =>
    simp only [same.get] at ih
    rcases ih with ⟨none, -⟩ | ⟨-, -, full⟩
    · exact .inl ⟨none, fun _ => ⟨x, free⟩⟩
    · exact absurd free (full x)

section Append

variable {u u' : UnixFilesystem} {inr : UInt16} {inode inode' : Inode} {bytes : List UInt8}
  {code : Int}

/-- An append that takes a sector fails if none is free; others do not fail. -/
theorem Appends.outcome (appended : Appends u u' inr inode inode' bytes code) :
    (code = errNone ∧ (TakesSector (inodeGetsize inode) bytes.length → ∃ x, bmGet u.fbm x = 0)) ∨
      (code = errBitmapFull ∧ TakesSector (inodeGetsize inode) bytes.length ∧
        ∀ x, bmGet u.fbm x ≠ 0) := by
  obtain ⟨u₁, inode₁, first, rest⟩ := appended.stages
  have fbm : u₁.fbm = u.fbm := by
    rcases first with ⟨-, rfl, -⟩ | ⟨-, -, rfl, -⟩ | filled
    · rfl
    · rfl
    · obtain ⟨_, _, _, -, -, -, rfl⟩ := filled.effect
      rfl
  have left : bytes.drop (residualLength (inodeGetsize inode) bytes.length) ≠ [] ↔
      TakesSector (inodeGetsize inode) bytes.length := by
    rw [ne_eq, List.drop_eq_nil_iff, residualLength, TakesSector]
    split <;> omega
  have outcome := rest.outcome
  rw [fbm, left] at outcome
  exact outcome

/-- Bytes were put behind the end of a file. -/
structure Grew (u u' : UnixFilesystem) (inr : UInt16) (inode inode' : Inode)
    (bytes : List UInt8) : Prop where
  /-- One inode is new. -/
  changed : Changed u u' inr inode'
  /-- It has the mode it had. -/
  mode : inode'.iMode = inode.iMode
  /-- It has the bytes more. -/
  size : inodeGetsize inode' = inodeGetsize inode + bytes.length
  /-- They are behind its content. -/
  content : fileContent u' inode' = ((fileContent u inode).1 ++ bytes, errNone)
  /-- Its sectors are in the data region. -/
  data : ∀ p x, u'.f.mapped inode' p = some x → u'.s.InData x

variable (before : Working u) (allocated : u.f.Allocated u.s inr.toNat inode)
  (more : bytes ≠ []) (short : bytes.length < 512)
  (room : inodeGetsize inode % 512 + bytes.length ≤ 512)
  (small : inodeGetsize inode + bytes.length < 4096)
  (marked : TakesSector (inodeGetsize inode) bytes.length → OwnersMarked u)
  (appended : Appends u u' inr inode inode' bytes code)

include before allocated more short room small marked appended

/-- Bytes that go into one sector are put behind the end of a file, or no sector is free and the
disk is as before. If they take none, the sectors of files stay marked. -/
theorem Working.appends : Owned u' ∧ Intact u' ∧
    (¬TakesSector (inodeGetsize inode) bytes.length → OwnersMarked u → OwnersMarked u') ∧
    ((code = errNone ∧ Grew u u' inr inode inode' bytes) ∨
      (code = errBitmapFull ∧ u'.f = u.f ∧ u'.s = u.s)) := by
  have geometry := before.intact.geometry
  have framed := appended.framed
  have slots : SlotsInside (inodeGetsize inode) bytes.length := .inr small
  have unshared := lastUnshared_of_unshared before.image.unshared allocated
  have sizes := before.sizes _ inode allocated
  have owned := before.owned.appends allocated slots marked (.inl short) appended
  have intact := before.intact.appends allocated slots unshared appended marked (.inl short)
  have works' := intact.geometry.works
  refine ⟨owned, intact, fun fits all => ?_, ?_⟩
  · exact appended.marked geometry allocated slots fits
      (fun k found was => before.owned.mapped_framed allocated marked framed was) all
  have content := before.intact.appended_content allocated slots unshared appended
    (fun takes => marked takes _ inode allocated) more room (fun _ => short) sizes.1 (by omega)
    (by omega)
  rcases content with ⟨is, size, read⟩ | ⟨f, same, failed⟩
  · refine .inl ⟨is, ?_⟩
    rw [if_pos (before.whole allocated)] at read
    have stored := appended.stored allocated.1
    constructor
    case changed =>
      constructor
      case s => exact framed.s
      case length => exact framed.length
      case stored => exact ⟨stored.1, by rw [isAllocated_congr stored.2]; exact allocated.2⟩
      case others =>
        intro k found apart
        rw [Disk.Allocated, Disk.Allocated, framed.inodeAt k apart]
      case maps =>
        intro k found _ was
        exact before.owned.mapped_framed allocated marked framed was
      case read =>
        intro k found apart was
        exact before.intact.others_read allocated unshared framed apart was
          (before.sizes k found was).1 fun takes => marked takes k found was
      case walks =>
        intro k found _ was
        apply before.walk_kept works' was
        intro j x maps
        exact framed.sectors x (before.owned.indirect_untouched allocated marked was maps)
    case mode => exact stored.2
    case size => exact size
    case content => exact read
    case data =>
      intro p x maps
      rw [framed.s]
      have old : u.f.mapped inode p = some x → u.s.InData x := by
        intro was
        obtain ⟨y, there, data, -⟩ := before.image.mapped.data _ inode p allocated
          (Disk.mapped_hasPosition was)
        rw [was, Option.some.injEq] at there
        rw [there]
        exact data
      rcases appended.layout geometry slots with ⟨addr, count, -⟩ | grown
      · rw [mapped_alike u'.f count addr,
          before.owned.mapped_framed allocated marked framed allocated] at maps
        exact old maps
      · rcases grown.mapped u.f u'.f maps with was | ⟨k, -, -, -, free⟩
        · exact old was
        · exact geometry.data_of_free (free short).2
  · have missing : ¬(inodeGetsize inode % 512 ≠ 0 ∧ LastSectorMissing u inode) := by
      rintro ⟨residual, missing⟩
      exact fileContent_lastMissing geometry.works residual missing (before.whole allocated)
    have negative := failed.resolve_right missing
    rcases appended.outcome with ⟨rfl, -⟩ | ⟨is, -⟩
    · exact absurd negative (by decide)
    · exact .inr ⟨is, f, framed.s⟩

end Append

section Record

variable {u u' : UnixFilesystem} {parent n : UInt16} {inode inode' : Inode} {name : List UInt8}
  {dName : Vector UInt8 direntMaxlen}

/-- A record was put behind those of a directory. -/
theorem Grew.entries (before : Working u) (allocated : u.f.Allocated u.s parent.toNat inode)
    (directory : inode.isDirectory = true) (plain : 0 ∉ name)
    (copied : strcpyDName name = some dName)
    (grew : Grew u u' parent inode inode' (direntCodec.encode { dInumber := n, dName })) :
    dirEntries u' inode' = dirEntries u inode ++ [(n, name)] := by
  have whole := before.image.whole _ inode allocated directory
  have length := fileContent_length u inode (before.whole allocated)
  have single := records_flatMap [{ dInumber := n, dName }]
  rw [List.flatMap_singleton] at single
  have pair : Direntv6.pair { dInumber := n, dName } = (n, name) := by
    rw [Direntv6.pair, cString_strcpyDName copied plain]
  rw [dirEntries, dirEntries, grew.content, records_append _ (by rw [length]; exact whole),
    single, List.map_append, List.map_singleton, pair]

/-- A directory gets a record for a file in use, under a new name: the volume stays one to work on,
and the record is in the namespace. -/
theorem Working.recorded (before : Working u) (allocated : u.f.Allocated u.s parent.toNat inode)
    (directory : inode.isDirectory = true) (plain : 0 ∉ name) (slash : pathToken ∉ name)
    (nonempty : name ≠ []) (fresh : name ∉ (dirEntries u inode).map Prod.snd)
    (used : u.f.InUse u.s n.toNat) (small : inodeGetsize inode + 16 < 4096)
    (copied : strcpyDName name = some dName)
    (grew : Grew u u' parent inode inode' (direntCodec.encode { dInumber := n, dName }))
    (owned : Owned u') (intact : Intact u') :
    Working u' ∧ namespaceOf u' = (namespaceOf u).record parent (n, name) := by
  have changed := grew.changed
  have entries := grew.entries before allocated directory plain copied
  have mode : inode'.isDirectory = true := by
    rw [Inode.isDirectory, grew.mode]
    exact directory
  have size := grew.size
  rw [direntCodec.encode_length, direntCodec_width] at size
  constructor
  · apply changed.working before _ owned intact
    constructor
    case small => omega
    case visited =>
      rw [changed.s]
      exact before.visited _ ⟨inode, allocated⟩
    case readable =>
      apply readable_of_whole
      rw [grew.content]
    case data => exact grew.data
    case root => exact fun _ => mode
    case whole =>
      intro _
      have whole := before.image.whole _ inode allocated directory
      omega
    case names =>
      intro _
      obtain ⟨distinct, named⟩ := before.distinct allocated directory
      rw [entries, List.map_append, List.map_singleton]
      constructor
      · exact List.nodup_append.mpr ⟨distinct, List.nodup_singleton name, fun a mem b is => by
          rw [List.mem_singleton] at is
          rintro rfl
          rw [is] at mem
          exact fresh mem⟩
      · rw [List.mem_append, List.mem_singleton, not_or]
        exact ⟨named, Ne.symm nonempty⟩
    case live =>
      intro _ entry mem
      rw [entries, List.mem_append, List.mem_singleton] at mem
      rcases mem with old | rfl
      · exact ⟨changed.inUse (before.live allocated directory old),
          before.plain _ inode allocated directory entry old⟩
      · exact ⟨changed.inUse used, slash⟩
  · have node : namespaceOf u parent = some ⟨inode.iMode, .directory (dirEntries u inode)⟩ := by
      rw [namespaceOf_of_allocated allocated, nodeOf, if_pos directory]
    rw [changed.namespaceOf_eq, Namespace.record_directory node, nodeOf, if_pos mode, entries,
      grew.mode]

/-- A file that is no directory gets content: the volume stays one to work on, and the content is in
the namespace. -/
theorem Working.filled {bytes : List UInt8} (before : Working u)
    (allocated : u.f.Allocated u.s parent.toNat inode) (file : inode.isDirectory = false)
    (empty : inodeGetsize inode = 0) (short : bytes.length < 512)
    (grew : Grew u u' parent inode inode' bytes) (owned : Owned u') (intact : Intact u') :
    Working u' ∧ namespaceOf u' = (namespaceOf u).fill parent bytes := by
  have changed := grew.changed
  have mode : inode'.isDirectory = false := by
    rw [Inode.isDirectory, grew.mode]
    exact file
  have nothing : (fileContent u inode).1 = [] := by
    apply List.length_eq_zero_iff.mp
    rw [fileContent_length u inode (before.whole allocated), empty]
  have size := grew.size
  have content := grew.content
  rw [nothing, List.nil_append] at content
  constructor
  · apply changed.working before _ owned intact
    constructor
    case small => omega
    case visited =>
      rw [changed.s]
      exact before.visited _ ⟨inode, allocated⟩
    case readable =>
      apply readable_of_whole
      rw [content]
    case data => exact grew.data
    case root =>
      intro root
      obtain ⟨found, there, directory⟩ := before.image.root
      rw [← root] at there
      have same := Option.some.inj (there.1.symm.trans allocated.1)
      rw [same, file] at directory
      exact absurd directory Bool.false_ne_true
    case whole => exact fun directory => absurd (mode.symm.trans directory) Bool.false_ne_true
    case names => exact fun directory => absurd (mode.symm.trans directory) Bool.false_ne_true
    case live => exact fun directory => absurd (mode.symm.trans directory) Bool.false_ne_true
  · have node : namespaceOf u parent = some ⟨inode.iMode, .file (fileContent u inode).1⟩ := by
      rw [namespaceOf_of_allocated allocated, nodeOf, file]
      rfl
    rw [changed.namespaceOf_eq, Namespace.fill, node, nodeOf, mode, content, grew.mode]
    rfl

end Record

end U6fs
