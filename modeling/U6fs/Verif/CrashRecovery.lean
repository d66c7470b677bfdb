import U6fs.Verif.FuseView
import U6fs.Verif.Stopping

/-!
# Disk files of a machine that stopped
-/
namespace U6fs

open Lib

section Kept

variable {u v : UnixFilesystem} (sound : Sound u) (s : v.s = u.s) (regions : v.f.Regions v.s)
  (length : u.f.sectors.length ≤ v.f.sectors.length)
  (inodes : ∀ k, v.f.inodeAt u.s k = u.f.inodeAt u.s k)
  (maps : ∀ k found, u.f.Allocated u.s k found → ∀ p, v.f.mapped found p = u.f.mapped found p)
  (read : ∀ k found, u.f.Allocated u.s k found → fileContent v found = fileContent u found)

include sound s regions length inodes maps read

/-- A volume with the same inodes, block maps and contents is sound, and holds the same files and
directories. -/
theorem Sound.kept : Sound v ∧ namespaceOf v = namespaceOf u := by
  have allocated : ∀ k found, v.f.Allocated v.s k found ↔ u.f.Allocated u.s k found := by
    intro k found
    rw [Disk.Allocated, Disk.Allocated, s, inodes]
  have used : ∀ k, v.f.InUse v.s k ↔ u.f.InUse u.s k :=
    fun k => exists_congr fun found => allocated k found
  have entries : ∀ k found, u.f.Allocated u.s k found →
      dirEntries v found = dirEntries u found := by
    intro k found there
    rw [dirEntries, dirEntries, read k found there]
  have readable : ∀ k found, v.f.Allocated v.s k found → Readable v found := by
    intro k found there
    rw [allocated] at there
    apply readable_of_whole
    rw [read k found there]
    exact sound.whole there
  have contents : ∀ k found, u.f.Allocated u.s k found →
      v.f.contents found = u.f.contents found := by
    intro k found there
    have mine := (allocated k found).mpr there
    rw [← sound.contents there, ← read k found there]
    exact (fileContent_contents there.2 (sound.sizes k found there).1
      (readable k found mine)).symm
  refine ⟨⟨?_, ?_, readable, ?_, ?_⟩, ?_⟩
  · constructor
    case regions => exact regions
    case root =>
      obtain ⟨root, there, directory⟩ := sound.image.root
      exact ⟨root, (allocated _ root).mpr there, directory⟩
    case mapped =>
      constructor
      · intro k found there
        exact sound.image.mapped.size k found ((allocated k found).mp there)
      · intro k found p there place
        rw [allocated] at there
        obtain ⟨x, is, data, inside⟩ := sound.image.mapped.data k found p there place
        rw [s, maps k found there]
        exact ⟨x, is, data, Nat.lt_of_lt_of_le inside length⟩
    case unshared =>
      intro k found p k' found' p' x there there' is is' data
      rw [allocated] at there there'
      rw [maps k found there] at is
      rw [maps k' found' there'] at is'
      rw [s] at data
      exact sound.image.unshared k found p k' found' p' x there there' is is' data
    case whole =>
      intro k found there directory
      exact sound.image.whole k found ((allocated k found).mp there) directory
    case names =>
      intro k found there directory
      rw [allocated] at there
      rw [contents k found there]
      exact sound.image.names k found there directory
    case live =>
      intro k found there directory record mem
      rw [allocated] at there
      rw [contents k found there] at mem
      obtain ⟨child, is⟩ := sound.image.live k found there directory record mem
      exact ⟨child, (allocated _ child).mpr is⟩
  · intro k found there
    exact sound.sizes k found ((allocated k found).mp there)
  · intro k there
    rw [s]
    exact sound.visited k ((used k).mp there)
  · intro k found there directory entry mem
    rw [allocated] at there
    rw [entries k found there] at mem
    exact sound.plain k found there directory entry mem
  · funext k
    rcases is : namespaceOf u k with _ | node
    · rw [namespaceOf_eq_none_iff] at is ⊢
      rw [used]
      exact is
    · obtain ⟨found, there, rfl⟩ := namespaceOf_eq_some_iff.mp is
      apply namespaceOf_eq_some_iff.mpr
      refine ⟨found, (allocated _ found).mpr there, ?_⟩
      unfold nodeOf
      rw [entries _ found there, read _ found there]

end Kept

/-- A disk file with certain sectors can be mounted by any machine that works; it has a certain
superblock then, is in good health, and holds certain files and directories. -/
def Recovers (s : Superblock) (sectors : List Sector) (ns : Volume) : Prop :=
  ∀ f : Disk, f.sectors = sectors → f.host.Faultless →
    ∃ w, mountv6 f = .ok w ∧ w.s = s ∧ Healthy w ∧ namespaceOf w = ns

/-- The inode table is in the sectors. -/
theorem inodeAt_sectors {f f' : Disk} (same : f'.sectors = f.sectors) :
    f'.inodeAt = f.inodeAt := by
  funext s inr
  rw [Disk.inodeAt, Disk.inodeAt, same]

/-- The block map of a file is in the sectors. -/
theorem mapped_sectors {f f' : Disk} (same : f'.sectors = f.sectors) : f'.mapped = f.mapped := by
  funext inode p
  apply mapped_kept
  intro j x _
  rw [same]

/-- A volume in good health recovers on another machine. -/
theorem Healthy.recovers {u : UnixFilesystem} (healthy : Healthy u) :
    Recovers u.s u.f.sectors (namespaceOf u) := by
  intro f sectors works
  have regions := healthy.image.regions
  have alike : ReadsAlike u { u with f } := by
    refine ⟨rfl, fun x => ?_⟩
    rw [sectorRead_faultless works, sectorRead_faultless regions.works, sectors]
  have regions' : f.Regions u.s := by
    obtain ⟨magic, superblock, table, data, ends, inside, -⟩ := regions
    rw [← sectors] at magic superblock inside
    exact ⟨magic, superblock, table, data, ends, inside, works⟩
  obtain ⟨sound, same⟩ := @Sound.kept u { u with f } healthy.toSound rfl regions'
    (by rw [sectors]) (fun k => by rw [inodeAt_sectors sectors])
    (fun _ _ _ p => by rw [mapped_sectors sectors]) (fun _ found _ => alike.fileContent found)
  exact ⟨{ u with f }, mountv6_alike alike.read healthy.mounted, rfl,
    ⟨sound, mountv6_alike alike.read healthy.mounted⟩, same⟩

/-- A sound volume that can be walked over recovers. -/
theorem Sound.recovers {u : UnixFilesystem} (sound : Sound u) (geometry : Geometry u)
    (walks : ∀ inr inode, u.f.Allocated u.s inr inode → WalkEnds u inode) :
    Recovers u.s u.f.sectors (namespaceOf u) := by
  obtain ⟨w, -, f, s, healthy⟩ := sound.mounts geometry walks
  rw [← namespaceOf_congr f s, ← f, ← s]
  exact healthy.recovers

/-- The content of a file is as before when its blocks can be read and have the same bytes before
the end of the file. -/
theorem fileContent_parts {u v : UnixFilesystem} {inode : Inode}
    (parts : ∀ k < sectorCount inode, ∃ old new, fileBlock u inode k = .ok old ∧
      fileBlock v inode k = .ok new ∧ new.bytes.take (inodeGetsize inode - 512 * k) =
        old.bytes.take (inodeGetsize inode - 512 * k)) :
    fileContent v inode = fileContent u inode := by
  have readable : (fileContent u inode).2 = errNone ∧ (fileContent v inode).2 = errNone := by
    constructor
    · apply Readable.whole
      intro k inside
      obtain ⟨old, -, read, -⟩ := parts k inside
      exact ⟨old, read⟩
    · apply Readable.whole
      intro k inside
      obtain ⟨-, new, -, read, -⟩ := parts k inside
      exact ⟨new, read⟩
  obtain ⟨whole, whole'⟩ := readable
  have length := fileContent_length u inode whole
  have length' := fileContent_length v inode whole'
  refine Prod.ext ?_ (whole'.trans whole.symm)
  apply List.ext_getElem?
  intro i
  by_cases inside : i < inodeGetsize inode
  · rw [fileContent_getElem? u inode whole inside, fileContent_getElem? v inode whole' inside]
    obtain ⟨old, new, read, read', same⟩ := parts (i / 512) (by rw [sectorCount]; omega)
    have split : i = 512 * (i / 512) + i % 512 := by omega
    have bytes := congrArg (fun part => part[i % 512]?) same
    simp only [List.getElem?_take] at bytes
    rw [if_pos (by omega), if_pos (by omega)] at bytes
    rw [split, fileByte_of_block v inode (Nat.mod_lt i (by decide)) read',
      fileByte_of_block u inode (Nat.mod_lt i (by decide)) read]
    exact bytes
  · rw [List.getElem?_eq_none (by omega), List.getElem?_eq_none (by omega)]

section Append

variable {u u' : UnixFilesystem} {inr : UInt16} {inode inode' : Inode} {bytes : List UInt8}
  {code : Int} (allocated : u.f.Allocated u.s inr.toNat inode)
  (appended : Appends u u' inr inode inode' bytes code)
  {sectors : List Sector} (half : Half u u' inr.toNat sectors)

include allocated appended half

/-- Between the two writes of an append, the inodes are as before, and so are the sectors that the
append does not touch. -/
theorem Appends.half_framed {v : UnixFilesystem} (f : v.f = { u.f with sectors }) (s : v.s = u.s)
    (ibm : v.ibm = u.ibm) (fbm : v.fbm = u.fbm) :
    Framed u v inr.toNat (untouched u inr.toNat inode bytes.length) ∧
      v.f.inodeAt u.s inr.toNat = some inode := by
  have framed := appended.framed
  have there : v.f.sectors = sectors := by rw [f]
  have number := allocated.number
  constructor
  · constructor
    case s => exact s
    case ibm => exact ibm
    case fbm =>
      rw [fbm]
      exact .refl _
    case host => rw [f]
    case length =>
      by_contra shorter
      rw [there] at shorter
      have outside : sectors[sectors.length]? = none := List.getElem?_eq_none le_rfl
      by_cases mine : sectors.length = u.s.tableSector inr.toNat
      · rw [mine, half.table, ← mine, List.getElem?_eq_none_iff] at outside
        omega
      · rw [half.others _ mine, List.getElem?_eq_none_iff] at outside
        have longer := framed.length
        omega
    case inodeAt =>
      intro m other
      have same : u'.f.inodeAt u.s m = u.f.inodeAt u.s m := framed.inodeAt m other
      rw [Disk.inodeAt, Disk.inodeAt, there]
      rw [Disk.inodeAt, Disk.inodeAt] at same
      split_ifs at same ⊢ with inside
      · by_cases mine : u.s.sInodeStart.toNat + m / 16 = u.s.tableSector inr.toNat
        · rw [mine, half.table]
        · rw [half.others _ mine]
          exact same
      · rfl
    case sectors =>
      intro y mem
      rw [there, half.others y mem.1]
      exact framed.sectors y mem
  · have was := allocated.1
    rw [Disk.inodeAt, if_pos number] at was ⊢
    rw [there]
    have table := half.table
    rw [Superblock.tableSector] at table
    rw [table]
    exact was

variable (before : Working u) (more : bytes ≠ []) (short : bytes.length < 512)
  (room : inodeGetsize inode % 512 + bytes.length ≤ 512)
  (small : inodeGetsize inode + bytes.length < 4096)
  (marked : TakesSector (inodeGetsize inode) bytes.length → OwnersMarked u)

include before more short room small marked

/-- Between the two writes of an append, the file that is appended to is read as before. -/
theorem Working.half_content {v : UnixFilesystem} (f : v.f = { u.f with sectors })
    (framed : Framed u v inr.toNat (untouched u inr.toNat inode bytes.length)) :
    fileContent v inode = fileContent u inode := by
  have works := before.image.regions.works
  have works' : v.f.host.Faultless := by
    rw [f]
    exact works
  have unshared := lastUnshared_of_unshared before.image.unshared allocated
  have places := inodeFindsector_kept works works' inode fun big => absurd big (by omega)
  apply fileContent_parts
  intro k inside
  obtain ⟨old, read⟩ := before.readable _ inode allocated k inside
  obtain ⟨x, found, present⟩ := fileBlock_ok u inode read
  have maps := mapped_of_found allocated.2 (before.sizes _ inode allocated).1 inside found
  have block : ∀ new, v.f.sectors[x]? = some new → fileBlock v inode k = .ok new := by
    intro new there
    apply fileBlock_of_found works' _ there
    rw [places]
    exact found
  by_cases last : inodeGetsize inode % 512 ≠ 0 ∧ k = inodeGetsize inode / 512
  · obtain ⟨residual, rfl⟩ := last
    have data := before.owned.last _ inode allocated residual x found
    have number := allocated.number.2
    have apart : x ≠ u.s.tableSector inr.toNat := by
      rw [Superblock.inodes] at number
      exact before.intact.geometry.data_ne_table data (by omega)
    have there : v.f.sectors[x]? = u'.f.sectors[x]? := by
      rw [f]
      exact half.others x apart
    rcases appended.single more room fun _ => short with
      ⟨-, y, old', new, put⟩ | ⟨same, -⟩
    · -- the bytes are behind those that the sector had
      obtain ⟨-, last, is, -⟩ | ⟨whole, -⟩ := put.place
      · obtain ⟨writer, g, fbm, effect, -, rfl⟩ := put.effect
        obtain rfl : x = y := by
          rw [found] at last
          exact Int.ofNat_inj.mp last
        obtain rfl : old = old' := by
          rw [present, Option.some.injEq] at is
          exact is
        rw [effect.same] at there
        refine ⟨old, new, read, block new there, ?_⟩
        have part : inodeGetsize inode - 512 * (inodeGetsize inode / 512) =
            inodeGetsize inode % 512 := by
          omega
        have filled := congrArg (List.take (inodeGetsize inode % 512)) put.filled
        have length : (old.bytes.take (inodeGetsize inode % 512)).length =
            inodeGetsize inode % 512 := by
          have sized : old.bytes.length = 512 := old.sized
          rw [List.length_take]
          omega
        rw [List.take_take, Nat.min_eq_left (Nat.le_add_right _ _), List.take_append_of_le_length
          (by omega), List.take_take, Nat.min_self] at filled
        rw [part, filled]
      · exact absurd whole residual
    · rw [same, present] at there
      exact ⟨old, old, read, block old there, rfl⟩
  · have mem := before.intact.untouched allocated unshared allocated (fun takes =>
      marked takes _ inode allocated) maps fun residual is => last ⟨residual, by
        have same := is.2
        injection same⟩
    have there := framed.sectors x mem
    rw [present] at there
    exact ⟨old, old, read, block old there, rfl⟩

/-- Between the two writes of an append, the volume recovers as it was. -/
theorem Working.half_recovers : Recovers u.s sectors (namespaceOf u) := by
  generalize is : { u with f := { u.f with sectors } } = v
  have f : v.f = { u.f with sectors } := by rw [← is]
  have s : v.s = u.s := by rw [← is]
  obtain ⟨framed, same⟩ := appended.half_framed allocated half f s (by rw [← is]) (by rw [← is])
  have unshared := lastUnshared_of_unshared before.image.unshared allocated
  have after := before.owned.appends allocated (.inr small) marked (.inl short) appended
  have geometry : Geometry v := before.intact.geometry.congr s (by rw [f]) framed.length
    (by rw [← is]; exact ⟨rfl, rfl⟩) (by rw [← is]; exact ⟨rfl, rfl⟩)
  have own := before.half_content allocated appended half more short room small marked f framed
  have regions : v.f.Regions v.s := by
    have super := appended.framed.s
    obtain ⟨magic, superblock, table, data, ends, -, -⟩ := after.regions
    rw [super] at superblock table data ends
    have first : sectors[0]? = u'.f.sectors[0]? := half.others 0 (by
      rw [Superblock.tableSector]
      omega)
    have second : sectors[1]? = u'.f.sectors[1]? := half.others 1 (by
      rw [Superblock.tableSector]
      omega)
    rw [← first] at magic
    rw [← second] at superblock
    rw [s]
    have there : v.f.sectors = sectors := by rw [f]
    rw [← there] at magic superblock
    have inside := geometry.inside
    rw [s] at inside
    exact ⟨magic, superblock, table, data, ends, inside, geometry.works⟩
  have maps : ∀ k found, u.f.Allocated u.s k found → ∀ p,
      v.f.mapped found p = u.f.mapped found p :=
    fun k found there => before.owned.mapped_framed allocated marked framed there
  have inodes : ∀ k, v.f.inodeAt u.s k = u.f.inodeAt u.s k := by
    intro k
    by_cases mine : k = inr.toNat
    · rw [mine, same]
      exact allocated.1.symm
    · exact framed.inodeAt k mine
  obtain ⟨sound, holds⟩ := before.toSound.kept s regions framed.length inodes maps (by
    intro k found there
    by_cases mine : k = inr.toNat
    · rw [mine] at there
      obtain rfl := Option.some.inj (there.1.symm.trans allocated.1)
      exact own
    · exact before.intact.others_read allocated unshared framed mine there
        (before.sizes k found there).1 fun takes => marked takes k found there)
  have recovers := sound.recovers geometry (by
    intro k found there
    rw [Disk.Allocated, s, inodes] at there
    apply before.walk_kept geometry.works there
    intro j x is
    exact framed.sectors x (before.owned.indirect_untouched allocated marked there is))
  rw [holds, f, s] at recovers
  exact recovers

end Append

/-- A volume to work on recovers. -/
theorem Working.recovers {u : UnixFilesystem} (working : Working u) :
    Recovers u.s u.f.sectors (namespaceOf u) :=
  working.toSound.recovers working.intact.geometry working.walks

/-- Nothing is appended to an empty file. -/
theorem filev6Writebytes_nil {u : UnixFilesystem} {inr : UInt16} {inode : Inode}
    (empty : inodeGetsize inode = 0) :
    filev6Writebytes u { iNumber := inr, iNode := inode, offset := 0 } [] =
      some (errNone, u, { iNumber := inr, iNode := inode, offset := 0 }) := by
  rw [filev6Writebytes, empty]
  rfl

/-- The machine has stopped while a process runs, and the disk file recovers with certain files and
directories. -/
structure CutOff (host : Host) (k : Nat) (s : Superblock) (v : UnixFilesystem) (ns : Volume) :
    Prop where
  /-- The machine has stopped. -/
  stopped : Stopped host k v.f.sectors v.f
  /-- The process knows the superblock. -/
  super : v.s = s
  /-- The disk file recovers. -/
  recovers : Recovers s v.f.sectors ns

/-- What is done after the machine has stopped reaches no disk file. -/
theorem CutOff.touches {host : Host} {k : Nat} (stops : host.StopsAt k) {s : Superblock}
    {v v' : UnixFilesystem} {ns : Volume} (cut : CutOff host k s v ns) (touches : Touches v v') :
    CutOff host k s v' ns := by
  obtain ⟨machine, late, same⟩ := cut.stopped.writes stops touches.disk
  refine ⟨⟨machine, late, rfl⟩, touches.s.trans cut.super, ?_⟩
  rw [same]
  exact cut.recovers

/-- A volume in good health, on a machine that has stopped. -/
theorem Healthy.cutOff {u : UnixFilesystem} (healthy : Healthy u) {host : Host} {k : Nat}
    (stopped : Stopped host k u.f.sectors (u.f.on host)) :
    CutOff host k u.s (u.on host) (namespaceOf u) :=
  ⟨stopped, rfl, healthy.recovers⟩

/-- A volume to work on, on a machine that has stopped. -/
theorem Working.cutOff {u : UnixFilesystem} (working : Working u) {host : Host} {k : Nat}
    (stopped : Stopped host k u.f.sectors (u.f.on host)) :
    CutOff host k u.s (u.on host) (namespaceOf u) :=
  ⟨stopped, rfl, working.recovers⟩

/-- Bytes that are appended to a file on a machine that stops are appended as on the repaired one,
or the volume recovers as it was. -/
theorem Working.writebytes_stops {host : Host} {k : Nat} (stops : host.StopsAt k)
    {u : UnixFilesystem} (working : Working u) (running : Running host k u.f) {inr : UInt16}
    {inode : Inode} {bytes : List UInt8} (there : u.f.Allocated u.s inr.toNat inode)
    (more : bytes ≠ []) (short : bytes.length < 512)
    (room : inodeGetsize inode % 512 + bytes.length ≤ 512)
    (small : inodeGetsize inode + bytes.length < 4096)
    (marked : TakesSector (inodeGetsize inode) bytes.length → OwnersMarked u) :
    ∃ code v fv6, filev6Writebytes (u.on host) { iNumber := inr, iNode := inode, offset := 0 }
        bytes = some (code, v, fv6) ∧
      ((∃ u' fv6', filev6Writebytes u { iNumber := inr, iNode := inode, offset := 0 } bytes =
          some (code, u', fv6') ∧ v = u'.on host) ∨
        CutOff host k u.s v (namespaceOf u)) := by
  have geometry := working.intact.geometry
  have last := working.intact.last _ inode there
  obtain ⟨written, u', fv6', wrote, outcome⟩ := filev6Writebytes_on stops geometry running
    { iNumber := inr, iNode := inode, offset := 0 } bytes there.inRange more short room small last
  rcases outcome with same | ⟨code, v, fv6, sectors, run, half, stopped⟩
  · exact ⟨_, _, _, same, .inl ⟨u', fv6', wrote, rfl⟩⟩
  · refine ⟨_, _, _, run, .inr ?_⟩
    obtain ⟨code', u'', inode', wrote', result⟩ := geometry.filev6Writebytes_spec
      { iNumber := inr, iNode := inode, offset := 0 } bytes there.inRange (.inr small) last
    rw [wrote, Option.some.injEq, Prod.mk.injEq, Prod.mk.injEq] at wrote'
    obtain ⟨-, rfl, -⟩ := wrote'
    have appended := result.resolve_left (by
      rintro ⟨-, large, -⟩
      change 1792 < inodeGetsize inode / 512 + 1 at large
      omega)
    have recovers := working.half_recovers there appended half more short room small marked
    obtain ⟨machine, late, rfl⟩ := stopped
    exact ⟨⟨machine, late, rfl⟩, (filev6Writebytes_touches run).s, recovers⟩

section Returns

variable {v : UnixFilesystem} {entry : List UInt8} {mode : UInt16} {code : Int}

/-- `filev6_open` fails with an error code. -/
theorem filev6Open_negative {inr : UInt16} (failed : filev6Open v inr = .error code) :
    code < 0 := by
  rw [filev6Open] at failed
  split at failed
  rename_i error inode read
  split at failed
  · rename_i failing
    cases failed
    rcases inodeRead_cases v inr Inode.zero with ⟨found, -, result⟩ | result | result
    · rw [result] at read
      cases read
      split at failing
      · exact absurd rfl failing
      · rename_i free
        rw [if_neg free]
        decide
    · rw [result] at read
      cases read
      decide
    · rw [result] at read
      cases read
      decide
  · cases failed

/-- The number of a created file is the one that the search finds. -/
theorem filev6Create_number {v₁ : UnixFilesystem} {fv6 child : Filev6}
    (created : filev6Create v mode fv6 = (code, v₁, child)) (good : 0 ≤ code) :
    child.iNumber = UInt16.ofNat (inodeAlloc v).1.toNat := by
  rw [filev6Create] at created
  by_cases full : (inodeAlloc v).1 < 0
  · simp only [if_pos full, Prod.mk.injEq] at created
    obtain ⟨rfl, -⟩ := created
    omega
  · simp only [if_neg full, Prod.mk.injEq] at created
    obtain ⟨-, -, rfl⟩ := created
    rfl

/-- `create_dirent` returns when the directory, if it can be opened, has room for a record. -/
theorem createDirent_returns {v₁ : UnixFilesystem} {name : List UInt8} {parent : UInt16}
    {child : Filev6} {dName : Vector UInt8 direntMaxlen}
    (created : filev6Create v mode { iNumber := 0, iNode := Inode.zero, offset := 0 } =
      (code, v₁, child)) (copied : strcpyDName name = some dName)
    (fits : ∀ fv6, filev6Open v₁ parent = .ok fv6 →
      inodeGetsize fv6.iNode % 512 + 16 ≤ 512 ∧ inodeGetsize fv6.iNode + 16 < 4096) :
    ∃ ret b, createDirent v mode name parent = some (ret, b) ∧
      (ret < 0 ∨ ret = (UInt16.ofNat (inodeAlloc v).1.toNat).toNat) := by
  rw [createDirent, created]
  simp only [copied]
  by_cases failed : code < 0
  · simp only [if_pos failed]
    exact ⟨_, _, rfl, .inl failed⟩
  · have number := filev6Create_number created (Int.not_lt.mp failed)
    simp only [if_neg failed]
    cases opened : filev6Open v₁ parent with
    | error ret => exact ⟨_, _, rfl, .inl (filev6Open_negative opened)⟩
    | ok fv6 =>
      obtain ⟨room, small⟩ := fits fv6 opened
      have width := encode_record child.iNumber dName
      obtain ⟨⟨written, b, rest⟩, wrote⟩ := Option.isSome_iff_exists.mp
        (@filev6Writebytes_returns v₁ fv6 (direntCodec.encode { dInumber := child.iNumber, dName })
          (by rw [← List.length_pos_iff, width]; omega) (by rw [width]; omega)
          (by rw [width]; exact room) (by rw [width]; exact small))
      simp only [wrote]
      by_cases negative : written < 0
      · rw [if_pos negative]
        exact ⟨_, _, rfl, .inl negative⟩
      · rw [if_neg negative]
        exact ⟨_, _, rfl, .inr (by rw [number])⟩

/-- `direntv6_addfile` returns when a file that it has created, if it can be opened, is empty. -/
theorem direntv6Addfile_returns {b : UnixFilesystem} {n : UInt16} {buf : List UInt8}
    (created : direntv6Create v entry mode = some (code, b)) (number : code < 0 ∨ code = n.toNat)
    (short : buf.length < 512)
    (empty : ∀ fv6, filev6Open b n = .ok fv6 → inodeGetsize fv6.iNode = 0) :
    ∃ ret b', direntv6Addfile v entry mode buf = some (ret, b') := by
  rw [direntv6Addfile, created]
  by_cases failed : code < 0
  · simp only [if_pos failed]
    exact ⟨_, _, rfl⟩
  · obtain rfl := number.resolve_left failed
    simp only [if_neg failed, Int.toNat_natCast, UInt16.ofNat_toNat]
    split_ifs with unread
    · exact ⟨_, _, rfl⟩
    · cases opened : filev6Open b n with
      | error ret => exact ⟨_, _, rfl⟩
      | ok fv6 =>
        have size := empty fv6 opened
        have wrote : (filev6Writebytes b fv6 buf).isSome = true := by
          by_cases nothing : buf = []
          · rw [nothing, (filev6Open_ok opened).2, filev6Writebytes_nil size]
            rfl
          · exact filev6Writebytes_returns b nothing short (by omega) (by omega)
        obtain ⟨⟨written, b', rest⟩, is⟩ := Option.isSome_iff_exists.mp wrote
        simp only [is]
        exact ⟨_, _, rfl⟩

end Returns

section Calls

variable {host : Host} {k : Nat} (stops : host.StopsAt k) {u : UnixFilesystem}
  (healthy : Healthy u) (machine : u.f.host = host.repaired) {entry : List UInt8}

include stops healthy machine

/-- `create_dirent` on a machine that stops does the same as on the repaired one, or nothing, or
leaves a new file without a record. -/
theorem createDirent_stops {name : List UInt8} {parent : UInt16}
    (number : 1 ≤ (namespaceOf u).nextNumber.toNat ∧
      (namespaceOf u).nextNumber.toNat ≤ u.s.lastScanned) (mode : UInt16)
    (check : createCheck u entry = some (.ok (name, parent))) (short : name.length < 14)
    (records : ((namespaceOf u).entries parent).length < 255) :
    ∃ code b, createDirent (u.on host) mode name parent = some (code, b) ∧
      ((∃ u', createDirent u mode name parent = some (code, u') ∧ b = u'.on host) ∨
        ((code < 0 ∨ code = (namespaceOf u).nextNumber.toNat) ∧
          ∃ ns, (ns = namespaceOf u ∨
            ns = (namespaceOf u).store (namespaceOf u).nextNumber (emptyNode mode)) ∧
            CutOff host k u.s b ns)) := by
  obtain ⟨inode, u₁, dName, written, u', inode', entering⟩ :=
    createDirent_entering healthy number mode check short records
  obtain ⟨started, there⟩ := entering.started
  have works := healthy.image.regions.works
  have works₁ := started.intact.geometry.works
  have whole := started.image.whole _ inode there entering.begun.directory
  have small := entering.small
  have fits : inodeGetsize inode % 512 + 16 ≤ 512 := by omega
  have same : UInt16.ofNat (inodeAlloc (u.on host)).1.toNat = (namespaceOf u).nextNumber := by
    rw [inodeAlloc_on]
    exact (filev6Create_number entering.created le_rfl).symm
  -- once the machine has stopped, the directory is read as it is in the disk file
  have returns : ∀ {c : Int} {w v₁ : UnixFilesystem} {child : Filev6} {ns : Volume},
      w.f.host.Faultless → w.f.Allocated w.s parent.toNat inode →
      filev6Create (u.on host) mode { iNumber := 0, iNode := Inode.zero, offset := 0 } =
        (c, v₁, child) → CutOff host k w.s v₁ ns → v₁.f.sectors = w.f.sectors →
      ∃ code b, createDirent (u.on host) mode name parent = some (code, b) ∧
        (code < 0 ∨ code = (namespaceOf u).nextNumber.toNat) ∧ CutOff host k w.s b ns := by
    intro c w v₁ child ns works allocated created cut sectors
    have opened := (alike_stops stops cut.super cut.stopped.machine sectors works).filev6Open parent
    rw [filev6Open_of_allocated works allocated] at opened
    obtain ⟨ret, b, run, is⟩ := createDirent_returns created entering.copied (by
      intro fv6 is
      rw [opened, Except.ok.injEq] at is
      rw [← is]
      exact ⟨fits, small⟩)
    rw [same] at is
    have touches := createDirent_touches run
    rw [created] at touches
    exact ⟨ret, b, run, is, cut.touches stops touches⟩
  rcases running_or_stopped host k machine with running | stopped
  · have created := filev6Create_on stops running mode
      { iNumber := 0, iNode := Inode.zero, offset := 0 }
    have touches := filev6Create_touches u mode
      { iNumber := 0, iNode := Inode.zero, offset := 0 }
    rw [entering.created] at created touches
    have super : u₁.s = u.s := touches.s
    have machine' : u₁.f.host = host.repaired := touches.disk.host.trans machine
    rcases running_or_stopped host k machine' with next | stopped
    · have width := encode_record (namespaceOf u).nextNumber dName
      have opened := filev6Open_of_allocated works₁ there
      have opened' := (next.alike stops).filev6Open parent
      rw [opened] at opened'
      rw [createDirent_eq created entering.copied opened']
      rw [createDirent_eq entering.created entering.copied opened]
      obtain ⟨written', v, fv6, wrote, outcome⟩ := started.writebytes_stops stops next there
        (by rw [← List.length_pos_iff, width]; omega) (by rw [width]; omega)
        (by rw [width]; omega) (by rw [width]; exact small) (fun _ => entering.marked)
      rw [wrote]
      refine ⟨_, _, rfl, ?_⟩
      rcases outcome with ⟨u'', fv6', good, rfl⟩ | cut
      · left
        rw [good]
        exact ⟨u'', rfl, rfl⟩
      · right
        rw [entering.stored, super] at cut
        refine ⟨?_, _, .inr rfl, cut⟩
        split_ifs with negative
        · exact .inl negative
        · exact .inr rfl
    · have cut := started.cutOff stopped
      obtain ⟨code, b, run, is, cut'⟩ := returns works₁ there created cut rfl
      rw [entering.stored, super] at cut'
      exact ⟨code, b, run, .inr ⟨is, _, .inr rfl, cut'⟩⟩
  · cases created : filev6Create (u.on host) mode
        { iNumber := 0, iNode := Inode.zero, offset := 0 } with
    | mk c rest =>
      obtain ⟨v₁, child⟩ := rest
      have touches := filev6Create_touches (u.on host) mode
        { iNumber := 0, iNode := Inode.zero, offset := 0 }
      rw [created] at touches
      have cut := (healthy.cutOff stopped).touches stops touches
      have sectors := (stopped.writes stops touches.disk).sectors
      obtain ⟨code, b, run, is, cut'⟩ := returns works entering.allocated created cut sectors
      exact ⟨code, b, run, .inr ⟨is, _, .inl rfl, cut'⟩⟩

/-- `direntv6_create` does the same as on the repaired machine, or leaves a stage of the
creation. -/
theorem direntv6Create_stops (room : Bool) (mode : UInt16)
    (ready : (namespaceOf u).Ready u.s.lastScanned entry) :
    ∃ code b, direntv6Create (u.on host) entry mode = some (code, b) ∧
      ((∃ u', direntv6Create u entry mode = some (code, u') ∧ b = u'.on host) ∨
        ((code < 0 ∨ code = (namespaceOf u).nextNumber.toNat) ∧
          ∃ ns, (ns = namespaceOf u ∨
            ns = (namespaceOf u).store (namespaceOf u).nextNumber (emptyNode mode)) ∧
            ns ∈ (namespaceOf u).creations room entry mode ∧ CutOff host k u.s b ns)) := by
  have alike := @alike_stops host k stops u (u.on host) rfl rfl rfl healthy.image.regions.works
  rw [direntv6Create_eq, direntv6Create_eq, alike.createCheck]
  rcases healthy.createCheck_cases entry with
    ⟨failure, negative, check, created⟩ | ⟨parent, check, resolved, short, slash, created⟩
  · rw [check]
    exact ⟨_, _, rfl, .inl ⟨u, rfl, rfl⟩⟩
  · have fits : (splitPath entry).2.length < 14 := by
      have other := ready.name
      omega
    have passes : ¬((namespaceOf u).create true entry mode).1 < 0 := by
      rw [created, Volume.enter, if_neg fun blocked => absurd blocked.2 (by decide)]
      exact Int.not_lt.mpr (Int.natCast_nonneg _)
    rw [check]
    obtain ⟨code, b, run, outcome⟩ := createDirent_stops stops healthy machine ready.number mode
      check fits (ready.parent parent resolved)
    refine ⟨code, b, run, ?_⟩
    rcases outcome with same | ⟨number, ns, stage, cut⟩
    · exact .inl same
    · refine .inr ⟨number, ns, stage, ?_, cut⟩
      rw [Volume.creations, if_neg passes]
      rcases stage with rfl | rfl
      · exact List.mem_cons_self
      · exact List.mem_cons_of_mem _ List.mem_cons_self

omit healthy machine in
/-- Once the file is created, `direntv6_addfile` does the same as on the repaired machine, or leaves
the file without its content. -/
theorem Working.addfile_stops {u₁ : UnixFilesystem} (working : Working u₁)
    (next : Running host k u₁.f) {mode n : UInt16} {buf : List UInt8}
    (there : u₁.f.Allocated u₁.s n.toNat (Inode.zero.created mode))
    (first : direntv6Create u entry mode = some ((n.toNat : Int), u₁))
    (created : direntv6Create (u.on host) entry mode = some ((n.toNat : Int), u₁.on host))
    (short : buf.length < 512) (marked : buf ≠ [] → OwnersMarked u₁) :
    ∃ code b, direntv6Addfile (u.on host) entry mode buf = some (code, b) ∧
      ((∃ u', direntv6Addfile u entry mode buf = some (code, u') ∧ b = u'.on host) ∨
        CutOff host k u₁.s b (namespaceOf u₁)) := by
  have geometry := working.intact.geometry
  have alike := next.alike stops
  have read := inodeRead_of_allocated geometry.works there Inode.zero
  have opened := filev6Open_of_allocated geometry.works there
  have read' := alike.inodeRead n Inode.zero
  have opened' := alike.filev6Open n
  rw [read] at read'
  rw [opened] at opened'
  rw [direntv6Addfile_eq created read' opened', direntv6Addfile_eq first read opened]
  have empty := inodeGetsize_zero_created mode
  by_cases nothing : buf = []
  · subst nothing
    rw [filev6Writebytes_nil empty, filev6Writebytes_nil empty]
    exact ⟨_, _, rfl, .inl ⟨u₁, rfl, rfl⟩⟩
  · obtain ⟨written, v, fv6, wrote, outcome⟩ := working.writebytes_stops stops next there nothing
      short (by rw [empty]; omega) (by rw [empty]; omega) (fun _ => marked nothing)
    rw [wrote]
    refine ⟨_, _, rfl, ?_⟩
    rcases outcome with ⟨u', fv6', good, rfl⟩ | cut
    · left
      rw [good]
      exact ⟨u', rfl, rfl⟩
    · exact .inr cut

omit healthy machine in
/-- A number that recovers as an empty file, or as none, is opened as an empty file or not. -/
theorem CutOff.open_empty {s : Superblock} {b : UnixFilesystem} {ns : Volume}
    (cut : CutOff host k s b ns) {n mode : UInt16}
    (file : (Inode.zero.created mode).isDirectory = false)
    (node : ns n = none ∨ ns n = some (emptyNode mode)) {fv6 : Filev6}
    (opened : filev6Open b n = .ok fv6) : inodeGetsize fv6.iNode = 0 := by
  obtain ⟨w, mounted, super, well, holds⟩ :=
    cut.recovers (b.f.on host.repaired) rfl host.repaired_faultless
  obtain ⟨disk, -⟩ := mountv6_coherent mounted
  have alike := @alike_stops host k stops w b (cut.super.trans super.symm) cut.stopped.machine
    (by rw [disk]; rfl) well.image.regions.works
  rw [alike.filev6Open] at opened
  obtain ⟨allocated, -⟩ := filev6Open_ok opened
  have is := namespaceOf_of_allocated allocated
  rw [holds] at is
  rcases node with none | empty
  · rw [none] at is
    cases is
  · rw [empty, Option.some.injEq, ← nodeOf_created w mode, nodeOf, nodeOf, file,
      fileContent_created] at is
    have body := congrArg Node.body is
    simp only [Bool.false_eq_true, if_false] at body
    split at body
    · cases body
    · have length := fileContent_length w fv6.iNode (well.whole allocated)
      rw [Body.file.injEq] at body
      rw [← length, ← body]
      rfl

/-- `direntv6_addfile` does the same as on the repaired machine, or leaves a stage of the
creation. -/
theorem direntv6Addfile_stops {room : Bool} (free : HasRoom u room) {mode : UInt16}
    {buf : List UInt8} (file : (Inode.zero.created mode).isDirectory = false)
    (ready : (namespaceOf u).ReadyFile u.s.lastScanned entry buf) :
    ∃ code b, direntv6Addfile (u.on host) entry mode buf = some (code, b) ∧
      ((∃ u', direntv6Addfile u entry mode buf = some (code, u') ∧ b = u'.on host) ∨
        ∃ ns ∈ (namespaceOf u).creations room entry mode, CutOff host k u.s b ns) := by
  obtain ⟨code, b, created, outcome⟩ :=
    direntv6Create_stops stops healthy machine room mode ready.toReady
  rcases outcome with ⟨u₁, first, rfl⟩ | ⟨number, ns, stage, mem, cut⟩
  · obtain ⟨v₁, again, leaves, entered⟩ :=
      direntv6Create_creates healthy free mode ready.toReady
    rw [first, Option.some.injEq, Prod.mk.injEq] at again
    obtain ⟨rfl, rfl⟩ := again
    by_cases negative : ((namespaceOf u).create room entry mode).1 < 0
    · rw [direntv6Addfile, created, direntv6Addfile, first]
      simp only [if_pos negative]
      exact ⟨_, _, rfl, .inl ⟨u₁, rfl, rfl⟩⟩
    · obtain ⟨parent, resolved, number, there, marks⟩ := entered (Int.not_lt.mp negative)
      have working := leaves.toWorking
      have stage := (namespaceOf u).creations_end room entry mode
      rw [← leaves.holds] at stage
      rw [number] at created first
      have machine' := (direntv6Create_touches first).disk.host.trans machine
      rcases running_or_stopped host k machine' with next | stopped
      · obtain ⟨ret, b, run, outcome⟩ := working.addfile_stops stops next there first created
          ready.short fun nothing => marks (ready.single nothing parent resolved)
        rw [leaves.s] at outcome
        refine ⟨ret, b, run, ?_⟩
        rcases outcome with same | cut
        · exact .inl same
        · exact .inr ⟨_, stage, cut⟩
      · have cut := working.cutOff stopped
        obtain ⟨ret, b, run⟩ := direntv6Addfile_returns created (.inr rfl) ready.short
          fun fv6 => cut.open_empty stops file (.inr (by
            rw [namespaceOf_of_allocated there, nodeOf_created]))
        obtain ⟨inr, v, again, touches⟩ := direntv6Addfile_touches run
        rw [created, Option.some.injEq, Prod.mk.injEq] at again
        rw [← again.2] at touches
        rw [leaves.s] at cut
        exact ⟨ret, b, run, .inr ⟨_, stage, cut.touches stops touches⟩⟩
  · obtain ⟨unused, -⟩ := nextNumber_spec ready.number.1
    obtain ⟨ret, b', run⟩ := direntv6Addfile_returns created number ready.short
      fun fv6 => cut.open_empty stops file (by
        rcases stage with rfl | rfl
        · exact .inl unused
        · rw [Namespace.store_apply, if_pos rfl]
          exact .inr rfl)
    obtain ⟨inr, v, again, touches⟩ := direntv6Addfile_touches run
    rw [created, Option.some.injEq, Prod.mk.injEq] at again
    rw [← again.2] at touches
    exact ⟨ret, b', run, .inr ⟨ns, mem, cut.touches stops touches⟩⟩

end Calls

section Process

variable {v : UnixFilesystem} (healthy : Healthy v) {host : Host}

include healthy

/-- The volume on the repaired machine. -/
theorem Healthy.repaired (host : Host) : Healthy (v.on host.repaired) ∧
    namespaceOf (v.on host.repaired) = namespaceOf v := by
  have alike : ReadsAlike v (v.on host.repaired) := by
    refine ⟨rfl, fun x => ?_⟩
    rw [sectorRead_faultless (f := (v.on host.repaired).f) host.repaired_faultless,
      sectorRead_faultless healthy.image.regions.works]
    rfl
  obtain ⟨w, mounted, -, well, holds⟩ :=
    healthy.recovers (v.f.on host.repaired) rfl host.repaired_faultless
  have again : mountv6 (v.f.on host.repaired) = .ok (v.on host.repaired) :=
    mountv6_alike alike.read healthy.mounted
  rw [mounted, Except.ok.injEq] at again
  rw [again] at well holds
  exact ⟨well, holds⟩

variable {k : Nat} (stops : host.StopsAt k)

include stops

/-- A machine that stops mounts the volume. -/
theorem Healthy.mounted_on : mountv6 (v.on host).f = .ok (v.on host) :=
  mountv6_alike (@alike_stops host k stops v (v.on host) rfl rfl rfl
    healthy.image.regions.works).read healthy.mounted

variable {env : Environment} {room : Bool} (free : HasRoom v room)
  (admits : (namespaceOf v).Admits v.s.lastScanned env.request)

include free admits

/-- A process with a request to create or to add, on a machine that stops, returns and leaves a
stage of its request. -/
theorem Healthy.cut_returns (writes : env.request ≠ .read) (fuel : Nat) :
    ∃ code output f, env.u6fsDoOneCmd fuel (v.f.on host) = some (code, output, f) ∧
      ∃ ns ∈ (namespaceOf v).stages room env.request, Recovers v.s f.sectors ns := by
  have mounted := healthy.mounted_on stops
  obtain ⟨well, holds⟩ := healthy.repaired host
  have there : v.f.on host = ((v.on host.repaired).on host).f := rfl
  have mounted' : mountv6 ((v.on host.repaired).on host).f = .ok ((v.on host.repaired).on host) :=
    mounted
  have super : (v.on host.repaired).s = v.s := rfl
  have room' : HasRoom (v.on host.repaired) room := free
  have machine : (v.on host.repaired).f.host = host.repaired := rfl
  rw [there, ← holds]
  rw [← holds, ← super] at admits
  rw [← super]
  generalize v.on host.repaired = u at *
  have finishes : ∀ {u' : UnixFilesystem} {ns : Volume}, Leaves u u' ns →
      Recovers u.s (u'.on host).f.sectors ns := by
    intro u' ns leaves
    rw [← leaves.holds, ← leaves.s]
    exact leaves.toWorking.recovers
  cases asks : env.request with
  | read => exact absurd asks writes
  | mkdir entry =>
    rw [asks] at admits
    obtain ⟨opens, is, rfl⟩ := request_eq_mkdir asks
    obtain ⟨create, b, created, outcome⟩ :=
      direntv6Create_stops stops well machine room ifdir admits
    rw [u6fsDoOneCmd_eq opens is mounted', runCommand_mkdir is, created]
    refine ⟨_, _, _, rfl, ?_⟩
    rcases outcome with ⟨u', first, rfl⟩ | ⟨-, ns, -, stage, cut⟩
    · obtain ⟨u'', again, leaves, -⟩ := direntv6Create_creates well room' ifdir admits
      rw [first, Option.some.injEq, Prod.mk.injEq] at again
      rw [← again.2] at leaves
      exact ⟨_, (namespaceOf u).creations_end room (env.argv.getD 3 []) ifdir, finishes leaves⟩
    · exact ⟨ns, stage, cut.recovers⟩
  | add entry buf =>
    rw [asks] at admits
    obtain ⟨opens, is, rfl, read⟩ := request_eq_add asks
    have file : (Inode.zero.created allRights).isDirectory = false := by decide
    obtain ⟨error, b, added, outcome⟩ :=
      direntv6Addfile_stops stops well machine room' file admits
    rw [u6fsDoOneCmd_eq opens is mounted', runCommand_add is read, added]
    refine ⟨_, _, _, rfl, ?_⟩
    rcases outcome with ⟨u', first, rfl⟩ | ⟨ns, stage, cut⟩
    · obtain ⟨u'', again, leaves⟩ := direntv6Addfile_adds well room' file admits
      rw [first, Option.some.injEq, Prod.mk.injEq] at again
      rw [← again.2] at leaves
      exact ⟨_, List.mem_append_right _ (List.mem_singleton_self _), finishes leaves⟩
    · exact ⟨ns, List.mem_append_left _ stage, cut.recovers⟩

/-- A process that returns, on a machine that stops, leaves a stage of its request. -/
theorem Healthy.stage {fuel : Nat} {code : Int} {output : Output} {f : Disk}
    (run : env.u6fsDoOneCmd fuel (v.f.on host) = some (code, output, f)) :
    ∃ ns ∈ (namespaceOf v).stages room env.request, Recovers v.s f.sectors ns := by
  by_cases reads : env.request = .read
  · rw [u6fsDoOneCmd_reads (healthy.mounted_on stops) reads run]
    exact ⟨_, (namespaceOf v).stages_start room env.request, healthy.recovers⟩
  · obtain ⟨code', output', f', run', stage⟩ :=
      healthy.cut_returns stops free admits reads fuel
    rw [run, Option.some.injEq, Prod.mk.injEq, Prod.mk.injEq] at run'
    obtain ⟨-, -, rfl⟩ := run'
    exact stage

end Process

/-- When the machine stops while a process runs on a volume in good health, the disk file can be
mounted again by a machine that works, in good health, and its files and directories are those at
one of the stages of the request. The process is not kept from returning before it is cut off. -/
theorem crash_recovers {v : UnixFilesystem} (healthy : Healthy v) {host : Host} {k : Nat}
    (stops : host.StopsAt k) {room : Bool} (free : HasRoom v room) {env : Environment}
    (admits : (namespaceOf v).Admits v.s.lastScanned env.request) (fuel : Nat) :
    (env.request ≠ .read → (env.u6fsDoOneCmd fuel (v.f.on host)).isSome = true) ∧
      ∀ code output f, env.u6fsDoOneCmd fuel (v.f.on host) = some (code, output, f) →
        ∃ ns ∈ (namespaceOf v).stages room env.request, Recovers v.s f.sectors ns := by
  constructor
  · intro writes
    obtain ⟨code, output, f, run, -⟩ := healthy.cut_returns stops free admits writes fuel
    rw [run]
    rfl
  · intro code output f run
    exact healthy.stage stops free admits run

/-- A host that loses all writes from a time on, without notice. -/
def stoppingHost (k : Nat) : Host where
  seekFails _ _ := false
  freadFails _ _ := false
  seekWriteFails _ _ := false
  fwriteFails time _ := decide (k ≤ time)
  stack _ := Block.fill sectorSize 0

/-- It stops then. -/
theorem stoppingHost_stops (k : Nat) : (stoppingHost k).StopsAt k := by
  constructor
  · intro time x
    exact ⟨rfl, rfl⟩
  · intro time early x
    exact ⟨rfl, decide_eq_false (Nat.not_le.mpr early)⟩
  · intro time late x
    exact .inr (decide_eq_true late)

/-- `mkdir /a` on the empty volume is cut off after the first write, and the volume recovers. -/
theorem crash_recovers_empty : ∃ v room, mountv6 emptyVolume = .ok v ∧
    (mkdirEnvironment.u6fsDoOneCmd 0 (v.f.on (stoppingHost 1))).isSome = true ∧
    ∀ code output f,
      mkdirEnvironment.u6fsDoOneCmd 0 (v.f.on (stoppingHost 1)) = some (code, output, f) →
        ∃ ns ∈ (namespaceOf v).stages room mkdirEnvironment.request, Recovers v.s f.sectors ns := by
  obtain ⟨v, output, f, v', output', f', mounted, admits, -⟩ := emptyVolume_commands
  obtain ⟨room, free⟩ := exists_hasRoom v
  obtain ⟨returns, recovers⟩ :=
    crash_recovers (emptyVolume_healthy mounted) (stoppingHost_stops 1) free admits 0
  exact ⟨v, room, mounted, returns (by decide), recovers⟩

end U6fs
