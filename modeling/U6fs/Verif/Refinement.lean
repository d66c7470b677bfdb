import U6fs.Verif.Growth
import U6fs.Verif.VolumeRuns

/-!
# The library calls refine the volume

On a volume in good health `direntv6_create` and `direntv6_addfile` return what the volume of
`Spec.Namespace` returns, and leave a volume whose files and directories are those that it has then,
for paths that are ready. The number of a new file is the smallest one that is not in use, and a
sector is free when the sector bitmap has a clear bit.
-/
namespace U6fs

open Lib

/-- A sector is free. -/
def HasRoom (u : UnixFilesystem) (room : Bool) : Prop := room = true ↔ ∃ x, bmGet u.fbm x = 0

namespace Healthy

variable {u : UnixFilesystem} (healthy : Healthy u)

include healthy

/-- The bit of a number in the table is clear when the number is not in use. -/
theorem bmGet_ibm {n : UInt16} (low : 1 ≤ n.toNat) (high : n.toNat ≤ u.s.lastScanned) :
    bmGet u.ibm n.toNat = 0 ↔ namespaceOf u n = none := by
  have size := healthy.geometry.size
  have range := healthy.geometry.ranges.ibm
  rw [bmGet_eq_zero_iff, namespaceOf_eq_none_iff, healthy.coherent.ibm, range.1, range.2]
  rw [Superblock.lastScanned] at high
  rw [Superblock.inodes, Superblock.lastScanned]
  constructor
  · rintro ⟨-, unmarked⟩ used
    exact unmarked ⟨high, used⟩
  · intro unused
    refine ⟨⟨low, by omega⟩, ?_⟩
    rintro ⟨-, used⟩
    exact unused used

section Number

variable (number : 1 ≤ (namespaceOf u).nextNumber.toNat ∧
  (namespaceOf u).nextNumber.toNat ≤ u.s.lastScanned)

include number

/-- The number that is reserved is the next one. -/
theorem reserved_eq {u₁ : UnixFilesystem} {x : Nat} (reserved : Reserved u u₁ x) :
    x = (namespaceOf u).nextNumber.toNat := by
  obtain ⟨unused, before⟩ := nextNumber_spec number.1
  have swept := healthy.coherent.swept
  have free := (healthy.bmGet_ibm number.1 number.2).mpr unused
  have most := reserved.least swept _ free
  have range := ((bmGet_eq_zero_iff _ _).mp reserved.free).1
  rw [healthy.geometry.ranges.ibm.1] at range
  by_contra other
  have same : (UInt16.ofNat x).toNat = x := by
    rw [UInt16.toNat_ofNat']
    have bound := (namespaceOf u).nextNumber.toNat_lt
    exact Nat.mod_eq_of_lt (by omega)
  have used := before (UInt16.ofNat x) (by omega) (by omega)
  apply used
  apply (healthy.bmGet_ibm (by omega) (by omega)).mp
  rw [same]
  exact reserved.free

/-- `filev6_create` stores an inode under the next number. -/
theorem filev6Create_stores (mode : UInt16) (fv6 : Filev6) :
    ∃ u₁, filev6Create u mode fv6 = (errNone, u₁,
        { iNumber := (namespaceOf u).nextNumber, iNode := fv6.iNode.created mode, offset := 0 }) ∧
      u₁.fbm = u.fbm ∧ Reserved u u₁ (namespaceOf u).nextNumber.toNat ∧
      Stored u.f u₁.f u.s (namespaceOf u).nextNumber.toNat (fv6.iNode.created mode) := by
  have geometry := healthy.geometry
  have size := geometry.size
  have high := number.2
  rw [Superblock.lastScanned] at high
  rw [filev6Create]
  cases run : inodeAlloc u with
  | mk inr u₁ =>
    obtain ⟨ibm, rfl, ⟨x, rfl, taken⟩ | ⟨-, -, -, full⟩⟩ := inodeAlloc_reserves geometry.ranges run
    · obtain rfl := healthy.reserved_eq number taken
      have next : Geometry { u with ibm } :=
        geometry.congr rfl rfl le_rfl taken.range ⟨rfl, rfl⟩
      have inRange : inodeOutOfRange u.s (namespaceOf u).nextNumber = false := by
        apply (inodeOutOfRange_eq_false_iff _ _).mpr
        have inodes : u.s.inodes = 16 * u.s.sIsize.toNat := rfl
        omega
      obtain ⟨f', written, stored⟩ := next.inodeWrite_spec inRange (fv6.iNode.created mode)
      have same : UInt16.ofNat (namespaceOf u).nextNumber.toNat = (namespaceOf u).nextNumber :=
        UInt16.ofNat_toNat
      refine ⟨{ u with ibm, f := f' }, ?_, rfl, ?_, stored⟩
      · simp only [Int.toNat_natCast, same]
        rw [if_neg (by omega), written]
        rfl
      · exact ⟨taken.free, taken.least, taken.swept, rfl, taken.range, taken.ibm, .refl _⟩
    · exact absurd ((healthy.bmGet_ibm number.1 number.2).mpr (nextNumber_spec number.1).1)
        (full _)

end Number

end Healthy

/-- After a call the volume can be worked on, and holds certain files and directories. -/
structure Leaves (u u' : UnixFilesystem) (ns : Volume) : Prop extends Working u' where
  /-- The superblock is as before. -/
  s : u'.s = u.s
  /-- The sector bits are as before. -/
  fbm : u'.fbm.SameBits u.fbm
  /-- The files and directories. -/
  holds : namespaceOf u' = ns

/-- A directory has as many records as its sectors can hold when its size is that of its sectors. -/
theorem fillsSectors_iff {u : UnixFilesystem} (sound : Sound u) {parent : UInt16} {inode : Inode}
    (allocated : u.f.Allocated u.s parent.toNat inode) (directory : inode.isDirectory = true) :
    (namespaceOf u).FillsSectors parent ↔ TakesSector (inodeGetsize inode) 16 := by
  have length := sound.entries_length allocated directory
  rw [Volume.FillsSectors, entries_of_allocated allocated directory, TakesSector]
  omega

/-- A name is entered in a directory: an empty inode is stored under the next number, and then a
record is appended to the directory, as far as that works. -/
structure Entering (u u₁ u' : UnixFilesystem) (entry name : List UInt8) (mode parent : UInt16)
    (inode inode' : Inode) (dName : Vector UInt8 direntMaxlen) (written : Int) : Prop where
  /-- The directory is in use. -/
  allocated : u.f.Allocated u.s parent.toNat inode
  /-- It stays below 4096 bytes. -/
  small : inodeGetsize inode + 16 < 4096
  /-- The inode is stored. -/
  begun : Begun u u₁ entry name mode parent inode (namespaceOf u).nextNumber.toNat
  /-- That leaves a volume to work on, with the directory as it was. -/
  started : Working u₁ ∧ u₁.f.Allocated u₁.s parent.toNat inode
  /-- It has a node more. -/
  stored : namespaceOf u₁ = (namespaceOf u).store (namespaceOf u).nextNumber (emptyNode mode)
  /-- The sectors of files are marked. -/
  marked : OwnersMarked u₁
  /-- The name is copied. -/
  copied : strcpyDName name = some dName
  /-- The record is appended. -/
  appended : Appends u₁ u' parent inode inode'
    (direntCodec.encode { dInumber := (namespaceOf u).nextNumber, dName }) written
  /-- `filev6_create` stores the inode. -/
  created : filev6Create u mode { iNumber := 0, iNode := Inode.zero, offset := 0 } =
    (errNone, u₁, { iNumber := (namespaceOf u).nextNumber, iNode := Inode.zero.created mode
                    offset := 0 })
  /-- `filev6_writebytes` appends the record. -/
  wrote : filev6Writebytes u₁ { iNumber := parent, iNode := inode, offset := 0 }
      (direntCodec.encode { dInumber := (namespaceOf u).nextNumber, dName }) =
    some (written, u', { iNumber := parent, iNode := inode', offset := 0 })

/-- A record has 16 bytes. -/
theorem encode_record (n : UInt16) (dName : Vector UInt8 direntMaxlen) :
    (direntCodec.encode { dInumber := n, dName }).length = 16 := by
  rw [direntCodec.encode_length, direntCodec_width]

/-- What `create_dirent` does after it has created a file and opened the directory. -/
theorem createDirent_eq {v v₁ : UnixFilesystem} {mode parent : UInt16} {name : List UInt8}
    {child fv6 : Filev6} {dName : Vector UInt8 direntMaxlen}
    (created : filev6Create v mode { iNumber := 0, iNode := Inode.zero, offset := 0 } =
      (errNone, v₁, child)) (copied : strcpyDName name = some dName)
    (opened : filev6Open v₁ parent = .ok fv6) : createDirent v mode name parent =
      (filev6Writebytes v₁ fv6 (direntCodec.encode { dInumber := child.iNumber, dName })).map
        fun (written, u, _) =>
          (if written < 0 then written else (child.iNumber.toNat : Int), u) := by
  rw [createDirent, created]
  simp only [copied, opened, errNone, Int.lt_irrefl, if_false]
  rcases filev6Writebytes v₁ fv6 (direntCodec.encode { dInumber := child.iNumber, dName }) with
    _ | ⟨written, u, rest⟩
  · rfl
  · rw [Option.map_some]
    by_cases negative : written < 0
    · simp only [if_pos negative]
    · simp only [if_neg negative]

/-- The checks before a creation pass a name without a slash. -/
theorem check_name {u : UnixFilesystem} {entry name : List UInt8} {parent : UInt16}
    (check : createCheck u entry = some (.ok (name, parent))) : pathToken ∉ name := by
  obtain ⟨path, found, cut, -⟩ := (createCheck_eq_ok u).mp check
  exact splitNameDirentv6Create_name cut

section Create

variable {u : UnixFilesystem} (healthy : Healthy u) {entry name : List UInt8} {parent : UInt16}
  (number : 1 ≤ (namespaceOf u).nextNumber.toNat ∧
    (namespaceOf u).nextNumber.toNat ≤ u.s.lastScanned)

include healthy number

/-- A creation that passes its checks enters the name. -/
theorem createDirent_entering (mode : UInt16)
    (check : createCheck u entry = some (.ok (name, parent))) (short : name.length < 14)
    (records : ((namespaceOf u).entries parent).length < 255) :
    ∃ inode u₁ dName written u' inode',
      Entering u u₁ u' entry name mode parent inode inode' dName written := by
  obtain ⟨path, found, cut, lookup, positive, is, absent⟩ := (createCheck_eq_ok u).mp check
  obtain ⟨inode, allocated, directory⟩ :=
    directory_of_absent (splitNameDirentv6Create_name cut) absent
  have length := healthy.entries_length allocated directory
  rw [entries_of_allocated allocated directory] at records
  have small : inodeGetsize inode + 16 < 4096 := by omega
  obtain ⟨u₁, created, fbm, reserved, stored⟩ := healthy.filev6Create_stores number mode
    { iNumber := 0, iNode := Inode.zero, offset := 0 }
  have unused := namespaceOf_eq_none_iff.mp (nextNumber_spec number.1).1
  have begun : Begun u u₁ entry name mode parent inode (namespaceOf u).nextNumber.toNat :=
    ⟨parentOf_eq_some.mpr ⟨path, found, cut, lookup, positive, is, absent, allocated⟩, directory,
      absent, stored.inside, fbm, reserved, stored⟩
  have working := healthy.working
  have changed := begun.changed working unused
  have started := working.started begun unused number.2
  have there : u₁.f.Allocated u₁.s parent.toNat inode := by
    rw [changed.s]
    apply (changed.others _ inode _).mpr allocated
    intro same
    rw [← same] at unused
    exact unused ⟨inode, allocated⟩
  obtain ⟨dName, copied⟩ : ∃ dName, strcpyDName name = some dName := by
    rw [strcpyDName]
    exact ⟨_, dif_pos short⟩
  have width := encode_record (namespaceOf u).nextNumber dName
  obtain ⟨written, u', inode', wrote, result⟩ := started.intact.geometry.filev6Writebytes_spec
    { iNumber := parent, iNode := inode, offset := 0 }
    (direntCodec.encode { dInumber := (namespaceOf u).nextNumber, dName }) there.inRange
    (.inr (by rw [width]; exact small)) (started.intact.last _ inode there)
  have appended := result.resolve_left (by
    rintro ⟨-, large, -⟩
    change 1792 < inodeGetsize inode / 512 + 1 at large
    omega)
  refine ⟨inode, u₁, dName, written, u', inode', allocated, small, begun, ⟨started, there⟩, ?_,
    (working.owned.begun begun).2 healthy.ownersMarked, copied, appended, created, wrote⟩
  rw [changed.namespaceOf_eq, nodeOf_created]

/-- `create_dirent` enters a name in a directory. -/
theorem createDirent_enters {room : Bool} (free : HasRoom u room) (mode : UInt16)
    (check : createCheck u entry = some (.ok (name, parent))) (plain : 0 ∉ name)
    (short : name.length < 14) (records : ((namespaceOf u).entries parent).length < 255) :
    ∃ u', createDirent u mode name parent =
        some (((namespaceOf u).enter room parent name mode).1, u') ∧
      Leaves u u' ((namespaceOf u).enter room parent name mode).2 ∧
      (¬(namespaceOf u).FillsSectors parent → OwnersMarked u') ∧
      u'.f.Allocated u'.s (namespaceOf u).nextNumber.toNat (Inode.zero.created mode) := by
  have working := healthy.working
  obtain ⟨inode, u₁, dName, written, u', inode', entering⟩ :=
    createDirent_entering healthy number mode check short records
  have allocated := entering.allocated
  have begun := entering.begun
  have appended := entering.appended
  have small := entering.small
  have unused := namespaceOf_eq_none_iff.mp (nextNumber_spec number.1).1
  have directory := begun.directory
  have changed := begun.changed working unused
  obtain ⟨started, there⟩ := entering.started
  have apart : parent.toNat ≠ (namespaceOf u).nextNumber.toNat := by
    intro same
    rw [← same] at unused
    exact unused ⟨inode, allocated⟩
  have width := encode_record (namespaceOf u).nextNumber dName
  have whole := healthy.image.whole _ inode allocated directory
  have fills := fillsSectors_iff healthy.toSound allocated directory
  have all := entering.marked
  have store := entering.stored
  have run : createDirent u mode name parent =
      some (if written < 0 then written else ((namespaceOf u).nextNumber.toNat : Int), u') := by
    have opened := filev6Open_of_allocated started.intact.geometry.works there
    rw [createDirent_eq entering.created entering.copied opened, entering.wrote]
    rfl
  obtain ⟨owned, intact, marks, effect⟩ := started.appends there
    (by rw [← List.length_pos_iff, width]; omega) (by rw [width]; omega) (by rw [width]; omega)
    (by rw [width]; omega) (fun _ => all) appended
  have bits : u'.fbm.SameBits u.fbm := by
    have same := appended.framed.fbm
    rwa [begun.fbm] at same
  have outcome := appended.outcome
  rw [width, ← fills] at marks outcome
  rcases effect with ⟨rfl, grew⟩ | ⟨rfl, f, s⟩
  · -- the record is there, so a sector was free if it took one
    have fits : ¬((namespaceOf u).FillsSectors parent ∧ room = false) := by
      rintro ⟨full, none⟩
      rcases outcome with ⟨-, taken⟩ | ⟨wrong, -⟩
      · rw [begun.fbm] at taken
        have some := free.mpr (taken full)
        rw [none] at some
        cases some
      · exact absurd wrong (by decide)
    have slash := check_name check
    obtain ⟨nonempty, absent, -⟩ := absent_of_lookup healthy.geometry.works healthy.image.whole
      allocated directory slash begun.absent
    have fresh : name ∉ (dirEntries u₁ inode).map Prod.snd := by
      rw [dirEntries, changed.read _ inode apart allocated]
      exact findName_eq_none_iff.mp absent
    have used : u₁.f.InUse u₁.s (namespaceOf u).nextNumber.toNat := by
      rw [changed.s]
      exact ⟨_, changed.stored⟩
    obtain ⟨working', record⟩ := started.recorded there directory plain slash nonempty fresh used
      (by omega) entering.copied grew owned intact
    refine ⟨u', ?_, ⟨working', grew.changed.s.trans changed.s, bits, ?_⟩,
      fun partly => marks partly all, ?_⟩
    · rw [run, Volume.enter, if_neg fits, if_neg (by decide)]
    · rw [record, store, Volume.enter, if_neg fits]
    · rw [grew.changed.s]
      apply (grew.changed.others _ _ (Ne.symm apart)).mpr
      rw [changed.s]
      exact changed.stored
  · -- no sector is free, so the new file stays without a record
    rcases outcome with ⟨wrong, -⟩ | ⟨-, full, none⟩
    · exact absurd wrong (by decide)
    · have blocked : (namespaceOf u).FillsSectors parent ∧ room = false := by
        refine ⟨full, Bool.eq_false_iff.mpr fun some => ?_⟩
        obtain ⟨x, clear⟩ := free.mp some
        rw [begun.fbm] at none
        exact none x clear
      refine ⟨u', ?_, ⟨started.congr f s owned intact, s.trans changed.s, bits, ?_⟩,
        fun partly => absurd full partly, ?_⟩
      · rw [run, Volume.enter, if_pos blocked, if_pos (by decide)]
      · rw [namespaceOf_congr f s, store, Volume.enter, if_pos blocked]
      · rw [f, s, changed.s]
        exact changed.stored

end Create

/-- Bytes are appended to a new file. -/
theorem Working.appends_new {u : UnixFilesystem} (working : Working u) {n mode : UInt16}
    {buf : List UInt8} (there : u.f.Allocated u.s n.toNat (Inode.zero.created mode))
    (short : buf.length < 512) : ∃ written u' inode',
      filev6Writebytes u { iNumber := n, iNode := Inode.zero.created mode, offset := 0 } buf =
        some (written, u', { iNumber := n, iNode := inode', offset := 0 }) ∧
      Appends u u' n (Inode.zero.created mode) inode' buf written := by
  have empty := inodeGetsize_zero_created mode
  obtain ⟨written, u', inode', wrote, result⟩ := working.intact.geometry.filev6Writebytes_spec
    { iNumber := n, iNode := Inode.zero.created mode, offset := 0 } buf there.inRange
    (.inr (by rw [empty]; omega)) (fun residual => absurd (by rw [empty]) residual)
  refine ⟨written, u', inode', wrote, result.resolve_left ?_⟩
  rintro ⟨-, large, -⟩
  rw [empty] at large
  omega

/-- What `direntv6_addfile` does after it has created a file and opened it. -/
theorem direntv6Addfile_eq {v v₁ : UnixFilesystem} {entry buf : List UInt8} {mode : UInt16}
    {n : UInt16} {inode : Inode}
    (created : direntv6Create v entry mode = some ((n.toNat : Int), v₁))
    (read : inodeRead v₁ n Inode.zero = (errNone, inode))
    (opened : filev6Open v₁ n = .ok { iNumber := n, iNode := inode, offset := 0 }) :
    direntv6Addfile v entry mode buf =
      (filev6Writebytes v₁ { iNumber := n, iNode := inode, offset := 0 } buf).map
        fun (written, u, _) => (if written < 0 then written else errNone, u) := by
  have number : UInt16.ofNat ((n.toNat : Int)).toNat = n := by
    rw [Int.toNat_natCast, UInt16.ofNat_toNat]
  rw [direntv6Addfile, created]
  simp only [number, read, opened]
  rw [if_neg (by omega), if_neg (by decide)]
  rcases filev6Writebytes v₁ { iNumber := n, iNode := inode, offset := 0 } buf with
    _ | ⟨written, u, rest⟩ <;> rfl

section Calls

variable {u : UnixFilesystem} (healthy : Healthy u) {entry : List UInt8} {room : Bool}
  (free : HasRoom u room)

include healthy free

/-- `direntv6_create` creates a file or directory under a path, if the path is ready. -/
theorem direntv6Create_creates (mode : UInt16)
    (ready : (namespaceOf u).Ready u.s.lastScanned entry) :
    ∃ u', direntv6Create u entry mode =
        some (((namespaceOf u).create room entry mode).1, u') ∧
      Leaves u u' ((namespaceOf u).create room entry mode).2 ∧
      (0 ≤ ((namespaceOf u).create room entry mode).1 → ∃ parent,
        (namespaceOf u).resolve 1 (splitPath entry).1 = .ok parent ∧
        ((namespaceOf u).create room entry mode).1 = ((namespaceOf u).nextNumber.toNat : Int) ∧
        u'.f.Allocated u'.s (namespaceOf u).nextNumber.toNat (Inode.zero.created mode) ∧
        (¬(namespaceOf u).FillsSectors parent → OwnersMarked u')) := by
  rw [direntv6Create_eq]
  rcases healthy.createCheck_cases entry with
    ⟨code, negative, check, created⟩ | ⟨parent, check, resolved, short, slash, created⟩
  · rw [check, created room mode]
    refine ⟨u, rfl, ⟨healthy.working, rfl, .refl _, rfl⟩, fun positive => ?_⟩
    exact absurd negative (Int.not_lt.mpr positive)
  · have plain : 0 ∉ (splitPath entry).2 := by
      obtain ⟨path, found, cut, -⟩ := (createCheck_eq_ok u).mp check
      obtain ⟨slashes, is, -⟩ := ((splitNameDirentv6Create_spec entry).2 _ path cut).parts
      intro mem
      apply ready.plain
      rw [is]
      exact List.mem_append_right _ mem
    have fits : (splitPath entry).2.length < 14 := by
      have other := ready.name
      omega
    rw [check, created room mode]
    obtain ⟨u', run, leaves, marks, there⟩ := createDirent_enters healthy ready.number free mode
      check plain fits (ready.parent parent resolved)
    refine ⟨u', run, leaves, fun positive => ⟨parent, resolved, ?_, there, marks⟩⟩
    rw [Volume.enter] at positive ⊢
    split
    · rename_i blocked
      rw [if_pos blocked] at positive
      have negative : ¬(0 : Int) ≤ errBitmapFull := by decide
      exact absurd positive negative
    · rfl

/-- `direntv6_addfile` adds a file under a path, if the path and the content are ready. -/
theorem direntv6Addfile_adds {mode : UInt16} {buf : List UInt8}
    (file : (Inode.zero.created mode).isDirectory = false)
    (ready : (namespaceOf u).ReadyFile u.s.lastScanned entry buf) :
    ∃ u', direntv6Addfile u entry mode buf =
        some (((namespaceOf u).addfile room entry mode buf).1, u') ∧
      Leaves u u' ((namespaceOf u).addfile room entry mode buf).2 := by
  obtain ⟨u₁, run, leaves, entered⟩ := direntv6Create_creates healthy free mode ready.toReady
  cases created : (namespaceOf u).create room entry mode with
  | mk code ns =>
    rw [created] at leaves entered
    simp only at leaves entered
    by_cases negative : code < 0
    · refine ⟨u₁, ?_, ?_⟩
      · rw [direntv6Addfile, run, Volume.addfile, created]
        simp only [if_pos negative]
      · rw [Volume.addfile, created]
        simp only [if_pos negative]
        exact leaves
    · obtain ⟨parent, resolved, rfl, there, marks⟩ := entered (Int.not_lt.mp negative)
      have number : UInt16.ofNat ((namespaceOf u).nextNumber.toNat : Int).toNat =
          (namespaceOf u).nextNumber := by
        rw [Int.toNat_natCast, UInt16.ofNat_toNat]
      have empty := inodeGetsize_zero_created mode
      have working := leaves.toWorking
      have geometry := working.intact.geometry
      have short := ready.short
      obtain ⟨written, u', inode', wrote, appended⟩ := working.appends_new there short
      have call : direntv6Addfile u entry mode buf =
          some (if written < 0 then written else errNone, u') := by
        rw [created] at run
        rw [direntv6Addfile_eq run (inodeRead_of_allocated geometry.works there Inode.zero)
          (filev6Open_of_allocated geometry.works there), wrote]
        rfl
      have outcome := appended.outcome
      rw [empty] at outcome
      by_cases nothing : buf = []
      · -- the file is created and stays empty
        subst nothing
        obtain ⟨rfl, rfl⟩ := appended.nothing (by rw [empty])
        have none : written = errNone := by
          rcases outcome with ⟨none, -⟩ | ⟨-, takes, -⟩
          · exact none
          · exact absurd takes (by decide)
        refine ⟨u', ?_, ?_⟩
        · rw [call, none, Volume.addfile, created]
          simp only [if_neg negative, if_pos, if_neg (Int.lt_irrefl errNone)]
        · rw [Volume.addfile, created]
          simp only [if_neg negative, if_pos]
          exact leaves
      · -- the content takes a sector, and the record has taken none
        have takes : TakesSector 0 buf.length := List.length_pos_of_ne_nil nothing
        obtain ⟨owned, intact, -, effect⟩ := working.appends there nothing short
          (by rw [empty]; omega) (by rw [empty]; omega)
          (fun _ => marks (ready.single nothing parent resolved)) appended
        rcases effect with ⟨rfl, grew⟩ | ⟨rfl, f, s⟩
        · have some : room = true := by
            rcases outcome with ⟨-, taken⟩ | ⟨wrong, -⟩
            · obtain ⟨x, clear⟩ := taken takes
              rw [leaves.fbm.get] at clear
              exact free.mpr ⟨x, clear⟩
            · exact absurd wrong (by decide)
          obtain ⟨working', filled⟩ :=
            working.filled there file empty short grew owned intact
          refine ⟨u', ?_, working', grew.changed.s.trans leaves.s,
            appended.framed.fbm.trans leaves.fbm, ?_⟩
          · rw [call, Volume.addfile, created]
            simp only [if_neg negative, if_neg nothing, some, Bool.true_eq_false, if_false,
              if_neg (Int.lt_irrefl errNone)]
          · rw [filled, leaves.holds, Volume.addfile, created]
            simp only [if_neg negative, if_neg nothing, some, Bool.true_eq_false, if_false, number]
        · have none : room = false := by
            rcases outcome with ⟨wrong, -⟩ | ⟨-, -, full⟩
            · exact absurd wrong (by decide)
            · refine Bool.eq_false_iff.mpr fun some => ?_
              obtain ⟨x, clear⟩ := free.mp some
              rw [← leaves.fbm.get] at clear
              exact full x clear
          refine ⟨u', ?_, working.congr f s owned intact, s.trans leaves.s,
            appended.framed.fbm.trans leaves.fbm, ?_⟩
          · rw [call, Volume.addfile, created]
            simp only [if_neg negative, if_neg nothing, if_pos none]
            rfl
          · rw [namespaceOf_congr f s, leaves.holds, Volume.addfile, created]
            simp only [if_neg negative, if_neg nothing, if_pos none]

end Calls

end U6fs
