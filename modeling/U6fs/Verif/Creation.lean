import U6fs.Verif.Scan
import U6fs.Verif.Writers

/-!
# Creating files, step by step

What `direntv6_create` and `direntv6_addfile` have done when they return: they have rejected the
request; or found no inode for it; or stored an empty inode, and then appended a record to the
parent directory, and then the content to the new file, as far as they got. Each of these steps
is described by `Writers` or `Effects`.
-/
namespace U6fs

open Lib

/-- The geometry depends on little of the state. -/
theorem Geometry.congr {u u' : UnixFilesystem} (geometry : Geometry u) (s : u'.s = u.s)
    (host : u'.f.host = u.f.host) (length : u.f.sectors.length ≤ u'.f.sectors.length)
    (ibm : u'.ibm.min = u.ibm.min ∧ u'.ibm.max = u.ibm.max)
    (fbm : u'.fbm.min = u.fbm.min ∧ u'.fbm.max = u.fbm.max) : Geometry u' where
  works := by rw [host]; exact geometry.works
  table := by rw [s]; exact geometry.table
  size := by rw [s]; exact geometry.size
  data := by rw [s]; exact geometry.data
  inside := by rw [s]; exact Nat.le_trans geometry.inside length
  ranges := ⟨by rw [ibm.1, ibm.2, s]; exact geometry.ranges.ibm,
    by rw [fbm.1, fbm.2, s]; exact geometry.ranges.fbm⟩

/-- A number in range, as the 16 bits that the code passes on. -/
theorem Geometry.toNat_ofNat {u : UnixFilesystem} (geometry : Geometry u) {inr : Nat}
    (inside : inr < u.s.inodes) : (UInt16.ofNat inr).toNat = inr := by
  have size := geometry.size
  rw [Superblock.inodes] at inside
  rw [UInt16.toNat_ofNat']
  exact Nat.mod_eq_of_lt (by omega)

/-- A file that opens is an allocated inode. -/
theorem filev6Open_ok {u : UnixFilesystem} {inr : UInt16} {fv6 : Filev6}
    (opened : filev6Open u inr = .ok fv6) :
    u.f.Allocated u.s inr.toNat fv6.iNode ∧
      fv6 = { iNumber := inr, iNode := fv6.iNode, offset := 0 } := by
  unfold filev6Open at opened
  cases read : inodeRead u inr Inode.zero with
  | mk error inode =>
    have allocated := @inodeRead_allocated u inr Inode.zero
    simp only [read] at opened allocated
    split at opened
    · cases opened
    · rename_i none
      cases opened
      exact ⟨allocated (not_not.mp none), rfl⟩

/-- The number of an allocated inode passes the range test. -/
theorem Disk.Allocated.inRange {f : Disk} {s : Superblock} {inr : UInt16} {inode : Inode}
    (allocated : f.Allocated s inr.toNat inode) : inodeOutOfRange s inr = false := by
  have there := allocated.1
  unfold Disk.inodeAt at there
  split at there
  · rename_i inside
    exact (inodeOutOfRange_eq_false_iff _ _).mpr inside
  · contradiction

/-- The table sector of an allocated inode is in the file. -/
theorem Disk.Allocated.present {f : Disk} {s : Superblock} {inr : UInt16} {inode : Inode}
    (allocated : f.Allocated s inr.toNat inode) : inodeSectorNb s inr < f.sectors.length := by
  have there := allocated.1
  unfold Disk.inodeAt at there
  split at there
  · obtain ⟨sector, found, -⟩ := Option.map_eq_some_iff.mp there
    rw [inodeSectorNb, Nat.add_comm]
    exact (List.getElem?_eq_some_iff.mp found).1
  · contradiction

/-- On a working machine an allocated inode is read. -/
theorem inodeRead_of_allocated {u : UnixFilesystem} (works : u.f.host.Faultless) {inr : UInt16}
    {found : Inode} (allocated : u.f.Allocated u.s inr.toNat found) (inode : Inode) :
    inodeRead u inr inode = (errNone, found) := by
  have inRange := allocated.inRange
  have there := allocated.1
  rw [inodeAt_eq u inRange, Option.map_eq_some_iff] at there
  obtain ⟨sector, present, rfl⟩ := there
  have read := sectorRead_faultless works (inodeSectorNb u.s inr)
  rw [present] at read
  simp only [inodeRead, inRange, Bool.false_eq_true, if_false, read, allocated.2, if_true]

/-- On a working machine an allocated inode is opened. -/
theorem filev6Open_of_allocated {u : UnixFilesystem} (works : u.f.host.Faultless) {inr : UInt16}
    {inode : Inode} (allocated : u.f.Allocated u.s inr.toNat inode) :
    filev6Open u inr = .ok { iNumber := inr, iNode := inode, offset := 0 } := by
  rw [filev6Open, inodeRead_of_allocated works allocated]
  exact if_neg (not_not.mpr rfl)

/-- What does not open is not in use. -/
theorem filev6Open_error {u : UnixFilesystem} (works : u.f.host.Faultless) {inr : UInt16}
    {code : Int} (failed : filev6Open u inr = .error code) :
    code < 0 ∧ ¬u.f.InUse u.s inr.toNat := by
  constructor
  · rw [filev6Open] at failed
    split at failed
    rename_i error inode read
    split at failed
    · rename_i failing
      cases failed
      rcases inodeRead_cases u inr Inode.zero with ⟨found, -, result⟩ | result | result
      · rw [result] at read
        cases read
        split at failing
        · exact absurd rfl failing
        · rename_i free
          rw [if_neg free]
          decide
      · rw [result] at read
        cases read
        decide
      · rw [result] at read
        cases read
        decide
    · cases failed
  · rintro ⟨inode, allocated⟩
    rw [filev6Open_of_allocated works allocated] at failed
    cases failed

/-- An inode with a mode of `filev6_create` is allocated. -/
theorem created_isAllocated (inode : Inode) (mode : UInt16) :
    (inode.created mode).isAllocated = true := by
  rw [Inode.isAllocated, bne_iff_ne]
  intro zero
  have bit := congrArg (fun word : UInt16 => word.toNat.testBit 15) zero
  simp only [Inode.created, UInt16.toNat_and, UInt16.toNat_or, Nat.testBit_and, Nat.testBit_or,
    show (0x8000 : UInt16).toNat.testBit 15 = true by decide,
    show (0 : UInt16).toNat.testBit 15 = false by decide, Bool.or_true, Bool.and_self,
    Bool.true_eq_false] at bit

/-- A new mode does not change the size. -/
theorem inodeGetsize_created (inode : Inode) (mode : UInt16) :
    inodeGetsize (inode.created mode) = inodeGetsize inode := rfl

/-- The inode of zeros is empty. -/
theorem inodeGetsize_zero : inodeGetsize Inode.zero = 0 := by decide

/-- A new file is empty. -/
theorem inodeGetsize_zero_created (mode : UInt16) :
    inodeGetsize (Inode.zero.created mode) = 0 := by
  rw [inodeGetsize_created, inodeGetsize_zero]

/-- The addresses of a new file are 0. -/
theorem addr_zero_created (mode : UInt16) (k : Nat) :
    (Inode.zero.created mode).iAddr.toList.getD k 0 = 0 := by
  show (List.replicate 8 (0 : UInt16)).getD k 0 = 0
  rw [List.getD_eq_getElem?_getD, List.getElem?_replicate]
  split <;> rfl

/-- A call returned without storing anything; it may have reserved the number after the last
inode. -/
structure Rejected (u u' : UnixFilesystem) (code : Int) : Prop where
  /-- The call failed. -/
  failed : code < 0
  /-- The disk is as before. -/
  f : u'.f = u.f
  /-- The superblock is as before. -/
  s : u'.s = u.s
  /-- The sector bitmap is as before. -/
  fbm : u'.fbm = u.fbm
  /-- The inode bits are as before, or have the number after the last inode in addition. -/
  ibm : u'.ibm.SameBits u.ibm ∨ Reserved u u' u.s.inodes
  /-- The inode bitmap stays swept. -/
  swept : u.ibm.Swept → u'.ibm.Swept

section Steps

variable {u u' : UnixFilesystem} (geometry : Geometry u)

include geometry

/-- `filev6_create` finds no number, or reserves the number after the last inode and can store
nothing there, or stores the inode it is given at a number that was free. -/
theorem filev6Create_cases {mode : UInt16} {fv6 fv6' : Filev6} {code : Int}
    (run : filev6Create u mode fv6 = (code, u', fv6')) :
    Rejected u u' code ∨
      ∃ x, code = errNone ∧ 1 ≤ x ∧ x < u.s.inodes ∧ u'.fbm = u.fbm ∧ Reserved u u' x ∧
        Stored u.f u'.f u.s x (fv6.iNode.created mode) ∧
        fv6' = { iNumber := UInt16.ofNat x, iNode := fv6.iNode.created mode, offset := 0 } := by
  rw [filev6Create] at run
  split at run
  rename_i inr reserved allocated
  obtain ⟨ibm, rfl, ⟨x, rfl, taken⟩ | ⟨rfl, same, swept, full⟩⟩ :=
    inodeAlloc_reserves geometry.ranges allocated
  · obtain ⟨range, -⟩ := (bmGet_eq_zero_iff _ _).mp taken.free
    rw [geometry.ranges.ibm.1, geometry.ranges.ibm.2] at range
    rw [if_neg (by omega), Int.toNat_natCast] at run
    have next : Geometry { u with ibm } :=
      geometry.congr rfl rfl le_rfl taken.range ⟨rfl, rfl⟩
    rcases Nat.lt_or_ge x u.s.inodes with inside | last
    · have number := geometry.toNat_ofNat inside
      have inRange : inodeOutOfRange u.s (UInt16.ofNat x) = false :=
        (inodeOutOfRange_eq_false_iff _ _).mpr ⟨by omega, by rw [number]; exact inside⟩
      obtain ⟨f', written, stored⟩ := next.inodeWrite_spec inRange (fv6.iNode.created mode)
      rw [written] at run
      cases run
      rw [number] at stored
      exact .inr ⟨x, rfl, range.1, inside, rfl,
        ⟨taken.free, taken.least, taken.swept, rfl, taken.range, taken.ibm, .refl _⟩, stored, rfl⟩
    · obtain rfl : x = u.s.inodes := by omega
      have outOfRange : inodeOutOfRange u.s (UInt16.ofNat u.s.inodes) = true := by
        by_contra inRange
        have inside := (inodeOutOfRange_eq_false_iff _ _).mp (Bool.eq_false_iff.mpr inRange)
        have size := geometry.size
        rw [UInt16.toNat_ofNat', Superblock.inodes] at inside
        omega
      rw [inodeWrite, if_pos outOfRange] at run
      cases run
      exact .inl ⟨by decide, rfl, rfl, rfl, .inr taken, taken.swept⟩
  · rw [if_pos (by decide)] at run
    cases run
    exact .inl ⟨by decide, rfl, rfl, rfl, .inl same, swept⟩

/-- What `create_dirent` has done when it returns: it has stored nothing; or it has stored an
empty inode at a number that was free, and then appended a record for it to the parent, unless
the parent is not in use. -/
theorem createDirent_cases {mode inrParent : UInt16} {name : List UInt8} {code : Int}
    (run : createDirent u mode name inrParent = some (code, u')) :
    Rejected u u' code ∨
      ∃ x u₁, 1 ≤ x ∧ x < u.s.inodes ∧ u₁.fbm = u.fbm ∧ Reserved u u₁ x ∧
        Stored u.f u₁.f u.s x (Inode.zero.created mode) ∧
        ((code < 0 ∧ u' = u₁ ∧ ¬u₁.f.InUse u.s inrParent.toNat) ∨
          ∃ dName inode written fv6, strcpyDName name = some dName ∧
            u₁.f.Allocated u.s inrParent.toNat inode ∧
            filev6Writebytes u₁ { iNumber := inrParent, iNode := inode, offset := 0 }
              (direntCodec.encode { dInumber := UInt16.ofNat x, dName }) =
                some (written, u', fv6) ∧
            code = if written < 0 then written else (x : Int)) := by
  rw [createDirent] at run
  split at run
  rename_i createFileChild u₁ fv6Child created
  rcases filev6Create_cases geometry created with
    rejected | ⟨x, rfl, low, high, fbm, reserved, stored, rfl⟩
  · rw [if_pos rejected.failed] at run
    cases run
    exact .inl rejected
  · rw [if_neg (by decide)] at run
    refine .inr ⟨x, u₁, low, high, fbm, reserved, stored, ?_⟩
    split at run
    · cases run
    · rename_i dName copied
      split at run
      · rename_i code opened
        cases run
        have next : Geometry u' := geometry.congr reserved.s stored.host stored.length.ge
          reserved.range (by rw [fbm]; exact ⟨rfl, rfl⟩)
        have missing := filev6Open_error next.works opened
        rw [reserved.s] at missing
        exact .inl ⟨missing.1, rfl, missing.2⟩
      · rename_i fv6Parent opened
        obtain ⟨allocated, is⟩ := filev6Open_ok opened
        rw [reserved.s] at allocated
        rw [is] at run
        split at run
        · cases run
        · rename_i written after fv6 wrote
          have number := geometry.toNat_ofNat high
          simp only [number] at run
          refine .inr ⟨dName, fv6Parent.iNode, written, fv6, copied, allocated, ?_, ?_⟩
          · split at run <;> cases run <;> exact wrote
          · split at run
            · rename_i negative
              cases run
              exact (if_pos negative).symm
            · rename_i positive
              cases run
              exact (if_neg positive).symm

end Steps

/-- The last component of a path, and the directory of the path as the code finds it: the number
that the lookup of the path without its last component returns, and its inode. There is none when
`direntv6_create` does not come to `create_dirent`: the directory is not found, or it has the last
component. -/
def parentOf (u : UnixFilesystem) (entry : List UInt8) : Option (List UInt8 × UInt16 × Inode) :=
  match splitNameDirentv6Create entry with
  | .error _ => none
  | .ok (name, path) =>
    match direntv6Dirlookup u 1 path with
    | none => none
    | some found =>
      if found < 0 then none
      else if direntv6Dirlookup u (UInt16.ofNat found.toNat) name ≠ some errNoSuchFile then none
      else ((u.f.inodeAt u.s (UInt16.ofNat found.toNat).toNat).filter Inode.isAllocated).map
        (name, UInt16.ofNat found.toNat, ·)

/-- The directory is found by the steps of `direntv6_create`. -/
theorem parentOf_eq_some {u : UnixFilesystem} {entry name : List UInt8} {parent : UInt16}
    {inode : Inode} : (name, parent, inode) ∈ parentOf u entry ↔
      ∃ path found, splitNameDirentv6Create entry = .ok (name, path) ∧
        direntv6Dirlookup u 1 path = some found ∧ 0 ≤ found ∧
        parent = UInt16.ofNat found.toNat ∧
        direntv6Dirlookup u parent name = some errNoSuchFile ∧
        u.f.Allocated u.s parent.toNat inode := by
  unfold parentOf
  constructor
  · intro mem
    split at mem
    · cases mem
    · rename_i split
      split at mem
      · cases mem
      · rename_i found lookup
        split at mem
        · cases mem
        · rename_i positive
          split at mem
          · cases mem
          · rename_i absent
            simp only [Option.mem_def, Option.map_eq_some_iff, Option.filter_eq_some_iff,
              Prod.mk.injEq] at mem
            obtain ⟨_, there, rfl, rfl, rfl⟩ := mem
            exact ⟨_, found, split, lookup, Int.not_lt.mp positive, rfl, not_not.mp absent, there⟩
  · rintro ⟨path, found, split, lookup, positive, rfl, absent, allocated⟩
    simp only [split, lookup, if_neg (Int.not_lt.mpr positive), absent, ne_eq, not_true_eq_false,
      if_false, Option.mem_def, Option.map_eq_some_iff, Option.filter_eq_some_iff]
    exact ⟨inode, allocated, rfl⟩

/-- The last component of a path has no slash. -/
theorem splitNameDirentv6Create_name {entry name path : List UInt8}
    (split : splitNameDirentv6Create entry = .ok (name, path)) : pathToken ∉ name := by
  unfold splitNameDirentv6Create at split
  dsimp only at split
  split at split
  · cases split
  · cases split
    intro mem
    have := List.mem_rtakeWhile_imp mem
    simp at this

/-- The codes of `direntv6_opendir` are negative and not that of a missing file. -/
theorem direntv6Opendir_error {u : UnixFilesystem} {inr : UInt16} {dirs : Sector} {code : Int}
    (failed : direntv6Opendir u inr dirs = .error code) : code < 0 ∧ code ≠ errNoSuchFile := by
  rw [direntv6Opendir] at failed
  split at failed
  · rename_i ret opened
    cases failed
    rw [filev6Open] at opened
    split at opened
    rename_i error inode read
    split at opened
    · rename_i failing
      cases opened
      rcases inodeRead_cases u inr Inode.zero with ⟨found, -, result⟩ | result | result
      · rw [result] at read
        cases read
        split at failing
        · exact absurd rfl failing
        · rename_i free
          rw [if_neg free]
          decide
      · rw [result] at read
        cases read
        decide
      · rw [result] at read
        cases read
        decide
    · cases opened
  · split at failed
    · cases failed
      decide
    · cases failed

/-- A directory that opens is an allocated directory. -/
theorem direntv6Opendir_ok {u : UnixFilesystem} {inr : UInt16} {dirs : Sector}
    {d : DirectoryReader} (opened : direntv6Opendir u inr dirs = .ok d) :
    u.f.Allocated u.s inr.toNat d.fv6.iNode ∧ d.fv6.iNode.isDirectory = true ∧
      d = { fv6 := { iNumber := inr, iNode := d.fv6.iNode, offset := 0 }, dirs
            cur := 0, last := 0 } := by
  rw [direntv6Opendir] at opened
  split at opened
  · cases opened
  · rename_i fv6 file
    split at opened
    · cases opened
    · rename_i directory
      cases opened
      obtain ⟨allocated, is⟩ := filev6Open_ok file
      exact ⟨allocated, by simpa using directory, by rw [← is]⟩

/-- Where a name is looked up and not found, there is a directory. -/
theorem directory_of_absent {u : UnixFilesystem} {inr : UInt16} {name : List UInt8}
    (plain : pathToken ∉ name) (absent : direntv6Dirlookup u inr name = some errNoSuchFile) :
    ∃ inode, u.f.Allocated u.s inr.toNat inode ∧ inode.isDirectory = true := by
  rw [direntv6Dirlookup, direntv6DirlookupCore] at absent
  have number (value : Nat) : some (value : Int) ≠ some errNoSuchFile := by
    rw [ne_eq, Option.some.injEq, errNoSuchFile]
    omega
  split at absent
  · exact absurd absent (number _)
  · rename_i nonempty
    split at absent
    · exact absurd absent (number _)
    · have same : skipTokens name = name := by
        cases name with
        | nil => rfl
        | cons byte rest =>
          rw [skipTokens, List.dropWhile_cons_of_neg]
          simp only [List.mem_cons, not_or] at plain
          simpa using Ne.symm plain.1
      split at absent
      · rename_i empty
        rw [same, List.isEmpty_iff] at empty
        rw [empty] at nonempty
        exact absurd rfl nonempty
      · split at absent
        · rename_i code failed
          exact absurd (Option.some.inj absent) (direntv6Opendir_error failed).2
        · rename_i d opened
          obtain ⟨allocated, directory, -⟩ := direntv6Opendir_ok opened
          exact ⟨_, allocated, directory⟩

/-- An empty inode has been stored for a path that can be created. -/
structure Begun (u u₁ : UnixFilesystem) (entry name : List UInt8) (mode parent : UInt16)
    (inode : Inode) (inr : Nat) : Prop where
  /-- The directory was found. -/
  found : (name, parent, inode) ∈ parentOf u entry
  /-- It is a directory. -/
  directory : inode.isDirectory = true
  /-- It has no such name. -/
  absent : direntv6Dirlookup u parent name = some errNoSuchFile
  /-- The number is in the table. -/
  inside : 1 ≤ inr ∧ inr < u.s.inodes
  /-- The sector bitmap is as before. -/
  fbm : u₁.fbm = u.fbm
  /-- The number was free and is reserved. -/
  reserved : Reserved u u₁ inr
  /-- The inode is stored. -/
  stored : Stored u.f u₁.f u.s inr (Inode.zero.created mode)

/-- A file after an empty inode was stored is that one, or was there before. -/
theorem Begun.allocated {u u₁ : UnixFilesystem} {entry name : List UInt8} {mode parent : UInt16}
    {inode : Inode} {inr : Nat} (begun : Begun u u₁ entry name mode parent inode inr) {k : Nat}
    {found : Inode} (there : u₁.f.Allocated u.s k found) :
    found = Inode.zero.created mode ∨ u.f.Allocated u.s k found := by
  have stored := there.1
  rw [begun.stored.inodeAt] at stored
  split at stored
  · exact .inl (Option.some.inj stored).symm
  · exact .inr ⟨stored, there.2⟩

section Calls

variable {u u' : UnixFilesystem} (geometry : Geometry u)

include geometry

/-- A rejected call keeps the geometry. -/
theorem Geometry.rejected {code : Int} (rejected : Rejected u u' code) : Geometry u' :=
  geometry.congr rejected.s (by rw [rejected.f]) (by rw [rejected.f])
    (rejected.ibm.elim (fun same => ⟨same.min, same.max⟩) (fun reserved => reserved.range))
    (by rw [rejected.fbm]; exact ⟨rfl, rfl⟩)

/-- An inode stored keeps the geometry. -/
theorem Geometry.begun {u₁ : UnixFilesystem} {entry name : List UInt8} {mode parent : UInt16}
    {inode : Inode} {inr : Nat} (begun : Begun u u₁ entry name mode parent inode inr) :
    Geometry u₁ :=
  geometry.congr begun.reserved.s begun.stored.host begun.stored.length.ge begun.reserved.range
    (by rw [begun.fbm]; exact ⟨rfl, rfl⟩)

/-- What `direntv6_create` has done, when the inode of the parent directory is not handed out: it
has rejected the request, or stored an empty inode and then appended a record to the directory. -/
theorem direntv6Create_steps {entry : List UInt8} {mode : UInt16} {code : Int}
    (apart : ∀ found ∈ parentOf u entry, ∀ u₁ x, Reserved u u₁ x → found.2.1.toNat ≠ x)
    (run : direntv6Create u entry mode = some (code, u')) :
    Rejected u u' code ∨ ∃ name parent inode inr u₁ dName written fv6,
      Begun u u₁ entry name mode parent inode inr ∧ parent.toNat ≠ inr ∧
      u₁.f.Allocated u.s parent.toNat inode ∧ strcpyDName name = some dName ∧
      filev6Writebytes u₁ { iNumber := parent, iNode := inode, offset := 0 }
        (direntCodec.encode { dInumber := UInt16.ofNat inr, dName }) = some (written, u', fv6) ∧
      code = if written < 0 then written else (inr : Int) := by
  rcases direntv6Create_cases run with
    ⟨rfl, negative, -⟩ | ⟨name, path, found, split, lookup, positive, absent, created⟩
  · exact .inl ⟨negative, rfl, rfl, rfl, .inl (.refl _), id⟩
  · rcases createDirent_cases geometry created with
      rejected | ⟨x, u₁, low, high, fbm, reserved, stored, result⟩
    · exact .inl rejected
    · obtain ⟨inode, allocated, directory⟩ :=
        directory_of_absent (splitNameDirentv6Create_name split) absent
      have parent : (name, UInt16.ofNat found.toNat, inode) ∈ parentOf u entry :=
        parentOf_eq_some.mpr ⟨path, found, split, lookup, positive, rfl, absent, allocated⟩
      have apart := apart _ parent u₁ x reserved
      have kept : u₁.f.Allocated u.s (UInt16.ofNat found.toNat).toNat inode :=
        ⟨by rw [stored.inodeAt, if_neg apart]; exact allocated.1, allocated.2⟩
      rcases result with ⟨-, -, missing⟩ | ⟨dName, inode', written, fv6, copied, there, wrote, is⟩
      · exact absurd ⟨inode, kept⟩ missing
      · obtain rfl : inode' = inode := Option.some.inj (there.1.symm.trans kept.1)
        exact .inr ⟨name, _, inode', x, u₁, dName, written, fv6,
          ⟨parent, directory, absent, ⟨low, high⟩, fbm, reserved, stored⟩, apart, kept, copied,
          wrote, is⟩

end Calls

/-- A creation that does not come to `create_dirent` changes nothing. -/
theorem direntv6Create_unreached {u u' : UnixFilesystem} {entry : List UInt8} {mode : UInt16}
    {code : Int} (none : parentOf u entry = none)
    (run : direntv6Create u entry mode = some (code, u')) : u' = u ∧ code < 0 := by
  rcases direntv6Create_cases run with
    ⟨rfl, negative, -⟩ | ⟨name, path, found, split, lookup, positive, absent, -⟩
  · exact ⟨rfl, negative⟩
  · obtain ⟨inode, allocated, -⟩ :=
      directory_of_absent (splitNameDirentv6Create_name split) absent
    have mem : (name, UInt16.ofNat found.toNat, inode) ∈ parentOf u entry :=
      parentOf_eq_some.mpr ⟨path, found, split, lookup, positive, rfl, absent, allocated⟩
    rw [none] at mem
    cases mem

/-- What `direntv6_addfile` has done: it has created a file or failed to, and then appended its
buffer to the file, unless the file cannot be read. -/
theorem direntv6Addfile_cases {u u' : UnixFilesystem} {entry buf : List UInt8} {mode : UInt16}
    {code : Int} (run : direntv6Addfile u entry mode buf = some (code, u')) :
    ∃ inr u₁, direntv6Create u entry mode = some (inr, u₁) ∧
      ((code < 0 ∧ u' = u₁) ∨
        ∃ inode written fv6, 0 ≤ inr ∧
          u₁.f.Allocated u₁.s (UInt16.ofNat inr.toNat).toNat inode ∧
          filev6Writebytes u₁
            { iNumber := UInt16.ofNat inr.toNat, iNode := inode, offset := 0 } buf =
              some (written, u', fv6) ∧
          code = if written < 0 then written else errNone) := by
  rw [direntv6Addfile] at run
  split at run
  · cases run
  · rename_i inr u₁ created
    refine ⟨inr, u₁, created, ?_⟩
    split at run
    · rename_i negative
      cases run
      exact .inl ⟨negative, rfl⟩
    · rename_i positive
      split at run
      rename_i code' inode read
      split at run
      · rename_i negative
        cases run
        exact .inl ⟨negative, rfl⟩
      · rename_i readable
        have none : code' = errNone := by
          rcases inodeRead_cases u₁ (UInt16.ofNat inr.toNat) Inode.zero with
            ⟨found, -, result⟩ | result | result
          · rw [result] at read
            cases read
            split
            · rfl
            · rename_i free
              rw [if_neg free] at readable
              exact absurd (by decide) readable
          · rw [result] at read
            cases read
            exact absurd (by decide) readable
          · rw [result] at read
            cases read
            exact absurd (by decide) readable
        split at run
        · rename_i failed
          rw [filev6Open, read, none] at failed
          cases failed
        · rename_i fv6 opened
          obtain ⟨allocated, is⟩ := filev6Open_ok opened
          rw [is] at run
          split at run
          · cases run
          · rename_i written after fv6' wrote
            cases run
            exact .inr ⟨fv6.iNode, written, fv6', Int.not_lt.mp positive, allocated, wrote, rfl⟩

/-- A file was created: an empty inode was stored, and a record for it was appended to the
directory of the path, as far as that worked. -/
structure Recorded (u u₁ u' : UnixFilesystem) (entry name : List UInt8) (mode parent : UInt16)
    (inode inode' : Inode) (inr : Nat) (code : Int) : Prop where
  /-- The inode was stored. -/
  begun : Begun u u₁ entry name mode parent inode inr
  /-- The directory is another file. -/
  apart : parent.toNat ≠ inr
  /-- It has the inode it had. -/
  there : u₁.f.Allocated u₁.s parent.toNat inode
  /-- The record was appended to it. -/
  appended : ∃ dName written, strcpyDName name = some dName ∧
    ((written = errFileTooLarge ∧ 1792 < inodeGetsize inode / 512 + 1 ∧ u' = u₁ ∧ inode' = inode) ∨
      Appends u₁ u' parent inode inode'
        (direntCodec.encode { dInumber := UInt16.ofNat inr, dName }) written) ∧
    code = if written < 0 then written else (inr : Int)

section Recorded

variable {u u₁ u' : UnixFilesystem} {entry name : List UInt8} {mode parent : UInt16}
  {inode inode' : Inode} {inr : Nat} {code : Int}

/-- The record leaves the untouched sectors as they are. -/
theorem Recorded.framed (recorded : Recorded u u₁ u' entry name mode parent inode inode' inr code) :
    Framed u₁ u' parent.toNat (untouched u₁ parent.toNat inode 16) := by
  obtain ⟨dName, written, -, ⟨-, -, rfl, -⟩ | appended, -⟩ := recorded.appended
  · exact .refl _ _ _
  · have framed := appended.framed
    rwa [direntCodec.encode_length, direntCodec_width] at framed

/-- The table holds the directory with its record, and the mode it had. -/
theorem Recorded.stored (recorded : Recorded u u₁ u' entry name mode parent inode inode' inr code) :
    u'.f.inodeAt u₁.s parent.toNat = some inode' ∧ inode'.iMode = inode.iMode := by
  obtain ⟨dName, written, -, ⟨-, -, rfl, rfl⟩ | appended, -⟩ := recorded.appended
  · exact ⟨recorded.there.1, rfl⟩
  · exact appended.stored recorded.there.1

/-- The new file is empty. -/
theorem Recorded.file (recorded : Recorded u u₁ u' entry name mode parent inode inode' inr code) :
    u'.f.Allocated u'.s inr (Inode.zero.created mode) := by
  refine ⟨?_, created_isAllocated _ _⟩
  rw [recorded.framed.s, recorded.framed.inodeAt inr (Ne.symm recorded.apart),
    recorded.begun.reserved.s, recorded.begun.stored.inodeAt, if_pos rfl]

/-- A creation that succeeds returns the number of the new file. -/
theorem Recorded.number (recorded : Recorded u u₁ u' entry name mode parent inode inode' inr code)
    (positive : 0 ≤ code) : code = inr := by
  obtain ⟨dName, written, -, -, is⟩ := recorded.appended
  rw [is]
  split
  · rename_i negative
    rw [if_pos negative] at is
    omega
  · rfl

/-- The directory with its record is as before, or below 4096 bytes, or has got the record in its
last sector. -/
theorem Recorded.grown (recorded : Recorded u u₁ u' entry name mode parent inode inode' inr code)
    (slots : SlotsInside (inodeGetsize inode) 16) :
    inode' = inode ∨ inodeGetsize inode' < 4096 ∨
      (inodeGetsize inode % 512 ≠ 0 ∧ 16 ≤ 512 - inodeGetsize inode % 512 ∧
        inode' = inode.resized (inodeGetsize inode + 16)) := by
  obtain ⟨dName, written, -, ⟨-, -, -, same⟩ | appended, -⟩ := recorded.appended
  · exact .inl same
  · have length : (direntCodec.encode { dInumber := UInt16.ofNat inr, dName }).length = 16 := by
      rw [direntCodec.encode_length, direntCodec_width]
    have result := appended.grown (by rw [length]; exact slots)
    rwa [length] at result

end Recorded

section Calls

variable {u u' : UnixFilesystem} (geometry : Geometry u)

include geometry

/-- What `direntv6_create` has done, when the directory of the path can take a record. -/
theorem direntv6Create_records {entry : List UInt8} {mode : UInt16} {code : Int}
    (parents : ∀ found ∈ parentOf u entry,
      (∀ u₁ x, Reserved u u₁ x → found.2.1.toNat ≠ x) ∧ SlotsInside (inodeGetsize found.2.2) 16)
    (target : ∀ u₁ name parent inode inr, Begun u u₁ entry name mode parent inode inr →
      u₁.f.Allocated u₁.s parent.toNat inode → inodeGetsize inode % 512 ≠ 0 →
      LastSectorInData u₁ inode)
    (run : direntv6Create u entry mode = some (code, u')) :
    Rejected u u' code ∨ ∃ u₁ name parent inode inode' inr,
      Recorded u u₁ u' entry name mode parent inode inode' inr code := by
  rcases direntv6Create_steps geometry (fun found mem => (parents found mem).1) run with
    rejected | ⟨name, parent, inode, inr, u₁, dName, written, fv6, begun, apart, allocated, copied,
      wrote, is⟩
  · exact .inl rejected
  · have slots := (parents _ begun.found).2
    rw [← begun.reserved.s] at allocated
    obtain ⟨code', after, inode', run', result⟩ :=
      (geometry.begun begun).filev6Writebytes_spec
        { iNumber := parent, iNode := inode, offset := 0 }
        (direntCodec.encode { dInumber := UInt16.ofNat inr, dName }) allocated.inRange
        (by rw [direntCodec.encode_length, direntCodec_width]; exact slots)
        (target u₁ name parent inode inr begun allocated)
    rw [run'] at wrote
    cases wrote
    exact .inr ⟨u₁, name, parent, inode, inode', inr, begun, apart, allocated, dName, written,
      copied, result, is⟩

/-- What `direntv6_addfile` has done after a creation: it has appended its buffer to the new,
empty file. -/
theorem direntv6Addfile_appends {u₁ u₂ : UnixFilesystem} {entry name buf : List UInt8}
    {mode parent : UInt16} {inode inode' found : Inode} {inr : Nat} {created written : Int}
    {fv6 : Filev6}
    (recorded : Recorded u u₁ u₂ entry name mode parent inode inode' inr created)
    (small : buf.length < 4096) (positive : 0 ≤ created)
    (allocated : u₂.f.Allocated u₂.s (UInt16.ofNat created.toNat).toNat found)
    (wrote : filev6Writebytes u₂
      { iNumber := UInt16.ofNat created.toNat, iNode := found, offset := 0 } buf =
        some (written, u', fv6)) :
    (UInt16.ofNat inr).toNat = inr ∧ ∃ file,
      Appends u₂ u' (UInt16.ofNat inr) (Inode.zero.created mode) file buf written := by
  have number := geometry.toNat_ofNat recorded.begun.inside.2
  rw [recorded.number positive, Int.toNat_natCast] at allocated wrote
  rw [number] at allocated
  obtain rfl : found = Inode.zero.created mode :=
    Option.some.inj (allocated.1.symm.trans recorded.file.1)
  have empty := inodeGetsize_zero_created mode
  have inRange : inodeOutOfRange u₂.s (UInt16.ofNat inr) = false := by
    apply Disk.Allocated.inRange
    rw [number]
    exact allocated
  obtain ⟨code', after, file, run', result⟩ :=
    (recorded.framed.geometry (geometry.begun recorded.begun)).filev6Writebytes_spec
      { iNumber := UInt16.ofNat inr, iNode := Inode.zero.created mode, offset := 0 } buf inRange
      (.inr (by rw [empty]; omega))
      (fun residual => absurd (by rw [empty]) residual)
  rw [run'] at wrote
  cases wrote
  refine ⟨number, file, result.resolve_left ?_⟩
  rintro ⟨-, large, -⟩
  rw [empty] at large
  omega

end Calls

end U6fs
