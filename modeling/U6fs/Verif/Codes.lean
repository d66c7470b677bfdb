import U6fs.Command
import U6fs.Verif.Atomic
import U6fs.Verif.BlockMap
import U6fs.Verif.CreateCheck

/-!
# The codes of the functions

On every disk file, and however its host fails, a function that fails returns a code of the list of
errors. There is one exception: a negative entry of an indirect sector, which
`inode_findsector_bigfile` returns, is taken for a code and may be in no list.
-/
namespace U6fs

open Lib

/-- A code of the list of errors. -/
def Listed (code : Int) : Prop := errFirst < code ∧ code < errLast

instance (code : Int) : Decidable (Listed code) := inferInstanceAs (Decidable (_ ∧ _))

/-- A negative entry of an indirect sector, of a file of 4096 bytes or more, has the value of the
code. -/
def Disk.Leaks (f : Disk) (s : Superblock) (code : Int) : Prop :=
  ∃ inr inode k e, f.Allocated s inr inode ∧ 4096 ≤ inodeGetsize inode ∧
    k ≤ inodeGetsize inode / 512 ∧ f.entry inode k = some e ∧ 32768 ≤ e ∧ code = e - 65536

/-- A code with which a function that looks for a sector may fail. -/
def FailsWith (u : UnixFilesystem) (code : Int) : Prop := Listed code ∨ u.f.Leaks u.s code

section Reading

variable {u : UnixFilesystem}

/-- Reading an inode fails with a code of the list. -/
theorem inodeRead_listed {inr : UInt16} {inode after : Inode} {code : Int}
    (read : inodeRead u inr inode = (code, after)) (failed : code ≠ errNone) : Listed code := by
  rcases inodeRead_cases u inr inode with ⟨found, -, result⟩ | result | result
  · rw [result] at read
    cases read
    split at failed
    · exact absurd rfl failed
    · rename_i free
      rw [if_neg free]
      decide
  · rw [result] at read
    cases read
    decide
  · rw [result] at read
    cases read
    decide

/-- Opening a file fails with a code of the list. -/
theorem filev6Open_listed {inr : UInt16} {code : Int} (failed : filev6Open u inr = .error code) :
    Listed code := by
  rw [filev6Open] at failed
  split at failed
  rename_i error inode read
  split at failed
  · rename_i failing
    cases failed
    exact inodeRead_listed read failing
  · cases failed

/-- Looking for a sector of an inode in use fails with a code of the list, or an entry leaks. -/
theorem inodeFindsector_failsWith {inr : Nat} {inode : Inode}
    (allocated : u.f.Allocated u.s inr inode) {k : Nat}
    (failed : inodeFindsector u inode k < 0) : FailsWith u (inodeFindsector u inode k) := by
  have used := allocated.2
  by_cases inside : k ≤ inodeGetsize inode / 512
  · by_cases small : inodeGetsize inode < 4096
    · rw [inodeFindsector_direct u used inside small] at failed
      omega
    · by_cases fits : inodeGetsize inode / 512 + 1 ≤ 1792
      · rw [inodeFindsector_indirect u used inside (by omega) fits] at failed ⊢
        rcases inodeFindsectorBigfile_cases u inode (by omega : k < 1792) with
          result | ⟨e, there, result⟩
        · rw [result]
          exact .inl (by decide)
        · have bound := entry_lt there
          rw [result, bmod_entry bound] at failed ⊢
          split at failed
          · omega
          · rename_i big
            rw [if_neg big]
            exact .inr ⟨inr, inode, k, e, allocated, Nat.not_lt.mp small, inside, there,
              Nat.not_lt.mp big, rfl⟩
      · rw [inodeFindsector_tooLarge u used inside (by omega)]
        exact .inl (by decide)
  · have outside : inodeFindsector u inode k = errOffsetOutOfRange := by
      rw [inodeFindsector, used, Bool.not_true, if_neg Bool.false_ne_true, if_pos]
      simp only [sectorSize, Bool.or_eq_true, decide_eq_true_eq, ge_iff_le]
      omega
    rw [outside]
    exact .inl (by decide)

/-- Reading a block keeps the inode, and fails with a code of the list, or an entry leaks. -/
theorem filev6Readblock_failsWith {inr : Nat} {fv6 fv6' : Filev6} {code : Int} {bytes : List UInt8}
    (allocated : u.f.Allocated u.s inr fv6.iNode)
    (run : filev6Readblock u fv6 = (code, fv6', bytes)) :
    fv6'.iNode = fv6.iNode ∧ (code < 0 → FailsWith u code) := by
  rw [filev6Readblock] at run
  split at run
  · cases run
    exact ⟨rfl, fun negative => absurd negative (by decide)⟩
  · split at run
    · cases run
      exact ⟨rfl, inodeFindsector_failsWith allocated⟩
    · split at run
      · rename_i read
        cases run
        rw [sectorRead_error read]
        exact ⟨rfl, fun _ => .inl (by decide)⟩
      · split at run
        · cases run
          exact ⟨rfl, fun negative => absurd negative (Int.not_lt.mpr (Int.natCast_nonneg _))⟩
        · cases run
          exact ⟨rfl, fun negative => absurd negative (by decide)⟩

/-- Opening a directory fails with a code of the list. -/
theorem direntv6Opendir_listed {inr : UInt16} {dirs : Sector} {code : Int}
    (failed : direntv6Opendir u inr dirs = .error code) : Listed code := by
  rw [direntv6Opendir] at failed
  split at failed
  · rename_i opened
    cases failed
    exact filev6Open_listed opened
  · split at failed
    · cases failed
      decide
    · cases failed

/-- What `direntv6_readdir` may return on a directory: a record, with the same inode in the reader,
the end, or a code of the list, or an entry leaks. -/
def ReaddirTells (u : UnixFilesystem) (d : DirectoryReader) : Readdir → Prop
  | .entry d' _ _ => d'.fv6.iNode = d.fv6.iNode
  | .done _ code => code = 0 ∨ FailsWith u code

/-- The record at the cursor is returned by a reader of the same inode. -/
theorem readdirEntry_tells {d : DirectoryReader} {result : Readdir}
    (run : readdirEntry d = some result) : ReaddirTells u d result := by
  rw [readdirEntry] at run
  split at run
  · cases run
    rfl
  · cases run

/-- `direntv6_readdir` tells how it ends. -/
theorem direntv6Readdir_tells {inr : Nat} {d : DirectoryReader} {result : Readdir}
    (allocated : u.f.Allocated u.s inr d.fv6.iNode) (run : direntv6Readdir u d = some result) :
    ReaddirTells u d result := by
  rw [direntv6Readdir] at run
  split at run
  · split at run
    rename_i bytesRead fv6 block read
    obtain ⟨same, fails⟩ := filev6Readblock_failsWith allocated read
    split at run
    · rename_i ends
      cases run
      rcases Int.lt_or_eq_of_le ends with negative | zero
      · exact .inr (fails negative)
      · exact .inl zero
    · have tells := readdirEntry_tells (u := u) run
      cases result with
      | entry d' name childInr => exact tells.trans same
      | done d' code => exact tells
  · exact readdirEntry_tells run

/-- A search of the records ends with a code of the list, or an entry leaks. -/
theorem lookupScan_failsWith {name : List UInt8} {code : Int} {inr : Nat} (fuel : Nat) :
    ∀ d, u.f.Allocated u.s inr d.fv6.iNode → lookupScan u name fuel d = some (.error code) →
      code = 0 ∨ FailsWith u code := by
  induction fuel with
  | zero =>
    intro d _ run
    cases run
  | succ fuel ih =>
    intro d allocated run
    rw [lookupScan] at run
    split at run
    · cases run
    · rename_i read
      cases run
      exact direntv6Readdir_tells allocated read
    · rename_i d' found childInr read
      have same : d'.fv6.iNode = d.fv6.iNode := direntv6Readdir_tells allocated read
      split at run
      · cases run
      · exact ih d' (same ▸ allocated) run

/-- One level of a lookup fails with a code of the list, or an entry leaks. -/
theorem lookupName_failsWith {inr : UInt16} {name : List UInt8} {code : Int}
    (failed : lookupName u inr name = some (.error code)) : FailsWith u code := by
  rw [lookupName] at failed
  split at failed
  · rename_i opened
    cases failed
    exact .inl (direntv6Opendir_listed opened)
  · rename_i d opened
    split at failed
    · cases failed
    · cases failed
    · rename_i dirRead scan
      have ended := lookupScan_failsWith _ d (direntv6Opendir_ok opened).1 scan
      cases failed
      split
      · exact .inl (by decide)
      · rename_i nonzero
        exact ended.resolve_left nonzero

/-- A walk along names fails with a code of the list, or an entry leaks. -/
theorem walk_failsWith {names : List (List UInt8)} {code : Int} : ∀ inr,
    walk (lookupName u) inr names = some (.error code) → FailsWith u code := by
  induction names with
  | nil =>
    intro inr failed
    cases failed
  | cons name names ih =>
    intro inr failed
    rw [walk] at failed
    split at failed
    · cases failed
    · rename_i step
      cases failed
      exact lookupName_failsWith step
    · exact ih _ failed

/-- Resolving a path fails with a code of the list, or an entry leaks. -/
theorem direntv6Dirlookup_failsWith {inr : UInt16} {entry : List UInt8} {code : Int}
    (run : direntv6Dirlookup u inr entry = some code) (failed : code < 0) : FailsWith u code := by
  rw [direntv6Dirlookup_eq, Option.map_eq_some_iff] at run
  obtain ⟨result, walked, rfl⟩ := run
  cases result with
  | error code => exact walk_failsWith inr walked
  | ok found =>
    rw [lookupCode] at failed ⊢
    split
    · rename_i place
      rw [if_pos place] at failed
      omega
    · exact .inl (by decide)

/-- The checks of a creation fail with a code of the list, or an entry leaks. -/
theorem createCheck_failsWith {entry : List UInt8} {code : Int}
    (failed : createCheck u entry = some (.error code)) : FailsWith u code := by
  rw [createCheck] at failed
  split at failed
  · rename_i split'
    cases failed
    rw [splitNameDirentv6Create] at split'
    simp only at split'
    split at split'
    · cases split'
      exact .inl (by decide)
    · cases split'
  · split at failed
    · cases failed
    · rename_i inrParent found
      split at failed
      · rename_i negative
        cases failed
        exact direntv6Dirlookup_failsWith found negative
      · split at failed
        · cases failed
        · rename_i dirLookupChild looked
          split at failed
          · split at failed
            · cases failed
              exact .inl (by decide)
            · rename_i negative
              cases failed
              exact direntv6Dirlookup_failsWith looked (Int.not_le.mp negative)
          · cases failed

/-- A function has succeeded, or failed with a code of the list, or an entry leaks. -/
def EndsWith (u : UnixFilesystem) (code : Int) : Prop := code = errNone ∨ FailsWith u code

/-- The loop of the listing of paths ends so when the listings below do. -/
theorem printTreeLoop_endsWith {inr : Nat}
    {printTree : UInt16 → List UInt8 → Option (Int × List TreeLine)}
    (below : ∀ childInr path ret lines, printTree childInr path = some (ret, lines) →
      EndsWith u ret) {pathPrefix : List UInt8} (fuel : Nat) :
    ∀ d result ret lines, u.f.Allocated u.s inr d.fv6.iNode → ReaddirTells u d result →
      printTreeLoop u printTree pathPrefix fuel result = some (ret, lines) → EndsWith u ret := by
  induction fuel with
  | zero =>
    intro d result ret lines allocated tells run
    cases result with
    | entry d' name childInr => cases run
    | done d' code =>
      cases run
      exact tells
  | succ fuel ih =>
    intro d result ret lines allocated tells run
    cases result with
    | done d' code =>
      cases run
      exact tells
    | entry d' name childInr =>
      have same : d'.fv6.iNode = d.fv6.iNode := tells
      have allocated' : u.f.Allocated u.s inr d'.fv6.iNode := same ▸ allocated
      rw [printTreeLoop] at run
      split at run
      · cases run
      · rename_i code printed record
        split at run
        · rename_i failing
          cases run
          rw [printTreeRecord] at record
          split at record
          rename_i retInode inode read
          split at record
          · rename_i failed
            cases record
            exact .inr (.inl (inodeRead_listed read failed))
          · split at record
            · exact below _ _ _ _ record
            · cases record
              exact absurd rfl failing
        · split at run
          · cases run
          · rename_i next following
            rw [Option.map_eq_some_iff] at run
            obtain ⟨⟨code', rest⟩, loop, same'⟩ := run
            cases same'
            exact ih d' next ret rest allocated' (direntv6Readdir_tells allocated' following) loop

/-- The listing of paths ends with 0 or a code of the list, or an entry leaks. -/
theorem direntv6PrintTree_endsWith (fuel : Nat) : ∀ inr pathPrefix ret lines,
    direntv6PrintTree u fuel inr pathPrefix = some (ret, lines) → EndsWith u ret := by
  induction fuel with
  | zero =>
    intro inr pathPrefix ret lines run
    cases run
  | succ fuel ih =>
    intro inr pathPrefix ret lines run
    rw [direntv6PrintTree] at run
    split at run
    · rename_i opened
      cases run
      exact .inr (.inl (direntv6Opendir_listed opened))
    · rename_i dReader opened
      have allocated := (direntv6Opendir_ok opened).1
      split at run
      · cases run
      · rename_i first read
        have tells := direntv6Readdir_tells allocated read
        split at run
        · rename_i negative
          cases run
          cases first with
          | entry d' name childInr => cases negative
          | done d' code => exact tells
        · rw [Option.map_eq_some_iff] at run
          obtain ⟨⟨code, rest⟩, loop, same⟩ := run
          cases same
          exact printTreeLoop_endsWith (fun childInr path ret lines => ih childInr path ret lines) _
            dReader first ret rest allocated tells loop

/-- The listing of inodes ends with 0 or a code of the list. -/
theorem inodeScanPrint_endsWith : EndsWith u (inodeScanPrint u).1 := by
  rw [inodeScanPrint]
  apply emitAll_code (P := EndsWith u) (.inl rfl)
  intro k _ _
  apply emitAll_code (P := EndsWith u) (.inl rfl)
  intro j _ stops
  have nonzero : (inodeScanSlot u (scannedInr k j)).1 ≠ errNone := by
    intro zero
    rw [zero] at stops
    cases stops
  exact .inr (.inl (inodeRead_listed rfl nonzero))

/-- The loop of a digest ends with a code of the list, or an entry leaks. -/
theorem shafileBlocks_failsWith {inr : Nat} (fv6 : Filev6) (buffer : Block utilsHashedLength)
    (sectorBytes : Nat) (allocated : u.f.Allocated u.s inr fv6.iNode) :
    (shafileBlocks u fv6 buffer sectorBytes).1 < 0 →
      FailsWith u (shafileBlocks u fv6 buffer sectorBytes).1 := by
  induction fv6, buffer, sectorBytes using shafileBlocks.induct u with
  | case1 fv6 buffer sectorBytes ret fv6' block read more ih =>
    have same := (filev6Readblock_failsWith allocated read).1
    rw [shafileBlocks, read]
    simp only [if_pos more]
    exact ih (same ▸ allocated)
  | case2 fv6 buffer sectorBytes ret fv6' block read ends =>
    rw [shafileBlocks, read]
    simp only [if_neg ends]
    exact (filev6Readblock_failsWith allocated read).2

/-- The digest of a file ends with 0 or a code of the list, or an entry leaks. -/
theorem utilsPrintShafile_endsWith (inr : UInt16) : EndsWith u (utilsPrintShafile u inr).1 := by
  rw [utilsPrintShafile]
  split
  · rename_i opened
    exact .inr (.inl (filev6Open_listed opened))
  · rename_i fv6 opened
    split
    · exact .inl rfl
    · split
      rename_i ret buffer blocks
      split
      · rename_i negative
        have fails := shafileBlocks_failsWith fv6 (Block.ofBytes utilsHashedLength
          (List.replicate 16 (u.f.host.stack u.f.time).bytes).flatten) 0 (filev6Open_ok opened).1
        rw [blocks] at fails
        exact .inr (fails negative)
      · exact .inl rfl

/-- The listing of digests ends with 0 or a code of the list, or an entry leaks. -/
theorem shaSectors_endsWith (fuel : Nat) : ∀ sectorNb code lines,
    shaSectors u fuel sectorNb = some (code, lines) → EndsWith u code := by
  induction fuel with
  | zero =>
    intro sectorNb code lines run
    cases run
  | succ fuel ih =>
    intro sectorNb code lines run
    rw [shaSectors] at run
    split at run
    · split at run
      · rename_i read
        cases run
        rw [sectorRead_error read]
        exact .inr (.inl (by decide))
      · split at run
        rename_i errPrint printed row
        split at run
        · cases run
          have ends := @emitAll_code _ _ _ stopsListing errNone
            (fun inodeIndex => utilsPrintShafile u (shaInr u sectorNb inodeIndex)) (EndsWith u)
            (shaSlots u sectorNb) (.inl rfl) (fun _ _ _ => utilsPrintShafile_endsWith _)
          rw [row] at ends
          exact ends
        · rw [Option.map_eq_some_iff] at run
          obtain ⟨⟨code', rest⟩, later, same⟩ := run
          cases same
          exact ih _ _ _ later
    · cases run
      exact .inl rfl

/-- The start of a file ends with 0 or a code of the list, or an entry leaks. -/
theorem utilsCatFirstSector_endsWith (inr : UInt16) :
    EndsWith u (utilsCatFirstSector u inr).1 := by
  rw [utilsCatFirstSector]
  split
  · rename_i opened
    exact .inr (.inl (filev6Open_listed opened))
  · rename_i fv6 opened
    split
    · exact .inl rfl
    · split
      rename_i readblock fv6' block read
      split
      · rename_i negative
        exact .inr ((filev6Readblock_failsWith (filev6Open_ok opened).1 read).2 negative)
      · exact .inl rfl

/-- The scan of a file for the sector bitmap fails with a code of the list, or an entry leaks. -/
theorem writeSectorOnBitmap_failsWith {inr : Nat} {inode : Inode} {code : Int}
    (allocated : u.f.Allocated u.s inr inode)
    (failed : writeSectorOnBitmap inode u = .error code) : FailsWith u code := by
  have first := markIndirect_spec u inode
  have same : ∀ i : Int, inodeFindsector (markIndirect inode u) inode i =
      inodeFindsector u inode i := fun i => inodeFindsector_congr first.f inode i
  rcases run : markSectors inode (inodeGetsize inode / sectorSize + 1 + 2)
      (markIndirect inode u) (inodeFindsector (markIndirect inode u) inode 0) 0 with ⟨last, u'⟩
  obtain ⟨n, -, -, stop, negative, -⟩ :=
    markSectors_spec inode _ 0 _ u' last (by simp only [sectorSize]; omega) run
  rw [same] at stop
  have fails := inodeFindsector_failsWith allocated (k := n) (by rw [stop]; exact negative)
  rw [stop] at fails
  simp only [writeSectorOnBitmap, run] at failed
  split at failed
  · cases failed
    exact fails
  · cases failed

/-- A volume with the same disk fails with the same codes. -/
theorem FailsWith.congr {v : UnixFilesystem} {code : Int} (f : v.f = u.f) (s : v.s = u.s)
    (fails : FailsWith v code) : FailsWith u code := by
  rw [FailsWith, f, s] at fails
  exact fails

/-- The disk and the superblock are those of a volume. -/
def OnDisk (u v : UnixFilesystem) : Prop := v.f = u.f ∧ v.s = u.s

/-- A round of the scan keeps the disk, or fails with a code of the list, or an entry leaks. -/
theorem fillBitmapsSlot_yields (k : Nat) (state : UnixFilesystem × Bool) (j : Nat)
    (on : OnDisk u state.1) :
    Yields (fun state => OnDisk u state.1) (FailsWith u) (fillBitmapsSlot k state j) := by
  cases run : fillBitmapsSlot k state j with
  | ok next =>
    have marks := (fillBitmapsSlot_marks on.1 on.2 run).1
    exact ⟨marks.f.trans on.1, marks.s.trans on.2⟩
  | error code =>
    obtain ⟨v, found⟩ := state
    rcases read : inodeRead u (scannedInr k j) Inode.zero with ⟨ret, inode⟩
    rw [fillBitmapsSlot_eq on.1 on.2 found k j read] at run
    split at run
    · rename_i none
      subst none
      have allocated := @inodeRead_allocated u (scannedInr k j) Inode.zero
      rw [read] at allocated
      cases walked : writeSectorOnBitmap inode
        { v with ibm := bmSet v.ibm (scannedInr k j).toNat } with
      | ok next =>
        rw [walked] at run
        cases run
      | error code' =>
        rw [walked] at run
        cases run
        have there : u.f.Allocated u.s (scannedInr k j).toNat inode := allocated rfl
        rw [← on.1, ← on.2] at there
        exact FailsWith.congr on.1 on.2 (writeSectorOnBitmap_failsWith
          (u := { v with ibm := bmSet v.ibm (scannedInr k j).toNat }) there walked)
    · rename_i failed
      split at run
      · cases run
      · cases run
        exact .inl (inodeRead_listed read failed)

/-- The scan of a table sector keeps the disk, or fails with a code of the list, or an entry
leaks. -/
theorem fillBitmapsSector_yields (v : UnixFilesystem) (k : Nat) (on : OnDisk u v) :
    Yields (OnDisk u) (FailsWith u) (fillBitmapsSector v k) := by
  have row := foldlM_yields (fillBitmapsSlot k) (fun state => OnDisk u state.1)
    (fun state j on => fillBitmapsSlot_yields k state j on) (List.range inodesPerSector)
    (s := (v, false)) on
  rw [fillBitmapsSector]
  cases run : (List.range inodesPerSector).foldlM (fillBitmapsSlot k) (v, false) with
  | error code =>
    rw [run] at row
    exact row
  | ok next =>
    rw [run] at row
    simp only [bind, Except.bind]
    split
    · exact row
    · exact row

/-- The scan of the inode table fails with a code of the list, or an entry leaks. -/
theorem fillBitmaps_failsWith {code : Int} (failed : fillBitmaps u = .error code) :
    FailsWith u code := by
  have rows := foldlM_yields fillBitmapsSector (OnDisk u) fillBitmapsSector_yields
    (List.range (u.s.sIsize.toNat + u.s.sInodeStart.toNat - 1 - u.s.sInodeStart.toNat))
    (s := u) ⟨rfl, rfl⟩
  rw [fillBitmaps] at failed
  rw [failed] at rows
  exact rows

end Reading

section Writing

variable {u u' : UnixFilesystem} {code : Int}

/-- Writing a sector fails with a code of the list. -/
theorem sectorWrite_listed {writer : Writer} {f f' : Disk} {sector : Nat} {data : Sector}
    (run : sectorWrite writer f sector data = (code, f')) : code = errNone ∨ Listed code := by
  rw [sectorWrite] at run
  split at run
  · cases run
    exact .inr (by decide)
  · cases run
    exact .inl rfl

/-- Writing an inode fails with a code of the list. -/
theorem inodeWrite_listed {inr : UInt16} {inode : Inode}
    (run : inodeWrite u inr inode = (code, u')) : code = errNone ∨ Listed code := by
  rw [inodeWrite] at run
  split at run
  · cases run
    exact .inr (by decide)
  · split at run
    · rename_i read
      cases run
      rw [sectorRead_error read]
      exact .inr (by decide)
    · cases run
      exact sectorWrite_listed (Prod.eta _).symm

/-- Creating a file fails with a code of the list. -/
theorem filev6Create_listed {mode : UInt16} {fv6 fv6' : Filev6}
    (run : filev6Create u mode fv6 = (code, u', fv6')) : code = errNone ∨ Listed code := by
  rw [filev6Create] at run
  split at run
  rename_i inr u₁ allocated
  split at run
  · rename_i negative
    cases run
    rw [inodeAlloc] at allocated
    simp only at allocated
    split at allocated
    · cases allocated
      exact .inr (by decide)
    · rename_i found
      cases allocated
      exact absurd negative found
  · split at run
    rename_i write u₂ stored
    cases run
    have written := inodeWrite_listed stored
    split
    · exact written
    · exact .inl rfl

/-- Appending a sector fails with a code of the list. -/
theorem filev6Writesector_listed (small : u.fbm.max < 2 ^ 31) {fv6 fv6' : Filev6}
    {buf : List UInt8} {fileSize : Nat}
    (run : filev6Writesector u fv6 buf fileSize = some (code, u', fv6')) :
    code = errNone ∨ Listed code := by
  rw [filev6Writesector] at run
  split at run
  rename_i freeSector fbm found
  split at run
  · rename_i negative
    cases run
    rcases (bmFindNext_spec found).2 with ⟨x, clear, value⟩ | ⟨value, -⟩
    · have inside := ((bmGet_eq_zero_iff _ _).mp clear).1
      have bound : x < 2 ^ 31 := Nat.lt_of_le_of_lt inside.2 small
      rw [value, toInt32_of_small bound] at negative
      exact absurd negative (Int.not_lt.mpr (Int.natCast_nonneg x))
    · rw [value]
      exact .inr (by decide)
  · split at run
    rename_i err f written
    split at run
    · cases run
      exact sectorWrite_listed written
    · split at run
      · rename_i error resized
        cases run
        rw [inodeSetsize] at resized
        split at resized
        · cases resized
          exact .inr (by decide)
        · cases resized
      · split at run
        · split at run
          rename_i stored
          cases run
          exact inodeWrite_listed stored
        · cases run

/-- The loop of `filev6_writebytes` fails with a code of the list. -/
theorem writebytesLoop_listed {inodeSize : Nat} {buf : List UInt8} (fuel : Nat) :
    ∀ (u : UnixFilesystem) (fv6 : Filev6) (left : Int) (written : Nat) (u' : UnixFilesystem)
      (fv6' : Filev6), u.fbm.max < 2 ^ 31 →
      writebytesLoop inodeSize buf fuel u fv6 left written = some (code, u', fv6') →
      code = errNone ∨ Listed code := by
  induction fuel with
  | zero =>
    intro u fv6 left written u' fv6' _ run
    cases run
    exact .inl rfl
  | succ fuel ih =>
    intro u fv6 left written u' fv6' small run
    rw [writebytesLoop] at run
    split at run
    · split at run
      · cases run
      · rename_i writeSec u₁ fv6₁ round
        split at run
        · cases run
          exact filev6Writesector_listed small round
        · have kept := (filev6Writesector_bitsKept round).fbm.max
          exact ih _ _ _ _ _ _ (by rw [kept]; exact small) run
    · cases run
      exact .inl rfl

/-- `filev6_writebytes` fails with a code of the list. -/
theorem filev6Writebytes_listed (small : u.fbm.max < 2 ^ 31) {fv6 fv6' : Filev6}
    {buf : List UInt8} (run : filev6Writebytes u fv6 buf = some (code, u', fv6')) :
    code = errNone ∨ Listed code := by
  rw [filev6Writebytes] at run
  split at run
  · cases run
    exact .inr (by decide)
  · split at run
    · split at run
      rename_i residual
      have kept := (filev6WritesectorResidual_bitsKept residual).fbm.max
      split at run
      · cases run
      · exact writebytesLoop_listed _ _ _ _ _ _ _ (by rw [kept]; exact small) run
    · exact writebytesLoop_listed _ _ _ _ _ _ _ small run

/-- The sector numbers of a bitmap over a data region are small. -/
theorem Ranges.fbm_max (ranges : Ranges u) : u.fbm.max < 2 ^ 31 := by
  have small := u.s.sFsize.toNat_lt
  rw [ranges.fbm.2]
  omega

/-- `create_dirent` fails with a code of the list. -/
theorem createDirent_listed (ranges : Ranges u) {mode inrParent : UInt16} {name : List UInt8}
    (run : createDirent u mode name inrParent = some (code, u')) (negative : code < 0) :
    Listed code := by
  have nonzero : code ≠ errNone := Int.ne_of_lt negative
  rw [createDirent] at run
  split at run
  rename_i createFileChild u₁ fv6Child created
  split at run
  · cases run
    exact (filev6Create_listed created).resolve_left nonzero
  · rename_i positive
    have small : u₁.fbm.max < 2 ^ 31 := by
      rcases filev6Create_bits ranges created with ⟨x, -, reserved⟩ | ⟨rfl, -⟩
      · rw [reserved.fbm.max]
        exact ranges.fbm_max
      · exact absurd (by decide) positive
    split at run
    · cases run
    · split at run
      · rename_i opened
        cases run
        exact filev6Open_listed opened
      · split at run
        · cases run
        · rename_i written
          split at run
          · cases run
            exact (filev6Writebytes_listed small written).resolve_left nonzero
          · cases run
            exact absurd negative (Int.not_lt.mpr (Int.natCast_nonneg _))

/-- `direntv6_create` fails with a code of the list, or an entry leaks. -/
theorem direntv6Create_failsWith (ranges : Ranges u) {entry : List UInt8} {mode : UInt16}
    (run : direntv6Create u entry mode = some (code, u')) (negative : code < 0) :
    FailsWith u code := by
  rw [direntv6Create_eq] at run
  split at run
  · cases run
  · rename_i check
    cases run
    exact createCheck_failsWith check
  · exact .inl (createDirent_listed ranges run negative)

/-- `direntv6_addfile` ends with 0 or a code of the list, or an entry leaks. -/
theorem direntv6Addfile_endsWith (ranges : Ranges u) {entry buf : List UInt8} {mode : UInt16}
    (run : direntv6Addfile u entry mode buf = some (code, u')) : EndsWith u code := by
  rw [direntv6Addfile] at run
  split at run
  · cases run
  · rename_i inr u₁ created
    split at run
    · rename_i negative
      cases run
      exact .inr (direntv6Create_failsWith ranges created negative)
    · rename_i positive
      have small : u₁.fbm.max < 2 ^ 31 := by
        rcases direntv6Create_bits ranges created with ⟨-, x, reserved⟩ | ⟨-, negative, -⟩
        · rw [reserved.fbm.max]
          exact ranges.fbm_max
        · exact absurd negative positive
      split at run
      rename_i read inode found
      split at run
      · rename_i negative
        cases run
        exact .inr (.inl (inodeRead_listed found (Int.ne_of_lt negative)))
      · split at run
        · rename_i opened
          cases run
          exact .inr (.inl (filev6Open_listed opened))
        · split at run
          · cases run
          · rename_i write u₂ fv6 written
            cases run
            split
            · rename_i negative
              exact .inr (.inl ((filev6Writebytes_listed small written).resolve_left
                (Int.ne_of_lt negative)))
            · exact .inl rfl

end Writing

end U6fs
