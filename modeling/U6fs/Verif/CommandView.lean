import U6fs.Verif.InodeListing
import U6fs.Verif.FileHash
import U6fs.Verif.Lives

/-!
# What the commands print

The commands that only read print what the volume has: `inode` and `shafiles` a line for each number
in use, `cat1` the start of a file, and `tree` all paths. They return on every volume in good
health, and so after any life of a disk file.
-/
namespace U6fs

open Lib

/-- A listing of the numbers in use up to the last one has them all. -/
theorem Volume.listed_upto {α : Type} {ns : Volume} {last : Nat} (small : last ≤ 65535)
    (rest : ∀ n : UInt16, last < n.toNat → ns n = none)
    (line : UInt16 → Node UInt16 (List UInt8) (List UInt8) UInt16 → α) :
    ns.listed line = (List.range' 1 last).flatMap fun n =>
      ((ns (UInt16.ofNat n)).map (line (UInt16.ofNat n))).toList := by
  have split : List.range' 1 65535 =
      List.range' 1 last ++ List.range' (1 + last) (65535 - last) := by
    rw [List.range'_append_1]
    congr 1
    omega
  have none : (List.range' (1 + last) (65535 - last)).filterMap (fun n =>
      (ns (UInt16.ofNat n)).map (line (UInt16.ofNat n))) = [] := by
    rw [List.filterMap_eq_nil_iff]
    intro n mem
    rw [List.mem_range'_1] at mem
    have number : (UInt16.ofNat n).toNat = n := by
      rw [UInt16.toNat_ofNat']
      exact Nat.mod_eq_of_lt (by omega)
    rw [rest _ (by omega)]
    rfl
  rw [Volume.listed, split, List.filterMap_append, none, List.append_nil,
    List.filterMap_eq_flatMap_toList]

namespace Sound

variable {u : UnixFilesystem} (sound : Sound u)

include sound

/-- The size of a node is that of its inode. -/
theorem size_nodeOf {inr : Nat} {inode : Inode} (allocated : u.f.Allocated u.s inr inode) :
    Volume.size (nodeOf u inode).body = inodeGetsize inode := by
  by_cases directory : inode.isDirectory = true
  · rw [nodeOf, if_pos directory]
    exact (sound.entries_length allocated directory).symm
  · rw [nodeOf, if_neg directory]
    exact fileContent_length u inode (sound.whole allocated)

/-- The line of an inode in the listing. -/
theorem inodeLine_nodeOf {inr : Nat} {inode : Inode} (allocated : u.f.Allocated u.s inr inode)
    (n : UInt16) : Volume.inodeLine n (nodeOf u inode) =
      { inr := n, directory := inode.isDirectory, size := inodeGetsize inode } := by
  rw [Volume.inodeLine, sound.size_nodeOf allocated]
  by_cases directory : inode.isDirectory = true
  · rw [nodeOf, if_pos directory, directory]
  · rw [nodeOf, if_neg directory, Bool.eq_false_iff.mpr directory]

omit sound in
/-- A number of the table is not in use, or is that of an inode. -/
theorem inodeRead_table (geometry : Geometry u) {n : Nat} (low : 1 ≤ n)
    (high : n < 16 * u.s.sIsize.toNat) :
    (namespaceOf u (UInt16.ofNat n) = none ∧ ∃ inode,
        inodeRead u (UInt16.ofNat n) Inode.zero = (errUnallocatedInode, inode)) ∨
      ∃ inode, u.f.Allocated u.s n inode ∧
        namespaceOf u (UInt16.ofNat n) = some (nodeOf u inode) ∧
        inodeRead u (UInt16.ofNat n) Inode.zero = (errNone, inode) := by
  have size := geometry.size
  have number : (UInt16.ofNat n).toNat = n := by
    rw [UInt16.toNat_ofNat']
    exact Nat.mod_eq_of_lt (by omega)
  have inside : 1 ≤ (UInt16.ofNat n).toNat ∧ (UInt16.ofNat n).toNat < u.s.inodes := by
    rw [number, Superblock.inodes]
    exact ⟨low, high⟩
  obtain ⟨inode, there, read⟩ := geometry.tableThere.inodeRead_inside inside Inode.zero
  rw [number] at there
  by_cases used : inode.isAllocated = true
  · have allocated : u.f.Allocated u.s n inode := ⟨there, used⟩
    refine .inr ⟨inode, allocated, ?_, ?_⟩
    · apply namespaceOf_of_allocated
      rw [number]
      exact allocated
    · rw [read, Inode.readCode, if_pos used]
  · refine .inl ⟨?_, inode, ?_⟩
    · rw [namespaceOf_eq_none_iff, number]
      rintro ⟨found, there', used'⟩
      rw [there, Option.some.injEq] at there'
      rw [there'] at used
      exact used used'
    · rw [read, Inode.readCode, if_neg used]

/-- `inode` prints the numbers in use. -/
theorem inodeScanPrint_eq (geometry : Geometry u) :
    inodeScanPrint u = (errNone, (namespaceOf u).listed Volume.inodeLine) := by
  have size := geometry.size
  -- the line of a slot is that of its number
  have slot : ∀ n, 1 ≤ n → n < 16 * u.s.sIsize.toNat →
      stopsListing (inodeScanSlot u (UInt16.ofNat n)).1 = false ∧
        (inodeScanSlot u (UInt16.ofNat n)).2 =
          ((namespaceOf u (UInt16.ofNat n)).map
            (Volume.inodeLine (UInt16.ofNat n))).toList := by
    intro n low high
    rw [inodeScanSlot]
    rcases inodeRead_table geometry low high with
      ⟨none, inode, read⟩ | ⟨inode, allocated, is, read⟩
    · rw [read, none]
      exact ⟨rfl, rfl⟩
    · rw [read, is, Option.map_some, sound.inodeLine_nodeOf allocated]
      exact ⟨rfl, rfl⟩
  have row : ∀ k ∈ List.range (u.s.sIsize.toNat - 1),
      emitAll stopsListing errNone (fun j => inodeScanSlot u (scannedInr k j))
          (List.range inodesPerSector) =
        (errNone, (List.range 16).flatMap fun j => (inodeScanSlot u (scannedInr k j)).2) := by
    intro k inTable
    rw [List.mem_range] at inTable
    apply emitAll_runs
    intro j inRow
    rw [List.mem_range, inodesPerSector] at inRow
    exact (slot (16 * k + j + 1) (by omega) (by omega)).1
  have count : u.s.sIsize.toNat + u.s.sInodeStart.toNat - 1 - u.s.sInodeStart.toNat =
      u.s.sIsize.toNat - 1 := by
    omega
  rw [inodeScanPrint, count, emitAll_runs (by
    intro k mem
    rw [row k mem]
    rfl)]
  have last : u.s.lastScanned ≤ 65535 := by
    rw [Superblock.lastScanned]
    omega
  rw [Volume.listed_upto last (by
    intro n behind
    rw [namespaceOf_eq_none_iff]
    intro used
    exact absurd (sound.visited _ used) (Nat.not_le.mpr behind))]
  have numbers : List.range' 1 u.s.lastScanned =
      (List.range (16 * (u.s.sIsize.toNat - 1))).map fun i => i + 1 := by
    rw [List.range'_eq_map_range, Superblock.lastScanned]
    apply List.map_congr_left
    intro i _
    exact Nat.add_comm 1 i
  rw [numbers, List.flatMap_map, ← flatMap_grid]
  congr 1
  apply List.flatMap_congr
  intro k mem
  have inTable := List.mem_range.mp mem
  rw [row k mem]
  apply List.flatMap_congr
  intro j inRow
  rw [List.mem_range] at inRow
  exact (slot (16 * k + j + 1) (by omega) (by omega)).2

/-- The start of a file, as its blocks have it. -/
theorem hasBytes_take {inr : Nat} {inode : Inode} (allocated : u.f.Allocated u.s inr inode)
    {bytes : List UInt8} {count : Nat} (inside : count ≤ inodeGetsize inode)
    (has : HasBytes u inode bytes 0 count) : bytes = (fileContent u inode).1.take count := by
  have whole := sound.whole allocated
  have length := fileContent_length u inode whole
  apply List.ext_getElem?
  intro i
  rw [List.getElem?_take]
  by_cases short : i < count
  · rw [if_pos short, has.2 i short, Nat.zero_add,
      fileContent_getElem? u inode whole (Nat.lt_of_lt_of_le short inside)]
  · rw [if_neg short, List.getElem?_eq_none]
    rw [has.1]
    exact Nat.not_lt.mp short

/-- `utils_print_shafile` prints the line of its number. -/
theorem utilsPrintShafile_node (geometry : Geometry u) {n : Nat} (low : 1 ≤ n)
    (high : n < 16 * u.s.sIsize.toNat) :
    stopsListing (utilsPrintShafile u (UInt16.ofNat n)).1 = false ∧
      (utilsPrintShafile u (UInt16.ofNat n)).2 =
        ((namespaceOf u (UInt16.ofNat n)).map (Volume.shaLine (UInt16.ofNat n))).toList := by
  rcases inodeRead_table geometry low high with
    ⟨none, inode, read⟩ | ⟨inode, allocated, is, read⟩
  · rw [utilsPrintShafile, filev6Open, read, none]
    exact ⟨rfl, rfl⟩
  · rw [is, Option.map_some, Volume.shaLine, nodeOf]
    by_cases directory : inode.isDirectory = true
    · rw [if_pos directory, utilsPrintShafile, filev6Open, read]
      simp only [ne_eq, not_true_eq_false, if_false, directory, if_true]
      exact ⟨rfl, rfl⟩
    · rw [if_neg directory]
      have file := Bool.eq_false_iff.mpr directory
      obtain ⟨bytes, has, run⟩ :=
        (hashesStart read file).hashed (sound.readable _ inode allocated).start
      have inside : hashedSize inode ≤ inodeGetsize inode := Nat.min_le_left _ _
      have length := fileContent_length u inode (sound.whole allocated)
      have same : (fileContent u inode).1.take (hashedSize inode) =
          (fileContent u inode).1.take utilsHashedLength := by
        rw [hashedSize, Nat.min_comm, ← List.take_take, ← length, List.take_length]
      rw [run, sound.hasBytes_take allocated inside has, same]
      exact ⟨rfl, rfl⟩

omit sound in
/-- The listing of digests goes through the table when no number stops it. -/
theorem shaSectors_runs (geometry : Geometry u)
    (fine : ∀ n, 1 ≤ n → n < 16 * u.s.sIsize.toNat →
      stopsListing (utilsPrintShafile u (UInt16.ofNat n)).1 = false) (fuel : Nat) :
    ∀ k ≤ u.s.sIsize.toNat, u.s.sIsize.toNat < fuel + k →
      shaSectors u fuel (UInt16.ofNat (u.s.sInodeStart.toNat + k)) = some (errNone,
        (List.range' (firstListed k) (16 * u.s.sIsize.toNat - firstListed k)).flatMap
          fun n => (utilsPrintShafile u (UInt16.ofNat n)).2) := by
  have size := geometry.size
  have data := geometry.data
  have bound := u.s.sBlockStart.toNat_lt
  induction fuel with
  | zero =>
    intro k inTable enough
    omega
  | succ fuel ih =>
    intro k inTable enough
    have number : (UInt16.ofNat (u.s.sInodeStart.toNat + k)).toNat =
        u.s.sInodeStart.toNat + k := by
      rw [UInt16.toNat_ofNat']
      exact Nat.mod_eq_of_lt (by omega)
    rw [shaSectors, number]
    by_cases past : u.s.sIsize.toNat ≤ k
    · have none : 16 * u.s.sIsize.toNat - firstListed k = 0 := by
        rw [firstListed]
        omega
      rw [if_neg (by omega), none]
      rfl
    · have inside : k < u.s.sIsize.toNat := Nat.not_le.mp past
      have numbers := @shaSlots_numbers u k (by omega)
      have present := List.getElem?_eq_getElem (geometry.table_inside inside)
      have row : ∀ inodeIndex ∈ shaSlots u (UInt16.ofNat (u.s.sInodeStart.toNat + k)),
          firstListed k ≤ inodeIndex + 16 * k ∧ inodeIndex + 16 * k < 16 * (k + 1) := by
        intro inodeIndex slot
        have listed := List.mem_map_of_mem (f := fun i => i + 16 * k) slot
        rw [numbers.1, List.mem_range'_1] at listed
        rw [firstListed] at listed ⊢
        omega
      rw [if_pos (by omega), sectorRead_faultless geometry.works, present]
      have lines := @emitAll_runs _ _ _ stopsListing errNone
        (fun inodeIndex => utilsPrintShafile u
          (shaInr u (UInt16.ofNat (u.s.sInodeStart.toNat + k)) inodeIndex))
        (shaSlots u (UInt16.ofNat (u.s.sInodeStart.toNat + k))) (by
          intro inodeIndex slot
          have bounds := row inodeIndex slot
          rw [numbers.2]
          rw [firstListed] at bounds
          exact fine _ (by omega) (by omega))
      have rest := ih (k + 1) inside (by omega)
      have split : 16 * u.s.sIsize.toNat - firstListed k =
          16 * (k + 1) - firstListed k + (16 * u.s.sIsize.toNat - firstListed (k + 1)) := by
        rw [firstListed, firstListed]
        omega
      have start : firstListed (k + 1) = firstListed k + (16 * (k + 1) - firstListed k) := by
        rw [firstListed, firstListed]
        omega
      simp only [lines, nextSector, rest, ne_eq, not_true_eq_false, if_false, Option.map_some]
      rw [split, ← List.range'_append_1, List.flatMap_append, ← start, ← numbers.1,
        List.flatMap_map]
      simp only [numbers.2]

/-- `shafiles` prints the numbers in use. -/
theorem utilsPrintShaAllfiles_eq (geometry : Geometry u) :
    utilsPrintShaAllfiles u = some (errNone, (namespaceOf u).listed Volume.shaLine) := by
  have size := geometry.size
  have start : UInt16.ofNat (u.s.sInodeStart.toNat + 0) = u.s.sInodeStart := by
    rw [Nat.add_zero, UInt16.ofNat_toNat]
  have lines := fun n low high => sound.utilsPrintShafile_node geometry (n := n) low high
  rw [utilsPrintShaAllfiles, ← start,
    shaSectors_runs geometry (fun n low high => (lines n low high).1) _ 0 (Nat.zero_le _)
      (by omega)]
  have last : 16 * u.s.sIsize.toNat - 1 ≤ 65535 := by omega
  rw [Volume.listed_upto last (by
    intro n behind
    rw [namespaceOf_eq_none_iff]
    rintro used
    have visited := sound.visited _ used
    rw [Superblock.lastScanned] at visited
    omega)]
  have first : firstListed 0 = 1 := rfl
  rw [first]
  congr 2
  apply List.flatMap_congr
  intro n mem
  rw [List.mem_range'_1] at mem
  exact (lines n (by omega) (by omega)).2

/-- `cat1` prints the start of a file. -/
theorem utilsCatFirstSector_cats (n : UInt16) :
    (namespaceOf u).Cats n (utilsCatFirstSector u n).1 (utilsCatFirstSector u n).2 := by
  have works := sound.image.regions.works
  rcases is : namespaceOf u n with _ | node
  · have unused := namespaceOf_eq_none_iff.mp is
    cases opened : filev6Open u n with
    | error code =>
      rw [utilsCatFirstSector, opened]
      exact .unused is (filev6Open_error works opened).1
    | ok fv6 => exact absurd ⟨_, (filev6Open_ok opened).1⟩ unused
  · obtain ⟨inode, allocated, rfl⟩ := namespaceOf_eq_some_iff.mp is
    have size := sound.size_nodeOf allocated
    rw [utilsCatFirstSector, filev6Open_of_allocated works allocated]
    by_cases directory : inode.isDirectory = true
    · simp only [directory, if_true]
      rw [nodeOf, if_pos directory] at is size
      exact .directory is rfl size.symm
    · simp only [directory, Bool.false_eq_true, if_false]
      rw [nodeOf, if_neg directory] at is size
      have whole := sound.whole allocated
      have length := fileContent_length u inode whole
      have printed : ∀ bytes, bytes = (fileContent u inode).1.take sectorSize →
          (namespaceOf u).Cats n errNone (.sector n (utilsPrintInode inode) bytes) := by
        rintro bytes rfl
        exact .file is rfl size.symm
      have place : AtSector { iNumber := n, iNode := inode, offset := 0 } :=
        ⟨Nat.zero_le _, .inl rfl⟩
      rcases @filev6Readblock_cases u _ place with
        ⟨ends, read⟩ | ⟨more, ⟨code, negative, failed, read⟩ | ⟨count, bytes, -, is, -, has, read⟩⟩
      · rw [read]
        apply printed
        rw [List.length_eq_zero_iff.mp (length.trans ends.symm)]
        rfl
      · obtain ⟨sector, block⟩ := sound.readable _ inode allocated 0 (by
          simp only at more
          rw [sectorCount]
          omega)
        rw [Nat.zero_div, block] at failed
        cases failed
      · simp only [Nat.sub_zero] at is has
        rw [read]
        simp only [if_neg (Int.not_lt.mpr (Int.natCast_nonneg count)), Int.toNat_natCast]
        apply printed
        have inside : count ≤ inodeGetsize inode := by omega
        rw [← has.1, List.take_length, sound.hasBytes_take allocated inside has, is, ← length,
          ← List.take_take, List.take_length]

end Sound

/-- A command prints something and returns, and leaves the disk file as it is. -/
def Prints (f : Disk) (name : String) (argc : Nat) (output : Output) : Prop :=
  ∀ (env : Environment) (fuel : Nat), env.opens = true → isCommand env.argv name argc = true →
    env.u6fsDoOneCmd fuel f = some (if env.closes then errNone else errIo, output, f)

/-- What the commands print of a disk file with certain files and directories. -/
structure Volume.Printed (ns : Volume) (f : Disk) : Prop where
  /-- `inode` prints the numbers in use. -/
  inodes : Prints f "inode" 3 (.inodes (ns.listed Volume.inodeLine))
  /-- `shafiles` prints them, with the digests of files. -/
  shafiles : Prints f "shafiles" 3 (.shafiles (ns.listed Volume.shaLine))
  /-- `tree` prints all paths. -/
  tree : PrintsTree f ns.treeLines
  /-- `cat1` prints the start of a file, whose number is taken modulo 2¹⁶. -/
  cat : ∀ (env : Environment) (fuel : Nat) (value : Int), env.opens = true →
    isCommand env.argv "cat1" 4 = true → atoi (env.argv.getD 3 []) = some value →
    value ≠ 0 → value ≠ 2 ^ 31 - 1 → value ≠ -2 ^ 31 →
    ∃ code text, ns.Cats (UInt16.ofNat (value % 2 ^ 16).toNat) code text ∧
      env.u6fsDoOneCmd fuel f =
        some (if code = errNone then if env.closes then errNone else errIo else code, .cat text, f)

/-- On a volume in good health whose records form a tree, the commands print what it has. -/
theorem Healthy.printed {u : UnixFilesystem} (healthy : Healthy u)
    (tree : Namespace.Tree (namespaceOf u) 1) : (namespaceOf u).Printed u.f := by
  have geometry := healthy.geometry
  constructor
  case inodes =>
    intro env fuel opens is
    have run : runCommand fuel env u =
        some (errNone, .inodes ((namespaceOf u).listed Volume.inodeLine), u) := by
      rw [runCommand, if_pos is, healthy.inodeScanPrint_eq geometry]
    rw [u6fsDoOneCmd_eq opens is healthy.mounted, run, Option.map_some]
    rfl
  case shafiles =>
    intro env fuel opens is
    have other {name : String} {argc : Nat} (ne : literal "shafiles" ≠ literal name) :
        isCommand env.argv name argc = false := isCommand_other is ne
    have run : runCommand fuel env u =
        some (errNone, .shafiles ((namespaceOf u).listed Volume.shaLine), u) := by
      rw [runCommand]
      simp only [other (by decide : literal "shafiles" ≠ literal "inode"),
        other (by decide : literal "shafiles" ≠ literal "sb"), is, Bool.false_eq_true, if_false,
        if_true, healthy.utilsPrintShaAllfiles_eq geometry, Option.map_some]
    rw [u6fsDoOneCmd_eq opens is healthy.mounted, run, Option.map_some]
    rfl
  case tree => exact healthy.printsTree tree
  case cat =>
    intro env fuel value opens is number zero largest smallest
    have other {name : String} {argc : Nat} (ne : literal "cat1" ≠ literal name) :
        isCommand env.argv name argc = false := isCommand_other is ne
    have cats := healthy.utilsCatFirstSector_cats (UInt16.ofNat (value % 2 ^ 16).toNat)
    have taken : ¬(value = 0 ∨ value = 2 ^ 31 - 1 ∨ value = -2 ^ 31) := by
      rintro (same | same | same)
      · exact zero same
      · exact largest same
      · exact smallest same
    have run : runCommand fuel env u = some
        ((utilsCatFirstSector u (UInt16.ofNat (value % 2 ^ 16).toNat)).1,
          .cat (utilsCatFirstSector u (UInt16.ofNat (value % 2 ^ 16).toNat)).2, u) := by
      rw [runCommand]
      simp only [other (by decide : literal "cat1" ≠ literal "inode"),
        other (by decide : literal "cat1" ≠ literal "sb"),
        other (by decide : literal "cat1" ≠ literal "shafiles"), is, Bool.false_eq_true, if_false,
        if_true, catCommand, number, if_neg taken, Option.map_some]
    refine ⟨_, _, cats, ?_⟩
    rw [u6fsDoOneCmd_eq opens is healthy.mounted, run, Option.map_some]

/-- After any life of the disk file of a volume in good health whose records form a tree, the
commands print what the requests have made, on every machine that works. -/
theorem life_printed {u : UnixFilesystem} (healthy : Healthy u)
    (tree : Namespace.Tree (namespaceOf u) 1) {requests : List Request} {sectors : List Sector}
    (life : Life u.f.sectors requests sectors) :
    ∃ ns, (namespaceOf u).Life requests ns ∧
      ∀ f : Disk, f.sectors = sectors → f.host.Faultless → ns.Printed f := by
  obtain ⟨ns, recovers, lives⟩ := life_refines healthy life
  refine ⟨ns, lives, fun f same works => ?_⟩
  obtain ⟨w, mounted, -, well, rfl⟩ := recovers f same works
  obtain ⟨rfl, -⟩ := mountv6_coherent mounted
  exact well.printed (lives.tree tree)

/-- After the `mkdir` that is cut off, the commands print what the empty volume has become. -/
theorem life_printed_empty : ∃ u f ns, mountv6 emptyVolume = .ok u ∧
    (namespaceOf u).Life [.mkdir (literal "/a"), .mkdir (literal "/c")] ns ∧ ns.Printed f := by
  obtain ⟨u, f, v, output, f', mounted, life, works, -⟩ := emptyVolume_life
  obtain ⟨ns, lives, printed⟩ :=
    life_printed (emptyVolume_healthy mounted) (emptyVolume_tree mounted) life
  exact ⟨u, f, ns, mounted, lives, printed f rfl works⟩

end U6fs
