import Mathlib.Data.FinEnum
import U6fs.Lib.Tree
import U6fs.Verif.Lookup

/-!
# Listing the tree

`direntv6_print_tree` calls itself for every directory that a record names, whatever its number.
The listing ends when no cycle of directories can be reached, and then it has a line for every path
that can be looked up, in the order of the records on the disk. It never succeeds on a cycle.
-/
namespace U6fs

open Lib

/-- The records that a listing of a number goes through; none if it is no directory. -/
def treeEntries (u : UnixFilesystem) (inr : UInt16) : List (UInt16 × List UInt8) :=
  match direntv6Opendir u inr (Block.fill sectorSize 0) with
  | .error _ => []
  | .ok d => dirEntries u d.fv6.iNode

/-- A list of records is listed in turn, up to the first one that fails; `last` is the code at its
end. -/
def printEntries (record : UInt16 → List UInt8 → Option (Int × List TreeLine)) (last : Int) :
    List (UInt16 × List UInt8) → Option (Int × List TreeLine)
  | [] => some (last, [])
  | (childInr, name) :: entries =>
    match record childInr name with
    | none => none
    | some (ret, lines) =>
      if ret ≠ errNone then some (ret, lines)
      else (printEntries record last entries).map fun (ret, rest) => (ret, lines ++ rest)

/-- The directories that can be reached from the root form no cycle and can be listed. -/
structure Listable (u : UnixFilesystem) : Prop where
  /-- The root is an allocated directory. -/
  root : ∃ inode, inodeRead u 1 Inode.zero = (errNone, inode) ∧ inode.isDirectory = true
  /-- There is no cycle. -/
  acyclic : Acyclic (treeEntries u) 1
  /-- Every directory can be listed. -/
  directories : ∀ inr inode, Relation.ReflTransGen (Child (treeEntries u)) 1 inr →
    inodeRead u inr Inode.zero = (errNone, inode) → inode.isDirectory = true →
      ListableDirectory u inode

section Loops

variable (u : UnixFilesystem)

/-- The loop goes through the records that a caller enumerates. -/
theorem printTreeLoop_eq (printTree : UInt16 → List UInt8 → Option (Int × List TreeLine))
    (pathPrefix : List UInt8) (fuel : Nat) :
    ∀ d entries (code : Int), readEntries u fuel d = some (entries, code) →
      ∃ first, direntv6Readdir u d = some first ∧
        (entries = [] ∧ first.code = code ∨ entries ≠ [] ∧ first.code = 1) ∧
        printTreeLoop u printTree pathPrefix fuel first =
          printEntries (printTreeRecord u printTree pathPrefix) code entries := by
  induction fuel with
  | zero =>
    intro d entries code run
    cases run
  | succ fuel ih =>
    intro d entries code run
    rw [readEntries] at run
    cases read : direntv6Readdir u d with
    | none =>
      rw [read] at run
      cases run
    | some first =>
      rw [read] at run
      refine ⟨first, rfl, ?_⟩
      cases first with
      | done after ret =>
        cases run
        exact ⟨.inl ⟨rfl, rfl⟩, rfl⟩
      | entry after name childInr =>
        obtain ⟨⟨rest, last⟩, inner, same⟩ := Option.map_eq_some_iff.mp run
        cases same
        obtain ⟨next, read', -, tail⟩ := ih after rest code inner
        refine ⟨.inr ⟨List.cons_ne_nil _ _, rfl⟩, ?_⟩
        rw [printTreeLoop, printEntries]
        cases printTreeRecord u printTree pathPrefix childInr name with
        | none => rfl
        | some result => simp only [read', tail]

/-- The loop gives what it gave when the listing of directories does. -/
theorem printTreeLoop_mono
    {printTree printTree' : UInt16 → List UInt8 → Option (Int × List TreeLine)}
    (more : ∀ inr name result, printTree inr name = some result →
      printTree' inr name = some result) {pathPrefix : List UInt8} (fuel : Nat) :
    ∀ first result, printTreeLoop u printTree pathPrefix fuel first = some result →
      printTreeLoop u printTree' pathPrefix fuel first = some result := by
  have record : ∀ childInr name result,
      printTreeRecord u printTree pathPrefix childInr name = some result →
        printTreeRecord u printTree' pathPrefix childInr name = some result := by
    intro childInr name result run
    rw [printTreeRecord] at run ⊢
    split at run
    split at run
    · rename_i failed
      rw [if_pos failed]
      exact run
    · rename_i ok
      rw [if_neg ok]
      split at run
      · rename_i directory
        rw [if_pos directory]
        exact more _ _ _ run
      · rename_i file
        rw [if_neg file]
        exact run
  induction fuel with
  | zero =>
    intro first result run
    cases first with
    | done => exact run
    | entry => cases run
  | succ fuel ih =>
    intro first result run
    cases first with
    | done => exact run
    | entry d name childInr =>
      rw [printTreeLoop] at run ⊢
      cases inner : printTreeRecord u printTree pathPrefix childInr name with
      | none =>
        rw [inner] at run
        cases run
      | some listed =>
        rw [inner] at run
        rw [record _ _ _ inner]
        simp only at run ⊢
        split
        · rename_i failed
          rw [if_pos failed] at run
          exact run
        · rename_i ok
          rw [if_neg ok] at run
          cases next : direntv6Readdir u d with
          | none =>
            rw [next] at run
            cases run
          | some next' =>
            rw [next] at run
            obtain ⟨rest, tail, same⟩ := Option.map_eq_some_iff.mp run
            simp only [ih next' rest tail, Option.map_some, same]

/-- More fuel gives the same listing. -/
theorem direntv6PrintTree_mono {n m : Nat} (enough : n ≤ m) {inr : UInt16}
    {pathPrefix : List UInt8} {result : Int × List TreeLine}
    (run : direntv6PrintTree u n inr pathPrefix = some result) :
    direntv6PrintTree u m inr pathPrefix = some result := by
  induction n generalizing m inr pathPrefix result with
  | zero => cases run
  | succ n ih =>
    obtain ⟨m, rfl⟩ := Nat.exists_eq_succ_of_ne_zero (Nat.ne_of_gt (Nat.zero_lt_of_lt enough))
    rw [direntv6PrintTree] at run ⊢
    cases opened : direntv6Opendir u inr (u.f.host.stack u.f.time) with
    | error ret =>
      rw [opened] at run
      exact run
    | ok d =>
      rw [opened] at run
      simp only at run ⊢
      cases read : direntv6Readdir u d with
      | none =>
        rw [read] at run
        cases run
      | some first =>
        rw [read] at run
        simp only at run ⊢
        split
        · rename_i failed
          rw [if_pos failed] at run
          exact run
        · rename_i ok
          rw [if_neg ok] at run
          obtain ⟨listed, inner, same⟩ := Option.map_eq_some_iff.mp run
          have again := printTreeLoop_mono u (fun _ _ _ => ih (Nat.le_of_succ_le_succ enough)) _ _ _
            inner
          rw [again, Option.map_some, same]

end Loops

section Directories

variable (u : UnixFilesystem)

/-- What opening a directory depends on. -/
theorem direntv6Opendir_eq (inr : UInt16) (dirs : Sector) : direntv6Opendir u inr dirs =
    if (inodeRead u inr Inode.zero).1 ≠ errNone then .error (inodeRead u inr Inode.zero).1
    else if (inodeRead u inr Inode.zero).2.isDirectory then
      .ok { fv6 := { iNumber := inr, iNode := (inodeRead u inr Inode.zero).2, offset := 0 }, dirs
            cur := 0, last := 0 }
    else .error errInvalidDirectoryInode := by
  rw [direntv6Opendir, filev6Open]
  cases read : inodeRead u inr Inode.zero with
  | mk error inode =>
    simp only
    by_cases failed : error ≠ errNone
    · rw [if_pos failed, if_pos failed]
    · rw [if_neg failed, if_neg failed]
      cases directory : inode.isDirectory <;> simp [directory]

/-- The number of a directory that can be read is opened, whatever records the reader holds
before. -/
theorem direntv6Opendir_of_read {inr : UInt16} {inode : Inode}
    (read : inodeRead u inr Inode.zero = (errNone, inode)) (directory : inode.isDirectory = true) :
    treeEntries u inr = dirEntries u inode ∧ ∀ dirs, direntv6Opendir u inr dirs =
      .ok { fv6 := { iNumber := inr, iNode := inode, offset := 0 }, dirs, cur := 0
            last := 0 } := by
  have opened : ∀ dirs, direntv6Opendir u inr dirs =
      .ok { fv6 := { iNumber := inr, iNode := inode, offset := 0 }, dirs, cur := 0
            last := 0 } := by
    intro dirs
    rw [direntv6Opendir_eq, read, if_neg (not_not.mpr rfl), if_pos directory]
  exact ⟨by rw [treeEntries, opened], opened⟩

/-- Every other number is refused. -/
theorem direntv6Opendir_cases (inr : UInt16) :
    (∃ code < 0, treeEntries u inr = [] ∧ ∀ dirs, direntv6Opendir u inr dirs = .error code) ∨
    ∃ inode, inodeRead u inr Inode.zero = (errNone, inode) ∧ inode.isDirectory = true := by
  have same := direntv6Opendir_eq u inr
  split at same
  · left
    refine ⟨_, (direntv6Opendir_error (same (Block.fill sectorSize 0))).1, ?_, same⟩
    rw [treeEntries, same]
  · rename_i ok
    split at same
    · rename_i directory
      exact .inr ⟨_, Prod.ext (not_not.mp ok) rfl, directory⟩
    · left
      refine ⟨_, (direntv6Opendir_error (same (Block.fill sectorSize 0))).1, ?_, same⟩
      rw [treeEntries, same]

/-- A number that cannot be opened is not listed. -/
theorem direntv6PrintTree_error {inr : UInt16} {code : Int}
    (refused : ∀ dirs, direntv6Opendir u inr dirs = .error code) (fuel : Nat)
    (pathPrefix : List UInt8) :
    direntv6PrintTree u (fuel + 1) inr pathPrefix = some (code, []) := by
  rw [direntv6PrintTree, refused]

/-- A directory of whole records is listed record by record, unless it cannot be read at all. -/
theorem direntv6PrintTree_opened {inr : UInt16} {inode : Inode}
    (opened : ∀ dirs, direntv6Opendir u inr dirs =
      .ok { fv6 := { iNumber := inr, iNode := inode, offset := 0 }, dirs, cur := 0, last := 0 })
    (whole : inodeGetsize inode % 16 = 0) (fuel : Nat) (pathPrefix : List UInt8) :
    direntv6PrintTree u (fuel + 1) inr pathPrefix =
      if dirEntries u inode = [] ∧ (fileContent u inode).2 < 0 then
        some ((fileContent u inode).2, [])
      else
        (printEntries (printTreeRecord u (direntv6PrintTree u fuel) pathPrefix)
          (fileContent u inode).2 (dirEntries u inode)).map
            fun (ret, lines) => (ret, dirLine inr pathPrefix :: lines) := by
  have there := opened (u.f.host.stack u.f.time)
  obtain ⟨first, read, code, loop⟩ := printTreeLoop_eq u (direntv6PrintTree u fuel) pathPrefix _ _
    _ _ (readEntries_eq there whole)
  rw [direntv6PrintTree, there]
  simp only [read, loop]
  rcases code with ⟨none, same⟩ | ⟨more, one⟩
  · by_cases negative : (fileContent u inode).2 < 0
    · rw [if_pos (by rw [same]; exact negative), if_pos ⟨none, negative⟩, same]
    · rw [if_neg (by rw [same]; exact negative), if_neg fun both => negative both.2]
  · rw [if_neg (by omega), if_neg fun both => more both.1]

end Directories

section Termination

variable {u : UnixFilesystem}

/-- Records are listed when each of them is. -/
theorem printEntries_defined {record : UInt16 → List UInt8 → Option (Int × List TreeLine)}
    {last : Int} {entries : List (UInt16 × List UInt8)}
    (defined : ∀ entry ∈ entries, ∃ result, record entry.1 entry.2 = some result) :
    ∃ result, printEntries record last entries = some result := by
  induction entries with
  | nil => exact ⟨(last, []), rfl⟩
  | cons entry entries ih =>
    obtain ⟨⟨ret, lines⟩, first⟩ := defined entry List.mem_cons_self
    obtain ⟨⟨code, rest⟩, tail⟩ := ih fun other mem => defined other (List.mem_cons_of_mem _ mem)
    rw [printEntries, first]
    simp only [tail, Option.map_some]
    split
    · exact ⟨_, rfl⟩
    · exact ⟨_, rfl⟩

/-- Records are listed without an error only if each of them is. -/
theorem printEntries_ok {record : UInt16 → List UInt8 → Option (Int × List TreeLine)}
    {last : Int} {entries : List (UInt16 × List UInt8)} {lines : List TreeLine}
    (run : printEntries record last entries = some (errNone, lines)) :
    ∀ entry ∈ entries, ∃ lines, record entry.1 entry.2 = some (errNone, lines) := by
  induction entries generalizing lines with
  | nil =>
    intro entry mem
    cases mem
  | cons entry entries ih =>
    rw [printEntries] at run
    cases first : record entry.1 entry.2 with
    | none =>
      rw [first] at run
      cases run
    | some result =>
      obtain ⟨ret, own⟩ := result
      rw [first] at run
      simp only at run
      by_cases failed : ret ≠ errNone
      · rw [if_pos failed] at run
        cases run
        exact absurd rfl failed
      · rw [if_neg failed] at run
        obtain ⟨⟨code, rest⟩, tail, same⟩ := Option.map_eq_some_iff.mp run
        cases same
        intro other mem
        rcases List.mem_cons.mp mem with rfl | mem
        · exact ⟨own, by rw [first, not_not.mp failed]⟩
        · exact ih tail other mem

variable (whole : u.f.WholeRecords u.s)

include whole

/-- A directory that is opened has whole records. -/
theorem whole_of_opened {inr : UInt16} {inode : Inode}
    (opened : ∀ dirs, direntv6Opendir u inr dirs =
      .ok { fv6 := { iNumber := inr, iNode := inode, offset := 0 }, dirs, cur := 0, last := 0 }) :
    inodeGetsize inode % 16 = 0 := by
  obtain ⟨allocated, directory, -⟩ := direntv6Opendir_ok (opened (Block.fill sectorSize 0))
  exact whole inr.toNat inode allocated directory

/-- A listing ends when the paths from its directory have fewer names than the fuel. -/
theorem direntv6PrintTree_defined {fuel : Nat} : ∀ {depth : Nat} {inr : UInt16}
    (pathPrefix : List UInt8), Shallow (treeEntries u) depth inr → depth < fuel →
      ∃ result, direntv6PrintTree u fuel inr pathPrefix = some result := by
  induction fuel with
  | zero =>
    intro depth inr pathPrefix _ enough
    exact absurd enough (Nat.not_lt_zero depth)
  | succ fuel ih =>
    intro depth inr pathPrefix shallow enough
    rcases direntv6Opendir_cases u inr with ⟨code, -, -, refused⟩ | ⟨inode, read, directory⟩
    · exact ⟨_, direntv6PrintTree_error u refused fuel pathPrefix⟩
    · obtain ⟨entries, opened⟩ := direntv6Opendir_of_read u read directory
      have records : ∀ entry ∈ dirEntries u inode, ∃ result,
          printTreeRecord u (direntv6PrintTree u fuel) pathPrefix entry.1 entry.2 =
            some result := by
        intro entry mem
        rw [← entries] at mem
        obtain ⟨less, rfl, below⟩ := shallow.child mem
        rw [printTreeRecord]
        split
        split
        · exact ⟨_, rfl⟩
        · split
          · exact ih _ below (by omega)
          · exact ⟨_, rfl⟩
      obtain ⟨result, listed⟩ := printEntries_defined records
      rw [direntv6PrintTree_opened u opened (whole_of_opened whole opened), listed]
      split
      · exact ⟨_, rfl⟩
      · exact ⟨_, rfl⟩

/-- A listing that returns no error has gone down every path. -/
theorem direntv6PrintTree_shallow {fuel : Nat} : ∀ {inr : UInt16} {pathPrefix : List UInt8}
    {lines : List TreeLine}, direntv6PrintTree u fuel inr pathPrefix = some (errNone, lines) →
      Shallow (treeEntries u) fuel inr := by
  induction fuel with
  | zero =>
    intro inr pathPrefix lines run
    cases run
  | succ fuel ih =>
    intro inr pathPrefix lines run names b leads
    rcases direntv6Opendir_cases u inr with ⟨code, negative, -, refused⟩ |
      ⟨inode, read, directory⟩
    · rw [direntv6PrintTree_error u refused] at run
      cases run
      exact absurd negative (by decide)
    · obtain ⟨entries, opened⟩ := direntv6Opendir_of_read u read directory
      rw [direntv6PrintTree_opened u opened (whole_of_opened whole opened)] at run
      split at run
      · rename_i failed
        have same : (fileContent u inode).2 = errNone := (Prod.mk.inj (Option.some.inj run)).1
        rw [same] at failed
        exact absurd failed.2 (by decide)
      · obtain ⟨⟨ret, rest⟩, listed, same⟩ := Option.map_eq_some_iff.mp run
        cases same
        cases leads with
        | here => exact Nat.zero_le _
        | @step _ child _ name names record leads =>
          rw [entries] at record
          obtain ⟨below, inner⟩ := printEntries_ok listed _ record
          have bound : names.length ≤ fuel := by
            rw [printTreeRecord] at inner
            split at inner
            rename_i retInode found found'
            split at inner
            · rename_i failed
              exact absurd (Prod.mk.inj (Option.some.inj inner)).1 failed
            · split at inner
              · exact ih inner names b leads
              · -- nothing is below a file
                rename_i file
                have none : treeEntries u child = [] := by
                  rcases direntv6Opendir_cases u child with ⟨-, -, none, -⟩ |
                    ⟨other, again, directory'⟩
                  · exact none
                  · rw [found'] at again
                    cases again
                    exact absurd directory' file
                cases leads with
                | here => exact Nat.zero_le _
                | step record' =>
                  rw [none] at record'
                  cases record'
          rw [List.length_cons]
          omega

end Termination

/-- There are 65536 inode numbers. -/
theorem card_inumbers : Fintype.card UInt16 = 65536 := by
  rw [Fintype.card_congr ⟨UInt16.toFin, UInt16.ofFin, fun _ => rfl, fun _ => rfl⟩,
    Fintype.card_fin]

/-- The listing of the tree of a mounted volume whose directories have whole records ends when no
cycle of directories can be reached from the root; and on a cycle it does not return
`ERR_NONE`. -/
theorem direntv6PrintTree_terminates {f : Disk} {u : UnixFilesystem} (mounted : mountv6 f = .ok u)
    (whole : f.WholeRecords u.s) :
    (Acyclic (treeEntries u) 1 →
      ∃ result, ∀ fuel > 65536, direntv6PrintTree u fuel 1 [] = some result) ∧
    ∀ fuel lines, direntv6PrintTree u fuel 1 [] = some (errNone, lines) →
      Acyclic (treeEntries u) 1 := by
  obtain ⟨rfl, -⟩ := mountv6_coherent mounted
  constructor
  · intro acyclic
    have shallow := acyclic.shallow
    rw [card_inumbers] at shallow
    obtain ⟨result, listed⟩ := direntv6PrintTree_defined whole [] shallow (Nat.lt_succ_self _)
    exact ⟨result, fun fuel enough => direntv6PrintTree_mono u enough listed⟩
  · intro fuel lines listed
    exact (direntv6PrintTree_shallow whole listed).acyclic

set_option maxRecDepth 10000 in
/-- On a volume whose root has a record for itself, the listing does not end. -/
theorem direntv6PrintTree_endless :
    singleVolume.WellFormed (volumeSuperblock 2 6) ∧
      ∃ u, mountv6 singleVolume = .ok u ∧ ∀ fuel, direntv6PrintTree u fuel 1 [] = none := by
  refine ⟨singleVolume_wellFormed, ?_⟩
  obtain ⟨u, mounted, entries, read, directory⟩ := mountv6_check (f := singleVolume)
    (P := fun u => treeEntries u 1 = [(1, [114])] ∧
      inodeRead u 1 Inode.zero = (errNone, singleDirectory) ∧ singleDirectory.isDirectory = true)
    (by decide +kernel)
  refine ⟨u, mounted, fun fuel => ?_⟩
  have endless : ∀ pathPrefix, direntv6PrintTree u fuel 1 pathPrefix = none := by
    induction fuel with
    | zero => exact fun _ => rfl
    | succ fuel ih =>
      intro pathPrefix
      obtain ⟨same, opened⟩ := direntv6Opendir_of_read u read directory
      have whole : inodeGetsize singleDirectory % 16 = 0 := by
        rw [singleDirectory_size]
      have record : printTreeRecord u (direntv6PrintTree u fuel) pathPrefix 1 [114] = none := by
        rw [printTreeRecord, read]
        simp only [directory, if_true, ih]
        rfl
      rw [direntv6PrintTree_opened u opened whole, ← same, entries, printEntries, record,
        Option.map_none, if_neg fun both => List.cons_ne_nil _ _ both.1]
  exact endless []

set_option maxRecDepth 10000 in
/-- The listing of the empty volume ends. -/
theorem direntv6PrintTree_terminates_empty :
    ∃ u, mountv6 emptyVolume = .ok u ∧ Acyclic (treeEntries u) 1 ∧
      ∃ result, ∀ fuel > 65536, direntv6PrintTree u fuel 1 [] = some result := by
  obtain ⟨u, mounted, whole, lists⟩ := mountv6_check (f := emptyVolume)
    (P := fun u => emptyVolume.WholeRecords u.s ∧
      (direntv6PrintTree u 1 1 []).map Prod.fst = some errNone) (by decide +kernel)
  have ends := direntv6PrintTree_terminates mounted whole
  obtain ⟨⟨code, lines⟩, listed, rfl⟩ := Option.map_eq_some_iff.mp lists
  have acyclic := ends.2 1 lines listed
  exact ⟨u, mounted, acyclic, ends.1 acyclic⟩

/-- The line for a path below a prefix that leads to an inode. -/
def treeLine (u : UnixFilesystem) (pathPrefix : List UInt8) (entry : List (List UInt8) × UInt16) :
    TreeLine :=
  if (inodeRead u entry.2 Inode.zero).2.isDirectory then
    .dir (pathPrefix ++ joined pathToken entry.1 ++ [pathToken])
  else .fil (pathPrefix ++ joined pathToken entry.1)

/-- The line of a path below the prefix of a directory. -/
theorem treeLine_cons (u : UnixFilesystem) (pathPrefix name : List UInt8)
    (names : List (List UInt8)) (inr : UInt16) :
    treeLine u pathPrefix (name :: names, inr) =
      treeLine u (pathPrefix ++ pathToken :: name) (names, inr) := by
  have path : pathPrefix ++ joined pathToken (name :: names) =
      pathPrefix ++ pathToken :: name ++ joined pathToken names := by
    rw [joined_cons, List.append_assoc]
  rw [treeLine, path, treeLine]

/-- The line of a directory that is not the root. -/
theorem dirLine_of_ne {inr : UInt16} (other : inr ≠ 1) (pathPrefix : List UInt8) :
    dirLine inr pathPrefix = .dir (pathPrefix ++ [pathToken]) := if_neg other

/-- The line of a record for a directory. -/
theorem treeLine_dir (u : UnixFilesystem) {pathPrefix name : List UInt8} {inr : UInt16}
    {inode : Inode} (read : inodeRead u inr Inode.zero = (errNone, inode))
    (directory : inode.isDirectory = true) :
    treeLine u pathPrefix ([name], inr) =
      .dir (pathPrefix ++ pathToken :: name ++ [pathToken]) := by
  rw [treeLine, read, if_pos directory, joined_singleton]

/-- Listed records that all succeed are listed one after the other. -/
theorem printEntries_listed {record : UInt16 → List UInt8 → Option (Int × List TreeLine)}
    {lines : UInt16 × List UInt8 → List TreeLine} {entries : List (UInt16 × List UInt8)}
    (listed : ∀ entry ∈ entries, record entry.1 entry.2 = some (errNone, lines entry)) :
    printEntries record errNone entries = some (errNone, entries.flatMap lines) := by
  induction entries with
  | nil => rfl
  | cons entry entries ih =>
    rw [printEntries, listed entry List.mem_cons_self]
    simp only
    rw [if_neg (not_not.mpr rfl), ih fun other mem => listed other (List.mem_cons_of_mem _ mem),
      Option.map_some, List.flatMap_cons]

section Agreement

variable {u : UnixFilesystem}
  (directories : ∀ inr inode, Relation.ReflTransGen (Child (treeEntries u)) 1 inr →
    inodeRead u inr Inode.zero = (errNone, inode) → inode.isDirectory = true →
      ListableDirectory u inode)

include directories

/-- A directory that can be listed has a line for itself, and then one for every path below it. -/
theorem direntv6PrintTree_lines {depth : Nat} : ∀ {inr : UInt16} {inode : Inode}
    (pathPrefix : List UInt8), Relation.ReflTransGen (Child (treeEntries u)) 1 inr →
    inodeRead u inr Inode.zero = (errNone, inode) → inode.isDirectory = true →
    (∀ b, Relation.TransGen (Child (treeEntries u)) inr b → b ≠ 1) →
    Shallow (treeEntries u) depth inr →
      direntv6PrintTree u (depth + 1) inr pathPrefix =
        some (errNone, dirLine inr pathPrefix ::
          (preorder (treeEntries u) depth inr).map (treeLine u pathPrefix)) := by
  induction depth with
  | zero =>
    intro inr inode pathPrefix reachable read directory _ shallow
    obtain ⟨entries, opened⟩ := direntv6Opendir_of_read u read directory
    have listable := directories inr inode reachable read directory
    have none : dirEntries u inode = [] := by
      rw [← entries, List.eq_nil_iff_forall_not_mem]
      rintro ⟨b, name⟩ record
      obtain ⟨less, positive, -⟩ := shallow.child record
      exact absurd positive (Nat.succ_ne_zero less).symm
    rw [direntv6PrintTree_opened u opened listable.whole, listable.read, none,
      if_neg fun both => absurd both.2 (by decide)]
    rfl
  | succ depth ih =>
    intro inr inode pathPrefix reachable read directory notRoot shallow
    obtain ⟨entries, opened⟩ := direntv6Opendir_of_read u read directory
    have listable := directories inr inode reachable read directory
    have listed : ∀ entry ∈ dirEntries u inode,
        printTreeRecord u (direntv6PrintTree u (depth + 1)) pathPrefix entry.1 entry.2 =
          some (errNone, treeLine u pathPrefix ([entry.2], entry.1) ::
            (preorder (treeEntries u) depth entry.1).map fun path =>
              treeLine u pathPrefix (entry.2 :: path.1, path.2)) := by
      rintro ⟨b, name⟩ mem
      have target := listable.targets _ mem
      have record := mem
      rw [← entries] at record
      have child : Child (treeEntries u) inr b := ⟨name, record⟩
      obtain ⟨less, same, below⟩ := shallow.child record
      cases same
      cases found : inodeRead u b Inode.zero with
      | mk ret file =>
        rw [found] at target
        obtain rfl : ret = errNone := target
        rw [printTreeRecord, found]
        simp only
        rw [if_neg (not_not.mpr rfl)]
        by_cases directory' : file.isDirectory = true
        · rw [if_pos directory', ih _ (reachable.tail child) found directory'
            (fun c later => notRoot c (.head child later)) below, treeLine_dir u found directory',
            dirLine_of_ne (notRoot b (.single child))]
          congr 3
          apply List.map_congr_left
          intro path _
          exact (treeLine_cons u pathPrefix name path.1 path.2).symm
        · have leaf : treeEntries u b = [] := by
            rcases direntv6Opendir_cases u b with ⟨-, -, none, -⟩ | ⟨other, again, directory''⟩
            · exact none
            · rw [found] at again
              cases again
              exact absurd directory'' directory'
          rw [if_neg directory', preorder_leaf leaf, List.map_nil, treeLine, found,
            if_neg directory', joined_singleton]
    rw [direntv6PrintTree_opened u opened listable.whole, listable.read,
      if_neg fun both => absurd both.2 (by decide), printEntries_listed listed, Option.map_some,
      preorder, List.map_flatMap, entries]
    simp only [List.map_cons, List.map_map]
    rfl

/-- A name is looked up by the record that has it. -/
theorem lookupName_iff {inr child : UInt16} {name : List UInt8}
    (reachable : Relation.ReflTransGen (Child (treeEntries u)) 1 inr) :
    lookupName u inr name = some (.ok child) ↔ (child, name) ∈ treeEntries u inr := by
  rcases direntv6Opendir_cases u inr with ⟨code, -, none, refused⟩ | ⟨inode, read, directory⟩
  · rw [lookupName, refused, none]
    exact iff_of_false (fun is => by cases is) List.not_mem_nil
  · obtain ⟨entries, opened⟩ := direntv6Opendir_of_read u read directory
    have listable := directories inr inode reachable read directory
    have records := readEntries_eq (opened (Block.fill sectorSize 0)) listable.whole
    rw [lookupName, opened, entries]
    simp only [lookupScan_eq name _ _ _ _ records]
    rw [← findName_eq_some_iff listable.distinct]
    cases findName name (dirEntries u inode) with
    | none => exact iff_of_false (fun is => by cases is) (fun is => by cases is)
    | some found =>
      simp only [Option.some.injEq, Except.ok.injEq]

/-- The walk of a lookup follows records. -/
theorem walk_iff {names : List (List UInt8)} : ∀ {inr found : UInt16},
    Relation.ReflTransGen (Child (treeEntries u)) 1 inr →
      (walk (lookupName u) inr names = some (.ok found) ↔
        Leads (treeEntries u) inr names found) := by
  induction names with
  | nil =>
    intro inr found _
    rw [walk]
    constructor
    · intro same
      cases same
      exact .here inr
    · intro leads
      cases leads
      rfl
  | cons name names ih =>
    intro inr found reachable
    rw [walk]
    constructor
    · intro arrives
      split at arrives
      · cases arrives
      · cases arrives
      · rename_i next taken
        have record := (lookupName_iff directories reachable).mp taken
        exact .step record ((ih (reachable.tail ⟨name, record⟩)).mp arrives)
    · intro leads
      cases leads with
      | step record rest =>
        rw [(lookupName_iff directories reachable).mpr record]
        exact (ih (reachable.tail ⟨name, record⟩)).mpr rest

/-- In every directory that can be reached no name stands twice. -/
theorem distinct_names (inr : UInt16)
    (reachable : Relation.ReflTransGen (Child (treeEntries u)) 1 inr) :
    ((treeEntries u inr).map Prod.snd).Nodup := by
  rcases direntv6Opendir_cases u inr with ⟨code, -, none, -⟩ | ⟨inode, read, directory⟩
  · rw [none]
    exact List.nodup_nil
  · rw [(direntv6Opendir_of_read u read directory).1]
    exact (directories inr inode reachable read directory).distinct

/-- The names of a path are components of paths. -/
theorem names_of_leads {inr found : UInt16} {names : List (List UInt8)}
    (leads : Leads (treeEntries u) inr names found)
    (reachable : Relation.ReflTransGen (Child (treeEntries u)) 1 inr) :
    ∀ name ∈ names, name ≠ [] ∧ pathToken ∉ name := by
  induction leads with
  | here =>
    intro name mem
    cases mem
  | @step inr child found name names record rest ih =>
    intro other mem
    rcases List.mem_cons.mp mem with rfl | mem
    · rcases direntv6Opendir_cases u inr with ⟨code, -, none, -⟩ | ⟨inode, read, directory⟩
      · rw [none] at record
        cases record
      · rw [(direntv6Opendir_of_read u read directory).1] at record
        exact (directories inr inode reachable read directory).names _ record
    · exact ih (reachable.tail ⟨name, record⟩) other mem

/-- A canonical path is looked up by following records. -/
theorem direntv6Dirlookup_iff {names : List (List UInt8)}
    (plain : ∀ name ∈ names, name ≠ [] ∧ pathToken ∉ name) {code : Int} (positive : 0 ≤ code) :
    direntv6Dirlookup u 1 (joined pathToken names) = some code ↔
      ∃ inr, Leads (treeEntries u) 1 names inr ∧ code = (inr.toNat : Int) := by
  rw [direntv6Dirlookup_eq, components_joined pathToken plain, trailing_joined pathToken plain]
  constructor
  · intro found
    obtain ⟨result, arrives, is⟩ := Option.map_eq_some_iff.mp found
    rw [lookupCode_zero] at is
    cases result with
    | error failed =>
      have negative := walk_error u 1 arrives
      rw [walkCode] at is
      omega
    | ok inr => exact ⟨inr, (walk_iff directories .refl).mp arrives, is.symm⟩
  · rintro ⟨inr, leads, rfl⟩
    rw [(walk_iff directories .refl).mpr leads, Option.map_some, lookupCode_zero]
    rfl

end Agreement

/-- Equal lines are those of equal paths. -/
theorem joined_of_treeLine (u : UnixFilesystem) {pathPrefix : List UInt8}
    {entry entry' : List (List UInt8) × UInt16}
    (same : treeLine u pathPrefix entry = treeLine u pathPrefix entry') :
    joined pathToken entry.1 = joined pathToken entry'.1 := by
  rw [treeLine, treeLine] at same
  split at same
  · split at same
    · have paths := TreeLine.dir.inj same
      rw [List.append_assoc, List.append_assoc] at paths
      exact List.append_cancel_right (List.append_cancel_left paths)
    · cases same
  · split at same
    · cases same
    · exact List.append_cancel_left (TreeLine.fil.inj same)

/-- The line of the root is that of no other path. -/
theorem treeLine_ne_root (u : UnixFilesystem) {names : List (List UInt8)} {inr : UInt16}
    (more : names ≠ []) : treeLine u [] (names, inr) ≠ dirLine 1 [] := by
  obtain ⟨name, rest, rfl⟩ := List.exists_cons_of_ne_nil more
  intro same
  rw [treeLine, joined_cons] at same
  split at same
  · have paths := congrArg List.length (TreeLine.dir.inj same)
    simp at paths
  · cases same

/-- The lines of a listing agree with the lookup of paths, for a list of paths and the inodes they
lead to, in the order of the records of directories. -/
structure Agrees (u : UnixFilesystem) (children : UInt16 → List (UInt16 × List UInt8))
    (lines : List TreeLine) (tree : List (List (List UInt8) × UInt16)) : Prop where
  /-- The line of the root comes first, and then one line for each path. -/
  printed : lines = .dir [pathToken] :: tree.map (treeLine u [])
  /-- Each path is canonical and is looked up as its inode. -/
  sound : ∀ names inr, (names, inr) ∈ tree →
    names ≠ [] ∧ (∀ name ∈ names, name ≠ [] ∧ pathToken ∉ name) ∧
      direntv6Dirlookup u 1 (joined pathToken names) = some (inr.toNat : Int)
  /-- Each canonical path that is looked up is listed. -/
  complete : ∀ names, names ≠ [] → (∀ name ∈ names, name ≠ [] ∧ pathToken ∉ name) →
    ∀ code, direntv6Dirlookup u 1 (joined pathToken names) = some code → 0 ≤ code →
      ∃ inr, (names, inr) ∈ tree
  /-- No line is printed twice. -/
  once : lines.Nodup
  /-- The lines are in depth-first order. -/
  order : tree.Pairwise fun x y => Before children 1 x.1 y.1

/-- The listing of a tree that is read without errors returns `ERR_NONE`, and its lines agree with
the lookup of paths. -/
theorem Listable.agrees {u : UnixFilesystem} (listable : Listable u) :
    ∃ lines, (∀ fuel > 65536, direntv6PrintTree u fuel 1 [] = some (errNone, lines)) ∧
      Agrees u (treeEntries u) lines (preorder (treeEntries u) 65536 1) := by
  obtain ⟨inode, read, directory⟩ := listable.root
  have directories := listable.directories
  have notRoot : ∀ b, Relation.TransGen (Child (treeEntries u)) 1 b → b ≠ 1 := by
    rintro b cycle rfl
    exact listable.acyclic 1 .refl cycle
  have shallow := listable.acyclic.shallow
  rw [card_inumbers] at shallow
  have listed := direntv6PrintTree_lines directories [] .refl read directory notRoot shallow
  refine ⟨_,
    fun fuel enough => direntv6PrintTree_mono u enough listed, ?_⟩
  have paths : ∀ {names inr}, (names, inr) ∈ preorder (treeEntries u) 65536 1 →
      names ≠ [] ∧ Leads (treeEntries u) 1 names inr ∧
        ∀ name ∈ names, name ≠ [] ∧ pathToken ∉ name := by
    intro names inr mem
    obtain ⟨more, -, leads⟩ := mem_preorder.mp mem
    exact ⟨more, leads, names_of_leads directories leads .refl⟩
  constructor
  case printed => rfl
  case sound =>
    intro names inr mem
    obtain ⟨more, leads, plain⟩ := paths mem
    exact ⟨more, plain, (direntv6Dirlookup_iff directories plain (Int.natCast_nonneg _)).mpr
      ⟨inr, leads, rfl⟩⟩
  case complete =>
    intro names more plain code found positive
    obtain ⟨inr, leads, -⟩ := (direntv6Dirlookup_iff directories plain positive).mp found
    exact ⟨inr, mem_preorder.mpr ⟨more, shallow names inr leads, leads⟩⟩
  case once =>
    have distinct := preorder_nodup (distinct_names directories) 65536
    apply List.nodup_cons.mpr
    constructor
    · intro mem
      obtain ⟨⟨names, inr⟩, there, same⟩ := List.mem_map.mp mem
      obtain ⟨more, -, -⟩ := paths there
      exact treeLine_ne_root u more same
    · refine List.Nodup.map_on ?_ (List.Nodup.of_map Prod.fst distinct)
      rintro ⟨names, inr⟩ mem ⟨names', inr'⟩ mem' same
      have equal := congrArg (components pathToken) (joined_of_treeLine u same)
      rw [components_joined pathToken (paths mem).2.2, components_joined pathToken
        (paths mem').2.2] at equal
      exact List.inj_on_of_nodup_map distinct mem mem' equal
  case order => exact preorder_pairwise 65536 1

end U6fs
